/-
What `rm` takes away. All operands are looked at before any is removed; but they are looked up again when their turn
comes, and then those before them are gone. What is taken away in the end is what was at the places of the operands or
below them. That an `rm` that fails takes nothing away holds if it fails when the operands are looked at, and otherwise
just if it forgives missing operands or no operand is on the way to a later one.
-/
import Mathlib
import Taskwork.FileTools.Basic
import Taskwork.Proofs.Files.Removal

namespace Taskwork.FileTools

open Files

variable {fs fs' : Files} {recursive force isDirectory : Bool} {path : String} {targets : List (String × Bool)}
  {paths : List String} {places : List Route}

/-! ## Looking at the operands -/

/-- A path that leads somewhere, with whether that is a directory. -/
def Target (fs : Files) (target : String × Bool) : Prop :=
  ∃ q e, fs.locate false target.1 = .ok (.found q e) ∧ (target.2 = true ↔ ∃ t, e = .directory t)

theorem statLink_eq_ok_iff {e : Entry} : fs.statLink path = .ok e ↔ ∃ q, fs.locate false path = .ok (.found q e) := by
  unfold statLink
  rcases fs.locate false path with f | ⟨r, e⟩ | ⟨r, name⟩ <;> simp [bind, Except.bind, pure, Except.pure]

/-- What is to be removed are the operands that lead somewhere; without force that is all of them. -/
theorem removable_eq_ok (h : removable fs recursive force paths = .ok targets) :
    (∀ x ∈ targets, x.1 ∈ paths ∧ Target fs x) ∧ (∀ p ∈ paths, There fs p → ∃ isDirectory, (p, isDirectory) ∈ targets) ∧
      (force = false → targets.map (·.1) = paths) := by
  induction paths generalizing targets with
  | nil =>
    cases h
    exact ⟨nofun, nofun, fun _ => rfl⟩
  | cons path rest ih =>
    have hadd {e : Entry} {isDirectory : Bool} (hstat : fs.statLink path = .ok e)
        (hkind : isDirectory = true ↔ ∃ t, e = .directory t)
        (h : (removable fs recursive force rest).map ((path, isDirectory) :: ·) = .ok targets) :
        (∀ x ∈ targets, x.1 ∈ path :: rest ∧ Target fs x) ∧
          (∀ p ∈ path :: rest, There fs p → ∃ isDirectory, (p, isDirectory) ∈ targets) ∧
          (force = false → targets.map (·.1) = path :: rest) := by
      obtain ⟨more, hmore, rfl⟩ : ∃ more, removable fs recursive force rest = .ok more ∧
          (path, isDirectory) :: more = targets := by
        rcases hmore : removable fs recursive force rest with f | more <;> rw [hmore] at h <;> cases h
        exact ⟨more, rfl, rfl⟩
      obtain ⟨htargets, hpaths, hall⟩ := ih hmore
      obtain ⟨q, hplace⟩ := statLink_eq_ok_iff.1 hstat
      refine ⟨List.forall_mem_cons.2 ⟨⟨List.mem_cons_self, q, e, hplace, hkind⟩, fun x hx => ?_⟩,
        List.forall_mem_cons.2 ⟨fun _ => ⟨_, List.mem_cons_self⟩, fun p hp hthere => ?_⟩, fun hforce => ?_⟩
      · exact ⟨List.mem_cons_of_mem _ (htargets x hx).1, (htargets x hx).2⟩
      · obtain ⟨isDirectory, hmem⟩ := hpaths p hp hthere
        exact ⟨isDirectory, List.mem_cons_of_mem _ hmem⟩
      · rw [List.map_cons, hall hforce]
    unfold removable at h
    split at h
    · rename_i t hstat
      split at h
      · exact hadd hstat ⟨fun _ => ⟨t, rfl⟩, fun _ => rfl⟩ h
      · cases h
    · rename_i e hother hstat
      exact hadd hstat ⟨fun h => Bool.noConfusion h, fun ⟨t, ht⟩ => (hother t ht).elim⟩ h
    · rename_i f hstat
      split at h
      · rename_i hforce
        obtain ⟨htargets, hpaths, -⟩ := ih h
        refine ⟨fun x hx => ⟨List.mem_cons_of_mem _ (htargets x hx).1, (htargets x hx).2⟩,
          List.forall_mem_cons.2 ⟨?_, hpaths⟩, fun hnot => by rw [hforce] at hnot; cases hnot⟩
        rintro ⟨q, e, hplace⟩
        rw [statLink_eq_ok_iff.2 ⟨q, hplace⟩] at hstat
        cases hstat
      · cases h

/-! ## Removing one of them -/

/-- What is done to remove a path, before it is decided whether a fault is forgiven. -/
def removal (fs : Files) (path : String) (isDirectory : Bool) : Files × Except FileFault Unit :=
  if isDirectory then fs.removeTree path
  else match fs.removeFile path with
    | .ok fs => (fs, .ok ())
    | .error f => (fs, .error f)

theorem removeOne_eq (force : Bool) (fs : Files) (path : String) (isDirectory : Bool) :
    removeOne force fs path isDirectory = match removal fs path isDirectory with
      | (fs, .ok ()) => (fs, .ok ())
      | (fs, .error f) => if force && f == .notFound then (fs, .ok ()) else (fs, .error (.remove path f)) := by
  unfold removeOne removal
  cases isDirectory with
  | true => rcases fs.removeTree path with ⟨after, f | _⟩ <;> rfl
  | false => rcases fs.removeFile path with f | after <;> rfl

theorem removal_eq_ok (h : removal fs path isDirectory = (fs', .ok ())) :
    (∃ r, LeadsTo fs path r ∧ Pruned r fs fs') ∧ ¬ There fs' path := by
  cases isDirectory with
  | true => exact pruned_of_removeTree h
  | false =>
    unfold removal at h
    rw [if_neg Bool.false_ne_true] at h
    split at h
    · rename_i after hremoved
      cases h
      exact pruned_of_removeFile hremoved
    · cases h

theorem removal_not_found (h : removal fs path isDirectory = (fs', .error .notFound)) :
    fs' = fs ∧ ¬ There fs path := by
  cases isDirectory with
  | true => exact removeTree_not_found h
  | false =>
    unfold removal at h
    rw [if_neg Bool.false_ne_true] at h
    split at h
    · cases h
    · rename_i hremoved
      cases h
      exact ⟨rfl, removeFile_not_found hremoved⟩

theorem shrinks_removal (fs : Files) (path : String) (isDirectory : Bool) :
    Grows (removal fs path isDirectory).1 fs := by
  cases isDirectory with
  | true => exact shrinks_removeTree fs path
  | false =>
    unfold removal
    rw [if_neg Bool.false_ne_true]
    split
    · rename_i after hremoved
      obtain ⟨⟨r, -, hpruned⟩, -⟩ := pruned_of_removeFile hremoved
      exact hpruned.shrinks
    · exact .refl fs

/-- A path that was removed leads nowhere, and only what was at its place or below it was taken away. -/
theorem removeOne_eq_ok (h : removeOne force fs path isDirectory = (fs', .ok ())) :
    ¬ There fs' path ∧ Grows fs' fs ∧
      ∀ r, fs.entry? r ≠ none → fs'.entry? r = none → ∃ q, LeadsTo fs path q ∧ q <+: r := by
  rw [removeOne_eq] at h
  rcases hremoved : removal fs path isDirectory with ⟨after, f | ⟨⟩⟩ <;> rw [hremoved] at h
  · dsimp only at h
    split at h
    · rename_i hforgiven
      cases h
      rw [Bool.and_eq_true, beq_iff_eq] at hforgiven
      obtain ⟨rfl, hgone⟩ := removal_not_found (hforgiven.2 ▸ hremoved)
      exact ⟨hgone, .refl _, fun r hr hnone => absurd hnone hr⟩
    · cases h
  · cases h
    obtain ⟨⟨q, hleads, hpruned⟩, hgone⟩ := removal_eq_ok hremoved
    refine ⟨hgone, hpruned.shrinks, fun r hr hnone => ⟨q, hleads, ?_⟩⟩
    have hlost := hpruned.rest.none hnone
    rw [entry?_drop] at hlost
    split at hlost
    · rename_i hleading
      exact List.isPrefixOf_iff_prefix.1 hleading
    · exact absurd hlost hr

theorem shrinks_removeOne (force : Bool) (fs : Files) (path : String) (isDirectory : Bool) :
    Grows (removeOne force fs path isDirectory).1 fs := by
  have hshrinks := shrinks_removal fs path isDirectory
  rw [removeOne_eq]
  rcases hremoved : removal fs path isDirectory with ⟨after, f | _⟩ <;> rw [hremoved] at hshrinks
  · dsimp only
    split <;> exact hshrinks
  · exact hshrinks

/-- What is still there is removed with all that is below. -/
theorem removeOne_of_there (force : Bool) (hfs : fs.Sound) (htarget : Target fs (path, isDirectory))
    (hown : OwnName fs path) (h : Akin fs' (fs.drop (under places))) (hthere : There fs' path) :
    ∃ q fs'', LeadsTo fs path q ∧ removeOne force fs' path isDirectory = (fs'', .ok ()) ∧
      Akin fs'' (fs.drop (under (q :: places))) := by
  obtain ⟨q, e, hplace, hkind⟩ := htarget
  cases isDirectory with
  | true =>
    obtain ⟨t, rfl⟩ := hkind.1 rfl
    obtain ⟨fs'', hremoved, hleft⟩ := removeTree_of_there hfs h hplace hown hthere
    refine ⟨q, fs'', ⟨_, hplace⟩, ?_, hleft⟩
    rw [removeOne_eq, show removal fs' path true = fs'.removeTree path from rfl, hremoved]
  | false =>
    obtain ⟨fs'', hremoved, hleft⟩ :=
      removeFile_of_there hfs h hplace (fun hdirectory => Bool.noConfusion (hkind.2 hdirectory)) hthere
    refine ⟨q, fs'', ⟨_, hplace⟩, ?_, hleft⟩
    have hremoval : removal fs' path false = (fs'', .ok ()) := by
      unfold removal
      rw [if_neg Bool.false_ne_true, hremoved]
    rw [removeOne_eq, hremoval]

/-- What is gone when its turn comes is not found, which may be forgiven. -/
theorem removeOne_of_gone (force : Bool) (hfs : fs.Sound) (htarget : Target fs (path, isDirectory))
    (h : Grows fs' fs) (hgone : ¬ There fs' path) :
    removeOne force fs' path isDirectory =
      if force then (fs', .ok ()) else (fs', .error (.remove path .notFound)) := by
  obtain ⟨q, e, hplace, hkind⟩ := htarget
  have hremoval : removal fs' path isDirectory = (fs', .error .notFound) := by
    cases isDirectory with
    | true => exact removeTree_of_gone h hplace hgone
    | false =>
      unfold removal
      rw [if_neg Bool.false_ne_true,
        removeFile_of_gone hfs h hplace (fun hdirectory => Bool.noConfusion (hkind.2 hdirectory)) hgone]
  rw [removeOne_eq, hremoval]
  cases force <;> rfl

/-! ## Removing all of them -/

theorem removeAll_cons_ok {after : Files} (h : removeOne force fs path isDirectory = (after, .ok ())) :
    removeAll force fs ((path, isDirectory) :: targets) = removeAll force after targets := by
  rw [removeAll, h]

theorem removeAll_cons_error {after : Files} {f : Fault} (h : removeOne force fs path isDirectory = (after, .error f)) :
    removeAll force fs ((path, isDirectory) :: targets) = (after, .error f) := by
  rw [removeAll, h]

theorem shrinks_removeAll (force : Bool) (fs : Files) (targets : List (String × Bool)) :
    Grows (removeAll force fs targets).1 fs := by
  induction targets generalizing fs with
  | nil => exact .refl fs
  | cons target rest ih =>
    obtain ⟨path, isDirectory⟩ := target
    have hshrinks := shrinks_removeOne force fs path isDirectory
    rcases hone : removeOne force fs path isDirectory with ⟨after, f | _⟩ <;> rw [hone] at hshrinks
    · rw [removeAll_cons_error hone]
      exact hshrinks
    · rw [removeAll_cons_ok hone]
      exact (ih after).trans hshrinks

/-- What was removed one after the other leads nowhere, and only what was at one of the places or below one of them was
taken away. -/
theorem removeAll_eq_ok (h : removeAll force fs targets = (fs', .ok ())) :
    (∀ x ∈ targets, ¬ There fs' x.1) ∧ Grows fs' fs ∧
      ∀ r, fs.entry? r ≠ none → fs'.entry? r = none → ∃ x ∈ targets, ∃ q, LeadsTo fs x.1 q ∧ q <+: r := by
  induction targets generalizing fs with
  | nil =>
    cases h
    exact ⟨nofun, .refl _, fun r hr hnone => absurd hnone hr⟩
  | cons target rest ih =>
    obtain ⟨path, isDirectory⟩ := target
    rcases hone : removeOne force fs path isDirectory with ⟨after, f | _⟩
    · rw [removeAll_cons_error hone] at h
      cases h
    rw [removeAll_cons_ok hone] at h
    obtain ⟨hgone, hshrinks, htaken⟩ := removeOne_eq_ok hone
    obtain ⟨hall, hlater, hrest⟩ := ih h
    refine ⟨List.forall_mem_cons.2 ⟨fun hthere => hgone (hlater.there_path hthere), hall⟩, hlater.trans hshrinks,
      fun r hr hnone => ?_⟩
    by_cases hafter : after.entry? r = none
    · obtain ⟨q, hleads, hleading⟩ := htaken r hr hafter
      exact ⟨(path, isDirectory), List.mem_cons_self, q, hleads, hleading⟩
    · obtain ⟨x, hx, q, hleads, hleading⟩ := hrest r hafter hnone
      exact ⟨x, List.mem_cons_of_mem _ hx, q, hshrinks.leadsTo hleads, hleading⟩

/-- The second path still leads somewhere when the place of the first one is taken away with all that is below. -/
def Spares (fs : Files) (path later : String) : Prop :=
  ∀ r, LeadsTo fs path r → There (fs.drop (r.isPrefixOf ·)) later

theorem spares_iff {q : Route} (h : LeadsTo fs path q) (later : String) :
    Spares fs path later ↔ There (fs.drop (q.isPrefixOf ·)) later :=
  ⟨fun hspares => hspares q h, fun hthere _ hr => h.unique hr ▸ hthere⟩

theorem Target.there (h : Target fs (path, isDirectory)) : There fs path := by
  obtain ⟨q, e, hplace, -⟩ := h
  exact ⟨q, e, hplace⟩

section

variable (hfs : fs.Sound)
include hfs

/-- Where missing operands are forgiven nothing fails. -/
theorem removeAll_force (htargets : ∀ x ∈ targets, Target fs x ∧ OwnName fs x.1)
    (h : Akin fs' (fs.drop (under places))) : ∃ fs'', removeAll true fs' targets = (fs'', .ok ()) := by
  induction targets generalizing fs' places with
  | nil => exact ⟨fs', rfl⟩
  | cons target rest ih =>
    obtain ⟨path, isDirectory⟩ := target
    obtain ⟨⟨htarget, hown⟩, hrest⟩ := List.forall_mem_cons.1 htargets
    by_cases hthere : There fs' path
    · obtain ⟨q, fs'', -, hone, hleft⟩ := removeOne_of_there true hfs htarget hown h hthere
      rw [removeAll_cons_ok hone]
      exact ih hrest hleft
    · have hone := removeOne_of_gone true hfs htarget (h.grows.trans (.ofDrop fs _)) hthere
      rw [removeAll_cons_ok hone]
      exact ih hrest h

/-- All are removed just if each of them is still there when its turn comes. -/
theorem removeAll_iff (htargets : ∀ x ∈ targets, Target fs x ∧ OwnName fs x.1)
    (h : Akin fs' (fs.drop (under places))) :
    (∃ fs'', removeAll false fs' targets = (fs'', .ok ())) ↔
      (∀ x ∈ targets, ∀ q ∈ places, There (fs.drop (q.isPrefixOf ·)) x.1) ∧
        targets.Pairwise fun x y => Spares fs x.1 y.1 := by
  induction targets generalizing fs' places with
  | nil => exact ⟨fun _ => ⟨nofun, .nil⟩, fun _ => ⟨fs', rfl⟩⟩
  | cons target rest ih =>
    obtain ⟨path, isDirectory⟩ := target
    obtain ⟨⟨htarget, hown⟩, hrest⟩ := List.forall_mem_cons.1 htargets
    have hthere : There fs' path ↔ ∀ q ∈ places, There (fs.drop (q.isPrefixOf ·)) path := by
      rw [← there_under_iff htarget.there]
      exact ⟨h.grows.there_path, h.shrinks.there_path⟩
    by_cases hstill : There fs' path
    · obtain ⟨q, fs'', hleads, hone, hleft⟩ := removeOne_of_there false hfs htarget hown h hstill
      rw [removeAll_cons_ok hone, ih hrest hleft, List.pairwise_cons, List.forall_mem_cons]
      constructor
      · rintro ⟨hplaces, hpairs⟩
        refine ⟨⟨hthere.1 hstill, fun x hx r hr => hplaces x hx r (List.mem_cons_of_mem _ hr)⟩, fun x hx => ?_, hpairs⟩
        exact (spares_iff hleads x.1).2 (hplaces x hx q List.mem_cons_self)
      · rintro ⟨⟨-, hplaces⟩, hspares, hpairs⟩
        refine ⟨fun x hx => List.forall_mem_cons.2 ⟨?_, hplaces x hx⟩, hpairs⟩
        exact (spares_iff hleads x.1).1 (hspares x hx)
    · have hone := removeOne_of_gone false hfs htarget (h.grows.trans (.ofDrop fs _)) hstill
      rw [removeAll_cons_error hone]
      constructor
      · rintro ⟨fs'', hfails⟩
        cases hfails
      · rintro ⟨hplaces, -⟩
        exact absurd (hthere.2 (List.forall_mem_cons.1 hplaces).1) hstill

/-- If removing them fails some were removed, and the tree is another one. -/
theorem removeAll_ne {f : Fault} (htargets : ∀ x ∈ targets, Target fs x ∧ OwnName fs x.1)
    (h : removeAll force fs targets = (fs', .error f)) : fs' ≠ fs := by
  cases targets with
  | nil => cases h
  | cons target rest =>
    obtain ⟨path, isDirectory⟩ := target
    obtain ⟨htarget, hown⟩ := htargets _ List.mem_cons_self
    have hnone : Akin fs (fs.drop (under [])) := .drop_none fun _ _ => rfl
    obtain ⟨q, after, ⟨e, hplace⟩, hone, hleft⟩ :=
      removeOne_of_there force hfs htarget hown hnone htarget.there
    rw [removeAll_cons_ok hone] at h
    have hlater := shrinks_removeAll force after rest
    rw [h] at hlater
    rintro rfl
    have hgone : after.entry? q = none := by
      refine hleft.grows.none ?_
      rw [entry?_drop, if_pos (by simp [under])]
    have hentry := entry?_of_locate hplace
    rw [hlater.none hgone] at hentry
    cases hentry

end

/-! ## The tool -/

/-- The flags of `rm`. -/
def rmFlags : List Flag := [⟨'r', ['R']⟩, ⟨'f', []⟩]

/-- Whether `rm` refuses its operands before it removes any of them. -/
def Refuses (fs : Files) (flags : List Char) (paths : List String) : Prop :=
  ∃ f, removable fs (flags.contains 'r') (flags.contains 'f') paths = .error f

theorem rm_eq {directory : String} {args : List String} {flags : List Char}
    (hoperands : operands rmFlags directory args = .ok (flags, paths)) :
    rm fs directory args = match removable fs (flags.contains 'r') (flags.contains 'f') paths with
      | .error f => (fs, .error f)
      | .ok targets => removeAll (flags.contains 'f') fs targets := by
  unfold rmFlags at hoperands
  unfold rm
  exact hoperands ▸ rfl

/-- An `rm` that succeeds leaves none of its operands, and takes away only what was at the place of an operand or below
an operand that was a directory. -/
theorem rm_eq_ok (hfs : fs.Sound) {directory : String} {args : List String} {flags : List Char}
    (hoperands : operands rmFlags directory args = .ok (flags, paths))
    (h : rm fs directory args = (fs', .ok ())) :
    (∀ p ∈ paths, ¬ There fs' p) ∧
      ∀ r, fs.entry? r ≠ none → fs'.entry? r = none → ∃ p ∈ paths, ∃ q e, fs.locate false p = .ok (.found q e) ∧
        (r = q ∨ (∃ t, e = .directory t) ∧ isBelow q r = true) := by
  rw [rm_eq hoperands] at h
  split at h
  · cases h
  rename_i targets hremovable
  obtain ⟨htargets, hpaths, -⟩ := removable_eq_ok hremovable
  obtain ⟨hgone, hshrinks, htaken⟩ := removeAll_eq_ok h
  refine ⟨fun p hp hthere => ?_, fun r hr hnone => ?_⟩
  · obtain ⟨isDirectory, hmem⟩ := hpaths p hp (hshrinks.there_path hthere)
    exact hgone _ hmem hthere
  · obtain ⟨x, hx, q, ⟨e, hplace⟩, below, rfl⟩ := htaken r hr hnone
    refine ⟨x.1, (htargets x hx).1, q, e, hplace, ?_⟩
    cases below with
    | nil => exact .inl (List.append_nil q)
    | cons name more =>
      obtain ⟨e', he'⟩ := Option.ne_none_iff_exists'.1 hr
      obtain ⟨t, ht⟩ := hfs.above he' (List.cons_ne_nil _ _)
      exact .inr ⟨⟨t, Option.some.inj ((entry?_of_locate hplace).symm.trans ht)⟩, isBelow_iff.2 ⟨name, more, rfl⟩⟩

/-- When operands were not refused, removing them fails just if some operand takes away a later one. -/
theorem rm_fails_iff (hfs : fs.Sound) {directory : String} {args : List String} {flags : List Char}
    (hoperands : operands rmFlags directory args = .ok (flags, paths)) (hown : ∀ p ∈ paths, OwnName fs p) :
    (∀ fs' f, rm fs directory args = (fs', .error f) → fs' = fs) ↔
      Refuses fs flags paths ∨ 'f' ∈ flags ∨ paths.Pairwise (Spares fs) := by
  rw [rm_eq hoperands]
  cases hremovable : removable fs (flags.contains 'r') (flags.contains 'f') paths with
  | error f =>
    refine ⟨fun _ => .inl ⟨f, hremovable⟩, fun _ => ?_⟩
    rintro fs' f' ⟨⟩
    rfl
  | ok targets =>
    obtain ⟨htargets, -, hall⟩ := removable_eq_ok hremovable
    have hproper : ∀ x ∈ targets, Target fs x ∧ OwnName fs x.1 := fun x hx =>
      ⟨(htargets x hx).2, hown x.1 (htargets x hx).1⟩
    have hnone : Akin fs (fs.drop (under [])) := .drop_none fun _ _ => rfl
    have hfails : (∀ fs' f, removeAll (flags.contains 'f') fs targets = (fs', .error f) → fs' = fs) ↔
        ∃ fs', removeAll (flags.contains 'f') fs targets = (fs', .ok ()) := by
      constructor
      · intro hsame
        rcases hrun : removeAll (flags.contains 'f') fs targets with ⟨fs', f | _⟩
        · exact absurd (hsame fs' f hrun) (removeAll_ne hfs hproper hrun)
        · exact ⟨fs', rfl⟩
      · rintro ⟨fs'', hok⟩ fs' f hrun
        rw [hok] at hrun
        cases hrun
    have hrefuses : ¬ Refuses fs flags paths := by
      rintro ⟨f, hf⟩
      rw [hremovable] at hf
      cases hf
    dsimp only
    rw [hfails, or_iff_right hrefuses]
    by_cases hforce : 'f' ∈ flags
    · rw [show flags.contains 'f' = true by simpa using hforce]
      exact iff_of_true (removeAll_force hfs hproper hnone) (.inl hforce)
    · have hcontains : flags.contains 'f' = false := by simpa using hforce
      rw [hcontains, removeAll_iff hfs hproper hnone, or_iff_right hforce, ← hall hcontains, List.pairwise_map]
      exact and_iff_right fun x hx q hq => by cases hq

/-- An `rm` that succeeds leaves none of its operands, and takes away only what was at the place of an operand or below
an operand that was a directory. Faults in its arguments change nothing. If the path of each operand that is a directory
has the name of that, then a failure changes nothing just if the operands were refused when they were looked at, missing
ones are forgiven, or each operand spares all later ones. -/
theorem rm_all_or_nothing_iff (hfs : fs.Sound) (directory : String) (args : List String) :
    (∀ f, operands rmFlags directory args = .error f → rm fs directory args = (fs, .error f)) ∧
    ∀ flags paths, operands rmFlags directory args = .ok (flags, paths) →
      (∀ fs', rm fs directory args = (fs', .ok ()) → (∀ p ∈ paths, ¬ There fs' p) ∧
        ∀ r, fs.entry? r ≠ none → fs'.entry? r = none → ∃ p ∈ paths, ∃ q e, fs.locate false p = .ok (.found q e) ∧
          (r = q ∨ (∃ t, e = .directory t) ∧ isBelow q r = true)) ∧
      ((∀ p ∈ paths, OwnName fs p) →
        ((∀ fs' f, rm fs directory args = (fs', .error f) → fs' = fs) ↔
          Refuses fs flags paths ∨ 'f' ∈ flags ∨ paths.Pairwise (Spares fs))) := by
  refine ⟨fun f hoperands => ?_, fun flags paths hoperands =>
    ⟨fun fs' hok => rm_eq_ok hfs hoperands hok, fun hown => rm_fails_iff hfs hoperands hown⟩⟩
  unfold rmFlags at hoperands
  unfold rm
  rw [hoperands]

/-! ## A yard -/

/-- A tree with a file y and a directory d in which there is a file x. -/
def yard : Files :=
  ⟨[([], .directory 0), (["d"], .directory 0), (["d", "x"], .file 0), (["y"], .file 1)],
    [⟨[1], 0⟩, ⟨[2], 0⟩], [], 0, []⟩

/-- `rm -r d y` in the yard: both are removed. -/
theorem yard_cleared :
    yard.Sound ∧ operands rmFlags "/" ["-r", "d", "y"] = .ok (['r'], ["/d", "/y"]) ∧
      (∀ p ∈ ["/d", "/y"], OwnName yard p) ∧ ["/d", "/y"].Pairwise (Spares yard) ∧
      (rm yard "/" ["-r", "d", "y"]).2 = .ok () ∧ (∀ p ∈ ["/d", "/y"], ¬ There (rm yard "/" ["-r", "d", "y"]).1 p) ∧
      ∀ fs' f, rm yard "/" ["-r", "d", "y"] = (fs', .error f) → fs' = yard := by
  have hsound : yard.Sound := by decide +kernel
  have hoperands : operands rmFlags "/" ["-r", "d", "y"] = .ok (['r'], ["/d", "/y"]) := by cbv
  have hdir : yard.locate false "/d" = .ok (.found ["d"] (.directory 0)) := by cbv
  have hfile : yard.locate false "/y" = .ok (.found ["y"] (.file 1)) := by cbv
  have hown : ∀ p ∈ ["/d", "/y"], OwnName yard p := by
    intro p hp r t hplace
    rcases List.mem_pair.1 hp with rfl | rfl
    · rw [hdir] at hplace
      cases hplace
      exact ⟨[], "d", false, by cbv, rfl⟩
    · rw [hfile] at hplace
      cases hplace
  have hspares : ["/d", "/y"].Pairwise (Spares yard) := by
    rw [List.pairwise_pair]
    exact (spares_iff ⟨_, hdir⟩ "/y").2 ⟨["y"], .file 1, by cbv⟩
  obtain ⟨hdone, hfails⟩ := (rm_all_or_nothing_iff hsound "/" ["-r", "d", "y"]).2 _ _ hoperands
  have hok : (rm yard "/" ["-r", "d", "y"]).2 = .ok () := by cbv
  exact ⟨hsound, hoperands, hown, hspares, hok, (hdone _ (Prod.ext rfl hok)).1,
    (hfails hown).2 (.inr (.inr hspares))⟩

/-- `rm y y` in the yard fails and has removed y, and so does `rm -r .` in d with all that is there. -/
theorem yard_removed_and_refused :
    (rm yard "/" ["y", "y"]).2 = .error (.remove "/y" .notFound) ∧ yard.entry? ["y"] = some (.file 1) ∧
      Files.entry? (rm yard "/" ["y", "y"]).1 ["y"] = none ∧
      (rm yard "/d" ["-r", "."]).2 = .error (.remove "/d/." .invalid) ∧ yard.entry? ["d", "x"] = some (.file 0) ∧
      Files.entry? (rm yard "/d" ["-r", "."]).1 ["d", "x"] = none := by
  refine ⟨?_, ?_, ?_, ?_, ?_, ?_⟩ <;> cbv

end Taskwork.FileTools
