/-
Trees from which something was removed. A walk finds in a tree what it finds in a smaller one (`Grows.walk_found`), in
the smaller one it finds the same or nothing (`Grows.walk_back`), and it finds something in what is left after two
removals if it does after each of them (`walk_meet`). Removing a file, a directory or a tree takes away what is at the
place that the path leads to and below it, and nothing else.
-/
import Taskwork.Files.Change
import Taskwork.Proofs.Files.Parent
import Mathlib.Data.List.Induction

namespace Taskwork.Files

variable {fs fs' : Files} {follow slash : Bool} {links : Nat} {path name : String} {at_ d q r : Route} {e e' : Entry}
  {t : Instant} {last : LastName} {names : List String} {gone gone' : Route → Bool} {f : FileFault}

/-! ## Taking entries away -/

theorem entry?_drop (fs : Files) (gone : Route → Bool) (r : Route) :
    Files.entry? (fs.drop gone) r = if gone r then none else fs.entry? r := by
  unfold entry? drop
  dsimp only
  rw [List.find?_filter]
  split
  · rename_i hgone
    rw [Option.map_eq_none_iff, List.find?_eq_none]
    rintro row - hrow
    simp only [beq_iff_eq, decide_eq_true_eq] at hrow
    rw [hrow.2, hgone] at hrow
    exact Bool.noConfusion hrow.1
  · rename_i hgone
    congr 2
    funext row
    by_cases hrow : row.1 = r
    · simp [hrow, hgone]
    · simp [hrow]

namespace Grows

theorem refl (fs : Files) : Grows fs fs := ofSameTree (.refl fs)

theorem there (h : Grows fs fs') (hr : fs.entry? r = some e) : ∃ e', fs'.entry? r = some e' := by
  by_cases hdirectory : ∃ t, e = .directory t
  · obtain ⟨t, rfl⟩ := hdirectory
    obtain ⟨t', ht'⟩ := h.directory hr
    exact ⟨_, ht'⟩
  · exact ⟨e, h.other hr fun t he => hdirectory ⟨t, he⟩⟩

theorem none (h : Grows fs fs') (hr : fs'.entry? r = none) : fs.entry? r = none := by
  cases hthere : fs.entry? r with
  | none => rfl
  | some e =>
    obtain ⟨e', he'⟩ := h.there hthere
    rw [hr] at he'
    cases he'

/-- The same kind of thing is at a place of both trees. -/
theorem directory_iff (h : Grows fs fs') (hr : fs.entry? r = some e) (hr' : fs'.entry? r = some e') :
    (∃ t, e = .directory t) ↔ ∃ t, e' = .directory t := by
  constructor
  · rintro ⟨t, rfl⟩
    obtain ⟨t', ht'⟩ := h.directory hr
    exact ⟨t', Option.some.inj (hr'.symm.trans ht')⟩
  · rintro ⟨t', rfl⟩
    by_contra hother
    have hsame := h.other hr fun t he => hother ⟨t, he⟩
    exact hother ⟨t', Option.some.inj (hsame.symm.trans hr')⟩

theorem drop (h : Grows fs fs') (gone : Route → Bool) : Grows (fs.drop gone) (fs'.drop gone) where
  here := h.here
  directory {r t} hr := by
    rw [entry?_drop] at hr ⊢
    split at hr
    · cases hr
    · rename_i hthere
      rw [if_neg hthere]
      exact h.directory hr
  other {r e} hr he := by
    rw [entry?_drop] at hr ⊢
    split at hr
    · cases hr
    · rename_i hthere
      rw [if_neg hthere]
      exact h.other hr he

/-- The more is taken away the less is left. -/
theorem drop_of_imp (h : ∀ r, gone r = true → gone' r = true) : Grows (fs.drop gone') (fs.drop gone) := by
  have hkept {r : Route} {e : Entry} (hr : Files.entry? (fs.drop gone') r = some e) :
      Files.entry? (fs.drop gone) r = some e := by
    rw [entry?_drop] at hr ⊢
    split at hr
    · cases hr
    · rename_i hthere
      rwa [if_neg fun hgone => hthere (h r hgone)]
  exact ⟨rfl, fun hr => ⟨_, hkept hr⟩, fun hr _ => hkept hr⟩

theorem ofDrop (fs : Files) (gone : Route → Bool) : Grows (fs.drop gone) fs := by
  have hkept {r : Route} {e : Entry} (hr : Files.entry? (fs.drop gone) r = some e) : fs.entry? r = some e := by
    rw [entry?_drop] at hr
    split at hr
    · cases hr
    · exact hr
  exact ⟨rfl, fun hr => ⟨_, hkept hr⟩, fun hr _ => hkept hr⟩

theorem ofTouch (fs : Files) (r : Route) : Grows (fs.touch r) fs where
  here := (here_touch ..).symm
  directory {q t} hq := by
    rcases entry?_touch fs r q with h | ⟨t', h, -⟩
    · exact ⟨t, h ▸ hq⟩
    · exact ⟨t', h⟩
  other {q e} hq he := by
    rcases entry?_touch fs r q with h | ⟨-, -, h⟩
    · exact h ▸ hq
    · exact absurd (Option.some.inj (hq.symm.trans h)) (he _)

end Grows

/-- The same tree, but for the times of directories. -/
structure Akin (fs fs' : Files) : Prop where
  grows : Grows fs fs'
  shrinks : Grows fs' fs

namespace Akin

theorem refl (fs : Files) : Akin fs fs := ⟨.refl fs, .refl fs⟩

theorem symm (h : Akin fs fs') : Akin fs' fs := ⟨h.shrinks, h.grows⟩

theorem trans {fs'' : Files} (h : Akin fs fs') (h' : Akin fs' fs'') : Akin fs fs'' :=
  ⟨h.grows.trans h'.grows, h'.shrinks.trans h.shrinks⟩

theorem drop (h : Akin fs fs') (gone : Route → Bool) : Akin (fs.drop gone) (fs'.drop gone) :=
  ⟨h.grows.drop gone, h.shrinks.drop gone⟩

theorem touch (fs : Files) (r : Route) : Akin fs (fs.touch r) := ⟨.touch fs r, .ofTouch fs r⟩

theorem tick (fs : Files) : Akin fs fs.tick := ⟨.ofSameTree ⟨rfl, rfl⟩, .ofSameTree ⟨rfl, rfl⟩⟩

/-- What is taken away, noting it in a directory. -/
theorem removed (fs : Files) (gone : Route → Bool) (d : Route) : Akin (fs.drop gone) ((fs.tick.drop gone).touch d) :=
  ((tick fs).drop gone).trans (touch _ d)

theorem ofEntries (hhere : fs'.here = fs.here) (h : ∀ r, fs.entry? r = fs'.entry? r) : Akin fs fs' where
  grows := ⟨hhere, fun {r t} hr => ⟨t, h r ▸ hr⟩, fun {r _} hr _ => h r ▸ hr⟩
  shrinks := ⟨hhere.symm, fun {r t} hr => ⟨t, (h r).symm ▸ hr⟩, fun {r _} hr _ => (h r).symm ▸ hr⟩

/-- It does not matter whether what is not there is taken away. -/
theorem drop_congr (h : ∀ r, fs.entry? r ≠ none → gone r = gone' r) : Akin (fs.drop gone) (fs.drop gone') := by
  refine ofEntries rfl fun r => ?_
  rw [entry?_drop, entry?_drop]
  by_cases hr : fs.entry? r = none
  · simp [hr]
  · rw [h r hr]

theorem drop_none (h : ∀ r, fs.entry? r ≠ none → gone r = false) : Akin fs (fs.drop gone) := by
  refine ofEntries rfl fun r => ?_
  rw [entry?_drop]
  by_cases hr : fs.entry? r = none
  · simp [hr]
  · rw [h r hr, if_neg Bool.false_ne_true]

theorem drop_drop (fs : Files) (gone gone' : Route → Bool) :
    Akin ((fs.drop gone).drop gone') (fs.drop fun r => gone' r || gone r) := by
  refine ofEntries rfl fun r => ?_
  rw [entry?_drop, entry?_drop, entry?_drop]
  cases gone' r <;> simp

end Akin

/-! ## Walks in smaller trees -/

/-- A walk that found nothing because something was not there. -/
def Missed : Except FileFault Place → Prop
  | .error f => f = .notFound
  | .ok (.vacant _ _) => True
  | .ok (.found _ _) => False

theorem Grows.walk_found (h : Grows fs fs') (hwalk : fs.walk follow links at_ names = .ok (.found r e)) :
    ∃ e', fs'.walk follow links at_ names = .ok (.found r e') := by
  have hdirectory := @h.directory
  have hother := @h.other
  fun_induction Files.walk fs follow links at_ names <;> unfold Files.walk <;> grind

theorem Grows.walk_back (h : Grows fs fs') (hwalk : fs'.walk follow links at_ names = .ok (.found r e')) :
    (∃ e, fs.walk follow links at_ names = .ok (.found r e)) ∨ Missed (fs.walk follow links at_ names) := by
  have hdirectory := @h.directory
  have hother := @h.other
  fun_induction Files.walk fs' follow links at_ names <;> unfold Files.walk <;> grind [Missed]

theorem walk_meet (hwalk : (fs.drop gone).walk follow links at_ names = .ok (.found r e))
    (hwalk' : (fs.drop gone').walk follow links at_ names = .ok (.found q e')) :
    (fs.drop fun r => gone r || gone' r).walk follow links at_ names = .ok (.found r e) := by
  fun_induction Files.walk (fs.drop gone) follow links at_ names <;> unfold Files.walk at hwalk' ⊢ <;>
    grind [entry?_drop]

/-! ## Paths in smaller trees -/

/-- A path leads to a place; a link at its end is that place itself. -/
def LeadsTo (fs : Files) (path : String) (r : Route) : Prop := ∃ e, fs.locate false path = .ok (.found r e)

/-- A path leads somewhere. -/
def There (fs : Files) (path : String) : Prop := ∃ r, LeadsTo fs path r

theorem LeadsTo.unique (h : LeadsTo fs path r) (h' : LeadsTo fs path q) : r = q := by
  obtain ⟨e, hplace⟩ := h
  obtain ⟨e', hplace'⟩ := h'
  rw [hplace] at hplace'
  cases hplace'
  rfl

namespace Grows

theorem locate_found (h : Grows fs fs') (hplace : fs.locate follow path = .ok (.found r e)) :
    ∃ e', fs'.locate follow path = .ok (.found r e') := by
  unfold locate origin at hplace ⊢
  rw [h.here]
  split at hplace
  · cases hplace
  rename_i hnul
  rw [if_neg hnul]
  split at hplace
  · cases hplace
  rename_i hempty
  rw [if_neg hempty]
  exact h.walk_found hplace

theorem leadsTo (h : Grows fs fs') (hpath : LeadsTo fs path r) : LeadsTo fs' path r := by
  obtain ⟨e, hplace⟩ := hpath
  exact h.locate_found hplace

theorem there_path (h : Grows fs fs') (hpath : There fs path) : There fs' path := by
  obtain ⟨r, hr⟩ := hpath
  exact ⟨r, h.leadsTo hr⟩

theorem locate_back (h : Grows fs fs') (hplace : fs'.locate follow path = .ok (.found r e)) :
    (∃ e, fs.locate follow path = .ok (.found r e)) ∨ Missed (fs.locate follow path) := by
  unfold locate origin at hplace ⊢
  rw [h.here] at hplace
  split at hplace
  · cases hplace
  rename_i hnul
  rw [if_neg hnul]
  split at hplace
  · cases hplace
  rename_i hempty
  rw [if_neg hempty]
  exact h.walk_back hplace

end Grows

theorem parent_of_walk {start : List String} (hparts : Parts path start name slash) (hlast : lastName name = .ok last)
    (hwalk : fs.walk true maxLinks (fs.origin path) start = .ok (.found d e)) (he : ∃ t, e = .directory t) :
    fs.parent path = .ok (d, last, slash) := by
  obtain ⟨t, rfl⟩ := he
  rw [parent_of_parts hparts, hwalk, hlast]
  rfl

theorem Grows.parent (h : Grows fs fs') (hparent : fs.parent path = .ok (d, last, slash)) :
    fs'.parent path = .ok (d, last, slash) := by
  rcases parent_eq_ok hparent with ⟨-, hroot⟩ | ⟨start, name, t, hparts, hlast, hwalk⟩
  · exact hroot fs'
  · have hd := entry?_of_walk_found _ _ _ _ hwalk
    have horigin : fs'.origin path = fs.origin path := by
      unfold origin
      rw [h.here]
    obtain ⟨e', hwalk'⟩ := h.walk_found hwalk
    rw [← horigin] at hwalk'
    exact parent_of_walk hparts hlast hwalk'
      ((h.directory_iff hd (entry?_of_walk_found _ _ _ _ hwalk')).1 ⟨t, rfl⟩)

/-- Where the last name of a path is looked up, or that it is not, does not change with less in the tree. -/
theorem Grows.parent_back (h : Grows fs fs') (hparent : fs'.parent path = .ok (d, last, slash)) :
    fs.parent path = .ok (d, last, slash) ∨ fs.parent path = .error .notFound := by
  rcases parent_eq_ok hparent with ⟨-, hroot⟩ | ⟨start, name, t, hparts, hlast, hwalk⟩
  · exact .inl (hroot fs)
  · have hd := entry?_of_walk_found _ _ _ _ hwalk
    have horigin : fs'.origin path = fs.origin path := by
      unfold origin
      rw [h.here]
    rw [horigin] at hwalk
    rcases h.walk_back hwalk with ⟨e, hfound⟩ | hmissed
    · exact .inl (parent_of_walk hparts hlast hfound
        ((h.directory_iff (entry?_of_walk_found _ _ _ _ hfound) hd).2 ⟨t, rfl⟩))
    · refine .inr ?_
      rw [parent_of_parts hparts]
      rcases hwalk' : fs.walk true maxLinks (fs.origin path) start with f | ⟨q, e⟩ | ⟨q, n⟩ <;> rw [hwalk'] at hmissed
      · obtain rfl : f = .notFound := hmissed
        rfl
      · exact absurd hmissed id

theorem there_meet (h : There (fs.drop gone) path) (h' : There (fs.drop gone') path) :
    There (fs.drop fun r => gone r || gone' r) path := by
  obtain ⟨r, e, hplace⟩ := h
  obtain ⟨r', e', hplace'⟩ := h'
  refine ⟨r, e, ?_⟩
  unfold locate at hplace hplace' ⊢
  split at hplace
  · cases hplace
  rename_i hnul
  rw [if_neg hnul] at hplace' ⊢
  split at hplace
  · cases hplace
  rename_i hempty
  rw [if_neg hempty] at hplace' ⊢
  exact walk_meet hplace hplace'

theorem parent_meet (h : (fs.drop gone).parent path = .ok (d, last, slash))
    (h' : (fs.drop gone').parent path = .ok (q, last, slash)) :
    (fs.drop fun r => gone r || gone' r).parent path = .ok (d, last, slash) := by
  rcases parent_eq_ok h with ⟨-, hroot⟩ | ⟨start, name, t, hparts, hlast, hwalk⟩
  · exact hroot _
  · obtain ⟨-, t', hwalk'⟩ := walk_of_parent hparts h'
    exact parent_of_walk hparts hlast (walk_meet hwalk hwalk') ⟨t, rfl⟩

/-- A path does not lead anywhere any more when its last name is gone. -/
theorem not_there_of_gone (hparent : fs.parent path = .ok (d, .name name, slash)) (h : Grows fs' fs)
    (hgone : fs'.entry? (d ++ [name]) = none) : ¬ There fs' path := by
  rintro ⟨r, e, hplace⟩
  obtain ⟨d', last, slash', hparent'⟩ := parent_of_locate hplace
  rw [h.parent hparent'] at hparent
  cases hparent
  obtain ⟨-, hname, left, hlocate⟩ := locate_of_parent hparent'
  rw [hlocate] at hplace
  exact not_found_behind hgone hname hplace

theorem not_there_of_parent (h : fs.parent path = .error f) : ¬ There fs path := by
  rintro ⟨r, e, hplace⟩
  obtain ⟨d, last, slash, hparent⟩ := parent_of_locate hplace
  rw [h] at hparent
  cases hparent

/-! ## Removing -/

/-- Something at a place, or below it, and nothing else was taken away. -/
structure Pruned (r : Route) (fs fs' : Files) : Prop where
  shrinks : Grows fs' fs
  rest : Grows (fs.drop (r.isPrefixOf ·)) fs'

theorem removeFile_eq_ok (h : fs.removeFile path = .ok fs') :
    ∃ d name e, fs.parent path = .ok (d, .name name, false) ∧ fs.entry? (d ++ [name]) = some e ∧
      fs' = (fs.tick.drop (· == d ++ [name])).touch d := by
  unfold removeFile at h
  rcases hparent : fs.parent path with f | ⟨d, name | _ | _ | _, slash⟩ <;> rw [hparent] at h
  · cases h
  · dsimp only [bind, Except.bind] at h
    split at h
    · cases h
    · cases h
    · rename_i e _ hentry
      cases slash
      · cases h
        exact ⟨d, name, e, rfl, hentry, rfl⟩
      · cases h
  · cases h
  · cases h
  · cases h

theorem removeFile_of_parent (hparent : fs.parent path = .ok (d, .name name, false))
    (hentry : fs.entry? (d ++ [name]) = some e) (he : ∀ t, e ≠ .directory t) :
    fs.removeFile path = .ok ((fs.tick.drop (· == d ++ [name])).touch d) := by
  unfold removeFile
  rw [hparent]
  dsimp only [bind, Except.bind]
  rw [hentry]
  cases e with
  | directory t => exact absurd rfl (he t)
  | file n => rfl
  | link target => rfl
  | void => rfl

theorem removeFile_not_found (h : fs.removeFile path = .error .notFound) : ¬ There fs path := by
  unfold removeFile at h
  rcases hparent : fs.parent path with f | ⟨d, name | _ | _ | _, slash⟩ <;> rw [hparent] at h
  · exact not_there_of_parent hparent
  · dsimp only [bind, Except.bind] at h
    split at h
    · rename_i hentry
      exact not_there_of_gone hparent (.refl fs) hentry
    · cases h
    · cases slash <;> cases h
  · cases h
  · cases h
  · cases h

theorem removeDirectory_eq_ok (h : fs.removeDirectory path = .ok fs') :
    ∃ d name slash t, fs.parent path = .ok (d, .name name, slash) ∧
      fs.entry? (d ++ [name]) = some (.directory t) ∧ fs' = (fs.tick.drop (· == d ++ [name])).touch d := by
  unfold removeDirectory at h
  rcases hparent : fs.parent path with f | ⟨d, name | _ | _ | _, slash⟩ <;> rw [hparent] at h
  · cases h
  · dsimp only [bind, Except.bind] at h
    split at h
    · cases h
    · rename_i t hentry
      split at h
      · cases h
      · cases h
        exact ⟨d, name, slash, t, rfl, hentry, rfl⟩
    · cases h
  · cases h
  · cases h
  · cases h

theorem removeDirectory_of_parent (hparent : fs.parent path = .ok (d, .name name, slash))
    (hentry : fs.entry? (d ++ [name]) = some (.directory t)) (hnames : fs.names (d ++ [name]) = []) :
    fs.removeDirectory path = .ok ((fs.tick.drop (· == d ++ [name])).touch d) := by
  unfold removeDirectory
  rw [hparent]
  dsimp only [bind, Except.bind]
  rw [hentry]
  dsimp only
  rw [hnames]
  rfl

theorem removeDirectory_not_found (h : fs.removeDirectory path = .error .notFound) : ¬ There fs path := by
  unfold removeDirectory at h
  rcases hparent : fs.parent path with f | ⟨d, name | _ | _ | _, slash⟩ <;> rw [hparent] at h
  · exact not_there_of_parent hparent
  · dsimp only [bind, Except.bind] at h
    split at h
    · rename_i hentry
      exact not_there_of_gone hparent (.refl fs) hentry
    · split at h <;> cases h
    · cases h
  · cases h
  · cases h
  · cases h

/-- What is at a name in a directory is where a path with that last name leads. -/
theorem leadsTo_of_parent (hparent : fs.parent path = .ok (d, .name name, slash))
    (hentry : fs.entry? (d ++ [name]) = some e) (he : slash = false ∨ ∃ t, e = .directory t) :
    LeadsTo fs path (d ++ [name]) := by
  obtain ⟨hd, hname, left, hlocate⟩ := locate_of_parent hparent
  cases slash with
  | false => exact ⟨e, by rw [hlocate, if_neg Bool.false_ne_true, walk_name hd hname, hentry]⟩
  | true =>
    obtain ⟨t, rfl⟩ : ∃ t, e = .directory t := he.resolve_left fun h => Bool.noConfusion h
    exact ⟨.directory t, by rw [hlocate, if_pos rfl, walk_down hd hname ⟨t, hentry⟩, walk_here ⟨t, hentry⟩, walk, hentry]⟩

/-- After a place was taken away under the last name of a path, the path leads nowhere. -/
theorem pruned_of_parent (hparent : fs.parent path = .ok (d, .name name, slash)) (h : Akin (fs.drop (· == d ++ [name])) fs') :
    Pruned (d ++ [name]) fs fs' ∧ ¬ There fs' path := by
  have hshrinks : Grows fs' fs := h.shrinks.trans (.ofDrop fs _)
  refine ⟨⟨hshrinks, .trans (.drop_of_imp fun r hr => ?_) h.grows⟩, not_there_of_gone hparent hshrinks ?_⟩
  · rw [beq_iff_eq.1 hr]
    simp
  · refine h.shrinks.none ?_
    rw [entry?_drop, beq_self_eq_true, if_pos rfl]

theorem pruned_of_removeFile (h : fs.removeFile path = .ok fs') :
    (∃ r, LeadsTo fs path r ∧ Pruned r fs fs') ∧ ¬ There fs' path := by
  obtain ⟨d, name, e, hparent, hentry, rfl⟩ := removeFile_eq_ok h
  obtain ⟨hpruned, hgone⟩ := pruned_of_parent hparent (.removed fs _ d)
  exact ⟨⟨_, leadsTo_of_parent hparent hentry (.inl rfl), hpruned⟩, hgone⟩

/-- A directory with nothing below it. -/
def bare (fs : Files) (r : Route) : Files :=
  if (fs.names r).isEmpty then fs else (fs.tick.drop (isBelow r)).touch r

theorem bare_spec (fs : Files) (r : Route) : Grows (fs.bare r) fs ∧ Grows (fs.drop (isBelow r)) (fs.bare r) := by
  unfold bare
  split
  · exact ⟨.refl fs, .ofDrop fs _⟩
  · exact ⟨(Akin.removed fs _ r).shrinks.trans (.ofDrop fs _), (Akin.removed fs _ r).grows⟩

theorem pruned_bare (fs : Files) (r : Route) : Pruned r fs (fs.bare r) where
  shrinks := (bare_spec fs r).1
  rest := .trans (.drop_of_imp fun _ hq => (Bool.and_eq_true_iff.1 hq).1) (bare_spec fs r).2

theorem Pruned.trans {fs'' : Files} (h : Pruned r fs fs') (h' : Pruned r fs' fs'') : Pruned r fs fs'' where
  shrinks := h'.shrinks.trans h.shrinks
  rest := by
    have honce : Akin (fs.drop (r.isPrefixOf ·)) ((fs.drop (r.isPrefixOf ·)).drop (r.isPrefixOf ·)) := by
      refine .drop_none fun q hq => ?_
      rw [entry?_drop] at hq
      by_contra hbelow
      exact hq (if_pos (by simpa using hbelow))
    exact honce.grows.trans ((h.rest.drop _).trans h'.rest)

/-- What the removal of a tree comes to. -/
theorem removeTree_cases (fs : Files) (path : String) :
    (∃ r t, fs.locate false path = .ok (.found r (.directory t)) ∧
      fs.removeTree path = match (fs.bare r).removeDirectory path with
        | .ok fs => (fs, .ok ())
        | .error .notFound => (fs.bare r, .ok ())
        | .error f => (fs.bare r, .error f)) ∨
    (fs.removeTree path = match fs.removeFile path with
        | .ok fs => (fs, .ok ())
        | .error f => (fs, .error f)) ∨
    ∃ f, fs.removeTree path = (fs, .error f) ∧ (f = .notFound → ¬ There fs path) := by
  unfold removeTree
  rcases hplace : fs.locate false path with f | ⟨r, t | n | target | _⟩ | ⟨r, name⟩
  · refine .inr (.inr ⟨f, rfl, fun _ => ?_⟩)
    rintro ⟨r, e, hfound⟩
    rw [hplace] at hfound
    cases hfound
  · exact .inl ⟨r, t, rfl, rfl⟩
  · exact .inr (.inr ⟨_, rfl, nofun⟩)
  · exact .inr (.inl rfl)
  · exact .inr (.inr ⟨_, rfl, nofun⟩)
  · refine .inr (.inr ⟨_, rfl, fun _ => ?_⟩)
    rintro ⟨r, e, hfound⟩
    rw [hplace] at hfound
    cases hfound

theorem pruned_of_removeTree (h : fs.removeTree path = (fs', .ok ())) :
    (∃ r, LeadsTo fs path r ∧ Pruned r fs fs') ∧ ¬ There fs' path := by
  rcases removeTree_cases fs path with ⟨r, t, hplace, htree⟩ | htree | ⟨f, htree, -⟩ <;> rw [htree] at h
  · split at h
    · rename_i after hremoved
      cases h
      obtain ⟨d, name, slash, t', hparent, hentry, rfl⟩ := removeDirectory_eq_ok hremoved
      obtain ⟨hpruned, hgone⟩ := pruned_of_parent hparent (.removed (fs.bare r) _ d)
      have hleads := (bare_spec fs r).1.leadsTo (leadsTo_of_parent hparent hentry (.inr ⟨t', rfl⟩))
      obtain rfl : d ++ [name] = r := hleads.unique ⟨_, hplace⟩
      exact ⟨⟨_, hleads, (pruned_bare fs _).trans hpruned⟩, hgone⟩
    · rename_i hremoved
      cases h
      exact ⟨⟨r, ⟨_, hplace⟩, pruned_bare fs r⟩, removeDirectory_not_found hremoved⟩
    · cases h
  · split at h
    · rename_i after hremoved
      cases h
      exact pruned_of_removeFile hremoved
    · cases h
  · cases h

theorem removeTree_not_found (h : fs.removeTree path = (fs', .error .notFound)) : fs' = fs ∧ ¬ There fs path := by
  rcases removeTree_cases fs path with ⟨r, t, hplace, htree⟩ | htree | ⟨f, htree, hmissing⟩ <;> rw [htree] at h
  · split at h
    · cases h
    · cases h
    · rename_i hother _
      cases h
      exact absurd rfl hother
  · split at h
    · cases h
    · rename_i hremoved
      cases h
      exact ⟨rfl, removeFile_not_found hremoved⟩
  · cases h
    exact ⟨rfl, hmissing rfl⟩

/-- Whatever comes of it, nothing is added. -/
theorem shrinks_removeTree (fs : Files) (path : String) : Grows (fs.removeTree path).1 fs := by
  rcases removeTree_cases fs path with ⟨r, t, hplace, htree⟩ | htree | ⟨f, htree, -⟩ <;> rw [htree]
  · split
    · rename_i after hremoved
      obtain ⟨d, name, slash, t', hparent, -, rfl⟩ := removeDirectory_eq_ok hremoved
      exact (pruned_of_parent hparent (.removed _ _ d)).1.shrinks.trans (bare_spec fs r).1
    · exact (bare_spec fs r).1
    · exact (bare_spec fs r).1
  · split
    · rename_i after hremoved
      obtain ⟨-, hpruned⟩ := (pruned_of_removeFile hremoved).1.choose_spec
      exact hpruned.shrinks
    · exact .refl fs
  · exact .refl fs

/-! ## Sound trees -/

/-- Below a place with something in it are only directories and what is in them. -/
theorem Sound.above {below : Route} (hfs : fs.Sound) (h : fs.entry? (r ++ below) = some e) (hbelow : below ≠ []) :
    fs.HoldsDirectory r := by
  induction below using List.reverseRecOn generalizing e with
  | nil => exact absurd rfl hbelow
  | append_singleton below name ih =>
    obtain ⟨t, hparent⟩ := hfs.parent (mem_entries_of_eq_some h)
    rw [← List.append_assoc, List.dropLast_concat] at hparent
    by_cases hempty : below = []
    · rw [hempty, List.append_nil] at hparent
      exact ⟨t, hparent⟩
    · exact ih hparent hempty

theorem mem_names (h : fs.entry? (r ++ [name]) = some e) : name ∈ fs.names r := by
  unfold names
  refine List.mem_filterMap.2 ⟨_, mem_entries_of_eq_some h, ?_⟩
  simp

theorem isBelow_iff : isBelow r q = true ↔ ∃ name more, q = r ++ name :: more := by
  unfold isBelow
  rw [Bool.and_eq_true, List.isPrefixOf_iff_prefix, bne_iff_ne]
  constructor
  · rintro ⟨⟨below, rfl⟩, hne⟩
    cases below with
    | nil => exact absurd (List.append_nil r).symm hne
    | cons name more => exact ⟨name, more, rfl⟩
  · rintro ⟨name, more, rfl⟩
    exact ⟨List.prefix_append _ _, by simp⟩

theorem at_or_below (r q : Route) : (q == r || isBelow r q) = r.isPrefixOf q := by
  unfold isBelow
  by_cases hq : r = q
  · subst hq
    simp
  · rw [beq_eq_false_iff_ne.2 (Ne.symm hq), Bool.false_or, bne_iff_ne.2 hq, Bool.and_true]

/-- Whether a place is one of some places or below one of them. -/
def under (places : List Route) (r : Route) : Bool := places.any (·.isPrefixOf r)

theorem under_append {places : List Route} (h : under places r = true) (more : Route) :
    under places (r ++ more) = true := by
  obtain ⟨q, hq, hleading⟩ := List.any_eq_true.1 h
  rw [List.isPrefixOf_iff_prefix] at hleading
  exact List.any_eq_true.2 ⟨q, hq, List.isPrefixOf_iff_prefix.2 (hleading.trans (List.prefix_append r more))⟩

/-- In a directory that lists no names nothing is. -/
theorem nothing_below {places : List Route} (hfs : fs.Sound) (h : Akin fs' (fs.drop (under places)))
    (hnames : fs'.names r = []) (hbelow : isBelow r q = true) : fs'.entry? q = none := by
  obtain ⟨name, more, rfl⟩ := isBelow_iff.1 hbelow
  refine h.grows.none ?_
  rw [entry?_drop]
  split
  · rfl
  rename_i hkept
  cases hthere : fs.entry? (r ++ name :: more) with
  | none => rfl
  | some e =>
    rw [List.append_cons] at hthere hkept
    -- the name itself is there, and was not taken away either
    obtain ⟨e', he'⟩ : ∃ e', fs.entry? (r ++ [name]) = some e' := by
      by_cases hmore : more = []
      · exact ⟨e, by rwa [hmore, List.append_nil] at hthere⟩
      · obtain ⟨t, ht⟩ := hfs.above hthere hmore
        exact ⟨_, ht⟩
    have hleft : Files.entry? (fs.drop (under places)) (r ++ [name]) = some e' := by
      rw [entry?_drop, if_neg fun hgone => hkept (under_append hgone more), he']
    obtain ⟨e'', hlisted⟩ := h.shrinks.there hleft
    have hmem := mem_names hlisted
    rw [hnames] at hmem
    cases hmem

theorem there_under_iff {places : List Route} (hthere : There fs path) :
    There (fs.drop (under places)) path ↔ ∀ q ∈ places, There (fs.drop (q.isPrefixOf ·)) path := by
  constructor
  · intro h q hq
    exact Grows.there_path (.drop_of_imp fun r hr => List.any_eq_true.2 ⟨q, hq, hr⟩) h
  · intro h
    induction places with
    | nil => exact (Akin.drop_none fun _ _ => rfl).grows.there_path hthere
    | cons q places ih =>
      obtain ⟨hq, hplaces⟩ := List.forall_mem_cons.1 h
      exact there_meet hq (ih hplaces)

/-! ## Removing one path after others -/

/-- If a path leads to a directory, its last name is that of the directory, and is so still with nothing below that. -/
def OwnName (fs : Files) (path : String) : Prop :=
  ∀ r t, fs.locate false path = .ok (.found r (.directory t)) →
    ∃ d name slash, (fs.drop (isBelow r)).parent path = .ok (d, .name name, slash) ∧ r = d ++ [name]

section

variable {places : List Route}

/-- Where a path leads after some places were taken away, and in which directory its name is. -/
theorem there_after (h : Grows fs' fs) (hplace : fs.locate false path = .ok (.found q e)) (hthere : There fs' path) :
    (∃ e', fs'.locate false path = .ok (.found q e') ∧ ((∃ t, e' = .directory t) ↔ ∃ t, e = .directory t)) ∧
    ∀ d last slash, fs.parent path = .ok (d, last, slash) → fs'.parent path = .ok (d, last, slash) := by
  obtain ⟨r, e', hplace'⟩ := hthere
  obtain rfl : r = q := (h.leadsTo ⟨e', hplace'⟩).unique ⟨e, hplace⟩
  refine ⟨⟨e', hplace', h.directory_iff (entry?_of_locate hplace') (entry?_of_locate hplace)⟩, ?_⟩
  intro d last slash hparent
  obtain ⟨d', last', slash', hparent'⟩ := parent_of_locate hplace'
  rw [h.parent hparent'] at hparent
  cases hparent
  exact hparent'

theorem akin_bare (hfs : fs.Sound) (h : Akin fs' (fs.drop (under places))) (r : Route) :
    Akin (fs'.bare r) (fs'.drop (isBelow r)) := by
  unfold bare
  split
  · rename_i hnames
    refine .drop_none fun q hq => ?_
    rw [← Bool.not_eq_true]
    intro hbelow
    exact hq (nothing_below hfs h (List.isEmpty_iff.1 hnames) hbelow)
  · exact (Akin.removed fs' _ r).symm

/-- What is no directory and still there is removed. -/
theorem removeFile_of_there (hfs : fs.Sound) (h : Akin fs' (fs.drop (under places)))
    (hplace : fs.locate false path = .ok (.found q e)) (he : ¬ ∃ t, e = .directory t) (hthere : There fs' path) :
    ∃ fs'', fs'.removeFile path = .ok fs'' ∧ Akin fs'' (fs.drop (under (q :: places))) := by
  have hgrows : Grows fs' fs := h.grows.trans (.ofDrop fs _)
  obtain ⟨d, name, hparent, rfl⟩ := hfs.parent_of_located hplace fun t ht => he ⟨t, ht⟩
  obtain ⟨⟨e', hplace', hkind⟩, hparents⟩ := there_after hgrows hplace hthere
  refine ⟨_, removeFile_of_parent (hparents _ _ _ hparent) (entry?_of_locate hplace') fun t ht =>
    he (hkind.1 ⟨t, ht⟩), ?_⟩
  refine (Akin.removed fs' _ d).symm.trans ((h.drop _).trans ((Akin.drop_drop fs _ _).trans (.drop_congr fun r hr => ?_)))
  -- nothing is below what is no directory
  show (r == d ++ [name] || under places r) = ((d ++ [name]).isPrefixOf r || under places r)
  congr 1
  rw [Bool.eq_iff_iff, beq_iff_eq, List.isPrefixOf_iff_prefix]
  constructor
  · rintro rfl
    exact List.prefix_refl _
  · rintro ⟨below, rfl⟩
    by_contra hne
    obtain ⟨e'', hbelow⟩ := Option.ne_none_iff_exists'.1 hr
    obtain ⟨t, ht⟩ := hfs.above hbelow fun hempty => hne (by rw [hempty, List.append_nil])
    exact he ⟨t, Option.some.inj ((entry?_of_locate hplace).symm.trans ht)⟩

/-- A directory whose path has its own name and that is still there is removed with all that is below. -/
theorem removeTree_of_there (hfs : fs.Sound) (h : Akin fs' (fs.drop (under places)))
    (hplace : fs.locate false path = .ok (.found q (.directory t))) (hown : OwnName fs path) (hthere : There fs' path) :
    ∃ fs'', fs'.removeTree path = (fs'', .ok ()) ∧ Akin fs'' (fs.drop (under (q :: places))) := by
  have hgrows : Grows fs' fs := h.grows.trans (.ofDrop fs _)
  obtain ⟨⟨e', hplace', hkind⟩, hparents⟩ := there_after hgrows hplace hthere
  obtain ⟨t', rfl⟩ := hkind.2 ⟨t, rfl⟩
  obtain ⟨d, name, slash, hparent, rfl⟩ := hown _ _ hplace
  have hbare := akin_bare hfs h (d ++ [name])
  have hleft := hbare.trans ((h.drop _).trans (Akin.drop_drop fs _ _))
  -- neither what was taken away before nor what is below is on the way to the last name
  have hparent' : (fs'.bare (d ++ [name])).parent path = .ok (d, .name name, slash) :=
    hleft.shrinks.parent (parent_meet hparent
      (h.grows.parent (hparents _ _ _ ((Grows.ofDrop fs _).parent hparent))))
  have hentry : Files.entry? (fs'.drop (isBelow (d ++ [name]))) (d ++ [name]) = some (.directory t') := by
    rw [entry?_drop, if_neg (by simp [isBelow]), entry?_of_locate hplace']
  obtain ⟨t'', hentry'⟩ := hbare.shrinks.directory hentry
  have hnames : (fs'.bare (d ++ [name])).names (d ++ [name]) = [] := by
    rw [List.eq_nil_iff_forall_not_mem]
    intro n hn
    obtain ⟨e, hrow⟩ := exists_of_mem_names hn
    obtain ⟨e', he'⟩ := eq_some_of_mem_entries hrow
    obtain ⟨e'', he''⟩ := hbare.grows.there he'
    rw [entry?_drop, if_pos (isBelow_iff.2 ⟨n, [], rfl⟩)] at he''
    cases he''
  refine ⟨_, ?_, (Akin.removed _ (· == d ++ [name]) d).symm.trans
    ((hleft.drop _).trans ((Akin.drop_drop fs _ _).trans (.drop_congr fun r _ => ?_)))⟩
  · have hremoved := removeDirectory_of_parent hparent' hentry' hnames
    unfold bare at hremoved
    unfold removeTree
    rw [hplace']
    dsimp only
    rw [hremoved]
    rfl
  · show (r == d ++ [name] || (isBelow (d ++ [name]) r || under places r)) =
      ((d ++ [name]).isPrefixOf r || under places r)
    rw [← Bool.or_assoc, at_or_below]

/-- What is no directory and no longer there is not found to be removed. -/
theorem removeFile_of_gone (hfs : fs.Sound) (h : Grows fs' fs) (hplace : fs.locate false path = .ok (.found q e))
    (he : ¬ ∃ t, e = .directory t) (hgone : ¬ There fs' path) : fs'.removeFile path = .error .notFound := by
  obtain ⟨d, name, hparent, rfl⟩ := hfs.parent_of_located hplace fun t ht => he ⟨t, ht⟩
  unfold removeFile
  rcases h.parent_back hparent with hparent' | hmissing
  · rw [hparent']
    dsimp only [bind, Except.bind]
    cases hentry : fs'.entry? (d ++ [name]) with
    | none => rfl
    | some e' => exact absurd ⟨_, leadsTo_of_parent hparent' hentry (.inl rfl)⟩ hgone
  · rw [hmissing]
    rfl

theorem removeTree_of_gone (h : Grows fs' fs) (hplace : fs.locate false path = .ok (.found q e))
    (hgone : ¬ There fs' path) : fs'.removeTree path = (fs', .error .notFound) := by
  unfold removeTree
  rcases h.locate_back hplace with ⟨e', hfound⟩ | hmissed
  · exact absurd ⟨q, e', hfound⟩ hgone
  · rcases hplace' : fs'.locate false path with f | ⟨r, e'⟩ | ⟨r, name⟩ <;> rw [hplace'] at hmissed
    · obtain rfl : f = .notFound := hmissed
      rfl
    · exact absurd hmissed id

end

end Taskwork.Files
