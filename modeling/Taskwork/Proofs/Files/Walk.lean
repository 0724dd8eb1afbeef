/-
Where walks over names lead. A walk that finds something makes one step after the other, each over the first of the
names before it, and then it is at its end (`exists_steps_of_walk`). Its steps are the same when more names follow
(`Step.append`) and when a `.` is left out (`steps_thin`); so a walk goes on from the directory to which its first
part leads (`walk_append`), and what is found is found without its dots (`walk_thin`).
-/
import Taskwork.Proofs.Files.Whole
import Mathlib.Logic.Relation

namespace Taskwork.Files

open Relation (ReflTransGen)

/-! ## Steps of a walk -/

/-- Where a walk is: the number of links it may pass, its directory, and the names before it. -/
structure Walker where
  links : Nat
  at_ : Route
  names : List String

/-- The same with more names at the end. -/
def Walker.append (w : Walker) (zs : List String) : Walker := { w with names := w.names ++ zs }

/-- Where the walk ends from here. -/
def Walker.place (w : Walker) (fs : Files) (follow : Bool) : Except FileFault Place :=
  fs.walk follow w.links w.at_ w.names

def HoldsDirectory (fs : Files) (r : Route) : Prop := ∃ t, fs.entry? r = some (.directory t)

/-- A name that is looked up in a directory. -/
structure LookedUp (name : String) : Prop where
  not_here : name ≠ "."
  not_up : name ≠ ".."
  length : ¬ maxNameLength < (Utf8.encode name).length

/-- What a walk does with the first of its names, if it goes on. -/
inductive Step (fs : Files) : Walker → Walker → Prop where
  | here {links : Nat} {at_ : Route} {rest : List String} (hat : fs.HoldsDirectory at_) :
    Step fs ⟨links, at_, "." :: rest⟩ ⟨links, at_, rest⟩
  | up {links : Nat} {at_ : Route} {rest : List String} (hat : fs.HoldsDirectory at_) :
    Step fs ⟨links, at_, ".." :: rest⟩ ⟨links, at_.dropLast, rest⟩
  | down {links : Nat} {at_ : Route} {name : String} {rest : List String} (hat : fs.HoldsDirectory at_)
    (hname : LookedUp name) (hthere : fs.HoldsDirectory (at_ ++ [name])) :
    Step fs ⟨links, at_, name :: rest⟩ ⟨links, at_ ++ [name], rest⟩
  | link {links : Nat} {at_ : Route} {name target : String} {rest : List String} (hat : fs.HoldsDirectory at_)
    (hname : LookedUp name) (hthere : fs.entry? (at_ ++ [name]) = some (.link target)) :
    Step fs ⟨links + 1, at_, name :: rest⟩
      ⟨links, if Path.isAbsolute target then [] else at_, namesOf target ++ rest⟩

/-- What a walk finds that makes no step any more. -/
inductive Ends (fs : Files) (follow : Bool) : Walker → Route → Entry → Prop where
  | here {links : Nat} {at_ : Route} {e : Entry} (hat : fs.entry? at_ = some e) :
    Ends fs follow ⟨links, at_, []⟩ at_ e
  | name {links : Nat} {at_ : Route} {name : String} {e : Entry} (hat : fs.HoldsDirectory at_)
    (hname : LookedUp name) (hthere : fs.entry? (at_ ++ [name]) = some e) (hlast : ∀ t, e ≠ .directory t)
    (hlink : ∀ target, e = .link target → follow = false) :
    Ends fs follow ⟨links, at_, [name]⟩ (at_ ++ [name]) e

variable {fs : Files} {follow follow' : Bool} {links : Nat} {at_ r : Route} {name target : String} {e : Entry}
  {t : Instant} {rest xs ys zs : List String} {w w' : Walker}

theorem walk_here (hat : fs.HoldsDirectory at_) :
    fs.walk follow links at_ ("." :: rest) = fs.walk follow links at_ rest := by
  obtain ⟨t, ht⟩ := hat
  rw [walk, ht]
  rfl

theorem walk_up (hat : fs.HoldsDirectory at_) :
    fs.walk follow links at_ (".." :: rest) = fs.walk follow links at_.dropLast rest := by
  obtain ⟨t, ht⟩ := hat
  rw [walk, ht]
  rfl

theorem walk_down (hat : fs.HoldsDirectory at_) (hname : LookedUp name) (hthere : fs.HoldsDirectory (at_ ++ [name])) :
    fs.walk follow links at_ (name :: rest) = fs.walk follow links (at_ ++ [name]) rest := by
  obtain ⟨t, ht⟩ := hat
  obtain ⟨t', ht'⟩ := hthere
  rw [walk, ht]
  dsimp only
  rw [if_neg hname.not_here, if_neg hname.not_up, if_neg hname.length, ht']

theorem walk_link (hat : fs.HoldsDirectory at_) (hname : LookedUp name)
    (hthere : fs.entry? (at_ ++ [name]) = some (.link target)) (hon : rest ≠ [] ∨ follow = true) :
    fs.walk follow (links + 1) at_ (name :: rest) =
      fs.walk follow links (if Path.isAbsolute target then [] else at_) (namesOf target ++ rest) := by
  obtain ⟨t, ht⟩ := hat
  rw [walk, ht]
  dsimp only
  rw [if_neg hname.not_here, if_neg hname.not_up, if_neg hname.length, hthere]
  dsimp only
  rw [if_neg]
  rintro hstop
  rw [Bool.and_eq_true, List.isEmpty_iff, Bool.not_eq_true'] at hstop
  rcases hon with hon | hon
  · exact hon hstop.1
  · rw [hon] at hstop
    exact Bool.noConfusion hstop.2

/-- At its last name a walk finds what is there, but for a directory, in which it ends, and a link to follow. -/
theorem walk_last (hat : fs.HoldsDirectory at_) (hname : LookedUp name) (hthere : fs.entry? (at_ ++ [name]) = some e)
    (hlast : ∀ t, e ≠ .directory t) (hlink : ∀ target, e = .link target → follow = false) :
    fs.walk follow links at_ [name] = .ok (.found (at_ ++ [name]) e) := by
  obtain ⟨t, ht⟩ := hat
  rw [walk, ht]
  dsimp only
  rw [if_neg hname.not_here, if_neg hname.not_up, if_neg hname.length, hthere]
  cases e with
  | directory t' => exact absurd rfl (hlast t')
  | file n => rfl
  | link target =>
    obtain rfl := hlink target rfl
    rfl
  | void => rfl

/-- A walk that finds something makes steps until it is at its end. -/
theorem exists_steps_of_walk {names : List String} (h : fs.walk follow links at_ names = .ok (.found r e)) :
    ∃ w, ReflTransGen fs.Step ⟨links, at_, names⟩ w ∧ Ends fs follow w r e := by
  fun_induction Files.walk fs follow links at_ names with
  | case1 links at_ e' hat =>
    cases h
    exact ⟨_, .refl, .here hat⟩
  | case7 links at_ rest t hat ih =>
    obtain ⟨w, hsteps, hends⟩ := ih h
    exact ⟨w, .head (.here ⟨t, hat⟩) hsteps, hends⟩
  | case8 links at_ rest t hat _ ih =>
    obtain ⟨w, hsteps, hends⟩ := ih h
    exact ⟨w, .head (.up ⟨t, hat⟩) hsteps, hends⟩
  | case12 links at_ name rest t hat hhere hup hlength t' hthere ih =>
    obtain ⟨w, hsteps, hends⟩ := ih h
    exact ⟨w, .head (.down ⟨t, hat⟩ ⟨hhere, hup, hlength⟩ ⟨t', hthere⟩) hsteps, hends⟩
  | case13 links at_ name rest t hat hhere hup hlength n hthere hlast =>
    cases h
    obtain rfl := List.isEmpty_iff.1 hlast
    exact ⟨_, .refl, .name ⟨t, hat⟩ ⟨hhere, hup, hlength⟩ hthere (fun _ h => by cases h) fun _ h => by cases h⟩
  | case15 links at_ name rest t hat hhere hup hlength hthere hlast =>
    cases h
    obtain rfl := List.isEmpty_iff.1 hlast
    exact ⟨_, .refl, .name ⟨t, hat⟩ ⟨hhere, hup, hlength⟩ hthere (fun _ h => by cases h) fun _ h => by cases h⟩
  | case17 links at_ name rest t hat hhere hup hlength target hthere hlast =>
    cases h
    obtain ⟨hnone, hfollow⟩ := Bool.and_eq_true_iff.1 hlast
    obtain rfl := List.isEmpty_iff.1 hnone
    exact ⟨_, .refl, .name ⟨t, hat⟩ ⟨hhere, hup, hlength⟩ hthere (fun _ h => by cases h)
      fun _ _ => by simpa using hfollow⟩
  | case19 at_ name rest t hat hhere hup hlength target hthere _ links ih =>
    obtain ⟨w, hsteps, hends⟩ := ih h
    exact ⟨w, .head (.link ⟨t, hat⟩ ⟨hhere, hup, hlength⟩ hthere) hsteps, hends⟩
  | _ => cases h

/-! ## More names -/

theorem Step.append (h : fs.Step w w') (zs : List String) : fs.Step (w.append zs) (w'.append zs) := by
  cases h with
  | here hat => exact .here hat
  | up hat => exact .up hat
  | down hat hname hthere => exact .down hat hname hthere
  | link hat hname hthere =>
    unfold Walker.append
    rw [List.append_assoc]
    exact .link hat hname hthere

/-- A step leads to the same place, if it is not the last one over a link. -/
theorem Step.place_eq (h : fs.Step w w') (hon : w.names.tail ≠ [] ∨ follow = true) :
    w.place fs follow = w'.place fs follow := by
  cases h with
  | here hat => exact walk_here hat
  | up hat => exact walk_up hat
  | down hat hname hthere => exact walk_down hat hname hthere
  | link hat hname hthere => exact walk_link hat hname hthere hon

/-- A walk goes on from the directory that its first part leads to. -/
theorem walk_append {left : Nat} (h : ReflTransGen fs.Step ⟨links, at_, ys⟩ ⟨left, r, []⟩) (hzs : zs ≠ []) :
    fs.walk follow links at_ (ys ++ zs) = fs.walk follow left r zs := by
  have hplace : ∀ w, ReflTransGen fs.Step w ⟨left, r, []⟩ →
      (w.append zs).place fs follow = fs.walk follow left r zs := by
    intro w hw
    induction hw using ReflTransGen.head_induction_on with
    | refl => rfl
    | head hstep _ ih =>
      rw [← ih]
      refine (hstep.append zs).place_eq (.inl ?_)
      cases hstep <;> simp [Walker.append, hzs]
  exact hplace _ h

/-! ## Fewer dots -/

/-- The same names, but for some of those that lead nowhere. -/
inductive Thin : List String → List String → Prop where
  | nil : Thin [] []
  | keep {xs ys : List String} (name : String) (h : Thin xs ys) : Thin (name :: xs) (name :: ys)
  | drop {xs ys : List String} (h : Thin xs ys) : Thin xs ("." :: ys)

namespace Thin

theorem refl (xs : List String) : Thin xs xs := by
  induction xs with
  | nil => exact .nil
  | cons name xs ih => exact .keep name ih

theorem append {xs' ys' : List String} (h : Thin xs ys) (h' : Thin xs' ys') : Thin (xs ++ xs') (ys ++ ys') := by
  induction h with
  | nil => exact h'
  | keep name _ ih => exact .keep name ih
  | drop _ ih => exact .drop ih

theorem trans (h : Thin xs ys) (h' : Thin ys zs) : Thin xs zs := by
  induction h' generalizing xs with
  | nil => exact h
  | keep name _ ih =>
    cases h with
    | keep _ h => exact .keep name (ih h)
    | drop h => exact .drop (ih h)
  | drop _ ih => exact .drop (ih h)

/-- All of them may be left out. -/
theorem filter (xs : List String) : Thin (xs.filter (· ≠ ".")) xs := by
  induction xs with
  | nil => exact .nil
  | cons name xs ih =>
    by_cases hname : name = "."
    · subst hname
      exact .drop ih
    · rw [List.filter_cons_of_pos (by simpa using hname)]
      exact .keep name ih

theorem eq_cons (h : Thin xs (name :: ys)) (hname : name ≠ ".") : ∃ zs, xs = name :: zs ∧ Thin zs ys := by
  cases h with
  | keep _ h => exact ⟨_, rfl, h⟩
  | drop _ => exact absurd rfl hname

end Thin

/-- A step over a name is made as well without other dots, and none over a dot that is left out. -/
theorem Step.thin (h : fs.Step w w') (hthin : Thin xs w.names) :
    ∃ zs, Thin zs w'.names ∧ ReflTransGen fs.Step { w with names := xs } { w' with names := zs } := by
  cases h with
  | here hat =>
    cases hthin with
    | keep _ hrest => exact ⟨_, hrest, .single (.here hat)⟩
    | drop hrest => exact ⟨_, hrest, .refl⟩
  | up hat =>
    obtain ⟨zs, rfl, hrest⟩ := hthin.eq_cons (by decide)
    exact ⟨zs, hrest, .single (.up hat)⟩
  | down hat hname hthere =>
    obtain ⟨zs, rfl, hrest⟩ := hthin.eq_cons hname.not_here
    exact ⟨zs, hrest, .single (.down hat hname hthere)⟩
  | link hat hname hthere =>
    obtain ⟨zs, rfl, hrest⟩ := hthin.eq_cons hname.not_here
    exact ⟨_, (Thin.refl _).append hrest, .single (.link hat hname hthere)⟩

theorem steps_thin (h : ReflTransGen fs.Step ⟨links, at_, ys⟩ w) (hthin : Thin xs ys) :
    ∃ zs, Thin zs w.names ∧ ReflTransGen fs.Step ⟨links, at_, xs⟩ { w with names := zs } := by
  induction h with
  | refl => exact ⟨xs, hthin, .refl⟩
  | tail _ hstep ih =>
    obtain ⟨zs, hzs, hsteps⟩ := ih
    obtain ⟨more, hmore, hstep⟩ := hstep.thin hzs
    exact ⟨more, hmore, hsteps.trans hstep⟩

/-- If something is found after a step, so it is before; a link at the end may be found itself. -/
theorem Step.exists_found (h : fs.Step w w') (hfound : ∃ r e, w'.place fs follow = .ok (.found r e)) :
    ∃ r e, w.place fs follow = .ok (.found r e) := by
  by_cases hlast : w.names.tail = [] ∧ follow = false
  · obtain ⟨hlast, rfl⟩ := hlast
    unfold Walker.place at hfound ⊢
    cases h with
    | here hat => rwa [walk_here hat]
    | up hat => rwa [walk_up hat]
    | down hat hname hthere => rwa [walk_down hat hname hthere]
    | link hat hname hthere =>
      obtain rfl : _ = [] := hlast
      exact ⟨_, _, walk_last hat hname hthere (fun _ h => by cases h) fun _ _ => rfl⟩
  · rwa [h.place_eq (by simpa [Decidable.or_iff_not_imp_left] using hlast)]

/-- What is found is found without its dots, and without following it. -/
theorem walk_thin (h : fs.walk follow links at_ ys = .ok (.found r e)) (hthin : Thin xs ys)
    (hfollow : follow' = true → follow = true) : ∃ r e, fs.walk follow' links at_ xs = .ok (.found r e) := by
  obtain ⟨w, hsteps, hends⟩ := exists_steps_of_walk h
  obtain ⟨zs, hzs, hsteps⟩ := steps_thin hsteps hthin
  have hend : ∃ r e, fs.walk follow' w.links w.at_ zs = .ok (.found r e) := by
    cases hends with
    | here hat =>
      cases hzs
      exact ⟨_, _, by rw [walk, hat]⟩
    | name hat hname hthere hlast hlink =>
      obtain ⟨_, rfl, hnil⟩ := hzs.eq_cons hname.not_here
      cases hnil
      refine ⟨_, _, walk_last hat hname hthere hlast fun target he => ?_⟩
      cases follow' with
      | false => rfl
      | true => exact absurd (hfollow rfl) (by simp [hlink target he])
  have hback : ∀ w', ReflTransGen fs.Step w' { w with names := zs } →
      ∃ r e, w'.place fs follow' = .ok (.found r e) := by
    intro w' hw'
    induction hw' using ReflTransGen.head_induction_on with
    | refl => exact hend
    | head hstep _ ih => exact hstep.exists_found ih
  exact hback _ hsteps

end Taskwork.Files
