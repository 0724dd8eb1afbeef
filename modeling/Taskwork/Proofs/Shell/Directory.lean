/-
The directory of a shell. Changing it cleans the path that was asked for, but a step up from the root is
kept, and the next one takes it back: so what is written behind the root are the names of the clean path,
after a `..` if an odd number of steps went up from the root (`exists_names_of_isAbsolute`). As this number
counts on from one change of directory to the next, it decides for a whole run whether the directory is
clean in the end.
-/
import Taskwork.Proofs.Path.Fragments
import Taskwork.Proofs.Shell.Account
import Taskwork.Proofs.Shell.Status
import Mathlib

namespace Taskwork.Shell

open Taskwork.Path (moves)
open Component (IsName)

variable {path : String}

/-! ## Steps up from the root -/

/-- How many of some steps go up from the root, if they start `depth` names below it. -/
def climbsFrom : ℕ → List Component → ℕ
  | _, [] => 0
  | depth, .name _ :: cs => climbsFrom (depth + 1) cs
  | depth + 1, .up :: cs => climbsFrom depth cs
  | 0, .up :: cs => climbsFrom 0 cs + 1
  | depth, .root :: cs | depth, .here :: cs => climbsFrom depth cs

/-- How many steps of an absolute path go up from the root. -/
def climbs (path : String) : ℕ := climbsFrom 0 (moves path)

/-- What stands at the root, the last step first, after some steps up from it. -/
def atRoot (n : ℕ) : List Component := if Even n then [.root] else [.up, .root]

/-- Every step up from the root takes back the one before it. -/
theorem directoryStep_atRoot (n : ℕ) : Builtin.directoryStep (atRoot n) .up = atRoot (n + 1) := by
  by_cases hn : Even n <;> simp [atRoot, Nat.even_add_one, hn, Builtin.directoryStep]

/-- Both ways of cleaning put the same names on what stands at the root. -/
theorem foldl_directoryStep {cs : List Component} (hcs : ∀ c ∈ cs, c.IsMove) {names : List String}
    (hnames : ∀ n ∈ names, IsName n) (n : ℕ) :
    ∃ names' : List String, (∀ m ∈ names', IsName m) ∧
      cs.foldl Path.cleanStep (names.map .name ++ [.root]) = names'.map .name ++ [.root] ∧
      cs.foldl Builtin.directoryStep (names.map .name ++ atRoot n) =
        names'.map .name ++ atRoot (n + climbsFrom names.length cs) := by
  induction cs generalizing names n with
  | nil => exact ⟨names, hnames, rfl, rfl⟩
  | cons c cs ih =>
    obtain ⟨hc, hrest⟩ := List.forall_mem_cons.1 hcs
    cases c with
    | root => exact hc.elim
    | here => exact hc.elim
    | name m =>
      have hnames' : ∀ k ∈ m :: names, IsName k := List.forall_mem_cons.2 ⟨hc, hnames⟩
      obtain ⟨names', hnames', hclean, hdirectory⟩ := ih hrest hnames' n
      exact ⟨names', hnames', hclean, hdirectory⟩
    | up =>
      cases names with
      | cons m names =>
        obtain ⟨-, hnames⟩ := List.forall_mem_cons.1 hnames
        exact ih hrest hnames n
      | nil =>
        obtain ⟨names', hnames', hclean, hdirectory⟩ := ih hrest hnames (n + 1)
        refine ⟨names', hnames', hclean, ?_⟩
        have hcount : n + climbsFrom 0 (.up :: cs) = n + 1 + climbsFrom 0 cs := by
          rw [climbsFrom]
          omega
        rw [List.foldl_cons, List.map_nil, List.nil_append, directoryStep_atRoot, List.length_nil, hcount]
        exact hdirectory

/-! ## Two ways of cleaning -/

theorem isMove_of_mem_moves {c : Component} (h : c ∈ moves path) : c.IsMove :=
  Path.isMove_of_mem_ofPieces (fun _ hp => Path.not_slash_of_mem_pieces hp) h

/-- The steps that the directory of a path is written with, the last one first. -/
def directoryTrail (path : String) : List Component := (moves path).foldl Builtin.directoryStep [.root]

theorem cleanDirectory_eq (h : Path.isAbsolute path = true) :
    Builtin.cleanDirectory path = Path.ofComponents (directoryTrail path).reverse := by
  unfold Builtin.cleanDirectory directoryTrail
  rw [Path.components_of_isAbsolute h, List.foldl_cons]
  rfl

/-- A path leads from the root, or from a step above it, down by some names. -/
structure LeadsDown (path : String) (names : List String) : Prop where
  isName : ∀ n ∈ names, IsName n
  clean : Path.clean path = Path.ofComponents (.root :: names.map .name)
  trail : directoryTrail path = (names.map .name).reverse ++ atRoot (climbs path)

theorem exists_leadsDown (h : Path.isAbsolute path = true) : ∃ names, LeadsDown path names := by
  obtain ⟨names, hnames, hclean, hdirectory⟩ :=
    foldl_directoryStep (fun _ => isMove_of_mem_moves) (List.forall_mem_nil IsName) 0
  have htrail : Path.trail path = names.map .name ++ [.root] := by
    rw [Path.trail_eq, if_pos h]
    exact hclean
  refine ⟨names.reverse, fun n hn => hnames n (List.mem_reverse.1 hn), ?_, ?_⟩
  · have hcomponents : Path.cleanComponents (Path.components path) = .root :: names.reverse.map .name := by
      rw [← List.reverse_reverse (Path.cleanComponents _), List.map_reverse]
      exact (congrArg List.reverse htrail).trans (by simp)
    unfold Path.clean
    rw [hcomponents]
  · rw [List.map_reverse, List.reverse_reverse, directoryTrail]
    rw [Nat.zero_add] at hdirectory
    exact hdirectory

/-- The steps behind the root in front of the names. -/
def upsAtRoot (n : ℕ) : List Component := if Even n then [] else [.up]

theorem reverse_atRoot (n : ℕ) : (atRoot n).reverse = .root :: upsAtRoot n := by
  unfold atRoot upsAtRoot
  split <;> rfl

theorem foldl_directoryStep_upsAtRoot (n : ℕ) : (upsAtRoot n).foldl Builtin.directoryStep [.root] = atRoot n := by
  unfold upsAtRoot atRoot
  split <;> rfl

theorem foldl_directoryStep_names (names : List String) (steps : List Component) :
    (names.map Component.name).foldl Builtin.directoryStep steps = (names.map Component.name).reverse ++ steps := by
  induction names generalizing steps with
  | nil => rfl
  | cons n names ih =>
    rw [List.map_cons, List.foldl_cons, ih, List.reverse_cons, List.append_assoc]
    cases steps <;> rfl

namespace LeadsDown

variable {names : List String} (h : LeadsDown path names)
include h

theorem cleanDirectory (habs : Path.isAbsolute path = true) :
    Builtin.cleanDirectory path = Path.ofComponents (.root :: (upsAtRoot (climbs path) ++ names.map .name)) := by
  rw [cleanDirectory_eq habs, h.trail, List.reverse_append, List.reverse_reverse, reverse_atRoot, List.cons_append]

theorem components_cleanDirectory (habs : Path.isAbsolute path = true) :
    Path.components (Builtin.cleanDirectory path) = .root :: (upsAtRoot (climbs path) ++ names.map .name) := by
  rw [h.cleanDirectory habs]
  refine Path.components_ofComponents_root fun c hc => ?_
  rcases List.mem_append.1 hc with hc | hc
  · unfold upsAtRoot at hc
    split at hc
    · cases hc
    · rw [List.mem_singleton.1 hc]
      trivial
  · exact Path.isMove_of_mem_map h.isName c hc

end LeadsDown

/-- The directory of an absolute path is absolute. -/
theorem isAbsolute_cleanDirectory (h : Path.isAbsolute path = true) :
    Path.isAbsolute (Builtin.cleanDirectory path) = true := by
  obtain ⟨names, hnames⟩ := exists_leadsDown h
  have hcomponents := hnames.components_cleanDirectory h
  obtain ⟨cs, hmoves, ⟨habs, -⟩ | ⟨-, hcs | hcs⟩⟩ := Path.components_cases (Builtin.cleanDirectory path)
  · exact habs
  · rw [hcomponents] at hcs
    cases hcs
  · rw [hcomponents] at hcs
    exact (hmoves .root (hcs ▸ List.mem_cons_self)).elim

/-- Written from the root by names alone, the directory has no step up in front. -/
theorem even_climbs_of_fromRoot (h : Path.isAbsolute path = true)
    (hfrom : Path.FromRoot (Builtin.cleanDirectory path)) : Even (climbs path) := by
  obtain ⟨names, hnames⟩ := exists_leadsDown h
  obtain ⟨names', hnames', heq⟩ := hfrom
  have hcomponents := hnames.components_cleanDirectory h
  rw [heq, Path.components_ofComponents_root (Path.isMove_of_mem_map hnames')] at hcomponents
  by_contra hodd
  rw [upsAtRoot, if_neg hodd] at hcomponents
  cases names' with
  | nil => simp at hcomponents
  | cons n names' => simp at hcomponents

/-- The two ways of cleaning agree on the paths that go up from the root an even number of times. -/
theorem cleanDirectory_eq_clean_iff (h : Path.isAbsolute path = true) :
    Builtin.cleanDirectory path = Path.clean path ↔ Even (climbs path) := by
  constructor
  · intro heq
    refine even_climbs_of_fromRoot h ?_
    rw [heq]
    exact Path.fromRoot_clean_of_isAbsolute h
  · intro heven
    obtain ⟨names, hnames⟩ := exists_leadsDown h
    rw [hnames.cleanDirectory h, hnames.clean, upsAtRoot, if_pos heven, List.nil_append]

/-- What `cd` makes of a path is clean if the path goes up from the root an even number of times, and only then. -/
theorem clean_cleanDirectory_iff (h : Path.isAbsolute path = true) :
    Path.clean (Builtin.cleanDirectory path) = Builtin.cleanDirectory path ↔ Even (climbs path) := by
  constructor
  · intro hself
    refine even_climbs_of_fromRoot h ?_
    rw [← hself]
    exact Path.fromRoot_clean_of_isAbsolute (isAbsolute_cleanDirectory h)
  · intro heven
    rw [(cleanDirectory_eq_clean_iff h).2 heven, Path.clean_clean]

/-- A directory has the trail of the path that it was cleaned from. -/
theorem directoryTrail_cleanDirectory (h : Path.isAbsolute path = true) :
    directoryTrail (Builtin.cleanDirectory path) = directoryTrail path := by
  obtain ⟨names, hnames⟩ := exists_leadsDown h
  have hroot := Path.components_of_isAbsolute (isAbsolute_cleanDirectory h)
  rw [hnames.components_cleanDirectory h] at hroot
  rw [hnames.trail, directoryTrail, ← (List.cons.inj hroot).2, List.foldl_append, foldl_directoryStep_upsAtRoot,
    foldl_directoryStep_names]

/-- A path that is clean already stays as it is. -/
theorem cleanDirectory_of_fromRoot (h : Path.FromRoot path) : Builtin.cleanDirectory path = path := by
  obtain ⟨names, hnames, rfl⟩ := h
  have hmoves := Path.isMove_of_mem_map hnames
  unfold Builtin.cleanDirectory
  rw [Path.components_ofComponents_root hmoves, List.foldl_cons]
  show Path.ofComponents ((names.map Component.name).foldl Builtin.directoryStep [.root]).reverse = _
  rw [foldl_directoryStep_names, List.reverse_append, List.reverse_reverse]
  rfl

/-! ## Changing the directory again and again -/

/-- The directory that `cd` goes to from another one. -/
def goTo (directory target : String) : String := Builtin.cleanDirectory (Path.join directory target)

/-- The directories that `cd` goes to, one after another. -/
def tour (directory : String) : List String → List String
  | [] => []
  | target :: targets => goTo directory target :: tour (goTo directory target) targets

theorem tour_append (directory : String) (targets more : List String) :
    tour directory (targets ++ more) = tour directory targets ++ tour (targets.foldl goTo directory) more := by
  induction targets generalizing directory with
  | nil => rfl
  | cons target targets ih => exact congrArg _ (ih (goTo directory target))

theorem directoryTrail_join {directory target : String} (h : Path.isAbsolute target = false) :
    directoryTrail (Path.join directory target) =
      (moves target).foldl Builtin.directoryStep (directoryTrail directory) := by
  unfold directoryTrail
  rw [Path.moves_join h, List.foldl_append]

/-- A path may be cleaned before the next target is written behind it or after that. -/
theorem goTo_cleanDirectory {directory : String} (h : Path.isAbsolute directory = true) (target : String) :
    goTo (Builtin.cleanDirectory directory) target = goTo directory target := by
  have habs := isAbsolute_cleanDirectory h
  unfold goTo
  cases htarget : Path.isAbsolute target with
  | true => simp [Path.join, htarget]
  | false =>
    rw [cleanDirectory_eq (Path.isAbsolute_join_left habs target), cleanDirectory_eq (Path.isAbsolute_join_left h target),
      directoryTrail_join htarget, directoryTrail_join htarget, directoryTrail_cleanDirectory h]

/-- Changing the directory again and again leads where all targets lead that are written one behind the
other. -/
theorem foldl_goTo {directory : String} (h : Path.isAbsolute directory = true) (targets : List String) :
    targets.foldl goTo (Builtin.cleanDirectory directory) =
      Builtin.cleanDirectory (targets.foldl Path.join directory) := by
  induction targets generalizing directory with
  | nil => rfl
  | cons target targets ih =>
    rw [List.foldl_cons, List.foldl_cons, goTo_cleanDirectory h]
    exact ih (Path.isAbsolute_join_left h target)

/-! ## Runs -/

/-- The directories that the shell itself enters. -/
def enteredIn (deeds : List Deed) : List String :=
  deeds.filterMap fun
    | .entered directory => some directory
    | _ => none

theorem enteredIn_append (deeds more : List Deed) : enteredIn (deeds ++ more) = enteredIn deeds ++ enteredIn more :=
  List.filterMap_append

/-- Every directory that is entered between two worlds is the one that `cd` goes to from the one before. -/
def Tours (w w' : World) (deeds : List Deed) : Prop :=
  ∃ targets, enteredIn deeds = tour w.state.directory targets ∧
    w'.state.directory = targets.foldl goTo w.state.directory

theorem Tours.trans {w w' w'' : World} {deeds more : List Deed} (hdeeds : Tours w w' deeds) (hmore : Tours w' w'' more) :
    Tours w w'' (deeds ++ more) := by
  obtain ⟨targets, hentered, hdirectory⟩ := hdeeds
  obtain ⟨targets', hentered', hdirectory'⟩ := hmore
  refine ⟨targets ++ targets', ?_, ?_⟩
  · rw [enteredIn_append, hentered, hentered', hdirectory, tour_append]
  · rw [List.foldl_append, ← hdirectory, hdirectory']

theorem directory_apply (s : State) (d : Deed) (h : ∀ directory, d ≠ .entered directory) :
    (d.apply s).directory = s.directory := by
  cases d with
  | set name value =>
    simp only [Deed.apply, State.set]
    split <;> rfl
  | published name value =>
    simp only [Deed.apply, State.publish]
    split <;> rfl
  | entered directory => exact absurd rfl (h directory)
  | _ => rfl

theorem directory_replay (s : State) {deeds : List Deed} (h : enteredIn deeds = []) :
    (replay s deeds).directory = s.directory := by
  have hnone : ∀ d ∈ deeds, ∀ directory, d ≠ .entered directory := by
    rintro d hd directory rfl
    have hmem : directory ∈ enteredIn deeds := List.mem_filterMap.2 ⟨_, hd, rfl⟩
    rw [h] at hmem
    cases hmem
  clear h
  induction deeds generalizing s with
  | nil => rfl
  | cons d rest ih =>
    obtain ⟨hd, hrest⟩ := List.forall_mem_cons.1 hnone
    exact (ih (d.apply s) hrest).trans (directory_apply s d hd)

/-- Where no directory is entered, the shell stays in its own. -/
theorem Tells.tours {w w' : World} {deeds : List Deed} (h : Tells w w' deeds) (hnone : enteredIn deeds = []) :
    Tours w w' deeds := by
  refine ⟨[], hnone, ?_⟩
  rw [h.state, directory_replay w.state hnone]
  rfl

/-- Something of which the journal accounts for the state, and tours of directories are all that it makes. -/
structure Toured (h : Handlers) {α : Type} (x : Recorded α) : Prop where
  accounted : Accounted h x
  tours : ∀ w, Tours w (x w).1.2 (x w).2

namespace Toured

variable {h : Handlers} {α β : Type}

theorem silent {x : Recorded α} (hx : Accounted h x) (hnone : ∀ w, enteredIn (x w).2 = []) : Toured h x :=
  ⟨hx, fun w => (hx w).tells.tours (hnone w)⟩

theorem bind {x : Recorded α} {f : α → Recorded β} (hx : Toured h x) (hf : ∀ a, Toured h (f a)) :
    Toured h (x >>= f) := by
  refine ⟨hx.accounted.bind fun a => (hf a).accounted, fun w => ?_⟩
  have htours := hx.tours w
  obtain ⟨⟨⟨result, w'⟩, deeds⟩, hxw⟩ : ∃ out, x w = out := ⟨_, rfl⟩
  rw [hxw] at htours
  cases result with
  | error e =>
    rw [Recorded.bind_error hxw]
    exact htours
  | ok a =>
    rw [Recorded.bind_ok hxw]
    exact htours.trans ((hf a).tours w')

theorem cd (args : List String) (streams : Streams) (w : World) :
    Tours w (Builtin.cd args streams w).2 (builtinDeeds "cd" args (Builtin.cd args streams w)) := by
  have hfail (message : String) : Tours w (Builtin.fail "cd" message streams 1 w).2
      (builtinDeeds "cd" args (Builtin.fail "cd" message streams 1 w)) := by
    have hstate := (Says.calm.fail "cd" message streams 1 w).2
    have hfailed : (Builtin.fail "cd" message streams 1 w).1 = .ok 1 := by
      unfold Builtin.fail
      obtain ⟨⟨a, ha⟩, -⟩ := Says.calm.writeText streams.stderr ("cd: " ++ message ++ "\n") w
      exact congrArg Prod.fst (Stateful.bind_ok (Prod.ext ha rfl))
    refine ⟨[], ?_, ?_⟩
    · simp only [builtinDeeds, hfailed]
      rfl
    · rw [hstate]
      rfl
  unfold Builtin.cd
  rw [Stateful.bind_ok (show Act.state w = (.ok w.state, w) from rfl)]
  cases args.head?.or (w.state.var? "HOME") with
  | none => exact hfail _
  | some target =>
    dsimp only
    rw [Stateful.bind_ok (show Act.files w = (.ok w.host.files, w) from rfl)]
    cases w.host.files.isDirectory (Builtin.cleanDirectory (Path.join w.state.directory target)) with
    | false => exact hfail _
    | true => exact ⟨[target], rfl, rfl⟩

theorem enteredIn_builtinDeeds {name : String} (hname : name ≠ "cd") (args : List String)
    (out : Except Stop Int × World) : enteredIn (builtinDeeds name args out) = [] := by
  unfold builtinDeeds
  split
  · exact absurd rfl hname
  · split <;> rfl
  · simp only [enteredIn, List.filterMap_map, List.filterMap_eq_nil_iff]
    intro arg _
    cases harg : Builtin.splitEqual? arg <;> simp [harg]
  · simp [enteredIn, List.filterMap_map]
  · rfl

theorem perform (words : List String) (assigned : List (String × String)) (streams : Streams) :
    Toured h ((Recorded.operations h).perform words assigned streams) := by
  refine ⟨.perform words assigned streams, fun w => ?_⟩
  have htells := (Accounted.perform (h := h) words assigned streams w).tells
  cases words with
  | nil =>
    refine htells.tours ?_
    show enteredIn (assigned.map fun row => Deed.set row.1 row.2) = []
    simp [enteredIn, List.filterMap_map]
  | cons name args =>
    by_cases hname : name = "cd"
    · subst hname
      exact cd args streams w
    · refine htells.tours ?_
      show enteredIn (commandDeeds (name :: args) assigned streams w _) = []
      unfold commandDeeds
      dsimp only
      split
      · exact enteredIn_builtinDeeds hname args _
      · rfl

end Toured

/-- All that is run makes tours of directories. -/
theorem toured (h : Handlers) : (Recorded.operations h).Related (Operations.acts h) fun x _ => Toured h x where
  pure a := .silent (.plainly (.pure a)) fun _ => rfl
  bind hx hf := .bind hx hf
  isOver := .silent (accounted h).isOver fun _ => rfl
  lastStatus := .silent (accounted h).lastStatus fun _ => rfl
  note status := .silent ((accounted h).note status) fun _ => rfl
  conclude status counts := .silent ((accounted h).conclude status counts) fun _ => rfl
  tested isTest _ _ hx := by
    refine ⟨hx.accounted.tested isTest, fun w => ?_⟩
    cases isTest with
    | false => exact hx.tours w
    | true => exact hx.tours { w with state := { w.state with tests := w.state.tests + 1 } }
  copied hx := .silent hx.accounted.copied fun _ => rfl
  piped hx := .silent hx.accounted.piped fun _ => rfl
  substituted hrun := .silent (.substituted fun streams => (hrun streams).accounted) fun _ => rfl
  lookup name := .silent ((accounted h).lookup name) fun _ => rfl
  arguments found := .silent ((accounted h).arguments found) fun _ => rfl
  redirect fd kind target streams := .silent (.redirect fd kind target streams) fun w => by cases kind <;> rfl
  refuse streams fault := .silent ((accounted h).refuse streams fault) fun _ => rfl
  perform words assigned streams := .perform words assigned streams

namespace Recorded

variable (h : Handlers)

theorem tours_statement (s : Statement) (w : World) : Tours w (statement h s w).1.2 (statement h s w).2 := by
  cases hexited : w.state.exited with
  | true =>
    rw [show statement h s w = ((.ok (), w), []) from if_pos hexited]
    exact ⟨[], rfl, rfl⟩
  | false =>
    obtain ⟨⟨⟨outcome, v⟩, deeds⟩, hrun⟩ : ∃ out, (operations h).andOr w.state.streams s w = out := ⟨_, rfl⟩
    have htours := ((toured h).andOr w.state.streams s).tours w
    rw [hrun] at htours
    have hstatement : statement h s w = (ended (outcome, v), deeds ++ (statusOf? outcome).toList.map .noted) := by
      unfold statement
      rw [hexited, hrun]
      rfl
    rw [hstatement]
    -- that the status is noted changes no directory
    have hnoted : enteredIn ((statusOf? outcome).toList.map Deed.noted) = [] := by
      simp [enteredIn, List.filterMap_map]
    refine htours.trans ⟨[], hnoted, ?_⟩
    rw [ended_state, directory_replay v.state hnoted]
    rfl

theorem tours_each (statements : List Statement) (w : World) :
    Tours w (each h statements w).1 (each h statements w).2 := by
  induction statements generalizing w with
  | nil => exact ⟨[], rfl, rfl⟩
  | cons s rest ih => exact (tours_statement h s w).trans (ih (statement h s w).1.2)

end Recorded

variable (h : Handlers)

/-- On the absolute paths that go up from the root an even number of times, and on no others, `cd` cleans a
path as paths are cleaned elsewhere. A shell that starts in an absolute clean directory is in an absolute
one after any statements: in that of all targets of its changes of directory, written one behind the
other. This directory is clean just if they go up from the root an even number of times. -/
theorem directory_clean_iff (statements : List Statement) (w : World)
    (habs : Path.isAbsolute w.state.directory = true) (hclean : Path.clean w.state.directory = w.state.directory) :
    (∀ path, Path.isAbsolute path = true →
      (Builtin.cleanDirectory path = Path.clean path ↔ Even (climbs path))) ∧
    ∃ w' deeds targets, Recorded.each h statements w = (w', deeds) ∧ Run.each h statements w = w' ∧
      enteredIn deeds = tour w.state.directory targets ∧
      w'.state.directory = Builtin.cleanDirectory (targets.foldl Path.join w.state.directory) ∧
      Path.isAbsolute w'.state.directory = true ∧
      (Path.clean w'.state.directory = w'.state.directory ↔
        Even (climbs (targets.foldl Path.join w.state.directory))) := by
  refine ⟨fun path hpath => cleanDirectory_eq_clean_iff hpath, ?_⟩
  obtain ⟨⟨w', deeds⟩, heach⟩ : ∃ out, Recorded.each h statements w = out := ⟨_, rfl⟩
  obtain ⟨targets, hentered, hdirectory⟩ := Recorded.tours_each h statements w
  rw [heach] at hentered hdirectory
  have hstart : Path.FromRoot w.state.directory := by
    rw [← hclean]
    exact Path.fromRoot_clean_of_isAbsolute habs
  obtain ⟨whole, hwhole⟩ : ∃ path, targets.foldl Path.join w.state.directory = path := ⟨_, rfl⟩
  have hwholeAbs : Path.isAbsolute whole = true := hwhole ▸ Path.isAbsolute_foldl_join habs targets
  have hend : w'.state.directory = Builtin.cleanDirectory whole := by
    have hfold := foldl_goTo habs targets
    rw [cleanDirectory_of_fromRoot hstart, hwhole] at hfold
    exact hdirectory.trans hfold
  have hendAbs := isAbsolute_cleanDirectory hwholeAbs
  refine ⟨w', deeds, targets, heach, ?_, hentered, ?_, ?_, ?_⟩
  · rw [← Recorded.fst_each, heach]
  · rw [hwhole, hend]
  · rw [hend, hendAbs]
  · rw [hwhole, hend, clean_cleanDirectory_iff hwholeAbs]

/-- `cd` with a target. -/
def cdStatement (target text : String) (line : Nat) : Statement :=
  ⟨⟨false, [.simple [] [[.literal "cd" false], [.literal target false]] []]⟩, [], text, line⟩

/-- A shell in the root of a tree with the directories `/a`, `/a/b` and `/a/c`. -/
def laneWorld : World :=
  let routes : List Route := [[], ["a"], ["a", "b"], ["a", "c"]]
  ⟨State.initial "/", [], .ofFiles ⟨routes.map (·, .directory 0), [], [], 0, []⟩ []⟩

/-- `cd a/b; cd ../c` goes up, but not from the root. -/
theorem laneWorld_stays_clean :
    let script := [cdStatement "a/b" "cd a/b" 1, cdStatement "../c" "cd ../c" 1]
    Script.ofString "cd a/b; cd ../c" = .ok script ∧
      Path.isAbsolute laneWorld.state.directory = true ∧ Path.clean laneWorld.state.directory = laneWorld.state.directory ∧
      (Run.each sampleHandlers script laneWorld).state.directory = "/a/c" ∧
      ∃ targets, ["/a/b", "/a/c"] = tour "/" targets ∧
        "/a/c" = Builtin.cleanDirectory (targets.foldl Path.join "/") ∧ Even (climbs (targets.foldl Path.join "/")) := by
  intro script
  have habs : Path.isAbsolute laneWorld.state.directory = true := by decide
  have hclean : Path.clean laneWorld.state.directory = laneWorld.state.directory := by decide
  have hend : (Run.each sampleHandlers script laneWorld).state.directory = "/a/c" := by cbv
  have hentered : enteredIn (Recorded.each sampleHandlers script laneWorld).2 = ["/a/b", "/a/c"] := by cbv
  obtain ⟨-, w', deeds, targets, hrecorded, hrun, htour, hdirectory, -, hiff⟩ :=
    directory_clean_iff sampleHandlers script laneWorld habs hclean
  rw [hrun] at hend
  rw [hrecorded] at hentered
  rw [hend] at hdirectory hiff
  exact ⟨by with_unfolding_all rfl, habs, hclean, hrun ▸ hend, targets, hentered.symm.trans htour, hdirectory,
    hiff.1 (by decide)⟩

/-- One step up from the root makes a directory of its own. -/
theorem up_from_root_unclean :
    let script := [cdStatement "/.." "cd /.." 1]
    Script.ofString "cd /.." = .ok script ∧
      Path.isAbsolute laneWorld.state.directory = true ∧ Path.clean laneWorld.state.directory = laneWorld.state.directory ∧
      (Run.each sampleHandlers script laneWorld).state.directory = "/.." ∧
      Builtin.cleanDirectory "/.." = "/.." ∧ Path.clean "/.." = "/" :=
  ⟨by with_unfolding_all rfl, by decide, by decide, by cbv, by decide, by decide⟩

end Taskwork.Shell
