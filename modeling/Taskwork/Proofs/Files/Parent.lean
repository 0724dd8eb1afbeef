/-
A path and the directory in which its last name is looked up. What is found at a path is found from there on
(`locate_of_parent`), and whoever finds something at a path comes through that directory (`parent_of_locate`); what is
no directory is found under the last name of its path (`parent_of_located`).
-/
import Taskwork.Proofs.Files.Sound

namespace Taskwork.Files

open Relation (ReflTransGen)

variable {fs : Files} {follow slash : Bool} {links left : Nat} {path name : String} {at_ d q r : Route} {e : Entry}
  {t : Instant} {last : LastName} {ys zs : List String}

/-! ## Walks in two parts -/

/-- A walk that finds something comes to a directory before any of its names. -/
theorem exists_steps_of_walk_append (hwalk : fs.walk follow links at_ (ys ++ zs) = .ok (.found r e)) (hzs : zs ≠ []) :
    ∃ left d, ReflTransGen fs.Step ⟨links, at_, ys⟩ ⟨left, d, []⟩ ∧ fs.HoldsDirectory d := by
  obtain ⟨last, hsteps, hends⟩ := exists_steps_of_walk hwalk
  have hparts : ∀ v, ReflTransGen fs.Step v last → ∀ ys, v.names = ys ++ zs →
      ∃ left d, ReflTransGen fs.Step { v with names := ys } ⟨left, d, []⟩ ∧ fs.HoldsDirectory d := by
    intro v hv
    induction hv using ReflTransGen.head_induction_on with
    | refl =>
      intro ys hnames
      cases hends with
      | here hat => exact absurd (List.append_eq_nil_iff.1 hnames.symm).2 hzs
      | @name links at_ name e hat =>
        cases ys with
        | nil => exact ⟨links, at_, .refl, hat⟩
        | cons y ys => exact absurd (List.append_eq_nil_iff.1 (List.cons.inj hnames).2.symm).2 hzs
    | @head v w hstep _ ih =>
      intro ys hnames
      cases ys with
      | nil =>
        refine ⟨v.links, v.at_, .refl, ?_⟩
        cases hstep with
        | here hat => exact hat
        | up hat => exact hat
        | down hat => exact hat
        | link hat => exact hat
      | cons y ys =>
        cases hstep with
        | here hat =>
          obtain ⟨rfl, hrest⟩ := List.cons.inj hnames
          obtain ⟨left, d, hmore, hd⟩ := ih ys hrest
          exact ⟨left, d, .head (.here hat) hmore, hd⟩
        | up hat =>
          obtain ⟨rfl, hrest⟩ := List.cons.inj hnames
          obtain ⟨left, d, hmore, hd⟩ := ih ys hrest
          exact ⟨left, d, .head (.up hat) hmore, hd⟩
        | down hat hname hthere =>
          obtain ⟨rfl, hrest⟩ := List.cons.inj hnames
          obtain ⟨left, d, hmore, hd⟩ := ih ys hrest
          exact ⟨left, d, .head (.down hat hname hthere) hmore, hd⟩
        | @link _ _ _ target _ hat hname hthere =>
          obtain ⟨rfl, hrest⟩ := List.cons.inj hnames
          obtain ⟨left, d, hmore, hd⟩ := ih (namesOf target ++ ys)
            (by rw [List.append_assoc, hrest]; rfl)
          exact ⟨left, d, .head (.link hat hname hthere) hmore, hd⟩
  exact hparts _ hsteps ys rfl

theorem walk_of_steps (hsteps : ReflTransGen fs.Step ⟨links, at_, ys⟩ ⟨left, d, []⟩) (hd : fs.entry? d = some e) :
    fs.walk true links at_ ys = .ok (.found d e) := by
  have hplace : ∀ w, ReflTransGen fs.Step w ⟨left, d, []⟩ → w.place fs true = .ok (.found d e) := by
    intro w hw
    induction hw using ReflTransGen.head_induction_on with
    | refl =>
      unfold Walker.place
      rw [walk, hd]
    | head hstep _ ih => rw [hstep.place_eq (.inr rfl), ih]
  exact hplace _ hsteps

theorem steps_of_walk (hwalk : fs.walk follow links at_ ys = .ok (.found d (.directory t))) :
    ∃ left, ReflTransGen fs.Step ⟨links, at_, ys⟩ ⟨left, d, []⟩ := by
  obtain ⟨last, hsteps, hends⟩ := exists_steps_of_walk hwalk
  cases hends with
  | here hat => exact ⟨_, hsteps⟩
  | name _ _ _ hlast => exact absurd rfl (hlast t)

/-- What is at a name in a directory; a link stands for itself. -/
theorem walk_name (hat : fs.HoldsDirectory d) (hname : LookedUp name) :
    fs.walk false links d [name] = .ok (match fs.entry? (d ++ [name]) with
      | none => .vacant d name
      | some e => .found (d ++ [name]) e) := by
  cases hthere : fs.entry? (d ++ [name]) with
  | none =>
    obtain ⟨t, ht⟩ := hat
    rw [walk, ht]
    dsimp only
    rw [if_neg hname.not_here, if_neg hname.not_up, if_neg hname.length, hthere]
    rfl
  | some e =>
    by_cases hdirectory : ∃ t, e = .directory t
    · obtain ⟨t, rfl⟩ := hdirectory
      rw [walk_down hat hname ⟨t, hthere⟩, walk, hthere]
    · exact walk_last hat hname hthere (fun t h => hdirectory ⟨t, h⟩) fun _ _ => rfl

/-- Nothing is found behind a name at which nothing is. -/
theorem not_found_behind (hfree : fs.entry? (d ++ [name]) = none) (hname : LookedUp name) :
    fs.walk follow links d (name :: ys) ≠ .ok (.found r e) := by
  intro hfound
  rw [walk] at hfound
  split at hfound
  · cases hfound
  · cases hfound
  · cases hfound
  · cases hfound
  · rw [if_neg hname.not_here, if_neg hname.not_up, if_neg hname.length, hfree] at hfound
    dsimp only at hfound
    split at hfound <;> cases hfound

/-- A walk that goes on over a name with no dots looks it up. -/
theorem lookedUp_of_walk (hwalk : fs.walk follow links d (name :: ys) = .ok (.found r e)) (hhere : name ≠ ".")
    (hup : name ≠ "..") : LookedUp name where
  not_here := hhere
  not_up := hup
  length := by
    intro hlength
    rw [walk] at hwalk
    split at hwalk
    · cases hwalk
    · cases hwalk
    · cases hwalk
    · cases hwalk
    · rw [if_neg hhere, if_neg hup, if_pos hlength] at hwalk
      cases hwalk

/-- A walk that ends in a `.` finds a directory. -/
theorem directory_of_walk_here (hwalk : fs.walk follow links at_ (ys ++ ["."]) = .ok (.found r e)) :
    ∃ t, e = .directory t := by
  obtain ⟨left, d, hsteps, hd⟩ := exists_steps_of_walk_append hwalk (List.cons_ne_nil _ _)
  rw [walk_append hsteps (List.cons_ne_nil _ _), walk_here hd] at hwalk
  obtain ⟨t, ht⟩ := hd
  rw [walk, ht] at hwalk
  cases hwalk
  exact ⟨t, rfl⟩

theorem Sound.directory_of_walk_up (hfs : fs.Sound)
    (hwalk : fs.walk follow links at_ (ys ++ [".."]) = .ok (.found r e)) : ∃ t, e = .directory t := by
  obtain ⟨left, d, hsteps, hd⟩ := exists_steps_of_walk_append hwalk (List.cons_ne_nil _ _)
  rw [walk_append hsteps (List.cons_ne_nil _ _), walk_up hd] at hwalk
  obtain ⟨t, ht⟩ := hd
  obtain ⟨t', habove⟩ := hfs.parent (mem_entries_of_eq_some ht)
  rw [walk, habove] at hwalk
  cases hwalk
  exact ⟨t', rfl⟩

/-! ## The last name of a path -/

/-- A last name as it is looked up. -/
def lastName (text : String) : Except FileFault LastName :=
  if text = "." then .ok .here
  else if text = ".." then .ok .up
  else if maxNameLength < (Utf8.encode text).length then .error .nameTooLong
  else .ok (.name text)

theorem lastName_eq_name_iff {text : String} : lastName text = .ok (.name name) ↔ text = name ∧ LookedUp name := by
  unfold lastName
  constructor
  · intro h
    split at h
    · cases h
    split at h
    · cases h
    split at h
    · cases h
    · rename_i hhere hup hlength
      cases h
      exact ⟨rfl, hhere, hup, hlength⟩
  · rintro ⟨rfl, hname⟩
    rw [if_neg hname.not_here, if_neg hname.not_up, if_neg hname.length]

/-- The parts in which a path is read. -/
structure Parts (path : String) (start : List String) (last : String) (slash : Bool) : Prop where
  no_nul : Char.ofNat 0 ∉ path.toList
  names : fileNames path = start ++ [last]
  slash : (path.toList.getLast? == some '/') = slash

theorem namesOf_of_parts {start : List String} (h : Parts path start name slash) :
    namesOf path = start ++ name :: if slash then ["."] else [] := by
  rw [namesOf_eq, h.names]
  have hslash := h.slash
  cases slash with
  | true => rw [if_pos ⟨by simpa using hslash, by simp⟩, if_pos rfl, List.append_assoc, List.singleton_append]
  | false => rw [if_neg fun h => by simp [h.1] at hslash, if_neg Bool.false_ne_true]

theorem nonempty_of_parts {start : List String} (h : Parts path start name slash) : path ≠ "" := by
  rintro rfl
  have hnames := h.names
  rw [show fileNames "" = [] from rfl] at hnames
  simp at hnames

theorem locate_of_parts {start : List String} (h : Parts path start name slash) :
    fs.locate follow path = fs.walk follow maxLinks (fs.origin path) (start ++ name :: if slash then ["."] else []) := by
  unfold locate
  rw [if_neg (by simpa using h.no_nul), if_neg (by simpa using nonempty_of_parts h), namesOf_of_parts h]

theorem parent_of_parts {start : List String} (h : Parts path start name slash) :
    fs.parent path = (match fs.walk true maxLinks (fs.origin path) start with
      | .error f => .error f
      | .ok (.found d (.directory _)) => (lastName name).map fun last => (d, last, slash)
      | .ok (.found _ _) => .error .notADirectory
      | .ok (.vacant _ _) => .error .notFound) := by
  have hnames : List.map String.ofList ((Path.pieces path.toList).filter (· ≠ [])) = start ++ [name] := h.names
  unfold parent
  rw [if_neg (by simpa using h.no_nul), if_neg (by simpa using nonempty_of_parts h)]
  simp only [hnames, List.getLast?_concat, List.dropLast_concat, h.slash]
  rcases fs.walk true maxLinks (fs.origin path) start with f | ⟨d, t | n | target | _⟩ | ⟨d, n⟩ <;> try rfl
  unfold lastName
  simp only [bind, Except.bind, pure, Except.pure]
  split
  · rfl
  split
  · rfl
  split <;> rfl

theorem parent_of_no_names (hnul : Char.ofNat 0 ∉ path.toList) (hempty : path ≠ "") (hnames : fileNames path = []) :
    fs.parent path = .ok ([], .root, path.toList.getLast? == some '/') := by
  have hnone : List.map String.ofList ((Path.pieces path.toList).filter (· ≠ [])) = [] := hnames
  unfold parent
  rw [if_neg (by simpa using hnul), if_neg (by simpa using hempty)]
  simp only [hnone, List.getLast?_nil]
  rfl

/-- A path in which a name is looked up is read in parts. -/
theorem exists_parts (hnul : Char.ofNat 0 ∉ path.toList) (hne : fileNames path ≠ []) :
    ∃ start last, Parts path start last (path.toList.getLast? == some '/') :=
  ⟨_, _, hnul, (List.dropLast_append_getLast hne).symm, rfl⟩

theorem walk_of_parent {start : List String} (hparts : Parts path start name slash)
    (h : fs.parent path = .ok (d, last, slash)) :
    lastName name = .ok last ∧ ∃ t, fs.walk true maxLinks (fs.origin path) start = .ok (.found d (.directory t)) := by
  rw [parent_of_parts hparts] at h
  split at h
  · cases h
  · rename_i t hwalk
    cases hlast : lastName name with
    | error f =>
      rw [hlast] at h
      cases h
    | ok found =>
      rw [hlast] at h
      cases h
      exact ⟨rfl, t, hwalk⟩
  · cases h
  · cases h

/-- Either a path has only slashes, and is that of the root in any tree, or its last name is looked up. -/
theorem parent_eq_ok (h : fs.parent path = .ok (d, last, slash)) :
    (last = .root ∧ ∀ fs' : Files, fs'.parent path = .ok (d, last, slash)) ∨
      ∃ start name t, Parts path start name slash ∧ lastName name = .ok last ∧
        fs.walk true maxLinks (fs.origin path) start = .ok (.found d (.directory t)) := by
  have hnul : Char.ofNat 0 ∉ path.toList := by
    intro hnul
    unfold parent at h
    rw [if_pos (by simpa using hnul)] at h
    cases h
  have hempty : path ≠ "" := by
    rintro rfl
    cases h
  by_cases hne : fileNames path = []
  · have hroot (fs : Files) : fs.parent path = .ok ([], .root, path.toList.getLast? == some '/') :=
      parent_of_no_names hnul hempty hne
    rw [hroot] at h
    cases h
    exact .inl ⟨rfl, hroot⟩
  obtain ⟨start, name, hparts⟩ := exists_parts hnul hne
  have hslash : slash = (path.toList.getLast? == some '/') := by
    rw [parent_of_parts hparts] at h
    split at h
    · cases h
    · rcases hlast : lastName name with f | found <;> rw [hlast] at h <;> cases h
      rfl
    · cases h
    · cases h
  rw [← hslash] at hparts
  obtain ⟨hlast, t, hwalk⟩ := walk_of_parent hparts h
  exact .inr ⟨start, name, t, hparts, hlast, hwalk⟩

/-- What a path leads to is found from the directory in which its last name is looked up. -/
theorem locate_of_parent (h : fs.parent path = .ok (d, .name name, slash)) :
    fs.HoldsDirectory d ∧ LookedUp name ∧
      ∃ left, ∀ follow, fs.locate follow path = fs.walk follow left d (name :: if slash then ["."] else []) := by
  obtain ⟨hroot, -⟩ | ⟨start, last, t, hparts, hlast, hwalk⟩ := parent_eq_ok h
  · cases hroot
  obtain ⟨rfl, hname⟩ := lastName_eq_name_iff.1 hlast
  obtain ⟨left, hsteps⟩ := steps_of_walk hwalk
  refine ⟨⟨t, entry?_of_walk_found _ _ _ _ hwalk⟩, hname, left, fun follow => ?_⟩
  rw [locate_of_parts hparts, walk_append hsteps (List.cons_ne_nil _ _)]

theorem not_nul_of_locate (h : fs.locate follow path = .ok (.found q e)) : Char.ofNat 0 ∉ path.toList := by
  intro hnul
  unfold locate at h
  rw [if_pos (by simpa using hnul)] at h
  cases h

theorem walk_of_locate {place : Place} (h : fs.locate follow path = .ok place) :
    fs.walk follow maxLinks (fs.origin path) (namesOf path) = .ok place := by
  unfold locate at h
  split at h
  · cases h
  split at h
  · cases h
  exact h

theorem entry?_of_locate (h : fs.locate follow path = .ok (.found q e)) : fs.entry? q = some e :=
  entry?_of_walk_found _ _ _ _ (walk_of_locate h)

/-- What is found and is no link is found as well where links are followed. -/
theorem walk_follow (he : ∀ target, e ≠ .link target) (hwalk : fs.walk false links at_ ys = .ok (.found r e)) :
    fs.walk true links at_ ys = .ok (.found r e) := by
  fun_induction Files.walk fs false links at_ ys <;> unfold Files.walk <;> grind

theorem locate_follow (he : ∀ target, e ≠ .link target) (h : fs.locate false path = .ok (.found q e)) :
    fs.locate true path = .ok (.found q e) := by
  have hwalk := walk_follow he (walk_of_locate h)
  unfold locate at h ⊢
  split at h
  · cases h
  rename_i hnul
  rw [if_neg hnul]
  split at h
  · cases h
  rename_i hempty
  rwa [if_neg hempty]

/-- Where something is found, the last name of the path is looked up in a directory. -/
theorem parent_of_locate (h : fs.locate follow path = .ok (.found q e)) :
    ∃ d last slash, fs.parent path = .ok (d, last, slash) := by
  have hnul := not_nul_of_locate h
  have hempty : path ≠ "" := by
    rintro rfl
    cases h
  by_cases hne : fileNames path = []
  · exact ⟨_, _, _, parent_of_no_names hnul hempty hne⟩
  obtain ⟨start, name, hparts⟩ := exists_parts hnul hne
  rw [locate_of_parts hparts] at h
  obtain ⟨left, d, hsteps, t, hd⟩ := exists_steps_of_walk_append h (List.cons_ne_nil _ _)
  rw [walk_append hsteps (List.cons_ne_nil _ _)] at h
  rw [parent_of_parts hparts, walk_of_steps hsteps hd]
  by_cases hhere : name = "."
  · subst hhere
    exact ⟨_, _, _, rfl⟩
  by_cases hup : name = ".."
  · subst hup
    exact ⟨_, _, _, rfl⟩
  rw [lastName_eq_name_iff.2 ⟨rfl, lookedUp_of_walk h hhere hup⟩]
  exact ⟨_, _, _, rfl⟩

/-- A path without names is that of the root. -/
theorem origin_of_no_names (hnames : fileNames path = []) (hne : path ≠ "") : fs.origin path = [] := by
  have hslashes : ∀ c ∈ path.toList, c = '/' := by
    intro c hc
    by_contra hother
    obtain ⟨p, hp, hcp⟩ := Path.exists_piece_of_mem hc hother
    have hmem : String.ofList p ∈ fileNames path :=
      List.mem_map_of_mem (List.mem_filter.2 ⟨hp, by simpa using List.ne_nil_of_mem hcp⟩)
    rw [hnames] at hmem
    cases hmem
  obtain ⟨c, cs, hcs⟩ := List.exists_cons_of_ne_nil (show path.toList ≠ [] by simpa using hne)
  unfold origin Path.isAbsolute
  rw [hcs, hslashes c (by simp [hcs])]
  rfl

/-- What is no directory is found under the last name of its path, with no slash behind it. -/
theorem Sound.parent_of_located (hfs : fs.Sound) (h : fs.locate false path = .ok (.found q e))
    (he : ∀ t, e ≠ .directory t) :
    ∃ d name, fs.parent path = .ok (d, .name name, false) ∧ q = d ++ [name] := by
  have hnul := not_nul_of_locate h
  by_cases hne : fileNames path = []
  · have hempty : path ≠ "" := by
      rintro rfl
      cases h
    obtain ⟨t, hroot⟩ := hfs.root
    unfold locate at h
    rw [if_neg (by simpa using hnul), if_neg (by simpa using hempty), namesOf_eq, if_neg fun h => h.2 hne, hne,
      origin_of_no_names hne hempty, walk, hroot] at h
    cases h
    exact absurd rfl (he t)
  obtain ⟨start, name, hparts⟩ := exists_parts hnul hne
  generalize (path.toList.getLast? == some '/') = slash at hparts
  rw [locate_of_parts hparts] at h
  cases slash with
  | true =>
    rw [if_pos rfl, List.append_cons] at h
    obtain ⟨t, rfl⟩ := directory_of_walk_here h
    exact absurd rfl (he t)
  | false =>
    rw [if_neg Bool.false_ne_true] at h
    have hhere : name ≠ "." := by
      rintro rfl
      obtain ⟨t, rfl⟩ := directory_of_walk_here h
      exact he t rfl
    have hup : name ≠ ".." := by
      rintro rfl
      obtain ⟨t, rfl⟩ := hfs.directory_of_walk_up h
      exact he t rfl
    obtain ⟨left, d, hsteps, t, hd⟩ := exists_steps_of_walk_append h (List.cons_ne_nil _ _)
    rw [walk_append hsteps (List.cons_ne_nil _ _)] at h
    have hname := lookedUp_of_walk h hhere hup
    refine ⟨d, name, ?_, ?_⟩
    · rw [parent_of_parts hparts, walk_of_steps hsteps hd, lastName_eq_name_iff.2 ⟨rfl, hname⟩]
      rfl
    · rw [walk_name ⟨t, hd⟩ hname] at h
      split at h
      · cases h
      · cases h
        rfl

end Taskwork.Files
