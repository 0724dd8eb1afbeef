/-
What `mv` does with files that it moves into a directory. They are moved one after the other, and each takes the place
of what has its name there; so afterwards every name holds what one of the files with that name held. No file is lost
just if files with the same name hold the same. A file leaves its old place unless what it finds when its turn comes
(`occupant`) is the file itself under another name.
-/
import Mathlib
import Taskwork.FileTools.Basic
import Taskwork.Proofs.Files.Renaming

namespace Taskwork

/-! ## Names of paths -/

namespace Path

/-- The components of a path are its moves, perhaps behind the root or a dot. -/
theorem exists_components_eq (path : String) : ∃ lead, components path = lead ++ moves path := by
  rw [components_eq, moves]
  generalize path.toList = cs
  unfold start
  split
  · exact ⟨[.root], by simp⟩
  · exact ⟨[.here], rfl⟩
  · rename_i rest
    have hdot : pieces ('.' :: '/' :: rest) = ['.'] :: pieces rest := pieces_append_slash ['.'] rest
    exact ⟨[.here], by simp [hdot]⟩
  · exact ⟨[], rfl⟩

end Path

namespace Files

open Path (isAbsolute join pieces stepsOf)

variable {fs fs' : Files} {path dest name : String} {slash : Bool} {start : List String} {d : Route} {t : Instant}

theorem fileName?_of_parts (hparts : Parts path start name slash) (hname : LookedUp name) :
    Path.fileName? path = some name := by
  obtain ⟨before, last, hbefore, hlast⟩ : ∃ before last, (pieces path.toList).filter (· ≠ []) = before ++ [last] ∧
      String.ofList last = name := by
    have hnames := hparts.names
    unfold fileNames at hnames
    obtain ⟨before, last, hsplit, -, hlast⟩ := List.map_eq_append_iff.1 hnames
    obtain ⟨last, rest, rfl, hlast, hrest⟩ := List.map_eq_cons_iff.1 hlast
    rw [List.map_eq_nil_iff.1 hrest] at hsplit
    exact ⟨before, last, hsplit, hlast⟩
  have hne : last ≠ [] := by
    have hmem : last ∈ (pieces path.toList).filter (· ≠ []) := by
      rw [hbefore]
      exact List.mem_append_right _ (List.mem_singleton_self last)
    simpa using (List.mem_filter.1 hmem).2
  have hhere : last ≠ ['.'] := by
    rintro rfl
    exact hname.not_here hlast.symm
  have hup : last ≠ ['.', '.'] := by
    rintro rfl
    exact hname.not_up hlast.symm
  have hsteps : stepsOf (pieces path.toList) = stepsOf before ++ [last] := by
    rw [← Path.stepsOf_filter, hbefore]
    unfold stepsOf
    rw [List.filter_append, List.filter_cons_of_pos (by simp [Path.isIdle, hne, hhere]), List.filter_nil]
  obtain ⟨lead, hlead⟩ := Path.exists_components_eq path
  have hmoves : Path.moves path = Path.ofPieces before ++ [.name name] := by
    unfold Path.moves Path.ofPieces
    rw [show (pieces path.toList).filter (fun p => !Path.isIdle p) = _ from hsteps, List.map_append, List.map_singleton,
      if_neg (by simpa using hup), hlast]
    rfl
  unfold Path.fileName?
  rw [hlead, hmoves, ← List.append_assoc, List.getLast?_concat]

/-- Where a name is looked up behind the path of a directory. -/
theorem parent_join (hdest : fs.locate true dest = .ok (.found d (.directory t))) (hname : FileName name) :
    fs.parent (join dest name) = .ok (d, .name name, false) := by
  have habs : isAbsolute name = false := Path.not_isAbsolute_text (c := .name name) hname.toIsName
  have hempty : name ≠ "" := by
    rintro rfl
    exact hname.nonempty rfl
  have hparts : Parts (join dest name) (fileNames dest) name false := by
    refine ⟨?_, ?_, ?_⟩
    · have hnul := not_nul_of_locate hdest
      have hnul' := hname.no_nul
      unfold join
      rw [if_neg (by simp [habs])]
      split <;> simp [hnul, hnul']
    · rw [fileNames_join dest habs, fileNames_of_no_slash hname.nonempty hname.no_slash]
    · rw [getLast?_join dest habs hempty, beq_eq_false_iff_ne]
      exact fun hlast => hname.no_slash (List.mem_of_getLast? hlast)
  have horigin : fs.origin (join dest name) = fs.origin dest := by
    unfold origin
    rw [Path.isAbsolute_join habs]
  have hwalk : fs.walk true maxLinks (fs.origin dest) (fileNames dest) = .ok (.found d (.directory t)) := by
    have hnames := walk_of_locate hdest
    rw [namesOf_eq] at hnames
    split at hnames
    · obtain ⟨left, d', hsteps, t', hd'⟩ := exists_steps_of_walk_append hnames (List.cons_ne_nil _ _)
      rw [walk_append hsteps (List.cons_ne_nil _ _), walk_here ⟨t', hd'⟩, walk, hd'] at hnames
      cases hnames
      exact walk_of_steps hsteps hd'
    · exact hnames
  rw [← horigin] at hwalk
  exact parent_of_walk hparts (lastName_eq_name_iff.2 ⟨rfl, hname.lookedUp⟩) hwalk ⟨t, rfl⟩

end Files

namespace FileTools

open Files

variable {fs fs' : Files} {d : Route} {dest : String} {t : Instant}

/-! ## Files to be moved -/

/-- A file that is to be moved: its path and its name, its place and the number of its content. -/
structure Source where
  path : String
  name : String
  place : Route
  number : Nat

/-- A file that is there and is called so. -/
structure Source.Of (fs : Files) (s : Source) : Prop where
  located : fs.locate false s.path = .ok (.found s.place (.file s.number))
  named : Path.fileName? s.path = some s.name
  parent : ∃ d, fs.parent s.path = .ok (d, .name s.name, false) ∧ s.place = d ++ [s.name]

/-- Where the file comes to be when it is moved into a directory. -/
def Source.target (d : Route) (s : Source) : Route := d ++ [s.name]

theorem exists_source (hfs : fs.Sound) {path : String} {r : Route} {n : Nat}
    (h : fs.locate false path = .ok (.found r (.file n))) : ∃ name, Source.Of fs ⟨path, name, r, n⟩ := by
  obtain ⟨d, name, hparent, hplace⟩ := hfs.parent_of_located h nofun
  obtain ⟨hroot, -⟩ | ⟨start, last, t, hparts, hlast, -⟩ := parent_eq_ok hparent
  · cases hroot
  obtain ⟨rfl, hname⟩ := lastName_eq_name_iff.1 hlast
  exact ⟨last, h, fileName?_of_parts hparts hname, d, hparent, hplace⟩

namespace Source.Of

variable {s u : Source}

theorem entry (h : Of fs s) : fs.entry? s.place = some (.file s.number) := entry?_of_locate h.located

theorem fileName (hfs : fs.Sound) (h : Of fs s) : FileName s.name := by
  obtain ⟨d, -, hplace⟩ := h.parent
  exact hfs.name (mem_entries_of_eq_some h.entry) _ (by simp [hplace])

/-- A file that is in the directory under some name has that name. -/
theorem name_eq (h : Of fs s) {name : String} (hplace : s.place = d ++ [name]) : s.name = name := by
  obtain ⟨d', -, hat⟩ := h.parent
  rw [hat] at hplace
  exact List.singleton_inj.1 (List.append_inj' hplace rfl).2

/-- A file that is elsewhere is not where any other is to come. -/
theorem place_ne (h : Of fs s) (hne : s.place ≠ s.target d) (u : Source) : s.place ≠ u.target d := by
  intro hat
  have hname := h.name_eq hat
  exact hne (by rw [hat, target, target, hname])

end Source.Of

/-! ## What a file finds where it is to come -/

/-- What is at a name in the directory `d` once some paths were moved there, the last one first: the last of them that
came from elsewhere and had the name, or else what was there at first. -/
def occupant (fs : Files) (d : Route) (name : String) : List String → Option Entry
  | [] => fs.entry? (d ++ [name])
  | path :: earlier => match fs.locate false path with
    | .ok (.found r e) =>
      if Path.fileName? path = some name ∧ r ≠ d ++ [name] then some e else occupant fs d name earlier
    | _ => occupant fs d name earlier

theorem occupant_cons {s : Source} (h : Source.Of fs s) (name : String) (earlier : List String) :
    occupant fs d name (s.path :: earlier) =
      if s.name = name ∧ s.place ≠ d ++ [name] then some (.file s.number) else occupant fs d name earlier := by
  rw [occupant, h.located]
  simp only [h.named, Option.some.injEq]

/-- It is one of the files that were moved, or all of them that have the name had been there from the start. -/
theorem occupant_cases (d : Route) (name : String) : ∀ {moved : List Source}, (∀ u ∈ moved, Source.Of fs u) →
    (∃ u ∈ moved, u.name = name ∧ occupant fs d name (moved.map (·.path)) = some (.file u.number)) ∨
      (∀ u ∈ moved, u.name = name → u.place = d ++ [name]) ∧
        occupant fs d name (moved.map (·.path)) = fs.entry? (d ++ [name])
  | [], _ => .inr ⟨nofun, rfl⟩
  | s :: earlier, hmoved => by
    obtain ⟨hs, hearlier⟩ := List.forall_mem_cons.1 hmoved
    rw [List.map_cons, occupant_cons hs]
    split
    · rename_i hcame
      exact .inl ⟨s, List.mem_cons_self, hcame.1, rfl⟩
    · rename_i hcame
      rcases occupant_cases d name hearlier with ⟨u, hu, hname, hoccupant⟩ | ⟨hthere, hoccupant⟩
      · exact .inl ⟨u, List.mem_cons_of_mem _ hu, hname, hoccupant⟩
      · exact .inr ⟨List.forall_mem_cons.2 ⟨fun hname => of_not_not fun hne => hcame ⟨hname, hne⟩, hthere⟩, hoccupant⟩

/-- No file has two names. -/
def NamedOnce (fs : Files) : Prop :=
  ∀ r r' n, fs.entry? r = some (.file n) → fs.entry? r' = some (.file n) → r = r'

/-- Where no file has two names a file that comes from elsewhere finds another one, or none. -/
theorem occupant_ne (honce : NamedOnce fs) {s : Source} (hs : Source.Of fs s) (hne : s.place ≠ s.target d)
    {earlier : List Source} (hearlier : ∀ u ∈ earlier, Source.Of fs u) (hnew : ∀ u ∈ earlier, u.place ≠ s.place) :
    occupant fs d s.name (earlier.map (·.path)) ≠ some (.file s.number) := by
  intro hsame
  rcases occupant_cases d s.name hearlier with ⟨u, hu, -, hoccupant⟩ | ⟨-, hoccupant⟩
  · have hnumber := Entry.file.inj (Option.some.inj (hoccupant.symm.trans hsame))
    exact hnew u hu (honce _ _ _ (hnumber ▸ (hearlier u hu).entry) hs.entry)
  · exact hne (honce _ _ _ hs.entry (hoccupant.symm.trans hsame))

/-! ## Moving one after the other -/

/-- The tree in which some files were moved into a directory, the last one first: nothing but these and what had their
names there changed, each name there has its last occupant, and a file has left its place unless it was to come where
it is already under another name. -/
structure Moved (fs : Files) (d : Route) (moved : List Source) (fs' : Files) : Prop where
  here : fs'.here = fs.here
  contents : fs'.contents = fs.contents
  directory (r : Route) : fs'.HoldsDirectory r ↔ fs.HoldsDirectory r
  origin {r : Route} {e : Entry} (h : fs'.entry? r = some e) (he : ∀ t, e ≠ .directory t) :
    fs.entry? r = some e ∨ ∃ s ∈ moved, r = s.target d ∧ e = .file s.number
  occupied (name : String) (n : Nat) :
    fs'.entry? (d ++ [name]) = some (.file n) ↔ occupant fs d name (moved.map (·.path)) = some (.file n)
  left {later earlier : List Source} {s : Source} (h : moved = later ++ s :: earlier) (hne : s.place ≠ s.target d) :
    fs'.entry? s.place = if occupant fs d s.name (earlier.map (·.path)) = some (.file s.number) then
      some (.file s.number) else none
  kept {r : Route} {n : Nat} (h : fs.entry? r = some (.file n))
    (hother : ∀ s ∈ moved, r ≠ s.place ∧ r ≠ s.target d) : fs'.entry? r = some (.file n)

namespace Moved

variable {moved : List Source} {s : Source}

theorem nil (fs : Files) (d : Route) : Moved fs d [] fs where
  here := rfl
  contents := rfl
  directory _ := .rfl
  origin h _ := .inl h
  occupied _ _ := .rfl
  left {later _ _} h := by cases later <;> cases h
  kept h _ := h

theorem narrows (h : Moved fs d moved fs') : Narrows fs fs' where
  here := h.here
  directory {r t} hr := (h.directory r).1 ⟨t, hr⟩
  link {r target} hr := by
    rcases h.origin hr nofun with hold | ⟨s, -, -, hfile⟩
    · exact hold
    · cases hfile

/-- Nothing is below a file. -/
theorem nothing_below (hfs : fs.Sound) (hd : fs.HoldsDirectory d) (h : Moved fs d moved fs') {r q : Route}
    (hr : ¬ fs.HoldsDirectory r) (hbelow : isBelow r q = true) : fs'.entry? q = none := by
  obtain ⟨name, more, rfl⟩ := isBelow_iff.1 hbelow
  by_contra hthere
  obtain ⟨e, he⟩ := Option.ne_none_iff_exists'.1 hthere
  have hparent : fs.HoldsDirectory (r ++ name :: more).dropLast := by
    by_cases hdirectory : ∃ t, e = .directory t
    · obtain ⟨t, rfl⟩ := hdirectory
      obtain ⟨t', ht'⟩ := (h.directory _).1 ⟨t, he⟩
      exact hfs.parent (mem_entries_of_eq_some ht')
    · rcases h.origin he fun t ht => hdirectory ⟨t, ht⟩ with hold | ⟨s, -, htarget, -⟩
      · exact hfs.parent (mem_entries_of_eq_some hold)
      · rw [htarget, Source.target, List.dropLast_concat]
        exact hd
  obtain ⟨t, ht⟩ := hparent
  rw [List.dropLast_append_of_ne_nil (List.cons_ne_nil _ _)] at ht
  by_cases hempty : (name :: more).dropLast = []
  · rw [hempty, List.append_nil] at ht
    exact hr ⟨t, ht⟩
  · exact hr (hfs.above ht hempty)

/-- A file that is elsewhere waits there for its turn. -/
theorem waiting (h : Moved fs d moved fs') (hs : Source.Of fs s) (hplace : s.place ≠ s.target d)
    (hnew : ∀ u ∈ moved, u.place ≠ s.place) : fs'.entry? s.place = some (.file s.number) :=
  h.kept hs.entry fun u hu => ⟨Ne.symm (hnew u hu), hs.place_ne hplace u⟩

/-- At each name of a file that was moved is a file with that name. -/
theorem arrived (h : Moved fs d moved fs') (hmoved : ∀ u ∈ moved, Source.Of fs u) (hs : s ∈ moved) :
    ∃ u ∈ moved, u.name = s.name ∧ fs'.entry? (s.target d) = some (.file u.number) := by
  rcases occupant_cases d s.name hmoved with ⟨u, hu, hname, hoccupant⟩ | ⟨hthere, hoccupant⟩
  · exact ⟨u, hu, hname, (h.occupied _ _).2 hoccupant⟩
  · have hentry := (hmoved s hs).entry
    rw [hthere s hs rfl, ← hoccupant] at hentry
    exact ⟨s, hs, rfl, (h.occupied _ _).2 hentry⟩

/-- A file stays that is where it is to come, there or under another name. -/
theorem stay (h : Moved fs d moved fs') (hs : Source.Of fs s)
    (hat : s.place = s.target d ∨ fs'.entry? (s.target d) = some (.file s.number))
    (hnew : ∀ u ∈ moved, u.place ≠ s.place) : Moved fs d (s :: moved) fs' where
  here := h.here
  contents := h.contents
  directory := h.directory
  origin he hother := by
    rcases h.origin he hother with hold | ⟨u, hu, htarget⟩
    · exact .inl hold
    · exact .inr ⟨u, List.mem_cons_of_mem _ hu, htarget⟩
  occupied name n := by
    rw [List.map_cons, occupant_cons hs]
    split
    · rename_i hcame
      obtain ⟨rfl, hne⟩ := hcame
      rw [show d ++ [s.name] = s.target d from rfl, hat.resolve_left hne]
    · exact h.occupied name n
  left {later earlier u} hsplit hne := by
    cases later with
    | nil =>
      cases hsplit
      rw [if_pos ((h.occupied _ _).1 (hat.resolve_left hne)), h.waiting hs hne hnew]
    | cons v later =>
      cases hsplit
      exact h.left rfl hne
  kept hfile hother := h.kept hfile (List.forall_mem_cons.1 hother).2

/-- A file that is elsewhere leaves its place and takes the one it is to come to. -/
theorem go {after : Files} (hfs : fs.Sound) (hd : fs.HoldsDirectory d) (h : Moved fs d moved fs') (hs : Source.Of fs s)
    (hmoved : ∀ u ∈ moved, Source.Of fs u) (hplace : s.place ≠ s.target d) (hnew : ∀ u ∈ moved, u.place ≠ s.place)
    (hfree : fs'.entry? (s.target d) ≠ some (.file s.number)) (htarget : ¬ fs'.HoldsDirectory (s.target d))
    (hakin : Akin (fs'.moved s.place (s.target d)) after) (hcontents : after.contents = fs'.contents) :
    Moved fs d (s :: moved) after := by
  have hfile := h.waiting hs hplace hnew
  have hplaceFile : ¬ fs.HoldsDirectory s.place := by
    rintro ⟨t, ht⟩
    rw [hs.entry] at ht
    cases ht
  have hentry (q : Route) : Files.entry? (fs'.moved s.place (s.target d)) q =
      if q = s.target d then some (.file s.number) else if q = s.place then none else fs'.entry? q := by
    rw [entry?_moved hplace (fun r hr => h.nothing_below hfs hd hplaceFile hr), hfile]
  have hother {q : Route} {e : Entry} (he : ∀ t, e ≠ .directory t) : after.entry? q = some e ↔
      Files.entry? (fs'.moved s.place (s.target d)) q = some e :=
    ⟨fun hq => hakin.shrinks.other hq he, fun hq => hakin.grows.other hq he⟩
  have hnone (n : Nat) (t : Instant) : Entry.file n ≠ .directory t := fun h => by cases h
  constructor
  · exact hakin.grows.here.trans h.here
  · exact hcontents.trans h.contents
  · intro r
    have hkeeps : after.HoldsDirectory r ↔ (fs'.moved s.place (s.target d)).HoldsDirectory r :=
      ⟨fun ⟨_, ht⟩ => hakin.shrinks.directory ht, fun ⟨_, ht⟩ => hakin.grows.directory ht⟩
    rw [hkeeps, ← h.directory r]
    unfold HoldsDirectory at htarget ⊢
    rw [hentry]
    by_cases hr : r = s.target d
    · rw [if_pos hr, hr]
      exact iff_of_false (fun ⟨_, ht⟩ => by cases ht) htarget
    · rw [if_neg hr]
      by_cases hr : r = s.place
      · rw [if_pos hr, hr, hfile]
        exact iff_of_false (fun ⟨_, ht⟩ => by cases ht) fun ⟨_, ht⟩ => by cases ht
      · rw [if_neg hr]
  · intro r e he hnot
    rw [hother hnot, hentry] at he
    split at he
    · rename_i hr
      exact .inr ⟨s, List.mem_cons_self, hr, (Option.some.inj he).symm⟩
    · split at he
      · cases he
      · rcases h.origin he hnot with hold | ⟨u, hu, hr⟩
        · exact .inl hold
        · exact .inr ⟨u, List.mem_cons_of_mem _ hu, hr⟩
  · intro name n
    rw [hother (hnone n), hentry, List.map_cons, occupant_cons hs]
    by_cases hname : s.name = name
    · subst hname
      rw [if_pos (show d ++ [s.name] = s.target d from rfl), if_pos ⟨rfl, hplace⟩]
    · have htarget : d ++ [name] ≠ s.target d := fun hat => hname (List.singleton_inj.1 (List.append_inj' hat rfl).2).symm
      rw [if_neg htarget, if_neg fun hat => hname (hs.name_eq hat.symm), if_neg fun hcame => hname hcame.1, h.occupied]
  · intro later earlier u hsplit hne
    cases later with
    | nil =>
      cases hsplit
      rw [if_neg fun hsame => hfree ((h.occupied _ _).2 hsame)]
      exact hakin.shrinks.none (by rw [hentry, if_neg hne, if_pos rfl])
    | cons v later =>
      cases hsplit
      have hu : u ∈ later ++ u :: earlier := List.mem_append_right _ List.mem_cons_self
      have hthere : Files.entry? (fs'.moved s.place (s.target d)) u.place = fs'.entry? u.place := by
        rw [hentry, if_neg ((hmoved u hu).place_ne hne s), if_neg (hnew u hu)]
      have hleft := h.left rfl hne
      split <;> rename_i hsame
      · rw [if_pos hsame] at hleft
        exact (hother (hnone _)).2 (hthere.trans hleft)
      · rw [if_neg hsame] at hleft
        exact hakin.shrinks.none (hthere.trans hleft)
  · intro r n hr hall
    obtain ⟨⟨hr₁, hr₂⟩, hrest⟩ := List.forall_mem_cons.1 hall
    rw [hother (hnone _), hentry, if_neg hr₂, if_neg hr₁]
    exact h.kept hr hrest

/-- Moving one more file into the directory. -/
theorem moveInto (hfs : fs.Sound) (hdest : fs.locate true dest = .ok (.found d (.directory t)))
    (h : Moved fs d moved fs') (hs : Source.Of fs s) (hmoved : ∀ u ∈ moved, Source.Of fs u)
    (hnew : ∀ u ∈ moved, u.place ≠ s.place) {after : Files}
    (hrun : FileTools.moveInto dest fs' s.path = (after, .ok ())) : Moved fs d (s :: moved) after := by
  have hd : fs.HoldsDirectory d := ⟨t, entry?_of_locate hdest⟩
  have hrename : fs'.rename s.path (Path.join dest s.name) = .ok after := by
    unfold FileTools.moveInto at hrun
    rw [hs.named] at hrun
    dsimp only at hrun
    unfold moveTo at hrun
    split at hrun
    · rename_i hok
      cases hrun
      exact hok
    · cases hrun
  obtain ⟨oldDir, oldName, slash, newDir, newName, slash', hold, hnew'⟩ := parents_of_rename hrename
  obtain ⟨dir, hparent, hplace⟩ := hs.parent
  have hold' := h.narrows.parent hold
  rw [hparent] at hold'
  cases hold'
  have hnew'' := h.narrows.parent hnew'
  rw [parent_join hdest (hs.fileName hfs)] at hnew''
  cases hnew''
  by_cases hat : s.place = s.target d
  · have hsame : after = fs' := rename_same hrename hold hnew' (by rw [← hplace, hat]; rfl)
    rw [hsame]
    exact h.stay hs (.inl hat) hnew
  · have hfile := h.waiting hs hat hnew
    rw [hplace] at hfile
    rcases rename_file hrename hold hnew' hfile with ⟨hthere, hsame⟩ | ⟨hfree, htarget, hakin, hcontents⟩
    · rw [hsame]
      exact h.stay hs (.inr hthere) hnew
    · rw [← hplace] at hakin
      exact h.go hfs hd hs hmoved hat hnew hfree htarget hakin hcontents

/-- Moving some more files into the directory. -/
theorem each (hfs : fs.Sound) (hdest : fs.locate true dest = .ok (.found d (.directory t))) {sources : List Source}
    (h : Moved fs d moved fs') (hsources : ∀ s ∈ sources, Source.Of fs s) (hmoved : ∀ u ∈ moved, Source.Of fs u)
    (hapart : sources.Pairwise fun s u => s.place ≠ u.place) (hnew : ∀ u ∈ moved, ∀ s ∈ sources, u.place ≠ s.place)
    {after : Files} (hrun : FileTools.each (FileTools.moveInto dest) fs' (sources.map (·.path)) = (after, .ok ())) :
    Moved fs d (sources.reverse ++ moved) after := by
  induction sources generalizing moved fs' with
  | nil =>
    cases hrun
    exact h
  | cons s rest ih =>
    obtain ⟨hs, hrest⟩ := List.forall_mem_cons.1 hsources
    obtain ⟨hfirst, hpairs⟩ := List.pairwise_cons.1 hapart
    rw [List.map_cons, FileTools.each] at hrun
    split at hrun
    · rename_i next hone
      have hnext := h.moveInto hfs hdest hs hmoved (fun u hu => hnew u hu s List.mem_cons_self) hone
      rw [List.reverse_cons, List.append_assoc]
      refine ih hnext hrest (List.forall_mem_cons.2 ⟨hs, hmoved⟩) hpairs (List.forall_mem_cons.2 ⟨hfirst, ?_⟩) hrun
      exact fun u hu v hv => hnew u hu v (List.mem_cons_of_mem _ hv)
    · cases hrun

/-- Where a file is when all were moved, by the files before it. -/
theorem left_of_split {earlier later : List Source} (h : Moved fs d (earlier ++ s :: later).reverse fs')
    (hne : s.place ≠ s.target d) : fs'.entry? s.place =
      if occupant fs d s.name (earlier.map (·.path)).reverse = some (.file s.number) then some (.file s.number)
      else none := by
  rw [← List.map_reverse]
  rw [List.reverse_append, List.reverse_cons, List.append_assoc, List.singleton_append] at h
  exact h.left rfl hne

end Moved

/-! ## The tool -/

theorem exists_sources (hfs : fs.Sound) : ∀ {paths : List String},
    (∀ p ∈ paths, ∃ r n, fs.locate false p = .ok (.found r (.file n))) →
      ∃ sources : List Source, sources.map (·.path) = paths ∧ ∀ s ∈ sources, Source.Of fs s
  | [], _ => ⟨[], rfl, nofun⟩
  | path :: rest, h => by
    obtain ⟨⟨r, n, hplace⟩, hrest⟩ := List.forall_mem_cons.1 h
    obtain ⟨name, hsource⟩ := exists_source hfs hplace
    obtain ⟨sources, rfl, hsources⟩ := exists_sources hfs hrest
    exact ⟨⟨path, name, r, n⟩ :: sources, rfl, List.forall_mem_cons.2 ⟨hsource, hsources⟩⟩

theorem Source.Of.bytesAt {s : Source} (h : Of fs s) : fs.bytesAt s.path = .ok (fs.content s.number).bytes :=
  bytesAt_of_locate (locate_follow nofun h.located)

theorem bytes_content (h : fs'.contents = fs.contents) (n : Nat) : (fs'.content n).bytes = (fs.content n).bytes := by
  unfold content
  rw [h]
  cases fs.contents[n]? <;> rfl

theorem mv_eq_ok {directory : String} {args : List String} {flags : List Char} {paths : List String}
    (hoperands : operands [] directory args = .ok (flags, paths ++ [dest]))
    (hdest : fs.locate true dest = .ok (.found d (.directory t))) (h : mv fs directory args = (fs', .ok ())) :
    each (moveInto dest) fs paths = (fs', .ok ()) := by
  unfold mv at h
  rw [hoperands] at h
  dsimp only at h
  rw [List.dropLast_concat, List.getLast?_concat] at h
  cases paths with
  | nil => cases h
  | cons source more =>
    dsimp only at h
    rwa [if_pos (isDirectory_iff.2 ⟨d, t, hdest⟩)] at h

/-- Where one of the files with each name is there, all are just if they held the same. -/
theorem kept_iff_of_arrived {paths : List String}
    (harrived : ∀ p ∈ paths, ∃ q ∈ paths, ∃ name n, Path.fileName? p = some name ∧ Path.fileName? q = some name ∧
      fs'.entry? (d ++ [name]) = some (.file n) ∧ fs.bytesAt q = .ok (fs'.content n).bytes) :
    (∀ p ∈ paths, ∃ name n, Path.fileName? p = some name ∧ fs'.entry? (d ++ [name]) = some (.file n) ∧
      fs.bytesAt p = .ok (fs'.content n).bytes) ↔
      ∀ p ∈ paths, ∀ q ∈ paths, Path.fileName? p = Path.fileName? q → fs.bytesAt p = fs.bytesAt q := by
  constructor
  · intro hkept p hp q hq hname
    obtain ⟨name, n, hp, hthere, hbytes⟩ := hkept p hp
    obtain ⟨name', n', hq, hthere', hbytes'⟩ := hkept q hq
    rw [hp, hq] at hname
    cases hname
    rw [hthere] at hthere'
    cases hthere'
    rw [hbytes, hbytes']
  · intro hsame p hp
    obtain ⟨q, hq, name, n, hpName, hqName, hthere, hbytes⟩ := harrived p hp
    exact ⟨name, n, hpName, hthere, (hsame p hp q hq (hpName.trans hqName.symm)).trans hbytes⟩

/-- **What `mv` does with files that it moves into a directory.** A file from elsewhere has left its place, unless what
it found where it was to come when its turn came was itself under another name: then it is at its place still. So all
have left where no file has two names. At each name is what one of the files with that name held, and each file is there
with what it held just if files with the same name held the same. -/
theorem mv_keeps_contents_iff (hfs : fs.Sound) {directory : String} {args : List String} {flags : List Char}
    {paths : List String} (hoperands : operands [] directory args = .ok (flags, paths ++ [dest]))
    (hdest : fs.locate true dest = .ok (.found d (.directory t)))
    (hfiles : ∀ p ∈ paths, ∃ r n, fs.locate false p = .ok (.found r (.file n)))
    (hapart : paths.Pairwise fun p q => fs.locate false p ≠ fs.locate false q)
    (h : mv fs directory args = (fs', .ok ())) :
    (∀ before p after, paths = before ++ p :: after →
      ∃ r n name, fs.locate false p = .ok (.found r (.file n)) ∧ Path.fileName? p = some name ∧
        (r ≠ d ++ [name] → fs'.entry? r =
          if occupant fs d name before.reverse = some (.file n) then some (.file n) else none)) ∧
    (NamedOnce fs → ∀ p ∈ paths, ∃ r n name, fs.locate false p = .ok (.found r (.file n)) ∧
      Path.fileName? p = some name ∧ (r ≠ d ++ [name] → fs'.entry? r = none)) ∧
    (∀ p ∈ paths, ∃ q ∈ paths, ∃ name n, Path.fileName? p = some name ∧ Path.fileName? q = some name ∧
      fs'.entry? (d ++ [name]) = some (.file n) ∧ fs.bytesAt q = .ok (fs'.content n).bytes) ∧
    ((∀ p ∈ paths, ∃ name n, Path.fileName? p = some name ∧ fs'.entry? (d ++ [name]) = some (.file n) ∧
      fs.bytesAt p = .ok (fs'.content n).bytes) ↔
      ∀ p ∈ paths, ∀ q ∈ paths, Path.fileName? p = Path.fileName? q → fs.bytesAt p = fs.bytesAt q) := by
  obtain ⟨sources, rfl, hsources⟩ := exists_sources hfs hfiles
  have hplaces : sources.Pairwise fun s u => s.place ≠ u.place := by
    rw [List.pairwise_map] at hapart
    refine hapart.imp_of_mem fun {s u} hs hu hne hplace => hne ?_
    have hentry := (hsources s hs).entry
    rw [hplace, (hsources u hu).entry] at hentry
    rw [(hsources s hs).located, (hsources u hu).located, hplace, Option.some.inj hentry]
  have hmoved := (Moved.nil fs d).each hfs hdest hsources nofun hplaces nofun (mv_eq_ok hoperands hdest h)
  rw [List.append_nil] at hmoved
  have hreversed : ∀ u ∈ sources.reverse, Source.Of fs u := fun u hu => hsources u (List.mem_reverse.1 hu)
  have harrived : ∀ p ∈ sources.map (·.path), ∃ q ∈ sources.map (·.path), ∃ name n, Path.fileName? p = some name ∧
      Path.fileName? q = some name ∧ fs'.entry? (d ++ [name]) = some (.file n) ∧
      fs.bytesAt q = .ok (fs'.content n).bytes := by
    rw [List.forall_mem_map]
    intro s hs
    obtain ⟨u, hu, hname, hthere⟩ := hmoved.arrived hreversed (List.mem_reverse.2 hs)
    have hu' := List.mem_reverse.1 hu
    refine ⟨u.path, List.mem_map_of_mem hu', s.name, u.number, (hsources s hs).named,
      hname ▸ (hsources u hu').named, hthere, ?_⟩
    rw [(hsources u hu').bytesAt, bytes_content hmoved.contents]
  refine ⟨?_, ?_, harrived, ?_⟩
  · intro before p after hsplit
    obtain ⟨earlier, rest, hparts, rfl, hrest⟩ := List.map_eq_append_iff.1 hsplit
    obtain ⟨s, later, rfl, rfl, -⟩ := List.map_eq_cons_iff.1 hrest
    subst hparts
    have hs := hsources s (List.mem_append_right _ List.mem_cons_self)
    exact ⟨s.place, s.number, s.name, hs.located, hs.named, fun hne => hmoved.left_of_split hne⟩
  · rw [List.forall_mem_map]
    intro honce s hs
    refine ⟨s.place, s.number, s.name, (hsources s hs).located, (hsources s hs).named, fun hne => ?_⟩
    obtain ⟨earlier, later, rfl⟩ := List.append_of_mem hs
    have hnew : ∀ u ∈ earlier.reverse, u.place ≠ s.place := fun u hu =>
      (List.pairwise_append.1 hplaces).2.2 u (List.mem_reverse.1 hu) s List.mem_cons_self
    have hearlier : ∀ u ∈ earlier.reverse, Source.Of fs u := fun u hu =>
      hsources u (List.mem_append_left _ (List.mem_reverse.1 hu))
    rw [hmoved.left_of_split hne, ← List.map_reverse,
      if_neg (occupant_ne honce (hsources s hs) hne hearlier hnew)]
  · exact kept_iff_of_arrived harrived

/-- A tree with a file of two names, x and d/x. -/
def twoNames : Files :=
  ⟨[([], .directory 0), (["d"], .directory 0), (["d", "x"], .file 0), (["x"], .file 0)], [⟨[1], 0⟩], [], 0, []⟩

-- `mv x d` succeeds, and x stays
example : mv twoNames "/" ["x", "d"] = (twoNames, .ok ()) := by cbv

/-! ## Two files with one name -/

/-- A tree with two files of the name x, one of the name y and an empty directory d. -/
def homonyms : Files :=
  ⟨[([], .directory 0), (["a"], .directory 0), (["a", "x"], .file 0), (["d"], .directory 0), (["x"], .file 1),
      (["y"], .file 2)], [⟨[1], 0⟩, ⟨[2], 0⟩, ⟨[3], 0⟩], [], 0, []⟩

/-- `mv a/x y d`: two names, and both files are there. -/
theorem homonyms_apart :
    let after : Files :=
      ⟨[([], .directory 2), (["a"], .directory 1), (["d", "x"], .file 0), (["d"], .directory 2), (["x"], .file 1),
        (["d", "y"], .file 2)], homonyms.contents, [], 2, []⟩
    homonyms.Sound ∧ operands [] "/" ["a/x", "y", "d"] = .ok ([], ["/a/x", "/y"] ++ ["/d"]) ∧
      homonyms.locate true "/d" = .ok (.found ["d"] (.directory 0)) ∧
      mv homonyms "/" ["a/x", "y", "d"] = (after, .ok ()) ∧
      ∀ p ∈ ["/a/x", "/y"], ∃ name n, Path.fileName? p = some name ∧ after.entry? (["d"] ++ [name]) = some (.file n) ∧
        homonyms.bytesAt p = .ok (after.content n).bytes := by
  intro after
  have hsound : homonyms.Sound := by decide +kernel
  have hoperands : operands [] "/" ["a/x", "y", "d"] = .ok ([], ["/a/x", "/y"] ++ ["/d"]) := by cbv
  have hdest : homonyms.locate true "/d" = .ok (.found ["d"] (.directory 0)) := by cbv
  have hx : homonyms.locate false "/a/x" = .ok (.found ["a", "x"] (.file 0)) := by cbv
  have hy : homonyms.locate false "/y" = .ok (.found ["y"] (.file 2)) := by cbv
  have hok : mv homonyms "/" ["a/x", "y", "d"] = (after, .ok ()) := by cbv
  have hnames : Path.fileName? "/a/x" ≠ Path.fileName? "/y" := by decide
  have hfiles : ∀ p ∈ ["/a/x", "/y"], ∃ r n, homonyms.locate false p = .ok (.found r (.file n)) :=
    List.forall_mem_cons.2 ⟨⟨_, _, hx⟩, List.forall_mem_singleton.2 ⟨_, _, hy⟩⟩
  have hapart : ["/a/x", "/y"].Pairwise fun p q => homonyms.locate false p ≠ homonyms.locate false q := by
    rw [List.pairwise_pair, hx, hy]
    decide
  obtain ⟨-, -, -, hkept⟩ := mv_keeps_contents_iff hsound hoperands hdest hfiles hapart hok
  refine ⟨hsound, hoperands, hdest, hok, hkept.2 fun p hp q hq hname => ?_⟩
  rcases List.mem_pair.1 hp with rfl | rfl <;> rcases List.mem_pair.1 hq with rfl | rfl
  · rfl
  · exact absurd hname hnames
  · exact absurd hname.symm hnames
  · rfl

/-- `mv a/x x d` succeeds, and what was in a/x is lost. -/
theorem homonyms_lost :
    let after : Files :=
      ⟨[([], .directory 2), (["a"], .directory 1), (["d"], .directory 2), (["d", "x"], .file 1), (["y"], .file 2)],
        homonyms.contents, [], 2, []⟩
    mv homonyms "/" ["a/x", "x", "d"] = (after, .ok ()) ∧ homonyms.bytesAt "/a/x" = .ok [1] ∧
      after.bytesAt "/d/x" = .ok [2] := by
  intro after
  refine ⟨?_, ?_, ?_⟩ <;> cbv

end FileTools
end Taskwork
