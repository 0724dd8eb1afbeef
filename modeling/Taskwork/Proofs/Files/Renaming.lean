/-
Giving a file another path. Where that is a name of the file already nothing is done. Else the file leaves its place
and comes to the new one (`entry?_moved`), where it may take the place of another file or a link, but not of a
directory. So the directories of a tree stay and no link is added, and a path leads to no other directory than before
(`Narrows.parent`).
-/
import Taskwork.Proofs.Files.Removal
import Taskwork.Proofs.Stateful

namespace Taskwork.Files

variable {fs fs' : Files} {follow slash slash' : Bool} {links n : Nat} {path oldPath newPath name oldName newName : String}
  {at_ d oldDir newDir old new q r : Route} {e : Entry} {t : Instant} {last : LastName} {names : List String}

/-! ## Transplanting -/

theorem find?_moved (q : Route) (rows : List (Route × Entry))
    (hrows : ∀ row ∈ rows, row.1 ≠ new ∧ (old.isPrefixOf row.1 = true → row.1 = old)) :
    (rows.map fun row => if old.isPrefixOf row.1 then (new ++ row.1.drop old.length, row.2) else row).find?
        (fun row => row.1 == q) =
      if q = new then (rows.find? fun row => row.1 == old).map fun row => (new, row.2)
      else if q = old then none else rows.find? fun row => row.1 == q := by
  induction rows with
  | nil => simp
  | cons row rest ih =>
    obtain ⟨⟨hnew, hold⟩, hrest⟩ := List.forall_mem_cons.1 hrows
    rw [List.map_cons, List.find?_cons, List.find?_cons, List.find?_cons, ih hrest]
    have hbeq {a b : Route} (hab : a ≠ b) : (a == b) = false := beq_eq_false_iff_ne.2 hab
    by_cases hrow : row.1 = old
    · have hmoved : (if old.isPrefixOf row.1 then (new ++ row.1.drop old.length, row.2) else row) = (new, row.2) := by
        rw [if_pos (by simp [hrow]), hrow, List.drop_length, List.append_nil]
      rw [hmoved, hrow, beq_self_eq_true]
      by_cases hq : q = new
      · rw [hq, beq_self_eq_true, if_pos rfl, if_pos rfl]
        rfl
      · rw [hbeq (Ne.symm hq), if_neg hq, if_neg hq]
        by_cases hqold : q = old
        · rw [if_pos hqold, if_pos hqold]
        · rw [if_neg hqold, if_neg hqold, hbeq (Ne.symm hqold)]
    · rw [if_neg fun hleading => hrow (hold hleading), hbeq hrow]
      by_cases hq : q = new
      · rw [hq, hbeq hnew, if_pos rfl]
      · rw [if_neg hq, if_neg hq]
        by_cases hqold : q = old
        · rw [hqold, hbeq hrow, if_pos rfl]
        · rw [if_neg hqold, if_neg hqold]

/-- The tree in which an entry was moved, in place of what was there. -/
def moved (fs : Files) (old new : Route) : Files := (fs.drop (· == new)).transplant old new

/-- Where nothing is below an entry it is moved alone. -/
theorem entry?_moved (hne : old ≠ new) (hbelow : ∀ r, isBelow old r = true → fs.entry? r = none) (q : Route) :
    Files.entry? (fs.moved old new) q = if q = new then fs.entry? old else if q = old then none else fs.entry? q := by
  have hrows : ∀ row ∈ (fs.drop (· == new)).entries, row.1 ≠ new ∧ (old.isPrefixOf row.1 = true → row.1 = old) := by
    rintro ⟨r, e⟩ hrow
    obtain ⟨e', he'⟩ := eq_some_of_mem_entries hrow
    rw [entry?_drop] at he'
    split at he'
    · cases he'
    rename_i hnew
    refine ⟨fun h => hnew (beq_iff_eq.2 h), fun hleading => ?_⟩
    by_contra hother
    have hlower : isBelow old r = true := Bool.and_eq_true_iff.2 ⟨hleading, bne_iff_ne.2 (Ne.symm hother)⟩
    rw [hbelow r hlower] at he'
    cases he'
  have hfound (r : Route) : ((fs.drop (· == new)).entries.find? fun row => row.1 == r).map (·.2) =
      if r = new then none else fs.entry? r := by
    have hdrop := entry?_drop fs (· == new) r
    simpa [ entry?] using hdrop
  unfold moved entry? transplant
  dsimp only
  rw [find?_moved q _ hrows]
  split
  · rw [Option.map_map]
    exact (hfound old).trans (if_neg hne)
  · rename_i hq
    split
    · rfl
    · exact (hfound q).trans (if_neg hq)

/-! ## Renaming a file -/

/-- What is given another path has a name in a directory, and so has the new path. -/
theorem parents_of_rename (h : fs.rename oldPath newPath = .ok fs') :
    ∃ oldDir oldName slash newDir newName slash', fs.parent oldPath = .ok (oldDir, .name oldName, slash) ∧
      fs.parent newPath = .ok (newDir, .name newName, slash') := by
  unfold rename at h
  obtain ⟨⟨oldDir, oldLast, slash⟩, hold, h⟩ := exists_of_bind_ok h
  obtain ⟨⟨newDir, newLast, slash'⟩, hnew, h⟩ := exists_of_bind_ok h
  dsimp only at h
  split at h
  · exact ⟨oldDir, _, slash, newDir, _, slash', hold, hnew⟩
  · cases h

theorem eq_of_guarded {a b c : Prop} [Decidable a] [Decidable b] [Decidable c] {f f' f'' : FileFault}
    (h : (if a then .error f else if b then .error f' else if c then .error f'' else .ok fs) = Except.ok fs') :
    fs = fs' := by
  split at h
  · cases h
  split at h
  · cases h
  split at h
  · cases h
  · exact Except.ok.inj h

/-- What gets the path that it has stays where it is. -/
theorem rename_same (h : fs.rename oldPath newPath = .ok fs')
    (hold : fs.parent oldPath = .ok (oldDir, .name oldName, slash))
    (hnew : fs.parent newPath = .ok (newDir, .name newName, slash'))
    (hsame : oldDir ++ [oldName] = newDir ++ [newName]) : fs' = fs := by
  unfold rename at h
  rw [hold, hnew] at h
  dsimp only [bind, Except.bind] at h
  simp only [if_pos hsame] at h
  rcases hthere : fs.entry? (oldDir ++ [oldName]) with _ | e <;> rw [hthere] at h
  · cases h
  · cases e <;> exact (eq_of_guarded h).symm

theorem isSameFile_file_iff {other : Entry} : (Entry.file n).isSameFile other = true ↔ other = .file n := by
  cases other with
  | file m =>
    rw [Entry.isSameFile, beq_iff_eq, Entry.file.injEq]
    exact eq_comm
  | _ => simp [Entry.isSameFile]

/-- What giving a file another path does: nothing if that is a name of the file already. -/
theorem rename_file (h : fs.rename oldPath newPath = .ok fs')
    (hold : fs.parent oldPath = .ok (oldDir, .name oldName, slash))
    (hnew : fs.parent newPath = .ok (newDir, .name newName, slash'))
    (hfile : fs.entry? (oldDir ++ [oldName]) = some (.file n)) :
    (fs.entry? (newDir ++ [newName]) = some (.file n) ∧ fs' = fs) ∨
      fs.entry? (newDir ++ [newName]) ≠ some (.file n) ∧ ¬ fs.HoldsDirectory (newDir ++ [newName]) ∧
        Akin (fs.moved (oldDir ++ [oldName]) (newDir ++ [newName])) fs' ∧ fs'.contents = fs.contents := by
  unfold rename at h
  rw [hold, hnew] at h
  dsimp only [bind, Except.bind] at h
  rw [hfile] at h
  dsimp only at h
  split at h
  · cases h
  split at h
  · cases h
  split at h
  · cases h
  split at h
  · rename_i hsame
    cases h
    exact .inl ⟨hsame ▸ hfile, rfl⟩
  · have hdrop : fs.entry? (newDir ++ [newName]) = none → fs.tick.drop (· == newDir ++ [newName]) = fs.tick := by
      intro hfree
      unfold drop
      rw [List.filter_eq_self.2]
      intro row hrow
      rw [Bool.not_eq_true', beq_eq_false_iff_ne]
      intro hplace
      obtain ⟨e, he⟩ : ∃ e, fs.entry? row.1 = some e := eq_some_of_mem_entries hrow
      rw [hplace, hfree] at he
      cases he
    have hakin (g : Files) (hg : g = fs.tick.drop (· == newDir ++ [newName])) :
        Akin (fs.moved (oldDir ++ [oldName]) (newDir ++ [newName]))
          (((g.transplant (oldDir ++ [oldName]) (newDir ++ [newName])).touch oldDir).touch newDir) ∧
        (((g.transplant (oldDir ++ [oldName]) (newDir ++ [newName])).touch oldDir).touch newDir).contents =
          fs.contents := by
      subst hg
      have htick : Akin (fs.moved (oldDir ++ [oldName]) (newDir ++ [newName]))
          ((fs.tick.drop (· == newDir ++ [newName])).transplant (oldDir ++ [oldName]) (newDir ++ [newName])) :=
        .ofEntries rfl fun _ => rfl
      refine ⟨(htick.trans (.touch _ oldDir)).trans (.touch _ newDir), ?_⟩
      rw [contents_touch, contents_touch]
      rfl
    split at h
    · rename_i hfree
      cases h
      refine .inr ⟨by rw [hfree]; exact nofun, ?_, hakin _ (hdrop hfree).symm⟩
      rintro ⟨t, ht⟩
      rw [hfree] at ht
      cases ht
    · split at h
      · cases h
      · rename_i hdir
        exact absurd rfl hdir
    · rename_i other hnot hthere
      split at h
      · cases h
      split at h
      · rename_i hsame
        cases h
        exact .inl ⟨hthere.trans (congrArg some (isSameFile_file_iff.1 hsame)), rfl⟩
      · rename_i hother
        cases h
        refine .inr ⟨fun hsame => hother (isSameFile_file_iff.2 (Option.some.inj (hthere.symm.trans hsame))), ?_, hakin _ rfl⟩
        rintro ⟨t, ht⟩
        exact hnot t (Option.some.inj (hthere.symm.trans ht))

/-! ## Trees with no more directories and links -/

/-- `fs'` has the directories of `fs` and no other links. -/
structure Narrows (fs fs' : Files) : Prop where
  here : fs'.here = fs.here
  directory {r : Route} {t : Instant} (h : fs'.entry? r = some (.directory t)) : fs.HoldsDirectory r
  link {r : Route} {target : String} (h : fs'.entry? r = some (.link target)) : fs.entry? r = some (.link target)

namespace Narrows

theorem walk (h : Narrows fs fs') (hwalk : fs'.walk true links at_ names = .ok (.found r (.directory t))) :
    ∃ t', fs.walk true links at_ names = .ok (.found r (.directory t')) := by
  have hdirectory := @h.directory
  have hlink := @h.link
  unfold HoldsDirectory at hdirectory
  fun_induction Files.walk fs' true links at_ names <;> unfold Files.walk <;> grind

/-- The last name of a path is looked up where it was before. -/
theorem parent (h : Narrows fs fs') (hparent : fs'.parent path = .ok (d, last, slash)) :
    fs.parent path = .ok (d, last, slash) := by
  rcases parent_eq_ok hparent with ⟨-, hroot⟩ | ⟨start, name, t, hparts, hlast, hwalk⟩
  · exact hroot fs
  · have horigin : fs'.origin path = fs.origin path := by
      unfold origin
      rw [h.here]
    rw [horigin] at hwalk
    obtain ⟨t', hwalk'⟩ := h.walk hwalk
    exact parent_of_walk hparts hlast hwalk' ⟨t', rfl⟩

end Narrows

end Taskwork.Files
