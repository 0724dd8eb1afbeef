/-
Writing a file as a whole. What was put at a path is found there, whether the file was there before or
is made: a walk that ended where nothing was finds the new file (`walk_vacant`), and one that led to a file
leads there still (`walk_file`), since making a file changes no entry but the time of its directory. So
another file is left alone (`putBytes_other`), and the file has the latest time (`modified_putBytes`).
-/
import Taskwork.Files.Text
import Taskwork.Proofs.Files.Tree

namespace Taskwork.Files

/-! ## Bytes at a path -/

theorem bytesAt_eq_ok_iff {fs : Files} {path : String} {bytes : Bytes} :
    fs.bytesAt path = .ok bytes ↔
      (∃ r n, fs.locate true path = .ok (.found r (.file n)) ∧ (fs.content n).bytes = bytes) ∨
      (∃ r, fs.locate true path = .ok (.found r .void)) ∧ bytes = [] := by
  unfold bytesAt stat
  rcases fs.locate true path with f | ⟨r, _ | n | _ | _⟩ | ⟨r, name⟩
  · simp [bind, Except.bind]
  · simp [bind, Except.bind, pure, Except.pure]
  · constructor
    · intro h
      exact .inl ⟨r, n, rfl, Except.ok.inj h⟩
    · rintro (⟨_, _, hplace, rfl⟩ | ⟨⟨_, hplace⟩, -⟩) <;> cases hplace
      rfl
  · simp [bind, Except.bind, pure, Except.pure]
  · constructor
    · intro h
      exact .inr ⟨⟨r, rfl⟩, (Except.ok.inj h).symm⟩
    · rintro (⟨_, _, hplace, -⟩ | ⟨-, rfl⟩)
      · cases hplace
      · rfl
  · simp [bind, Except.bind]

/-- A file that was just opened is read from its beginning. -/
theorem readRest_handOut (fs : Files) (n : Nat) : ∃ after,
    (fs.handOut (.file n 0 false)).1.readRest fs.opened.length = .ok (after, (fs.content n).bytes) := by
  have hopened : (fs.handOut (.file n 0 false)).1.opened[fs.opened.length]? = some (.file n 0 false) := by
    simp [handOut]
  unfold readRest
  rw [hopened]
  exact ⟨_, rfl⟩

theorem readRest_void (fs : Files) :
    (fs.handOut .void).1.readRest fs.opened.length = .ok ((fs.handOut .void).1, []) := by
  have hopened : (fs.handOut .void).1.opened[fs.opened.length]? = some .void := by simp [handOut]
  unfold readRest
  rw [hopened]

/-- The bytes at a path are what is read there. -/
theorem read_of_bytesAt {fs : Files} {path : String} {bytes : Bytes} (h : fs.bytesAt path = .ok bytes) :
    ∃ opened k after, fs.openFile path .read = .ok (opened, k) ∧ opened.readRest k = .ok (after, bytes) := by
  unfold openFile
  rcases bytesAt_eq_ok_iff.1 h with ⟨r, n, hplace, rfl⟩ | ⟨⟨r, hplace⟩, rfl⟩
  · obtain ⟨after, hread⟩ := readRest_handOut fs n
    rw [hplace]
    exact ⟨_, _, after, rfl, hread⟩
  · rw [hplace]
    exact ⟨_, _, _, rfl, readRest_void fs⟩

theorem bytesAt_eq_notFound_iff {fs : Files} {path : String} :
    fs.bytesAt path = .error .notFound ↔
      fs.locate true path = .error .notFound ∨ ∃ r name, fs.locate true path = .ok (.vacant r name) := by
  unfold bytesAt stat
  rcases hplace : fs.locate true path with f | place
  · simp [bind, Except.bind]
  · rcases place with ⟨r, _ | n | _ | _⟩ | ⟨r, name⟩ <;>
      simp [bind, Except.bind, pure, Except.pure]

/-! ## Entries -/

theorem find?_replaced (r q : Route) (e : Entry) : ∀ rows : List (Route × Entry),
    (rows.map fun row => if row.1 == r then (r, e) else row).find? (fun row => row.1 == q) =
      if q = r then (rows.find? fun row => row.1 == r).map fun _ => (r, e)
      else rows.find? fun row => row.1 == q
  | [] => by simp
  | row :: rest => by
    have ih := find?_replaced r q e rest
    rw [List.map_cons, List.find?_cons, List.find?_cons, List.find?_cons, ih]
    by_cases hrow : row.1 = r
    · have hnext : (row.1 == r) = true := beq_iff_eq.2 hrow
      by_cases hq : q = r
      · simp [hnext, hq]
      · have hother : (r == q) = false := beq_eq_false_iff_ne.2 (Ne.symm hq)
        simp [hrow, hq, hother]
    · have hnext : (row.1 == r) = false := beq_eq_false_iff_ne.2 hrow
      by_cases hq : q = r
      · simp [hnext, hq]
      · simp [hnext, hq]

theorem entry?_put (fs : Files) (r q : Route) (e : Entry) :
    entry? (fs.put r e) q = if q = r then some e else fs.entry? q := by
  unfold put
  split
  · rename_i hthere
    obtain ⟨old, hold⟩ := Option.isSome_iff_exists.1 hthere
    obtain ⟨row, hrow, -⟩ := Option.map_eq_some_iff.1 hold
    unfold entry?
    dsimp only
    rw [find?_replaced]
    split
    · rw [hrow]
      rfl
    · rfl
  · rename_i hfree
    unfold entry? at hfree ⊢
    dsimp only
    rw [List.find?_append]
    by_cases hq : q = r
    · subst hq
      rw [Option.isSome_map, Bool.not_eq_true, Option.isSome_eq_false_iff, Option.isNone_iff_eq_none] at hfree
      simp [hfree]
    · simp [hq, Ne.symm hq]

theorem entry?_touch (fs : Files) (r q : Route) :
    entry? (fs.touch r) q = fs.entry? q ∨
      ∃ t, fs.entry? q = some (.directory t) ∧ entry? (fs.touch r) q = some (.directory fs.clock) := by
  unfold touch
  split
  · rename_i t hr
    rw [entry?_put]
    split
    · rename_i hq
      exact .inr ⟨t, hq ▸ hr, rfl⟩
    · exact .inl rfl
  · exact .inl rfl

theorem contents_put (fs : Files) (r : Route) (e : Entry) : (fs.put r e).contents = fs.contents := by
  unfold put
  split <;> rfl

theorem contents_touch (fs : Files) (r : Route) : (fs.touch r).contents = fs.contents := by
  unfold touch
  split
  · exact contents_put ..
  · rfl

theorem here_put (fs : Files) (r : Route) (e : Entry) : (fs.put r e).here = fs.here := by
  unfold put
  split <;> rfl

theorem here_touch (fs : Files) (r : Route) : (fs.touch r).here = fs.here := by
  unfold touch
  split
  · exact here_put ..
  · rfl

theorem clock_put (fs : Files) (r : Route) (e : Entry) : (fs.put r e).clock = fs.clock := by
  unfold put
  split <;> rfl

theorem clock_touch (fs : Files) (r : Route) : (fs.touch r).clock = fs.clock := by
  unfold touch
  split
  · exact clock_put ..
  · rfl

/-! ## Walks -/

/-- `fs'` has all entries of `fs`, but for the times of directories. -/
structure Grows (fs fs' : Files) : Prop where
  here : fs'.here = fs.here
  directory {r : Route} {t : Instant} (h : fs.entry? r = some (.directory t)) :
    ∃ t', fs'.entry? r = some (.directory t')
  other {r : Route} {e : Entry} (h : fs.entry? r = some e) (he : ∀ t, e ≠ .directory t) :
    fs'.entry? r = some e

theorem entry?_of_walk_found {fs : Files} {r : Route} {e : Entry} (follow : Bool) (links : Nat)
    (at_ : Route) (names : List String) (hwalk : fs.walk follow links at_ names = .ok (.found r e)) :
    fs.entry? r = some e := by
  fun_induction Files.walk fs follow links at_ names <;> grind

/-- Where a walk ends in a free place, nothing is. -/
theorem entry?_of_walk_vacant {fs : Files} {directory : Route} {name : String} (follow : Bool) (links : Nat)
    (at_ : Route) (names : List String) (hwalk : fs.walk follow links at_ names = .ok (.vacant directory name)) :
    fs.entry? (directory ++ [name]) = none := by
  fun_induction Files.walk fs follow links at_ names <;> grind

theorem entry?_of_found {fs : Files} {path : String} {r : Route} {e : Entry}
    (hplace : fs.locate true path = .ok (.found r e)) : fs.entry? r = some e := by
  unfold locate at hplace
  split at hplace
  · cases hplace
  split at hplace
  · cases hplace
  exact entry?_of_walk_found _ _ _ _ hplace

theorem entry?_of_vacant {fs : Files} {path name : String} {directory : Route}
    (hplace : fs.locate true path = .ok (.vacant directory name)) : fs.entry? (directory ++ [name]) = none := by
  unfold locate at hplace
  split at hplace
  · cases hplace
  split at hplace
  · cases hplace
  exact entry?_of_walk_vacant _ _ _ _ hplace

namespace Grows

variable {fs fs' : Files}

/-- What is open, what was read and the time do not matter. -/
theorem ofSameTree (h : fs.SameTree fs') : Grows fs fs' where
  here := h.here.symm
  directory hr := ⟨_, (h.entry? _).symm.trans hr⟩
  other hr _ := (h.entry? _).symm.trans hr

theorem trans {fs'' : Files} (h : Grows fs fs') (h' : Grows fs' fs'') : Grows fs fs'' where
  here := h'.here.trans h.here
  directory hr := by
    obtain ⟨t, ht⟩ := h.directory hr
    exact h'.directory ht
  other hr he := h'.other (h.other hr he) he

theorem put {r : Route} (hfree : fs.entry? r = none) (e : Entry) : Grows fs (fs.put r e) := by
  have hkept {q : Route} {e' : Entry} (hq : fs.entry? q = some e') : entry? (fs.put r e) q = some e' := by
    rw [entry?_put, if_neg, hq]
    rintro rfl
    rw [hfree] at hq
    cases hq
  exact ⟨here_put .., fun hq => ⟨_, hkept hq⟩, fun hq _ => hkept hq⟩

theorem touch (fs : Files) (r : Route) : Grows fs (fs.touch r) where
  here := here_touch ..
  directory {q t} hq := by
    rcases entry?_touch fs r q with h | ⟨-, -, h⟩
    · exact ⟨t, h.trans hq⟩
    · exact ⟨_, h⟩
  other {q e} hq he := by
    rcases entry?_touch fs r q with h | ⟨t, h, -⟩
    · exact h.trans hq
    · exact absurd (Option.some.inj (hq.symm.trans h)) (he t)

/-- A walk that ended where nothing was finds the file that is there now. -/
theorem walk_vacant (h : Grows fs fs') {directory : Route} {name : String} {n : Nat}
    (hnew : fs'.entry? (directory ++ [name]) = some (.file n)) (follow : Bool) (links : Nat) (at_ : Route)
    (names : List String) (hwalk : fs.walk follow links at_ names = .ok (.vacant directory name)) :
    fs'.walk follow links at_ names = .ok (.found (directory ++ [name]) (.file n)) := by
  have hdirectory := @h.directory
  have hother := @h.other
  fun_induction Files.walk fs follow links at_ names <;> unfold Files.walk <;> grind

/-- A walk that led to a file leads there still. -/
theorem walk_file (h : Grows fs fs') {r : Route} {n : Nat} (follow : Bool) (links : Nat) (at_ : Route)
    (names : List String) (hwalk : fs.walk follow links at_ names = .ok (.found r (.file n))) :
    fs'.walk follow links at_ names = .ok (.found r (.file n)) := by
  have hdirectory := @h.directory
  have hother := @h.other
  fun_induction Files.walk fs follow links at_ names <;> unfold Files.walk <;> grind

/-- Where walks lead in `fs'` as they do in `fs`, a path does. -/
theorem locate_of_walk (h : Grows fs fs') {path : String} {place place' : Place}
    (hwalk : ∀ at_ names, fs.walk true maxLinks at_ names = .ok place →
      fs'.walk true maxLinks at_ names = .ok place')
    (hplace : fs.locate true path = .ok place) : fs'.locate true path = .ok place' := by
  unfold locate origin at hplace ⊢
  rw [h.here]
  split at hplace
  · cases hplace
  rename_i hnul
  rw [if_neg hnul]
  split at hplace
  · cases hplace
  rename_i hempty
  rw [if_neg hempty]
  exact hwalk _ _ hplace

theorem locate_vacant (h : Grows fs fs') {path name : String} {directory : Route} {n : Nat}
    (hnew : fs'.entry? (directory ++ [name]) = some (.file n))
    (hplace : fs.locate true path = .ok (.vacant directory name)) :
    fs'.locate true path = .ok (.found (directory ++ [name]) (.file n)) :=
  h.locate_of_walk (h.walk_vacant hnew true maxLinks) hplace

theorem locate_file (h : Grows fs fs') {path : String} {r : Route} {n : Nat}
    (hplace : fs.locate true path = .ok (.found r (.file n))) :
    fs'.locate true path = .ok (.found r (.file n)) :=
  h.locate_of_walk (h.walk_file true maxLinks) hplace

end Grows

/-! ## Making a file -/

section

variable {fs : Files} {r : Route} {name : String}

theorem contents_makeFile : (fs.makeFile r name).1.contents = fs.contents ++ [⟨[], fs.clock + 1⟩] := by
  unfold makeFile
  rw [contents_touch, contents_put]
  rfl

theorem clock_makeFile : (fs.makeFile r name).1.clock = fs.clock + 1 := by
  unfold makeFile
  rw [clock_touch, clock_put]
  rfl

/-- The new file is at its place. -/
theorem entry?_makeFile :
    entry? (fs.makeFile r name).1 (r ++ [name]) = some (.file fs.contents.length) := by
  unfold makeFile
  dsimp only
  rcases entry?_touch _ r (r ++ [name]) with h | ⟨t, h, -⟩
  · rw [h, entry?_put, if_pos rfl]
    rfl
  · rw [entry?_put, if_pos rfl] at h
    cases h

theorem grows_makeFile (hfree : fs.entry? (r ++ [name]) = none) : Grows fs (fs.makeFile r name).1 := by
  have hmade : fs.SameTree { fs.tick with contents := fs.contents ++ [Content.mk [] fs.tick.clock] } :=
    ⟨rfl, rfl⟩
  have hput := Grows.put (r := r ++ [name]) ((hmade.entry? _).symm.trans hfree) (.file fs.contents.length)
  exact ((Grows.ofSameTree hmade).trans hput).trans (.touch _ r)

end

/-! ## Putting bytes into a file -/

/-- Emptying a file. -/
theorem bytes_setBytes_nil (fs : Files) (n : Nat) : ((fs.setBytes n []).content n).bytes = [] := by
  unfold content setBytes
  dsimp only
  rw [List.getElem?_set_self']
  cases (fs.tick.contents[n]?) <;> rfl

/-- An empty file that is opened and written to holds what was written, and nothing else changes. -/
theorem writeTo_handOut {fs : Files} {n : Nat} (hempty : (fs.content n).bytes = []) (bytes : Bytes) :
    fs.SameTree ((fs.handOut (.file n 0 false)).1.writeTo fs.opened.length bytes) ∧
      ∃ t, ((fs.handOut (.file n 0 false)).1.writeTo fs.opened.length bytes).contents =
        fs.contents.set n ⟨bytes, t⟩ ∧
        (bytes ≠ [] →
          ((fs.handOut (.file n 0 false)).1.writeTo fs.opened.length bytes).clock = t ∧ fs.clock ≤ t) := by
  have hopened : (fs.handOut (.file n 0 false)).1.opened[fs.opened.length]? = some (.file n 0 false) := by
    simp [handOut]
  unfold writeTo
  split
  · rename_i hbytes
    have hnil := List.isEmpty_iff.1 hbytes
    refine ⟨⟨rfl, rfl⟩, (fs.content n).changed, ?_, absurd hnil⟩
    rw [hnil, ← hempty]
    unfold content handOut
    dsimp only
    refine List.ext_getElem? fun i => ?_
    rw [List.getElem?_set']
    split
    · rename_i hi
      subst hi
      cases fs.contents[n]? <;> rfl
    · rfl
  · rw [hopened]
    refine ⟨⟨rfl, rfl⟩, fs.clock + 1, ?_, fun _ => ⟨rfl, Int.le_add_one (Int.le_refl _)⟩⟩
    have hspliced : splice ((fs.handOut (.file n 0 false)).1.content n).bytes 0 bytes = bytes := by
      have hold : ((fs.handOut (.file n 0 false)).1.content n).bytes = [] := hempty
      rw [hold]
      simp [splice]
    dsimp only
    rw [if_neg Bool.false_ne_true, hspliced]
    rfl

theorem writeTo_void (fs : Files) (bytes : Bytes) :
    (fs.handOut .void).1.writeTo fs.opened.length bytes = (fs.handOut .void).1 := by
  have hopened : (fs.handOut .void).1.opened[fs.opened.length]? = some .void := by simp [handOut]
  unfold writeTo
  rw [hopened]
  split <;> rfl

/-- What putting bytes into the file at a path does: the file is emptied and written to, or it is made. -/
theorem putBytes_cases {fs fs' : Files} {path : String} {bytes : Bytes} (h : fs.putBytes path bytes = .ok fs') :
    (∃ r n t, fs.locate true path = .ok (.found r (.file n)) ∧ fs.SameTree fs' ∧
      fs'.contents = fs.contents.set n ⟨bytes, t⟩ ∧ (bytes ≠ [] → fs'.clock = t ∧ fs.clock ≤ t)) ∨
    (∃ r, fs.locate true path = .ok (.found r .void) ∧ fs.SameTree fs' ∧ fs'.contents = fs.contents ∧
      fs'.clock = fs.clock) ∨
    ∃ r name t, fs.locate true path = .ok (.vacant r name) ∧ Grows fs fs' ∧
      fs'.entry? (r ++ [name]) = some (.file fs.contents.length) ∧
      fs'.contents = fs.contents ++ [⟨bytes, t⟩] ∧ (bytes ≠ [] → fs'.clock = t ∧ fs.clock ≤ t) := by
  unfold putBytes at h
  rcases hopen : fs.openFile path .write with f | ⟨opened, k⟩
  · rw [hopen] at h
    cases h
  rw [hopen] at h
  obtain rfl : opened.writeTo k bytes = fs' := Except.ok.inj h
  unfold openFile at hopen
  rcases hparent : fs.parent path with f | ⟨directory, last, slash⟩ <;> rw [hparent] at hopen
  · cases hopen
  rcases last with last | _ | _ | _ <;> cases slash <;> try cases hopen
  rcases hplace : fs.locate true path with f | ⟨r, _ | n | _ | _⟩ | ⟨r, name⟩ <;> rw [hplace] at hopen
  · cases hopen
  · cases hopen
  · cases hopen
    obtain ⟨htree, t, hcontents, htime⟩ := writeTo_handOut (bytes_setBytes_nil fs n) bytes
    refine .inl ⟨r, n, t, rfl, ⟨htree.entries, htree.here⟩, ?_, fun hbytes => ?_⟩
    · refine hcontents.trans ?_
      unfold setBytes
      rw [List.set_set]
      rfl
    · exact ⟨(htime hbytes).1, Int.le_trans (Int.le_add_one (Int.le_refl _)) (htime hbytes).2⟩
  · cases hopen
  · cases hopen
    have hvoid := writeTo_void fs bytes
    refine .inr (.inl ⟨r, rfl, ?_⟩)
    unfold handOut at hvoid
    rw [hvoid]
    exact ⟨⟨rfl, rfl⟩, rfl, rfl⟩
  · cases hopen
    have hfree := entry?_of_vacant hplace
    have hempty : ((fs.makeFile r name).1.content fs.contents.length).bytes = [] := by
      unfold content
      rw [contents_makeFile]
      simp
    obtain ⟨htree, t, hcontents, htime⟩ := writeTo_handOut hempty bytes
    refine .inr (.inr ⟨r, name, t, rfl, (grows_makeFile hfree).trans (.ofSameTree htree), ?_, ?_, fun hbytes => ?_⟩)
    · exact (htree.entry? _).symm.trans entry?_makeFile
    · refine hcontents.trans ?_
      rw [contents_makeFile]
      simp
    · have hlater := (htime hbytes).2
      rw [clock_makeFile] at hlater
      exact ⟨(htime hbytes).1, Int.le_trans (Int.le_add_one (Int.le_refl _)) hlater⟩

/-- What was put at a path is found there, unless what was there holds nothing. -/
theorem bytesAt_putBytes {fs fs' : Files} {path : String} {old bytes : Bytes}
    (hbefore : fs.bytesAt path = .error .notFound ∨ fs.bytesAt path = .ok old ∧ old ≠ [])
    (h : fs.putBytes path bytes = .ok fs') : fs'.bytesAt path = .ok bytes := by
  rw [bytesAt_eq_ok_iff]
  rcases putBytes_cases h with ⟨r, n, t, hplace, htree, hcontents, -⟩ | ⟨r, hplace, -⟩ |
    ⟨r, name, t, hplace, hgrows, hnew, hcontents, -⟩
  · refine .inl ⟨r, n, (htree.locate true path).symm.trans hplace, ?_⟩
    rw [bytesAt_eq_notFound_iff, bytesAt_eq_ok_iff, hplace] at hbefore
    -- a file that holds something is among the contents
    rcases hbefore with (h | ⟨_, _, h⟩) | ⟨⟨_, m, hm, hbytes⟩ | ⟨⟨_, h⟩, -⟩, hold⟩
    · cases h
    · cases h
    · cases hm
      unfold content at hbytes ⊢
      rw [hcontents, List.getElem?_set_self']
      cases hn : fs.contents[n]? with
      | none =>
        rw [hn] at hbytes
        exact absurd hbytes.symm hold
      | some c => rfl
    · cases h
  · rw [bytesAt_eq_notFound_iff, bytesAt_eq_ok_iff, hplace] at hbefore
    rcases hbefore with (h | ⟨_, _, h⟩) | ⟨⟨_, _, h, -⟩ | ⟨-, hnil⟩, hold⟩
    · cases h
    · cases h
    · cases h
    · exact absurd hnil hold
  · refine .inl ⟨_, _, hgrows.locate_vacant hnew hplace, ?_⟩
    unfold content
    rw [hcontents]
    simp

/-- Another file stays where it is and what it is. -/
theorem putBytes_other {fs fs' : Files} {path other : String} {bytes : Bytes} {r : Route} {n : Nat}
    (h : fs.putBytes path bytes = .ok fs') (hother : fs.locate true other = .ok (.found r (.file n)))
    (hn : n < fs.contents.length) (hapart : ∀ r', fs.locate true path ≠ .ok (.found r' (.file n))) :
    fs'.locate true other = .ok (.found r (.file n)) ∧ fs'.content n = fs.content n := by
  rcases putBytes_cases h with ⟨r', m, t, hplace, htree, hcontents, -⟩ | ⟨r', hplace, htree, hcontents, -⟩ |
    ⟨r', name, t, hplace, hgrows, hnew, hcontents, -⟩
  · refine ⟨(htree.locate true other).symm.trans hother, ?_⟩
    have hne : m ≠ n := by
      rintro rfl
      exact hapart r' hplace
    unfold content
    rw [hcontents, List.getElem?_set_ne hne, List.getElem?_eq_getElem hn]
    rfl
  · refine ⟨(htree.locate true other).symm.trans hother, ?_⟩
    unfold content
    rw [hcontents, List.getElem?_eq_getElem hn]
    rfl
  · refine ⟨hgrows.locate_file hother, ?_⟩
    unfold content
    rw [hcontents, List.getElem?_append_left hn, List.getElem?_eq_getElem hn]
    rfl

theorem bytesAt_of_locate {fs : Files} {path : String} {r : Route} {n : Nat}
    (h : fs.locate true path = .ok (.found r (.file n))) : fs.bytesAt path = .ok (fs.content n).bytes :=
  bytesAt_eq_ok_iff.2 (.inl ⟨r, n, h, rfl⟩)

theorem modified_of_locate {fs : Files} {path : String} {r : Route} {n : Nat}
    (h : fs.locate true path = .ok (.found r (.file n))) : fs.modified path = .ok (fs.content n).changed := by
  unfold modified stat
  rw [h]
  rfl

theorem modified_of_bytesAt {fs : Files} {path : String} {bytes : Bytes} (h : fs.bytesAt path = .ok bytes) :
    ∃ t, fs.modified path = .ok t := by
  rcases bytesAt_eq_ok_iff.1 h with ⟨r, n, hplace, -⟩ | ⟨⟨r, hplace⟩, -⟩
  · exact ⟨_, modified_of_locate hplace⟩
  · unfold modified stat
    rw [hplace]
    exact ⟨_, rfl⟩

theorem modified_of_vacant {fs : Files} {path name : String} {r : Route}
    (h : fs.locate true path = .ok (.vacant r name)) : fs.modified path = .error .notFound := by
  unfold modified stat
  rw [h]
  rfl

/-- A time in a tree is that of a directory, of a file or of now. -/
theorem modified_eq_ok {fs : Files} {path : String} {t : Instant} (h : fs.modified path = .ok t) :
    (∃ r, fs.entry? r = some (.directory t)) ∨
      (∃ r n, fs.entry? r = some (.file n) ∧ (fs.content n).changed = t) ∨ fs.clock = t := by
  unfold modified stat at h
  rcases hplace : fs.locate true path with f | ⟨r, t' | n | target | _⟩ | ⟨r, name⟩ <;> rw [hplace] at h <;>
    simp only [bind, Except.bind, pure, Except.pure] at h <;> cases h
  · exact .inl ⟨r, entry?_of_found hplace⟩
  · exact .inr (.inl ⟨r, n, entry?_of_found hplace, rfl⟩)
  · exact .inr (.inr rfl)

theorem here_putBytes {fs fs' : Files} {path : String} {bytes : Bytes} (h : fs.putBytes path bytes = .ok fs') :
    fs'.here = fs.here := by
  rcases putBytes_cases h with ⟨_, _, _, -, htree, -⟩ | ⟨_, -, htree, -⟩ | ⟨_, _, _, -, hgrows, -⟩
  · exact htree.here.symm
  · exact htree.here.symm
  · exact hgrows.here

/-- What was put has the time of then. -/
theorem modified_putBytes {fs fs' : Files} {path : String} {bytes : Bytes}
    (h : fs.putBytes path bytes = .ok fs') (hbytes : bytes ≠ []) :
    fs'.modified path = .ok fs'.clock ∧ fs.clock ≤ fs'.clock := by
  rcases putBytes_cases h with ⟨r, n, t, hplace, htree, hcontents, htime⟩ |
    ⟨r, hplace, htree, hcontents, hclock⟩ | ⟨r, name, t, hplace, hgrows, hnew, hcontents, htime⟩
  · obtain ⟨hclock, hlater⟩ := htime hbytes
    rw [modified_of_locate ((htree.locate true path).symm.trans hplace), hclock]
    refine ⟨congrArg Except.ok ?_, hlater⟩
    unfold content
    rw [hcontents, List.getElem?_set_self', hclock]
    cases fs.contents[n]? <;> rfl
  · refine ⟨?_, Int.le_of_eq hclock.symm⟩
    unfold modified stat
    rw [(htree.locate true path).symm.trans hplace]
    rfl
  · obtain ⟨hclock, hlater⟩ := htime hbytes
    rw [modified_of_locate (hgrows.locate_vacant hnew hplace), hclock]
    refine ⟨congrArg Except.ok ?_, hlater⟩
    unfold content
    rw [hcontents, List.getElem?_concat_length]
    rfl

end Taskwork.Files
