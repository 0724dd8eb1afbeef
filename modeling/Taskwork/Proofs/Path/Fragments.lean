/-
Fragments one after the other. Of a path only its trail counts for what is written behind it: the steps that are left
when it is cleaned. A fragment that starts nowhere else moves on from there, and any other one forgets the trail. So a
path may be cleaned before the next fragment is read or after it, and where an absolute directory and project root are
given, fragments lead to a path from the root with names only.
-/
import Taskwork.Proofs.Path.Clean

namespace Taskwork.Path

open Component (IsName)

variable {a b path : String} {c : Component} {cs : List Component}

/-! ## The trail of a path -/

/-- The moves that a text stands for behind a directory. -/
def moves (path : String) : List Component := ofPieces (pieces path.toList)

/-- The steps that are left of a path when it is cleaned, the last one first. -/
def trail (path : String) : List Component := (cleanComponents (components path)).reverse

@[simp] theorem pieces_nil : pieces [] = [[]] := rfl

theorem pieces_of_no_slash {p : List Char} (hp : '/' ∉ p) : pieces p = [p] :=
  Text.splitOn_of_forall fun c hc => by simpa using ne_of_mem_of_not_mem hc hp

theorem pieces_append_slash (cs ds : List Char) : pieces (cs ++ '/' :: ds) = pieces cs ++ pieces ds :=
  Text.splitOn_append_separator cs rfl ds

@[simp] theorem pieces_cons_slash (cs : List Char) : pieces ('/' :: cs) = [] :: pieces cs := pieces_append_slash [] cs

@[simp] theorem ofPieces_nil : ofPieces [] = [] := rfl

@[simp] theorem ofPieces_append (ps qs : List (List Char)) : ofPieces (ps ++ qs) = ofPieces ps ++ ofPieces qs := by
  simp [ofPieces]

/-- What leads nowhere is read as no move. -/
@[simp] theorem ofPieces_cons_nil (ps : List (List Char)) : ofPieces ([] :: ps) = ofPieces ps := by
  simp [ofPieces, isIdle]

@[simp] theorem ofPieces_cons_dot (ps : List (List Char)) : ofPieces (['.'] :: ps) = ofPieces ps := by
  simp [ofPieces, isIdle]

/-- The trail of a path is where its moves lead from the root, or from nowhere. -/
theorem trail_eq (path : String) :
    trail path = (moves path).foldl cleanStep (if isAbsolute path then [.root] else []) := by
  unfold trail cleanComponents moves isAbsolute
  rw [List.reverse_reverse, components_eq]
  generalize path.toList = cs
  unfold start
  split
  · -- from the root
    simp [cleanStep]
  · rfl
  · -- from `.`, which is no move
    rename_i rest
    have hdot : pieces ('.' :: '/' :: rest) = ['.'] :: pieces rest := pieces_append_slash ['.'] rest
    simp [hdot, cleanStep]
  · rename_i hroot _ _
    have hhead : (cs.head? == some '/') = false := by
      rw [beq_eq_false_iff_ne]
      intro hhead
      obtain ⟨rest, hrest⟩ := List.head?_eq_some_iff.1 hhead
      exact hroot rest hrest
    rw [hhead]
    rfl

theorem components_of_isAbsolute (h : isAbsolute path = true) : components path = .root :: moves path := by
  unfold isAbsolute at h
  obtain ⟨rest, hrest⟩ := List.head?_eq_some_iff.1 (beq_iff_eq.1 h)
  rw [components_eq, moves, hrest]
  simp [start]

/-- A path is cleaned by its trail alone. -/
theorem clean_congr (h : trail a = trail b) : clean a = clean b := by
  unfold clean
  rw [List.reverse_injective h]

/-! ## Writing behind a path -/

theorem isAbsolute_join (h : isAbsolute b = false) : isAbsolute (join a b) = isAbsolute a := by
  have hhead (cs ds : List Char) (hne : cs ≠ []) : (cs ++ ds).head? = cs.head? := List.head?_append_of_ne_nil _ hne
  unfold join
  rw [if_neg (by simp [h])]
  by_cases hempty : a = ""
  · subst hempty
    simpa [isAbsolute] using h
  · have hne : a.toList ≠ [] := by simpa using hempty
    split <;> simp [isAbsolute, hhead, hne]

/-- What is written behind a path adds what stands between its slashes, but perhaps for empty pieces. -/
theorem filter_pieces_join (h : isAbsolute b = false) {p : List Char → Bool} (hp : p [] = false) :
    (pieces (join a b).toList).filter p = (pieces a.toList).filter p ++ (pieces b.toList).filter p := by
  unfold join
  rw [if_neg (by simp [h])]
  split
  · rename_i hend
    by_cases hempty : a = ""
    · subst hempty
      simp [hp]
    · -- the path has a slash at its end already
      obtain ⟨before, hlast⟩ : ∃ before, a.toList = before ++ ['/'] := by
        rw [← List.getLast?_eq_some_iff]
        simpa [hempty] using hend
      rw [String.toList_append, hlast, List.append_assoc, List.singleton_append, pieces_append_slash,
        pieces_append_slash]
      simp [hp]
  · simp [pieces_append_slash]

/-- What is written behind a path adds its moves. -/
theorem moves_join (h : isAbsolute b = false) : moves (join a b) = moves a ++ moves b := by
  unfold moves ofPieces
  rw [filter_pieces_join h rfl, List.map_append]

/-- What is written behind a path moves on from its trail. -/
theorem trail_join (h : isAbsolute b = false) : trail (join a b) = (moves b).foldl cleanStep (trail a) := by
  rw [trail_eq, isAbsolute_join h, moves_join h, List.foldl_append, ← trail_eq]

/-- A fragment that does not start with a slash is seen from the directory. -/
theorem isAbsolute_of_not_slash {fragment : String} (h : ∀ rest, fragment.toList ≠ '/' :: rest) :
    isAbsolute fragment = false := by
  unfold isAbsolute
  rw [beq_eq_false_iff_ne]
  intro hhead
  obtain ⟨rest, hrest⟩ := List.head?_eq_some_iff.1 hhead
  exact h rest hrest

/-- Where a fragment leads to depends on the trail only. -/
theorem trail_enter_congr (h : trail a = trail b) (projectRoot fragment : String) :
    trail (enter projectRoot a fragment) = trail (enter projectRoot b fragment) := by
  unfold enter
  split
  · rfl
  · rfl
  · rename_i hroot
    have hrelative := isAbsolute_of_not_slash hroot
    rw [trail_join hrelative, trail_join hrelative, h]

theorem trail_foldl_congr (h : trail a = trail b) (projectRoot : String) (fragments : List String) :
    trail (fragments.foldl (enter projectRoot) a) = trail (fragments.foldl (enter projectRoot) b) := by
  induction fragments generalizing a b with
  | nil => exact h
  | cons fragment rest ih => exact ih (trail_enter_congr h projectRoot fragment)

/-! ## The trail of a clean path -/

/-- Moves are read as they were written. -/
theorem moves_ofComponents (hcs : ∀ c ∈ cs, c.IsMove) : moves (ofComponents cs) = cs := by
  cases cs with
  | nil => rfl
  | cons c cs =>
    obtain ⟨hc, hrest⟩ := List.forall_mem_cons.1 hcs
    unfold moves
    rw [toList_ofComponents hc hrest, pieces_written hc.no_slash hrest]
    exact ofPieces_texts hcs

theorem foldl_cleanStep_ups (k : ℕ) (steps : List Component) (hsteps : ∀ c ∈ steps.head?, c = .up) :
    (List.replicate k Component.up).foldl cleanStep steps = List.replicate k .up ++ steps := by
  induction k generalizing steps with
  | zero => rfl
  | succ k ih =>
    have hstep : cleanStep steps .up = .up :: steps := by
      cases steps with
      | nil => rfl
      | cons c steps =>
        obtain rfl : c = .up := by simpa using hsteps
        rfl
    rw [List.replicate_succ, List.foldl_cons, hstep, ih _ (by simp), ← List.replicate_succ, List.replicate_succ',
      List.append_assoc, List.singleton_append]

theorem trail_ofComponents_root {names : List String} (hnames : ∀ n ∈ names, IsName n) :
    trail (ofComponents (.root :: names.map .name)) = (names.map .name).reverse ++ [.root] := by
  unfold trail
  rw [components_ofComponents_root (isMove_of_mem_map hnames), cleanComponents_root, List.reverse_cons]

/-- A clean path has the trail that it was written from. -/
theorem trail_clean (path : String) : trail (clean path) = trail path := by
  obtain ⟨lead, names, hclean, hnames, hlead⟩ := cleanComponents_cases path
  have htrail : trail path = (names.map .name).reverse ++ lead.reverse := by
    unfold trail
    rw [hclean, List.reverse_append]
  unfold clean
  rw [hclean, htrail]
  split at hlead
  · subst hlead
    exact trail_ofComponents_root hnames
  · obtain ⟨k, rfl⟩ := hlead
    have hall : ∀ c ∈ List.replicate k Component.up ++ names.map .name, c.IsMove := fun c hc =>
      isMove_of_mem_ups (isMove_of_mem_map hnames) hc
    rw [List.reverse_replicate]
    split
    · -- nothing is left, and `.` is written
      rename_i hnil
      obtain ⟨hups, hnone⟩ := List.append_eq_nil_iff.1 hnil
      rw [hups, hnone]
      rfl
    · rw [trail_eq, not_isAbsolute_ofComponents hall, moves_ofComponents hall, List.foldl_append,
        if_neg Bool.false_ne_true, foldl_cleanStep_ups k [] nofun, foldl_cleanStep_names, List.append_nil]

/-- Cleaning a second time changes nothing. -/
theorem clean_clean (path : String) : clean (clean path) = clean path := clean_congr (trail_clean path)

/-- Fragments may be resolved from the path that those before them were resolved to. -/
theorem resolve_append (directory projectRoot : String) (p q : List String) :
    resolve directory projectRoot (p ++ q) = resolve (resolve directory projectRoot p) projectRoot q := by
  unfold resolve
  rw [List.foldl_append]
  exact clean_congr (trail_foldl_congr (trail_clean _).symm projectRoot q)

/-! ## Paths from the root -/

theorem isAbsolute_join_left (ha : isAbsolute a = true) (b : String) : isAbsolute (join a b) = true := by
  cases hb : isAbsolute b with
  | true =>
    unfold join
    rwa [if_pos hb]
  | false => rwa [isAbsolute_join hb]

theorem isAbsolute_foldl_join (ha : isAbsolute a = true) (fragments : List String) :
    isAbsolute (fragments.foldl join a) = true := by
  induction fragments generalizing a with
  | nil => exact ha
  | cons fragment rest ih => exact ih (isAbsolute_join_left ha fragment)

theorem isAbsolute_enter {directory projectRoot : String} (hdirectory : isAbsolute directory = true)
    (hroot : isAbsolute projectRoot = true) (fragment : String) :
    isAbsolute (enter projectRoot directory fragment) = true := by
  unfold enter
  split
  · exact isAbsolute_join_left hroot _
  · simp [isAbsolute]
  · exact isAbsolute_join_left hdirectory _

/-- Fragments lead from absolute paths to a path from the root. -/
theorem fromRoot_resolve {directory projectRoot : String} (hdirectory : isAbsolute directory = true)
    (hroot : isAbsolute projectRoot = true) (fragments : List String) :
    FromRoot (resolve directory projectRoot fragments) := by
  have habs : isAbsolute (fragments.foldl (enter projectRoot) directory) = true := by
    induction fragments generalizing directory with
    | nil => exact hdirectory
    | cons fragment rest ih => exact ih (isAbsolute_enter hdirectory hroot fragment)
  exact fromRoot_clean_of_isAbsolute habs

namespace FromRoot

theorem isAbsolute (h : FromRoot path) : Path.isAbsolute path = true := by
  obtain ⟨rest, hrest, -⟩ := h.exists_eq_cons
  simp [Path.isAbsolute, hrest]

/-- Between its slashes stand names, or nothing. -/
theorem name_of_mem_pieces (h : FromRoot path) {piece : List Char} (hpiece : piece ∈ pieces path.toList) :
    piece = [] ∨ IsName (String.ofList piece) := by
  obtain ⟨names, hnames, rfl⟩ := h
  cases names with
  | nil =>
    left
    simpa [ofComponents, join, Component.text, pieces, Text.splitOn, Path.isAbsolute] using hpiece
  | cons n rest =>
    obtain ⟨hn, hrest⟩ := List.forall_mem_cons.1 (isMove_of_mem_map hnames)
    rw [List.map_cons, toList_ofComponents_root hn hrest, ← List.nil_append ('/' :: _), pieces_append_slash,
      pieces_written hn.no_slash hrest] at hpiece
    rcases List.mem_append.1 hpiece with hpiece | hpiece
    · left
      simpa [pieces, Text.splitOn] using hpiece
    · right
      have hmem : piece ∈ (n :: rest).map String.toList := by simpa [Component.text] using hpiece
      obtain ⟨m, hm, rfl⟩ := List.mem_map.1 hmem
      rw [String.ofList_toList]
      exact hnames m hm

end FromRoot

/-- **Fragments compose.** They may be resolved in parts, from wherever; a clean path is left as it is; and from an
absolute directory in an absolute project they lead to an absolute path without a `.` or a `..` between its slashes. -/
theorem fragments_compose (directory projectRoot : String) (p q : List String) :
    resolve directory projectRoot (p ++ q) = resolve (resolve directory projectRoot p) projectRoot q ∧
      (∀ path, clean (clean path) = clean path) ∧
      (isAbsolute directory = true → isAbsolute projectRoot = true →
        isAbsolute (resolve directory projectRoot p) = true ∧
          ∀ piece ∈ pieces (resolve directory projectRoot p).toList, piece ≠ ['.'] ∧ piece ≠ ['.', '.']) := by
  refine ⟨resolve_append directory projectRoot p q, clean_clean, fun hdirectory hroot => ?_⟩
  have hresolve := fromRoot_resolve hdirectory hroot p
  refine ⟨hresolve.isAbsolute, fun piece hpiece => ?_⟩
  rcases hresolve.name_of_mem_pieces hpiece with rfl | hname
  · decide
  · exact ⟨by simpa using hname.not_here, by simpa using hname.not_up⟩

/-- The first part climbs out at the root, the second one starts at the project again. -/
theorem fragments_compose_above_root :
    resolve "/p/s" "/p" ["../../..", "", "//a/./b", ".."] =
        resolve (resolve "/p/s" "/p" ["../../..", ""]) "/p" ["//a/./b", ".."] ∧
      isAbsolute "/p/s" = true ∧ isAbsolute "/p" = true ∧
      resolve "/p/s" "/p" ["../../..", ""] = "/" ∧
      ∀ piece ∈ pieces (resolve "/p/s" "/p" ["../../..", ""]).toList, piece ≠ ['.'] ∧ piece ≠ ['.', '.'] := by
  obtain ⟨hcompose, -, hclean⟩ := fragments_compose "/p/s" "/p" ["../../..", ""] ["//a/./b", ".."]
  exact ⟨hcompose, rfl, rfl, by decide +kernel, (hclean rfl rfl).2⟩

end Taskwork.Path
