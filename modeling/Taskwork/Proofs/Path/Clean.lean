/-
Clean paths. A path that is written from its steps is read as these steps, since the text of a step has no slash
and leads somewhere. Cleaning leaves the root, or some steps up, and then only names; so what it writes is clean
already, and it starts at the root if the path does.
-/
import Taskwork.Path
import Taskwork.Proofs.Text.Split

namespace Taskwork

namespace Component

/-- A name that a step down can have. -/
structure IsName (n : String) : Prop where
  nonempty : n.toList ≠ []
  no_slash : '/' ∉ n.toList
  not_here : n.toList ≠ ['.']
  not_up : n.toList ≠ ['.', '.']

/-- A step that is no start of a path: up, or down to a name. -/
def IsMove : Component → Prop
  | .name n => IsName n
  | .up => True
  | .root | .here => False

namespace IsMove

variable {c : Component}

theorem nonempty (h : c.IsMove) : c.text.toList ≠ [] := by
  cases c with
  | name n => exact IsName.nonempty h
  | up => decide
  | _ => exact h.elim

theorem no_slash (h : c.IsMove) : '/' ∉ c.text.toList := by
  cases c with
  | name n => exact IsName.no_slash h
  | up => decide
  | _ => exact h.elim

theorem not_here (h : c.IsMove) : c.text.toList ≠ ['.'] := by
  cases c with
  | name n => exact IsName.not_here h
  | up => decide
  | _ => exact h.elim

end IsMove
end Component

namespace Path

open Component (IsName IsMove)

variable {c : Component} {cs : List Component} {path : String}

/-- Steps up are moves. -/
theorem isMove_of_mem_ups {k : ℕ} (hcs : ∀ c ∈ cs, c.IsMove) (hc : c ∈ List.replicate k Component.up ++ cs) :
    c.IsMove := by
  rcases List.mem_append.1 hc with hc | hc
  · rw [List.eq_of_mem_replicate hc]
    trivial
  · exact hcs c hc

/-! ## Reading -/

/-- What stands between slashes is read as moves. -/
theorem isMove_of_mem_ofPieces {ps : List (List Char)} (hps : ∀ p ∈ ps, '/' ∉ p) (h : c ∈ ofPieces ps) : c.IsMove := by
  obtain ⟨p, hp, rfl⟩ := List.mem_map.1 h
  obtain ⟨hmem, hidle⟩ := List.mem_filter.1 hp
  split
  · trivial
  · rename_i hup
    have hne : p ≠ [] ∧ p ≠ ['.'] := by simpa [isIdle] using hidle
    exact ⟨by simpa using hne.1, by simpa using hps p hmem, by simpa using hne.2, by simpa using hup⟩

theorem not_slash_of_mem_pieces {cs p : List Char} (h : p ∈ pieces cs) : '/' ∉ p := by
  intro hslash
  have hmem := Text.mem_splitOn h hslash
  simp at hmem

theorem start_cases (cs : List Char) :
    (cs.head? = some '/' ∧ (start cs).1 = some .root) ∨
      (cs.head? ≠ some '/' ∧ ((start cs).1 = some .here ∨ (start cs).1 = none)) := by
  unfold start
  split
  · exact .inl ⟨rfl, rfl⟩
  · exact .inr ⟨by decide, .inl rfl⟩
  · exact .inr ⟨by simp, .inl rfl⟩
  · rename_i hroot _ _
    refine .inr ⟨?_, .inr rfl⟩
    intro hhead
    obtain ⟨r, hr⟩ := List.head?_eq_some_iff.1 hhead
    exact hroot r hr

theorem components_eq (path : String) :
    components path = (start path.toList).1.toList ++ ofPieces (pieces (start path.toList).2) := rfl

/-- A path is read as moves, from the root if it is absolute. -/
theorem components_cases (path : String) :
    ∃ cs, (∀ c ∈ cs, c.IsMove) ∧
      (isAbsolute path = true ∧ components path = .root :: cs ∨
        isAbsolute path = false ∧ (components path = .here :: cs ∨ components path = cs)) := by
  refine ⟨ofPieces (pieces (start path.toList).2), fun c hc => isMove_of_mem_ofPieces
    (fun p hp => not_slash_of_mem_pieces hp) hc, ?_⟩
  rw [components_eq]
  unfold isAbsolute
  obtain ⟨hhead, hroot⟩ | ⟨hhead, hhere | hnone⟩ := start_cases path.toList
  · exact .inl ⟨by rw [hhead]; rfl, by rw [hroot]; rfl⟩
  · exact .inr ⟨by simpa using hhead, .inl (by rw [hhere]; rfl)⟩
  · exact .inr ⟨by simpa using hhead, .inr (by rw [hnone]; rfl)⟩

/-- Behind its first step a path has moves only. -/
theorem isMove_of_mem_tail (h : c ∈ (components path).tail) : c.IsMove := by
  obtain ⟨cs, hmoves, ⟨-, hcs⟩ | ⟨-, hcs | hcs⟩⟩ := components_cases path <;> rw [hcs] at h
  · exact hmoves c h
  · exact hmoves c h
  · exact hmoves c (List.mem_of_mem_tail h)

/-! ## Cleaning -/

/-- Steps of a clean path, the last one first: names, and before them the root or steps up. -/
def Cleaned (absolute : Bool) (steps : List Component) : Prop :=
  ∃ (names : List String) (lead : List Component), steps = names.map .name ++ lead ∧ (∀ n ∈ names, IsName n) ∧
    if absolute then lead = [.root] else ∃ k, lead = List.replicate k .up

theorem Cleaned.step {absolute : Bool} {steps : List Component} (h : Cleaned absolute steps) (hc : c.IsMove) :
    Cleaned absolute (cleanStep steps c) := by
  obtain ⟨names, lead, rfl, hnames, hlead⟩ := h
  cases c with
  | name n => exact ⟨n :: names, lead, rfl, List.forall_mem_cons.2 ⟨hc, hnames⟩, hlead⟩
  | up =>
    cases names with
    | cons n names => exact ⟨names, lead, rfl, fun m hm => hnames m (List.mem_cons_of_mem _ hm), hlead⟩
    | nil =>
      cases absolute with
      | true =>
        obtain rfl := hlead
        exact ⟨[], _, rfl, hnames, rfl⟩
      | false =>
        obtain ⟨k, rfl⟩ := hlead
        refine ⟨[], List.replicate (k + 1) .up, ?_, hnames, k + 1, rfl⟩
        cases k <;> rfl
  | _ => exact hc.elim

theorem Cleaned.foldl {absolute : Bool} {steps : List Component} (h : Cleaned absolute steps)
    (hcs : ∀ c ∈ cs, c.IsMove) : Cleaned absolute (cs.foldl cleanStep steps) := by
  induction cs generalizing steps with
  | nil => exact h
  | cons c cs ih => exact ih (h.step (hcs c List.mem_cons_self)) fun d hd => hcs d (List.mem_cons_of_mem _ hd)

/-- What is left of a path is clean, and starts at the root if the path does. -/
theorem cleaned_components (path : String) :
    Cleaned (isAbsolute path) (cleanComponents (components path)).reverse := by
  have hroot : Cleaned true [.root] := ⟨[], [.root], rfl, nofun, rfl⟩
  have hnone : Cleaned false [] := ⟨[], [], rfl, nofun, 0, rfl⟩
  unfold cleanComponents
  rw [List.reverse_reverse]
  obtain ⟨cs, hmoves, ⟨habs, hcs⟩ | ⟨habs, hcs | hcs⟩⟩ := components_cases path <;> rw [habs, hcs]
  · exact hroot.foldl hmoves
  · rw [List.foldl_cons]
    exact hnone.foldl hmoves
  · exact hnone.foldl hmoves

/-- What is left of a path is the root and names, or steps up and names. -/
theorem cleanComponents_cases (path : String) : ∃ (lead : List Component) (names : List String),
    cleanComponents (components path) = lead ++ names.map .name ∧ (∀ n ∈ names, IsName n) ∧
      if isAbsolute path then lead = [.root] else ∃ k, lead = List.replicate k .up := by
  obtain ⟨names, lead, hsteps, hnames, hlead⟩ := cleaned_components path
  refine ⟨lead.reverse, names.reverse, ?_, fun n hn => hnames n (List.mem_reverse.1 hn), ?_⟩
  · rw [← List.reverse_reverse (cleanComponents _), hsteps, List.reverse_append, List.map_reverse]
  · cases habs : isAbsolute path with
    | true =>
      rw [habs] at hlead
      obtain rfl := hlead
      rfl
    | false =>
      rw [habs] at hlead
      obtain ⟨k, rfl⟩ := hlead
      exact ⟨k, List.reverse_replicate⟩

/-- Names are put one after the other on what is there. -/
theorem foldl_cleanStep_names (names : List String) (steps : List Component) :
    (names.map Component.name).foldl cleanStep steps = (names.map Component.name).reverse ++ steps := by
  induction names generalizing steps with
  | nil => rfl
  | cons n names ih =>
    rw [List.map_cons, List.foldl_cons, ih, List.reverse_cons, List.append_assoc]
    rfl

/-- A clean path from the root is left as it is. -/
theorem cleanComponents_root {names : List String} :
    cleanComponents (.root :: names.map .name) = .root :: names.map .name := by
  unfold cleanComponents
  rw [List.foldl_cons, foldl_cleanStep_names]
  simp [cleanStep]

/-! ## Writing -/

/-- Moves that are written after a path. -/
def written (cs : List Component) : List Char := cs.flatMap fun c => '/' :: c.text.toList

theorem not_isAbsolute_text (h : c.IsMove) : isAbsolute c.text = false := by
  unfold isAbsolute
  rw [beq_eq_false_iff_ne]
  intro hhead
  exact h.no_slash (List.mem_of_head? hhead)

theorem getLast?_ne_slash (before : List Char) (hc : c.IsMove) :
    (before ++ '/' :: c.text.toList).getLast? ≠ some '/' := by
  rw [List.getLast?_append, List.getLast?_cons_of_ne_nil hc.nonempty, List.getLast?_eq_some_getLast hc.nonempty,
    Option.some_or]
  intro hslash
  exact hc.no_slash (Option.some.inj hslash ▸ List.getLast_mem hc.nonempty)

theorem toList_foldl_join {path : String} (hne : path.toList ≠ []) (hlast : path.toList.getLast? ≠ some '/')
    (hcs : ∀ c ∈ cs, c.IsMove) :
    (cs.foldl (fun path c => join path c.text) path).toList = path.toList ++ written cs := by
  induction cs generalizing path with
  | nil => exact (List.append_nil _).symm
  | cons c cs ih =>
    obtain ⟨hc, hcs⟩ := List.forall_mem_cons.1 hcs
    have hempty : path ≠ "" := by
      rintro rfl
      exact hne rfl
    have hjoin : (join path c.text).toList = path.toList ++ '/' :: c.text.toList := by
      unfold join
      rw [not_isAbsolute_text hc, if_neg Bool.false_ne_true, if_neg (by simp [hempty, hlast])]
      simp
    have hend : (join path c.text).toList.getLast? ≠ some '/' := by
      rw [hjoin]
      exact getLast?_ne_slash path.toList hc
    rw [List.foldl_cons, ih (by rw [hjoin]; simp) hend hcs, hjoin]
    simp [written]

/-- A path from the root is written with one slash before each of its moves. -/
theorem toList_ofComponents_root (hc : c.IsMove) (hcs : ∀ c ∈ cs, c.IsMove) :
    (ofComponents (.root :: c :: cs)).toList = '/' :: (c.text.toList ++ written cs) := by
  have hfirst : (join "/" c.text).toList = '/' :: c.text.toList := by
    unfold join
    rw [not_isAbsolute_text hc, if_neg Bool.false_ne_true, if_pos (by decide)]
    simp
  have hend : (join "/" c.text).toList.getLast? ≠ some '/' := by
    rw [hfirst]
    exact getLast?_ne_slash [] hc
  have hfold := toList_foldl_join (by rw [hfirst]; simp) hend hcs
  rw [hfirst] at hfold
  exact hfold

theorem pieces_written {first : List Char} (hfirst : '/' ∉ first) (hcs : ∀ c ∈ cs, c.IsMove) :
    pieces (first ++ written cs) = first :: cs.map fun c => c.text.toList := by
  have hplain : ∀ a ∈ first, (a == '/') = false := by
    intro a ha
    simpa using ne_of_mem_of_not_mem ha hfirst
  induction cs generalizing first with
  | nil =>
    rw [written, List.flatMap_nil, List.append_nil]
    exact Text.splitOn_of_forall hplain
  | cons c cs ih =>
    obtain ⟨hc, hcs⟩ := List.forall_mem_cons.1 hcs
    have hrest := ih hc.no_slash hcs fun a ha => by simpa using ne_of_mem_of_not_mem ha hc.no_slash
    rw [List.map_cons, ← hrest]
    exact Text.splitOn_append_cons hplain rfl _

theorem ofPieces_texts (hcs : ∀ c ∈ cs, c.IsMove) : ofPieces (cs.map fun c => c.text.toList) = cs := by
  induction cs with
  | nil => rfl
  | cons c cs ih =>
    obtain ⟨hc, hcs⟩ := List.forall_mem_cons.1 hcs
    have hidle : isIdle c.text.toList = false := by
      simp [isIdle, hc.nonempty, hc.not_here]
    unfold ofPieces at ih ⊢
    rw [List.map_cons, List.filter_cons_of_pos (by simp [hidle]), List.map_cons, ih hcs]
    refine congrArg (· :: cs) ?_
    cases c with
    | name n =>
      have hup : (Component.name n).text.toList ≠ ['.', '.'] := IsName.not_up hc
      rw [if_neg (by simpa using hup)]
      exact congrArg Component.name String.ofList_toList
    | up => rfl
    | _ => exact hc.elim

/-- A path from the root is read as it was written. -/
theorem components_ofComponents_root (hcs : ∀ c ∈ cs, c.IsMove) :
    components (ofComponents (.root :: cs)) = .root :: cs := by
  cases cs with
  | nil => rfl
  | cons c cs =>
    obtain ⟨hc, hrest⟩ := List.forall_mem_cons.1 hcs
    rw [components_eq, toList_ofComponents_root hc hrest]
    show .root :: ofPieces (pieces (c.text.toList ++ written cs)) = _
    rw [pieces_written hc.no_slash hrest]
    exact congrArg _ (ofPieces_texts hcs)

/-- A path of moves alone is written with a slash between them. -/
theorem toList_ofComponents (hc : c.IsMove) (hcs : ∀ c ∈ cs, c.IsMove) :
    (ofComponents (c :: cs)).toList = c.text.toList ++ written cs := by
  have hfirst : join "" c.text = c.text := by
    unfold join
    rw [not_isAbsolute_text hc, if_neg Bool.false_ne_true]
    simp
  have hend : c.text.toList.getLast? ≠ some '/' := by
    rw [List.getLast?_eq_some_getLast hc.nonempty]
    intro hslash
    exact hc.no_slash (Option.some.inj hslash ▸ List.getLast_mem hc.nonempty)
  unfold ofComponents
  rw [List.foldl_cons, hfirst]
  exact toList_foldl_join hc.nonempty hend hcs

/-- A path that does not start at the root is not written so. -/
theorem not_isAbsolute_ofComponents (hcs : ∀ c ∈ cs, c.IsMove) : isAbsolute (ofComponents cs) = false := by
  cases cs with
  | nil => rfl
  | cons c cs =>
    obtain ⟨hc, hrest⟩ := List.forall_mem_cons.1 hcs
    unfold isAbsolute
    rw [toList_ofComponents hc hrest, List.head?_append_of_ne_nil _ hc.nonempty]
    exact not_isAbsolute_text hc

/-! ## Clean paths from the root -/

/-- It is written from the root with names only. -/
def FromRoot (path : String) : Prop :=
  ∃ names : List String, (∀ n ∈ names, IsName n) ∧ path = ofComponents (.root :: names.map .name)

theorem isMove_of_mem_map {names : List String} (hnames : ∀ n ∈ names, IsName n) :
    ∀ c ∈ names.map Component.name, c.IsMove := by
  simpa [IsMove] using hnames

/-- An absolute path is cleaned to a path from the root. -/
theorem fromRoot_clean_of_isAbsolute (h : isAbsolute path = true) : FromRoot (clean path) := by
  obtain ⟨lead, names, hclean, hnames, hlead⟩ := cleanComponents_cases path
  rw [if_pos h] at hlead
  subst hlead
  unfold clean
  rw [hclean]
  exact ⟨names, hnames, rfl⟩

/-- What is cleaned and absolute is from the root. -/
theorem fromRoot_clean (habs : isAbsolute (clean path) = true) : FromRoot (clean path) := by
  cases hpath : isAbsolute path with
  | true => exact fromRoot_clean_of_isAbsolute hpath
  | false =>
    exfalso
    obtain ⟨lead, names, hclean, hnames, hlead⟩ := cleanComponents_cases path
    rw [hpath, if_neg Bool.false_ne_true] at hlead
    obtain ⟨k, rfl⟩ := hlead
    unfold clean at habs
    rw [hclean] at habs
    split at habs
    · revert habs
      decide
    · rw [not_isAbsolute_ofComponents fun c hc => isMove_of_mem_ups (isMove_of_mem_map hnames) hc] at habs
      cases habs

namespace FromRoot

/-- It is clean. -/
theorem clean_eq (h : FromRoot path) : clean path = path := by
  obtain ⟨names, hnames, rfl⟩ := h
  unfold clean
  rw [components_ofComponents_root (isMove_of_mem_map hnames), cleanComponents_root]

/-- It starts with one slash. -/
theorem exists_eq_cons (h : FromRoot path) : ∃ rest, path.toList = '/' :: rest ∧ rest.head? ≠ some '/' := by
  obtain ⟨names, hnames, rfl⟩ := h
  cases names with
  | nil => exact ⟨[], rfl, nofun⟩
  | cons n names =>
    obtain ⟨hn, hrest⟩ := List.forall_mem_cons.1 hnames
    have hmove : (Component.name n).IsMove := hn
    refine ⟨_, toList_ofComponents_root hmove (isMove_of_mem_map hrest), ?_⟩
    rw [List.head?_append_of_ne_nil _ hmove.nonempty]
    intro hhead
    exact hmove.no_slash (List.mem_of_head? hhead)

end FromRoot

/-! ## Writing on from a directory -/

/-- A path from the root ends with no slash, unless it is the root. -/
theorem getLast?_ofComponents_root (hc : c.IsMove) (hcs : ∀ c ∈ cs, c.IsMove) :
    (ofComponents (.root :: c :: cs)).toList.getLast? ≠ some '/' := by
  rw [toList_ofComponents_root hc hcs]
  rcases cs.eq_nil_or_concat with rfl | ⟨before, last, rfl⟩
  · simpa [written] using getLast?_ne_slash [] hc
  · have hlast : last.IsMove := hcs last (by simp)
    have h := getLast?_ne_slash ('/' :: (c.text.toList ++ written before)) hlast
    simpa [written] using h

/-- More steps are written behind a slash, which the root has already. -/
theorem ofComponents_append {shared down : List String} (hnames : ∀ n ∈ shared ++ down, IsName n) (hdown : down ≠ []) :
    ofComponents (.root :: (shared ++ down).map .name) =
      ofComponents (.root :: shared.map .name) ++
        (if (ofComponents (.root :: shared.map .name)).toList.getLast? = some '/' then "" else "/") ++
        ofComponents (down.map .name) := by
  obtain ⟨n, rest, rfl⟩ := List.exists_cons_of_ne_nil hdown
  obtain ⟨hshared, hmoves⟩ := List.forall_mem_append.1 hnames
  obtain ⟨hn, hrest⟩ := List.forall_mem_cons.1 (isMove_of_mem_map hmoves)
  rw [← String.toList_inj]
  cases shared with
  | nil =>
    have hroot : ofComponents (.root :: ([] : List String).map .name) = "/" := rfl
    rw [hroot, List.nil_append, List.map_cons, toList_ofComponents_root hn hrest]
    simp [toList_ofComponents hn hrest]
  | cons s shared =>
    obtain ⟨hs, hshared⟩ := List.forall_mem_cons.1 (isMove_of_mem_map hshared)
    have hlast := getLast?_ofComponents_root hs hshared
    have hne : (ofComponents (.root :: (s :: shared).map .name)).toList ≠ [] := by
      rw [List.map_cons, toList_ofComponents_root hs hshared]
      exact List.cons_ne_nil _ _
    have hall : ofComponents (.root :: (s :: shared ++ n :: rest).map .name) =
        (List.map Component.name (n :: rest)).foldl (fun path c => join path c.text)
          (ofComponents (.root :: (s :: shared).map .name)) := by
      unfold ofComponents
      rw [List.map_append, ← List.cons_append, List.foldl_append]
    rw [hall, toList_foldl_join hne hlast (isMove_of_mem_map hmoves), List.map_cons, if_neg hlast]
    simp [written, toList_ofComponents hn hrest]

/-! ## Paths seen from another -/

/-- The way from one place to another does not start at the root. -/
theorem not_isAbsolute_of_relative? {base seen : String} (h : relative? base path = some seen) :
    isAbsolute seen = false := by
  unfold relative? at h
  dsimp only at h
  split_ifs at h with hhead hnone
  · cases h
    decide
  · cases h
    refine not_isAbsolute_ofComponents fun c hc => isMove_of_mem_ups (fun d hd => ?_) hc
    cases hpath : components path with
    | nil =>
      rw [hpath] at hd
      simp at hd
    | cons first rest =>
      -- both paths start with this step, which is not on the way
      obtain ⟨more, hbase⟩ : ∃ more, components base = first :: more := by
        rw [← List.head?_eq_some_iff, not_not.1 hhead, hpath]
        rfl
      rw [hpath, hbase, commonPart, if_pos rfl, List.length_cons, List.drop_succ_cons] at hd
      exact isMove_of_mem_tail (by rw [hpath]; exact List.mem_of_mem_drop hd)

end Path
end Taskwork
