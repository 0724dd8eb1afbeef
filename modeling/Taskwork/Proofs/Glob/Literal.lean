/-
Patterns that stand for one path. A text from the root stands for itself, whatever the files are, if there is no
wildcard in it. With one it is read as a shorter text, or it is searched for; and where there are no files a search
finds nothing but ways from the root that stay there.
-/
import Taskwork.Glob.Resolve
import Taskwork.Proofs.Glob.Route
import Taskwork.Proofs.Path.Clean
import Taskwork.Proofs.Stateful
import Taskwork.Proofs.Text.Split

namespace Taskwork

/-! ## A tree without files -/

/-- It is made of slashes and dots. -/
def Idle (path : String) : Prop := ∀ c ∈ path.toList, c = '/' ∨ c = '.'

theorem idle_append {a b : String} (ha : Idle a) (hb : Idle b) : Idle (a ++ b) := by
  intro c hc
  rw [String.toList_append, List.mem_append] at hc
  exact hc.elim (ha c) (hb c)

theorem idle_join {a b : String} (ha : Idle a) (hb : Idle b) : Idle (Path.join a b) := by
  have hslash : Idle "/" := by simp [Idle]
  unfold Path.join
  split
  · exact hb
  · split
    · exact idle_append ha hb
    · exact idle_append (idle_append ha hslash) hb

namespace Files

variable {clock : Instant} {follow : Bool} {links : Nat} {names : List String} {r : Route} {e : Entry} {path : String}

/-- From the root only a walk that stays there finds something. -/
theorem names_of_walk_empty (h : (empty clock).walk follow links [] names = .ok (.found r e)) :
    ∀ name ∈ names, name = "." ∨ name = ".." := by
  induction names with
  | nil => nofun
  | cons name rest ih =>
    have hroot : entry? (empty clock) [] = some (.directory clock) := rfl
    have hnone : entry? (empty clock) ([] ++ [name]) = none := by simp [ entry?, empty]
    rw [walk, hroot] at h
    dsimp only at h
    rw [hnone] at h
    dsimp only at h
    rw [List.forall_mem_cons]
    by_cases hhere : name = "."
    · rw [if_pos hhere] at h
      exact ⟨.inl hhere, ih h⟩
    rw [if_neg hhere] at h
    by_cases hup : name = ".."
    · rw [if_pos hup] at h
      exact ⟨.inr hup, ih h⟩
    rw [if_neg hup] at h
    split at h
    · cases h
    · split at h <;> cases h

theorem idle_of_locate_empty (h : (empty clock).locate follow path = .ok (.found r e)) : Idle path := by
  have horigin : (empty clock).origin path = [] := by simp [origin, empty]
  unfold locate at h
  rw [horigin] at h
  split_ifs at h
  have hnames := names_of_walk_empty h
  intro c hc
  by_cases hslash : c = '/'
  · exact .inl hslash
  · -- every other character is in a name
    have hmem : c ∈ (Path.pieces path.toList).flatten := by
      unfold Path.pieces
      rw [Text.flatten_splitOn]
      simpa using ⟨hc, hslash⟩
    obtain ⟨piece, hpiece, hcpiece⟩ := List.mem_flatten.1 hmem
    have hname : String.ofList piece ∈ namesOf path := by
      have hin : String.ofList piece ∈ ((Path.pieces path.toList).filter (· ≠ [])).map String.ofList :=
        List.mem_map_of_mem (List.mem_filter.2 ⟨hpiece, by simpa using List.ne_nil_of_mem hcpiece⟩)
      unfold namesOf
      dsimp only
      split
      · exact List.mem_append_left _ hin
      · exact hin
    right
    obtain hhere | hup := hnames _ hname
    · rw [show piece = ['.'] by simpa using congrArg String.toList hhere] at hcpiece
      simpa using hcpiece
    · rw [show piece = ['.', '.'] by simpa using congrArg String.toList hup] at hcpiece
      simpa using hcpiece

theorem exists_found_of_isOk {act : Except FileFault Place} {look : Place → Except FileFault Entry}
    (h : (act >>= look).isOk = true) (hlook : ∀ directory name, (look (.vacant directory name)).isOk = false) :
    ∃ r e, act = .ok (.found r e) := by
  rcases act with f | ⟨r, e⟩ | ⟨directory, name⟩
  · cases h
  · exact ⟨r, e, rfl⟩
  · exact absurd h (Bool.eq_false_iff.1 (hlook directory name))

/-- The root has no names in it. -/
theorem eq_nil_of_list_empty (h : (empty clock).list path = .ok names) : names = [] := by
  unfold list at h
  obtain ⟨place, -, h⟩ := exists_of_bind_ok h
  split at h <;> cases h
  rfl

end Files

namespace Glob

open Files (empty)

variable {clock : Instant} {dots only : Bool}

namespace Search

theorem idle_of_isThere_empty {path : String} (h : isThere ⟨empty clock, dots, only⟩ path = true) : Idle path := by
  unfold isThere at h
  rw [Bool.or_eq_true] at h
  rcases h with h | h
  · obtain ⟨r, e, hfound⟩ := Files.exists_found_of_isOk h fun _ _ => rfl
    exact Files.idle_of_locate_empty hfound
  · obtain ⟨r, e, hfound⟩ := Files.exists_found_of_isOk h fun _ _ => rfl
    exact Files.idle_of_locate_empty hfound

theorem listed_empty (path : String) : listed ⟨empty clock, dots, only⟩ path = [] := by
  unfold listed
  split
  · rename_i names hlist
    obtain rfl := Files.eq_nil_of_list_empty hlist
    simp
  · rfl

theorem idle_special {name : String} (h : name ∈ ["..", "."]) : Idle name := by
  rcases List.mem_pair.1 h with rfl | rfl <;> simp [Idle]

theorem idle_step {path name : String} (hpath : Idle path) (hname : Idle name) : Idle (step path name) := by
  unfold step
  split
  · exact hname
  · exact idle_join hpath hname

theorem idle_of_move_empty {known : String → Prop} {path name next : String} (hpath : Idle path)
    (h : Move ⟨empty clock, dots, only⟩ known path name next) : Idle next := by
  cases h with
  | looked _ hthere =>
    by_cases hspecial : (name == "." || name == "..") = true
    · exact idle_step hpath (idle_special (by simpa [or_comm] using hspecial))
    · rw [if_neg hspecial] at hthere
      exact idle_of_isThere_empty hthere
  | special hname => exact idle_join hpath (idle_special hname)
  | listed hname =>
    rw [listed_empty] at hname
    cases hname

/-- A search that starts at the root without files does not leave it. -/
theorem idle_of_mem_below_empty {depth : Nat} {parts : List Pattern} {path found : String} (hpath : Idle path)
    (h : found ∈ below ⟨empty clock, dots, only⟩ depth parts path) : Idle found := by
  obtain ⟨_, -, hvisits⟩ := visits_of_mem_below h
  exact hvisits.invariant hpath idle_of_move_empty

end Search

/-! ## Texts without wildcards -/

/-- It contains no character by which a pattern is searched for. -/
def NoWildcard (cs : List Char) : Prop := ∀ c ∈ cs, c ≠ '*' ∧ c ≠ '?' ∧ c ≠ '['

theorem literalChars?_of_noWildcard {cs : List Char} (h : NoWildcard cs) : literalChars? cs = some cs := by
  induction cs with
  | nil => rfl
  | cons c cs ih =>
    obtain ⟨⟨hstar, hquestion, hbracket⟩, hrest⟩ := List.forall_mem_cons.1 h
    rw [literalChars?, if_neg (by simp [hstar, hquestion, hbracket]), ih hrest]
    · rfl
    · rintro d rest rfl
      exact absurd rfl hbracket

/-- A pattern is read as a text of its length only if it has no wildcard. -/
theorem noWildcard_of_literalChars? {cs text : List Char} (h : literalChars? cs = some text) :
    text.length ≤ cs.length ∧ (text.length = cs.length → NoWildcard cs) := by
  induction cs using literalChars?.induct generalizing text with
  | case1 =>
    cases h
    exact ⟨Nat.le_refl _, fun _ => nofun⟩
  | case2 c rest hspecial ih =>
    rw [literalChars?, if_pos hspecial] at h
    obtain ⟨read, hread, rfl⟩ := Option.map_eq_some_iff.1 h
    have hle := (ih hread).1
    constructor
    · simp only [List.length_cons]
      omega
    · simp only [List.length_cons]
      omega
  | case3 c rest hspecial =>
    rw [literalChars?, if_neg hspecial] at h
    cases h
  | case4 c rest _ hwild =>
    rw [literalChars?, if_pos hwild] at h
    · cases h
    · assumption
  | case5 c rest _ hwild ih =>
    rw [literalChars?, if_neg hwild] at h
    · obtain ⟨read, hread, rfl⟩ := Option.map_eq_some_iff.1 h
      obtain ⟨hle, hplain⟩ := ih hread
      constructor
      · simpa using hle
      · intro hlength
        refine List.forall_mem_cons.2 ⟨?_, hplain (by simpa using hlength)⟩
        simpa [not_or, and_assoc] using hwild
    · assumption

theorem literal?_eq_some_iff_self {pattern : String} : literal? pattern = some pattern ↔ NoWildcard pattern.toList := by
  unfold literal?
  constructor
  · intro h
    obtain ⟨text, htext, rfl⟩ := Option.map_eq_some_iff.1 h
    exact (noWildcard_of_literalChars? htext).2 (by simp)
  · intro h
    rw [literalChars?_of_noWildcard h]
    exact congrArg some String.ofList_toList

/-! ## Patterns from the root -/

/-- A clean path from the root is its own pattern, wherever it is resolved. -/
theorem resolve_of_fromRoot {path : String} (h : Path.FromRoot path) (directory projectRoot : String) :
    resolve directory projectRoot path = path := by
  obtain ⟨rest, hpath, hrest⟩ := h.exists_eq_cons
  have hsingle {more : List Char} : '/' :: rest ≠ '/' :: '/' :: more := by
    rintro ⟨⟩
    exact hrest rfl
  have hkeep : rest.dropWhile (· == '/') = rest := by
    cases rest with
    | nil => rfl
    | cons c rest => exact List.dropWhile_cons_of_neg (by simpa using hrest)
  have henter : Path.enter projectRoot directory path = path := by
    unfold Path.enter
    rw [hpath]
    split
    · rename_i hdouble
      exact absurd hdouble hsingle
    · rename_i hroot
      cases hroot
      rw [hkeep, ← String.toList_inj, String.toList_append, hpath]
      simp
    · rename_i hroot
      exact absurd rfl (hroot rest)
  have hfull : Path.resolve directory projectRoot [path] = path := by
    unfold Path.resolve
    rw [List.foldl_cons, henter]
    exact h.clean_eq
  unfold resolve
  rw [hfull, hpath]
  split
  · rename_i hdouble
    exact absurd hdouble hsingle
  · rfl
  · rename_i hroot
    exact absurd rfl (hroot rest)

variable {files : Files} {directory pattern : String}

/-- A pattern without wildcards stands for a path, whatever the files are. -/
theorem pathsOf_of_literal {text : String} (h : literal? pattern = some text) :
    pathsOf files directory pattern = .ok [Path.join directory text] := by
  unfold pathsOf
  rw [h]

theorem join_of_isAbsolute {path : String} (h : Path.isAbsolute path = true) (directory : String) :
    Path.join directory path = path := by
  unfold Path.join
  rw [if_pos h]

theorem isAbsolute_of_literal? {text : String} (habs : Path.isAbsolute pattern = true)
    (h : literal? pattern = some text) : Path.isAbsolute text = true := by
  obtain ⟨read, hread, rfl⟩ := Option.map_eq_some_iff.1 h
  obtain ⟨rest, hrest⟩ := List.head?_eq_some_iff.1 (beq_iff_eq.1 habs)
  rw [hrest, literalChars?, if_neg (by decide)] at hread
  · obtain ⟨more, -, rfl⟩ := Option.map_eq_some_iff.1 hread
    simp [Path.isAbsolute]
  · nofun

theorem idle_of_mem_search {paths : List String} (h : search (empty clock) false pattern = .ok paths) :
    ∀ found ∈ paths, Idle found := by
  unfold search at h
  obtain ⟨_, -, h⟩ := exists_of_bind_ok h
  obtain ⟨parts, -, h⟩ := exists_of_bind_ok h
  cases h
  intro found hfound
  refine Search.idle_of_mem_below_empty ?_ hfound
  split <;> simp [Idle]

/-- **A text from the root stands for itself if it has no wildcard.** -/
theorem pathsOf_eq_self_iff (habs : Path.isAbsolute pattern = true) :
    (∀ files, pathsOf files directory pattern = .ok [pattern]) ↔ NoWildcard pattern.toList := by
  rw [← literal?_eq_some_iff_self]
  constructor
  · intro h
    have hempty := h (empty 0)
    cases hliteral : literal? pattern with
    | some text =>
      rw [pathsOf_of_literal hliteral, join_of_isAbsolute (isAbsolute_of_literal? habs hliteral)] at hempty
      cases hempty
      rfl
    | none =>
      -- without files nothing is found that has a wildcard in it
      unfold pathsOf at hempty
      rw [hliteral, if_pos habs] at hempty
      dsimp only at hempty
      split at hempty <;> cases hempty
      rename_i hsearch
      have hidle := idle_of_mem_search hsearch pattern List.mem_cons_self
      rw [← hliteral]
      refine literal?_eq_some_iff_self.2 fun c hc => ?_
      rcases hidle c hc with rfl | rfl <;> decide
  · intro h files
    rw [pathsOf_of_literal h, join_of_isAbsolute habs]

end Glob
end Taskwork
