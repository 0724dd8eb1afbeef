/-
Fragments without wildcards as patterns. The pattern of a fragment is the escaped directory that its path has in common
with where the fragment starts, and behind it the names that the fragment leads on by, as they are. These come from the
fragment, so where it has no wildcard the pattern is read as a text. The text is the path that the fragment leads to,
unless the directory ends with a backslash: it is taken for a separator then, and the slash behind it is left out.
-/
import Taskwork.Proofs.Glob.Escape
import Taskwork.Proofs.Glob.Literal
import Taskwork.Proofs.Path.Relative

namespace Taskwork.Glob

open Component (IsName)
open Taskwork.Path (FromRoot isAbsolute components commonPart ofComponents join clean isMove_of_mem_map)

variable {directory projectRoot fragment : String}

/-! ## Names that a fragment leads on by -/

/-- A character of a path that names are written to is a slash or comes from a name. -/
theorem mem_of_mem_ofComponents {names : List String} (hnames : ∀ n ∈ names, IsName n) {x : Char}
    (hx : x ∈ (ofComponents (names.map .name)).toList) : x = '/' ∨ ∃ n ∈ names, x ∈ n.toList := by
  cases names with
  | nil =>
    rw [List.map_nil] at hx
    cases hx
  | cons n names =>
    obtain ⟨hn, hrest⟩ := List.forall_mem_cons.1 (isMove_of_mem_map hnames)
    rw [List.map_cons, Path.toList_ofComponents hn hrest, List.mem_append] at hx
    rcases hx with hx | hx
    · exact .inr ⟨n, List.mem_cons_self, hx⟩
    · simp only [Path.written, List.flatMap_map, List.mem_flatMap, List.mem_cons] at hx
      obtain ⟨m, hm, rfl | hx⟩ := hx
      · exact .inl rfl
      · exact .inr ⟨m, List.mem_cons_of_mem _ hm, hx⟩

/-- Where a fragment starts from, unless it is written from the root. -/
def anchor? (directory projectRoot fragment : String) : Option String :=
  match fragment.toList with
  | '/' :: '/' :: _ => some (clean projectRoot)
  | '/' :: _ => none
  | _ => some (clean directory)

theorem anchor?_of_not_slash (h : ∀ rest, fragment.toList ≠ '/' :: rest) :
    anchor? directory projectRoot fragment = some (clean directory) := by
  unfold anchor?
  split
  · rename_i htext
    exact absurd htext (h _)
  · rename_i htext
    exact absurd htext (h _)
  · rfl

/-- A fragment is written behind where it starts from. -/
theorem exists_enter_eq_join (hdirectory : isAbsolute directory = true) (hroot : isAbsolute projectRoot = true)
    (fragment : String) : ∃ a b, Path.enter projectRoot directory fragment = join a b ∧ isAbsolute a = true ∧
      clean a = (anchor? directory projectRoot fragment).getD "/" ∧ ∀ x ∈ b.toList, x ∈ fragment.toList := by
  unfold Path.enter
  split
  · rename_i rest htext
    refine ⟨projectRoot, String.ofList rest, rfl, hroot, by simp [anchor?, htext], fun x hx => ?_⟩
    rw [htext]
    exact List.mem_cons_of_mem _ (List.mem_cons_of_mem _ (by simpa using hx))
  · rename_i rest hdouble htext
    have habs : isAbsolute ("/" ++ String.ofList (rest.dropWhile (· == '/'))) = true := by simp [isAbsolute]
    refine ⟨"/", _, (join_of_isAbsolute habs "/").symm, rfl, ?_, fun x hx => ?_⟩
    · unfold anchor?
      rw [htext]
      split
      · rename_i hslash
        exact absurd (List.cons.inj hslash).2 (hdouble _)
      · rfl
      · rename_i hslash
        exact absurd rfl (hslash rest)
    · rw [htext]
      have hcases : x = '/' ∨ x ∈ rest.dropWhile (· == '/') := by simpa using hx
      exact hcases.elim (fun hslash => hslash ▸ List.mem_cons_self)
        fun hrest => List.mem_cons_of_mem _ ((List.dropWhile_sublist _).mem hrest)
  · rename_i hroot
    exact ⟨directory, fragment, rfl, hdirectory, by simp [anchor?_of_not_slash hroot], fun _ hx => hx⟩

/-- The path of a fragment is taken apart behind what it has in common with where the fragment starts from. -/
structure Apart (directory projectRoot fragment : String) (shared down : List String) : Prop where
  isName : ∀ n ∈ shared ++ down, IsName n
  path : Path.resolve directory projectRoot [fragment] = ofComponents (.root :: (shared ++ down).map .name)
  common : commonPart (components ((anchor? directory projectRoot fragment).getD "/"))
    (components (Path.resolve directory projectRoot [fragment])) = .root :: shared.map .name
  /-- The names that follow are written in the fragment. -/
  written : ∀ n ∈ down, ∀ x ∈ n.toList, x ∈ fragment.toList

theorem exists_apart (hdirectory : isAbsolute directory = true) (hroot : isAbsolute projectRoot = true)
    (fragment : String) : ∃ shared down, Apart directory projectRoot fragment shared down := by
  have hpath := Path.fromRoot_resolve hdirectory hroot [fragment]
  obtain ⟨a, b, henter, ha, hanchor, hchars⟩ := exists_enter_eq_join hdirectory hroot fragment
  have hresolve : Path.resolve directory projectRoot [fragment] = clean (join a b) := congrArg clean henter
  rw [hresolve] at hpath
  obtain ⟨shared, down, hnames, htext, hsteps, hcommon⟩ :=
    FromRoot.exists_names (Path.fromRoot_clean_of_isAbsolute ha) hpath
  refine ⟨shared, down, hnames, hresolve.trans htext, by rw [hresolve, ← hanchor, hcommon], fun n hn x hx => ?_⟩
  have hdrop : Component.name n ∈ (components (clean (join a b))).drop
      (commonPart (components (clean a)) (components (clean (join a b)))).length := by
    rw [hcommon, hsteps]
    simpa using hn
  exact hchars x (Path.mem_of_mem_moves (Path.mem_moves_of_mem_drop_join ha hdrop) hx)

/-! ## Patterns of fragments -/

/-- How names follow a directory in a pattern. The slash is left out behind what ends with a separator, and a backslash
is taken for one. -/
def continued (directory : String) (down : List String) : String :=
  if down.isEmpty then ""
  else (if directory.toList.getLast? = some '/' ∨ directory.toList.getLast? = some '\\' then "" else "/") ++
    ofComponents (down.map .name)

/-- The deepest directory that two paths have in common. -/
def meeting (a b : String) : String := ofComponents (commonPart (components a) (components b))

/-- The path of the fragment leads on from the last directory that it has in common with where the fragment starts
from, and the name of this directory ends with a backslash. -/
def LosesSeparator (directory projectRoot fragment : String) : Prop :=
  let full := Path.resolve directory projectRoot [fragment]
  ∃ anchor ∈ anchor? directory projectRoot fragment,
    meeting anchor full ≠ full ∧ (meeting anchor full).toList.getLast? = some '\\'

instance : Decidable (LosesSeparator directory projectRoot fragment) :=
  inferInstanceAs (Decidable (∃ anchor ∈ anchor? directory projectRoot fragment, _))

theorem noWildcard_continued {kept : String} {down : List String} (hnames : ∀ n ∈ down, IsName n)
    (hdown : ∀ n ∈ down, NoWildcard n.toList) : NoWildcard (continued kept down).toList := by
  have hslash : '/' ≠ '*' ∧ '/' ≠ '?' ∧ '/' ≠ '[' := by decide
  intro x hx
  unfold continued at hx
  split at hx
  · cases hx
  · rw [String.toList_append, List.mem_append] at hx
    rcases hx with hx | hx
    · obtain rfl : x = '/' := by
        split at hx
        · cases hx
        · simpa using hx
      exact hslash
    · rcases mem_of_mem_ofComponents hnames hx with rfl | ⟨n, hn, hx⟩
      · exact hslash
      · exact hdown n hn x hx

/-- The names follow a directory as in a path, unless the directory ends with a backslash. -/
theorem append_continued_eq_iff {shared down : List String} (hnames : ∀ n ∈ shared ++ down, IsName n) :
    ofComponents (.root :: shared.map .name) ++ continued (ofComponents (.root :: shared.map .name)) down =
        ofComponents (.root :: (shared ++ down).map .name) ↔
      ¬(down ≠ [] ∧ (ofComponents (.root :: shared.map .name)).toList.getLast? = some '\\') := by
  by_cases hdown : down = []
  · subst hdown
    simp [continued]
  · rw [Path.ofComponents_append hnames hdown]
    generalize ofComponents (.root :: shared.map .name) = kept
    have hempty : down.isEmpty = false := by simpa using hdown
    unfold continued
    rw [hempty, if_neg Bool.false_ne_true]
    by_cases hslash : kept.toList.getLast? = some '/'
    · simp [hslash]
    · by_cases hback : kept.toList.getLast? = some '\\'
      · -- the path is longer by the slash
        simp [hdown, hback, ← String.toList_inj]
      · simp [hslash, hback, String.append_assoc]

theorem literal?_escape_append {kept rest : String} (h : NoWildcard rest.toList) :
    literal? (escape kept ++ rest) = some (kept ++ rest) := by
  have hread := literalChars?_escapeChars_append kept.toList rest.toList
  rw [literalChars?_of_noWildcard h] at hread
  rw [literal?, escape, String.toList_append, String.toList_ofList, hread, Option.map_some, Option.map_some,
    ← String.toList_append, String.ofList_toList]

namespace Apart

variable {shared down : List String}

theorem components_path (h : Apart directory projectRoot fragment shared down) :
    components (Path.resolve directory projectRoot [fragment]) = .root :: (shared ++ down).map .name := by
  rw [h.path, Path.components_ofComponents_root (isMove_of_mem_map h.isName)]

theorem fromRoot_shared (h : Apart directory projectRoot fragment shared down) :
    FromRoot (ofComponents (.root :: shared.map .name)) :=
  ⟨shared, fun n hn => h.isName n (List.mem_append_left down hn), rfl⟩

theorem noWildcard (h : Apart directory projectRoot fragment shared down) (hplain : NoWildcard fragment.toList)
    (kept : String) : NoWildcard (continued kept down).toList :=
  noWildcard_continued (fun n hn => h.isName n (List.mem_append_right _ hn))
    fun n hn x hx => hplain x (h.written n hn x hx)

/-- Nothing is in common with where a fragment starts from that is written from the root. -/
theorem eq_nil_of_none (h : Apart directory projectRoot fragment shared down)
    (hanchor : anchor? directory projectRoot fragment = none) : shared = [] := by
  have hroot : components "/" = .root :: ([] : List String).map .name := rfl
  have hcommon := h.common
  rw [hanchor, Option.getD_none, hroot, h.components_path, Path.commonPart_root] at hcommon
  simpa [commonPart] using hcommon.symm

/-- What is in common is escaped, and the names that follow are written as they are. -/
theorem resolve_eq (h : Apart directory projectRoot fragment shared down) :
    resolve directory projectRoot fragment = escape (ofComponents (.root :: shared.map .name)) ++
      continued (ofComponents (.root :: shared.map .name)) down := by
  unfold resolve
  dsimp only
  split
  · -- the root has nothing to escape
    rename_i hnone
    have hpath := h.path
    have hnames := h.isName
    obtain rfl := h.eq_nil_of_none hnone
    have hlast : ¬(down ≠ [] ∧ "/".toList.getLast? = some '\\') := by
      rintro ⟨-, hlast⟩
      cases hlast
    exact hpath.trans ((append_continued_eq_iff hnames).2 hlast).symm
  · rename_i anchor hsome
    have hanchor : anchor? directory projectRoot fragment = some anchor := hsome
    have hcommon := h.common
    have hrest : (components (Path.resolve directory projectRoot [fragment])).drop
        (Component.root :: shared.map Component.name).length = down.map .name := by
      simp [h.components_path]
    rw [hanchor, Option.getD_some] at hcommon
    rw [hcommon, hrest]
    generalize ofComponents (.root :: shared.map .name) = kept
    unfold continued
    cases down with
    | nil => simp
    | cons n down => simp [escape, getLast?_escapeChars, isSpecial, String.append_assoc]

/-- Escaping is undone. -/
theorem literal?_resolve (h : Apart directory projectRoot fragment shared down) (hplain : NoWildcard fragment.toList) :
    literal? (resolve directory projectRoot fragment) = some (ofComponents (.root :: shared.map .name) ++
      continued (ofComponents (.root :: shared.map .name)) down) := by
  rw [h.resolve_eq]
  exact literal?_escape_append (h.noWildcard hplain _)

theorem losesSeparator_iff (h : Apart directory projectRoot fragment shared down) :
    LosesSeparator directory projectRoot fragment ↔
      down ≠ [] ∧ (ofComponents (.root :: shared.map .name)).toList.getLast? = some '\\' := by
  cases hanchor : anchor? directory projectRoot fragment with
  | none =>
    obtain rfl := h.eq_nil_of_none hanchor
    refine iff_of_false ?_ ?_
    · rintro ⟨anchor, hsome, -⟩
      rw [hanchor] at hsome
      cases hsome
    · rintro ⟨-, hlast⟩
      cases hlast
  | some anchor =>
    have hcommon := h.common
    rw [hanchor, Option.getD_some] at hcommon
    have hmeeting : meeting anchor (Path.resolve directory projectRoot [fragment]) =
        ofComponents (.root :: shared.map .name) := by
      unfold meeting
      rw [hcommon]
    have hwhole : ofComponents (.root :: shared.map .name) = Path.resolve directory projectRoot [fragment] ↔
        down = [] := by
      constructor
      · intro heq
        have hread := Path.components_ofComponents_root
          (isMove_of_mem_map fun n hn => h.isName n (List.mem_append_left down hn))
        rw [heq, h.components_path] at hread
        simpa using hread
      · rintro rfl
        rw [h.path, List.append_nil]
    simp [LosesSeparator, hanchor, hmeeting, hwhole]

end Apart

/-- **A fragment without wildcards stands for the path it leads to, unless a separator is lost.** From any absolute
directory in any absolute project, whatever characters are in their names: the pattern of a fragment stands for the
path of the fragment and no other, whatever the files are and wherever it is resolved, exactly if the path does not
lead on from a common directory whose name ends with a backslash. -/
theorem literal_fragments_resolve_iff (files : Files) (seenFrom : String) (hdirectory : isAbsolute directory = true)
    (hroot : isAbsolute projectRoot = true) (hplain : ∀ c ∈ fragment.toList, c ≠ '*' ∧ c ≠ '?' ∧ c ≠ '[') :
    pathsOfAll files seenFrom [resolve directory projectRoot fragment] =
        .ok [Path.resolve directory projectRoot [fragment]] ↔
      ¬LosesSeparator directory projectRoot fragment := by
  obtain ⟨shared, down, hapart⟩ := exists_apart hdirectory hroot fragment
  have hread := hapart.literal?_resolve hplain
  rw [hapart.losesSeparator_iff, ← append_continued_eq_iff hapart.isName, ← hapart.path]
  have habs : isAbsolute (ofComponents (.root :: shared.map .name) ++
      continued (ofComponents (.root :: shared.map .name)) down) = true := by
    obtain ⟨rest, hrest, -⟩ := hapart.fromRoot_shared.exists_eq_cons
    simp [isAbsolute, hrest]
  simp [pathsOfAll, pathsOf_of_literal hread, join_of_isAbsolute habs]

/-- Brackets stand in the directory and in the fragment, which climbs out of the directory. -/
theorem bracketed_fragment_resolves :
    isAbsolute "/w/p[1]/s" = true ∧ isAbsolute "/w/p[1]" = true ∧
      (∀ c ∈ "../a]/./x".toList, c ≠ '*' ∧ c ≠ '?' ∧ c ≠ '[') ∧
      ¬LosesSeparator "/w/p[1]/s" "/w/p[1]" "../a]/./x" ∧
      Path.resolve "/w/p[1]/s" "/w/p[1]" ["../a]/./x"] = "/w/p[1]/a]/x" ∧
      pathsOfAll (.empty 0) "/s" [resolve "/w/p[1]/s" "/w/p[1]" "../a]/./x"] = .ok ["/w/p[1]/a]/x"] := by
  have hplain : ∀ c ∈ "../a]/./x".toList, c ≠ '*' ∧ c ≠ '?' ∧ c ≠ '[' := by simp
  have hkeeps : ¬LosesSeparator "/w/p[1]/s" "/w/p[1]" "../a]/./x" := by decide +kernel
  have hpath : Path.resolve "/w/p[1]/s" "/w/p[1]" ["../a]/./x"] = "/w/p[1]/a]/x" := by decide +kernel
  have hpaths := (literal_fragments_resolve_iff (.empty 0) "/s" rfl rfl hplain).2 hkeeps
  rw [hpath] at hpaths
  exact ⟨rfl, rfl, hplain, hkeeps, hpath, hpaths⟩

/-- Behind a directory `p\` the name `x` is written without a slash. -/
theorem backslash_directory_loses_separator :
    isAbsolute "/p\\" = true ∧ isAbsolute "/" = true ∧ (∀ c ∈ "x".toList, c ≠ '*' ∧ c ≠ '?' ∧ c ≠ '[') ∧
      LosesSeparator "/p\\" "/" "x" ∧ Path.resolve "/p\\" "/" ["x"] = "/p\\/x" ∧
      pathsOfAll (.empty 0) "/" [resolve "/p\\" "/" "x"] = .ok ["/p\\x"] :=
  ⟨rfl, rfl, by simp, by decide +kernel, by decide +kernel, by decide +kernel⟩

end Taskwork.Glob
