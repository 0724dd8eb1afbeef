/-
Path values as patterns. A path that `resolve_path` gives is clean, and a task keeps it as it is among its patterns,
whatever the directory of the task. But what is kept is its text, and in it the characters of a directory or file
name that are wildcards in a pattern are wildcards: the pattern stands for the path, and only for it, if the path has
none of them.
-/
import Mathlib
import Taskwork.Proofs.Glob.Literal
import Taskwork.Proofs.Recipe.Names

namespace Taskwork.Recipe

/-! ## Paths that a recipe is given -/

/-- A call of `resolve_path` is one of two kinds. -/
theorem Builtin.resolve_path_cases {h : Shell.Handlers} {args : List Value} {pos : Pos} {act : Eval Value}
    (hact : call? h "resolve_path" args pos = some act) :
    (∃ fragments, act = resolve fragments) ∨ ∃ parts rows, act = resolvePath parts rows pos := by
  unfold call? at hact
  split at hact <;> cases hact
  case h_4 | h_5 | h_6 => exact .inl ⟨_, rfl⟩
  case h_7 | h_8 => exact .inr ⟨_, _, rfl⟩
  all_goals
    rename_i hname
    exact absurd hname (by decide)

/-- The path that fragments lead to, if it is absolute, is clean and from the root. -/
theorem fromRoot_resolvedPath {site : Site} {parts : List Value} {rows : List (String × Value)} {path : String}
    (h : Builtin.resolvedPath site parts rows = .ok path) (habs : Path.isAbsolute path = true) :
    Path.FromRoot path := by
  unfold Builtin.resolvedPath at h
  dsimp only at h
  split at h
  · cases h
  obtain ⟨fragments, -, h⟩ := exists_of_bind_ok h
  obtain ⟨base, -, h⟩ := exists_of_bind_ok h
  cases base with
  | none =>
    cases h
    exact Path.fromRoot_clean habs
  | some base =>
    -- what is seen from a base is not absolute
    dsimp only at h
    split at h <;> cases h
    rename_i hrelative
    rw [Path.not_isAbsolute_of_relative? hrelative] at habs
    cases habs

/-- An absolute path that a recipe is given by `resolve_path` is clean and from the root. -/
theorem Builtin.fromRoot_resolve_path {h : Shell.Handlers} {args : List Value} {pos : Pos} {act : Eval Value}
    {m m' : Machine} {path : String} (hact : call? h "resolve_path" args pos = some act)
    (hgives : act m = (.ok (.path path), m')) (habs : Path.isAbsolute path = true) : Path.FromRoot path := by
  obtain ⟨fragments, rfl⟩ | ⟨parts, rows, rfl⟩ := resolve_path_cases hact
  · cases hgives
    exact Path.fromRoot_clean habs
  · unfold resolvePath at hgives
    rw [Eval.draft_bind] at hgives
    rcases hpath : resolvedPath m.draft.site parts rows with f | found <;> rw [hpath] at hgives <;> cases hgives
    exact fromRoot_resolvedPath hpath habs

/-! ## Patterns of a described task -/

theorem exists_getElem?_of_mapM_ok {ε α β : Type} {f : α → Except ε β} {as : List α} {bs : List β}
    (h : as.mapM f = .ok bs) {i : Nat} {a : α} (ha : as[i]? = some a) : ∃ b, f a = .ok b ∧ bs[i]? = some b := by
  induction as generalizing bs i with
  | nil => simp at ha
  | cons first rest ih =>
    rw [List.mapM_cons] at h
    obtain ⟨b, hb, h⟩ := exists_of_bind_ok h
    obtain ⟨more, hmore, h⟩ := exists_of_bind_ok h
    cases h
    cases i with
    | zero =>
      obtain rfl : first = a := by simpa using ha
      exact ⟨b, hb, rfl⟩
    | succ i => exact ih hmore ha

/-- A path in a list is among the texts of the list as it is. -/
theorem TaskKeys.getElem?_texts {rows : List (String × Value)} {key : String} {items : List Value}
    {fragments : List String} {i : Nat} {path : String} (h : texts rows key = .ok fragments)
    (hitems : Value.lookup key rows = some (.array items)) (hitem : items[i]? = some (.path path)) :
    fragments[i]? = some path := by
  unfold texts at h
  rw [hitems] at h
  dsimp only at h
  rcases htexts : (Value.array items).texts key with f | found <;> rw [htexts] at h <;> cases h
  obtain ⟨text, htext, hfound⟩ := exists_getElem?_of_mapM_ok htexts hitem
  cases htext
  exact hfound

/-- The patterns of a described task, by the key that they were given under. -/
def patternsOf (t : Task) : List (String × List String) :=
  [("skip_if_exists", t.skipIfExists), ("inputs", t.inputs), ("outputs", t.outputs)]

/-- The patterns of a task are the texts under their keys, resolved from its directory. -/
theorem Draft.taskOf_patterns {d : Draft} {rows : List (String × Value)} {t : Task} (h : d.taskOf rows = .ok t) :
    ∀ row ∈ patternsOf t, ∃ fragments, TaskKeys.texts rows row.1 = .ok fragments ∧
      row.2 = fragments.map (Glob.resolve t.base d.site.projectRoot) := by
  unfold Draft.taskOf at h
  dsimp only at h
  split at h
  · cases h
  split at h
  · cases h
  obtain ⟨short, -, h⟩ := exists_of_bind_ok h
  obtain ⟨hidden, -, h⟩ := exists_of_bind_ok h
  obtain ⟨base, -, h⟩ := exists_of_bind_ok h
  obtain ⟨description, -, h⟩ := exists_of_bind_ok h
  obtain ⟨deps, -, h⟩ := exists_of_bind_ok h
  obtain ⟨skipIfExists, hskip, h⟩ := exists_of_bind_ok h
  obtain ⟨inputs, hinputs, h⟩ := exists_of_bind_ok h
  obtain ⟨outputs, houtputs, h⟩ := exists_of_bind_ok h
  obtain ⟨env, -, h⟩ := exists_of_bind_ok h
  obtain ⟨cmds, -, h⟩ := exists_of_bind_ok h
  cases h
  rintro row hrow
  simp only [patternsOf, List.mem_cons, List.not_mem_nil, or_false] at hrow
  rcases hrow with rfl | rfl | rfl
  · exact ⟨skipIfExists, hskip, rfl⟩
  · exact ⟨inputs, hinputs, rfl⟩
  · exact ⟨outputs, houtputs, rfl⟩

/-- **A path value among the patterns of a task stands for its path if no name in it has a wildcard.** An absolute
path that a recipe was given by `resolve_path` is kept as it is among the inputs, outputs or skip list of any task,
whatever its directory and the root of the project. As a pattern it stands for this path and no other, whatever the
files are, if it contains no `*`, no `?` and no `[`, and only then. -/
theorem path_values_name_themselves_iff {h : Shell.Handlers} {args : List Value} {pos : Pos} {act : Eval Value}
    {m m' : Machine} {path : String} (hact : Builtin.call? h "resolve_path" args pos = some act)
    (hgives : act m = (.ok (.path path), m')) (habs : Path.isAbsolute path = true) {d : Draft}
    {rows : List (String × Value)} {t : Task} (htask : d.taskOf rows = .ok t) {key : String} {patterns : List String}
    (hkey : (key, patterns) ∈ patternsOf t) {items : List Value} (hitems : Value.lookup key rows = some (.array items))
    {i : Nat} (hitem : items[i]? = some (.path path)) :
    patterns[i]? = some path ∧
      ((∀ fs, Glob.pathsOf fs t.base path = .ok [path]) ↔ ∀ c ∈ path.toList, c ≠ '*' ∧ c ≠ '?' ∧ c ≠ '[') := by
  have hroot := Builtin.fromRoot_resolve_path hact hgives habs
  constructor
  · obtain ⟨fragments, htexts, hpatterns⟩ := Draft.taskOf_patterns htask (key, patterns) hkey
    dsimp only at htexts hpatterns
    rw [hpatterns, List.getElem?_map, TaskKeys.getElem?_texts htexts hitems hitem, Option.map_some,
      Glob.resolve_of_fromRoot hroot]
  · exact Glob.pathsOf_eq_self_iff habs

/-- A path that a recipe at the root is given by `resolve_path`, as an output of a task. -/
def outputRows (path : String) : List (String × Value) := [("short", .text "t"), ("outputs", .array [.path path])]

/-- The task that is described so. -/
def outputTask (path : String) : Task := { Task.empty "t" "/" with outputs := [path] }

theorem outputs_plain_path :
    Builtin.resolve ["a]"] configuring = (.ok (.path "/a]"), configuring) ∧
      configuring.draft.taskOf (outputRows "/a]") = .ok (outputTask "/a]") ∧
      ∀ fs, Glob.pathsOf fs (outputTask "/a]").base "/a]" = .ok ["/a]"] := by
  have hgives : Builtin.resolve ["a]"] configuring = (.ok (.path "/a]"), configuring) := by cbv
  have htask : configuring.draft.taskOf (outputRows "/a]") = .ok (outputTask "/a]") := by cbv
  have hact : Builtin.call? ⟨Program.Sample.exec, Shell.Handlers.openDirect⟩ "resolve_path" [.text "a]"] .none =
      some (Builtin.resolve ["a]"]) := rfl
  have hkey : ("outputs", ["/a]"]) ∈ patternsOf (outputTask "/a]") := by simp [patternsOf, outputTask]
  have hitem : [Value.path "/a]"][0]? = some (.path "/a]") := rfl
  obtain ⟨-, hnames⟩ := path_values_name_themselves_iff hact hgives rfl htask hkey rfl hitem
  exact ⟨hgives, htask, hnames.2 (by simp)⟩

/-- There is something at a path with a bracket, and the path is not found as an output. -/
theorem outputs_bracketed_path :
    Builtin.resolve ["a[1]"] configuring = (.ok (.path "/a[1]"), configuring) ∧
      configuring.draft.taskOf (outputRows "/a[1]") = .ok (outputTask "/a[1]") ∧
      ((Files.empty 0).put ["a[1]"] .void).exists? "/a[1]" = true ∧
      Glob.pathsOf ((Files.empty 0).put ["a[1]"] .void) (outputTask "/a[1]").base "/a[1]" = .ok [] :=
  ⟨by cbv, by cbv, by cbv, by cbv⟩

end Taskwork.Recipe
