/-
The names of declared tasks. All tasks that a recipe is given have names of their own, whether they can be
seen or not, and the registry holds those that can be seen (`Draft.Lists`). Each turn keeps this, so it is true
of every recipe. A generated name is no name of a task before, so a task without a name is never refused for
the name it gets.
-/
import Mathlib.Data.List.Perm.Subperm
import Taskwork.Program.Sample
import Taskwork.Proofs.Recipe.Declared
import Taskwork.Proofs.Recipe.Turns
import Taskwork.Text.Hex

namespace Taskwork

theorem Task.checkDeclaration_eq_ok_iff {t : Task} {declared : List String} :
    t.checkDeclaration declared = .ok () ↔ t.name ≠ Task.reservedName ∧ t.name ∉ declared := by
  unfold checkDeclaration
  by_cases hreserved : t.name = reservedName
  · simp [hreserved]
  · by_cases hdeclared : t.name ∈ declared <;> simp [hreserved, hdeclared]

namespace Recipe

/-! ## Generated names -/

namespace Draft

/-- The number that hexadecimal digits stand for. -/
def hexValue (digits : List Char) : Nat := digits.foldl (fun n c => 16 * n + (Text.Hex.digit? c).getD 0) 0

theorem hexValue_append_digit (digits : List Char) (c : Char) :
    hexValue (digits ++ [c]) = 16 * hexValue digits + (Text.Hex.digit? c).getD 0 := by
  rw [hexValue, List.foldl_append]
  rfl

theorem digit?_digitChar : ∀ d < 16, Text.Hex.digit? d.digitChar = some d := by decide

theorem hexValue_toDigits (n : Nat) : hexValue (Nat.toDigits 16 n) = n := by
  induction n using Nat.strongRecOn with
  | ind n ih =>
    by_cases hn : n < 16
    · rw [Nat.toDigits_of_lt_base hn]
      simp [hexValue, digit?_digitChar n hn]
    · rw [Nat.toDigits_of_base_le (by decide) (by omega), hexValue_append_digit, ih _ (by omega),
        digit?_digitChar _ (Nat.mod_lt n (by decide))]
      exact Nat.div_add_mod n 16

theorem hexValue_zeros (count : Nat) (digits : List Char) :
    hexValue (List.replicate count '0' ++ digits) = hexValue digits := by
  induction count with
  | zero => rfl
  | succ count ih => exact ih

theorem generatedName_injective : Function.Injective generatedName := by
  intro m n h
  unfold generatedName at h
  have hdigits := String.ofList_injective (String.append_right_inj _ |>.1 h)
  simpa only [hexValue_zeros, hexValue_toDigits] using congrArg hexValue hdigits

theorem generatedName_ne_reservedName (n : Nat) : generatedName n ≠ Task.reservedName := by
  intro h
  have hchars := congrArg String.toList h
  simp [generatedName, Task.anonymousMark, Task.reservedName] at hchars

/-- There are more candidates than tasks, so one of them is found. -/
theorem freshName_spec (d : Draft) : (∃ n, d.freshName = generatedName n) ∧ d.freshName ∉ d.taskNames := by
  let candidates := (List.range (d.taskNames.length + 1)).map fun i => generatedName (d.taskNames.length + i)
  have hfree : ∃ name ∈ candidates, name ∉ d.taskNames := by
    -- were they all taken, there would be more names than tasks
    by_contra! hall
    have hnodup : candidates.Nodup :=
      List.nodup_range.map fun i j hij => Nat.add_left_cancel (generatedName_injective hij)
    have hle := (hnodup.subperm hall).length_le
    simp only [candidates, List.length_map, List.length_range] at hle
    omega
  obtain ⟨name, hname⟩ : ∃ name, candidates.find? (fun name => !d.taskNames.contains name) = some name := by
    rw [← Option.isSome_iff_exists, List.find?_isSome]
    simpa using hfree
  have hfresh : d.freshName = name := by
    unfold freshName
    exact congrArg (·.getD Task.anonymousMark) hname
  obtain ⟨i, -, hi⟩ := List.mem_map.1 (List.mem_of_find?_eq_some hname)
  rw [hfresh]
  exact ⟨⟨_, hi.symm⟩, by simpa using List.find?_some hname⟩

/-- A task is not refused for a name that was generated for it. -/
theorem checkDeclaration_freshName (d : Draft) {t : Task} (h : t.name = d.freshName) :
    t.checkDeclaration d.taskNames = .ok () := by
  obtain ⟨⟨n, hn⟩, hfresh⟩ := d.freshName_spec
  rw [Task.checkDeclaration_eq_ok_iff, h]
  exact ⟨hn ▸ generatedName_ne_reservedName n, hfresh⟩

/-! ## Tasks that were declared -/

/-- The draft has the names of these tasks, which are theirs alone, and those of them in its registry that can be
seen. -/
structure Lists (d : Draft) (ts : List Task) : Prop where
  names : d.taskNames = ts.map (·.name)
  registry : d.registry.tasks = ts.filter (·.visible)
  nodup : (ts.map (·.name)).Nodup
  unreserved : Task.reservedName ∉ ts.map (·.name)

namespace Lists

variable {d d' : Draft} {ts : List Task} {t : Task}

theorem empty (hnames : d.taskNames = []) (hregistry : d.registry.tasks = []) : d.Lists [] :=
  ⟨hnames, hregistry, List.nodup_nil, List.not_mem_nil⟩

theorem congr (h : d.Lists ts) (hnames : d'.taskNames = d.taskNames) (hregistry : d'.registry = d.registry) :
    d'.Lists ts := ⟨hnames ▸ h.names, hregistry ▸ h.registry, h.nodup, h.unreserved⟩

/-- The registry has no names that were not declared. -/
theorem names_subset (h : d.Lists ts) : d.registry.names ⊆ d.taskNames := by
  rw [h.names, Registry.names, h.registry]
  exact List.map_subset _ (List.filter_subset_self ts)

/-- A task that may have its name is not given back by the registry. -/
theorem insert (h : d.Lists ts) (hcheck : t.checkDeclaration d.taskNames = .ok ()) :
    d.registry.insert t = .ok { d.registry with tasks := d.registry.tasks ++ [t] } :=
  Registry.insert_of_not_mem fun hname => (Task.checkDeclaration_eq_ok_iff.1 hcheck).2 (h.names_subset hname)

/-- So it is declared. -/
theorem declareTask (h : d.Lists ts) {rows : List (String × Value)} (ht : d.taskOf rows = .ok t)
    (hcheck : t.checkDeclaration d.taskNames = .ok ()) : ∃ d', d.declareTask rows = .ok (d', t) := by
  obtain ⟨d', hd'⟩ : ∃ d', d.admit? t = .ok d' := by
    unfold admit?
    rw [hcheck]
    by_cases hvisible : t.visible
    · exact ⟨_, by simp only [hvisible, h.insert hcheck]; rfl⟩
    · exact ⟨_, by simp only [hvisible]; rfl⟩
  refine ⟨d', ?_⟩
  unfold Draft.declareTask
  rw [ht]
  show (do return (← (d.admit? t).mapError (TaskFault.declaration t.name), t)) = Except.ok (d', t)
  rw [hd']
  rfl

theorem accept (h : d.Lists ts) (haccepted : d.admit? t = .ok d') : d'.Lists (ts ++ [t]) := by
  obtain ⟨hcheck, hdraft⟩ := admit?_cases haccepted
  obtain ⟨hreserved, hfresh⟩ := Task.checkDeclaration_eq_ok_iff.1 hcheck
  rw [h.names] at hfresh
  have hnodup : ((ts ++ [t]).map (·.name)).Nodup := by
    rw [List.map_append, List.map_singleton, ← List.concat_eq_append]
    exact h.nodup.concat hfresh
  have hunreserved : Task.reservedName ∉ (ts ++ [t]).map (·.name) := by
    rw [List.map_append, List.map_singleton, List.mem_append, List.mem_singleton]
    exact fun hmem => hmem.elim h.unreserved (hreserved ·.symm)
  rcases hdraft with ⟨hhidden, rfl⟩ | ⟨hvisible, -, rfl⟩
  · exact ⟨by simp [h.names], by simp [h.registry, hhidden], hnodup, hunreserved⟩
  · exact ⟨by simp [h.names], by simp [h.registry, hvisible], hnodup, hunreserved⟩

end Lists
end Draft

namespace Turns

variable {h : Shell.Handlers} {m m' : Machine} {ts more : List Task}

/-- A turn adds the tasks that are given in it. -/
theorem lists_turn (hlists : m.draft.Lists ts) (turn : Turn h m more m') : m'.draft.Lists (ts ++ more) := by
  cases turn with
  | task rows pos =>
    obtain ⟨f, -, hrefused⟩ | ⟨t, d, hdeclared, hgiven, hdraft⟩ := Builtin.task_cases rows pos m
    · -- a call that is refused leaves the machine as it was
      rw [hrefused, Eval.given_error, List.append_nil]
      exact hlists
    · rw [hgiven, Eval.given_task, hdraft]
      exact hlists.accept (Draft.declareTask_cases hdeclared).2
  | call hname hact =>
    -- no other function has a part in names and registry
    rw [List.append_nil]
    obtain ⟨o, -, rfl⟩ | ⟨rows, htask, -⟩ | ⟨-, -, haside⟩ := Builtin.call?_cases hact
    · obtain ⟨options, hdraft⟩ := Builtin.option_cases o _ m
      exact hlists.congr (by rw [hdraft]) (by rw [hdraft])
    · exact absurd htask hname
    · obtain ⟨env, documents, hdraft⟩ := haside m
      exact hlists.congr (by rw [hdraft]) (by rw [hdraft])
  | compute hdraft =>
    rw [List.append_nil, hdraft]
    exact hlists
  | begin_ =>
    rw [List.append_nil]
    exact hlists.congr rfl rfl

theorem lists (hstart : m.draft.Lists []) (turns : Turns h m ts m') : m'.draft.Lists ts := by
  induction turns with
  | none => exact hstart
  | snoc _ turn ih => exact lists_turn ih turn

end Turns

/-- The registry that a recipe gives lists tasks that were declared. -/
theorem lists_of_evaluateText {h : Shell.Handlers} {site : Site} {given : Table} {optionsOnly : Bool} {text : String}
    {host host' : Host} {e : Evaluation} (heval : evaluateText h site given optionsOnly text host = (host', .ok e)) :
    ∃ (d : Draft) (ts : List Task), d.Lists ts ∧ e.registry = d.registry.setEnv d.env := by
  obtain ⟨ts, m, turns, hregistry, -⟩ := turns_of_evaluateText heval
  exact ⟨m.draft, ts, turns.lists (.empty rfl rfl), hregistry⟩

/-! ## Calls in a row -/

/-- The machine after some calls of `task`, of which those that fail are passed over, and the tasks they give. -/
def declareAll (m : Machine) : List (List (String × Value)) → List Task × Machine
  | [] => ([], m)
  | rows :: rest =>
    let (result, m) := Builtin.task rows .none m
    let (ts, m) := declareAll m rest
    (Eval.given result ++ ts, m)

theorem Turns.declareAll (h : Shell.Handlers) :
    ∀ (calls : List (List (String × Value))) (m : Machine), Turns h m (declareAll m calls).1 (declareAll m calls).2
  | [], _ => .none
  | rows :: rest, m => (Turns.single (.task rows .none m)).trans (Turns.declareAll h rest _)

/-- The tasks that a recipe is given have names of their own, none of them the reserved one. Those of them that can
be seen are the tasks of the registry, which gives back no task whose declaration was found to be right, so that such
a task is given indeed; a generated name never makes it wrong. A call that fails changes nothing. -/
theorem declared_names_distinct {h : Shell.Handlers} {start m : Machine} {ts : List Task}
    (hnames : start.draft.taskNames = []) (hregistry : start.draft.registry.tasks = []) (turns : Turns h start ts m) :
    (ts.map (·.name)).Nodup ∧ Task.reservedName ∉ ts.map (·.name) ∧
      m.draft.registry.tasks = ts.filter (·.visible) ∧ m.draft.taskNames = ts.map (·.name) ∧
      (∀ t : Task, t.checkDeclaration m.draft.taskNames = .ok () → ∃ r, m.draft.registry.insert t = .ok r) ∧
      (∀ rows pos t, m.draft.taskOf rows = .ok t → t.checkDeclaration m.draft.taskNames = .ok () →
        (Builtin.task rows pos m).1 = .ok (.task t)) ∧
      (∀ t : Task, t.name = m.draft.freshName → t.checkDeclaration m.draft.taskNames = .ok ()) ∧
      ∀ rows pos stop, (Builtin.task rows pos m).1 = .error stop → (Builtin.task rows pos m).2 = m := by
  have hlists := turns.lists (.empty hnames hregistry)
  refine ⟨hlists.nodup, hlists.unreserved, hlists.registry, hlists.names, fun t ht => ⟨_, hlists.insert ht⟩,
    fun rows pos t ht hcheck => ?_, fun t ht => m.draft.checkDeclaration_freshName ht, fun rows pos stop hstop => ?_⟩
  · obtain ⟨d', hd'⟩ := hlists.declareTask ht hcheck
    obtain ⟨f, hf, -⟩ | ⟨u, d, hdeclared, hgiven, -⟩ := Builtin.task_cases rows pos m
    · rw [hd'] at hf
      cases hf
    · rw [hd'] at hdeclared
      cases hdeclared
      exact hgiven
  · obtain ⟨f, -, hrefused⟩ | ⟨t, d, -, hgiven, -⟩ := Builtin.task_cases rows pos m
    · rw [hrefused]
    · rw [hgiven] at hstop
      cases hstop

/-- A machine that configures a project. -/
def configuring : Machine := ⟨{ Draft.initial ⟨"/tasks", "/"⟩ [] with phase := .configuring }, default, []⟩

/-- A visible task, a second one of its name, a hidden one, one without a name, one of the reserved name, and another
visible one. -/
def sixCalls : List (List (String × Value)) :=
  [[("short", .text "a")], [("hidden", .bool true), ("short", .text "a")], [("hidden", .bool true), ("short", .text "b")],
    [], [("short", .text "configure")], [("short", .text "c")]]

theorem declared_names_distinct_sixCalls :
    (declareAll configuring sixCalls).1.map (·.name) = ["a", "b", "auto#00000000000000000000000000000002", "c"] ∧
      (declareAll configuring sixCalls).2.draft.registry.names = ["a", "c"] ∧
      (Builtin.task [("short", .text "b")] .none (declareAll configuring sixCalls).2).2 =
        (declareAll configuring sixCalls).2 := by
  have hturns := Turns.declareAll ⟨Program.Sample.exec, Shell.Handlers.openDirect⟩ sixCalls configuring
  obtain ⟨-, -, hregistry, -, -, -, -, hkept⟩ := declared_names_distinct rfl rfl hturns
  refine ⟨by decide +kernel, ?_, ?_⟩
  · rw [Registry.names, hregistry]
    decide +kernel
  · have hrefused : (Builtin.task [("short", .text "b")] .none (declareAll configuring sixCalls).2).1.isOk = false := by
      decide +kernel
    rcases hend : (Builtin.task [("short", .text "b")] .none (declareAll configuring sixCalls).2).1 with stop | v
    · exact hkept _ _ stop hend
    · rw [hend] at hrefused
      cases hrefused

end Recipe
end Taskwork
