/-
The options of a recipe. A recipe asks for an option and is given a value at once; what it is configured with is a
table that is made later, from the options declared by then. Of two declarations of one name the first one counts,
but only for the table: each call gives the default that stands in it. So a value that a recipe was given agrees with
the table if it was given for the recipe, or if the first declaration of its name has the same default.
-/
import Taskwork.Program.Sample
import Taskwork.Proofs.Recipe.Declared
import Taskwork.Proofs.Recipe.Turns
import Taskwork.Proofs.Table

namespace Taskwork.Recipe

open Stateful (Keeps)

/-! ## Asking -/

/-- The option that a call of `option` was about and the value it gave, if it was not refused. -/
def Eval.answered (o : OptionDeclaration) : Except Stop Value → List (OptionDeclaration × String)
  | .ok (.text value) => [(o, value)]
  | _ => []

theorem Eval.answered_error (o : OptionDeclaration) (stop : Stop) : answered o (.error stop) = [] := rfl

/-- A turn of a recipe, from one machine to another, and what it asks for in it. -/
inductive Inquiry (h : Shell.Handlers) : Machine → List (OptionDeclaration × String) → Machine → Prop
  | option (o : OptionDeclaration) (pos : Pos) (m : Machine) :
    Inquiry h m (Eval.answered o (Builtin.option o pos m).1) (Builtin.option o pos m).2
  /-- It calls another function that every recipe has, which may fail. -/
  | call {name : String} {args : List Value} {pos : Pos} {act : Eval Value} (hname : name ≠ "option")
    (hact : Builtin.call? h name args pos = some act) (m : Machine) : Inquiry h m [] (act m).2
  /-- It computes with its variables. -/
  | compute {m m' : Machine} (hdraft : m'.draft = m.draft) : Inquiry h m [] m'
  /-- It begins to configure the project. -/
  | begin_ (m : Machine) : Inquiry h m [] { m with draft := { m.draft with phase := .configuring } }

/-- The turns of a recipe, one after the other, and what it asks for in them, the first one first. -/
inductive Inquiries (h : Shell.Handlers) (start : Machine) : List (OptionDeclaration × String) → Machine → Prop
  | none : Inquiries h start [] start
  | snoc {asked more : List (OptionDeclaration × String)} {m m' : Machine} (past : Inquiries h start asked m)
    (next : Inquiry h m more m') : Inquiries h start (asked ++ more) m'

variable {h : Shell.Handlers} {m m' m'' : Machine} {asked more : List (OptionDeclaration × String)} {d : Draft}
  {given : Table} {o : OptionDeclaration}

namespace Inquiries

theorem single (turn : Inquiry h m asked m') : Inquiries h m asked m' := List.nil_append asked ▸ none.snoc turn

theorem trans (past : Inquiries h m asked m') (next : Inquiries h m' more m'') :
    Inquiries h m (asked ++ more) m'' := by
  induction next with
  | none => rwa [List.append_nil]
  | snoc _ last ih => exact List.append_assoc .. ▸ ih.snoc last

/-- Whatever a recipe does are such turns. -/
theorem covers (h : Shell.Handlers) : Eval.Covers h fun m m' => ∃ asked, Inquiries h m asked m' where
  trans := fun ⟨_, past⟩ ⟨_, next⟩ => ⟨_, past.trans next⟩
  computed hdraft := ⟨[], single (.compute hdraft)⟩
  called {name args pos act} hact m := by
    obtain ⟨o, -, rfl⟩ | ⟨rows, rfl, -⟩ | ⟨hname, -, -⟩ := Builtin.call?_cases hact
    · exact ⟨_, single (.option o pos m)⟩
    · exact ⟨[], single (.call (by decide) hact m)⟩
    · exact ⟨[], single (.call hname hact m)⟩

end Inquiries

/-! ## Declaring and answering -/

/-- A call of `option` is refused and changes nothing, or gives the value of the option and declares it. -/
theorem Builtin.option_eq (o : OptionDeclaration) (pos : Pos) (m : Machine) :
    (m.draft.phase = .configuring ∧ option o pos m = (.error (.fault ⟨.lateOption, pos⟩), m)) ∨
      (m.draft.phase = .declaringOptions ∧ option o pos m = (.ok (.text (m.draft.valueOf o)),
        { m with draft := if m.draft.options.any fun p => p.name == o.name then m.draft else
          { m.draft with options := m.draft.options ++ [o] } })) := by
  unfold option
  rw [Eval.draft_bind, Draft.declareOption]
  by_cases hphase : m.draft.phase = .declaringOptions
  · rw [if_neg (not_not_intro hphase)]
    exact .inr ⟨hphase, rfl⟩
  · rw [if_pos hphase]
    cases hlate : m.draft.phase with
    | declaringOptions => exact absurd hlate hphase
    | configuring => exact .inl ⟨rfl, rfl⟩

/-- Describing a task has no part in the options. -/
theorem Builtin.options_task (rows : List (String × Value)) (pos : Pos) (m : Machine) :
    (task rows pos m).2.draft.given = m.draft.given ∧ (task rows pos m).2.draft.options = m.draft.options := by
  obtain ⟨f, -, hrefused⟩ | ⟨t, d, hdeclared, -, hdraft⟩ := task_cases rows pos m
  · rw [hrefused]
    exact ⟨rfl, rfl⟩
  · rw [hdraft]
    obtain ⟨-, ⟨-, rfl⟩ | ⟨-, -, rfl⟩⟩ := Draft.admit?_cases (Draft.declareTask_cases hdeclared).2
    · exact ⟨rfl, rfl⟩
    · exact ⟨rfl, rfl⟩

/-- What a draft knows of the options that a recipe has asked for. -/
structure Draft.Answers (given : Table) (asked : List (OptionDeclaration × String)) (d : Draft) : Prop where
  unchanged : d.given = given
  /-- The names of its options are those asked for, in the order in which they were first. -/
  names : d.options.map (·.name) = (asked.map (·.1.name)).eraseDups
  nodup : (d.options.map (·.name)).Nodup
  /-- Its option of a name is the one that was asked for first. -/
  first : ∀ name, d.options.find? (·.name == name) = (asked.map (·.1)).find? (·.name == name)
  values : ∀ row ∈ asked, row.2 = (given.get? row.1.name).getD row.1.default

namespace Draft.Answers

theorem none (hoptions : d.options = []) : d.Answers d.given [] where
  unchanged := rfl
  names := by rw [hoptions]; rfl
  nodup := by rw [hoptions]; exact List.nodup_nil
  first _ := by rw [hoptions]; rfl
  values := nofun

theorem congr {d' : Draft} (ha : d.Answers given asked) (hgiven : d'.given = d.given)
    (hoptions : d'.options = d.options) : d'.Answers given asked where
  unchanged := hgiven.trans ha.unchanged
  names := hoptions ▸ ha.names
  nodup := hoptions ▸ ha.nodup
  first := hoptions ▸ ha.first
  values := ha.values

/-- An option is declared if one of its name was asked for. -/
theorem any_iff (ha : d.Answers given asked) (name : String) :
    (d.options.any fun p => p.name == name) = true ↔ name ∈ asked.map (·.1.name) := by
  constructor
  · intro h
    have hmem : name ∈ d.options.map (·.name) := by simpa using h
    rwa [ha.names, List.mem_eraseDups] at hmem
  · intro h
    rw [← List.mem_eraseDups, ← ha.names] at h
    simpa using h

theorem ask (ha : d.Answers given asked) (o : OptionDeclaration) :
    Draft.Answers given (asked ++ [(o, d.valueOf o)])
      (if d.options.any fun p => p.name == o.name then d else { d with options := d.options ++ [o] }) := by
  have hvalues : ∀ row ∈ asked ++ [(o, d.valueOf o)], row.2 = (given.get? row.1.name).getD row.1.default := by
    rintro row hrow
    rcases List.mem_append.1 hrow with hrow | hrow
    · exact ha.values row hrow
    · obtain rfl := List.mem_singleton.1 hrow
      rw [← ha.unchanged]
      rfl
  have hnames : (((asked ++ [(o, d.valueOf o)]).map (·.1.name)).eraseDups) =
      (asked.map (·.1.name)).eraseDups ++ ([o.name].removeAll (asked.map (·.1.name))).eraseDups := by
    rw [List.map_append, List.eraseDups_append]
    rfl
  by_cases hknown : (d.options.any fun p => p.name == o.name) = true
  · -- a second declaration of a name declares nothing
    rw [if_pos hknown]
    have hmem := (ha.any_iff o.name).1 hknown
    refine ⟨ha.unchanged, ?_, ha.nodup, ?_, hvalues⟩
    · rw [hnames, ha.names]
      simp [List.removeAll, hmem]
    · intro name
      rw [ha.first, List.map_append, List.find?_append]
      by_cases hname : o.name = name
      · obtain ⟨p, hp⟩ : ∃ p, (asked.map (·.1)).find? (·.name == name) = some p := by
          rw [← Option.isSome_iff_exists, List.find?_isSome]
          simpa [hname] using hmem
        rw [hp, Option.some_or]
      · simp [hname]
  · rw [if_neg hknown]
    have hmem := mt (ha.any_iff o.name).2 hknown
    refine ⟨ha.unchanged, ?_, ?_, ?_, hvalues⟩
    · rw [hnames, List.map_append, ha.names]
      simp [List.removeAll, hmem, List.eraseDups_cons]
    · rw [List.map_append, List.nodup_append]
      refine ⟨ha.nodup, by simp, ?_⟩
      rintro name hname _ hlast rfl
      obtain rfl := List.mem_singleton.1 hlast
      rw [ha.names, List.mem_eraseDups] at hname
      exact hmem hname
    · intro name
      rw [List.find?_append, ha.first, List.map_append, List.find?_append]
      rfl

/-- The table has the value of the option that was asked for first. -/
theorem get?_optionTable (ha : d.Answers given asked) {name : String} {p : OptionDeclaration}
    (hfirst : (asked.map (·.1)).find? (·.name == name) = some p) :
    d.optionTable.get? name = some ((given.get? name).getD p.default) := by
  rw [← ha.first] at hfirst
  obtain rfl : p.name = name := by simpa using List.find?_some hfirst
  have hnames : ((d.options.map fun o => (o.name, d.valueOf o)).map Prod.fst).Nodup := by
    rw [List.map_map]
    exact ha.nodup
  have hrow : (p.name, d.valueOf p) ∈ d.options.map fun o => (o.name, d.valueOf o) :=
    List.mem_map_of_mem (List.mem_of_find?_eq_some hfirst)
  unfold optionTable
  rw [Table.get?_ofList_of_mem hnames hrow, valueOf, ha.unchanged]

/-- A value that was given agrees with the table if it was not a default, or if the option that was asked for first
has the same one. -/
theorem agree_iff (ha : d.Answers given asked) {row : OptionDeclaration × String} (hrow : row ∈ asked) :
    ∃ p, (asked.map (·.1)).find? (·.name == row.1.name) = some p ∧
      (d.optionTable.get? row.1.name = some row.2 ↔
        (given.get? row.1.name).isSome ∨ row.1.default = p.default) := by
  obtain ⟨p, hp⟩ : ∃ p, (asked.map (·.1)).find? (·.name == row.1.name) = some p := by
    rw [← Option.isSome_iff_exists, List.find?_isSome]
    exact ⟨row.1, List.mem_map_of_mem hrow, beq_self_eq_true _⟩
  refine ⟨p, hp, ?_⟩
  rw [ha.get?_optionTable hp, ha.values row hrow]
  cases given.get? row.1.name with
  | none => simp [eq_comm]
  | some value => simp

end Draft.Answers

namespace Inquiries

theorem answers_inquiry (ha : m.draft.Answers given asked) (turn : Inquiry h m more m') :
    m'.draft.Answers given (asked ++ more) := by
  cases turn with
  | option o pos =>
    obtain ⟨-, hrefused⟩ | ⟨-, hanswer⟩ := Builtin.option_eq o pos m
    · rw [hrefused, Eval.answered_error, List.append_nil]
      exact ha
    · rw [hanswer]
      exact ha.ask o
  | call hname hact =>
    rw [List.append_nil]
    obtain ⟨o, hoption, -⟩ | ⟨rows, -, rfl⟩ | ⟨-, -, haside⟩ := Builtin.call?_cases hact
    · exact absurd hoption hname
    · obtain ⟨hgiven, hoptions⟩ := Builtin.options_task rows _ m
      exact ha.congr hgiven hoptions
    · obtain ⟨env, documents, hdraft⟩ := haside m
      exact ha.congr (by rw [hdraft]) (by rw [hdraft])
  | compute hdraft =>
    rw [List.append_nil, hdraft]
    exact ha
  | begin_ =>
    rw [List.append_nil]
    exact ha.congr rfl rfl

theorem answers (hoptions : m.draft.options = []) (turns : Inquiries h m asked m') :
    m'.draft.Answers m.draft.given asked := by
  induction turns with
  | none => exact .none hoptions
  | snoc _ turn ih => exact answers_inquiry ih turn

end Inquiries

/-! ## What a recipe is configured with -/

/-- The options of a project as the function that configures it is given them. -/
def Draft.optionValues (d : Draft) : Value := .map (d.optionTable.map fun row => (row.1, .text row.2))

/-- If the statements of a recipe come to their end, its function is called with the options declared by them. -/
theorem Program.run_of_topLevel {p : Program} {f : Function} (htop : Eval.topLevel h p m = (.ok (), m'))
    (hf : p.function? Task.reservedName 1 = some f) (file : String) :
    (p.run h file false m).2 =
      (Eval.configure h p f m'.draft.optionValues { m' with draft := { m'.draft with phase := .configuring } }).2 := by
  unfold Program.run
  rw [Stateful.bind_apply]
  dsimp only
  rw [htop]
  dsimp only
  rw [if_neg Bool.false_ne_true, hf]
  dsimp only
  rw [Stateful.get_bind, Stateful.modify_bind]
  split <;> rename_i hend <;> exact congrArg Prod.snd hend.symm

/-- **The value that a recipe is given for an option is the one it is configured with, unless it comes from a default
that is not the first of its name.** The options that a recipe has declared have names of their own, in the order in
which they were first asked for. A call gives the value that was given for its option, or else its own default; the
table has the same under this name if a value was given, or if the option that was asked for first has the same
default. This table is what a recipe is configured with when its statements have come to their end. -/
theorem option_values_agree_iff (h : Shell.Handlers) (start : Machine) (hstart : start.draft.options = []) :
    (∀ asked m, Inquiries h start asked m →
      (m.draft.options.map (·.name)).Nodup ∧
      m.draft.options.map (·.name) = (asked.map (·.1.name)).eraseDups ∧
      ∀ row ∈ asked, row.2 = (start.draft.given.get? row.1.name).getD row.1.default ∧
        ∃ p, (asked.map (·.1)).find? (·.name == row.1.name) = some p ∧
          (m.draft.optionTable.get? row.1.name = some row.2 ↔
            (start.draft.given.get? row.1.name).isSome ∨ row.1.default = p.default)) ∧
    ∀ p f file m, Eval.topLevel h p start = (.ok (), m) → p.function? Task.reservedName 1 = some f →
      (∃ asked, Inquiries h start asked m) ∧
      (p.run h file false start).2 =
        (Eval.configure h p f m.draft.optionValues { m with draft := { m.draft with phase := .configuring } }).2 := by
  constructor
  · intro asked m turns
    have ha := turns.answers hstart
    exact ⟨ha.nodup, ha.names, fun row hrow => ⟨ha.values row hrow, ha.agree_iff hrow⟩⟩
  · intro p f file m htop hf
    refine ⟨?_, Program.run_of_topLevel htop hf file⟩
    have hturns := (Inquiries.covers h).topLevel p start
    rwa [htop] at hturns

/-! ## Calls in a row -/

/-- What some calls of `option` give, and the machine after them. -/
def askAll (m : Machine) : List OptionDeclaration → List (OptionDeclaration × String) × Machine
  | [] => ([], m)
  | o :: rest =>
    let (result, m) := Builtin.option o .none m
    let (asked, m) := askAll m rest
    (Eval.answered o result ++ asked, m)

theorem Inquiries.askAll (h : Shell.Handlers) :
    ∀ (os : List OptionDeclaration) (m : Machine), Inquiries h m (askAll m os).1 (askAll m os).2
  | [], _ => .none
  | o :: rest, m => (Inquiries.single (.option o .none m)).trans (Inquiries.askAll h rest _)

/-- A machine that declares options, with a value given for `y`. -/
def declaring : Machine := ⟨.initial ⟨"/tasks", "/"⟩ [("y", "3")], default, []⟩

/-- `x` twice with one default, and `y` with a value instead of its default. -/
theorem options_agree_declaring :
    declaring.draft.options = [] ∧
    (askAll declaring [⟨"x", "1", ""⟩, ⟨"y", "2", ""⟩, ⟨"x", "1", ""⟩]).1.map (·.2) = ["1", "3", "1"] ∧
    ((askAll declaring [⟨"x", "1", ""⟩, ⟨"y", "2", ""⟩, ⟨"x", "1", ""⟩]).2.draft.options.map (·.name)).Nodup ∧
    (askAll declaring [⟨"x", "1", ""⟩, ⟨"y", "2", ""⟩, ⟨"x", "1", ""⟩]).2.draft.optionTable =
      [("x", "1"), ("y", "3")] := by
  have hturns := Inquiries.askAll ⟨Program.Sample.exec, Shell.Handlers.openDirect⟩
    [⟨"x", "1", ""⟩, ⟨"y", "2", ""⟩, ⟨"x", "1", ""⟩] declaring
  obtain ⟨hnodup, -, -⟩ := (option_values_agree_iff _ declaring rfl).1 _ _ hturns
  exact ⟨rfl, by decide +kernel, hnodup, by decide +kernel⟩

/-- A second declaration of a name with another default gives a value that the recipe is not configured with. -/
theorem second_default_disagrees :
    ¬ ∀ asked m, Inquiries ⟨Program.Sample.exec, Shell.Handlers.openDirect⟩ declaring asked m →
      ∀ row ∈ asked, m.draft.optionTable.get? row.1.name = some row.2 := by
  intro hagree
  have hrow : (⟨"x", "2", ""⟩, "2") ∈ (askAll declaring [⟨"x", "1", ""⟩, ⟨"x", "2", ""⟩]).1 := by decide +kernel
  have hx := hagree _ _ (Inquiries.askAll _ [⟨"x", "1", ""⟩, ⟨"x", "2", ""⟩] declaring) _ hrow
  revert hx
  decide +kernel

end Taskwork.Recipe
