/-
The values of a recipe and the tasks in them. Whatever operators, data and properties give, the tasks in
it were in what they were given: so values that hold declared tasks alone (`Value.Sound`) give such
values again.
-/
import Taskwork.Proofs.Recipe.Declared
import Taskwork.Recipe.Eval
import Taskwork.Recipe.Operation

namespace Taskwork.Recipe

/-- All tasks in a value are declared. -/
def Value.Sound (v : Value) : Prop := ∀ t, v.Holds t → Declared t

namespace Value

/-- It is no task and has no parts. -/
def isPlain : Value → Bool
  | .task _ | .array _ | .map _ => false
  | _ => true

theorem Sound.plain {v : Value} (h : v.isPlain = true) : v.Sound := by
  intro t ht
  cases ht <;> cases h

/-! ## Parts -/

theorem sound_task_iff {t : Task} : (Value.task t).Sound ↔ Declared t := by
  refine ⟨fun h => h t .self, fun h u hu => ?_⟩
  cases hu
  exact h

theorem sound_array_iff {items : List Value} : (Value.array items).Sound ↔ ∀ v ∈ items, v.Sound := by
  refine ⟨fun h v hv t ht => h t (.item hv ht), fun h t ht => ?_⟩
  cases ht with
  | item hv ht => exact h _ hv t ht

theorem sound_map_iff {rows : List (String × Value)} : (Value.map rows).Sound ↔ ∀ row ∈ rows, row.2.Sound := by
  refine ⟨fun h row hrow t ht => h t (.row hrow ht), fun h t ht => ?_⟩
  cases ht with
  | row hrow ht => exact h _ hrow t ht

theorem mem_store {key : String} {v : Value} {row : String × Value} :
    ∀ {rows : List (String × Value)}, row ∈ store key v rows → row = (key, v) ∨ row ∈ rows
  | [], h => .inl (List.mem_singleton.1 h)
  | (k, w) :: rest, h => by
    unfold store at h
    split at h
    · exact List.mem_cons.1 h
    · split at h
      · exact (List.mem_cons.1 h).imp_right (List.mem_cons_of_mem _)
      · rcases List.mem_cons.1 h with rfl | h
        · exact .inr List.mem_cons_self
        · exact (mem_store h).imp_right (List.mem_cons_of_mem _)

theorem sound_store {key : String} {v : Value} {rows : List (String × Value)} (hv : v.Sound)
    (hrows : ∀ row ∈ rows, row.2.Sound) : ∀ row ∈ store key v rows, row.2.Sound := by
  intro row hrow
  rcases mem_store hrow with rfl | hrow
  · exact hv
  · exact hrows row hrow

theorem sound_foldl_store (more : List (String × Value)) (hmore : ∀ row ∈ more, row.2.Sound) :
    ∀ rows : List (String × Value), (∀ row ∈ rows, row.2.Sound) →
      ∀ row ∈ more.foldl (fun rows row => store row.1 row.2 rows) rows, row.2.Sound := by
  induction more with
  | nil => exact fun _ h => h
  | cons next more ih =>
    intro rows hrows
    rw [List.forall_mem_cons] at hmore
    exact ih hmore.2 _ (sound_store hmore.1 hrows)

theorem sound_lookup {key : String} {rows : List (String × Value)} (hrows : ∀ row ∈ rows, row.2.Sound) :
    ((lookup key rows).getD .unit).Sound := by
  cases hlookup : lookup key rows with
  | none => exact .plain rfl
  | some v => exact hrows _ (mem_of_lookup hlookup)

/-! ## Data -/

theorem sound_ofNumber (n : Number) : (ofNumber n).Sound := by
  cases n with
  | whole n =>
    simp only [ofNumber]
    split <;> exact .plain rfl
  | real x => exact .plain rfl

mutual

/-- There are no tasks in data. -/
theorem sound_ofJson : ∀ v : Json.Value, (ofJson v).Sound
  | .null | .bool _ | .text _ => .plain rfl
  | .number n => sound_ofNumber n
  | .array items => sound_array_iff.2 (sound_ofItems items)
  | .object rows => sound_map_iff.2 (sound_ofRows rows)

theorem sound_ofItems : ∀ items : List Json.Value, ∀ v ∈ ofItems items, v.Sound
  | [], _, h => by cases h
  | v :: rest, w, h => by
    rcases List.mem_cons.1 h with rfl | h
    · exact sound_ofJson v
    · exact sound_ofItems rest w h

theorem sound_ofRows : ∀ rows : List (String × Json.Value), ∀ row ∈ ofRows rows, row.2.Sound
  | [], _, h => by cases h
  | (key, v) :: rest, row, h => by
    rcases List.mem_cons.1 h with rfl | h
    · exact sound_ofJson v
    · exact sound_ofRows rest row h

end

theorem sound_ofScalar? {node : Yaml.Node} {v : Value} (h : ofScalar? node = some v) : v.Sound := by
  unfold ofScalar? at h
  split at h <;> cases h
  · exact .plain rfl
  · exact .plain rfl
  · exact sound_ofNumber _

/-! ## Operators -/

theorem sound_wholeResult {name sign : String} {m n result : Int} {v : Value}
    (h : wholeResult name sign m n result = .ok v) : v.Sound := by
  unfold wholeResult at h
  split at h <;> cases h
  exact .plain rfl

/-- Lists and maps are put together of what is in the operands. -/
theorem sound_add {a b v : Value} (ha : a.Sound) (hb : b.Sound) (h : a.add b = .ok v) : v.Sound := by
  unfold add at h
  split at h
  · exact sound_wholeResult h
  · cases h
    exact .plain rfl
  · cases h
    exact .plain rfl
  · cases h
    rw [sound_array_iff] at ha hb ⊢
    exact List.forall_mem_append.2 ⟨ha, hb⟩
  · cases h
    rw [sound_map_iff] at ha hb ⊢
    exact sound_foldl_store _ hb _ ha
  · split at h <;> cases h
    exact .plain rfl

theorem sound_subtract {a b v : Value} (h : a.subtract b = .ok v) : v.Sound := by
  unfold subtract at h
  split at h
  · exact sound_wholeResult h
  · cases h
    exact .plain rfl
  · split at h <;> cases h
    exact .plain rfl

theorem sound_greater {a b v : Value} (h : a.greater b = .ok v) : v.Sound := by
  unfold greater at h
  split at h
  all_goals try split at h
  all_goals cases h; try exact .plain rfl

theorem sound_apply {op : Operator} {a b v : Value} (ha : a.Sound) (hb : b.Sound) (h : op.apply a b = .ok v) :
    v.Sound := by
  cases op with
  | add => exact sound_add ha hb h
  | subtract => exact sound_subtract h
  | greater => exact sound_greater h
  | equal | notEqual =>
    simp only [Operator.apply] at h
    split at h <;> cases h
    exact .plain rfl

theorem sound_opposite {v w : Value} (h : v.opposite = .ok w) : w.Sound := by
  unfold opposite at h
  split at h
  · split at h <;> cases h
    exact .plain rfl
  · cases h
    exact .plain rfl
  · cases h

/-! ## Replacing -/

/-- Replacing the value under a key. -/
theorem sound_store_replace {new : Value} {steps : List Step}
    (hreplace : ∀ v, v.Sound → (replace new steps v).Sound)
    (name : String) {rows : List (String × Value)} (hrows : (map rows).Sound) :
    (map (store name (replace new steps ((lookup name rows).getD .unit)) rows)).Sound := by
  rw [sound_map_iff] at hrows ⊢
  exact sound_store (hreplace _ (sound_lookup hrows)) hrows

/-- Replacing a part of a value. -/
theorem sound_replace {new : Value} (hnew : new.Sound) :
    ∀ (steps : List Step) (v : Value), v.Sound → (replace new steps v).Sound
  | [], _, _ => hnew
  | .key name :: rest, v, hv => by
    cases v with
    | map rows => exact sound_store_replace (sound_replace hnew rest) name hv
    | _ => exact hv
  | .item index :: rest, v, hv => by
    unfold replace
    split
    · exact hnew
    · rename_i h
      cases h
    · rename_i h
      cases h
      exact sound_store_replace (sound_replace hnew rest) _ hv
    · rename_i h
      cases h
      split
      · rw [sound_array_iff] at hv ⊢
        intro w hw
        obtain ⟨j, hj⟩ := List.mem_iff_getElem?.1 hw
        rw [List.getElem?_modify] at hj
        obtain ⟨u, hu, rfl⟩ := Option.map_eq_some_iff.1 hj
        have hu := hv u (List.mem_of_getElem? hu)
        split
        · exact sound_replace hnew rest u hu
        · exact hu
      · exact hv
    · exact hv

end Value

end Taskwork.Recipe
