/-
Laws of tables: every table that is made by storing values is in the order of its names with each
name once, and a table in that order is given back by storing its rows one after another. What is found
in a table is what was stored last.
-/
import Taskwork.Table
import Mathlib.Data.String.Basic

namespace Taskwork.Table

/-- Each name stands before those greater than it, and once. -/
def Ordered (t : Table) : Prop := t.Pairwise fun a b => a.1 < b.1

theorem ordered_nil : Ordered [] := List.Pairwise.nil

/-- The rows of a table after storing a value: the one stored, and old ones. -/
theorem mem_insert {name value : String} {row : String × String} :
    ∀ {t : Table}, row ∈ insert name value t → row = (name, value) ∨ row ∈ t
  | [], h => by
    rw [insert, List.mem_singleton] at h
    exact .inl h
  | (k, v) :: t, h => by
    unfold insert at h
    split_ifs at h with h1 h2
    · exact (List.mem_cons.1 h).imp id id
    · exact (List.mem_cons.1 h).imp id (List.mem_cons_of_mem _)
    · rcases List.mem_cons.1 h with rfl | h
      · exact .inr (List.mem_cons_self ..)
      · exact (mem_insert h).imp id (List.mem_cons_of_mem _)

/-- Storing a value keeps the order. -/
theorem Ordered.insert {name value : String} : ∀ {t : Table}, Ordered t → Ordered (t.insert name value)
  | [], _ => List.pairwise_singleton ..
  | (k, v) :: t, h => by
    obtain ⟨hk, ht⟩ := List.pairwise_cons.1 h
    unfold Table.insert
    split_ifs with h1 h2
    · refine List.pairwise_cons.2 ⟨fun row hr => ?_, h⟩
      rcases List.mem_cons.1 hr with rfl | hr
      · exact h1
      · exact h1.trans (hk row hr)
    · subst h2
      exact List.pairwise_cons.2 ⟨hk, ht⟩
    · refine List.pairwise_cons.2 ⟨fun row hr => ?_, Ordered.insert ht⟩
      rcases mem_insert hr with rfl | hr
      · exact lt_of_le_of_ne (not_lt.1 h1) h2
      · exact hk row hr

theorem Ordered.erase {t : Table} (h : Ordered t) (name : String) : Ordered (t.erase name) :=
  h.filter _

theorem Ordered.foldl_insert {t : Table} (h : Ordered t) (rows : List (String × String)) :
    Ordered (rows.foldl (fun table row => table.insert row.1 row.2) t) := by
  induction rows generalizing t with
  | nil => exact h
  | cons row rows ih => exact ih h.insert

/-- A table of any rows is in order. -/
theorem ordered_ofList (rows : List (String × String)) : Ordered (ofList rows) :=
  ordered_nil.foldl_insert rows

/-- A name greater than all others is stored at the end. -/
theorem insert_last {name value : String} :
    ∀ {t : Table}, (∀ row ∈ t, row.1 < name) → t.insert name value = t ++ [(name, value)]
  | [], _ => rfl
  | (k, v) :: t, h => by
    have hk : k < name := h (k, v) (List.mem_cons_self ..)
    rw [Table.insert, if_neg hk.not_gt, if_neg hk.ne,
      insert_last fun row hr => h row (List.mem_cons_of_mem _ hr), List.cons_append]

theorem foldl_insert_of_ordered (rows : List (String × String)) :
    ∀ {t : Table}, Ordered (t ++ rows) →
      rows.foldl (fun table row => table.insert row.1 row.2) t = t ++ rows := by
  induction rows with
  | nil => intro t _; exact (List.append_nil t).symm
  | cons row rows ih =>
    intro t h
    have hlast : ∀ r ∈ t, r.1 < row.1 := fun r hr =>
      (List.pairwise_append.1 h).2.2 r hr row (List.mem_cons_self ..)
    have hstep : t ++ row :: rows = t ++ [row] ++ rows := by rw [List.append_assoc, List.singleton_append]
    rw [List.foldl_cons, insert_last hlast, ih (by rw [← hstep]; exact h), hstep]

/-- Storing the rows of a table in order one after another gives the table. -/
theorem ofList_of_ordered {t : Table} (h : Ordered t) : ofList t = t :=
  foldl_insert_of_ordered t h

/-! ## What is found -/

theorem get?_insert (name value other : String) : ∀ t : Table,
    get? other (t.insert name value) = if name = other then some value else get? other t
  | [] => rfl
  | (k, v) :: t => by
    unfold Table.insert
    by_cases hlt : name < k
    · rw [if_pos hlt, get?]
    rw [if_neg hlt]
    by_cases hk : k = name
    · -- the row that is replaced has the same name
      subst hk
      rw [if_pos rfl, get?, get?]
      by_cases hother : k = other
      · rw [if_pos hother, if_pos hother]
      · rw [if_neg hother, if_neg hother, if_neg hother]
    · rw [if_neg hk, get?, get?, get?_insert]
      by_cases hother : name = other
      · subst hother
        rw [if_neg hk, if_pos rfl, if_pos rfl]
      · rw [if_neg hother, if_neg hother]

theorem get?_erase (name other : String) : ∀ t : Table,
    get? other (t.erase name) = if name = other then none else get? other t
  | [] => by simp [erase, get?]
  | (k, v) :: t => by
    have htail := get?_erase name other t
    unfold erase at htail ⊢
    by_cases hk : k = name
    · subst hk
      rw [List.filter_cons_of_neg (by simp), htail, get?]
      split_ifs <;> rfl
    · rw [List.filter_cons_of_pos (by simpa using hk), get?, get?, htail]
      split_ifs with hother hname
      · exact absurd (hother.trans hname.symm) hk
      · rfl
      · rfl
      · rfl

theorem contains_insert (name value other : String) (t : Table) :
    (t.insert name value).contains other = true ↔ name = other ∨ t.contains other = true := by
  unfold contains
  rw [get?_insert]
  split_ifs with hname <;> simp [hname]

theorem contains_erase (name other : String) (t : Table) :
    (t.erase name).contains other = true ↔ name ≠ other ∧ t.contains other = true := by
  unfold contains
  rw [get?_erase]
  split_ifs with hname <;> simp [hname]

/-- Storing other values does not matter to a name. -/
theorem get?_foldl_insert {name : String} {rows : List (String × String)} (hname : name ∉ rows.map Prod.fst) (t : Table) :
    get? name (rows.foldl (fun table row => table.insert row.1 row.2) t) = get? name t := by
  induction rows generalizing t with
  | nil => rfl
  | cons row rows ih =>
    rw [List.map_cons, List.mem_cons, not_or] at hname
    rw [List.foldl_cons, ih hname.2, get?_insert, if_neg (Ne.symm hname.1)]

/-- Of rows with different names each one is found. -/
theorem get?_ofList_of_mem {name value : String} {rows : List (String × String)}
    (hrows : (rows.map Prod.fst).Nodup) (hmem : (name, value) ∈ rows) :
    get? name (ofList rows) = some value := by
  suffices h : ∀ t, get? name (rows.foldl (fun table row => table.insert row.1 row.2) t) = some value from h []
  induction rows with
  | nil => cases hmem
  | cons row rows ih =>
    obtain ⟨hrow, hrows⟩ := List.nodup_cons.1 hrows
    intro t
    rw [List.foldl_cons]
    rcases List.mem_cons.1 hmem with rfl | hmem
    · -- no later row has its name
      rw [get?_foldl_insert hrow, get?_insert, if_pos rfl]
    · exact ih hrows hmem _

end Taskwork.Table
