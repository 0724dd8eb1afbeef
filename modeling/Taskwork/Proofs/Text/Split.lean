/-
The stretches of a list between its separators: no separator is in them, together they are the list
without its separators, and they are found at the same places in lists whose elements correspond.
-/
import Taskwork.Text.Blank
import Mathlib.Data.List.Forall2

namespace Taskwork.Text

variable {α β : Type} {p : α → Bool}

theorem mem_splitOn {l piece : List α} (h : piece ∈ splitOn p l) {a : α} (ha : a ∈ piece) : p a = false := by
  induction l generalizing piece with
  | nil =>
    obtain rfl := List.mem_singleton.mp h
    cases ha
  | cons b l ih =>
    rw [splitOn] at h
    split at h
    · rcases List.mem_cons.mp h with rfl | h
      · cases ha
      · exact ih h ha
    · rename_i hb
      split at h <;> rename_i hrest
      · exact absurd hrest (splitOn_ne_nil p l)
      · rcases List.mem_cons.mp h with rfl | h
        · rcases List.mem_cons.mp ha with rfl | ha
          · exact Bool.eq_false_iff.mpr hb
          · exact ih (hrest ▸ List.mem_cons_self) ha
        · exact ih (hrest ▸ List.mem_cons_of_mem _ h) ha

/-- A list without separators goes on into the first stretch of what follows. -/
theorem splitOn_append {l r first : List α} {more : List (List α)} (hl : ∀ a ∈ l, p a = false)
    (hr : splitOn p r = first :: more) : splitOn p (l ++ r) = (l ++ first) :: more := by
  induction l with
  | nil => exact hr
  | cons a l ih =>
    rw [List.cons_append, splitOn, hl a List.mem_cons_self, ih fun b hb => hl b (List.mem_cons_of_mem _ hb)]
    rfl

theorem splitOn_of_forall {l : List α} (hl : ∀ a ∈ l, p a = false) : splitOn p l = [l] := by
  have hnil : splitOn p [] = [[]] := rfl
  have h := splitOn_append hl hnil
  rwa [List.append_nil] at h

theorem splitOn_append_cons {l : List α} (hl : ∀ a ∈ l, p a = false) {a : α} (ha : p a = true) (r : List α) :
    splitOn p (l ++ a :: r) = l :: splitOn p r := by
  have hr : splitOn p (a :: r) = [] :: splitOn p r := by rw [splitOn, if_pos ha]
  have h := splitOn_append hl hr
  rwa [List.append_nil] at h

/-- At a separator a list falls apart into two, whatever stands before it. -/
theorem splitOn_append_separator (l : List α) {a : α} (ha : p a = true) (r : List α) :
    splitOn p (l ++ a :: r) = splitOn p l ++ splitOn p r := by
  induction l with
  | nil => simp [splitOn, ha]
  | cons b l ih =>
    rw [List.cons_append, splitOn, splitOn, ih]
    split
    · rfl
    · cases hl : splitOn p l with
      | nil => exact absurd hl (splitOn_ne_nil p l)
      | cons first more => rfl

theorem flatten_splitOn (p : α → Bool) (l : List α) : (splitOn p l).flatten = l.filter (!p ·) := by
  induction l with
  | nil => rfl
  | cons a l ih =>
    rw [splitOn, List.filter_cons, ← ih]
    cases p a with
    | true => rfl
    | false =>
      cases hrest : splitOn p l with
      | nil => exact absurd hrest (splitOn_ne_nil p l)
      | cons first more => rfl

theorem forall₂_splitOn {q : β → Bool} {R : α → β → Prop} (hR : ∀ a b, R a b → p a = q b) {l : List α}
    {l' : List β} (h : List.Forall₂ R l l') : List.Forall₂ (List.Forall₂ R) (splitOn p l) (splitOn q l') := by
  induction h with
  | nil => exact .cons .nil .nil
  | @cons a b l l' hab _ ih =>
    rw [splitOn, splitOn, hR a b hab]
    cases q b with
    | true => exact .cons .nil ih
    | false =>
      cases hl : splitOn p l with
      | nil => exact absurd hl (splitOn_ne_nil p l)
      | cons first more =>
        rw [hl] at ih
        cases hl' : splitOn q l' with
        | nil => exact absurd hl' (splitOn_ne_nil q l')
        | cons first' more' =>
          rw [hl'] at ih
          obtain _ | ⟨hfirst, hmore⟩ := ih
          exact .cons (.cons hab hfirst) hmore

theorem splitOn_map (q : β → Bool) (f : α → β) (l : List α) :
    splitOn q (l.map f) = (splitOn (fun a => q (f a)) l).map (List.map f) := by
  induction l with
  | nil => rfl
  | cons a l ih =>
    rw [List.map_cons, splitOn, splitOn, ih]
    cases q (f a) with
    | true => rfl
    | false => cases splitOn (fun a => q (f a)) l <;> rfl

end Taskwork.Text
