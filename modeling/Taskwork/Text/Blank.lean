/-
White space in the sense of the Unicode property `White_Space`, and trimming by it. Trimming
takes away a run of blank characters at either end and nothing in between.
-/

namespace Taskwork.Text

/-- The characters with the property `White_Space`. -/
def isBlank (c : Char) : Bool :=
  let n := c.toNat
  (9 ≤ n && n ≤ 13) || n == 0x20 || n == 0x85 || n == 0xA0 || n == 0x1680 ||
    (0x2000 ≤ n && n ≤ 0x200A) || n == 0x2028 || n == 0x2029 || n == 0x202F || n == 0x205F ||
    n == 0x3000

/-- Drops the last elements of a list as long as they satisfy `p`. -/
def dropLastWhile {α : Type} (p : α → Bool) (l : List α) : List α :=
  (l.reverse.dropWhile p).reverse

/-- The text without the blank characters at its two ends. -/
def trim (s : String) : String :=
  String.ofList (dropLastWhile isBlank (s.toList.dropWhile isBlank))

/-- The text without the blank characters at its end. -/
def trimEnd (s : String) : String :=
  String.ofList (dropLastWhile isBlank s.toList)

/-- The stretches of a list between the elements satisfying `p`; there is always one more of them
than there are such elements. -/
def splitOn {α : Type} (p : α → Bool) : List α → List (List α)
  | [] => [[]]
  | a :: l =>
    if p a then [] :: splitOn p l
    else match splitOn p l with
      | [] => [[a]]
      | s :: ss => (a :: s) :: ss

theorem splitOn_ne_nil {α : Type} (p : α → Bool) (l : List α) : splitOn p l ≠ [] := by
  cases l with
  | nil => simp [splitOn]
  | cons a l => simp only [splitOn]; split <;> (try split) <;> simp

end Taskwork.Text
