/-
The text of values: as it is where a recipe joins it to other text, and inside arrays and maps in a
form that shows what kind of value it is.
-/
import Taskwork.Recipe.Value
import Taskwork.Text.Shown

namespace Taskwork.Recipe

/-- The text of a double has all its places from a ten-millionth up to ten trillion. -/
def plainReal : Decimal.Layout where
  isPositional d := -7 < d.place && (d.place ≤ 13 || d == ⟨1, 13⟩)
  zero _ := "0.0"
  nan := "NaN"
  infinity := "inf"

/-- Inside arrays and maps, up to sixteen places are written out. -/
def innerReal : Decimal.Layout where
  isPositional d := -4 < d.place && d.place ≤ 16
  zero isNegative := if isNegative then "-0.0" else "0.0"
  nan := "NaN"
  infinity := "inf"

namespace Value

mutual

/-- How a value is shown inside an array or map. -/
def inner : Value → String
  | .unit => "()"
  | .bool b => toString b
  | .int n => toString n
  | .float x => innerReal.text x
  | .text s => Text.shown s
  | .array items => "[" ++ ", ".intercalate (innerItems items) ++ "]"
  | .map rows => "#\x7b" ++ ", ".intercalate (innerRows rows) ++ "\x7d"
  | .path p => "path(" ++ Text.shown p ++ ")"
  | .task _ => "task"

def innerItems : List Value → List String
  | [] => []
  | v :: rest => inner v :: innerItems rest

def innerRows : List (String × Value) → List String
  | [] => []
  | (key, v) :: rest => (Text.shown key ++ ": " ++ inner v) :: innerRows rest

end

/-- The text of a value. -/
def shown : Value → String
  | .unit => ""
  | .text s => s
  | .float x => plainReal.text x
  | .path p => p
  | .task t => t.shown
  | v => v.inner

end Value
end Taskwork.Recipe
