/-
Values of JSON. An object keeps one value for each key, in the order of the keys.
-/
import Taskwork.Number

namespace Taskwork.Json

inductive Value where
  | null
  | bool (b : Bool)
  | number (n : Number)
  | text (s : String)
  | array (items : List Value)
  | object (rows : List (String × Value))
  deriving Inhabited

/-- Puts a value under a key, in place of the one that was there. -/
def insert {α : Type} (key : String) (value : α) : List (String × α) → List (String × α)
  | [] => [(key, value)]
  | (k, v) :: rest =>
    if key < k then (key, value) :: (k, v) :: rest
    else if k = key then (key, value) :: rest
    else (k, v) :: insert key value rest

end Taskwork.Json
