/-
Tables of text by name: the options of a project and the environment of a process.
-/

namespace Taskwork

/-- Values by name, in the order of the names and each name once. -/
abbrev Table := List (String × String)

namespace Table

/-- The value stored under a name. -/
def get? (name : String) : Table → Option String
  | [] => none
  | (k, v) :: rest => if k = name then some v else get? name rest

/-- Stores a value, in place of the one stored before. -/
def insert (name value : String) : Table → Table
  | [] => [(name, value)]
  | (k, v) :: rest =>
    if name < k then (name, value) :: (k, v) :: rest
    else if k = name then (name, value) :: rest
    else (k, v) :: insert name value rest

/-- Forgets the value under a name. -/
def erase (name : String) (table : Table) : Table := table.filter fun row => row.1 ≠ name

/-- Whether a value is stored under a name. -/
def contains (table : Table) (name : String) : Bool := (table.get? name).isSome

/-- The table of some rows, of which a later one wins over an earlier one of the same name. -/
def ofList (rows : List (String × String)) : Table :=
  rows.foldl (fun table row => table.insert row.1 row.2) []

end Table
end Taskwork
