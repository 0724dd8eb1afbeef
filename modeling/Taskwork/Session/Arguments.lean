/-
The words a session is asked with: names of tasks, and options written `key=value`. The first `=`
of a word ends its key, and of two values for one key the later one counts.
-/
import Taskwork.Table

namespace Taskwork.Session

/-- The key and value a word is made of, if it has a `=`. -/
def keyValue? (word : String) : Option (String × String) :=
  match word.toList.dropWhile (· != '=') with
  | [] => none
  | _ :: value => some (String.ofList (word.toList.takeWhile (· != '=')), String.ofList value)

/-- The task names among some words, in order, and the options. -/
def splitArguments (words : List String) : List String × Table :=
  (words.filter fun w => (keyValue? w).isNone, Table.ofList (words.filterMap keyValue?))

end Taskwork.Session
