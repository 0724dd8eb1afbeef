/-
Writing a text so that a script reads it back as one literal word: a text of harmless characters
stands for itself, any other is put in single quotes, where a single quote is written as a closing
quote, an escaped quote and an opening quote.
-/

namespace Taskwork.Shell

/-- The characters besides ASCII letters and digits that mean nothing to the shell. -/
def harmlessMarks : List Char := ['-', '_', '.', '/', '=', ':', ',', '+', '@', '%']

/-- Whether a text may stand in a script as it is. -/
def isHarmless (cs : List Char) : Bool :=
  !cs.isEmpty && cs.all fun c => c.isAlphanum || harmlessMarks.contains c

/-- The inside of single quotes that stand for `cs`. -/
def escapeSingle (cs : List Char) : List Char :=
  cs.flatMap fun c => if c = '\'' then ['\'', '\\', '\'', '\''] else [c]

/-- The word that stands for a text. -/
def quote (s : String) : String :=
  if isHarmless s.toList then s
  else String.ofList ('\'' :: escapeSingle s.toList ++ ['\''])

end Taskwork.Shell
