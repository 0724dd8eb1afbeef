/-
Patterns that stand for one text. `escape` writes a text as such a pattern by putting each
character with a meaning in a class of its own.
-/
import Taskwork.Path

namespace Taskwork.Glob

/-- The characters that mean something in a pattern. -/
def isSpecial (c : Char) : Bool := c == '?' || c == '*' || c == '[' || c == ']'

/-- The pattern that matches `cs` and nothing else. -/
def escapeChars (cs : List Char) : List Char :=
  cs.flatMap fun c => if isSpecial c then ['[', c, ']'] else [c]

def escape (s : String) : String := String.ofList (escapeChars s.toList)

/-- The pattern a fragment stands for, seen from `directory`. What the fragment shares with the
directory it starts from is text and is escaped; wildcards count where the fragment wrote them. -/
def resolve (directory projectRoot fragment : String) : String :=
  let full := Path.resolve directory projectRoot [fragment]
  let anchor := match fragment.toList with
    | '/' :: '/' :: _ => some (Path.clean projectRoot)
    | '/' :: _ => none
    | _ => some (Path.clean directory)
  match anchor with
  | none => full
  | some anchor =>
    let steps := Path.components full
    let shared := Path.commonPart (Path.components anchor) steps
    if shared.isEmpty then full
    else
      let text := escape (Path.ofComponents shared)
      let rest := steps.drop shared.length
      if rest.isEmpty then text
      else
        let ends := text.toList.getLast?
        let gap := if ends == some '/' || ends == some '\\' then "" else "/"
        text ++ gap ++ Path.ofComponents rest

end Taskwork.Glob
