/-
Text as it is shown in messages: in double quotes, with an escape for every character that would
end the quotes or not be seen.
-/
import Taskwork.Text.Unseen

namespace Taskwork.Text

/-- One character inside the quotes. -/
def shownChar (c : Char) : List Char :=
  if c = '"' then ['\\', '"']
  else if c = '\\' then ['\\', '\\']
  else if c = '\n' then ['\\', 'n']
  else if c = '\r' then ['\\', 'r']
  else if c = '\t' then ['\\', 't']
  else if c = '\x00' then ['\\', '0']
  else if isUnseen c then ['\\', 'u', '{'] ++ Nat.toDigits 16 c.toNat ++ ['}']
  else [c]

/-- A text in quotes. -/
def shown (s : String) : String := String.ofList ('"' :: s.toList.flatMap shownChar ++ ['"'])

end Taskwork.Text
