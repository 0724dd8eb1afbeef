/-
The arguments of the file tools: flags of one letter each, which may stand together after one
dash, and operands. A `--` ends the flags. No flag may be given twice and no operand may be empty;
the first fault in the order of reading counts, where operands are looked at when the next flag or
the end is reached.
-/

namespace Taskwork.FileTools

/-- The letters that stand for one flag; it is told by the first of them. -/
structure Flag where
  name : Char
  others : List Char
  deriving DecidableEq, Repr, Inhabited

inductive ArgumentFault where
  | unexpected (text : String)
  | repeated (flag : Char)
  | missingOperand
  deriving DecidableEq, Repr, Inhabited

/-- The text up to the end of its first line. -/
def firstLine (s : String) : String :=
  let line := s.toList.takeWhile (· != '\n')
  String.ofList (if line.length < s.length && line.getLast? == some '\r' then line.dropLast else line)

def ArgumentFault.message : ArgumentFault → String
  | .unexpected text => firstLine ("unexpected argument '" ++ text ++ "' found")
  | .repeated flag => "the argument '-" ++ flag.toString ++ "' cannot be used multiple times"
  | .missingOperand => "a value is required for '[paths]...' but none was supplied"

/-- What has been read of the arguments. -/
structure Arguments where
  flags : List Char
  operands : List String
  deriving DecidableEq, Repr, Inhabited

/-- Looks at the operands read so far. -/
def Arguments.check (a : Arguments) : Except ArgumentFault Arguments :=
  if a.operands.any (·.isEmpty) then .error .missingOperand else .ok a

/-- Reads the letters after a dash. -/
def Arguments.addFlags (known : List Flag) (a : Arguments) : List Char → Except ArgumentFault Arguments
  | [] => .ok a
  | c :: cs =>
    match known.find? fun f => f.name == c || f.others.contains c with
    | none => .error (.unexpected ("-" ++ c.toString))
    | some f => do
      let a ← a.check
      if a.flags.contains f.name then .error (.repeated f.name)
      else addFlags known { a with flags := a.flags ++ [f.name] } cs

/-- Reads arguments to the end. -/
def Arguments.read (known : List Flag) (a : Arguments) : List String → Except ArgumentFault Arguments
  | [] => a.check
  | word :: rest =>
    match word.toList with
    | ['-', '-'] => Arguments.check { a with operands := a.operands ++ rest }
    | '-' :: '-' :: name =>
      .error (.unexpected ("--" ++ String.ofList (name.takeWhile (· != '='))))
    | '-' :: c :: cs => do
      let a ← a.addFlags known (c :: cs)
      a.read known rest
    | _ => Arguments.read known { a with operands := a.operands ++ [word] } rest

def Arguments.ofList (known : List Flag) (words : List String) : Except ArgumentFault Arguments :=
  Arguments.read known ⟨[], []⟩ words

end Taskwork.FileTools
