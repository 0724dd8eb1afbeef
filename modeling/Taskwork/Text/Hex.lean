/-
Bytes written in hexadecimal digits, two for each.
-/
import Taskwork.Text.Utf8

namespace Taskwork.Text.Hex

def digit (n : Nat) : Char :=
  if n < 10 then Char.ofNat ('0'.toNat + n) else Char.ofNat ('a'.toNat + (n - 10))

def digit? (c : Char) : Option Nat :=
  if '0' ≤ c ∧ c ≤ '9' then some (c.toNat - '0'.toNat)
  else if 'a' ≤ c ∧ c ≤ 'f' then some (c.toNat - 'a'.toNat + 10)
  else if 'A' ≤ c ∧ c ≤ 'F' then some (c.toNat - 'A'.toNat + 10)
  else none

def encode (bytes : Bytes) : String :=
  String.ofList (bytes.flatMap fun b => [digit (b.toNat / 16), digit (b.toNat % 16)])

/-- The bytes that pairs of digits stand for, up to the first that is no pair. -/
def decode : List Char → Bytes
  | a :: b :: rest =>
    match digit? a, digit? b with
    | some x, some y => UInt8.ofNat (16 * x + y) :: decode rest
    | _, _ => []
  | _ => []

/-- A number in a given count of digits, the highest first. -/
def ofNat (count n : Nat) : String :=
  let rec go : Nat → Nat → List Char → List Char
    | 0, _, acc => acc
    | count + 1, n, acc => go count (n / 16) (digit (n % 16) :: acc)
  String.ofList (go count n [])

end Taskwork.Text.Hex
