/-
The shortest decimal that reads back as a double. The numbers that are read as `m · 2 ^ q` form an
interval around it, whose ends belong to it when `m` is even; of the decimals in it those with the
fewest digits count, and of these the nearest one.
-/
import Taskwork.Decimal.Nearest

namespace Taskwork

/-- The number `digits · 10 ^ exponent`. -/
structure Decimal where
  digits : Nat
  exponent : Int
  deriving DecidableEq, Repr, Inhabited

namespace Decimal

/-- The place of the first digit: the number is below `10 ^ place`. -/
def place (d : Decimal) : Int := d.exponent + size d.digits

/-- The `e` for which a fraction above zero is at least `10 ^ e` and below `10 ^ (e + 1)`. -/
def decimalExponent (num den : Nat) : Int :=
  if den ≤ num then (size (num / den) : Int) - 1 else -(size ((den - 1) / num) : Int)

/-- The multiples of `10 ^ e` next to `4m · 2 ^ (q - 2)` that lie between `low · 2 ^ (q - 2)` and
`high · 2 ^ (q - 2)`, the nearer one. -/
def onGrid (m low high : Nat) (q e : Int) : Option Nat :=
  let a := Nat.pow 10 e.toNat * Nat.pow 2 (2 - q).toNat
  let b := Nat.pow 2 (q - 2).toNat * Nat.pow 10 (-e).toNat
  let value := 4 * m * b
  let inside (d : Nat) : Bool :=
    if m % 2 = 0 then low * b ≤ d * a && d * a ≤ high * b else low * b < d * a && d * a < high * b
  let below := value / a
  let up := (below + 1) * a - value
  let down := value - below * a
  match inside below, inside (below + 1) with
  | true, true => some (if down < up ∨ (down = up ∧ below % 2 = 0) then below else below + 1)
  | true, false => some below
  | false, true => some (below + 1)
  | false, false => none

/-- The shortest decimal for `m · 2 ^ q`. The double below is half as far away when `narrow`. -/
def shortest (m : Nat) (q : Int) (narrow : Bool) : Decimal :=
  let low := if narrow then 4 * m - 1 else 4 * m - 2
  let high := 4 * m + 2
  let top := decimalExponent (m * Nat.pow 2 q.toNat) (Nat.pow 2 (-q).toNat)
  let found := (List.range 17).findSome? fun (n : Nat) =>
    let e := top - n
    (onGrid m low high q e).map fun d => Decimal.mk d e
  found.getD ⟨m, q⟩

/-- A decimal without zeros at the end of its digits. -/
def trimmed (d : Decimal) : Decimal :=
  let count := ((Nat.toDigits 10 d.digits).reverse.takeWhile (· == '0')).length
  { digits := d.digits / Nat.pow 10 count, exponent := d.exponent + count }

/-- The shortest decimal for the size of a double that is finite and not zero. -/
def ofFloat (x : Float) : Decimal :=
  let bits := x.toBits.toNat % signBit
  let e : Nat := bits / binade
  let f : Nat := bits % binade
  trimmed (if e = 0 then shortest f (-1074) false
    else shortest (f + binade) ((e : Int) - 1075) (f == 0 && 1 < e))

end Decimal
end Taskwork
