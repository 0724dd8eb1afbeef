/-
The double nearest to a fraction. A double that is not negative is `m · 2 ^ q` for `m` below
`2 ^ 53` and `q` from `-1074` on; a fraction halfway between two of them goes to the one with the
even `m`.
-/

namespace Taskwork.Decimal

/-- The whole number nearest to a fraction; a half goes to the even neighbour. -/
def roundDiv (num den : Nat) : Nat :=
  let q := num / den
  let r := num % den
  if den < 2 * r ∨ (2 * r = den ∧ q % 2 = 1) then q + 1 else q

/-- A fraction divided by a power of two. -/
def scaled (num den : Nat) (q : Int) : Nat × Nat :=
  if 0 ≤ q then (num, den * Nat.pow 2 q.toNat) else (num * Nat.pow 2 (-q).toNat, den)

/-- The `e` for which a fraction above zero is at least `2 ^ e` and below `2 ^ (e + 1)`. -/
def binaryExponent (num den : Nat) : Int :=
  let guess : Int := (num.log2 : Int) - (den.log2 : Int)
  let (n, d) := scaled num den guess
  if n < d then guess - 1 else guess

/-- The number of doubles from one power of two up to the next; the bits above the sign and this
count are the exponent. -/
def binade : Nat := 0x10000000000000

/-- The bit that is the sign. -/
def signBit : Nat := 0x8000000000000000

/-- The bits of infinity. -/
def infinityBits : Nat := 0x7FF0000000000000

/-- The bits of the double nearest to a fraction. Bits count doubles in their order, so a number
that is rounded up to the next power of two has the bits that follow. -/
def nearestBits (num den : Nat) : Nat :=
  if num = 0 then 0
  else
    let q := max (binaryExponent num den - 52) (-1074)
    let (n, d) := scaled num den q
    min infinityBits ((q + 1074).toNat * binade + roundDiv n d)

/-- The number of decimal digits of a number. -/
def size (n : Nat) : Nat := (Nat.toDigits 10 n).length

/-- The double nearest to `digits · 10 ^ exponent`. Numbers far beyond the range of doubles are
told apart without writing them out. -/
def nearest (digits : Nat) (exponent : Int) : Float :=
  let place := exponent + size digits
  let bits :=
    if digits = 0 ∨ place < -400 then 0
    else if 400 < place then infinityBits
    else if 0 ≤ exponent then nearestBits (digits * Nat.pow 10 exponent.toNat) 1
    else nearestBits digits (Nat.pow 10 (-exponent).toNat)
  Float.ofBits (UInt64.ofNat bits)

end Taskwork.Decimal
