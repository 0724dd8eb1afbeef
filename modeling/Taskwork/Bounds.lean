/-
Bounds of whole numbers, among them those of a word of some bits.
-/

namespace Taskwork

/-- The whole numbers from `least` to `greatest`. -/
structure Bounds where
  least : Int
  greatest : Int
  deriving DecidableEq, Repr, Inhabited

namespace Bounds

/-- What a word of so many bits holds if one of them is the sign. -/
def signed (bits : Nat) : Bounds := ⟨-(Nat.pow 2 (bits - 1) : Nat), (Nat.pow 2 (bits - 1) - 1 : Nat)⟩

/-- What a word of so many bits holds without a sign. -/
def unsigned (bits : Nat) : Bounds := ⟨0, (Nat.pow 2 bits - 1 : Nat)⟩

def contains (b : Bounds) (n : Int) : Bool := b.least ≤ n && n ≤ b.greatest

/-- The number within the bounds that is nearest to a number. -/
def clamp (b : Bounds) (n : Int) : Int :=
  if n < b.least then b.least else if b.greatest < n then b.greatest else n

end Bounds
end Taskwork
