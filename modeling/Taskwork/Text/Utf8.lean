/-
Text as bytes in UTF-8. Reading stops at the first sequence that no character has, and tells how
many bytes of it could still have begun one; a tolerant reading puts the replacement character in
the place of each such sequence.
-/

namespace Taskwork

abbrev Bytes := List UInt8

namespace Utf8

/-- The bytes of one character. -/
def encodeChar (c : Char) : Bytes :=
  let n := c.toNat
  if n < 0x80 then [UInt8.ofNat n]
  else if n < 0x800 then [UInt8.ofNat (0xC0 + n / 64), UInt8.ofNat (0x80 + n % 64)]
  else if n < 0x10000 then
    [UInt8.ofNat (0xE0 + n / 4096), UInt8.ofNat (0x80 + n / 64 % 64), UInt8.ofNat (0x80 + n % 64)]
  else
    [UInt8.ofNat (0xF0 + n / 262144), UInt8.ofNat (0x80 + n / 4096 % 64),
      UInt8.ofNat (0x80 + n / 64 % 64), UInt8.ofNat (0x80 + n % 64)]

/-- The bytes of a text. -/
def encode (s : String) : Bytes := s.toList.flatMap encodeChar

/-- What bytes begin with. -/
inductive Head where
  /-- A character that takes `size` bytes. -/
  | char (c : Char) (size : Nat)
  /-- `size` bytes that begin no character with the byte after them. -/
  | invalid (size : Nat)
  /-- The beginning of a character, cut off by the end. -/
  | incomplete
  deriving Repr, DecidableEq

/-- How many bytes follow a first byte, and the range of the first of them. -/
def following? (b : Nat) : Option (Nat × Nat × Nat) :=
  if b < 0xC2 then none
  else if b < 0xE0 then some (1, 0x80, 0xBF)
  else if b = 0xE0 then some (2, 0xA0, 0xBF)
  else if b = 0xED then some (2, 0x80, 0x9F)
  else if b < 0xF0 then some (2, 0x80, 0xBF)
  else if b = 0xF0 then some (3, 0x90, 0xBF)
  else if b < 0xF4 then some (3, 0x80, 0xBF)
  else if b = 0xF4 then some (3, 0x80, 0x8F)
  else none

/-- Whether a byte goes on with a character. -/
def isFollowing (b : Nat) : Bool := 0x80 ≤ b && b ≤ 0xBF

/-- What the bytes `b :: rest` begin with. -/
def head (b : UInt8) (rest : Bytes) : Head :=
  let n := b.toNat
  if n < 0x80 then .char (Char.ofNat n) 1
  else
    match following? n with
    | none => .invalid 1
    | some (count, low, high) =>
      match rest with
      | [] => .incomplete
      | b1 :: rest1 =>
        let n1 := b1.toNat
        if n1 < low || high < n1 then .invalid 1
        else if count = 1 then .char (Char.ofNat ((n - 0xC0) * 64 + (n1 - 0x80))) 2
        else
          match rest1 with
          | [] => .incomplete
          | b2 :: rest2 =>
            let n2 := b2.toNat
            if !isFollowing n2 then .invalid 2
            else if count = 2 then
              .char (Char.ofNat ((n - 0xE0) * 4096 + (n1 - 0x80) * 64 + (n2 - 0x80))) 3
            else
              match rest2 with
              | [] => .incomplete
              | b3 :: _ =>
                let n3 := b3.toNat
                if !isFollowing n3 then .invalid 3
                else
                  .char (Char.ofNat ((n - 0xF0) * 262144 + (n1 - 0x80) * 4096 +
                    (n2 - 0x80) * 64 + (n3 - 0x80))) 4

/-- Where and how bytes fail to be a text. -/
structure Malformed where
  index : Nat
  /-- The number of wrong bytes; none if the end cuts a character off. -/
  size : Option Nat
  deriving DecidableEq, Repr

def Malformed.message (m : Malformed) : String :=
  match m.size with
  | some n => "invalid utf-8 sequence of " ++ toString n ++ " bytes from index " ++ toString m.index
  | none => "incomplete utf-8 byte sequence from index " ++ toString m.index

/-- Reads characters; `index` counts the bytes before, `skip` those that belong to the character
read last. -/
def decodeFrom (index skip : Nat) : Bytes → Except Malformed (List Char)
  | [] => .ok []
  | b :: rest =>
    match skip with
    | k + 1 => decodeFrom (index + 1) k rest
    | 0 =>
      match head b rest with
      | .char c size => (decodeFrom (index + 1) (size - 1) rest).map (c :: ·)
      | .invalid size => .error ⟨index, some size⟩
      | .incomplete => .error ⟨index, none⟩

/-- The text of some bytes. -/
def decode (bytes : Bytes) : Except Malformed String :=
  (decodeFrom 0 0 bytes).map String.ofList

def decode? (bytes : Bytes) : Option String := (decode bytes).toOption

/-- The character that stands for bytes which are no text. -/
def replacement : Char := Char.ofNat 0xFFFD

def decodeLossyFrom (skip : Nat) : Bytes → List Char
  | [] => []
  | b :: rest =>
    match skip with
    | k + 1 => decodeLossyFrom k rest
    | 0 =>
      match head b rest with
      | .char c size => c :: decodeLossyFrom (size - 1) rest
      | .invalid size => replacement :: decodeLossyFrom (size - 1) rest
      | .incomplete => [replacement]

/-- The text of some bytes, with the replacement character for what is no text. -/
def decodeLossy (bytes : Bytes) : String := String.ofList (decodeLossyFrom 0 bytes)

end Utf8
end Taskwork
