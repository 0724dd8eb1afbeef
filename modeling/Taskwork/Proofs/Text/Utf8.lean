/-
UTF-8 read back: the bytes of a text, and of a text followed by other bytes, give the text. The
proof is by the four lengths of a character; the ranges of the second byte are what keeps overlong
forms and surrogates out, and each is met because a character is a scalar value.
-/
import Taskwork.Text.Utf8
import Mathlib.Tactic

namespace Taskwork.Utf8

/-! ## One character -/

theorem toNat_ofNat_of_lt {n : Nat} (h : n < 256) : (UInt8.ofNat n).toNat = n := by
  rw [UInt8.toNat_ofNat']; omega

/-- The scalar values: below the surrogates, or above them and within the code space. -/
theorem scalar_of_char (c : Char) : c.toNat < 0xD800 ∨ (0xDFFF < c.toNat ∧ c.toNat < 0x110000) :=
  c.valid

theorem encodeChar_ne_nil (c : Char) : encodeChar c ≠ [] := by
  unfold encodeChar; dsimp only; split_ifs <;> simp

/-- The number of bytes of a character. -/
def width (c : Char) : Nat := (encodeChar c).length

theorem head_one {n : Nat} (h : n < 0x80) (rest : Bytes) :
    head (UInt8.ofNat n) rest = .char (Char.ofNat n) 1 := by
  simp only [head, toNat_ofNat_of_lt (show n < 256 by omega), if_pos h]

theorem head_two {n : Nat} (h : 0x80 ≤ n) (h' : n < 0x800) (rest : Bytes) :
    head (UInt8.ofNat (0xC0 + n / 64)) (UInt8.ofNat (0x80 + n % 64) :: rest) =
      .char (Char.ofNat n) 2 := by
  have hb : (UInt8.ofNat (0xC0 + n / 64)).toNat = 0xC0 + n / 64 := toNat_ofNat_of_lt (by omega)
  have h1 : (UInt8.ofNat (0x80 + n % 64)).toNat = 0x80 + n % 64 := toNat_ofNat_of_lt (by omega)
  have hf : following? (0xC0 + n / 64) = some (1, 0x80, 0xBF) := by
    unfold following?; rw [if_neg (by omega), if_pos (by omega)]
  have hv : (0xC0 + n / 64 - 0xC0) * 64 + (0x80 + n % 64 - 0x80) = n := by omega
  simp only [head, hb, hf, h1, hv]
  rw [if_neg (by omega), if_neg (by simp; omega)]
  simp

/-- The second byte is in its range because `n` is not a surrogate. -/
theorem head_three {n : Nat} (h : 0x800 ≤ n) (h' : n < 0x10000) (hs : n < 0xD800 ∨ 0xDFFF < n)
    (rest : Bytes) :
    head (UInt8.ofNat (0xE0 + n / 4096))
        (UInt8.ofNat (0x80 + n / 64 % 64) :: UInt8.ofNat (0x80 + n % 64) :: rest) =
      .char (Char.ofNat n) 3 := by
  have hb : (UInt8.ofNat (0xE0 + n / 4096)).toNat = 0xE0 + n / 4096 := toNat_ofNat_of_lt (by omega)
  have h1 : (UInt8.ofNat (0x80 + n / 64 % 64)).toNat = 0x80 + n / 64 % 64 :=
    toNat_ofNat_of_lt (by omega)
  have h2 : (UInt8.ofNat (0x80 + n % 64)).toNat = 0x80 + n % 64 := toNat_ofNat_of_lt (by omega)
  obtain ⟨low, high, hf, hl, hh⟩ : ∃ low high, following? (0xE0 + n / 4096) = some (2, low, high) ∧
      low ≤ 0x80 + n / 64 % 64 ∧ 0x80 + n / 64 % 64 ≤ high := by
    unfold following?
    split_ifs <;> first | omega | (refine ⟨_, _, rfl, ?_, ?_⟩ <;> omega)
  have hv : (0xE0 + n / 4096 - 0xE0) * 4096 + (0x80 + n / 64 % 64 - 0x80) * 64 +
      (0x80 + n % 64 - 0x80) = n := by omega
  simp only [head, hb, hf, h1, h2, hv]
  rw [if_neg (by omega), if_neg (by simp; omega), if_neg (by omega),
    if_neg (by simp [isFollowing]; omega)]
  simp

/-- The second byte is in its range because `n` lies within the code space. -/
theorem head_four {n : Nat} (h : 0x10000 ≤ n) (h' : n < 0x110000) (rest : Bytes) :
    head (UInt8.ofNat (0xF0 + n / 262144)) (UInt8.ofNat (0x80 + n / 4096 % 64) ::
        UInt8.ofNat (0x80 + n / 64 % 64) :: UInt8.ofNat (0x80 + n % 64) :: rest) =
      .char (Char.ofNat n) 4 := by
  have hb : (UInt8.ofNat (0xF0 + n / 262144)).toNat = 0xF0 + n / 262144 :=
    toNat_ofNat_of_lt (by omega)
  have h1 : (UInt8.ofNat (0x80 + n / 4096 % 64)).toNat = 0x80 + n / 4096 % 64 :=
    toNat_ofNat_of_lt (by omega)
  have h2 : (UInt8.ofNat (0x80 + n / 64 % 64)).toNat = 0x80 + n / 64 % 64 :=
    toNat_ofNat_of_lt (by omega)
  have h3 : (UInt8.ofNat (0x80 + n % 64)).toNat = 0x80 + n % 64 := toNat_ofNat_of_lt (by omega)
  obtain ⟨low, high, hf, hl, hh⟩ : ∃ low high, following? (0xF0 + n / 262144) = some (3, low, high) ∧
      low ≤ 0x80 + n / 4096 % 64 ∧ 0x80 + n / 4096 % 64 ≤ high := by
    unfold following?
    split_ifs <;> first | omega | (refine ⟨_, _, rfl, ?_, ?_⟩ <;> omega)
  have hv : (0xF0 + n / 262144 - 0xF0) * 262144 + (0x80 + n / 4096 % 64 - 0x80) * 4096 +
      (0x80 + n / 64 % 64 - 0x80) * 64 + (0x80 + n % 64 - 0x80) = n := by omega
  simp only [head, hb, hf, h1, h2, h3, hv]
  rw [if_neg (by omega), if_neg (by simp; omega), if_neg (by omega),
    if_neg (by simp [isFollowing]; omega), if_neg (by omega), if_neg (by simp [isFollowing]; omega)]

/-- What the bytes of a character begin with, whatever follows them. -/
theorem head_encodeChar (c : Char) (b : UInt8) (tail rest : Bytes) (h : encodeChar c = b :: tail) :
    head b (tail ++ rest) = .char c (width c) := by
  have hs := scalar_of_char c
  have hw : width c = tail.length + 1 := by rw [width, h]; rfl
  rw [hw, ← Char.ofNat_toNat c]
  unfold encodeChar at h
  dsimp only at h
  split_ifs at h with h1 h2 h3 <;> cases h
  · exact head_one h1 rest
  · exact head_two (by omega) h2 rest
  · exact head_three (by omega) h3 (by omega) rest
  · exact head_four (by omega) (by omega) rest

/-! ## Texts -/

/-- Bytes that belong to the character read last are passed over. -/
theorem decodeFrom_skip (passed rest : Bytes) (index : Nat) :
    decodeFrom index passed.length (passed ++ rest) = decodeFrom (index + passed.length) 0 rest := by
  induction passed generalizing index with
  | nil => rfl
  | cons b passed ih =>
    rw [List.cons_append, List.length_cons, decodeFrom, ih]
    congr 1; omega

theorem decodeFrom_encodeChar (c : Char) (rest : Bytes) (index : Nat) :
    decodeFrom index 0 (encodeChar c ++ rest) =
      (decodeFrom (index + width c) 0 rest).map (c :: ·) := by
  obtain ⟨b, tail, h⟩ := List.exists_cons_of_ne_nil (encodeChar_ne_nil c)
  have hw : width c = tail.length + 1 := by rw [width, h]; rfl
  rw [h, List.cons_append, decodeFrom, head_encodeChar c b tail rest h]
  dsimp only
  rw [hw, Nat.add_sub_cancel, decodeFrom_skip]
  congr 2; omega

theorem decodeFrom_flatMap (cs : List Char) (rest : Bytes) (index : Nat) :
    decodeFrom index 0 (cs.flatMap encodeChar ++ rest) =
      (decodeFrom (index + (cs.flatMap encodeChar).length) 0 rest).map (cs ++ ·) := by
  induction cs generalizing index with
  | nil =>
    rw [List.flatMap_nil, List.nil_append, List.length_nil, Nat.add_zero]
    cases decodeFrom index 0 rest <;> rfl
  | cons c cs ih =>
    rw [List.flatMap_cons, List.append_assoc, decodeFrom_encodeChar, ih, List.length_append,
      ← width, Nat.add_assoc]
    cases decodeFrom (index + (width c + (cs.flatMap encodeChar).length)) 0 rest <;> rfl

/-- Reading the bytes of a text gives the text. -/
theorem decode_encode (s : String) : decode (encode s) = .ok s := by
  have h := decodeFrom_flatMap s.toList [] 0
  rw [List.append_nil, decodeFrom] at h
  rw [decode, encode, h]
  simp [Except.map]

end Taskwork.Utf8
