import Mathlib
import ContractAbi.Wire.Basic
import ContractAbi.Text.Utf8

/-!
# Bytes that read back

The nested encoding writes numbers as big-endian bytes, either in a fixed width or in as few bytes
as hold them, signed ones in two's complement, and text as UTF-8. Reading gives each back:
`natOfBytes` undoes `bytesOfNatFixed` below the width's range and `bytesOfNat` always,
`intOfBytes` undoes `bytesOfInt`, and strict UTF-8 decoding undoes core's encoder.

Main statements: `natOfBytes_bytesOfNatFixed`, `natOfBytes_bytesOfNat`, `intOfBytes_bytesOfInt`,
`decodeUtf8_encodeUtf8`.
-/

namespace ContractAbi

namespace Wire

/-! ## Unsigned numbers -/

@[simp] theorem natOfBytes_nil : natOfBytes [] = 0 := rfl

theorem natOfBytes_append_singleton (bs : List UInt8) (b : UInt8) :
    natOfBytes (bs ++ [b]) = natOfBytes bs * 256 + b.toNat := by
  simp [natOfBytes, List.foldl_append]

@[simp] theorem toNat_toUInt8_mod (n : Nat) : (n % 256).toUInt8.toNat = n % 256 := by
  simp [Nat.toUInt8, UInt8.toNat_ofNat']

@[simp] theorem length_bytesOfNatFixed : ∀ (k n : Nat), (bytesOfNatFixed k n).length = k
  | 0, _ => rfl
  | k + 1, n => by simp [bytesOfNatFixed, length_bytesOfNatFixed k]

/-- Fixed-width bytes spell the number modulo the width's range. -/
theorem natOfBytes_bytesOfNatFixed : ∀ (k n : Nat), natOfBytes (bytesOfNatFixed k n) = n % 256 ^ k
  | 0, n => by simp [bytesOfNatFixed, Nat.mod_one]
  | k + 1, n => by
    rw [bytesOfNatFixed, natOfBytes_append_singleton, natOfBytes_bytesOfNatFixed k, toNat_toUInt8_mod,
      Nat.pow_succ, Nat.mul_comm (256 ^ k) 256, Nat.mod_mul]
    omega

/-- The first of `k + 1` fixed-width bytes is the number's digit at position `k`. -/
theorem bytesOfNatFixed_succ : ∀ (k n : Nat),
    bytesOfNatFixed (k + 1) n = (n / 256 ^ k % 256).toUInt8 :: bytesOfNatFixed k n
  | 0, n => by simp [bytesOfNatFixed]
  | k + 1, n => by
    have hdiv : n / 256 / 256 ^ k = n / 256 ^ (k + 1) := by
      rw [Nat.div_div_eq_div_mul, Nat.pow_succ']
    rw [bytesOfNatFixed, bytesOfNatFixed_succ k (n / 256), hdiv, List.cons_append]
    rfl

/-- Minimal bytes spell the number. -/
theorem natOfBytes_bytesOfNat (n : Nat) : natOfBytes (bytesOfNat n) = n := by
  fun_induction bytesOfNat n with
  | case1 => rfl
  | case2 n h ih => rw [natOfBytes_append_singleton, ih, toNat_toUInt8_mod]; omega

/-! ## Signed numbers -/

/-- `i` fits in `k` bytes of two's complement. -/
def FitsSigned (i : Int) (k : Nat) : Prop :=
  -(2 ^ (8 * k - 1) : Int) ≤ i ∧ i < 2 ^ (8 * k - 1)

instance (i : Int) (k : Nat) : Decidable (FitsSigned i k) :=
  inferInstanceAs (Decidable (_ ∧ _))

/-- The width search ends at a width that holds the number, provided the last width it may reach
does. -/
theorem signedWidth_go_fits (i : Int) : ∀ (fuel k : Nat), FitsSigned i (k + fuel) →
    k ≤ signedWidth.go i fuel k ∧ FitsSigned i (signedWidth.go i fuel k)
  | 0, k, h => ⟨Nat.le_refl k, h⟩
  | fuel + 1, k, h => by
    have hstep : signedWidth.go i (fuel + 1) k =
        if FitsSigned i k then k else signedWidth.go i fuel (k + 1) := rfl
    rw [hstep]
    split
    · exact ⟨Nat.le_refl k, ‹_›⟩
    · have hnext := signedWidth_go_fits i fuel (k + 1) (by rwa [Nat.add_right_comm, Nat.add_assoc])
      exact ⟨by omega, hnext.2⟩

/-- One byte more than the number's bit length always holds it. -/
theorem fitsSigned_log2 (i : Int) : FitsSigned i (1 + i.natAbs.log2) := by
  have hlt : i.natAbs < 2 ^ (8 * (1 + i.natAbs.log2) - 1) :=
    Nat.lt_of_lt_of_le Nat.lt_log2_self (Nat.pow_le_pow_right (by decide) (by omega))
  have hcast : (i.natAbs : Int) < 2 ^ (8 * (1 + i.natAbs.log2) - 1) := by exact_mod_cast hlt
  rcases Int.natAbs_eq i with h | h <;> constructor <;> omega

/-- The width chosen for a signed number is at least one byte and holds the number. -/
theorem signedWidth_fits (i : Int) : 1 ≤ signedWidth i ∧ FitsSigned i (signedWidth i) :=
  signedWidth_go_fits i _ 1 (fitsSigned_log2 i)

theorem pow_two_bytes (j : Nat) : Nat.pow 2 (8 * (j + 1)) = 256 * 256 ^ j := by
  rw [Nat.pow_eq, Nat.pow_mul, Nat.pow_succ, Nat.mul_comm]

/-- In `j + 1` bytes the signed range is `128 * 256 ^ j` either side of zero. -/
theorem fitsSigned_succ_iff (i : Int) (j : Nat) :
    FitsSigned i (j + 1) ↔ -((128 * 256 ^ j : Nat) : Int) ≤ i ∧ i < ((128 * 256 ^ j : Nat) : Int) := by
  have hhalf : (2 : Int) ^ (8 * (j + 1) - 1) = ((128 * 256 ^ j : Nat) : Int) := by
    rw [show 8 * (j + 1) - 1 = 7 + 8 * j by omega, Int.pow_add, Int.pow_mul]
    push_cast
    rfl
  rw [FitsSigned, hhalf]

/-- `j + 1` fixed bytes read back as two's complement: the top bit of the first byte is the
sign. -/
theorem intOfBytes_bytesOfNatFixed (j m : Nat) (hm : m < 256 * 256 ^ j) :
    intOfBytes (bytesOfNatFixed (j + 1) m) =
      if m < 128 * 256 ^ j then (m : Int) else (m : Int) - ((256 * 256 ^ j : Nat) : Int) := by
  have hP : 0 < 256 ^ j := Nat.pow_pos (by decide)
  rw [bytesOfNatFixed_succ]
  simp only [intOfBytes]
  have hdigit : m / 256 ^ j < 256 := (Nat.div_lt_iff_lt_mul hP).2 (by omega)
  rw [← bytesOfNatFixed_succ, natOfBytes_bytesOfNatFixed, length_bytesOfNatFixed, pow_two_bytes,
    Nat.mod_eq_of_lt (show m < 256 ^ (j + 1) by rw [Nat.pow_succ]; omega), toNat_toUInt8_mod,
    Nat.mod_eq_of_lt hdigit]
  simp only [Nat.div_lt_iff_lt_mul hP]

/-- Two's complement bytes spell the number back. -/
theorem intOfBytes_bytesOfInt (i : Int) : intOfBytes (bytesOfInt i) = i := by
  unfold bytesOfInt
  split
  · rename_i h
    rw [h]
    rfl
  · obtain ⟨hk, hfit⟩ := signedWidth_fits i
    obtain ⟨j, hj⟩ : ∃ j, signedWidth i = j + 1 := ⟨signedWidth i - 1, by omega⟩
    simp only [hj] at hfit ⊢
    rw [pow_two_bytes]
    obtain ⟨hlo, hhi⟩ := (fitsSigned_succ_iff i j).1 hfit
    have hP : 0 < 256 ^ j := Nat.pow_pos (by decide)
    have hres : (i % ((256 * 256 ^ j : Nat) : Int)).toNat < 256 * 256 ^ j := by
      have h₁ := Int.emod_nonneg i (show ((256 * 256 ^ j : Nat) : Int) ≠ 0 by omega)
      have h₂ := Int.emod_lt_of_pos i (show 0 < ((256 * 256 ^ j : Nat) : Int) by omega)
      omega
    rw [intOfBytes_bytesOfNatFixed _ _ hres]
    generalize 256 ^ j = P at hlo hhi hP ⊢
    rcases Int.lt_or_le i 0 with hneg | hpos
    · have hmod : i % ((256 * P : Nat) : Int) = i + ((256 * P : Nat) : Int) := by
        rw [← Int.add_emod_right]
        exact Int.emod_eq_of_lt (by omega) (by omega)
      rw [hmod]
      split <;> omega
    · have hmod : i % ((256 * P : Nat) : Int) = i := Int.emod_eq_of_lt hpos (by omega)
      rw [hmod]
      split <;> omega

end Wire

/-! ## UTF-8 text -/

namespace Text

/-- A one-byte character: an ASCII lead stands for itself. -/
theorem decodeUtf8Chars_one (a : UInt8) (rest : List UInt8) (h : a.toNat ≤ 0x7F) :
    decodeUtf8Chars (a :: rest) = (decodeUtf8Chars rest).map (Char.ofNat a.toNat :: ·) := by
  cases rest <;> simp [decodeUtf8Chars, h]

theorem decodeUtf8Chars_two (a b : UInt8) (rest : List UInt8)
    (ha : 0xC2 ≤ a.toNat ∧ a.toNat ≤ 0xDF) (hb : isTail b) :
    decodeUtf8Chars (a :: b :: rest) =
      (decodeUtf8Chars rest).map (Char.ofNat ((a.toNat % 32) * 64 + tailBits b) :: ·) := by
  rw [decodeUtf8Chars, if_neg (by omega), if_pos ha, if_pos hb]

theorem decodeUtf8Chars_three (a b c : UInt8) (rest : List UInt8)
    (ha : 0xE0 ≤ a.toNat ∧ a.toNat ≤ 0xEF)
    (hb : secondLow a.toNat ≤ b.toNat ∧ b.toNat ≤ secondHigh a.toNat) (hc : isTail c) :
    decodeUtf8Chars (a :: b :: c :: rest) =
      (decodeUtf8Chars rest).map
        (Char.ofNat ((a.toNat % 16) * 4096 + tailBits b * 64 + tailBits c) :: ·) := by
  rw [decodeUtf8Chars, if_neg (by omega), if_neg (by omega), if_pos ha]
  simp only [if_pos (And.intro hb.1 (And.intro hb.2 hc))]

theorem decodeUtf8Chars_four (a b c d : UInt8) (rest : List UInt8)
    (ha : 0xF0 ≤ a.toNat ∧ a.toNat ≤ 0xF4)
    (hb : secondLow a.toNat ≤ b.toNat ∧ b.toNat ≤ secondHigh a.toNat) (hc : isTail c)
    (hd : isTail d) :
    decodeUtf8Chars (a :: b :: c :: d :: rest) =
      (decodeUtf8Chars rest).map (Char.ofNat
        ((a.toNat % 8) * 262144 + tailBits b * 4096 + tailBits c * 64 + tailBits d) :: ·) := by
  rw [decodeUtf8Chars, if_neg (by omega), if_neg (by omega), if_neg (by omega), if_pos ha]
  simp only [if_pos (And.intro hb.1 (And.intro hb.2 (And.intro hc hd)))]

theorem toNat_ofNat_byte {n : Nat} (h : n < 256) : (UInt8.ofNat n).toNat = n :=
  UInt8.toNat_ofNat_of_lt' h

/-- A byte the encoder writes as `x % 64 + 0x80` is a continuation byte carrying `x % 64`. -/
theorem tail_ofNat (x : Nat) :
    isTail (UInt8.ofNat (x % 64 + 0x80)) = true ∧ tailBits (UInt8.ofNat (x % 64 + 0x80)) = x % 64 := by
  have h := toNat_ofNat_byte (show x % 64 + 0x80 < 256 by omega)
  simp only [isTail, tailBits, h, Bool.and_eq_true, decide_eq_true_eq]
  omega

/-- The second byte of a three-byte character is in the range its lead allows: the encoder
writes no overlong form, and a valid code point is no surrogate. -/
theorem second_within_three (v : Nat) (hv : v < 0xD800 ∨ 0xDFFF < v ∧ v < 0x110000)
    (h2 : ¬ v ≤ 0x7FF) (h3 : v ≤ 0xFFFF) :
    secondLow (v / 4096 % 16 + 0xE0) ≤ v / 64 % 64 + 0x80 ∧
      v / 64 % 64 + 0x80 ≤ secondHigh (v / 4096 % 16 + 0xE0) := by
  unfold secondLow secondHigh
  constructor <;> split <;> (try split) <;> omega

/-- The second byte of a four-byte character is in the range its lead allows: no overlong form,
nothing above U+10FFFF. -/
theorem second_within_four (v : Nat) (hv : v < 0x110000) (h3 : ¬ v ≤ 0xFFFF) :
    secondLow (v / 262144 % 8 + 0xF0) ≤ v / 4096 % 64 + 0x80 ∧
      v / 4096 % 64 + 0x80 ≤ secondHigh (v / 262144 % 8 + 0xF0) := by
  unfold secondLow secondHigh
  constructor <;> split <;> (try split) <;> omega

/-- Decoding strict UTF-8 reads back the bytes core writes for one character, whatever follows. -/
theorem decodeUtf8Chars_encodeChar (ch : Char) (rest : List UInt8) :
    decodeUtf8Chars (String.utf8EncodeChar ch ++ rest) = (decodeUtf8Chars rest).map (ch :: ·) := by
  have hv := ch.valid
  simp only [UInt32.isValidChar, Nat.isValidChar] at hv
  have hch : Char.ofNat ch.val.toNat = ch := Char.ofNat_toNat ch
  simp only [String.utf8EncodeChar]
  generalize ch.val.toNat = v at hv hch ⊢
  subst hch
  split
  · rename_i h1
    have ha := toNat_ofNat_byte (show v < 256 by omega)
    rw [List.singleton_append, decodeUtf8Chars_one _ _ (by omega), ha]
  split
  · rename_i h1 h2
    have ha := toNat_ofNat_byte (show v / 64 % 32 + 0xC0 < 256 by omega)
    obtain ⟨ht, hbits⟩ := tail_ofNat v
    rw [List.cons_append, List.singleton_append, decodeUtf8Chars_two _ _ _ (by omega) ht, ha, hbits,
      show (v / 64 % 32 + 0xC0) % 32 * 64 + v % 64 = v by omega]
  split
  · rename_i h1 h2 h3
    have ha := toNat_ofNat_byte (show v / 4096 % 16 + 0xE0 < 256 by omega)
    have hb := toNat_ofNat_byte (show v / 64 % 64 + 0x80 < 256 by omega)
    obtain ⟨ht₁, hbits₁⟩ := tail_ofNat (v / 64)
    obtain ⟨ht₂, hbits₂⟩ := tail_ofNat v
    rw [List.cons_append, List.cons_append, List.singleton_append,
      decodeUtf8Chars_three _ _ _ _ (by omega) (by rw [ha, hb]; exact second_within_three v hv h2 h3)
        ht₂, ha, hbits₁, hbits₂,
      show (v / 4096 % 16 + 0xE0) % 16 * 4096 + v / 64 % 64 * 64 + v % 64 = v by omega]
  · rename_i h1 h2 h3
    have ha := toNat_ofNat_byte (show v / 262144 % 8 + 0xF0 < 256 by omega)
    have hb := toNat_ofNat_byte (show v / 4096 % 64 + 0x80 < 256 by omega)
    obtain ⟨ht₁, hbits₁⟩ := tail_ofNat (v / 4096)
    obtain ⟨ht₂, hbits₂⟩ := tail_ofNat (v / 64)
    obtain ⟨ht₃, hbits₃⟩ := tail_ofNat v
    rw [List.cons_append, List.cons_append, List.cons_append, List.singleton_append,
      decodeUtf8Chars_four _ _ _ _ _ (by omega)
        (by rw [ha, hb]; exact second_within_four v (by omega) h3) ht₂ ht₃, ha, hbits₁, hbits₂,
        hbits₃,
      show (v / 262144 % 8 + 0xF0) % 8 * 262144 + v / 4096 % 64 * 4096 + v / 64 % 64 * 64 + v % 64 = v
        by omega]

/-- Strict UTF-8 decoding reads back every text core encodes. -/
theorem decodeUtf8_encodeUtf8 (s : String) : decodeUtf8 (encodeUtf8 s) = some s := by
  have hchars : ∀ cs : List Char, decodeUtf8Chars (cs.flatMap String.utf8EncodeChar) = some cs := by
    intro cs
    induction cs with
    | nil => rfl
    | cons c cs ih => rw [List.flatMap_cons, decodeUtf8Chars_encodeChar, ih]; rfl
  rw [decodeUtf8, encodeUtf8, hchars, Option.map_some, String.ofList_toList]

end Text

end ContractAbi
