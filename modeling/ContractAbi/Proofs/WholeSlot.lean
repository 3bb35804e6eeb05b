import ContractAbi.Wire.Outputs
import ContractAbi.Wire.Arg
import ContractAbi.Proofs.ByteRoundTrip

/-!
# Whole-slot values and call arguments

A whole-slot unsigned integer may carry any number of leading zero bytes. Its other bytes are
shifted into a 64-bit word one at a time and the word is narrowed to the integer's type, after a
check that compares the number of those bytes, not the number they spell, with the type's width.
For widths up to eight bytes the two agree: the slot is accepted exactly when the number it
spells is below `256 ^ width`, and then neither the word nor the narrowing loses a bit. A
boolean slot is true exactly when it spells one.

Call arguments travel the other way, as hexadecimal text. For every primitive kind and every
value its bindings can hold, reading the argument's text back and decoding the bytes as a whole
slot of that kind gives the value again.

Main statements: `whole_slot_integers_exact` and `arguments_read_back`.
-/

namespace ContractAbi

namespace Text

/-! ## The bytes of a text -/

theorem toList_loop_eq (bs : ByteArray) (i : Nat) (r : List UInt8) :
    ByteArray.toList.loop bs i r = r.reverse ++ bs.data.toList.drop i := by
  fun_induction ByteArray.toList.loop bs i r with
  | case1 i r hi ih =>
    have hlen : i < bs.data.toList.length := by
      rw [Array.length_toList, ByteArray.size_data]
      exact hi
    rw [ih, List.reverse_cons, List.append_assoc, List.singleton_append,
      List.drop_eq_getElem_cons (i := i) hlen]
    simp [ByteArray.get!, hi]
  | case2 i r hi =>
    have hlen : bs.data.toList.length ≤ i := by
      rw [Array.length_toList, ByteArray.size_data]
      exact Nat.le_of_not_lt hi
    simp [List.drop_eq_nil_of_le hlen]

/-- The UTF-8 bytes core gives a text are those `encodeUtf8` writes. -/
theorem toUTF8_toList (s : String) : s.toUTF8.toList = encodeUtf8 s := by
  rw [ByteArray.toList, toList_loop_eq, String.toUTF8_eq_toByteArray, ← String.utf8Encode_toList,
    List.utf8Encode, List.toList_data_toByteArray]
  rfl

/-! ## Hexadecimal text reads back -/

/-- A digit is one byte of UTF-8, and that byte reads back as the digit's value. -/
theorem hexDigit_byte : ∀ n < 16, String.utf8EncodeChar (hexDigit n) = [(hexDigit n).val.toUInt8] ∧
    digitValue? (hexDigit n).val.toUInt8 = some n := by
  decide

theorem encodeUtf8_toHex (bs : List UInt8) :
    encodeUtf8 (toHex bs) = bs.flatMap fun b => (hexPair b).map (·.val.toUInt8) := by
  rw [encodeUtf8, toHex, String.toList_ofList, List.flatMap_assoc]
  congr 1
  funext b
  have hb := b.toNat_lt
  simp [hexPair, (hexDigit_byte (b.toNat / 16) (by omega)).1,
    (hexDigit_byte (b.toNat % 16) (by omega)).1]

theorem readPairs_hexPair (i : Nat) (bs : List UInt8) :
    readPairs i (bs.flatMap fun b => (hexPair b).map (·.val.toUInt8)) = .ok bs := by
  induction bs generalizing i with
  | nil => rfl
  | cons b bs ih =>
    have hb := b.toNat_lt
    have hdigits : (b.toNat / 16 * 16 + b.toNat % 16).toUInt8 = b := by
      rw [show b.toNat / 16 * 16 + b.toNat % 16 = b.toNat by omega]
      exact UInt8.ofNat_toNat
    rw [List.flatMap_cons, hexPair, List.map_cons, List.map_cons, List.map_nil, List.cons_append,
      List.cons_append, List.nil_append, readPairs, (hexDigit_byte _ (by omega)).2,
      (hexDigit_byte _ (by omega)).2]
    simp only [ih, Except.map, hdigits]

/-- Reading the hexadecimal text of a byte string gives the bytes back. -/
theorem ofHex_toHex (bs : List UInt8) : ofHex (toHex bs) = .ok bs := by
  have heven : (bs.flatMap fun b => (hexPair b).map (·.val.toUInt8)).length % 2 = 0 := by
    simp [List.length_flatMap, hexPair]
  rw [ofHex]
  simp only [toUTF8_toList, encodeUtf8_toHex, heven]
  exact readPairs_hexPair 0 bs

end Text

namespace Wire

/-! ## Big-endian numbers -/

theorem foldl_byte_value (a : Nat) (bs : List UInt8) :
    bs.foldl (fun acc b => acc * 256 + b.toNat) a = a * 256 ^ bs.length + natOfBytes bs := by
  induction bs generalizing a with
  | nil => simp [natOfBytes]
  | cons b bs ih =>
    simp only [List.foldl_cons, natOfBytes, List.length_cons] at ih ⊢
    rw [ih, ih (0 * 256 + b.toNat)]
    ring

theorem natOfBytes_cons (b : UInt8) (bs : List UInt8) :
    natOfBytes (b :: bs) = b.toNat * 256 ^ bs.length + natOfBytes bs := by
  simp only [natOfBytes, List.foldl_cons]
  rw [foldl_byte_value, Nat.zero_mul, Nat.zero_add]
  rfl

theorem natOfBytes_lt (bs : List UInt8) : natOfBytes bs < 256 ^ bs.length := by
  induction bs with
  | nil => simp
  | cons b bs ih =>
    have hb := b.toNat_lt
    calc natOfBytes (b :: bs)
        = b.toNat * 256 ^ bs.length + natOfBytes bs := natOfBytes_cons b bs
      _ < b.toNat * 256 ^ bs.length + 256 ^ bs.length := Nat.add_lt_add_left ih _
      _ = (b.toNat + 1) * 256 ^ bs.length := by rw [Nat.succ_mul]
      _ ≤ 256 * 256 ^ bs.length := Nat.mul_le_mul_right _ (by omega)
      _ = 256 ^ (b :: bs).length := by rw [List.length_cons, Nat.pow_succ, Nat.mul_comm]

/-- Leading zero bytes add nothing. -/
theorem natOfBytes_dropWhile_zero (bs : List UInt8) :
    natOfBytes (bs.dropWhile (· == 0)) = natOfBytes bs := by
  induction bs with
  | nil => rfl
  | cons b bs ih =>
    by_cases hb : b = 0
    · subst hb
      simp [natOfBytes_cons, ih]
    · simp [hb]

/-- The first byte after the leading zeros is not zero. -/
theorem significant_head_pos {bs rest : List UInt8} {b : UInt8}
    (h : bs.dropWhile (· == 0) = b :: rest) : 0 < b.toNat := by
  have hne := List.head_dropWhile_not (fun x : UInt8 => x == 0) (l := bs) (by simp [h])
  have hb : b ≠ 0 := by simpa [h] using hne
  rcases Nat.eq_zero_or_pos b.toNat with h0 | h0
  · exact absurd (UInt8.toNat_inj.1 (h0.trans UInt8.toNat_zero.symm)) hb
  · exact h0

/-- A byte string with a non-zero first byte spells at least `256 ^ k`, `k` the bytes after it. -/
theorem pow_le_natOfBytes {b : UInt8} (rest : List UInt8) (hb : 0 < b.toNat) :
    256 ^ rest.length ≤ natOfBytes (b :: rest) := by
  rw [natOfBytes_cons]
  exact Nat.le_trans (Nat.le_mul_of_pos_left _ hb) (Nat.le_add_right _ _)

/-- The bytes after the leading zeros are no more than `w` exactly when the number is below
`256 ^ w`: the first of them is not zero. -/
theorem length_significant_le_iff (bs : List UInt8) (w : Nat) :
    (bs.dropWhile (· == 0)).length ≤ w ↔ natOfBytes bs < 256 ^ w := by
  rw [← natOfBytes_dropWhile_zero]
  cases hsig : bs.dropWhile (· == 0) with
  | nil => simp
  | cons b rest =>
    have hlow := pow_le_natOfBytes rest (significant_head_pos hsig)
    have hhigh := natOfBytes_lt (b :: rest)
    rw [List.length_cons] at hhigh ⊢
    constructor
    · intro hw
      exact Nat.lt_of_lt_of_le hhigh (Nat.pow_le_pow_right (by decide) hw)
    · intro hn
      have := (Nat.pow_lt_pow_iff_right (by decide : 1 < 256)).1 (Nat.lt_of_le_of_lt hlow hn)
      omega

/-! ## Whole-slot integers -/

/-- Shifting a byte into a word below `2 ^ 56` loses nothing. -/
theorem shiftIn_toNat (a : UInt64) (b : UInt8) (ha : a.toNat < 2 ^ 56) :
    ((a <<< 8) ||| b.toUInt64).toNat = a.toNat * 256 + b.toNat := by
  have hb := b.toNat_lt
  have hshift : (a.toNat <<< ((8 : UInt64).toNat % 64)) % 2 ^ 64 = a.toNat <<< 8 := by
    rw [show (8 : UInt64).toNat % 64 = 8 from rfl, Nat.shiftLeft_eq]
    exact Nat.mod_eq_of_lt (by omega)
  rw [UInt64.toNat_or, UInt64.toNat_shiftLeft, hshift, UInt8.toNat_toUInt64,
    ← Nat.shiftLeft_add_eq_or_of_lt (by simpa using hb), Nat.shiftLeft_eq]

/-- At most eight bytes shifted into a word give the number they spell. -/
theorem foldl_shiftIn_toNat (bs : List UInt8) (h : bs.length ≤ 8) :
    (bs.foldl (fun (acc : UInt64) b => (acc <<< 8) ||| b.toUInt64) 0).toNat = natOfBytes bs := by
  induction bs using List.reverseRecOn with
  | nil => rfl
  | append_singleton bs b ih =>
    rw [List.length_append, List.length_singleton] at h
    have hfit : natOfBytes bs < 2 ^ 56 :=
      Nat.lt_of_lt_of_le (natOfBytes_lt bs)
        (by rw [show (2 : Nat) ^ 56 = 256 ^ 7 by norm_num]; exact Nat.pow_le_pow_right (by decide) (by omega))
    rw [List.foldl_append, List.foldl_cons, List.foldl_nil, shiftIn_toNat _ _ (by rw [ih (by omega)]; exact hfit),
      ih (by omega), natOfBytes_append_singleton]

section Unsigned

variable {w : Nat} (t : String) (s : List UInt8)

/-- A whole-slot unsigned integer of at most eight bytes: the slot is accepted exactly when the
number it spells is below `256 ^ w`, and the word then holds that number. -/
theorem topUnsigned_toNat (hw : w ≤ 8) :
    (topUnsigned w t s).map UInt64.toNat =
      if natOfBytes s < 256 ^ w then .ok (natOfBytes s) else .error (.overflow t s.length) := by
  unfold topUnsigned
  dsimp only
  by_cases hlen : (s.dropWhile (· == 0)).length ≤ w
  · have hn := (length_significant_le_iff s w).1 hlen
    rw [if_neg (Nat.not_lt.2 hlen), if_pos hn, Except.map, foldl_shiftIn_toNat _ (by omega),
      natOfBytes_dropWhile_zero]
  · have hn : ¬ natOfBytes s < 256 ^ w := fun h => hlen ((length_significant_le_iff s w).2 h)
    rw [if_pos (Nat.lt_of_not_le hlen), if_neg hn]
    rfl

/-- A whole-slot unsigned integer of a type of at most eight bytes: the number the slot spells
when it is below `256 ^ w`, else an overflow naming the slot's length. -/
theorem topFixed_eq (hw : w ≤ 8) :
    topFixed w t s =
      if natOfBytes s < 256 ^ w then .ok (natOfBytes s) else .error (.overflow t s.length) := by
  have hword := topUnsigned_toNat t s hw
  have hnarrow : topFixed w t s = ((topUnsigned w t s).map UInt64.toNat).map (· % 256 ^ w) := by
    unfold topFixed
    cases topUnsigned w t s <;> rfl
  rw [hnarrow, hword]
  split
  · rename_i hn
    rw [Except.map, Nat.mod_eq_of_lt hn]
  · rfl

end Unsigned

theorem natOfBytes_replicate_zero (k : Nat) : natOfBytes (List.replicate k 0) = 0 := by
  induction k with
  | zero => rfl
  | succ k ih => simp [List.replicate_succ, natOfBytes_cons, ih]

/-- Bytes that spell one are leading zeros and then a single one. -/
theorem dropWhile_zero_of_natOfBytes_eq_one {s : List UInt8} (h1 : natOfBytes s = 1) :
    s.dropWhile (· == 0) = [1] := by
  rw [← natOfBytes_dropWhile_zero] at h1
  cases hd : s.dropWhile (· == 0) with
  | nil => rw [hd] at h1; cases h1
  | cons b rest =>
    rw [hd] at h1
    cases rest with
    | nil =>
      rw [natOfBytes_cons] at h1
      simp only [List.length_nil, pow_zero, Nat.mul_one, natOfBytes_nil, Nat.add_zero] at h1
      rw [show b = 1 from UInt8.toNat_inj.1 h1]
    | cons x xs =>
      have hlow := pow_le_natOfBytes (x :: xs) (significant_head_pos hd)
      have : 256 ≤ 256 ^ (x :: xs).length := Nat.le_self_pow (by simp) 256
      omega

/-- A whole-slot boolean is true exactly when the slot is zero bytes and then a single one. -/
theorem topBool_iff (s : List UInt8) : topBool s = true ↔ ∃ k, s = List.replicate k 0 ++ [1] := by
  rw [topBool, beq_iff_eq]
  constructor
  · intro h1
    have hzeros : s.takeWhile (· == 0) = List.replicate (s.takeWhile (· == 0)).length 0 :=
      List.eq_replicate_iff.2 ⟨rfl, fun b hb => by simpa using List.mem_takeWhile_imp hb⟩
    refine ⟨(s.takeWhile (· == 0)).length, ?_⟩
    rw [← hzeros, ← dropWhile_zero_of_natOfBytes_eq_one h1, List.takeWhile_append_dropWhile]
  · rintro ⟨k, rfl⟩
    rw [natOfBytes_append_singleton, natOfBytes_replicate_zero]
    rfl

/-- Whole-slot integers are exact at the width limits: a slot is accepted exactly when its number
is below `256 ^ w`, and booleans are true exactly on one. -/
theorem whole_slot_integers_exact (w : Nat) (hw : w ≤ 8) (t : String) (s : List UInt8) :
    (topUnsigned w t s).map UInt64.toNat =
        (if natOfBytes s < 256 ^ w then .ok (natOfBytes s) else .error (.overflow t s.length)) ∧
      topFixed w t s =
        (if natOfBytes s < 256 ^ w then .ok (natOfBytes s) else .error (.overflow t s.length)) ∧
      (topBool s = true ↔ ∃ k, s = List.replicate k 0 ++ [1]) :=
  ⟨topUnsigned_toNat t s hw, topFixed_eq t s hw, topBool_iff s⟩

/-- Five bytes overflow a `u32`, while nine bytes of which eight are leading zeros fit a `u64`. -/
theorem u32_overflows_u64_pads :
    (4 ≤ 8 ∧ topFixed 4 "u32" [1, 0, 0, 0, 0] = .error (.overflow "u32" 5)) ∧
      (8 ≤ 8 ∧ topFixed 8 "u64" [0, 0, 0, 0, 0, 0, 0, 0, 0x2a] = .ok 42) := by
  refine ⟨⟨by decide, ?_⟩, ⟨by decide, ?_⟩⟩
  · rw [(whole_slot_integers_exact 4 (by decide) "u32" [1, 0, 0, 0, 0]).2.1, if_neg (by decide)]
    rfl
  · rw [(whole_slot_integers_exact 8 (by decide) "u64" [0, 0, 0, 0, 0, 0, 0, 0, 0x2a]).2.1,
      if_pos (by decide)]
    rfl

/-! ## Call arguments read back -/

/-- A value of `n < 256 ^ w` in `w` fixed bytes reads back as a whole slot. -/
theorem topFixed_bytesOfNatFixed {w n : Nat} (t : String) (hw : w ≤ 8) (hn : n < 256 ^ w) :
    topFixed w t (bytesOfNatFixed w n) = .ok n := by
  rw [topFixed_eq t _ hw, natOfBytes_bytesOfNatFixed, Nat.mod_eq_of_lt hn, if_pos hn]

end Wire

namespace Primitive

/-- The values a primitive kind takes in bindings: booleans, words of the kind's width, numbers
of any size, byte strings, text, and addresses of exactly 32 bytes. -/
def Native : Primitive → Type
  | bool => Bool
  | u8 => UInt8
  | u16 => UInt16
  | u32 => UInt32
  | u64 => UInt64
  | bigUint => Nat
  | bigInt => Int
  | bytes => List UInt8
  | utf8String | tokenIdentifier | egldOrEsdtTokenIdentifier => String
  | address => { bs : List UInt8 // bs.length = Wire.addressLength }

/-- The call argument of a value: words in their full width, big integers minimal, text as its
bytes. -/
def arg : (p : Primitive) → p.Native → Wire.Arg
  | bool, b => .bool b
  | u8, n => .unsigned 1 (UInt8.toNat n)
  | u16, n => .unsigned 2 (UInt16.toNat n)
  | u32, n => .unsigned 4 (UInt32.toNat n)
  | u64, n => .unsigned 8 (UInt64.toNat n)
  | bigUint, n => .bigUint n
  | bigInt, i => .bigInt i
  | bytes, bs => .bytes bs
  | utf8String, s => .text s
  | tokenIdentifier, s => .text s
  | egldOrEsdtTokenIdentifier, s => .text s
  | address, bs => .bytes bs.1

/-- The decoded value that stands for a value. -/
def decoded : (p : Primitive) → p.Native → Value
  | bool, b => .bool b
  | u8, n => .unsigned (UInt8.toNat n)
  | u16, n => .unsigned (UInt16.toNat n)
  | u32, n => .unsigned (UInt32.toNat n)
  | u64, n => .unsigned (UInt64.toNat n)
  | bigUint, n => .bigInteger (Int.ofNat n)
  | bigInt, i => .bigInteger i
  | bytes, bs => .bytes bs
  | utf8String, s => .text s
  | tokenIdentifier, s => .text s
  | egldOrEsdtTokenIdentifier, s => .text s
  | address, bs => .address bs.1

end Primitive

namespace Wire

/-- Every argument decodes, as a whole slot of its kind, to the value it was written from. -/
theorem topPrimitive_arg (p : Primitive) (x : p.Native) :
    topPrimitive p (p.arg x).bytesOf = .ok (p.decoded x) := by
  cases p with
  | bool => cases x <;> rfl
  | u8 =>
    change UInt8 at x
    show (topFixed 1 "u8" (bytesOfNatFixed 1 x.toNat)).map Value.unsigned = _
    rw [topFixed_bytesOfNatFixed _ (by decide) (by simpa using UInt8.toNat_lt x)]
    rfl
  | u16 =>
    change UInt16 at x
    show (topFixed 2 "u16" (bytesOfNatFixed 2 x.toNat)).map Value.unsigned = _
    rw [topFixed_bytesOfNatFixed _ (by decide) (by simpa using UInt16.toNat_lt x)]
    rfl
  | u32 =>
    change UInt32 at x
    show (topFixed 4 "u32" (bytesOfNatFixed 4 x.toNat)).map Value.unsigned = _
    rw [topFixed_bytesOfNatFixed _ (by decide) (by simpa using UInt32.toNat_lt x)]
    rfl
  | u64 =>
    change UInt64 at x
    show (topFixed 8 "u64" (bytesOfNatFixed 8 x.toNat)).map Value.unsigned = _
    rw [topFixed_bytesOfNatFixed _ (by decide) (by simpa using UInt64.toNat_lt x)]
    rfl
  | bigUint =>
    change Nat at x
    show Except.ok (Value.bigInteger (natOfBytes (bytesOfNat x))) = _
    rw [natOfBytes_bytesOfNat]
    rfl
  | bigInt =>
    change Int at x
    show Except.ok (Value.bigInteger (intOfBytes (bytesOfInt x))) = _
    rw [intOfBytes_bytesOfInt]
    rfl
  | bytes => rfl
  | utf8String | tokenIdentifier | egldOrEsdtTokenIdentifier =>
    change String at x
    show (topString (Text.encodeUtf8 x)).map Value.text = _
    simp only [topString, Text.decodeUtf8_encodeUtf8]
    rfl
  | address =>
    show (topAddress x.1).map Value.address = _
    simp only [topAddress, x.2, if_true]
    rfl

end Wire

/-- Argument encoding and whole-slot decoding agree: every value's argument reads back as that
value. -/
theorem arguments_read_back (c : Catalog) (p : Primitive) (x : p.Native) :
    Text.ofHex (p.arg x).toHex = .ok (p.arg x).bytesOf ∧
      Wire.topValue c (.primitive p) (p.arg x).bytesOf = .ok (p.decoded x) :=
  ⟨Text.ofHex_toHex _, Wire.topPrimitive_arg p x⟩

example : (Primitive.arg .u64 (1000 : UInt64)).toHex = "00000000000003e8" := by decide

end ContractAbi
