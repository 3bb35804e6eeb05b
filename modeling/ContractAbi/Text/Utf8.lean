/-!
# Strict UTF-8

Byte strings become text only when they are well-formed UTF-8 in the sense of RFC 3629: no
overlong form, no surrogate, nothing above U+10FFFF. Encoding is core's `String.utf8EncodeChar`.
-/

namespace ContractAbi.Text

/-- A continuation byte, `10xxxxxx`. -/
def isTail (b : UInt8) : Bool := 0x80 ≤ b.toNat && b.toNat ≤ 0xBF

def tailBits (b : UInt8) : Nat := b.toNat % 64

/-- The least second byte a three- or four-byte lead allows: above it lie the overlong forms. -/
def secondLow (lead : Nat) : Nat :=
  if lead = 0xE0 then 0xA0 else if lead = 0xF0 then 0x90 else 0x80

/-- The greatest second byte a lead allows: beyond it lie surrogates or code points above
U+10FFFF. -/
def secondHigh (lead : Nat) : Nat :=
  if lead = 0xED then 0x9F else if lead = 0xF4 then 0x8F else 0xBF

/-- Decodes a whole byte string as UTF-8 characters, or `none` when it is not well-formed. -/
def decodeUtf8Chars : List UInt8 → Option (List Char)
  | [] => some []
  | a :: rest =>
    let n := a.toNat
    if n ≤ 0x7F then (decodeUtf8Chars rest).map (Char.ofNat n :: ·)
    else if 0xC2 ≤ n ∧ n ≤ 0xDF then
      match rest with
      | b :: r =>
        if isTail b then (decodeUtf8Chars r).map (Char.ofNat ((n % 32) * 64 + tailBits b) :: ·)
        else none
      | [] => none
    else if 0xE0 ≤ n ∧ n ≤ 0xEF then
      match rest with
      | b :: c :: r =>
        if secondLow n ≤ b.toNat ∧ b.toNat ≤ secondHigh n ∧ isTail c then
          (decodeUtf8Chars r).map
            (Char.ofNat ((n % 16) * 4096 + tailBits b * 64 + tailBits c) :: ·)
        else none
      | _ => none
    else if 0xF0 ≤ n ∧ n ≤ 0xF4 then
      match rest with
      | b :: c :: d :: r =>
        if secondLow n ≤ b.toNat ∧ b.toNat ≤ secondHigh n ∧ isTail c ∧ isTail d then
          (decodeUtf8Chars r).map (Char.ofNat
            ((n % 8) * 262144 + tailBits b * 4096 + tailBits c * 64 + tailBits d) :: ·)
        else none
      | _ => none
    else none

def decodeUtf8 (bs : List UInt8) : Option String :=
  (decodeUtf8Chars bs).map String.ofList

def encodeUtf8 (s : String) : List UInt8 :=
  s.toList.flatMap String.utf8EncodeChar

end ContractAbi.Text
