/-!
# Hexadecimal text of byte strings

Bytes travel as lowercase hexadecimal text, two digits per byte with the high half first.
Reading accepts both cases and reports the first character that is no digit, with its position
counted in bytes of the text's UTF-8 form, the way a byte-oriented reader sees it.
-/

namespace ContractAbi.Text

def hexDigit (n : Nat) : Char :=
  if n < 10 then Char.ofNat (48 + n) else Char.ofNat (87 + n)

/-- The two digits of one byte, high half first. -/
def hexPair (b : UInt8) : List Char :=
  [hexDigit (b.toNat / 16), hexDigit (b.toNat % 16)]

def toHex (bytes : List UInt8) : String :=
  String.ofList (bytes.flatMap hexPair)

/-- The value of one hexadecimal digit given as a byte, of either case. -/
def digitValue? (b : UInt8) : Option Nat :=
  let n := b.toNat
  if 48 ≤ n ∧ n ≤ 57 then some (n - 48)
  else if 97 ≤ n ∧ n ≤ 102 then some (n - 87)
  else if 65 ≤ n ∧ n ≤ 70 then some (n - 55)
  else none

inductive HexError where
  /-- The text has an odd number of bytes. -/
  | oddLength
  /-- The byte at this position is no digit. -/
  | invalidCharacter (byte : UInt8) (index : Nat)
  deriving DecidableEq, Repr

/-- The lowercase hexadecimal digits of a number, without leading zeros. -/
def shortHex (n : Nat) : String :=
  String.ofList (Nat.toDigits 16 n)

/-- A byte as the character of its number, quoted as diagnostics quote characters: controls and
invisible Latin-1 as a braced code point, the usual escapes otherwise. -/
def quoteByteChar (b : UInt8) : String :=
  let n := b.toNat
  let body :=
    if n = 0 then "\\0"
    else if n = 9 then "\\t"
    else if n = 10 then "\\n"
    else if n = 13 then "\\r"
    else if n = 39 then "\\'"
    else if n = 92 then "\\\\"
    else if n < 32 ∨ (127 ≤ n ∧ n ≤ 160) ∨ n = 173 then "\\u\x7b" ++ shortHex n ++ "\x7d"
    else String.singleton (Char.ofNat n)
  "'" ++ body ++ "'"

def HexError.message : HexError → String
  | .oddLength => "Odd number of digits"
  | .invalidCharacter b i => "Invalid character " ++ quoteByteChar b ++ " at position " ++ toString i

/-- Reads digit pairs; `index` is the position of the first byte of `bs`. -/
def readPairs (index : Nat) : List UInt8 → Except HexError (List UInt8)
  | [] => .ok []
  | [b] => .error (.invalidCharacter b index)
  | hi :: lo :: rest =>
    match digitValue? hi with
    | none => .error (.invalidCharacter hi index)
    | some h =>
      match digitValue? lo with
      | none => .error (.invalidCharacter lo (index + 1))
      | some l => (readPairs (index + 2) rest).map ((h * 16 + l).toUInt8 :: ·)

/-- Reads a hexadecimal text: an odd number of bytes fails first, then the first non-digit. -/
def ofHex (s : String) : Except HexError (List UInt8) :=
  let bs := s.toUTF8.toList
  if bs.length % 2 = 1 then .error .oddLength else readPairs 0 bs

end ContractAbi.Text
