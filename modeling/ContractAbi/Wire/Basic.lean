import ContractAbi.Primitive

/-!
# The wire: kinds, failures and numbers

A contract answers with an ordered array of byte slots and takes its arguments as byte strings.
Ten kinds of scalar travel on the wire; token identifiers travel as text. This module holds
those kinds, the ways reading one can fail, and the number conversions both directions share:
big-endian unsigned bytes and minimal two's complement.

Main statement: `bytesOfNat_eq_nil_iff` (only zero has no bytes, so a zero argument is empty).
-/

namespace ContractAbi.Wire

/-- A scalar kind of the wire encoding. -/
inductive Kind where
  | bool
  | u8
  | u16
  | u32
  | u64
  | bigUint
  | bigInt
  | bytes
  | string
  | address
  deriving DecidableEq, Repr, Inhabited

end ContractAbi.Wire

namespace ContractAbi

/-- The wire kind that carries a primitive: token identifiers are text. -/
def Primitive.wireKind : Primitive → Wire.Kind
  | .bool => .bool
  | .u8 => .u8
  | .u16 => .u16
  | .u32 => .u32
  | .u64 => .u64
  | .bigUint => .bigUint
  | .bigInt => .bigInt
  | .bytes => .bytes
  | .utf8String | .tokenIdentifier | .egldOrEsdtTokenIdentifier => .string
  | .address => .address

end ContractAbi

namespace ContractAbi.Wire

/-- Why a value could not be read from the wire. -/
inductive WireError where
  /-- A read needs more bytes than remain. -/
  | insufficientData (needed available : Nat)
  /-- A whole-slot integer has more significant bytes than its type holds. -/
  | overflow (typeName : String) (bytes : Nat)
  | invalidUtf8
  /-- A nested boolean byte is neither 0 nor 1. -/
  | invalidBool (value : UInt8)
  | unknownDiscriminant (typeName : String) (value : UInt8)
  | invalidAddressLength (length : Nat)
  | missingSlot (index available : Nat)
  | undeclaredType (typeName : String)
  | unsupportedShape (shape : String)
  /-- Nested reading went deeper than the bytes can hold without taking one: a record that
  contains itself with no list between. The reader without a bound never returns here. -/
  | unbounded (shape : String)
  deriving DecidableEq, Repr

def byteHex (b : UInt8) : String :=
  let d := Nat.toDigits 16 b.toNat
  String.ofList (List.replicate (2 - d.length) '0' ++ d)

def WireError.message : WireError → String
  | .insufficientData n a => "not enough data: need " ++ toString n ++ " bytes, have " ++ toString a
  | .overflow t b => toString b ++ "-byte value does not fit in " ++ t
  | .invalidUtf8 => "invalid utf-8 in string value"
  | .invalidBool v => "invalid boolean encoding 0x" ++ byteHex v
  | .unknownDiscriminant t v => "unknown discriminant " ++ toString v.toNat ++ " for enum '" ++ t ++ "'"
  | .invalidAddressLength n => "address must be 32 bytes, got " ++ toString n
  | .missingSlot i a => "return slot " ++ toString i ++ " missing, only " ++ toString a ++ " slots returned"
  | .undeclaredType t => "type '" ++ t ++ "' is not declared"
  | .unsupportedShape s => "'" ++ s ++ "' cannot be decoded here"
  | .unbounded s => "reading '" ++ s ++ "' does not end"

def addressLength : Nat := 32

def natOfBytes (bs : List UInt8) : Nat :=
  bs.foldl (fun acc b => acc * 256 + b.toNat) 0

/-- The number a big-endian two's complement byte string spells; the empty string is zero. -/
def intOfBytes (bs : List UInt8) : Int :=
  match bs with
  | [] => 0
  | b :: _ =>
    if b.toNat < 128 then natOfBytes bs
    else (natOfBytes bs : Int) - (Nat.pow 2 (8 * bs.length) : Nat)

/-- The minimal big-endian bytes of a number, least significant last; zero has none. -/
def bytesOfNat (n : Nat) : List UInt8 :=
  if n = 0 then [] else bytesOfNat (n / 256) ++ [(n % 256).toUInt8]
decreasing_by omega

/-- `n` in exactly `k` big-endian bytes, high bytes dropped. -/
def bytesOfNatFixed : Nat → Nat → List UInt8
  | 0, _ => []
  | k + 1, n => bytesOfNatFixed k (n / 256) ++ [(n % 256).toUInt8]

/-- The least byte count whose two's complement range holds `i`. -/
def signedWidth (i : Int) : Nat :=
  go i.natAbs.log2 1
where
  /-- Grows the width until `-2^(8k-1) ≤ i < 2^(8k-1)`; `fuel` bounds the search by the size of
  `i`, which always suffices. -/
  go : Nat → Nat → Nat
    | 0, k => k
    | fuel + 1, k =>
      if -(2 ^ (8 * k - 1) : Int) ≤ i ∧ i < (2 ^ (8 * k - 1) : Int) then k else go fuel (k + 1)

/-- The minimal two's complement big-endian bytes of an integer; zero has none. -/
def bytesOfInt (i : Int) : List UInt8 :=
  if i = 0 then []
  else
    let k := signedWidth i
    bytesOfNatFixed k (i % (Nat.pow 2 (8 * k) : Nat)).toNat

theorem bytesOfNat_eq_nil_iff (n : Nat) : bytesOfNat n = [] ↔ n = 0 := by
  rw [bytesOfNat]
  split <;> simp_all

end ContractAbi.Wire
