import ContractAbi.Wire.Basic
import ContractAbi.Text.Utf8

/-!
# Whole-slot values

A value that owns a whole return slot has an implicit length. Unsigned integers may drop
leading zero bytes, and also carry extra ones: only the significant bytes count against the
width. Those bytes are shifted into a 64-bit word one at a time, and the word is narrowed to the
integer's type. A boolean is true exactly when the slot spells the number one. Big integers are the raw
big-endian bytes, signed ones in two's complement with the empty slot as zero. An address is
exactly 32 bytes, and text must be UTF-8.
-/

namespace ContractAbi.Wire

open Text

/-- An unsigned integer of at most `width` significant bytes named `typeName`, from a whole slot,
as a 64-bit word. -/
def topUnsigned (width : Nat) (typeName : String) (slot : List UInt8) : Except WireError UInt64 :=
  let significant := slot.dropWhile (· == 0)
  if significant.length > width then .error (.overflow typeName slot.length)
  else .ok (significant.foldl (fun acc b => (acc <<< 8) ||| b.toUInt64) 0)

/-- An unsigned integer of a `width`-byte type named `typeName`, from a whole slot: the word
narrowed to the width. -/
def topFixed (width : Nat) (typeName : String) (slot : List UInt8) : Except WireError Nat :=
  (topUnsigned width typeName slot).map fun v => v.toNat % Nat.pow 256 width

/-- A boolean from a whole slot: true exactly when the slot spells one. -/
def topBool (slot : List UInt8) : Bool :=
  natOfBytes slot == 1

/-- An address from a whole slot of exactly 32 bytes. -/
def topAddress (slot : List UInt8) : Except WireError (List UInt8) :=
  if slot.length = addressLength then .ok slot else .error (.invalidAddressLength slot.length)

def topString (slot : List UInt8) : Except WireError String :=
  match decodeUtf8 slot with
  | some s => .ok s
  | none => .error .invalidUtf8

end ContractAbi.Wire
