import ContractAbi.Wire.Reader
import ContractAbi.OrderedMap

/-!
# The nested decoder

A decoder over one slot holds the slot's bytes and an offset into them; each read moves the
offset past what it takes. `take` checks that enough bytes remain before it moves, and a read of
several steps runs under `readWith`, which puts the offset back when the read fails. So every
read is atomic: a failure leaves the decoder where it was.

Run from the start of some bytes, a read is a `Reader`: its value, with the bytes after the
offset it reached.
-/

namespace ContractAbi.Wire

open Text

/-- A cursor over the bytes of one slot. -/
structure NestedDecoder where
  data : List UInt8
  offset : Nat

/-- A read on a nested decoder: a value or a failure, with the decoder it leaves. -/
abbrev Decode (α : Type) := EStateM WireError NestedDecoder α

namespace NestedDecoder

def remaining (d : NestedDecoder) : Nat := d.data.length - d.offset

def isEmpty (d : NestedDecoder) : Bool := d.remaining == 0

/-- Takes `needed` bytes, moving only when that many remain. -/
def take (needed : Nat) : Decode (List UInt8) := fun d =>
  if d.remaining < needed then .error (.insufficientData needed d.remaining) d
  else .ok ((d.data.drop d.offset).take needed) { d with offset := d.offset + needed }

/-- Runs a read of several steps, putting the offset back where it was if one fails. -/
def readWith {α : Type} (read : Decode α) : Decode α := fun d =>
  match read d with
  | .ok a d' => .ok a d'
  | .error e d' => .error e { d' with offset := d.offset }

/-- A read that takes nothing and answers a computed result. -/
def ofExcept {α : Type} (r : Except WireError α) : Decode α := fun d =>
  match r with
  | .ok a => .ok a d
  | .error e => .error e d

def readU8 : Decode UInt8 := (·.headD 0) <$> take 1

/-- An unsigned integer of `width` bytes, big-endian: the two-, four- and eight-byte reads. -/
def readUnsigned (width : Nat) : Decode Nat := natOfBytes <$> take width

def readLen : Decode Nat := readUnsigned 4

def readBool : Decode Bool := readWith do
  let b ← readU8
  if b = 0 then return false
  else if b = 1 then return true
  else throw (.invalidBool b)

def readBytes : Decode (List UInt8) := readWith do
  let len ← readLen
  take len

def readString : Decode String := readWith do
  let bytes ← readBytes
  ofExcept ((decodeUtf8 bytes).elim (.error .invalidUtf8) .ok)

def readBigUint : Decode Nat := readWith do
  let len ← readLen
  natOfBytes <$> take len

def readBigInt : Decode Int := readWith do
  let len ← readLen
  intOfBytes <$> take len

def readAddress : Decode (List UInt8) := take addressLength

/-- Reads `count` items one after the other. -/
def readMany {α : Type} (item : Decode α) : Nat → Decode (List α)
  | 0 => pure []
  | n + 1 => do
    let x ← item
    (x :: ·) <$> readMany item n

def readList {α : Type} (item : Decode α) : Decode (List α) := readWith do
  let count ← readLen
  readMany item count

/-- Reads named values one after the other into an ordered record, a later field of the same
name replacing an earlier one in place. -/
def readNamed {α : Type} (items : List (String × Decode α)) : Decode (List (String × α)) :=
  items.foldl (fun acc (n, r) => do
      let fs ← acc
      (OrderedMap.insert fs n ·) <$> r)
    (pure [])

end NestedDecoder

/-- What a read gives, as a reader gives it: the value with the bytes after the offset reached,
or the failure. -/
def Decode.answer {α : Type} : EStateM.Result WireError NestedDecoder α →
    Except WireError (α × List UInt8)
  | .ok a d => .ok (a, d.data.drop d.offset)
  | .error e _ => .error e

/-- Runs a read on a new decoder over `bs`. -/
def Decode.reader {α : Type} (read : Decode α) : Reader α := fun bs =>
  Decode.answer (read ⟨bs, 0⟩)

end ContractAbi.Wire
