import ContractAbi.Wire.Basic
import ContractAbi.Text.Utf8

/-!
# Nested values

A value inside a record sits at a byte offset. Fixed-width integers take their full width,
big-endian; variable-length values (big integers, bytes, text) and lists carry a four-byte
big-endian length or count in front. A reader is handed the bytes after the offset and answers
the value with the bytes after it: the view of the nested decoder (`NestedDecoder`) that proofs
reason with, which the decoder's reads compute.

Records packed back to back with no count form a self-terminating list: the first position that
holds no complete record ends it, as does a record that takes no byte.

Main statements: `take_length` (a successful take leaves exactly the bytes after it) and
`selfTerminating_nil` (an empty slot holds no record).
-/

namespace ContractAbi.Wire

open Text

/-- A nested reader: from the remaining bytes, a value and the bytes after it. -/
abbrev Reader (α : Type) := List UInt8 → Except WireError (α × List UInt8)

/-- Takes `n` bytes. -/
def take (n : Nat) : Reader (List UInt8) := fun bs =>
  if n ≤ bs.length then .ok (bs.take n, bs.drop n) else .error (.insufficientData n bs.length)

theorem take_length {n : Nat} {bs v r : List UInt8} (h : take n bs = .ok (v, r)) :
    v ++ r = bs ∧ v.length = n := by
  unfold take at h
  split at h
  · simp only [Except.ok.injEq, Prod.mk.injEq] at h
    obtain ⟨rfl, rfl⟩ := h
    simp_all
  · simp at h

/-- Runs a reader, then a function of its value on the bytes after it. -/
def Reader.bind {α β : Type} (r : Reader α) (f : α → Reader β) : Reader β := fun bs =>
  match r bs with
  | .ok (a, rest) => f a rest
  | .error e => .error e

def Reader.pure {α : Type} (a : α) : Reader α := fun bs => .ok (a, bs)

def Reader.map {α β : Type} (f : α → β) (r : Reader α) : Reader β := fun bs =>
  match r bs with
  | .ok (a, rest) => .ok (f a, rest)
  | .error e => .error e

/-- An unsigned integer of `width` bytes, big-endian. -/
def readFixed (width : Nat) : Reader Nat :=
  (take width).map natOfBytes

/-- A boolean byte: 0 or 1. -/
def readBool : Reader Bool := fun bs =>
  match take 1 bs with
  | .ok ([b], rest) =>
    if b = 0 then .ok (false, rest)
    else if b = 1 then .ok (true, rest)
    else .error (.invalidBool b)
  | .ok (_, rest) => .ok (false, rest)
  | .error e => .error e

def readLength : Reader Nat := readFixed 4

def readBytes : Reader (List UInt8) :=
  readLength.bind take

def readString : Reader String :=
  readBytes.bind fun bytes bs =>
    match decodeUtf8 bytes with
    | some s => .ok (s, bs)
    | none => .error .invalidUtf8

def readBigUint : Reader Nat :=
  readBytes.map natOfBytes

def readBigInt : Reader Int :=
  readBytes.map intOfBytes

/-- An address: 32 raw bytes. -/
def readAddress : Reader (List UInt8) :=
  take addressLength

/-- Reads `count` items one after the other. -/
def readMany {α : Type} (item : Reader α) : Nat → Reader (List α)
  | 0 => Reader.pure []
  | n + 1 => item.bind fun x => (readMany item n).map (x :: ·)

def readList {α : Type} (item : Reader α) : Reader (List α) :=
  readLength.bind (readMany item)

/-- Records packed back to back with no count: reading stops at the first position that holds
no complete record, and after a record that takes no byte. -/
def selfTerminating {α : Type} (record : Reader α) (bs : List UInt8) : List α :=
  match bs with
  | [] => []
  | b :: rest =>
    match record (b :: rest) with
    | .ok (x, after) =>
      if _h : after.length < (b :: rest).length then x :: selfTerminating record after else []
    | .error _ => []
termination_by bs.length
decreasing_by
  simp only [List.length_cons] at *
  omega

@[simp] theorem selfTerminating_nil {α : Type} (record : Reader α) :
    selfTerminating record [] = [] := by
  simp [selfTerminating]

end ContractAbi.Wire
