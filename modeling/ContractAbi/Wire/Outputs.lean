import ContractAbi.Strategy
import ContractAbi.Value
import ContractAbi.Wire.Top
import ContractAbi.Wire.Slots
import ContractAbi.Wire.Decoder

/-!
# Decoding call outputs by their resolved types

Outputs are decoded straight from their resolved types and a catalog, with the same plans and
failure policies the generated bindings use: every output's named types must be declared,
the outputs are planned left to right, and each is read by its plan's strategy.

A value that owns a whole slot is read by `topValue`; one inside a record by the nested decoder
(`NestedDecoder.nestedDecode`), whose reader view is `nestedValue`. Nested reading descends
through records, tuples and lists; the fuel `nestedFuel` bounds the depth of that descent, and
is enough whenever every cycle of record references passes through a list, since a list's count
takes four bytes before its items are read. A record that contains
itself with no list between has no finite reading: there the fuel runs out, which is reported as
its own failure (`unbounded`), never as a shape that cannot be decoded.
-/

namespace ContractAbi.Wire

inductive OutputError where
  /-- A named type the catalog does not declare. -/
  | unknownType (endpoint typeName : String)
  /-- Outputs that no plan reads. -/
  | shape (endpoint : String) (source : ShapeError)
  /-- A slot failed where the policy is to abort. -/
  | call (source : CallError)

def OutputError.message : OutputError → String
  | .unknownType e t => "type '" ++ t ++ "' referenced by '" ++ e ++ "' is not declared"
  | .shape e s => "endpoint '" ++ e ++ "' has an undecodable output: " ++ s.message
  | .call c => c.message

/-- The failures beneath an output failure: a shape failure, or the slot failure of an invalid
response. -/
def OutputError.sources : OutputError → List String
  | .unknownType .. => []
  | .shape _ s => [s.message]
  | .call (.invalidResponse _ _ w) => [w.message]
  | .call (.failed ..) => []

def Reader.fail {α : Type} (e : WireError) : Reader α := fun _ => .error e

def enumValue (c : Catalog) (name : String) (d : Nat) : Except WireError Value :=
  match c.enums.get? name with
  | none => .error (.undeclaredType name)
  | some vs =>
    match vs.find? (·.discriminant == d) with
    | some v => .ok (.enum name v.name d)
    | none => .error (.unknownDiscriminant name d.toUInt8)

def nestedPrimitive : Primitive → Reader Value
  | .bool => readBool.map .bool
  | .u8 => (readFixed 1).map .unsigned
  | .u16 => (readFixed 2).map .unsigned
  | .u32 => (readFixed 4).map .unsigned
  | .u64 => (readFixed 8).map .unsigned
  | .bigUint => Reader.map (fun (n : Nat) => Value.bigInteger (Int.ofNat n)) readBigUint
  | .bigInt => readBigInt.map .bigInteger
  | .bytes => readBytes.map .bytes
  | .utf8String | .tokenIdentifier | .egldOrEsdtTokenIdentifier => readString.map .text
  | .address => readAddress.map .address

def topPrimitive (p : Primitive) (slot : List UInt8) : Except WireError Value :=
  match p with
  | .bool => .ok (.bool (topBool slot))
  | .u8 => (topFixed 1 "u8" slot).map .unsigned
  | .u16 => (topFixed 2 "u16" slot).map .unsigned
  | .u32 => (topFixed 4 "u32" slot).map .unsigned
  | .u64 => (topFixed 8 "u64" slot).map .unsigned
  | .bigUint => .ok (.bigInteger (natOfBytes slot))
  | .bigInt => .ok (.bigInteger (intOfBytes slot))
  | .bytes => .ok (.bytes slot)
  | .utf8String | .tokenIdentifier | .egldOrEsdtTokenIdentifier => (topString slot).map .text
  | .address => (topAddress slot).map .address

/-- Reads named values one after the other into an ordered record, a later field of the same
name replacing an earlier one in place. -/
def readNamed (items : List (String × Reader Value)) : Reader (List (String × Value)) :=
  items.foldl (fun acc (n, r) => acc.bind fun fs => r.map fun v => OrderedMap.insert fs n v)
    (Reader.pure [])

/-- The members of a composite named `var0`, `var1`, …. -/
def numbered {α : Type} (ms : List α) : List (String × α) :=
  (List.range ms.length).zip ms |>.map fun (i, m) => ("var" ++ toString i, m)

/-- A value inside a record, with at most `fuel` levels of descent. -/
def nestedValue (c : Catalog) : Nat → ResolvedType → Reader Value
  | 0, ty => Reader.fail (.unbounded ty.display)
  | fuel + 1, ty =>
    match ty with
    | .primitive p => nestedPrimitive p
    | .enum n => (readFixed 1).bind fun d bs => (enumValue c n d).map (·, bs)
    | .record n =>
      match c.records.get? n with
      | none => Reader.fail (.undeclaredType n)
      | some fs => (readNamed (fs.map fun f => (f.name, nestedValue c fuel f.type))).map (.record n)
    | .tuple n ms =>
      (readNamed ((numbered ms).map fun (k, m) => (k, nestedValue c fuel m))).map (.record n)
    | .list i => (readList (nestedValue c fuel i)).map .list
    | ty => Reader.fail (.unsupportedShape ty.display)

/-- Fuel for nested reading of `ty` from `length` bytes: between two bytes taken, the descent
enters each record at most once and each type to its depth. -/
def nestedFuel (c : Catalog) (ty : ResolvedType) (length : Nat) : Nat :=
  (length + 1) * ((c.entryCount + 1) * (ty.depth + c.depth + 1)) + 1

namespace NestedDecoder

def nestedDecodePrimitive : Primitive → Decode Value
  | .bool => .bool <$> readBool
  | .u8 => (fun b => .unsigned b.toNat) <$> readU8
  | .u16 => .unsigned <$> readUnsigned 2
  | .u32 => .unsigned <$> readUnsigned 4
  | .u64 => .unsigned <$> readUnsigned 8
  | .bigUint => (fun n => .bigInteger (Int.ofNat n)) <$> readBigUint
  | .bigInt => .bigInteger <$> readBigInt
  | .bytes => .bytes <$> readBytes
  | .utf8String | .tokenIdentifier | .egldOrEsdtTokenIdentifier => .text <$> readString
  | .address => .address <$> readAddress

/-- A value inside a record, read by a decoder with at most `fuel` levels of descent. -/
def nestedDecode (c : Catalog) : Nat → ResolvedType → Decode Value
  | 0, ty => throw (.unbounded ty.display)
  | fuel + 1, ty =>
    match ty with
    | .primitive p => nestedDecodePrimitive p
    | .enum n => readWith do
      let d ← readU8
      ofExcept (enumValue c n d.toNat)
    | .record n =>
      match c.records.get? n with
      | none => throw (.undeclaredType n)
      | some fs =>
        readWith (.record n <$> readNamed (fs.map fun f => (f.name, nestedDecode c fuel f.type)))
    | .tuple n ms =>
      readWith (.record n <$> readNamed ((numbered ms).map fun (k, m) => (k, nestedDecode c fuel m)))
    | .list i => .list <$> readList (nestedDecode c fuel i)
    | ty => throw (.unsupportedShape ty.display)

end NestedDecoder

/-- A nested value of `ty`, read by a new decoder over the bytes given. -/
def nested (c : Catalog) (ty : ResolvedType) : Reader Value := fun bs =>
  (NestedDecoder.nestedDecode c (nestedFuel c ty bs.length) ty).reader bs

/-- A value owning a whole slot. A record is read from the slot's start; bytes after it are
ignored. -/
def topValue (c : Catalog) (ty : ResolvedType) (slot : List UInt8) : Except WireError Value :=
  match ty with
  | .primitive p => topPrimitive p slot
  | .enum n => do enumValue c n (← topFixed 1 "u8" slot)
  | .record _ | .tuple .. => (nested c ty slot).map (·.1)
  | ty => .error (.unsupportedShape ty.display)

/-- A member of a group from its slot: a list of records is self-terminating, anything else
owns the slot. -/
def memberValue (c : Catalog) (m : ResolvedType) (slot : List UInt8) : Except WireError Value :=
  match m with
  | .list i =>
    if i.isRecordLike then .ok (.list (selfTerminating (nested c i) slot)) else topValue c m slot
  | m => topValue c m slot

/-- One group of slots read into a composite: member `i` reads slot `i`. -/
def groupValue (c : Catalog) (name : String) (members : List ResolvedType)
    (group : List (List UInt8)) : Except WireError Value := do
  let values ← (numbered (members.zip group)).foldlM (fun fs (k, m, slot) => do
    let v ← memberValue c m slot
    return OrderedMap.insert fs k v) []
  return .record name values

/-- Every named type an output mentions is declared; a tuple's own entry too. -/
def checkDeclared (c : Catalog) (endpoint : String) : ResolvedType → Except OutputError Unit
  | .primitive _ => .ok ()
  | .record n => if c.records.contains n then .ok () else .error (.unknownType endpoint n)
  | .enum n => if c.enums.contains n then .ok () else .error (.unknownType endpoint n)
  | .list i | .variadic i => checkDeclared c endpoint i
  | .tuple n ms =>
    if c.composites.contains n then checkMembers ms else .error (.unknownType endpoint n)
  | .multiVariadic _ ms | .multi _ ms => checkMembers ms
where
  checkMembers : List ResolvedType → Except OutputError Unit
    | [] => .ok ()
    | m :: ms => do checkDeclared c endpoint m; checkMembers ms

def decodeOutput (c : Catalog) (d : Slots) (ty : ResolvedType) (plan : OutputPlan) :
    Except OutputError Value :=
  let start := plan.firstSlot
  match plan.strategy, ty with
  | .scalar, _ => (d.scalar start (topValue c ty)).mapError .call
  | .selfTerminating, .list i => .ok (.list (d.selfTerminatingAt start (nested c i)))
  | .eachSlot, .list i | .eachSlot, .variadic i => .ok (.list (d.eachSlot start (topValue c i)))
  | .groups w, .multiVariadic n ms => .ok (.list (d.groups start w (groupValue c n ms)))
  | .group w, .multi n ms => (d.group start w (groupValue c n ms)).mapError .call
  | s, ty => .error (.shape d.endpoint (.at ty (.strategyMismatch s)))

/-- Decodes every output of one call, in declaration order. -/
def decodeOutputs (c : Catalog) (endpoint : String) (outputs : List ResolvedType)
    (slots : List (List UInt8)) : Except OutputError (List Value) := do
  outputs.forM (checkDeclared c endpoint)
  let plans ← (planOutputs outputs).mapError (.shape endpoint)
  (outputs.zip plans).mapM fun (ty, p) => decodeOutput c ⟨endpoint, slots⟩ ty p

end ContractAbi.Wire
