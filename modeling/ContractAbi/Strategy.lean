import ContractAbi.Resolved

/-!
# Decode strategies and slot plans

A contract returns an ordered array of byte slots. How an output is read back depends only on
its resolved shape, and both the binding emitter and the reflector select through this module,
so the two cannot disagree.

- scalar: one slot, one value; any failure aborts.
- self-terminating: a list of record-like values packed into one slot with no count.
- each-slot: one value per remaining slot; failing slots are skipped.
- groups: strides of `width` remaining slots; failing strides are skipped, an incomplete
  trailing stride is dropped.
- group: exactly one stride of `width` slots; any failure aborts.

Three shape checks decide what may stand where: a whole slot holds a primitive, an enum, a
record or a tuple of nested values; a record field holds a primitive, an enum, a record, a tuple
of nested values or a list of nested values that is no list of lists; a group member holds a
list of record-like values or what a whole slot holds.

Plans assign slots left to right: fixed strategies take their span, a repeating one takes the
rest, so nothing may follow it.
-/

namespace ContractAbi

/-- How one output is read from the returned slots. -/
inductive DecodeStrategy where
  | scalar
  | selfTerminating
  | eachSlot
  | groups (width : Nat)
  | group (width : Nat)
  deriving DecidableEq, Repr, Inhabited

namespace DecodeStrategy

def label : DecodeStrategy → String
  | scalar => "scalar"
  | selfTerminating => "self-terminating"
  | eachSlot => "each-slot"
  | groups _ => "groups"
  | group _ => "group"

/-- Repeating strategies read every slot up to the end. -/
def consumesRemaining : DecodeStrategy → Bool
  | eachSlot | groups _ => true
  | _ => false

def slotSpan? : DecodeStrategy → Option Nat
  | scalar | selfTerminating => some 1
  | group w => some w
  | eachSlot | groups _ => none

/-- The serialized strategy, tagged by `strategy`. -/
def toJson : DecodeStrategy → Json
  | groups w => .obj [("strategy", .str "groups"), ("width", .nat w)]
  | group w => .obj [("strategy", .str "group"), ("width", .nat w)]
  | s => .obj [("strategy", .str s.label)]

end DecodeStrategy

/-- Why a shape cannot be decoded where it stands. -/
inductive ShapeReason where
  | notOneSlot
  | listOfLists
  | multiInRecord
  | groupListNotRecords
  | followsRepeating
  /-- A reader met a shape whose strategy is not the one it was asked to use. -/
  | strategyMismatch (s : DecodeStrategy)
  /-- A planned strategy that does not fit the output it was planned for. -/
  | planMismatch
  deriving DecidableEq, Repr

def ShapeReason.text : ShapeReason → String
  | .notOneSlot => "value does not fit a single return slot"
  | .listOfLists => "nested lists of lists are not decodable"
  | .multiInRecord => "multi-value types cannot appear inside a record"
  | .groupListNotRecords => "only lists of records can be decoded from one group slot"
  | .followsRepeating => "output follows a repeating output"
  | .strategyMismatch s => s.label
  | .planMismatch => "strategy does not match the output shape"

/-- A shape that cannot be decoded, with the printed shape. -/
structure ShapeError where
  shape : String
  reason : ShapeReason

def ShapeError.message (e : ShapeError) : String :=
  "unsupported decode shape '" ++ e.shape ++ "': " ++ e.reason.text

def ShapeError.at (ty : ResolvedType) (r : ShapeReason) : ShapeError :=
  ⟨ty.display, r⟩

namespace Shape

mutual

/-- A value that can sit inside a record at a byte offset. -/
def checkNested : ResolvedType → Except ShapeError Unit
  | .primitive _ | .enum _ | .record _ => .ok ()
  | .tuple _ ms => checkNestedAll ms
  | .list (.list i) => .error (.at (.list (.list i)) .listOfLists)
  | .list i => checkNested i
  | ty => .error (.at ty .multiInRecord)

/-- Every member can sit inside a record; the first that cannot is reported. -/
def checkNestedAll : List ResolvedType → Except ShapeError Unit
  | [] => .ok ()
  | x :: xs => do checkNested x; checkNestedAll xs

end

/-- A value that fills one whole slot. -/
def checkTopLevel : ResolvedType → Except ShapeError Unit
  | .primitive _ | .enum _ | .record _ => .ok ()
  | .tuple _ ms => checkNestedAll ms
  | ty => .error (.at ty .notOneSlot)

/-- A member of a multi-value group: one slot each. -/
def checkGroupMember : ResolvedType → Except ShapeError Unit
  | .list i => if i.isRecordLike then checkNested i else .error (.at (.list i) .groupListNotRecords)
  | ty => checkTopLevel ty

/-- Every member is a group member; the first that is not is reported. -/
def checkGroupMembers : List ResolvedType → Except ShapeError Unit
  | [] => .ok ()
  | x :: xs => do checkGroupMember x; checkGroupMembers xs

end Shape

/-- The strategy that reads a shape, or why none does. -/
def DecodeStrategy.select : ResolvedType → Except ShapeError DecodeStrategy
  | .list i =>
    if i.isRecordLike then do Shape.checkNested i; return .selfTerminating
    else do Shape.checkTopLevel i; return .eachSlot
  | .variadic i => do Shape.checkTopLevel i; return .eachSlot
  | .multiVariadic _ ms => do Shape.checkGroupMembers ms; return .groups ms.length
  | .multi _ ms => do Shape.checkGroupMembers ms; return .group ms.length
  | ty => do Shape.checkTopLevel ty; return .scalar

/-- Where one output lives in the returned slots. -/
structure OutputPlan where
  strategy : DecodeStrategy
  firstSlot : Nat
  deriving DecidableEq, Repr, Inhabited

def OutputPlan.toJson (p : OutputPlan) : Json :=
  .obj [("strategy", p.strategy.toJson), ("first_slot", .nat p.firstSlot)]

/-- Plans outputs from slot `cursor` on. -/
def planFrom (cursor : Nat) : List ResolvedType → Except ShapeError (List OutputPlan)
  | [] => .ok []
  | ty :: rest => do
    let s ← DecodeStrategy.select ty
    match s.slotSpan? with
    | some span => return ⟨s, cursor⟩ :: (← planFrom (cursor + span) rest)
    | none =>
      match rest with
      | [] => return [⟨s, cursor⟩]
      | next :: _ => throw (.at next .followsRepeating)

/-- Assigns slots to outputs left to right. -/
def planOutputs (outputs : List ResolvedType) : Except ShapeError (List OutputPlan) :=
  planFrom 0 outputs

end ContractAbi
