import ContractAbi.Wire.Reader

/-!
# Reading outputs from returned slots

A call returns a list of slots. Each output is read from them by one of five strategies, each
with its own failure policy:

* `scalar` and `group` abort: the call fails with an invalid response at the slot concerned;
* `selfTerminating` stops: it keeps the records read before the first bad one;
* `eachSlot` and `groups` skip: a bad element is dropped and reading goes on.

A missing slot is an empty list for `selfTerminating`; `groups` drops an incomplete trailing
group.
-/

namespace ContractAbi.Wire

inductive CallError where
  /-- A slot could not be decoded where the policy is to abort. -/
  | invalidResponse (endpoint : String) (slot : Nat) (source : WireError)
  /-- The transaction ran and failed. -/
  | failed (endpoint txHash reason : String)

def CallError.message : CallError → String
  | .invalidResponse e s w =>
    "invalid response from '" ++ e ++ "' at slot " ++ toString s ++ ": " ++ w.message
  | .failed e h r => "call to '" ++ e ++ "' failed in transaction " ++ h ++ ": " ++ r

/-- The outcome of a sent transaction: its hash, or the reason it failed. -/
def callOutcome (endpoint txHash : String) (failure : Option String) : Except CallError String :=
  match failure with
  | none => .ok txHash
  | some reason => .error (.failed endpoint txHash reason)

/-- The slots a call returned, with the endpoint failures are reported against. -/
structure Slots where
  endpoint : String
  slots : List (List UInt8)

namespace Slots

/-- The slot at `index`, or a missing-slot failure. -/
def get (d : Slots) (index : Nat) : Except CallError (List UInt8) :=
  match d.slots[index]? with
  | some s => .ok s
  | none => .error (.invalidResponse d.endpoint index (.missingSlot index d.slots.length))

/-- One value from one slot; a failure aborts. -/
def scalar {α : Type} (d : Slots) (index : Nat) (decode : List UInt8 → Except WireError α) :
    Except CallError α := do
  let s ← d.get index
  (decode s).mapError (.invalidResponse d.endpoint index)

/-- Records packed into one slot; a missing slot is an empty list. -/
def selfTerminatingAt {α : Type} (d : Slots) (index : Nat) (record : Reader α) : List α :=
  match d.slots[index]? with
  | some s => selfTerminating record s
  | none => []

/-- One value per slot from `start` on; undecodable slots are skipped. -/
def eachSlot {α : Type} (d : Slots) (start : Nat) (decode : List UInt8 → Except WireError α) :
    List α :=
  (d.slots.drop start).filterMap fun s => (decode s).toOption

/-- The complete groups of `width` items from the front of a list. -/
def completeGroups {α : Type} (width : Nat) (xs : List α) : List (List α) :=
  if _h : 0 < width ∧ width ≤ xs.length then
    xs.take width :: completeGroups width (xs.drop width)
  else []
termination_by xs.length
decreasing_by simp only [List.length_drop]; omega

/-- Groups of `width` slots from `start` on; undecodable groups are skipped and an incomplete
trailing group is dropped. -/
def groups {α : Type} (d : Slots) (start width : Nat)
    (decode : List (List UInt8) → Except WireError α) : List α :=
  (completeGroups width (d.slots.drop start)).filterMap fun g => (decode g).toOption

/-- Exactly one group of `width` slots from `start`; a failure aborts. -/
def group {α : Type} (d : Slots) (start width : Nat)
    (decode : List (List UInt8) → Except WireError α) : Except CallError α :=
  if d.slots.length < start + width then
    let missing := max d.slots.length start
    .error (.invalidResponse d.endpoint missing (.missingSlot missing d.slots.length))
  else
    (decode ((d.slots.drop start).take width)).mapError (.invalidResponse d.endpoint start)

end Slots

end ContractAbi.Wire
