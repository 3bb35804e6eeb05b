import ContractAbi.Text.Blank
import ContractAbi.Conversion.Resolution

/-!
# Endpoints ready for bindings

An endpoint of the document becomes an accessor method. Readonly endpoints are queried and
their outputs decoded by a slot plan; mutable endpoints are sent as transactions, and their
outputs are resolved only to validate them, in a scratch copy of the context, so that they leave
no composite or alias behind. An endpoint of any other mutability is skipped.

Before anything is resolved, every input must have a name and the outputs must be all named or
all unnamed (blank names count as none; output names are kept trimmed).
-/

namespace ContractAbi

inductive EndpointKind where
  | readonly
  | mutable
  deriving DecidableEq, Inhabited

def EndpointKind.toString : EndpointKind → String
  | .readonly => "readonly"
  | .mutable => "mutable"

structure Input where
  name : String
  type : ResolvedType
  deriving Inhabited

structure Output where
  name : Option String
  type : ResolvedType
  multiResult : Bool
  deriving Inhabited

structure Endpoint where
  name : String
  methodName : String
  docs : List String
  kind : EndpointKind
  onlyOwner : Bool
  acceptsTokenPayment : Bool
  inputs : List Input
  /-- The declared outputs; a mutable endpoint's are validated but not decoded. -/
  outputs : List Output
  /-- One slot plan per output; empty for mutable endpoints. -/
  plans : List OutputPlan
  deriving Inhabited

/-- The native token: paid through the call's value, not as a token payment. -/
def nativeToken : String := "EGLD"

namespace Endpoint

def isReadonly (e : Endpoint) : Bool := e.kind == .readonly

/-- More than one output, and every one named. -/
def hasNamedOutputs (e : Endpoint) : Bool :=
  e.outputs.length > 1 && e.outputs.all (·.name.isSome)

/-- The name of the struct that holds a readonly endpoint's named outputs. -/
def outputStructName (e : Endpoint) : String :=
  Binding.pascalCase e.name ++ "Output"

/-- The fields of the output struct, for readonly endpoints with several named outputs. -/
def outputStruct? (e : Endpoint) : Option (List (String × ResolvedType)) :=
  if e.isReadonly && e.hasNamedOutputs then
    some (e.outputs.map fun o => (o.name.getD "", o.type))
  else none

def toJson (e : Endpoint) : Json :=
  .obj [("name", .str e.name), ("method_name", .str e.methodName), ("docs", Json.strs e.docs),
    ("kind", .str e.kind.toString), ("only_owner", .bool e.onlyOwner),
    ("accepts_token_payment", .bool e.acceptsTokenPayment),
    ("inputs", .arr (e.inputs.map fun i => .obj [("name", .str i.name), ("ty", i.type.toJson)])),
    ("outputs", .arr (e.outputs.map fun o =>
      .obj [("name", match o.name with | some n => .str n | none => .null), ("ty", o.type.toJson),
        ("multi_result", .bool o.multiResult)])),
    ("plans", .arr (e.plans.map OutputPlan.toJson))]

end Endpoint

def resolveInputs (doc : AbiDocument) (inputs : List EndpointInput) : Resolve (List Input) :=
  inputs.mapM fun i => do return ⟨i.name, ← resolve doc i.typeExpr⟩

/-- Resolves an endpoint's outputs; a blank name is none, others are trimmed. -/
def resolveOutputs (doc : AbiDocument) (outputs : List EndpointOutput) : Resolve (List Output) :=
  outputs.mapM fun o => do
    let ty ← resolve doc o.typeExpr
    let name := Text.trim o.name
    return ⟨if name.isEmpty then none else some name, ty, o.multiResult⟩

/-- Classifies and resolves one endpoint; `none` for a mutability that is neither readonly nor
mutable. -/
def classify (doc : AbiDocument) (e : EndpointDescriptor) : Resolve (Option Endpoint) := do
  let kind ← match e.mutability with
    | .readonly => pure EndpointKind.readonly
    | .mutable => pure EndpointKind.mutable
    | .other _ => return none
  match e.inputs.findIdx? (fun i => Text.isAllBlank i.name) with
  | some index => throw (.unnamedInput e.name index)
  | none => pure ()
  let named := (e.outputs.filter fun o => !Text.isAllBlank o.name).length
  if named ≠ 0 && named ≠ e.outputs.length then throw (.mixedOutputs e.name)
  let inputs ← resolveInputs doc e.inputs
  let (outputs, plans) ← match kind with
    | .readonly => do
      let outputs ← resolveOutputs doc e.outputs
      match planOutputs (outputs.map (·.type)) with
      | .ok plans => pure (outputs, plans)
      | .error s => throw (.unsupportedShape ("outputs of '" ++ e.name ++ "'") s)
    | .mutable => do
      let scratch ← get
      match ((resolveOutputs doc e.outputs).run).run scratch with
      | (.ok outputs, _) => pure (outputs, [])
      | (.error err, _) => throw err
  return some {
    name := e.name
    methodName := Binding.methodName e.name
    docs := e.docs
    kind := kind
    onlyOwner := e.onlyOwner
    acceptsTokenPayment := e.payableInTokens.any (· != nativeToken)
    inputs := inputs
    outputs := outputs
    plans := plans }

end ContractAbi
