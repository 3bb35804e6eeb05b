import ContractAbi.Json
import ContractAbi.OrderedMap

/-!
# ABI documents

A contract ABI document as the contract build tooling emits it: build information, the contract
name and docs, an optional constructor, endpoints, events, whether the contract has callbacks,
and the named types in document order.

Every defaulted member is filled in when a document is read, so the serialized form below lists
all of them, with the same camelCase keys it is read from; only the contract crate is left out
when it is absent. An endpoint's mutability is kept as written; `readonly` and `mutable` are the
two that conversion understands.
-/

namespace ContractAbi

structure CrateInfo where
  name : String
  version : String := ""
  deriving Inhabited

structure FrameworkInfo where
  name : String
  version : String := ""
  deriving Inhabited

structure BuildInfo where
  contractCrate : Option CrateInfo := none
  framework : FrameworkInfo
  deriving Inhabited

structure EndpointInput where
  name : String := ""
  typeExpr : String
  multiArg : Bool := false
  deriving Inhabited

/-- A (possibly named) output of an endpoint or constructor. -/
structure EndpointOutput where
  name : String := ""
  typeExpr : String
  multiResult : Bool := false
  deriving Inhabited

structure Constructor where
  docs : List String := []
  inputs : List EndpointInput := []
  outputs : List EndpointOutput := []
  deriving Inhabited

/-- Whether an endpoint changes state. Other words are kept so they can be reported. -/
inductive Mutability where
  | readonly
  | mutable
  | other (word : String)
  deriving DecidableEq, Inhabited

def Mutability.ofString (s : String) : Mutability :=
  if s = "readonly" then .readonly else if s = "mutable" then .mutable else .other s

def Mutability.toString : Mutability → String
  | .readonly => "readonly"
  | .mutable => "mutable"
  | .other s => s

structure EndpointDescriptor where
  name : String
  docs : List String := []
  onlyOwner : Bool := false
  mutability : Mutability := .mutable
  payableInTokens : List String := []
  inputs : List EndpointInput := []
  outputs : List EndpointOutput := []
  deriving Inhabited

structure EventInput where
  name : String
  typeExpr : String
  indexed : Bool := false
  deriving Inhabited

structure EventDescriptor where
  identifier : String
  inputs : List EventInput := []
  deriving Inhabited

structure StructField where
  name : String
  typeExpr : String
  deriving Inhabited

/-- A variant of a declared enum, with its discriminant as written. -/
structure EnumVariant where
  name : String
  discriminant : Nat
  deriving Inhabited

inductive TypeDefinition where
  | struct (docs : List String) (fields : List StructField)
  | enum (docs : List String) (variants : List EnumVariant)
  deriving Inhabited

def TypeDefinition.docs : TypeDefinition → List String
  | .struct d _ | .enum d _ => d

def supportedFrameworks : List String := ["multiversx-sc", "elrond-wasm"]

/-- A contract ABI document. -/
structure AbiDocument where
  buildInfo : BuildInfo
  docs : List String := []
  name : String
  constructor : Option Constructor := none
  endpoints : List EndpointDescriptor := []
  events : List EventDescriptor := []
  hasCallbacks : Bool := false
  types : OrderedMap TypeDefinition := []
  deriving Inhabited

namespace AbiDocument

/-- The name of the framework the contract was written with. -/
def frameworkName (d : AbiDocument) : String :=
  d.buildInfo.framework.name

def hasSupportedFramework (d : AbiDocument) : Bool :=
  supportedFrameworks.contains d.frameworkName

/-! ## The serialized document -/

def inputsJson (xs : List EndpointInput) : Json :=
  .arr (xs.map fun i =>
    .obj [("name", .str i.name), ("type", .str i.typeExpr), ("multi_arg", .bool i.multiArg)])

def outputsJson (xs : List EndpointOutput) : Json :=
  .arr (xs.map fun o =>
    .obj [("name", .str o.name), ("type", .str o.typeExpr), ("multi_result", .bool o.multiResult)])

def buildInfoJson (b : BuildInfo) : Json :=
  let framework : Json :=
    .obj [("name", .str b.framework.name), ("version", .str b.framework.version)]
  match b.contractCrate with
  | some c =>
    .obj [("contractCrate", .obj [("name", .str c.name), ("version", .str c.version)]),
      ("framework", framework)]
  | none => .obj [("framework", framework)]

def endpointJson (e : EndpointDescriptor) : Json :=
  .obj [("name", .str e.name), ("docs", Json.strs e.docs), ("onlyOwner", .bool e.onlyOwner),
    ("mutability", .str e.mutability.toString), ("payableInTokens", Json.strs e.payableInTokens),
    ("inputs", inputsJson e.inputs), ("outputs", outputsJson e.outputs)]

def typeJson : TypeDefinition → Json
  | .struct docs fields =>
    .obj [("type", .str "struct"), ("docs", Json.strs docs),
      ("fields", .arr (fields.map fun f => .obj [("name", .str f.name), ("type", .str f.typeExpr)]))]
  | .enum docs variants =>
    .obj [("type", .str "enum"), ("docs", Json.strs docs),
      ("variants", .arr (variants.map fun v =>
        .obj [("name", .str v.name), ("discriminant", .nat v.discriminant)]))]

def toJson (d : AbiDocument) : Json :=
  .obj [("buildInfo", buildInfoJson d.buildInfo), ("docs", Json.strs d.docs), ("name", .str d.name),
    ("constructor", match d.constructor with
      | some c => .obj [("docs", Json.strs c.docs), ("inputs", inputsJson c.inputs),
          ("outputs", outputsJson c.outputs)]
      | none => .null),
    ("endpoints", .arr (d.endpoints.map endpointJson)),
    ("events", .arr (d.events.map fun ev =>
      .obj [("identifier", .str ev.identifier), ("inputs", .arr (ev.inputs.map fun i =>
        .obj [("name", .str i.name), ("type", .str i.typeExpr), ("indexed", .bool i.indexed)]))])),
    ("hasCallbacks", .bool d.hasCallbacks),
    ("types", .obj (d.types.map fun (n, t) => (n, typeJson t)))]

end AbiDocument

end ContractAbi
