import ContractAbi.Strategy

/-!
# Why a conversion fails

Turning a document into a contract model or bindings fails for one of a few causes. A failure
inside an endpoint is wrapped with the endpoint's name; `root` unwraps every such layer.
-/

namespace ContractAbi

inductive ConversionError where
  /-- A type expression that cannot be read. -/
  | unrecognizedType (expr : String)
  /-- A type name the document does not declare. -/
  | unknownType (name : String)
  | unnamedInput (endpoint : String) (index : Nat)
  | mixedOutputs (endpoint : String)
  | unsupportedShape (context : String) (source : ShapeError)
  | unsupportedFramework (name : String)
  | invalidEnum (name reason : String)
  /-- A generated item name already taken by another item. -/
  | duplicateItem (kind name owner : String)
  /-- A failure inside the named endpoint. -/
  | inEndpoint (endpoint : String) (source : ConversionError)
  /-- A file of the bindings could not be written. -/
  | io (path reason : String)
  /-- An input whose encoder would not end: its type reaches a record that contains itself. -/
  | unboundedEncoder (typeName : String)

namespace ConversionError

def message : ConversionError → String
  | .unrecognizedType e => "unrecognized type expression '" ++ e ++ "'"
  | .unknownType n => "unknown abi field type '" ++ n ++ "'"
  | .unnamedInput e i => "input " ++ toString i ++ " of endpoint '" ++ e ++ "' has no name"
  | .mixedOutputs e => "endpoint '" ++ e ++ "' mixes named and unnamed outputs"
  | .unsupportedShape c s => "unsupported decode shape in " ++ c ++ ": " ++ s.message
  | .unsupportedFramework n => "unsupported contract framework '" ++ n ++ "'"
  | .invalidEnum n r => "invalid enum '" ++ n ++ "': " ++ r
  | .duplicateItem k n o => k ++ " '" ++ n ++ "' is already generated for '" ++ o ++ "'"
  | .inEndpoint e s => "endpoint '" ++ e ++ "': " ++ s.message
  | .io p r => "failed to write " ++ p ++ ": " ++ r
  | .unboundedEncoder t => "encoding '" ++ t ++ "' does not end"

/-- The failures beneath a failure, outermost first: the endpoint failure an endpoint layer
wraps and what that wraps in turn, a shape failure, or a file failure. -/
def sources : ConversionError → List String
  | .unsupportedShape _ s => [s.message]
  | .inEndpoint _ s => s.message :: s.sources
  | .io _ r => [r]
  | _ => []

/-- The innermost failure, without endpoint layers. -/
def root : ConversionError → ConversionError
  | .inEndpoint _ s => s.root
  | e => e

def kind : ConversionError → String
  | .unrecognizedType _ => "UnrecognizedTypeExpression"
  | .unknownType _ => "UnknownAbiFieldType"
  | .unnamedInput .. => "UnnamedInput"
  | .mixedOutputs _ => "MixedNamedAndUnnamedOutputs"
  | .unsupportedShape .. => "UnsupportedDecodeShape"
  | .unsupportedFramework _ => "UnsupportedFramework"
  | .invalidEnum .. => "InvalidEnum"
  | .duplicateItem .. => "DuplicateItemName"
  | .inEndpoint .. => "Endpoint"
  | .io .. => "Io"
  | .unboundedEncoder _ => "UnboundedEncoder"

/-- A failure as an error object: its cause and text, and for an endpoint failure the endpoint
and the innermost failure. -/
def toJson (e : ConversionError) : Json :=
  match e with
  | .inEndpoint n _ =>
    .obj [("error", .str e.kind), ("message", .str e.message), ("endpoint", .str n),
      ("root", .obj [("error", .str e.root.kind), ("message", .str e.root.message)])]
  | _ => .obj [("error", .str e.kind), ("message", .str e.message)]

end ConversionError

end ContractAbi
