import ContractAbi.Conversion.Endpoint

/-!
# The contract model

Analysis resolves the whole document without writing code: named types first, in document
order, then each endpoint as a unit. The context is saved before an endpoint and put back if the
endpoint fails, so a dropped endpoint leaves no alias or composite behind. Under the strict
policy the first failing endpoint fails the analysis; under the skipping policy it is dropped and
reported with its innermost failure.

Every generated item name has one owner: an endpoint's method name, and the output struct of a
readonly endpoint with several named outputs, must not be taken by an earlier endpoint or by a
declared type. The accessor is named after the contract, with `Client` appended when a type or
composite already has that name.
-/

namespace ContractAbi

/-- What to do with an endpoint that cannot be converted. -/
inductive Policy where
  /-- The first failing endpoint fails the document. -/
  | strict
  /-- Failing endpoints are dropped and reported. -/
  | skipFailed
  deriving DecidableEq, Inhabited

/-- Generated item names handed out so far, each with the item that owns it. -/
structure ItemNames where
  methods : OrderedMap String := []
  types : OrderedMap String := []
  deriving Inhabited

namespace ItemNames

/-- The type identifiers of the document's declarations, owned by them. -/
def forDocument (doc : AbiDocument) : ItemNames :=
  { types := doc.types.foldl (fun m (n, _) => m.insert (Binding.typeIdent n) n) [] }

/-- Claims an endpoint's method and output struct, refusing names already taken. -/
def claim (names : ItemNames) (e : Endpoint) : Except ConversionError ItemNames := do
  if let some owner := names.methods.get? e.methodName then
    throw (.duplicateItem "method" e.methodName owner)
  let names ← match e.outputStruct? with
    | none => pure names
    | some _ =>
      let n := e.outputStructName
      match names.types.get? n with
      | some owner => throw (.duplicateItem "type" n owner)
      | none => pure { names with types := names.types.insert n e.name }
  return { names with methods := names.methods.insert e.methodName e.name }

end ItemNames

/-- An endpoint dropped under the skipping policy. -/
structure Failure where
  endpoint : String
  error : ConversionError

/-- A resolved and validated contract, everything the bindings need. -/
structure Model where
  name : String
  moduleName : String
  accessorName : String
  framework : String
  frameworkVersion : String
  docs : List String
  /-- The docs of each declared type, in document order. -/
  typeDocs : List (String × List String)
  catalog : Catalog
  customTypes : List Primitive
  imports : List String
  endpoints : List Endpoint
  /-- Endpoints whose mutability is neither readonly nor mutable. -/
  skipped : List String
  failures : List Failure

/-- The serialized model; a failure is reported by its innermost text. -/
def Model.toJson (m : Model) : Json :=
  .obj [("name", .str m.name), ("module_name", .str m.moduleName),
    ("accessor_name", .str m.accessorName), ("framework", .str m.framework),
    ("framework_version", .str m.frameworkVersion), ("docs", Json.strs m.docs),
    ("type_docs", .obj (m.typeDocs.map fun (n, d) => (n, Json.strs d))),
    ("catalog", m.catalog.toJson),
    ("custom_types", .arr (m.customTypes.map fun p => .str p.tag)),
    ("imports", Json.strs m.imports),
    ("endpoints", .arr (m.endpoints.map Endpoint.toJson)),
    ("skipped", Json.strs m.skipped),
    ("failures", .arr (m.failures.map fun f =>
      .obj [("endpoint", .str f.endpoint), ("error", .str f.error.root.message)]))]

/-- Where endpoint analysis stands: the context, the names claimed and the endpoints sorted. -/
structure Progress where
  context : Context
  names : ItemNames
  endpoints : List Endpoint := []
  skipped : List String := []
  failures : List Failure := []

/-- Classifies one endpoint and claims its names, keeping the context only on success. -/
def Progress.step (doc : AbiDocument) (policy : Policy) (p : Progress) (e : EndpointDescriptor) :
    Except ConversionError Progress :=
  let (r, ctx) := ((classify doc e).run).run p.context
  let claimed : Except ConversionError (Option (Endpoint × ItemNames)) := do
    match ← r with
    | none => pure none
    | some c => return some (c, ← p.names.claim c)
  match claimed with
  | .ok none => .ok { p with context := ctx, skipped := p.skipped ++ [e.name] }
  | .ok (some (c, names)) => .ok { p with context := ctx, names := names, endpoints := p.endpoints ++ [c] }
  | .error err =>
    let err := ConversionError.inEndpoint e.name err
    match policy with
    | .strict => .error err
    | .skipFailed => .ok { p with failures := p.failures ++ [⟨e.name, err⟩] }

/-- Rejects a document whose framework conversion does not know. -/
def checkFramework (doc : AbiDocument) : Except ConversionError Unit :=
  if doc.hasSupportedFramework then .ok () else .error (.unsupportedFramework doc.frameworkName)

/-- The model of a document whose named types resolved to `decls` and whose endpoints were
analyzed up to `p`. -/
def Progress.model (doc : AbiDocument) (decls : Declarations) (p : Progress) : Model :=
  let catalog := decls.catalog p.context
  let accessor := Binding.typeIdent (Binding.pascalCase doc.name)
  let accessor :=
    if p.names.types.contains accessor || catalog.composites.contains accessor then accessor ++ "Client"
    else accessor
  {
    name := doc.name
    moduleName := Binding.lowerFirst doc.name
    accessorName := accessor
    framework := doc.frameworkName
    frameworkVersion := doc.buildInfo.framework.version
    docs := doc.docs
    typeDocs := doc.types.map fun (n, d) => (n, d.docs)
    catalog := catalog
    customTypes := p.context.customTypes
    imports := p.context.imports
    endpoints := p.endpoints
    skipped := p.skipped
    failures := p.failures }

def analyze (doc : AbiDocument) (policy : Policy) : Except ConversionError Model := do
  checkFramework doc
  let (r, decls, ctx) := ((declareTypes doc).run).run ({}, Context.forDocument doc)
  r
  let p ← doc.endpoints.foldlM (Progress.step doc policy) ⟨ctx, ItemNames.forDocument doc, [], [], []⟩
  return p.model doc decls

end ContractAbi
