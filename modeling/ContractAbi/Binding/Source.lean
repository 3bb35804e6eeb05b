import ContractAbi.Conversion.Model
import ContractAbi.Binding.Method

/-!
# The bindings file

One source file per contract: a header naming the contract and its framework, the runtime
imports (sorted, without repeats), the aliases in use, the declared types in document order,
the composites in registration order, the output structs, and last the accessor struct with
one method per endpoint. A `mod.rs` beside it re-exports the module.

Docs are copied from the document unless the options turn them off.
-/

namespace ContractAbi.Binding

/-- How bindings are written. -/
structure Options where
  /-- The crate the bindings import the wire runtime from. -/
  runtimeCrate : String := "abi_reflect"
  emitDocs : Bool := true
  deriving Inhabited

/-- Items every bindings file imports from the runtime crate. -/
def runtimeItems : List String :=
  ["BindingError", "CallOptions", "CallRequest", "NetworkTransport", "ReturnData", "TokenPayment",
    "WireError"]

/-- Sorted text without repeats. -/
def sortedUnique (xs : List String) : List String :=
  (xs.mergeSort fun a b => decide (a ≤ b)).eraseDups

/-- The header: what the file is, and its imports. -/
def header (o : Options) (m : Model) : String :=
  line 0 ("//! Client bindings for the " ++ "\x60" ++ m.name ++ "\x60 contract.") ++
  line 0 "//!" ++
  line 0 ("//! Generated by abi_gen from a " ++ m.framework ++ " " ++ m.frameworkVersion ++
    " ABI. Do not edit.") ++
  line 0 "#![allow(dead_code, unused_imports, unused_mut, clippy::all)]" ++ "\n" ++
  line 0 ("use " ++ o.runtimeCrate ++ "::wire::\x7bself, NestedDecoder, WireArg\x7d;") ++
  line 0 ("use " ++ o.runtimeCrate ++ "::\x7b" ++
    ", ".intercalate (sortedUnique (runtimeItems ++ m.imports)) ++ "\x7d;")

def accessor (o : Options) (m : Model) : Except ConversionError String := do
  let n := m.accessorName
  let methods ← joinMapM (fun e =>
      ("\n" ++ ·) <$> methodItem (if o.emitDocs then e else { e with docs := [] }) m.catalog)
    m.endpoints
  return docLines (if o.emitDocs then m.docs else []) 0 ++
    line 0 ("/// Client for the \x60" ++ m.name ++ "\x60 contract.") ++
    line 0 ("pub struct " ++ n ++ "<T> \x7b") ++
    line 2 "transport: T," ++
    line 2 "contract_address: String," ++
    line 0 "\x7d" ++ "\n" ++
    line 0 ("impl<T: NetworkTransport> " ++ n ++ "<T> \x7b") ++
    line 2 "pub fn new(transport: T, contract_address: impl Into<String>) -> Self \x7b" ++
    line 4 "Self \x7b transport, contract_address: contract_address.into() \x7d" ++
    line 2 "\x7d" ++ "\n" ++
    line 2 "pub fn transport(&self) -> &T \x7b" ++
    line 4 "&self.transport" ++
    line 2 "\x7d" ++ "\n" ++
    line 2 "pub fn contract_address(&self) -> &str \x7b" ++
    line 4 "&self.contract_address" ++
    line 2 "\x7d" ++
    methods ++
    line 0 "\x7d"

/-- The declaration of one named type, if the catalog has it. -/
def declaredItem (o : Options) (m : Model) (name : String) (docs : List String) :
    Except ConversionError String :=
  let docs := if o.emitDocs then docs else []
  match m.catalog.records.get? name with
  | some fields => ("\n" ++ ·) <$> recordItem name fields docs m.catalog
  | none =>
    match m.catalog.enums.get? name with
    | some variants => ("\n" ++ ·) <$> enumItem name variants docs
    | none => pure ""

def source (o : Options) (m : Model) : Except ConversionError String := do
  let al := aliases m.customTypes
  let declared ← joinMapM (fun (n, d) => declaredItem o m n d) m.typeDocs
  let composites ← joinMapM (fun (n, fs) => ("\n" ++ ·) <$> recordItem n fs [] m.catalog)
    m.catalog.composites
  let outputs := String.join (m.endpoints.map fun e =>
    match e.outputStruct? with
    | some fields => "\n" ++ outputStructItem e.outputStructName fields
    | none => "")
  return header o m ++ (if al.isEmpty then "" else "\n" ++ al) ++ declared ++ composites ++
    outputs ++ "\n" ++ (← accessor o m)

def modFile (moduleName : String) : String :=
  "#[allow(non_snake_case)]\nmod " ++ moduleName ++ ";\n\npub use " ++ moduleName ++ "::*;\n"

end ContractAbi.Binding

namespace ContractAbi

structure Conversion where
  model : Model
  source : String

def convert (doc : AbiDocument) (policy : Policy) (o : Binding.Options) :
    Except ConversionError Conversion := do
  let m ← analyze doc policy
  return ⟨m, ← Binding.source o m⟩

end ContractAbi
