import ContractAbi.Conversion.Model

/-!
# The analysis report

The text `abi analyze` prints: the contract and its framework, the aliases in use, the declared
records and enums with their sizes, the composites with their members, and each endpoint with
its method name and tags (`readonly` or `mutable`, then `owner` and `payable` when they apply)
followed by one line per decoded output naming its strategy and first slot. Endpoints skipped for
an unknown mutability and endpoints dropped for a failure come last, the latter with their
innermost failure.
-/

namespace ContractAbi.Cli

def endpointTags (e : Endpoint) : List String :=
  [if e.kind == .readonly then "readonly" else "mutable"] ++
    (if e.onlyOwner then ["owner"] else []) ++
    (if e.acceptsTokenPayment then ["payable"] else [])

def endpointLines (e : Endpoint) : String :=
  "  " ++ e.name ++ " -> " ++ e.methodName ++ " [" ++ ", ".intercalate (endpointTags e) ++ "]\n" ++
    String.join ((e.outputs.zip e.plans).map fun (o, p) =>
      "    " ++ o.type.display ++ ": " ++ p.strategy.label ++ " from slot " ++ toString p.firstSlot ++ "\n")

def analysisText (m : Model) : String :=
  "Contract: " ++ m.name ++ " (" ++ m.framework ++ " " ++ m.frameworkVersion ++ ")\n" ++
  (if m.customTypes.isEmpty then ""
   else "Aliases: " ++ ", ".intercalate (m.customTypes.map (·.keyword)) ++ "\n") ++
  "Named types:\n" ++
  String.join (m.catalog.records.map fun (n, fs) =>
    "  " ++ n ++ " (struct, " ++ toString fs.length ++ " fields)\n") ++
  String.join (m.catalog.enums.map fun (n, vs) =>
    "  " ++ n ++ " (enum, " ++ toString vs.length ++ " variants)\n") ++
  (if m.catalog.composites.isEmpty then ""
   else "Composites:\n" ++ String.join (m.catalog.composites.map fun (n, fs) =>
     "  " ++ n ++ " = <" ++ ",".intercalate (fs.map (·.type.display)) ++ ">\n")) ++
  "Endpoints:\n" ++
  String.join (m.endpoints.map endpointLines) ++
  String.join (m.skipped.map fun n => "Skipped: " ++ n ++ " (unknown mutability)\n") ++
  String.join (m.failures.map fun f => "Failed: " ++ f.endpoint ++ ": " ++ f.error.root.message ++ "\n")

end ContractAbi.Cli
