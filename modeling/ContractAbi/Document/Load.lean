import ContractAbi.Document.FromJson
import ContractAbi.Document.FromYaml

/-!
# Loading ABI documents

A document is JSON or YAML; the file extension decides (`.yaml` and `.yml` in any case are
YAML, everything else JSON). A loaded document may be checked for a supported framework. A
failure reports its own text and, beneath it, the failure it wraps.
-/

namespace ContractAbi

inductive AbiFormat where
  | json
  | yaml
  deriving DecidableEq, Repr

/-- The extension of the last component of a path: the text after its last dot, when that dot
does not start the name. -/
def pathExtension (path : String) : Option String :=
  let trimmed := (path.toList.reverse.dropWhile (· = '/')).reverse
  let name := (trimmed.reverse.takeWhile (· ≠ '/')).reverse
  if name = ['.', '.'] then none
  else
    let after := (name.reverse.takeWhile (· ≠ '.')).reverse
    if after.length = name.length then none
    else
      let before := name.take (name.length - after.length - 1)
      if before.isEmpty then none else some (String.ofList after)

def AbiFormat.ofPath (path : String) : AbiFormat :=
  match pathExtension path with
  | some ext =>
    let e := ext.toList.map Char.toLower
    if e = "yaml".toList ∨ e = "yml".toList then .yaml else .json
  | none => .json

inductive LoadError where
  | io (path : String) (reason : String)
  | json (e : Json.JsonError)
  | yaml (message : String)
  | unsupportedFramework (name : String)

def LoadError.message : LoadError → String
  | .io path reason => "failed to read ABI file " ++ path ++ ": " ++ reason
  | .json e => "invalid JSON ABI document: " ++ e.render
  | .yaml m => "invalid YAML ABI document: " ++ m
  | .unsupportedFramework n =>
    "unsupported contract framework '" ++ n ++ "' (expected one of: " ++
      ", ".intercalate supportedFrameworks ++ ")"

/-- A failure's text and the texts of the failures beneath it: the read failure of a file, or
the parser's own failure. -/
def LoadError.chain (e : LoadError) : List String :=
  e.message :: match e with
    | .io _ reason => [reason]
    | .json j => [j.render]
    | .yaml m => [m]
    | .unsupportedFramework _ => []

def parseAbi (text : String) : AbiFormat → Except LoadError AbiDocument
  | .json => (Document.ofJsonText text).mapError .json
  | .yaml => (Document.ofYamlText text).mapError .yaml

def AbiDocument.ensureSupported (d : AbiDocument) : Except LoadError Unit :=
  if d.hasSupportedFramework then .ok () else .error (.unsupportedFramework d.frameworkName)

end ContractAbi
