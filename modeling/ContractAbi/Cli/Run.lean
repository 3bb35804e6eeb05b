import ContractAbi.Cli.Grammar
import ContractAbi.Cli.Disk
import ContractAbi.Cli.Config
import ContractAbi.Cli.LogFilter
import ContractAbi.Cli.Report
import ContractAbi.Cli.Analysis
import ContractAbi.Document.Load
import ContractAbi.Binding.Source
import ContractAbi.Wire.Outputs
import ContractAbi.Text.Hex

/-!
# Running the command line

A run reads its arguments; help and version print and succeed, usage errors print and exit
with status 2. Otherwise it loads the config (the file `--config` names, for `codegen`, else
`abi-gen.yaml` in the working directory when it is a file, else the defaults), checks the log
filter (`RUST_LOG` when set and valid, else `debug` under `-v`, else the config's), and runs the
subcommand:

- `analyze` loads the document, analyzes it skipping failing endpoints, and prints the report
  or the model as pretty JSON;
- `decode` finds a readonly endpoint of the analyzed model and decodes the given hexadecimal
  slots into values, printed as an array, or as an object when every output is named;
- `codegen` converts the document and writes the bindings module and its `mod.rs` under the
  output directory, in a directory named after the module.

A failure prints its report on standard error and exits with status 1.
-/

namespace ContractAbi.Cli

structure Outcome where
  status : Nat
  stdout : String
  stderr : String
  deriving Inhabited

/-- A run's steps: they may fail with a report. -/
abbrev RunStep (m : Type → Type) := ExceptT Fault m

variable {m : Type → Type} [Monad m] [Disk m]

/-- Fails with a report, or goes on with a value. -/
def orFail {ε α : Type} (r : Except ε α) (report : ε → Fault) : RunStep m α :=
  match r with
  | .ok v => pure v
  | .error e => throw (report e)

/-- Loads the config: an explicit file, else the working directory's file if there is one, else
the defaults. -/
def loadConfig (explicit : Option String) (cwd : String) : RunStep m Config := do
  let path ← match explicit with
    | some p => pure (some p)
    | none =>
      let candidate := joinPath cwd defaultConfigFile
      if ← (Disk.isFile candidate : m Bool) then pure (some candidate) else pure none
  match path with
  | none => return {}
  | some p =>
    let text ← orFail (← (Disk.readText p : m _)) fun e =>
      { message := "failed to read config " ++ p, causes := [e.message] }
    orFail (Config.ofYamlText text) fun msg => { message := "invalid config " ++ p, causes := [msg] }

/-- Checks the log filter: the environment's when it is valid, else the fallback. -/
def checkLogFilter (env : Option String) (fallback : String) : RunStep m Unit :=
  match env with
  | some f => if isLogFilter f then pure () else fallbackFilter
  | none => fallbackFilter
where
  /-- The fallback filter, which must be valid. -/
  fallbackFilter : RunStep m Unit :=
    match checkFilter fallback with
    | .ok () => pure ()
    | .error e => throw { message := "invalid log filter '" ++ fallback ++ "'", causes := e.causes }

/-- Loads an ABI document from a file and checks its framework. -/
def loadAbi (file : String) : RunStep m AbiDocument := do
  let report (e : LoadError) : Fault := { message := "failed to load ABI " ++ file, causes := e.chain }
  let text ← orFail (← (Disk.readText file : m _)) fun e => report (.io file e.message)
  let doc ← orFail (parseAbi text (AbiFormat.ofPath file)) report
  orFail doc.ensureSupported report
  return doc

def conversionFault (e : ConversionError) : Fault := { message := e.message, causes := e.sources }

/-- `analyze`: the report or the pretty model. -/
def runAnalyze (file : String) (json : Bool) : RunStep m String := do
  let doc ← loadAbi file
  let model ← orFail (analyze doc .skipFailed) conversionFault
  return if json then Json.render model.toJson ++ "\n" else analysisText model

/-- Inserts into an object, a key given again replacing its value in place. -/
def insertMember (fields : List (String × Json)) (k : String) (v : Json) : List (String × Json) :=
  if fields.any (·.1 == k) then fields.map fun f => if f.1 == k then (k, v) else f
  else fields ++ [(k, v)]

def readSlots (slots : List String) : RunStep m (List (List UInt8)) :=
  ((List.range slots.length).zip slots).mapM fun (i, s) =>
    orFail (Text.ofHex s) fun h => { message := "slot " ++ toString i ++ " is not valid hex", causes := [h.message] }

/-- `decode`: the values of a readonly endpoint's outputs. -/
def runDecode (file name : String) (slots : List String) (pretty : Bool) : RunStep m String := do
  let doc ← loadAbi file
  let model ← orFail (analyze doc .skipFailed) conversionFault
  let some e := model.endpoints.find? (·.name == name)
    | match model.failures.find? (·.endpoint == name) with
      | some f => throw { message := "endpoint '" ++ name ++ "' cannot be decoded: " ++ f.error.root.message }
      | none => throw { message := "endpoint '" ++ name ++ "' not found in " ++ file }
  if e.kind != .readonly then
    throw { message := "endpoint '" ++ name ++ "' is not readonly; mutable calls return a transaction hash" }
  let raw ← readSlots slots
  let values ← orFail (Wire.decodeOutputs model.catalog name (e.outputs.map (·.type)) raw) fun oe =>
    { message := oe.message, causes := oe.sources }
  let rendered : Json :=
    if e.hasNamedOutputs then
      .obj ((e.outputs.zip values).foldl (fun acc (o, v) => insertMember acc (o.name.getD "") v.toJson) [])
    else .arr (values.map Value.toJson)
  return (if pretty then Json.render rendered else Json.compact rendered) ++ "\n"

def writeFile (path contents : String) : RunStep m Unit := do
  orFail (← (Disk.writeText path contents : m _)) fun e =>
    { message := "failed to write " ++ path ++ ": " ++ e.message, causes := [e.message] }

/-- `codegen`: converts the document and writes its bindings module. -/
def runCodegen (file outputDir runtimeCrate : String) (allowPartial : Bool) : RunStep m String := do
  let doc ← loadAbi file
  let policy := if allowPartial then Policy.skipFailed else Policy.strict
  let conv ← orFail (convert doc policy { runtimeCrate := runtimeCrate }) fun e =>
    { message := "failed to convert " ++ file, causes := e.message :: e.sources }
  let name := conv.model.moduleName
  let moduleDir := joinPath outputDir name
  orFail (← (Disk.createDirAll moduleDir : m _)) fun e =>
    { message := "failed to write " ++ moduleDir ++ ": " ++ e.message, causes := [e.message] }
  let sourcePath := joinPath moduleDir (name ++ ".rs")
  writeFile sourcePath conv.source
  writeFile (joinPath moduleDir "mod.rs") (Binding.modFile name)
  return "Generated " ++ sourcePath ++ " (" ++ toString conv.model.endpoints.length ++ " endpoints, " ++
    toString conv.model.failures.length ++ " skipped)\n"

/-- Runs a subcommand in a working directory, with the log filter of the environment. -/
def execute (inv : Invocation) (cwd : String) (logEnv : Option String) : RunStep m String := do
  let (explicit, verbose) := match inv with
    | .codegen _ _ _ config _ verbose => (config, verbose)
    | .analyze _ _ verbose => (none, verbose)
    | .decode _ _ _ _ verbose => (none, verbose)
  let config ← loadConfig explicit cwd
  checkLogFilter logEnv (if verbose then "debug" else config.logFilter)
  match inv with
  | .codegen file out crate _ allow _ =>
    runCodegen file (out.getD config.outputDir) (crate.getD config.runtimeCrate) (allow || config.allowPartial)
  | .analyze file json _ => runAnalyze file json
  | .decode file name slots pretty _ => runDecode file name slots pretty

/-- Runs the program on its arguments, in a working directory, with the log filter of the
environment. -/
def run (args : List String) (cwd : String) (logEnv : Option String) : m Outcome := do
  match parse args with
  | .info text => return ⟨0, text, ""⟩
  | .usageError text => return ⟨2, "", text⟩
  | .run inv =>
    match ← (execute inv cwd logEnv).run with
    | .ok out => return ⟨0, out, ""⟩
    | .error f => return ⟨1, "", f.render⟩

end ContractAbi.Cli
