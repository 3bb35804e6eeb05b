import ContractAbi.Yaml.Read
import ContractAbi.Text.Blank

/-!
# The code generator's config file

Settings shared by the subcommands: where bindings go, the runtime crate they import, whether
failing endpoints are dropped, and the log filter. Flags on the command line override them.

The file is YAML, a mapping of these four keys, each optional; any other key is refused. A file
holding only blanks means all defaults.
-/

namespace ContractAbi.Cli

structure Config where
  outputDir : String := "generated"
  runtimeCrate : String := "abi_reflect"
  allowPartial : Bool := false
  logFilter : String := "info"
  deriving Inhabited

/-- The name of the config file looked for in the working directory. -/
def defaultConfigFile : String := "abi-gen.yaml"

structure ConfigPart where
  outputDir : Option String := none
  runtimeCrate : Option String := none
  allowPartial : Option Bool := none
  logFilter : Option String := none

open Yaml in
def configMembers : List (Member ConfigPart) :=
  [⟨"output_dir", fun s => s.outputDir.isSome,
     fun p s => do return { s with outputDir := some (← readScalarText "path string" p) }⟩,
   ⟨"runtime_crate", fun s => s.runtimeCrate.isSome,
     fun p s => do return { s with runtimeCrate := some (← readText p) }⟩,
   ⟨"allow_partial", fun s => s.allowPartial.isSome,
     fun p s => do return { s with allowPartial := some (← readBool p) }⟩,
   ⟨"log_filter", fun s => s.logFilter.isSome,
     fun p s => do return { s with logFilter := some (← readText p) }⟩]

/-- Reads a config from YAML text; blank text is the defaults. -/
def Config.ofYamlText (text : String) : Except String Config :=
  if (Text.trim text).isEmpty then .ok {}
  else
    let finish (s : ConfigPart) : Except String Config :=
      let d : Config := {}
      .ok { outputDir := s.outputDir.getD d.outputDir, runtimeCrate := s.runtimeCrate.getD d.runtimeCrate,
            allowPartial := s.allowPartial.getD d.allowPartial, logFilter := s.logFilter.getD d.logFilter }
    match Yaml.readYaml text (Yaml.readRecord "CodegenConfig" configMembers true {} finish) with
    | .ok c => .ok c
    | .error e => .error e.render

end ContractAbi.Cli
