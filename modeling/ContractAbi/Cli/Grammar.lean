import ContractAbi.Text.Jaro

/-!
# The command line's grammar

The `abi` program has three subcommands, each with its options and flags. This module reads an
argument list into an `Invocation`, or into the text the program answers instead: its help, its
version, or a usage error.

Options are written `--long value`, `--long=value`, `-s value`, `-svalue` or `-s=value`; flags
take no value and short flags may be clustered (`-vf file`). A token that looks like a flag is
never taken as an option's value. An option without an attached value is recorded only when the
next option or flag is read, or when the arguments end; so an option left without its value is
refused then, unless an unknown argument or a value attached to a flag comes first. Every option
but `--slot` may be given once. Path options refuse an empty value.

`help NAME` prints a subcommand's help, and `--` ends the options: a subcommand's name after it
is refused with a tip to remove the `--`.

A usage error names its cause, may add a tip naming a similar subcommand or option (Jaro
similarity above 0.7), and shows a usage line: the full one, or, for an unknown long option, a
value given to a flag and missing required arguments, one listing the required arguments and
those already recognised. A value given to a flag after some option was recorded shows all the
subcommand's options as one group instead.
-/

namespace ContractAbi.Cli

structure Opt where
  id : String
  short : Option Char := none
  long : String
  /-- The value's placeholder; `none` for a flag. -/
  value : Option String := none
  help : String
  required : Bool := false
  repeatable : Bool := false
  /-- A path: an empty value is refused. -/
  path : Bool := false
  deriving Inhabited

/-- How an option is written in messages and usage lines: `--file <FILE>`, `--json`. -/
def Opt.spec (o : Opt) : String :=
  "--" ++ o.long ++ ((o.value.map fun v => " <" ++ v ++ ">").getD "")

def helpOpt : Opt := { id := "help", short := some 'h', long := "help", help := "Print help" }

def versionOpt : Opt := { id := "version", short := some 'V', long := "version", help := "Print version" }

/-- A subcommand: its name, what it does and its options. -/
structure Sub where
  name : String
  about : String
  opts : List Opt
  deriving Inhabited

def verboseOpt : Opt := { id := "verbose", short := some 'v', long := "verbose", help := "Enable verbose output" }

/-- `codegen`: writes bindings. -/
def codegenSub : Sub :=
  ⟨"codegen", "Generate Rust client bindings from a contract ABI",
    [{ id := "file", short := some 'f', long := "file", value := some "FILE", required := true, path := true,
       help := "Contract ABI file (JSON, or YAML by extension)" },
     { id := "output_dir", short := some 'o', long := "output", value := some "DIR", path := true,
       help := "Output directory for generated code" },
     { id := "runtime_crate", long := "runtime-crate", value := some "CRATE",
       help := "Crate the generated code imports its runtime from" },
     { id := "allow_partial", long := "allow-partial",
       help := "Drop endpoints that fail to convert instead of failing the run" },
     { id := "config", long := "config", value := some "FILE", path := true,
       help := "YAML config file (defaults to ./abi-gen.yaml when present)" },
     verboseOpt]⟩

/-- `analyze`: shows the model. -/
def analyzeSub : Sub :=
  ⟨"analyze", "Show resolved types, composites and endpoint decode strategies",
    [{ id := "file", short := some 'f', long := "file", value := some "FILE", required := true, path := true,
       help := "Contract ABI file" },
     { id := "json", long := "json", help := "Print the resolved model as JSON" },
     verboseOpt]⟩

/-- `decode`: decodes return slots. -/
def decodeSub : Sub :=
  ⟨"decode", "Decode raw return slots of a readonly endpoint and print JSON",
    [{ id := "file", short := some 'f', long := "file", value := some "FILE", required := true, path := true,
       help := "Contract ABI file" },
     { id := "endpoint", short := some 'e', long := "endpoint", value := some "ENDPOINT", required := true,
       help := "Endpoint name as declared in the ABI" },
     { id := "slots", long := "slot", value := some "HEX", repeatable := true,
       help := "Hex-encoded return slot, repeated in order" },
     { id := "pretty", long := "pretty", help := "Pretty-print the JSON output" },
     verboseOpt]⟩

def subs : List Sub := [codegenSub, analyzeSub, decodeSub]

def programName : String := "abi"

def programAbout : String :=
  "MultiversX ABI toolchain - binding generation, analysis and return-data decoding"

def programVersion : String := "0.1.0"

def helpAbout : String := "Print this message or the help of the given subcommand(s)"

/-! ## Help -/

def padTo (width : Nat) (s : String) : String := s.pushn ' ' (width - s.length)

/-- The option lines of a help text, descriptions aligned two columns after the longest. -/
def optionLines (opts : List Opt) : String :=
  let longest := opts.foldl (fun m o => max m o.spec.length) 0
  String.join (opts.map fun o =>
    "  " ++ (match o.short with | some c => "-" ++ c.toString ++ ", " | none => "    ") ++
      padTo (longest + 2) o.spec ++ o.help ++ "\n")

/-- The full usage line of a subcommand: `[OPTIONS]` when it has optional ones, then the
required ones. -/
def Sub.usage (s : Sub) : String :=
  programName ++ " " ++ s.name ++
    (if s.opts.any (!·.required) then " [OPTIONS]" else "") ++
    String.join ((s.opts.filter (·.required)).map fun o => " " ++ o.spec)

/-- The usage line of a subcommand listing its required options and the recognised ones. -/
def Sub.usageWith (s : Sub) (used : List String) : String :=
  let ids := (s.opts.filter (·.required)).map (·.id) ++ used
  let ids := ids.foldl (fun acc i => if acc.contains i then acc else acc ++ [i]) []
  programName ++ " " ++ s.name ++
    String.join (ids.filterMap fun i => ((s.opts ++ [helpOpt]).find? (·.id == i)).map fun o => " " ++ o.spec)

def Sub.helpText (s : Sub) : String :=
  s.about ++ "\n\nUsage: " ++ s.usage ++ "\n\nOptions:\n" ++ optionLines (s.opts ++ [helpOpt])

def topUsage : String := programName ++ " <COMMAND>"

def topHelp : String :=
  let commands := subs.map (fun s => (s.name, s.about)) ++ [("help", helpAbout)]
  let longest := commands.foldl (fun m c => max m c.1.length) 0
  programAbout ++ "\n\nUsage: " ++ topUsage ++ "\n\nCommands:\n" ++
    String.join (commands.map fun (n, a) => "  " ++ padTo (longest + 2) n ++ a ++ "\n") ++
    "\nOptions:\n" ++ optionLines [helpOpt, versionOpt]

/-! ## Errors -/

/-- A usage error as printed: the cause, tips, the usage line and where to find help. -/
def errorText (message : String) (tips : List String) (usage : Option String) : String :=
  "error: " ++ message ++ "\n" ++
    (if tips.isEmpty then "" else "\n" ++ String.join (tips.map fun t => "  tip: " ++ t ++ "\n")) ++
    ((usage.map fun u => "\nUsage: " ++ u ++ "\n").getD "") ++
    "\nFor more information, try '--help'.\n"

def similarTip (what : String) (names : List String) : List String :=
  match names with
  | [] => []
  | [n] => ["a similar " ++ what ++ " exists: '" ++ n ++ "'"]
  | ns => ["some similar " ++ what ++ "s exist: " ++ ", ".intercalate (ns.map fun n => "'" ++ n ++ "'")]

/-! ## Reading arguments -/

inductive Invocation where
  | codegen (file : String) (outputDir runtimeCrate config : Option String) (allowPartial verbose : Bool)
  | analyze (file : String) (json verbose : Bool)
  | decode (file endpoint : String) (slots : List String) (pretty verbose : Bool)
  deriving Inhabited

inductive Parsed where
  | run (i : Invocation)
  /-- Text printed on standard output, successfully: help or version. -/
  | info (text : String)
  /-- Text printed on standard error, with failure status 2. -/
  | usageError (text : String)
  deriving Inhabited

/-- Values given so far, by option id, in the order given. -/
abbrev Given := List (String × List String)

/-- A token that reads as a flag or option rather than a value. -/
def looksLikeFlag (t : String) : Bool := t.startsWith "-" && t.length > 1

/-- Records a value of an option; refuses a second value of one that is not repeatable. -/
def give (s : Sub) (given : Given) (o : Opt) (v : String) : Except String Given :=
  match given.lookup o.id with
  | some vs =>
    if o.repeatable then .ok (given.map fun (i, xs) => if i == o.id then (i, vs ++ [v]) else (i, xs))
    else .error (errorText ("the argument '" ++ o.spec ++ "' cannot be used multiple times") [] (some s.usage))
  | none => .ok (given ++ [(o.id, [v])])

def emptyValue (o : Opt) : String :=
  errorText ("a value is required for '" ++ o.spec ++ "' but none was supplied") [] none

/-- The options a subcommand recognises: its own, then help. -/
def Sub.known (s : Sub) : List Opt := s.opts ++ [helpOpt]

/-- An option read without an attached value: it takes the next token that does not read as a
flag, and is recorded when the next option or flag is read, or when the arguments end. -/
structure Pending where
  opt : Opt
  value : Option String := none

/-- Records a pending option. It fails when the option got no value, is given a second time, or
is a path given as empty text; those checks happen in that order. -/
def settle (s : Sub) (given : Given) : Option Pending → Except String Given
  | none => .ok given
  | some ⟨o, none⟩ => .error (emptyValue o)
  | some ⟨o, some v⟩ => do
    let given ← give s given o v
    if o.path && v.isEmpty then .error (emptyValue o) else .ok given

/-- The recorded options when reading stops at an argument it does not know: a pending option
without a value is dropped, and one given a second time drops its first value too. -/
def settleLoosely (s : Sub) (given : Given) : Option Pending → Given
  | none | some ⟨_, none⟩ => given
  | some ⟨o, some v⟩ =>
    match give s given o v with
    | .ok g => g
    | .error _ => given.filter (·.1 != o.id)

structure Reading where
  given : Given := []
  pending : Option Pending := none
  /-- Whether `--` was read: every later token is a stray argument. -/
  escaped : Bool := false

inductive Step where
  | next (r : Reading)
  | help

/-- The error of a stray argument or an unknown short flag, with the full usage line. -/
def strayArgument (s : Sub) (t : String) : String :=
  errorText ("unexpected argument '" ++ t ++ "' found") [] (some s.usage)

/-- The usage line naming every option of the subcommand as one group, after help when help
was recognised: `abi analyze <--file <FILE>|--json|--verbose>`. -/
def Sub.groupUsage (s : Sub) (withHelp : Bool) : String :=
  programName ++ " " ++ s.name ++ (if withHelp then " --help" else "") ++
    " <" ++ "|".intercalate (s.opts.map (·.spec)) ++ ">"

/-- The error of an unknown long option. A similar option is suggested, and the usage line lists
the required options, the recorded ones and the suggestion. -/
def unknownLong (s : Sub) (given : Given) (name : String) : String :=
  let suggestion := (Text.similar name (s.known.map (·.long))).getLast?
  let used := given.map (·.1)
  let used := match suggestion.bind fun l => s.known.find? (·.long == l) with
    | some o => if used.contains o.id then used else used ++ [o.id]
    | none => used
  errorText ("unexpected argument '--" ++ name ++ "' found")
    (similarTip "argument" ((suggestion.map ("--" ++ ·)).toList))
    (some (if used.isEmpty then s.usage else s.usageWith used))

/-- The error of a value attached to a flag. Before any option is recorded, the usage line
lists the required options and the flag; after, it names the subcommand's options as a group. -/
def unneededValue (s : Sub) (given : Given) (o : Opt) (v : String) : String :=
  let optional := given.filter fun g => !((s.opts.find? (·.id == g.1)).map (·.required)).getD false
  let usage := if given.isEmpty then s.usageWith (optional.map (·.1) ++ [o.id])
    else s.groupUsage (o.id == helpOpt.id)
  errorText ("unexpected value '" ++ v ++ "' for '" ++ o.spec ++ "' found; no more were expected")
    [] (some usage)

/-- Reads a flag, help included, once the pending option is recorded. -/
def readFlag (s : Sub) (r : Reading) (o : Opt) : Except String Step := do
  let given ← settle s r.given r.pending
  if o.id == helpOpt.id then return .help
  return .next { r with given := ← give s given o "true", pending := none }

/-- Reads a value-taking option, once the pending option is recorded: an attached value is
recorded at once, otherwise the option waits for its value. -/
def readValueOpt (s : Sub) (r : Reading) (o : Opt) (attached : Option String) :
    Except String Step := do
  let given ← settle s r.given r.pending
  match attached with
  | some v => return .next { r with given := ← settle s given (some ⟨o, some v⟩), pending := none }
  | none => return .next { r with given := given, pending := some ⟨o, none⟩ }

/-- Reads a cluster of short flags; an option in it takes the rest of the cluster as its value,
after an optional `=`. -/
def readShorts (s : Sub) (r : Reading) : List Char → Except String Step
  | [] => .ok (.next r)
  | c :: cs =>
    match s.known.find? (·.short == some c) with
    | none => .error (strayArgument s ("-" ++ c.toString))
    | some o =>
      match o.value with
      | none => do
        match ← readFlag s r o with
        | .help => return .help
        | .next r => readShorts s r cs
      | some _ =>
        let attached := match cs with
          | [] => none
          | '=' :: more => some (String.ofList more)
          | more => some (String.ofList more)
        readValueOpt s r o attached

/-- Reads one long option, `--name` or `--name=value`. -/
def readLong (s : Sub) (r : Reading) (name : String) (attached : Option String) :
    Except String Step :=
  match s.known.find? (·.long == name) with
  | none => .error (unknownLong s (settleLoosely s r.given r.pending) name)
  | some o =>
    match o.value, attached with
    | none, some v => .error (unneededValue s r.given o v)
    | none, none => readFlag s r o
    | some _, _ => readValueOpt s r o attached

/-- Splits the text after `--` at its first `=`: the name and the attached value, if any. -/
def splitLong (body : String) : String × Option String :=
  match body.splitOn "=" with
  | name :: v :: vs => (name, some ("=".intercalate (v :: vs)))
  | _ => (body, none)

def readToken (s : Sub) (r : Reading) (t : String) : Except String Step :=
  if r.escaped then .error (strayArgument s t)
  else if t == "--" then .ok (.next { r with escaped := true })
  else if t.startsWith "--" then
    let (name, attached) := splitLong (t.drop 2).toString
    readLong s r name attached
  else if looksLikeFlag t then readShorts s r (t.toList.drop 1)
  else
    match r.pending with
    | some ⟨o, none⟩ => .ok (.next { r with pending := some ⟨o, some t⟩ })
    | _ => .error (strayArgument s t)

/-- Reads a subcommand's arguments: the recorded options, or `none` when help was asked for. -/
def readSub (s : Sub) : Reading → List String → Except String (Option Given)
  | r, [] => do return some (← settle s r.given r.pending)
  | r, t :: rest => do
    match ← readToken s r t with
    | .help => return none
    | .next r => readSub s r rest

def Given.value (g : Given) (id : String) : Option String := (g.lookup id).bind (·.head?)

def Given.flag (g : Given) (id : String) : Bool := (g.lookup id).isSome

def invocation (s : Sub) (g : Given) : Invocation :=
  let file := (g.value "file").getD ""
  let verbose := g.flag "verbose"
  if s.name == "codegen" then
    .codegen file (g.value "output_dir") (g.value "runtime_crate") (g.value "config") (g.flag "allow_partial") verbose
  else if s.name == "analyze" then .analyze file (g.flag "json") verbose
  else .decode file ((g.value "endpoint").getD "") ((g.lookup "slots").getD []) (g.flag "pretty") verbose

/-- Reads a subcommand's arguments into an invocation, its help or a usage error. -/
def parseSub (s : Sub) (args : List String) : Parsed :=
  match readSub s {} args with
  | .error e => .usageError e
  | .ok none => .info s.helpText
  | .ok (some given) =>
    let missing := s.opts.filter fun o => o.required && (given.lookup o.id).isNone
    if missing.isEmpty then .run (invocation s given)
    else
      let used := (given.map (·.1)) ++ missing.map (·.id)
      .usageError (errorText ("the following required arguments were not provided:" ++
        String.join (missing.map fun o => "\n  " ++ o.spec)) [] (some (s.usageWith used)))

/-! ## The program's own arguments -/

def helpSubUsage : String := programName ++ " help [COMMAND]..."

def helpSubHelp : String :=
  helpAbout ++ "\n\nUsage: " ++ helpSubUsage ++
    "\n\nArguments:\n  [COMMAND]...  Print help for the subcommand(s)\n"

def versionText : String := programName ++ " " ++ programVersion ++ "\n"

/-- The error of a name that is no subcommand, suggesting similar ones. -/
def unrecognizedSub (n : String) : Parsed :=
  .usageError (errorText ("unrecognized subcommand '" ++ n ++ "'")
    (similarTip "subcommand" (Text.similar n (subs.map (·.name) ++ ["help"]))) (some topUsage))

/-- `help NAME...`: the help of the subcommand the names lead to; subcommands have none of their
own, so a second name is refused. -/
def helpFor (names : List String) : Parsed :=
  let refuse (n usage : String) : Parsed :=
    .usageError (errorText ("unrecognized subcommand '" ++ n ++ "'") [] (some usage))
  match names with
  | [] => .info topHelp
  | n :: more =>
    if n == "help" then
      match more with
      | [] => .info helpSubHelp
      | m :: _ => refuse m helpSubUsage
    else
      match subs.find? (·.name == n) with
      | none => refuse n topUsage
      | some s =>
        match more with
        | [] => .info s.helpText
        | m :: _ => refuse m s.usage

/-- An unknown long option before the subcommand, with a similar program option suggested, else
one of the first subcommand named later. -/
def unknownTopLong (name : String) (rest : List String) : Parsed :=
  let message := "unexpected argument '--" ++ name ++ "' found"
  match (Text.similar name [helpOpt.long, versionOpt.long]).getLast? with
  | some l =>
    .usageError (errorText message (similarTip "argument" ["--" ++ l])
      (some (programName ++ " --" ++ l ++ " <COMMAND>")))
  | none =>
    let found := subs.filterMap fun s =>
      match (Text.similar name (s.known.map (·.long))).getLast?, rest.findIdx? (· == s.name) with
      | some l, some k => some (k, s.name ++ " --" ++ l)
      | _, _ => none
    let earliest := found.foldl (fun best x => match best with
      | some b => if x.1 < b.1 then some x else best
      | none => some x) none
    .usageError (errorText message ((earliest.map fun x => "'" ++ x.2 ++ "' exists").toList)
      (some topUsage))

def parse (args : List String) : Parsed :=
  match args with
  | [] => .usageError topHelp
  | t :: rest =>
    if t == "--" then
      match rest with
      | [] => .usageError topHelp
      | n :: _ =>
        if n == "help" || subs.any (·.name == n) then
          .usageError (errorText ("unexpected argument '" ++ n ++ "' found")
            ["subcommand '" ++ n ++ "' exists; to use it, remove the '--' before it"] (some topUsage))
        else unrecognizedSub n
    else if t.startsWith "--" then
      let (name, attached) := splitLong (t.drop 2).toString
      if name == helpOpt.long || name == versionOpt.long then
        match attached with
        | none => .info (if name == helpOpt.long then topHelp else versionText)
        | some v =>
          .usageError (errorText ("unexpected value '" ++ v ++ "' for '--" ++ name ++
            "' found; no more were expected") [] (some (programName ++ " --" ++ name ++ " <COMMAND>")))
      else unknownTopLong name rest
    else if looksLikeFlag t then
      match t.toList.drop 1 with
      | 'h' :: _ => .info topHelp
      | 'V' :: _ => .info versionText
      | c :: _ => .usageError (errorText ("unexpected argument '-" ++ c.toString ++ "' found") [] (some topUsage))
      | [] => .usageError (errorText ("unexpected argument '" ++ t ++ "' found") [] (some topUsage))
    else if t == "help" then helpFor rest
    else
      match subs.find? (·.name == t) with
      | some s => parseSub s rest
      | none => unrecognizedSub t

end ContractAbi.Cli
