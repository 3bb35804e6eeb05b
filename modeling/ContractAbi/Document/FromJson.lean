import ContractAbi.Document
import ContractAbi.Json.Schema

/-!
# Reading an ABI document from JSON

The schema of an ABI document over the JSON reader: which members each record has, which of
them are required, and the defaults of the others. Member keys are camelCase at the document and
endpoint level, and snake case in inputs and outputs (`multi_arg`, `multi_result`).

A named type declaration is tagged by its `type` member (`struct` or `enum`). It is read into a
buffer first and decoded from the buffer once its tag is known, so a fault in its body has no
place of its own and takes the place where the enclosing `types` object ends.
-/

namespace ContractAbi.Document

open Json

def textMember {σ : Type} (key : String) (req : Bool) (get : σ → Option String)
    (set : σ → String → σ) : Member σ :=
  ⟨key, req, fun s => (get s).isSome, fun s => do return set s (← readText)⟩

def boolMember {σ : Type} (key : String) (get : σ → Option Bool) (set : σ → Bool → σ) :
    Member σ :=
  ⟨key, false, fun s => (get s).isSome, fun s => do return set s (← readBool)⟩

/-- A member whose value is a list of texts. -/
def textsMember {σ : Type} (key : String) (get : σ → Option (List String))
    (set : σ → List String → σ) : Member σ :=
  ⟨key, false, fun s => (get s).isSome, fun s => do return set s (← readSeq readText)⟩

/-! ## Inputs, outputs and endpoints -/

structure InputPart where
  name : Option String := none
  typeExpr : Option String := none
  multiArg : Option Bool := none

def readInput : Parser EndpointInput :=
  readRecord "EndpointInput"
    ([textMember "name" false (·.name) (fun s v => { s with name := some v }),
     textMember "type" true (·.typeExpr) (fun s v => { s with typeExpr := some v }),
     boolMember "multi_arg" (·.multiArg) (fun s v => { s with multiArg := some v })] : List (Member InputPart))
    {} fun s => do
      let t ← required "type" s.typeExpr
      return { name := s.name.getD "", typeExpr := t, multiArg := s.multiArg.getD false }

structure OutputPart where
  name : Option String := none
  typeExpr : Option String := none
  multiResult : Option Bool := none

def readOutput : Parser EndpointOutput :=
  readRecord "EndpointOutput"
    ([textMember "name" false (·.name) (fun s v => { s with name := some v }),
     textMember "type" true (·.typeExpr) (fun s v => { s with typeExpr := some v }),
     boolMember "multi_result" (·.multiResult) (fun s v => { s with multiResult := some v })] : List (Member OutputPart))
    {} fun s => do
      let t ← required "type" s.typeExpr
      return { name := s.name.getD "", typeExpr := t, multiResult := s.multiResult.getD false }

structure ConstructorPart where
  docs : Option (List String) := none
  inputs : Option (List EndpointInput) := none
  outputs : Option (List EndpointOutput) := none

def readConstructor : Parser Constructor :=
  readRecord "Constructor"
    ([textsMember "docs" (·.docs) (fun s v => { s with docs := some v }),
     ⟨"inputs", false, fun s => s.inputs.isSome,
       fun s => do return { s with inputs := some (← readSeq readInput) }⟩,
     ⟨"outputs", false, fun s => s.outputs.isSome,
       fun s => do return { s with outputs := some (← readSeq readOutput) }⟩] : List (Member ConstructorPart))
    {} fun s => .ok
      { docs := s.docs.getD [], inputs := s.inputs.getD [], outputs := s.outputs.getD [] }

structure EndpointPart where
  name : Option String := none
  docs : Option (List String) := none
  onlyOwner : Option Bool := none
  mutability : Option String := none
  payableInTokens : Option (List String) := none
  inputs : Option (List EndpointInput) := none
  outputs : Option (List EndpointOutput) := none

def readEndpoint : Parser EndpointDescriptor :=
  readRecord "EndpointDescriptor"
    ([textMember "name" true (·.name) (fun s v => { s with name := some v }),
     textsMember "docs" (·.docs) (fun s v => { s with docs := some v }),
     boolMember "onlyOwner" (·.onlyOwner) (fun s v => { s with onlyOwner := some v }),
     textMember "mutability" false (·.mutability) (fun s v => { s with mutability := some v }),
     textsMember "payableInTokens" (·.payableInTokens)
       (fun s v => { s with payableInTokens := some v }),
     ⟨"inputs", false, fun s => s.inputs.isSome,
       fun s => do return { s with inputs := some (← readSeq readInput) }⟩,
     ⟨"outputs", false, fun s => s.outputs.isSome,
       fun s => do return { s with outputs := some (← readSeq readOutput) }⟩] : List (Member EndpointPart))
    {} fun s => do
      let n ← required "name" s.name
      return { name := n, docs := s.docs.getD [], onlyOwner := s.onlyOwner.getD false,
               mutability := (s.mutability.map Mutability.ofString).getD .mutable,
               payableInTokens := s.payableInTokens.getD [], inputs := s.inputs.getD [],
               outputs := s.outputs.getD [] }

/-! ## Events -/

structure EventInputPart where
  name : Option String := none
  typeExpr : Option String := none
  indexed : Option Bool := none

def readEventInput : Parser EventInput :=
  readRecord "EventInput"
    ([textMember "name" true (·.name) (fun s v => { s with name := some v }),
     textMember "type" true (·.typeExpr) (fun s v => { s with typeExpr := some v }),
     boolMember "indexed" (·.indexed) (fun s v => { s with indexed := some v })] : List (Member EventInputPart))
    {} fun s => do
      let n ← required "name" s.name
      let t ← required "type" s.typeExpr
      return { name := n, typeExpr := t, indexed := s.indexed.getD false }

structure EventPart where
  identifier : Option String := none
  inputs : Option (List EventInput) := none

def readEvent : Parser EventDescriptor :=
  readRecord "EventDescriptor"
    ([textMember "identifier" true (·.identifier) (fun s v => { s with identifier := some v }),
     ⟨"inputs", false, fun s => s.inputs.isSome,
       fun s => do return { s with inputs := some (← readSeq readEventInput) }⟩] : List (Member EventPart))
    {} fun s => do
      let i ← required "identifier" s.identifier
      return { identifier := i, inputs := s.inputs.getD [] }

/-! ## Build information -/

structure NamedVersionPart where
  name : Option String := none
  version : Option String := none

def namedVersionMembers : List (Member NamedVersionPart) :=
  [textMember "name" true (·.name) (fun s v => { s with name := some v }),
   textMember "version" false (·.version) (fun s v => { s with version := some v })]

def readCrate : Parser CrateInfo :=
  readRecord "CrateInfo" namedVersionMembers {} fun s => do
    return { name := ← required "name" s.name, version := s.version.getD "" }

def readFramework : Parser FrameworkInfo :=
  readRecord "FrameworkInfo" namedVersionMembers {} fun s => do
    return { name := ← required "name" s.name, version := s.version.getD "" }

structure BuildInfoPart where
  contractCrate : Option (Option CrateInfo) := none
  framework : Option FrameworkInfo := none

def readBuildInfo : Parser BuildInfo :=
  readRecord "BuildInfo"
    ([⟨"contractCrate", false, fun s => s.contractCrate.isSome,
       fun s => do return { s with contractCrate := some (← readOption readCrate) }⟩,
     ⟨"framework", true, fun s => s.framework.isSome,
       fun s => do return { s with framework := some (← readFramework) }⟩] : List (Member BuildInfoPart))
    {} fun s => do
      let f ← required "framework" s.framework
      return { contractCrate := s.contractCrate.getD none, framework := f }

/-! ## Named types, decoded from buffers -/

structure FieldPart where
  name : Option String := none
  typeExpr : Option String := none

def decodeField : Decode StructField :=
  Content.record "StructFieldDef"
    [⟨"name", true, fun s => s.name.isSome, fun s c => do return { s with name := some (← c.text) }⟩,
     ⟨"type", true, fun s => s.typeExpr.isSome,
       fun s c => do return { s with typeExpr := some (← c.text) }⟩]
    ({} : FieldPart) fun s => do
      return { name := ← required "name" s.name, typeExpr := ← required "type" s.typeExpr }

structure VariantPart where
  name : Option String := none
  discriminant : Option Nat := none

def decodeVariant : Decode EnumVariant :=
  Content.record "EnumVariantDef"
    [⟨"name", true, fun s => s.name.isSome, fun s c => do return { s with name := some (← c.text) }⟩,
     ⟨"discriminant", true, fun s => s.discriminant.isSome,
       fun s c => do return { s with discriminant := some (← c.u64) }⟩]
    ({} : VariantPart) fun s => do
      return { name := ← required "name" s.name,
               discriminant := ← required "discriminant" s.discriminant }

/-- A partly decoded declaration body: docs and its list of fields or variants. -/
structure BodyPart (α : Type) where
  docs : Option (List String) := none
  items : Option (List α) := none

/-- Decodes a declaration body whose list member is `key`. -/
def decodeBody {α : Type} (variant key : String) (item : Decode α) : Decode (List String × List α) :=
  Content.record ("variant TypeDefinition::" ++ variant)
    [⟨"docs", false, fun s => s.docs.isSome,
       fun s c => do return { s with docs := some (← c.list Content.text) }⟩,
     ⟨key, false, fun s => s.items.isSome,
       fun s c => do return { s with items := some (← c.list item) }⟩]
    ({} : BodyPart α) fun s => .ok (s.docs.getD [], s.items.getD [])

def typeTags : List String := ["struct", "enum"]

/-- Decodes a declaration body once its tag is known. -/
def decodeDefinition (isStruct : Bool) (body : Content) : Except JsonError TypeDefinition :=
  if isStruct then do
    let (d, fs) ← decodeBody "Struct" "fields" decodeField body
    return .struct d fs
  else do
    let (d, vs) ← decodeBody "Enum" "variants" decodeVariant body
    return .enum d vs

/-- Reads the tag of a declaration: `true` for a struct. -/
def readTag : Parser Bool := fixPosition do
  match ← whitespace with
  | none => failPeek .eofValue
  | some 34 => do
    eat
    let s ← parseString
    if s = "struct" then return true
    else if s = "enum" then return false
    else throw (unknownVariant s typeTags)
  | some _ => refuse "variant identifier"

/-- Reads the members of a tagged declaration: the tag, and the others into buffers. -/
def readTaggedEntries : Nat → Bool → Option Bool → List (Content × Content) →
    Parser (Option Bool × List (Content × Content))
  | 0, _, tag, acc => return (tag, acc.reverse)
  | fuel + 1, first, tag, acc => do
    match ← nextKey first with
    | none => return (tag, acc.reverse)
    | some k =>
      if k = "type" then
        if tag.isSome then throw (duplicateField "type")
        colon
        let t ← readTag
        readTaggedEntries fuel false (some t) acc
      else
        colon
        let v ← readAny
        readTaggedEntries fuel false tag ((.str k, v) :: acc)

def taggedExpecting : String := "internally tagged enum TypeDefinition"

/-- Reads a tagged declaration: its tag and its buffered body. -/
def readTagged : Parser (Bool × Content) := fixPosition do
  match ← whitespace with
  | none => failPeek .eofValue
  | some 123 => nested do
    eat
    withEnd (do
      let (tag, entries) ← readTaggedEntries ((← get).rest.length + 1) true none []
      match tag with
      | some t => return (t, .map entries)
      | none => throw (missingField "type")) endMap
  | some 91 => nested do
    eat
    withEnd (do
      if ← nextElement true then
        let t ← readTag
        let rest ← readContentItems (2 * (← get).rest.length + 2) false
        return (t, .seq rest)
      else throw (missingField "type")) endSeq
  | some b =>
    if b = 110 ∨ b = 116 ∨ b = 102 ∨ b = 45 ∨ b = 34 ∨ (48 ≤ b.toNat ∧ b.toNat ≤ 57) then do
      let c ← readAny
      throw (invalidType c.unexpected taggedExpecting)
    else failPeek .expectedValue

def readDefinition : Parser TypeDefinition := do
  let (isStruct, body) ← readTagged
  match decodeDefinition isStruct body with
  | .ok d => return d
  | .error e => throw e

/-! ## The document -/

structure DocumentPart where
  buildInfo : Option BuildInfo := none
  docs : Option (List String) := none
  name : Option String := none
  constructor : Option (Option Constructor) := none
  endpoints : Option (List EndpointDescriptor) := none
  events : Option (List EventDescriptor) := none
  hasCallbacks : Option Bool := none
  types : Option (List (String × TypeDefinition)) := none

def readDocument : Parser AbiDocument :=
  readRecord "AbiDocument"
    ([⟨"buildInfo", true, fun s => s.buildInfo.isSome,
       fun s => do return { s with buildInfo := some (← readBuildInfo) }⟩,
     textsMember "docs" (·.docs) (fun s v => { s with docs := some v }),
     textMember "name" true (·.name) (fun s v => { s with name := some v }),
     ⟨"constructor", false, fun s => s.constructor.isSome,
       fun s => do return { s with constructor := some (← readOption readConstructor) }⟩,
     ⟨"endpoints", false, fun s => s.endpoints.isSome,
       fun s => do return { s with endpoints := some (← readSeq readEndpoint) }⟩,
     ⟨"events", false, fun s => s.events.isSome,
       fun s => do return { s with events := some (← readSeq readEvent) }⟩,
     boolMember "hasCallbacks" (·.hasCallbacks) (fun s v => { s with hasCallbacks := some v }),
     ⟨"types", false, fun s => s.types.isSome,
       fun s => do return { s with types := some (← readMap readDefinition) }⟩] : List (Member DocumentPart))
    {} fun s => do
      let b ← required "buildInfo" s.buildInfo
      let n ← required "name" s.name
      return { buildInfo := b, docs := s.docs.getD [], name := n,
               constructor := s.constructor.getD none, endpoints := s.endpoints.getD [],
               events := s.events.getD [], hasCallbacks := s.hasCallbacks.getD false,
               types := s.types.getD [] }

/-- Reads a document from JSON text; nothing but blanks may follow it. -/
def ofJsonText (text : String) : Except JsonError AbiDocument :=
  let run : Parser AbiDocument := do
    let d ← readDocument
    match ← whitespace with
    | some _ => failPeek .trailingCharacters
    | none => return d
  (run.run.run (Cursor.start text.toUTF8.toList)).1

end ContractAbi.Document
