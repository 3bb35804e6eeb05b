import ContractAbi.Document.FromJson
import ContractAbi.Yaml.Read

/-!
# Reading an ABI document from YAML

The same schema as the JSON form, over the YAML reader: the same member keys, required members
and defaults. A record is read from a mapping only, and a scalar stands for a string wherever a
string is expected, so `version: 0.45` reads as the text `0.45`.

A named type declaration is tagged by its `type` member and buffered until its tag is known, as
in JSON: its tag is read in place (so a wrong tag names the tag's own line), its body is decoded
from the buffer (so a fault in the body takes the place of the `types` mapping).
-/

namespace ContractAbi.Yaml

def textMember {σ : Type} (key : String) (get : σ → Option String) (set : σ → String → σ) :
    Member σ :=
  ⟨key, fun s => (get s).isSome, fun p s => do return set s (← readText p)⟩

def boolMember {σ : Type} (key : String) (get : σ → Option Bool) (set : σ → Bool → σ) :
    Member σ :=
  ⟨key, fun s => (get s).isSome, fun p s => do return set s (← readBool p)⟩

/-- A member whose value is a list of texts. -/
def textsMember {σ : Type} (key : String) (get : σ → Option (List String))
    (set : σ → List String → σ) : Member σ :=
  ⟨key, fun s => (get s).isSome, fun p s => do return set s (← readSeq p readText)⟩

/-- A member whose value is a list read element by element. -/
def listMember {σ α : Type} (key : String) (item : Path → Read α) (get : σ → Option (List α))
    (set : σ → List α → σ) : Member σ :=
  ⟨key, fun s => (get s).isSome, fun p s => do return set s (← readSeq p item)⟩

def readInput : Path → Read EndpointInput :=
  readRecord "EndpointInput"
    [textMember "name" (·.name) (fun s v => { s with name := some v }),
     textMember "type" (·.typeExpr) (fun s v => { s with typeExpr := some v }),
     boolMember "multi_arg" (·.multiArg) (fun s v => { s with multiArg := some v })]
    false ({} : Document.InputPart) fun s => do
      let t ← required "type" s.typeExpr
      return { name := s.name.getD "", typeExpr := t, multiArg := s.multiArg.getD false }

def readOutput : Path → Read EndpointOutput :=
  readRecord "EndpointOutput"
    [textMember "name" (·.name) (fun s v => { s with name := some v }),
     textMember "type" (·.typeExpr) (fun s v => { s with typeExpr := some v }),
     boolMember "multi_result" (·.multiResult) (fun s v => { s with multiResult := some v })]
    false ({} : Document.OutputPart) fun s => do
      let t ← required "type" s.typeExpr
      return { name := s.name.getD "", typeExpr := t, multiResult := s.multiResult.getD false }

def readConstructor : Path → Read Constructor :=
  readRecord "Constructor"
    [textsMember "docs" (·.docs) (fun s v => { s with docs := some v }),
     listMember "inputs" readInput (·.inputs) (fun s v => { s with inputs := some v }),
     listMember "outputs" readOutput (·.outputs) (fun s v => { s with outputs := some v })]
    false ({} : Document.ConstructorPart) fun s => .ok
      { docs := s.docs.getD [], inputs := s.inputs.getD [], outputs := s.outputs.getD [] }

def readEndpoint : Path → Read EndpointDescriptor :=
  readRecord "EndpointDescriptor"
    [textMember "name" (·.name) (fun s v => { s with name := some v }),
     textsMember "docs" (·.docs) (fun s v => { s with docs := some v }),
     boolMember "onlyOwner" (·.onlyOwner) (fun s v => { s with onlyOwner := some v }),
     textMember "mutability" (·.mutability) (fun s v => { s with mutability := some v }),
     textsMember "payableInTokens" (·.payableInTokens)
       (fun s v => { s with payableInTokens := some v }),
     listMember "inputs" readInput (·.inputs) (fun s v => { s with inputs := some v }),
     listMember "outputs" readOutput (·.outputs) (fun s v => { s with outputs := some v })]
    false ({} : Document.EndpointPart) fun s => do
      let n ← required "name" s.name
      return { name := n, docs := s.docs.getD [], onlyOwner := s.onlyOwner.getD false,
               mutability := (s.mutability.map Mutability.ofString).getD .mutable,
               payableInTokens := s.payableInTokens.getD [], inputs := s.inputs.getD [],
               outputs := s.outputs.getD [] }

def readEventInput : Path → Read EventInput :=
  readRecord "EventInput"
    [textMember "name" (·.name) (fun s v => { s with name := some v }),
     textMember "type" (·.typeExpr) (fun s v => { s with typeExpr := some v }),
     boolMember "indexed" (·.indexed) (fun s v => { s with indexed := some v })]
    false ({} : Document.EventInputPart) fun s => do
      let n ← required "name" s.name
      let t ← required "type" s.typeExpr
      return { name := n, typeExpr := t, indexed := s.indexed.getD false }

def readEvent : Path → Read EventDescriptor :=
  readRecord "EventDescriptor"
    [textMember "identifier" (·.identifier) (fun s v => { s with identifier := some v }),
     listMember "inputs" readEventInput (·.inputs) (fun s v => { s with inputs := some v })]
    false ({} : Document.EventPart) fun s => do
      let i ← required "identifier" s.identifier
      return { identifier := i, inputs := s.inputs.getD [] }

def namedVersionMembers : List (Member Document.NamedVersionPart) :=
  [textMember "name" (·.name) (fun s v => { s with name := some v }),
   textMember "version" (·.version) (fun s v => { s with version := some v })]

def readCrate : Path → Read CrateInfo :=
  readRecord "CrateInfo" namedVersionMembers false {} fun s => do
    return { name := ← required "name" s.name, version := s.version.getD "" }

def readFramework : Path → Read FrameworkInfo :=
  readRecord "FrameworkInfo" namedVersionMembers false {} fun s => do
    return { name := ← required "name" s.name, version := s.version.getD "" }

def readBuildInfo : Path → Read BuildInfo :=
  readRecord "BuildInfo"
    [⟨"contractCrate", fun s => s.contractCrate.isSome,
       fun p s => do return { s with contractCrate := some (← readOption p readCrate) }⟩,
     ⟨"framework", fun s => s.framework.isSome,
       fun p s => do return { s with framework := some (← readFramework p) }⟩]
    false ({} : Document.BuildInfoPart) fun s => do
      let f ← required "framework" s.framework
      return { contractCrate := s.contractCrate.getD none, framework := f }

/-- Reads the tag of a declaration: `true` for a struct. -/
def readTag (p : Path) : Read Bool := node p fun e p => atPlace e.mark p do
  match e.kind with
  | .scalar t _ _ =>
    if t == "struct" then return true
    else if t == "enum" then return false
    else throw (fault (Json.unknownVariant t Document.typeTags).message)
  | _ => throw (refusal e "variant identifier")

def isTagKey : Json.Content → Bool
  | .str "type" => true
  | _ => false

/-- What a key of a tagged declaration may be, in a fault. -/
def tagKeyExpecting : String := "a type tag `type` or any other value"

/-- The fault of a declaration node whose own tag names an enum variant. -/
def variantRefusal : ReadError :=
  fault (Json.invalidType (.other "enum") Document.taggedExpecting).message

/-- Reads a tagged declaration: its tag, and its other members (or its elements after the tag)
into a buffer. A node tagged as a variant is refused, and so is any other scalar. -/
def readTagged (p : Path) : Read (Bool × Json.Content) := node p fun e p => atPlace e.mark p do
  match e.kind with
  | .mappingStart g =>
    if isVariantTag g then throw variantRefusal
    nested e.mark do
      let b ← entryBound
      let mut tag : Option Bool := none
      let mut acc : Array (Json.Content × Json.Content) := #[]
      for _ in [0:b] do
        let k ← peekEvent
        if k.closes then break
        let key ← readAnyAs tagKeyExpecting p
        if isTagKey key then
          if tag.isSome then throw (fault "duplicate field `type`")
          tag := some (← readTag (keyPath k p))
        else
          acc := acc.push (key, ← readAny (keyPath k p))
      match tag with
      | some t =>
        let _ ← nextEvent
        return (t, .map acc.toList)
      | none => throw (fault "missing field `type`")
  | .sequenceStart g =>
    if isVariantTag g then throw variantRefusal
    nested e.mark do
      if (← peekEvent).closes then throw (fault "missing field `type`")
      let t ← readTag (.seq p 0)
      let b ← entryBound
      let mut acc : Array Json.Content := #[]
      for _ in [0:b] do
        if (← peekEvent).closes then break
        acc := acc.push (← readAny (.seq p (acc.size + 1)))
      let _ ← nextEvent
      return (t, .seq acc.toList)
  | .scalar _ _ g =>
    if isVariantTag g then throw variantRefusal
    throw (refusal e Document.taggedExpecting)
  | _ => throw (refusal e Document.taggedExpecting)

def readDefinition (p : Path) : Read TypeDefinition := do
  let (isStruct, body) ← readTagged p
  match Document.decodeDefinition isStruct body with
  | .ok d => return d
  | .error e => throw (fault e.message)

def readAbiDocument : Path → Read AbiDocument :=
  readRecord "AbiDocument"
    [⟨"buildInfo", fun s => s.buildInfo.isSome,
       fun p s => do return { s with buildInfo := some (← readBuildInfo p) }⟩,
     textsMember "docs" (·.docs) (fun s v => { s with docs := some v }),
     textMember "name" (·.name) (fun s v => { s with name := some v }),
     ⟨"constructor", fun s => s.constructor.isSome,
       fun p s => do return { s with constructor := some (← readOption p readConstructor) }⟩,
     listMember "endpoints" readEndpoint (·.endpoints) (fun s v => { s with endpoints := some v }),
     listMember "events" readEvent (·.events) (fun s v => { s with events := some v }),
     boolMember "hasCallbacks" (·.hasCallbacks) (fun s v => { s with hasCallbacks := some v }),
     ⟨"types", fun s => s.types.isSome,
       fun p s => do return { s with types := some (← readMap p readDefinition) }⟩]
    false ({} : Document.DocumentPart) fun s => do
      let b ← required "buildInfo" s.buildInfo
      let n ← required "name" s.name
      return { buildInfo := b, docs := s.docs.getD [], name := n,
               constructor := s.constructor.getD none, endpoints := s.endpoints.getD [],
               events := s.events.getD [], hasCallbacks := s.hasCallbacks.getD false,
               types := s.types.getD [] }

end ContractAbi.Yaml

namespace ContractAbi.Document

/-- Reads a document from YAML text: the first document of the stream, and no other. -/
def ofYamlText (text : String) : Except String AbiDocument :=
  match Yaml.readYaml text Yaml.readAbiDocument with
  | .ok d => .ok d
  | .error e => .error e.render

end ContractAbi.Document
