import ContractAbi.Yaml.Events
import ContractAbi.Yaml.Scalar

/-!
# Reading values from YAML events

A value is read from the events of the first document, one node at a time, by the kind of value
expected: a string takes any scalar as its text; a boolean takes a plain `true`/`false`; an
option takes a null scalar as none; a sequence, map or record takes its collection, or an empty
plain scalar as an empty one. A record is read from a mapping only; its keys are matched against
its members, unknown keys skipped (or refused, for a strict record), a key given twice refused,
and once the mapping is read the first required member missing, in declaration order, is
reported. An alias is read as its anchored node.

A fault names the value's place: its path from the root (`endpoints.\[0\].inputs`) and the line
and column where its node starts. The innermost node that knows its place gives it: a fault raised
while reading a node takes that node's place unless a node inside it already gave one. A fault
found after a node was read whole, such as a buffered value that does not decode, takes the place
of the enclosing node.

At most 128 collections nest, and aliases are followed at most a hundred times as often as the
document has events.

Reading past the last event meets the syntax error that ended the document, or the end of the
stream. Once the value is read, a syntax error later in the document, or a second document, is
still refused.
-/

namespace ContractAbi.Yaml

open Json (Unexpected Content)

/-- Where a value sits in a document: the keys and indices leading to it. -/
inductive Path where
  | root
  | seq (parent : Path) (index : Nat)
  | map (parent : Path) (key : String)
  /-- The anchored node an alias at the parent path stands for. -/
  | alias (parent : Path)
  /-- A value under a key that is not a scalar. -/
  | unknown (parent : Path)
  deriving Inhabited

/-- A path as text: `.` for the root, then each step after its parent and a dot: a key, `\[i\]`,
nothing for an alias, `?` for a key that is no scalar. -/
def Path.text : Path → String
  | .root => "."
  | .seq p i => (match p with | .root => "" | _ => p.text ++ ".") ++ "\\[" ++ toString i ++ "\\]"
  | .map p k => (match p with | .root => "" | _ => p.text ++ ".") ++ k
  | .alias p => match p with | .root => "" | _ => p.text ++ "."
  | .unknown p => (match p with | .root => "" | _ => p.text ++ ".") ++ "?"

inductive ReadError where
  /-- A fault of the value, with its place once known. -/
  | message (text : String) (place : Option (Mark × Path))
  | malformed (e : SyntaxError)
  | endOfStream
  | moreThanOneDocument
  /-- Collections nested deeper than the reader goes; the place of the one too deep. -/
  | recursionLimit (m : Mark)
  /-- Aliases followed more often than a hundred times the document's events. -/
  | repetitionLimit
  deriving Inhabited

/-- A place as text after a fault, left out at the very start. -/
def markSuffix (m : Mark) : String := if m.isStart then "" else " at " ++ m.text

/-- The text of a reading failure. A place is its path (left out when its text is `.`) before
the message and its line and column after it (left out at the very start). -/
def ReadError.render : ReadError → String
  | .message t none => t
  | .message t (some (m, p)) => (if p.text == "." then "" else p.text ++ ": ") ++ t ++ markSuffix m
  | .malformed e => e.message
  | .endOfStream => "EOF while parsing a value"
  | .moreThanOneDocument => "deserializing from YAML containing more than one document is not supported"
  | .recursionLimit m => "recursion limit exceeded" ++ markSuffix m
  | .repetitionLimit => "repetition limit exceeded"

/-- Gives a fault a place, unless it has one. -/
def ReadError.place (m : Mark) (p : Path) : ReadError → ReadError
  | .message t none => .message t (some (m, p))
  | e => e

def fault (text : String) : ReadError := .message text none

/-- Where reading stands: the next event, the aliases followed so far, and how many more
collections may open inside the current one. -/
structure Cursor where
  pos : Nat := 0
  jumps : Nat := 0
  depth : Nat := 128

abbrev Read := ReaderT Document (ExceptT ReadError (StateM Cursor))

def peekEvent : Read Event := do
  let d ← read
  match d.events[(← get).pos]? with
  | some e => return e
  | none => throw (match d.failure with | some e => .malformed e | none => .endOfStream)

def nextEvent : Read Event := do
  let e ← peekEvent
  modify fun c => { c with pos := c.pos + 1 }
  return e

/-- Runs `act` at the node an anchor number refers to, then comes back. Every alias followed
counts; past a hundred times the number of events reading stops. -/
def jumpTo {α : Type} (id : Nat) (act : Read α) : Read α := do
  let d ← read
  let c ← get
  if c.jumps + 1 > d.events.size * 100 then throw .repetitionLimit
  set { c with pos := (d.targets.lookup id).getD 0, jumps := c.jumps + 1 }
  let r ← act
  modify fun c' => { c' with pos := c.pos }
  return r

/-- Runs `act` inside a collection starting at `m`: one level deeper, refused past 128 levels. -/
def nested {α : Type} (m : Mark) (act : Read α) : Read α := do
  let c ← get
  if c.depth == 0 then throw (.recursionLimit m)
  set { c with depth := c.depth - 1 }
  let r ← act
  modify fun c' => { c' with depth := c.depth }
  return r

/-- Runs `act`, giving its placeless faults the place of a node. -/
def atPlace {α : Type} (m : Mark) (p : Path) (act : Read α) : Read α :=
  tryCatch act fun e => throw (e.place m p)

/-- Reads one node at a path: `act` gets its first event, consumed, and its path. An alias is
read as its anchored node, at the alias's path, and reading goes on after the alias. -/
def node {α : Type} (p : Path) (act : Event → Path → Read α) : Read α := do
  let e ← nextEvent
  match e.kind with
  | .alias t => jumpTo t do act (← nextEvent) (.alias p)
  | _ => act e p

/-- A node of the wrong kind: a scalar is named by what it stands for, or refused for what its
tag finds in its text. -/
def refusal (e : Event) (expected : String) : ReadError :=
  let named (u : Unexpected) := fault (Json.invalidType u expected).message
  match e.kind with
  | .scalar t s g =>
    match scalarValue t s g with
    | .ok v => named v.unexpected
    | .error msg => fault msg
  | .sequenceStart _ => named .seq
  | .mappingStart _ => named .map
  | _ => .endOfStream

/-- Whether a node reads as an empty collection: nothing, or an empty plain scalar. -/
def Event.isEmptyNode (e : Event) : Bool :=
  match e.kind with
  | .void => true
  | .scalar t .plain _ => t.isEmpty
  | _ => false

/-- Whether an event ends a collection (or the document). -/
def Event.closes (e : Event) : Bool :=
  match e.kind with
  | .sequenceEnd | .mappingEnd | .void => true
  | _ => false

def keyPath (k : Event) (p : Path) : Path :=
  match k.kind with
  | .scalar t _ _ => .map p t
  | _ => .unknown p

/-- A bound on the entries of any collection: the number of events. -/
def entryBound : Read Nat := do return (← read).events.size + 1

/-- Skips one node, following no alias. -/
def skipNode : Read Unit := do
  let b ← entryBound
  let mut depth := 0
  for _ in [0:b] do
    let e ← nextEvent
    match e.kind with
    | .sequenceStart _ | .mappingStart _ => depth := depth + 1
    | .sequenceEnd | .mappingEnd => depth := depth - 1
    | _ => pure ()
    if depth == 0 then break

/-- Any scalar, as its text whatever its tag; `expected` names the value in a fault. -/
def readScalarText (expected : String) (p : Path) : Read String := node p fun e p => atPlace e.mark p do
  match e.kind with
  | .scalar t _ _ => return t
  | _ => throw (refusal e expected)

/-- A string: any scalar, as its text. -/
def readText (p : Path) : Read String := readScalarText "a string" p

/-- A boolean: a plain `true` or `false` in three spellings, whatever its tag. -/
def readBool (p : Path) : Read Bool := node p fun e p => atPlace e.mark p do
  match e.kind with
  | .scalar t .plain _ =>
    match parseBool t with
    | some b => return b
    | none => throw (refusal e "a boolean")
  | _ => throw (refusal e "a boolean")

/-- An option at the next event: none for nothing or a plain scalar that spells null (an empty
one too, untagged); any other node is some. -/
def optionHere {α : Type} (p : Path) (inner : Path → Read α) : Read (Option α) := do
  let e ← peekEvent
  let present ← match e.kind with
    | .scalar t s g =>
      if s != .plain then pure true
      else match g with
        | some tg =>
          if tg == nullTag then
            if isNull t then pure false else throw (fault (invalidScalar t "null"))
          else pure true
        | none => pure !(t.isEmpty || isNull t)
    | .void => pure false
    | _ => pure true
  if present then return some (← inner p)
  else
    let _ ← nextEvent
    return none

/-- An optional value; an alias is followed to its node. -/
def readOption {α : Type} (p : Path) (inner : Path → Read α) : Read (Option α) := do
  match (← peekEvent).kind with
  | .alias t =>
    let _ ← nextEvent
    jumpTo t (optionHere (.alias p) inner)
  | _ => optionHere p inner

/-- A sequence, each element read by `item` at its index. -/
def readSeq {α : Type} (p : Path) (item : Path → Read α) : Read (List α) := node p fun e p => atPlace e.mark p do
  match e.kind with
  | .sequenceStart _ => nested e.mark do
    let b ← entryBound
    let mut acc : Array α := #[]
    for _ in [0:b] do
      if (← peekEvent).closes then break
      acc := acc.push (← item (.seq p acc.size))
    let _ ← nextEvent
    return acc.toList
  | _ => if e.isEmptyNode then return [] else throw (refusal e "a sequence")

/-- Inserts into a map kept in first-insertion order; a key given again replaces its value in
place. -/
def insertEntry {α : Type} (entries : List (String × α)) (k : String) (v : α) : List (String × α) :=
  if entries.any (·.1 == k) then entries.map fun e => if e.1 == k then (k, v) else e
  else entries ++ [(k, v)]

/-- A map from string keys, each value read by `value` under its key. -/
def readMap {α : Type} (p : Path) (value : Path → Read α) : Read (List (String × α)) :=
  node p fun e p => atPlace e.mark p do
  match e.kind with
  | .mappingStart _ => nested e.mark do
    let b ← entryBound
    let mut acc : List (String × α) := []
    for _ in [0:b] do
      let k ← peekEvent
      if k.closes then break
      let key ← readText p
      let v ← value (keyPath k p)
      acc := insertEntry acc key v
    let _ ← nextEvent
    return acc
  | _ => if e.isEmptyNode then return [] else throw (refusal e "a map")

/-! ## Records -/

/-- One member of a record schema, read into a partial record `σ`. -/
structure Member (σ : Type) where
  key : String
  /-- The member was already given. -/
  present : σ → Bool
  /-- Reads the member's value, at its path, into the partial record. -/
  read : Path → σ → Read σ

/-- A record key: any scalar; a strict record refuses one that names no member. -/
def readFieldKey (p : Path) (known : List String) (strict : Bool) : Read String :=
  node p fun e p => atPlace e.mark p do
  match e.kind with
  | .scalar t _ _ =>
    if strict && !known.contains t then
      throw (fault ("unknown field `" ++ t ++ "`, expected " ++ Json.oneOf known))
    return t
  | _ => throw (refusal e "field identifier")

/-- The members of a record's mapping, read into a partial record. -/
def readMembers {σ : Type} (p : Path) (members : List (Member σ)) (strict : Bool) (init : σ) :
    Read σ := do
  let b ← entryBound
  let known := members.map (·.key)
  let mut s := init
  for _ in [0:b] do
    let k ← peekEvent
    if k.closes then break
    let key ← readFieldKey p known strict
    match members.find? (·.key == key) with
    | some m =>
      if m.present s then throw (fault ("duplicate field `" ++ key ++ "`"))
      s ← m.read (keyPath k p) s
    | none => skipNode
  return s

/-- A record named `name` with these members, completed by `finish`; a `strict` record refuses
unknown keys. -/
def readRecord {σ α : Type} (name : String) (members : List (Member σ)) (strict : Bool) (init : σ)
    (finish : σ → Except String α) (p : Path) : Read α := node p fun e p => atPlace e.mark p do
  match e.kind with
  | .mappingStart _ => nested e.mark do
    let s ← readMembers p members strict init
    let v ← match finish s with
      | .ok v => pure v
      | .error t => throw (fault t)
    let _ ← nextEvent
    return v
  | _ =>
    if e.isEmptyNode then
      match finish init with
      | .ok v => return v
      | .error t => throw (fault t)
    else throw (refusal e ("struct " ++ name))

/-- A required member's value, or the fault that it is missing. -/
def required {α : Type} (key : String) : Option α → Except String α
  | some v => .ok v
  | none => .error ("missing field `" ++ key ++ "`")

/-! ## Buffered values -/

/-- The fault of a buffered node whose tag names an enum variant. -/
def variantInput : String := "untagged and internally tagged enums do not support enum input"

/-- Reads any node into a buffer; `expecting` names it in faults. A variant tag, and an integer
beyond 64 bits, are refused. -/
def readContent : Nat → String → Path → Read Content
  | 0, _, _ => do throw (.recursionLimit (← peekEvent).mark)
  | fuel + 1, expecting, p => node p fun e p => atPlace e.mark p do
    match e.kind with
    | .scalar t s g =>
      if isVariantTag g then throw (fault variantInput)
      match scalarValue t s g with
      | .error msg => throw (fault msg)
      | .ok v =>
        match v.content with
        | some c => return c
        | none => throw (refusal e expecting)
    | .sequenceStart g =>
      if isVariantTag g then throw (fault variantInput)
      nested e.mark do
        let b ← entryBound
        let mut acc : Array Content := #[]
        for _ in [0:b] do
          if (← peekEvent).closes then break
          acc := acc.push (← readContent fuel "any value" (.seq p acc.size))
        let _ ← nextEvent
        return .seq acc.toList
    | .mappingStart g =>
      if isVariantTag g then throw (fault variantInput)
      nested e.mark do
        let b ← entryBound
        let mut acc : Array (Content × Content) := #[]
        for _ in [0:b] do
          let k ← peekEvent
          if k.closes then break
          let key ← readContent fuel "any value" p
          let v ← readContent fuel "any value" (keyPath k p)
          acc := acc.push (key, v)
        let _ ← nextEvent
        return .map acc.toList
    | _ => throw (refusal e expecting)

/-- Reads any node into a buffer; `expecting` names it in a fault. Collections are bounded by
the nesting depth left, so the fuel never runs out first. -/
def readAnyAs (expecting : String) (p : Path) : Read Content := do
  readContent ((← get).depth + 1) expecting p

def readAny (p : Path) : Read Content := readAnyAs "any value" p

/-! ## Documents -/

/-- Reads the first document of a text with `root`. -/
def readYaml {α : Type} (text : String) (root : Path → Read α) : Except ReadError α :=
  let d := parseDocument text
  match (((root .root).run d).run.run {}).1 with
  | .error e => .error e
  | .ok v =>
    match d.failure with
    | some f => .error (.malformed f)
    | none => if d.more then .error .moreThanOneDocument else .ok v

end ContractAbi.Yaml
