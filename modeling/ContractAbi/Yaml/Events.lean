import ContractAbi.Yaml.Scanner

/-!
# Parsing tokens into events

A document is read as a flat list of events: a scalar, or the start of a sequence or mapping,
its entries, and its end. Block collections are delimited by the `BLOCK-*-START` and
`BLOCK-END` tokens the scanner inserted, flow collections by their brackets. A mapping key or
value that is left out, and a `-` with nothing after it, read as an empty plain scalar placed
just after the indicator (or at the next token when there is no indicator).

A node's tag is resolved through the document's tag handles: `!` and `!!` (the core schema's
`tag:yaml.org,2002:`) unless a `%TAG` directive names them first; a verbatim tag stands as
written. A handle no directive names is an error. A `%YAML` directive must name version 1.1 or
1.2, and neither directive may be given twice.

Anchors are numbered as they come: an anchor takes the number of distinct anchor names seen
before it, so an anchor name given again takes a number that a later new name takes too. An
alias refers to the number its name has where the alias stands; the number refers to the last
node that took it in the whole document. An alias to a name not seen yet is an error.

Only the first document is read. What follows it matters only as far as whether there is more:
a stream holding a second document, or anything else but its end, is refused later.
-/

namespace ContractAbi.Yaml

/-- The first document of a stream, as events. -/
structure Document where
  events : Array Event
  /-- The index of the node each anchor number refers to, latest first. -/
  targets : List (Nat × Nat) := []
  /-- The error that stopped parsing; reading past the last event meets it. -/
  failure : Option SyntaxError
  /-- Whether the stream goes on after the first document. -/
  more : Bool
  deriving Inhabited

/-- Whether a token is of a kind: compares constructors only. -/
def TokenKind.same : TokenKind → TokenKind → Bool
  | .streamStart, .streamStart | .streamEnd, .streamEnd
  | .versionDirective _ _, .versionDirective _ _ | .tagDirective _ _, .tagDirective _ _
  | .documentStart, .documentStart | .documentEnd, .documentEnd
  | .blockSequenceStart, .blockSequenceStart | .blockMappingStart, .blockMappingStart
  | .blockEnd, .blockEnd | .flowSequenceStart, .flowSequenceStart
  | .flowSequenceEnd, .flowSequenceEnd | .flowMappingStart, .flowMappingStart
  | .flowMappingEnd, .flowMappingEnd | .blockEntry, .blockEntry | .flowEntry, .flowEntry
  | .key, .key | .value, .value => true
  | .alias _, .alias _ | .anchor _, .anchor _ | .tag _ _, .tag _ _ | .scalar _ _, .scalar _ _ => true
  | _, _ => false

def Token.isAny (t : Token) (kinds : List TokenKind) : Bool := kinds.any (TokenKind.same t.kind)

def Token.isDirective (t : Token) : Bool := t.isAny [.versionDirective 0 0, .tagDirective "" []]

namespace Parse

/-- The parser's state: the tokens, the place in them, and the events so far. -/
structure State where
  tokens : Array Token
  failure : Option SyntaxError
  pos : Nat := 0
  events : Array Event := #[]
  /-- Anchor names and their numbers, latest first. -/
  anchors : List (String × Nat) := []
  /-- Anchor numbers and the index of the node that took each, latest first. -/
  targets : List (Nat × Nat) := []
  /-- The tag handles of the document and their prefixes. -/
  handles : List (String × Tag) := []

/-- Parsing: it may fail, and keeps its events when it does. -/
abbrev ParseM := ExceptT SyntaxError (StateM State)

/-- The next token; past the last one, the error that stopped scanning. -/
def peek : ParseM Token := do
  let s ← get
  match s.tokens[s.pos]? with
  | some t => return t
  | none => throw (s.failure.getD { problem := "did not find expected token", mark := {} })

def advance : ParseM Unit := modify fun s => { s with pos := s.pos + 1 }

def emit (kind : EventKind) (m : Mark) : ParseM Unit :=
  modify fun s => { s with events := s.events.push ⟨kind, m⟩ }

/-- A failure with what was being parsed and where it began. -/
def failIn {α : Type} (context : String) (contextMark : Mark) (problem : String) (m : Mark) : ParseM α :=
  throw { problem := problem, mark := m, context := some (context, contextMark) }

/-- The number of distinct names in a list of named entries. -/
def distinctNames (entries : List (String × Nat)) : Nat :=
  (entries.map (·.1)).eraseDups.length

/-- Adds the first event of a node, numbering its anchor: the number of distinct anchor names
before it. -/
def emitNode (anchor : Option String) (kind : EventKind) (m : Mark) : ParseM Unit := do
  if let some name := anchor then
    modify fun s =>
      let id := distinctNames s.anchors
      { s with anchors := (name, id) :: s.anchors, targets := (id, s.events.size) :: s.targets }
  emit kind m

def emptyScalar (m : Mark) : ParseM Unit := emit (.scalar "" .plain none) m

def defaultHandles : List (String × Tag) :=
  [("!", "!".toUTF8.toList), ("!!", "tag:yaml.org,2002:".toUTF8.toList)]

/-- Resolves a tag token: a verbatim tag (no handle) stands as it is, otherwise the handle's
prefix goes before the suffix. -/
def resolveTag (handle : String) (suffix : Tag) (start tagMark : Mark) : ParseM Tag := do
  if handle.isEmpty then return suffix
  match (← get).handles.lookup handle with
  | some pfx => return pfx ++ suffix
  | none => failIn "while parsing a node" start "found undefined tag handle" tagMark

/-- A node with nothing in it where one is needed. -/
def noContent {α : Type} (block : Bool) (start m : Mark) : ParseM α :=
  failIn (if block then "while parsing a block node" else "while parsing a flow node") start
    "did not find expected node content" m

mutual

/-- Parses a node with its anchor and tag; `block` lets block collections start, `indentless`
lets a `-` start an indentless sequence. -/
def node (fuel : Nat) (block indentless : Bool) : ParseM Unit :=
  match fuel with
  | 0 => do throw { problem := "exceeded nesting depth", mark := (← peek).start }
  | f + 1 => do
    let first ← peek
    if let .alias name := first.kind then
      advance
      match (← get).anchors.lookup name with
      | some i => emit (.alias i) first.start
      | none => throw { problem := "unknown anchor", mark := first.start }
      return
    let start := first.start
    let mut t := first
    let mut anchor : Option String := none
    let mut tagToken : Option (String × Tag × Mark) := none
    if let .anchor name := t.kind then
      anchor := some name
      advance
      t ← peek
      if let .tag h sfx := t.kind then
        tagToken := some (h, sfx, t.start)
        advance
        t ← peek
    else if let .tag h sfx := t.kind then
      tagToken := some (h, sfx, t.start)
      advance
      t ← peek
      if let .anchor name := t.kind then
        anchor := some name
        advance
        t ← peek
    let tag ← match tagToken with
      | some (h, sfx, m) => some <$> resolveTag h sfx start m
      | none => pure none
    let bare := anchor.isNone && tag.isNone
    match t.kind with
    | .blockEntry =>
      if indentless then
        emitNode anchor (.sequenceStart tag) start
        indentlessSequence f
      else if !bare then emitNode anchor (.scalar "" .plain tag) start
      else noContent block start t.start
    | .scalar text style =>
      advance
      emitNode anchor (.scalar text style tag) start
    | .flowSequenceStart =>
      emitNode anchor (.sequenceStart tag) start
      flowSequence f
    | .flowMappingStart =>
      emitNode anchor (.mappingStart tag) start
      flowMapping f
    | .blockSequenceStart =>
      if block then
        emitNode anchor (.sequenceStart tag) start
        blockSequence f
      else if !bare then emitNode anchor (.scalar "" .plain tag) start
      else noContent false start t.start
    | .blockMappingStart =>
      if block then
        emitNode anchor (.mappingStart tag) start
        blockMapping f
      else if !bare then emitNode anchor (.scalar "" .plain tag) start
      else noContent false start t.start
    | _ =>
      if !bare then emitNode anchor (.scalar "" .plain tag) start
      else noContent block start t.start
termination_by (fuel, 0)

/-- The entries of a block sequence, from its start token to its end. -/
def blockSequence (fuel : Nat) : ParseM Unit := do
  let open_ ← peek
  advance
  let b := (← get).tokens.size + 1
  for _ in [0:b] do
    let t ← peek
    match t.kind with
    | .blockEntry =>
      advance
      let n ← peek
      if n.isAny [.blockEntry, .blockEnd] then emptyScalar t.stop
      else node fuel true false
    | .blockEnd =>
      advance
      emit .sequenceEnd t.start
      return
    | _ => failIn "while parsing a block collection" open_.start "did not find expected '-' indicator" t.start
termination_by (fuel, 1)

/-- The entries of a sequence written as a mapping value without indentation. -/
def indentlessSequence (fuel : Nat) : ParseM Unit := do
  let b := (← get).tokens.size + 1
  for _ in [0:b] do
    let t ← peek
    match t.kind with
    | .blockEntry =>
      advance
      let n ← peek
      if n.isAny [.blockEntry, .key, .value, .blockEnd] then emptyScalar t.stop
      else node fuel true false
    | _ =>
      emit .sequenceEnd t.start
      return
termination_by (fuel, 1)

/-- The entries of a block mapping, from its start token to its end. -/
def blockMapping (fuel : Nat) : ParseM Unit := do
  let open_ ← peek
  advance
  let b := (← get).tokens.size + 1
  for _ in [0:b] do
    let t ← peek
    match t.kind with
    | .key =>
      advance
      let n ← peek
      if n.isAny [.key, .value, .blockEnd] then emptyScalar t.stop
      else node fuel true true
    | .blockEnd =>
      advance
      emit .mappingEnd t.start
      return
    | _ => failIn "while parsing a block mapping" open_.start "did not find expected key" t.start
    let v ← peek
    if let .value := v.kind then
      advance
      let n ← peek
      if n.isAny [.key, .value, .blockEnd] then emptyScalar v.stop
      else node fuel true true
    else emptyScalar v.start
termination_by (fuel, 1)

/-- The entries of a flow sequence, from `[` to `]`. A `key: value` entry is a one-entry
mapping. -/
def flowSequence (fuel : Nat) : ParseM Unit := do
  let open_ ← peek
  advance
  let b := (← get).tokens.size + 1
  let mut first := true
  for _ in [0:b] do
    let mut t ← peek
    if !(t.isAny [.flowSequenceEnd]) then
      if !first then
        if t.isAny [.flowEntry] then
          advance
          t ← peek
        else failIn "while parsing a flow sequence" open_.start "did not find expected ',' or ']'" t.start
      first := false
      if t.isAny [.key] then
        advance
        emit (.mappingStart none) t.start
        let k ← peek
        if k.isAny [.value, .flowEntry, .flowSequenceEnd] then emptyScalar k.start
        else node fuel false false
        let v ← peek
        if v.isAny [.value] then
          advance
          let n ← peek
          if n.isAny [.flowEntry, .flowSequenceEnd] then emptyScalar n.start
          else node fuel false false
        else emptyScalar v.start
        emit .mappingEnd (← peek).start
        continue
      else if !(t.isAny [.flowSequenceEnd]) then
        node fuel false false
        continue
    advance
    emit .sequenceEnd t.start
    return
termination_by (fuel, 1)

/-- The entries of a flow mapping, from `\x7b` to `\x7d`. -/
def flowMapping (fuel : Nat) : ParseM Unit := do
  let open_ ← peek
  advance
  let b := (← get).tokens.size + 1
  let mut first := true
  for _ in [0:b] do
    let mut t ← peek
    if !(t.isAny [.flowMappingEnd]) then
      if !first then
        if t.isAny [.flowEntry] then
          advance
          t ← peek
        else failIn "while parsing a flow mapping" open_.start "did not find expected ',' or '\x7d'" t.start
      first := false
      if t.isAny [.key] then
        advance
        let k ← peek
        if k.isAny [.value, .flowEntry, .flowMappingEnd] then emptyScalar k.start
        else node fuel false false
        let v ← peek
        if v.isAny [.value] then
          advance
          let n ← peek
          if n.isAny [.flowEntry, .flowMappingEnd] then emptyScalar n.start
          else node fuel false false
        else emptyScalar v.start
        continue
      else if !(t.isAny [.flowMappingEnd]) then
        node fuel false false
        emptyScalar (← peek).start
        continue
    advance
    emit .mappingEnd t.start
    return
termination_by (fuel, 1)

end

/-- Reads the directives before a document into its tag handles, then adds the default handles
the directives did not name. -/
def directives : ParseM Unit := do
  let b := (← get).tokens.size + 1
  let mut versionSeen := false
  for _ in [0:b] do
    let t ← peek
    match t.kind with
    | .versionDirective major minor =>
      if versionSeen then throw { problem := "found duplicate %YAML directive", mark := t.start }
      if major != 1 || (minor != 1 && minor != 2) then
        throw { problem := "found incompatible YAML document", mark := t.start }
      versionSeen := true
    | .tagDirective handle pfx =>
      if ((← get).handles.lookup handle).isSome then
        throw { problem := "found duplicate %TAG directive", mark := t.start }
      modify fun s => { s with handles := s.handles ++ [(handle, pfx)] }
    | _ => break
    advance
  for (h, p) in defaultHandles do
    if ((← get).handles.lookup h).isNone then
      modify fun s => { s with handles := s.handles ++ [(h, p)] }

/-- Parses the first document up to its end marker; with directives or `---` it starts with its
directives, and `---` must follow them. -/
def firstDocument : ParseM Unit := do
  let t ← peek
  if t.isAny [.streamStart] then advance
  let t ← peek
  if t.isAny [.streamEnd] then
    emit .void t.start
    return
  let depth := (← get).tokens.size + 1
  if t.isDirective || t.isAny [.documentStart] then
    directives
    let d ← peek
    if !(d.isAny [.documentStart]) then
      throw { problem := "did not find expected <document start>", mark := d.start }
    advance
    let c ← peek
    if c.isDirective || c.isAny [.documentStart, .documentEnd, .streamEnd] then emptyScalar c.start
    else node depth true false
  else
    directives
    node depth true false
  if (← peek).isAny [.documentEnd] then advance

/-- Whether anything but the end of the stream follows the first document. -/
def moreFollows : ParseM Bool := do
  let b := (← get).tokens.size + 1
  for _ in [0:b] do
    if (← peek).isAny [.documentEnd] then advance else break
  return !(← peek).isAny [.streamEnd]

end Parse

/-- Reads the first document of a text as events. A failure while looking past it means that
something follows. -/
def parseDocument (text : String) : Document :=
  let (tokens, failure) := scan text
  let (r, s) := (Parse.firstDocument.run).run { tokens := tokens, failure := failure }
  match r with
  | .error e => ⟨s.events, s.targets, some e, false⟩
  | .ok () =>
    if s.events.any (fun e => match e.kind with | .void => true | _ => false) then
      ⟨s.events, s.targets, none, false⟩
    else
      let (more, _) := (Parse.moreFollows.run).run s
      ⟨s.events, s.targets, none, match more with | .ok m => m | .error _ => true⟩

end ContractAbi.Yaml
