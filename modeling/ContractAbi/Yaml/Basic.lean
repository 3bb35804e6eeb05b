/-!
# YAML syntax: marks, tokens, events and syntax errors

A mark is a place in the text: its character index, line and column, all counted from zero,
and its byte offset in UTF-8.
Scanning turns text into tokens, parsing turns tokens into events; a syntax error names its
problem and where it was found, and may name what was being read and where that began.

A syntax error's text gives each place as `line L column C`, counted from one, and leaves out a
place at the very start of the text.
-/

namespace ContractAbi.Yaml

/-- A place in the text, counted from zero. -/
structure Mark where
  index : Nat := 0
  line : Nat := 0
  column : Nat := 0
  /-- The byte offset in UTF-8: how far a simple key may reach is counted in bytes. -/
  offset : Nat := 0
  deriving Inhabited, DecidableEq, Repr

/-- A place as `line L column C`, counted from one. -/
def Mark.text (m : Mark) : String :=
  "line " ++ toString (m.line + 1) ++ " column " ++ toString (m.column + 1)

def Mark.isStart (m : Mark) : Bool := m.line == 0 && m.column == 0

inductive Style where
  | plain
  | singleQuoted
  | doubleQuoted
  | literal
  | folded
  deriving Inhabited, DecidableEq, Repr

/-- A tag's text as bytes: escapes in a tag may spell any octets, so it need not be UTF-8. -/
abbrev Tag := List UInt8

inductive TokenKind where
  | streamStart
  | streamEnd
  /-- `%YAML major.minor`. -/
  | versionDirective (major minor : Nat)
  /-- `%TAG handle prefix`. -/
  | tagDirective (handle : String) (pfx : Tag)
  | documentStart
  | documentEnd
  | blockSequenceStart
  | blockMappingStart
  | blockEnd
  | flowSequenceStart
  | flowSequenceEnd
  | flowMappingStart
  | flowMappingEnd
  | blockEntry
  | flowEntry
  | key
  | value
  | alias (name : String)
  | anchor (name : String)
  /-- A tag: its handle (empty for a verbatim tag and for `!` alone) and its suffix. -/
  | tag (handle : String) (suffix : Tag)
  | scalar (text : String) (style : Style)
  deriving Inhabited, Repr

structure Token where
  kind : TokenKind
  start : Mark
  /-- The place just after the token. -/
  stop : Mark
  deriving Inhabited, Repr

/-- A syntax error: the problem and its place, and what was being read and where it began. -/
structure SyntaxError where
  problem : String
  mark : Mark
  context : Option (String × Mark) := none
  /-- The byte offset of a character refused before scanning began. -/
  offset : Nat := 0
  deriving Inhabited, Repr

/-- The text of a syntax error: a place at the very start is left out, and an error without a
place names its byte offset instead. -/
def SyntaxError.message (e : SyntaxError) : String :=
  e.problem ++
    (if !e.mark.isStart then " at " ++ e.mark.text
     else if e.offset != 0 then " at position " ++ toString e.offset else "") ++
    match e.context with
    | none => ""
    | some (c, m) =>
      ", " ++ c ++ (if !m.isStart && (m.line != e.mark.line || m.column != e.mark.column) then " at " ++ m.text else "")

/-- An event of a document. A node's event carries its resolved tag, if it has one. -/
inductive EventKind where
  /-- An empty document. -/
  | void
  | scalar (text : String) (style : Style) (tag : Option Tag)
  | sequenceStart (tag : Option Tag)
  | sequenceEnd
  | mappingStart (tag : Option Tag)
  | mappingEnd
  /-- A reference to the node anchored under this number. -/
  | alias (id : Nat)
  deriving Inhabited, Repr

structure Event where
  kind : EventKind
  mark : Mark
  deriving Inhabited, Repr

end ContractAbi.Yaml
