import ContractAbi.Text.Utf8
import ContractAbi.Text.Shortest

/-!
# Reading JSON text as a stream

Documents are read from their JSON text front to back, the way a schema-directed reader reads
them: the first fault met is the one reported, whether it is a fault of syntax or a value of the
wrong kind, and nothing after it is looked at.

A fault of syntax names the place where it was found, as a line (from 1) and a column (bytes
from the start of the line). Some faults are found on the byte just read and point at it
(`failPeek`); others point after what was consumed (`failHere`). A fault of meaning (a missing
member, a value of the wrong kind) has no place of its own: it takes the place where the reader
stands when the fault leaves the value being read (`fixPosition`).

Arrays and objects may nest at most 127 deep. Values of members the schema does not know are
skipped with full syntax checking and no depth limit.
-/

namespace ContractAbi.Json

open Text

/-- Where reading stands: the bytes left, the line and column reached, and how many more levels
of nesting are allowed. -/
structure Cursor where
  rest : List UInt8
  line : Nat
  column : Nat
  depth : Nat
  deriving Inhabited

def Cursor.start (bytes : List UInt8) : Cursor := ⟨bytes, 1, 0, 128⟩

def Cursor.advance (c : Cursor) : Cursor :=
  match c.rest with
  | [] => c
  | b :: r =>
    if b = 10 then { c with rest := r, line := c.line + 1, column := 0 }
    else { c with rest := r, column := c.column + 1 }

def Cursor.position (c : Cursor) : Nat × Nat := (c.line, c.column)

/-- The place just after the next byte, or the place reached at the end. -/
def Cursor.peekPosition (c : Cursor) : Nat × Nat := c.advance.position

/-- Steps over blanks: space, tab, line feed, carriage return. -/
def skipBlanks : List UInt8 → Nat → Nat → List UInt8 × Nat × Nat
  | [], l, c => ([], l, c)
  | b :: r, l, c =>
    if b = 32 ∨ b = 9 ∨ b = 13 then skipBlanks r l (c + 1)
    else if b = 10 then skipBlanks r (l + 1) 0
    else (b :: r, l, c)

structure JsonError where
  message : String
  position : Option (Nat × Nat) := none
  deriving Inhabited

/-- The text of a fault: the message, and its place when it has one. -/
def JsonError.render (e : JsonError) : String :=
  match e.position with
  | some (l, c) => e.message ++ " at line " ++ toString l ++ " column " ++ toString c
  | none => e.message

inductive SyntaxFault where
  | eofList | eofObject | eofString | eofValue
  | expectedColon | expectedListCommaOrEnd | expectedObjectCommaOrEnd
  | expectedIdent | expectedValue
  | invalidEscape | invalidNumber | numberOutOfRange
  | controlCharacter | keyMustBeString | loneSurrogate
  | trailingComma | trailingCharacters | unexpectedEndOfHexEscape | recursionLimit
  deriving DecidableEq, Repr

def SyntaxFault.message : SyntaxFault → String
  | .eofList => "EOF while parsing a list"
  | .eofObject => "EOF while parsing an object"
  | .eofString => "EOF while parsing a string"
  | .eofValue => "EOF while parsing a value"
  | .expectedColon => "expected `:`"
  | .expectedListCommaOrEnd => "expected `,` or `]`"
  | .expectedObjectCommaOrEnd => "expected `,` or `\x7d`"
  | .expectedIdent => "expected ident"
  | .expectedValue => "expected value"
  | .invalidEscape => "invalid escape"
  | .invalidNumber => "invalid number"
  | .numberOutOfRange => "number out of range"
  | .controlCharacter => "control character (\\u0000-\\u001F) found while parsing a string"
  | .keyMustBeString => "key must be a string"
  | .loneSurrogate => "lone leading surrogate in hex escape"
  | .trailingComma => "trailing comma"
  | .trailingCharacters => "trailing characters"
  | .unexpectedEndOfHexEscape => "unexpected end of hex escape"
  | .recursionLimit => "recursion limit exceeded"

inductive Unexpected where
  | bool (b : Bool)
  | unsigned (n : Nat)
  | signed (i : Int)
  | float (f : Float)
  | str (s : String)
  | unit
  | seq
  | map
  /-- A value named only by its description. -/
  | other (text : String)

/-- A text quoted with escapes, the way diagnostics quote a string. -/
def quoteDebug (s : String) : String :=
  let esc (c : Char) : String :=
    if c = '"' then "\\\""
    else if c = '\\' then "\\\\"
    else if c = '\n' then "\\n"
    else if c = '\r' then "\\r"
    else if c = '\t' then "\\t"
    else if c.toNat = 0 then "\\0"
    else if c.toNat < 32 ∨ (127 ≤ c.toNat ∧ c.toNat < 160) then
      "\\u\x7b" ++ String.ofList (Nat.toDigits 16 c.toNat) ++ "\x7d"
    else String.singleton c
  "\"" ++ String.join (s.toList.map esc) ++ "\""

/-- How a found value is named in a fault. -/
def Unexpected.text : Unexpected → String
  | .bool b => "boolean `" ++ (if b then "true" else "false") ++ "`"
  | .unsigned n => "integer `" ++ toString n ++ "`"
  | .signed i => "integer `" ++ toString i ++ "`"
  | .float f => "floating point `" ++ floatText f ++ "`"
  | .str s => "string " ++ quoteDebug s
  | .unit => "null"
  | .seq => "sequence"
  | .map => "map"
  | .other t => t

def invalidType (u : Unexpected) (expected : String) : JsonError :=
  { message := "invalid type: " ++ u.text ++ ", expected " ++ expected }

/-- A value of the right kind but out of range. -/
def invalidValue (u : Unexpected) (expected : String) : JsonError :=
  { message := "invalid value: " ++ u.text ++ ", expected " ++ expected }

def missingField (f : String) : JsonError :=
  { message := "missing field `" ++ f ++ "`" }

def duplicateField (f : String) : JsonError :=
  { message := "duplicate field `" ++ f ++ "`" }

def invalidLength (n : Nat) (expected : String) : JsonError :=
  { message := "invalid length " ++ toString n ++ ", expected " ++ expected }

/-- The way a list of names is offered in a fault: one, two joined by `or`, or `one of`. -/
def oneOf (names : List String) : String :=
  match names with
  | [] => "nothing"
  | [a] => "`" ++ a ++ "`"
  | [a, b] => "`" ++ a ++ "` or `" ++ b ++ "`"
  | _ => "one of " ++ ", ".intercalate (names.map fun n => "`" ++ n ++ "`")

/-- A variant name that is not among the known ones. -/
def unknownVariant (v : String) (known : List String) : JsonError :=
  { message := "unknown variant `" ++ v ++ "`, expected " ++ oneOf known }

/-- Reading: a result or a fault, and the cursor after it either way. -/
abbrev Parser := ExceptT JsonError (StateM Cursor)

def peekByte : Parser (Option UInt8) := do
  return (← get).rest.head?

def eat : Parser Unit := modify Cursor.advance

def nextByte : Parser (Option UInt8) := do
  let b ← peekByte
  eat
  return b

def failHere {α : Type} (f : SyntaxFault) : Parser α := do
  throw { message := f.message, position := some (← get).position }

def failPeek {α : Type} (f : SyntaxFault) : Parser α := do
  throw { message := f.message, position := some (← get).peekPosition }

/-- Gives a fault without a place the place reached. -/
def fixPosition {α : Type} (x : Parser α) : Parser α :=
  tryCatch x fun e => do
    match e.position with
    | some _ => throw e
    | none => throw { e with position := some (← get).position }

def whitespace : Parser (Option UInt8) := do
  modify fun c =>
    let (r, l, col) := skipBlanks c.rest c.line c.column
    { c with rest := r, line := l, column := col }
  peekByte

/-- Runs a reader of a nested array or object one level deeper, refusing past the limit. -/
def nested {α : Type} (x : Parser α) : Parser α := do
  let c ← get
  if c.depth ≤ 1 then failPeek .recursionLimit
  set { c with depth := c.depth - 1 }
  let r ← tryCatch x fun e => do
    modify fun c' => { c' with depth := c'.depth + 1 }
    throw e
  modify fun c' => { c' with depth := c'.depth + 1 }
  return r

/-- Consumes the rest of a keyword whose first byte was read. -/
def parseIdent : List UInt8 → Parser Unit
  | [] => return
  | b :: rest => do
    match ← nextByte with
    | none => failHere .eofValue
    | some x => if x = b then parseIdent rest else failHere .expectedIdent

/-! ## Strings -/

/-- A byte that cannot stand for itself inside a string. -/
def isStringSpecial (b : UInt8) : Bool := b < 32 || b = 34 || b = 92

def hexValue? (b : UInt8) : Option Nat :=
  let n := b.toNat
  if 48 ≤ n ∧ n ≤ 57 then some (n - 48)
  else if 97 ≤ n ∧ n ≤ 102 then some (n - 87)
  else if 65 ≤ n ∧ n ≤ 70 then some (n - 55)
  else none

/-- Reads the four digits of a `\u` escape. -/
def hexEscape : Parser Nat := do
  let c ← get
  match c.rest with
  | a :: b :: d :: e :: _ =>
    eat; eat; eat; eat
    match hexValue? a, hexValue? b, hexValue? d, hexValue? e with
    | some w, some x, some y, some z => return ((w * 16 + x) * 16 + y) * 16 + z
    | _, _, _, _ => failHere .invalidEscape
  | _ =>
    for _ in c.rest do eat
    failHere .eofString

def codePointBytes (n : Nat) : List UInt8 :=
  String.utf8EncodeChar (Char.ofNat n)

/-- Reads a `\u` escape whose `u` was consumed, joining a surrogate pair. -/
def unicodeEscape : Parser (List UInt8) := do
  let n ← hexEscape
  if 0xDC00 ≤ n ∧ n ≤ 0xDFFF then failHere .loneSurrogate
  if n < 0xD800 ∨ n > 0xDBFF then return codePointBytes n
  match ← peekByte with
  | none => failHere .eofString
  | some 92 => eat
  | some _ => do eat; failHere .unexpectedEndOfHexEscape
  match ← peekByte with
  | none => failHere .eofString
  | some 117 => eat
  | some _ => do eat; failHere .unexpectedEndOfHexEscape
  let n2 ← hexEscape
  if n2 < 0xDC00 ∨ n2 > 0xDFFF then failHere .loneSurrogate
  return codePointBytes (((n - 0xD800) * 1024 + (n2 - 0xDC00)) + 0x10000)

def escape : Parser (List UInt8) := do
  match ← nextByte with
  | none => failHere .eofString
  | some 34 => return [34]
  | some 92 => return [92]
  | some 47 => return [47]
  | some 98 => return [8]
  | some 102 => return [12]
  | some 110 => return [10]
  | some 114 => return [13]
  | some 116 => return [9]
  | some 117 => unicodeEscape
  | some _ => failHere .invalidEscape

/-- Reads string bytes up to the closing quote; `acc` holds what was read, reversed. -/
def stringBytes : Nat → List UInt8 → Parser (List UInt8)
  | 0, acc => return acc.reverse
  | fuel + 1, acc => do
    match ← peekByte with
    | none => failHere .eofString
    | some 34 => do eat; return acc.reverse
    | some 92 => do
      eat
      let bs ← escape
      stringBytes fuel (bs.reverse ++ acc)
    | some b =>
      eat
      if b < 32 then failHere .controlCharacter
      stringBytes fuel (b :: acc)

def parseString : Parser String := do
  let fuel := (← get).rest.length + 1
  let bs ← stringBytes fuel []
  return (decodeUtf8 bs).getD ""

def skipEscape : Parser Unit := do
  match ← nextByte with
  | none => failHere .eofString
  | some b =>
    if b = 34 ∨ b = 92 ∨ b = 47 ∨ b = 98 ∨ b = 102 ∨ b = 110 ∨ b = 114 ∨ b = 116 then return
    else if b = 117 then do let _ ← hexEscape; return
    else failHere .invalidEscape

def skipStringAux : Nat → Parser Unit
  | 0 => return
  | fuel + 1 => do
    match ← peekByte with
    | none => failHere .eofString
    | some 34 => eat
    | some 92 => do eat; skipEscape; skipStringAux fuel
    | some b => if b < 32 then failHere .controlCharacter else do eat; skipStringAux fuel

def skipString : Parser Unit := do
  skipStringAux ((← get).rest.length + 1)

/-! ## Numbers -/

/-- A number as read: unsigned, negative, or a double. -/
inductive Number where
  | unsigned (n : Nat)
  | negative (i : Int)
  | double (f : Float)

def Number.unexpected : Number → Unexpected
  | .unsigned n => .unsigned n
  | .negative i => .signed i
  | .double f => .float f

def u64Max : Nat := Nat.pow 2 64 - 1

/-- `10^k` as a double. -/
def pow10 (k : Nat) : Float := Float.ofScientific 1 false k

/-- The double `significand · 10^exponent`: the significand rounded first, then scaled by one
power of ten; values too large for a double are refused. -/
def fromParts (positive : Bool) (significand : Nat) (exponent : Int) : Parser Float := do
  let rec scale : Nat → Float → Int → Parser Float
    | 0, f, _ => return f
    | fuel + 1, f, e =>
      if e.natAbs ≤ 308 then
        if e ≥ 0 then do
          let g := f * pow10 e.toNat
          if g.isInf then failHere .numberOutOfRange
          return g
        else return f / pow10 e.natAbs
      else if f == 0.0 then return f
      else if e ≥ 0 then failHere .numberOutOfRange
      else scale fuel (f / pow10 308) (e + 308)
  let f ← scale 8 (Float.ofNat significand) exponent
  return if positive then f else -f

/-- Reads digits while they come, with a callback per digit; returns the count read. -/
def digitRun : Nat → Parser (List Nat)
  | 0 => return []
  | fuel + 1 => do
    match ← peekByte with
    | some b =>
      if 48 ≤ b.toNat ∧ b.toNat ≤ 57 then do eat; return (b.toNat - 48) :: (← digitRun fuel)
      else return []
    | none => return []

/-- Reads exponent digits; past the 32-bit range a nonzero significand with a positive exponent
is out of range, and otherwise the value is zero. -/
def exponentDigits (positive positiveExp : Bool) (significand : Nat) :
    Nat → Nat → Parser (Option Nat)
  | 0, e => return some e
  | fuel + 1, e => do
    match ← peekByte with
    | some c =>
      if 48 ≤ c.toNat ∧ c.toNat ≤ 57 then do
        eat
        let e' := e * 10 + (c.toNat - 48)
        if e' > 2147483647 then
          if significand ≠ 0 ∧ positiveExp then failHere .numberOutOfRange
          let _ ← digitRun ((← get).rest.length + 1)
          return none
        else exponentDigits positive positiveExp significand fuel e'
      else return some e
    | none => return some e

/-- The exponent part; the `e` is next. -/
def parseExponent (positive : Bool) (significand : Nat) (start : Int) : Parser Float := do
  eat
  let positiveExp ← do
    match ← peekByte with
    | some 43 => do eat; pure true
    | some 45 => do eat; pure false
    | _ => pure true
  match ← nextByte with
  | none => failHere .eofValue
  | some b =>
    if ¬(48 ≤ b.toNat ∧ b.toNat ≤ 57) then failHere .invalidNumber
    match ← exponentDigits positive positiveExp significand ((← get).rest.length + 1)
        (b.toNat - 48) with
    | none => return if positive then 0.0 else -0.0
    | some exp =>
      let final : Int := if positiveExp then start + exp else start - exp
      fromParts positive significand final

/-- Appends fraction digits to a significand while it stays within 64 bits; digits past that
are dropped. Answers the significand and how many digits were kept. -/
def keepDigits (s : Nat) : List Nat → Nat × Nat
  | [] => (s, 0)
  | d :: ds =>
    if s * 10 + d > u64Max then (s, 0)
    else
      let (s', k) := keepDigits (s * 10 + d) ds
      (s', k + 1)

/-- The fraction part; the `.` is next. -/
def parseDecimal (positive : Bool) (significand : Nat) (before : Int) : Parser Float := do
  eat
  let ds ← digitRun ((← get).rest.length + 1)
  if ds.isEmpty then
    match ← peekByte with
    | some _ => failPeek .invalidNumber
    | none => failPeek .eofValue
  let (sig, kept) := keepDigits significand ds
  let exponent : Int := before - kept
  match ← peekByte with
  | some 101 | some 69 => parseExponent positive sig exponent
  | _ => fromParts positive sig exponent

/-- The integer part past the 64-bit significand: its digits only raise the exponent. -/
def parseLongInteger (positive : Bool) (significand : Nat) : Parser Float := do
  let ds ← digitRun ((← get).rest.length + 1)
  let exponent : Int := ds.length
  match ← peekByte with
  | some 46 => parseDecimal positive significand exponent
  | some 101 | some 69 => parseExponent positive significand exponent
  | _ => fromParts positive significand exponent

def parseNumberTail (positive : Bool) (significand : Nat) : Parser Number := do
  match ← peekByte with
  | some 46 => return .double (← parseDecimal positive significand 0)
  | some 101 | some 69 => return .double (← parseExponent positive significand 0)
  | _ =>
    if positive then return .unsigned significand
    else if significand = 0 then return .double (-0.0)
    else if significand > Nat.pow 2 63 then return .double (-(Float.ofNat significand))
    else return .negative (-(significand : Int))

/-- Reads a number whose sign, if any, was consumed. -/
def parseInteger (positive : Bool) : Parser Number := do
  match ← nextByte with
  | none => failHere .eofValue
  | some 48 =>
    match ← peekByte with
    | some b => if 48 ≤ b.toNat ∧ b.toNat ≤ 57 then failPeek .invalidNumber else parseNumberTail positive 0
    | none => parseNumberTail positive 0
  | some b =>
    if ¬(49 ≤ b.toNat ∧ b.toNat ≤ 57) then failHere .invalidNumber
    let rec go : Nat → Nat → Parser Number
      | 0, s => parseNumberTail positive s
      | fuel + 1, s => do
        match ← peekByte with
        | some c =>
          if 48 ≤ c.toNat ∧ c.toNat ≤ 57 then
            if s * 10 + (c.toNat - 48) > u64Max then
              return .double (← parseLongInteger positive s)
            else do eat; go fuel (s * 10 + (c.toNat - 48))
          else parseNumberTail positive s
        | none => parseNumberTail positive s
    go ((← get).rest.length + 1) (b.toNat - 48)

/-! ## Skipping values -/

/-- Skips the rest of a number whose first byte is next. -/
def skipNumber : Parser Unit := do
  match ← nextByte with
  | some 48 =>
    match ← peekByte with
    | some b => if 48 ≤ b.toNat ∧ b.toNat ≤ 57 then failPeek .invalidNumber
    | none => pure ()
  | some b =>
    if 49 ≤ b.toNat ∧ b.toNat ≤ 57 then do let _ ← digitRun ((← get).rest.length + 1)
    else failHere .invalidNumber
  | none => failHere .invalidNumber
  let skipExp : Parser Unit := do
    eat
    match ← peekByte with
    | some 43 | some 45 => eat
    | _ => pure ()
    match ← nextByte with
    | some b => if 48 ≤ b.toNat ∧ b.toNat ≤ 57 then pure () else failHere .invalidNumber
    | none => failHere .invalidNumber
    let _ ← digitRun ((← get).rest.length + 1)
  match ← peekByte with
  | some 46 =>
    eat
    let ds ← digitRun ((← get).rest.length + 1)
    if ds.isEmpty then failPeek .invalidNumber
    match ← peekByte with
    | some 101 | some 69 => skipExp
    | _ => pure ()
  | some 101 | some 69 => skipExp
  | _ => pure ()

/-- Skips one value with full syntax checking; `stack` holds the open brackets, innermost
first. Each step consumes at least one byte. -/
def skipValueAux : Nat → List UInt8 → Parser Unit
  | 0, _ => return
  | fuel + 1, stack => do
    -- one value
    let some b ← whitespace | failPeek .eofValue
    let opened : Option UInt8 ←
      if b = 110 then do eat; parseIdent [117, 108, 108]; pure none
      else if b = 116 then do eat; parseIdent [114, 117, 101]; pure none
      else if b = 102 then do eat; parseIdent [97, 108, 115, 101]; pure none
      else if b = 45 then do eat; skipNumber; pure none
      else if 48 ≤ b.toNat ∧ b.toNat ≤ 57 then do skipNumber; pure none
      else if b = 34 then do eat; skipString; pure none
      else if b = 91 ∨ b = 123 then do eat; pure (some b)
      else failPeek .expectedValue
    -- close what the value ended
    let rec close : Nat → Bool → UInt8 → List UInt8 → Parser (Option (UInt8 × List UInt8))
      | 0, _, _, _ => return none
      | n + 1, acceptComma, frame, rest => do
        match ← whitespace with
        | some 44 =>
          if acceptComma then do eat; return some (frame, rest)
          else return some (frame, rest)
        | some 93 =>
          if frame = 91 then do
            eat
            match rest with
            | [] => return none
            | f :: r => close n true f r
          else if acceptComma then failPeek .expectedObjectCommaOrEnd
          else return some (frame, rest)
        | some 125 =>
          if frame = 123 then do
            eat
            match rest with
            | [] => return none
            | f :: r => close n true f r
          else if acceptComma then failPeek .expectedListCommaOrEnd
          else return some (frame, rest)
        | some _ =>
          if acceptComma then
            failPeek (if frame = 91 then .expectedListCommaOrEnd else .expectedObjectCommaOrEnd)
          else return some (frame, rest)
        | none => failPeek (if frame = 91 then .eofList else .eofObject)
    let budget := (← get).rest.length + 2
    let next ←
      match opened with
      | some f => close budget false f stack
      | none =>
        match stack with
        | [] => return
        | f :: r => close budget true f r
    match next with
    | none => return
    | some (frame, rest) =>
      if frame = 123 then
        match ← whitespace with
        | some 34 => eat
        | some _ => failPeek .keyMustBeString
        | none => failPeek .eofObject
        skipString
        match ← whitespace with
        | some 58 => eat
        | some _ => failPeek .expectedColon
        | none => failPeek .eofObject
      skipValueAux fuel (frame :: rest)

/-- Skips one value of a member the schema does not know. -/
def skipValue : Parser Unit := do
  skipValueAux ((← get).rest.length + 2) []

end ContractAbi.Json
