import ContractAbi.Yaml.Basic

/-!
# Scanning YAML text into tokens

The scanner reads characters left to right and produces tokens. Indentation opens and closes
block collections: a line indented more than the current level opens one (a mapping when its
first key is seen, a sequence at its first `-`), a line indented less closes them. Inside `[...]`
and `{...}` indentation does not count.

A mapping key in block style is found late: any scalar may turn out to be a key once a `:`
follows it on the same line. The scanner therefore remembers, for each flow level, where a
*possible simple key* began and at which token index its `KEY` token (and, for a new block
mapping, its `BLOCK-MAPPING-START`) would go; when a `:` arrives, the tokens are inserted there.
A possible key that must be a key (it starts a line at the current indentation) and is never
followed by `:` is a syntax error.

Scalars come plain, single- or double-quoted, or as literal (`|`) and folded (`>`) blocks. Line
breaks inside plain and quoted scalars fold into one space, or into the breaks beyond the first;
escape sequences are read in double-quoted ones.

Scanning stops at the first syntax error; the tokens before it are kept, so that a parser reading
them meets the error only where the text holds it. Each scanning step consumes at least one
character, so the text's length bounds every loop.
-/

namespace ContractAbi.Yaml

structure SimpleKey where
  possible : Bool := false
  required : Bool := false
  /-- The token index where its `KEY` token goes. -/
  tokenNumber : Nat := 0
  mark : Mark := {}
  deriving Inhabited

structure Scanner where
  input : Array Char
  mark : Mark := {}
  tokens : Array Token := #[]
  flowLevel : Nat := 0
  indent : Int := -1
  indents : List Int := []
  simpleKeyAllowed : Bool := false
  /-- One possible simple key per flow level, innermost first. -/
  simpleKeys : List SimpleKey := []
  done : Bool := false
  deriving Inhabited

/-- Scanning: it may fail, and keeps its tokens when it does. -/
abbrev ScanM := ExceptT SyntaxError (StateM Scanner)

def isBreak (c : Char) : Bool :=
  c == '\r' || c == '\n' || c == '\x85' || c == '\u2028' || c == '\u2029'

/-- The end of the text: the null character stands for it. -/
def isEnd (c : Char) : Bool := c == '\x00'

def isBreakOrEnd (c : Char) : Bool := isBreak c || isEnd c

def isBlank (c : Char) : Bool := c == ' ' || c == '\t'

def isBlankOrEnd (c : Char) : Bool := isBlank c || isBreakOrEnd c

def isNameChar (c : Char) : Bool := c.isAlphanum || c == '_' || c == '-'

def hexValue (c : Char) : Option Nat :=
  if '0' ≤ c && c ≤ '9' then some (c.toNat - 48)
  else if 'a' ≤ c && c ≤ 'f' then some (c.toNat - 87)
  else if 'A' ≤ c && c ≤ 'F' then some (c.toNat - 55)
  else none

namespace Scan

/-- The character `k` places ahead, or the null character past the end. -/
def peek (k : Nat) : ScanM Char := do
  let s ← get
  return s.input.getD (s.mark.index + k) '\x00'

def here : ScanM Mark := do return (← get).mark

/-- The number of characters in the text: a bound for every loop. -/
def bound : ScanM Nat := do return (← get).input.size + 1

def skip : ScanM Unit := do
  let c ← peek 0
  modify fun s =>
    let m := s.mark
    { s with mark := { index := m.index + 1, line := m.line, column := m.column + 1,
                       offset := m.offset + c.utf8Size } }

/-- Moves past one character without moving the mark's column or offset: the digits of a
version number are read this way, so a fault after them is placed where they began. -/
def skipUnmarked : ScanM Unit :=
  modify fun s => { s with mark := { s.mark with index := s.mark.index + 1 } }

/-- Moves past a line break: a carriage return and line feed count as one break. -/
def skipLine : ScanM Unit := do
  let c0 ← peek 0
  let c1 ← peek 1
  let crlf := c0 == '\r' && c1 == '\n'
  modify fun s =>
    let m := s.mark
    { s with mark := { index := m.index + (if crlf then 2 else 1), line := m.line + 1, column := 0,
                       offset := m.offset + (if crlf then 2 else c0.utf8Size) } }

/-- Reads a line break: the three common breaks read as a line feed, the others as themselves. -/
def readLine : ScanM String := do
  let c ← peek 0
  skipLine
  return if c == '\u2028' || c == '\u2029' then c.toString else "\n"

def fail {α : Type} (context : Option (String × Mark)) (problem : String) : ScanM α := do
  throw { problem := problem, mark := (← here), context := context }

def push (kind : TokenKind) (start : Mark) : ScanM Unit :=
  modify fun s => { s with tokens := s.tokens.push ⟨kind, start, s.mark⟩ }

def insertAt (n : Nat) (kind : TokenKind) (start : Mark) : ScanM Unit :=
  modify fun s =>
    let ts := s.tokens.toList
    let t : Token := ⟨kind, start, start⟩
    { s with tokens := (ts.take n ++ [t] ++ ts.drop n).toArray }

def currentKey : ScanM SimpleKey := do return (← get).simpleKeys.headD {}

def setKey (k : SimpleKey) : ScanM Unit :=
  modify fun s => { s with simpleKeys := k :: s.simpleKeys.drop 1 }

/-- Forgets the innermost possible simple key; one that had to be a key is an error. -/
def removeSimpleKey : ScanM Unit := do
  let k ← currentKey
  if k.possible && k.required then
    fail (some ("while scanning a simple key", k.mark)) "could not find expected ':'"
  setKey { k with possible := false }

def saveSimpleKey : ScanM Unit := do
  let s ← get
  let required := s.flowLevel == 0 && s.indent == (s.mark.column : Int)
  if s.simpleKeyAllowed then
    let k : SimpleKey := ⟨true, required, s.tokens.size, s.mark⟩
    removeSimpleKey
    setKey k

/-- Forgets possible simple keys on an earlier line or more than 1024 bytes behind. -/
def staleSimpleKeys : ScanM Unit := do
  let s ← get
  let mut keys : List SimpleKey := []
  for k in s.simpleKeys do
    if k.possible && (k.mark.line < s.mark.line || k.mark.offset + 1024 < s.mark.offset) then
      if k.required then
        fail (some ("while scanning a simple key", k.mark)) "could not find expected ':'"
      keys := keys ++ [{ k with possible := false }]
    else keys := keys ++ [k]
  modify fun s => { s with simpleKeys := keys }

def increaseFlowLevel : ScanM Unit :=
  modify fun s => { s with simpleKeys := {} :: s.simpleKeys, flowLevel := s.flowLevel + 1 }

def decreaseFlowLevel : ScanM Unit :=
  modify fun s =>
    if s.flowLevel > 0 then { s with flowLevel := s.flowLevel - 1, simpleKeys := s.simpleKeys.drop 1 }
    else s

/-- Opens a block collection when `column` is deeper than the current indentation; its start
token goes at `number`, or at the end. -/
def rollIndent (column : Int) (number : Option Nat) (kind : TokenKind) (m : Mark) : ScanM Unit := do
  let s ← get
  if s.flowLevel == 0 && s.indent < column then
    set { s with indents := s.indent :: s.indents, indent := column }
    match number with
    | none => push kind m
    | some n => insertAt n kind m

/-- Closes the block collections deeper than `column`. -/
def unrollIndent (column : Int) : ScanM Unit := do
  let n := (← get).indents.length
  for _ in [0:n] do
    let s ← get
    if s.flowLevel == 0 && s.indent > column then
      push .blockEnd s.mark
      modify fun s => { s with indent := s.indents.headD (-1), indents := s.indents.drop 1 }

/-- Skips blanks, comments and line breaks up to the next token. -/
def toNextToken : ScanM Unit := do
  let b ← bound
  for _ in [0:b] do
    if (← here).column == 0 && (← peek 0) == '\uFEFF' then skip
    for _ in [0:b] do
      let c ← peek 0
      let s ← get
      if c == ' ' || ((s.flowLevel > 0 || !s.simpleKeyAllowed) && c == '\t') then skip else break
    if (← peek 0) == '#' then
      for _ in [0:b] do
        if isBreakOrEnd (← peek 0) then break
        skip
    if isBreak (← peek 0) then
      skipLine
      if (← get).flowLevel == 0 then modify fun s => { s with simpleKeyAllowed := true }
    else break

/-! ## Scalars -/

/-- Folds the line breaks between two parts of a flow scalar: a single break becomes a space,
more breaks stay as the breaks after the first. -/
def fold (leadingBreak trailingBreaks : String) : String :=
  if leadingBreak.front == '\n' then
    if trailingBreaks.isEmpty then " " else trailingBreaks
  else leadingBreak ++ trailingBreaks

def plainScalar : ScanM Unit := do
  let b ← bound
  let indent : Int := (← get).indent + 1
  let start ← here
  let mut endMark := start
  let mut text := ""
  let mut leadingBlanks := false
  let mut whitespaces := ""
  let mut leadingBreak := ""
  let mut trailingBreaks := ""
  for _ in [0:b] do
    let c0 ← peek 0
    let c1 ← peek 1
    let c2 ← peek 2
    let c3 ← peek 3
    if (← here).column == 0 &&
        ((c0 == '-' && c1 == '-' && c2 == '-') || (c0 == '.' && c1 == '.' && c2 == '.')) && isBlankOrEnd c3 then
      break
    if c0 == '#' then break
    for _ in [0:b] do
      let c ← peek 0
      if isBlankOrEnd c then break
      let n ← peek 1
      let flow := (← get).flowLevel > 0
      if flow && c == ':' && (n == ',' || n == '?' || n == '[' || n == ']' || n == '{' || n == '}') then
        fail (some ("while scanning a plain scalar", start)) "found unexpected ':'"
      if (c == ':' && isBlankOrEnd n) ||
          (flow && (c == ',' || c == '[' || c == ']' || c == '{' || c == '}')) then
        break
      if leadingBlanks || !whitespaces.isEmpty then
        if leadingBlanks then
          text := text ++ fold leadingBreak trailingBreaks
          leadingBreak := ""
          trailingBreaks := ""
          leadingBlanks := false
        else
          text := text ++ whitespaces
          whitespaces := ""
      text := text.push c
      skip
      endMark ← here
    let c ← peek 0
    if !(isBlank c || isBreak c) then break
    for _ in [0:b] do
      let c ← peek 0
      if isBlank c then
        if leadingBlanks && ((← here).column : Int) < indent && c == '\t' then
          fail (some ("while scanning a plain scalar", start)) "found a tab character that violates indentation"
        if !leadingBlanks then whitespaces := whitespaces.push c
        skip
      else if isBreak c then
        if !leadingBlanks then
          whitespaces := ""
          leadingBreak ← readLine
          leadingBlanks := true
        else
          trailingBreaks := trailingBreaks ++ (← readLine)
      else break
    if (← get).flowLevel == 0 && ((← here).column : Int) < indent then break
  push (.scalar text .plain) start
  if leadingBlanks then modify fun s => { s with simpleKeyAllowed := true }

def simpleEscape (c : Char) : Option Char :=
  match c with
  | '0' => some '\x00'
  | 'a' => some '\x07'
  | 'b' => some '\x08'
  | 't' | '\t' => some '\t'
  | 'n' => some '\n'
  | 'v' => some '\x0b'
  | 'f' => some '\x0c'
  | 'r' => some '\r'
  | 'e' => some '\x1b'
  | ' ' => some ' '
  | '"' => some '"'
  | '/' => some '/'
  | '\'' => some '\''
  | '\\' => some '\\'
  | 'N' => some '\x85'
  | '_' => some '\xa0'
  | 'L' => some '\u2028'
  | 'P' => some '\u2029'
  | _ => none

def quotedScalar (single : Bool) : ScanM Unit := do
  let b ← bound
  let start ← here
  let context := some ("while scanning a quoted scalar", start)
  let quote := if single then '\'' else '"'
  skip
  let mut text := ""
  let mut leadingBlanks := false
  let mut whitespaces := ""
  let mut leadingBreak := ""
  let mut trailingBreaks := ""
  for _ in [0:b] do
    let c0 ← peek 0
    let c1 ← peek 1
    let c2 ← peek 2
    let c3 ← peek 3
    if (← here).column == 0 &&
        ((c0 == '-' && c1 == '-' && c2 == '-') || (c0 == '.' && c1 == '.' && c2 == '.')) && isBlankOrEnd c3 then
      fail context "found unexpected document indicator"
    if isEnd c0 then fail context "found unexpected end of stream"
    leadingBlanks := false
    for _ in [0:b] do
      let c ← peek 0
      if isBlankOrEnd c then break
      let n ← peek 1
      if single && c == '\'' && n == '\'' then
        text := text.push '\''
        skip
        skip
      else if c == quote then break
      else if !single && c == '\\' && isBreak n then
        skip
        skipLine
        leadingBlanks := true
        break
      else if !single && c == '\\' then
        let width := if n == 'x' then 2 else if n == 'u' then 4 else if n == 'U' then 8 else 0
        if width == 0 then
          match simpleEscape n with
          | some e =>
            text := text.push e
            skip
            skip
          | none => fail (some ("while parsing a quoted scalar", start)) "found unknown escape character"
        else
          skip
          skip
          let mut value := 0
          for k in [0:width] do
            match hexValue (← peek k) with
            | some d => value := value * 16 + d
            | none => fail (some ("while parsing a quoted scalar", start)) "did not find expected hexadecimal number"
          if (0xD800 ≤ value && value ≤ 0xDFFF) || value > 0x10FFFF then
            fail (some ("while parsing a quoted scalar", start)) "found invalid Unicode character escape code"
          text := text.push (Char.ofNat value)
          for _ in [0:width] do skip
      else
        text := text.push c
        skip
    if (← peek 0) == quote then break
    for _ in [0:b] do
      let c ← peek 0
      if isBlank c then
        if !leadingBlanks then whitespaces := whitespaces.push c
        skip
      else if isBreak c then
        if !leadingBlanks then
          whitespaces := ""
          leadingBreak ← readLine
          leadingBlanks := true
        else
          trailingBreaks := trailingBreaks ++ (← readLine)
      else break
    if leadingBlanks then
      text := text ++ fold leadingBreak trailingBreaks
      leadingBreak := ""
      trailingBreaks := ""
    else
      text := text ++ whitespaces
      whitespaces := ""
  skip
  push (.scalar text (if single then .singleQuoted else .doubleQuoted)) start

/-- Skips indentation and empty lines inside a block scalar, collecting the breaks; fixes the
indentation from the first non-empty line when it is not given. -/
def blockBreaks (indent : Nat) (start : Mark) : ScanM (Nat × String) := do
  let b ← bound
  let mut breaks := ""
  let mut maxIndent := 0
  for _ in [0:b] do
    for _ in [0:b] do
      if (indent == 0 || (← here).column < indent) && (← peek 0) == ' ' then skip else break
    if (← here).column > maxIndent then maxIndent := (← here).column
    if (indent == 0 || (← here).column < indent) && (← peek 0) == '\t' then
      fail (some ("while scanning a block scalar", start)) "found a tab character where an indentation space is expected"
    if !isBreak (← peek 0) then break
    breaks := breaks ++ (← readLine)
  let parent := (← get).indent + 1
  let found : Int := max (max (maxIndent : Int) parent) 1
  return (if indent != 0 then indent else found.toNat, breaks)

/-- Reads a literal (`|`) or folded (`>`) block scalar. -/
def blockScalar (literal : Bool) : ScanM Unit := do
  let b ← bound
  let start ← here
  let context := some ("while scanning a block scalar", start)
  skip
  let mut chomping : Int := 0
  let mut increment := 0
  let c ← peek 0
  if c == '+' || c == '-' then
    chomping := if c == '+' then 1 else -1
    skip
    let d ← peek 0
    if d.isDigit then
      if d == '0' then fail context "found an indentation indicator equal to 0"
      increment := d.toNat - 48
      skip
  else if c.isDigit then
    if c == '0' then fail context "found an indentation indicator equal to 0"
    increment := c.toNat - 48
    skip
    let d ← peek 0
    if d == '+' || d == '-' then
      chomping := if d == '+' then 1 else -1
      skip
  for _ in [0:b] do
    if isBlank (← peek 0) then skip else break
  if (← peek 0) == '#' then
    for _ in [0:b] do
      if isBreakOrEnd (← peek 0) then break
      skip
  if !isBreakOrEnd (← peek 0) then fail context "did not find expected comment or line break"
  if isBreak (← peek 0) then skipLine
  let parent := (← get).indent
  let given : Nat := if increment == 0 then 0 else if parent ≥ 0 then (parent + increment).toNat else increment
  let (indent, breaks) ← blockBreaks given start
  let mut trailingBreaks := breaks
  let mut text := ""
  let mut leadingBreak := ""
  let mut leadingBlank := false
  for _ in [0:b] do
    if !((← here).column == indent && !isEnd (← peek 0)) then break
    let trailingBlank := isBlank (← peek 0)
    if !literal && leadingBreak.front == '\n' && !leadingBlank && !trailingBlank then
      if trailingBreaks.isEmpty then text := text.push ' '
      leadingBreak := ""
    else
      text := text ++ leadingBreak
      leadingBreak := ""
    text := text ++ trailingBreaks
    trailingBreaks := ""
    leadingBlank := isBlank (← peek 0)
    for _ in [0:b] do
      let c ← peek 0
      if isBreakOrEnd c then break
      text := text.push c
      skip
    if isBreak (← peek 0) then leadingBreak ← readLine
    let (_, more) ← blockBreaks indent start
    trailingBreaks := more
  if chomping != -1 then text := text ++ leadingBreak
  if chomping == 1 then text := text ++ trailingBreaks
  push (.scalar text (if literal then .literal else .folded)) start

/-- Reads an anchor (`&name`) or an alias (`*name`). -/
def anchorOrAlias (isAlias : Bool) : ScanM Unit := do
  let b ← bound
  let start ← here
  skip
  let mut name := ""
  for _ in [0:b] do
    let c ← peek 0
    if isNameChar c then
      name := name.push c
      skip
    else break
  let c ← peek 0
  if name.isEmpty || !(isBlankOrEnd c || c == '?' || c == ':' || c == ',' || c == ']' || c == '}' ||
      c == '%' || c == '@' || c == '`') then
    fail (some (if isAlias then "while scanning an alias" else "while scanning an anchor", start))
      "did not find expected alphabetic or numeric character"
  push (if isAlias then .alias name else .anchor name) start

/-- A character of a tag URI: a letter, digit or one of `-_;/?:@&=+$.%!~*'()`; in a verbatim
tag or a directive's prefix also `,`, `[` and `]`. -/
def isUriChar (verbatim : Bool) (c : Char) : Bool :=
  isNameChar c || ";/?:@&=+$.%!~*'()".contains c || (verbatim && (c == ',' || c == '[' || c == ']'))

/-- The length of a UTF-8 sequence its leading octet announces, or zero for an octet that cannot
lead one. -/
def utf8Width (o : Nat) : Nat :=
  if o &&& 0x80 == 0 then 1 else if o &&& 0xE0 == 0xC0 then 2
  else if o &&& 0xF0 == 0xE0 then 3 else if o &&& 0xF8 == 0xF0 then 4 else 0

/-- Reads the `%XX` escapes of one UTF-8 sequence in a tag URI, as its octets. -/
def uriEscapes (context : Option (String × Mark)) : ScanM (List UInt8) := do
  let mut width := 0
  let mut octets : Array UInt8 := #[]
  for _ in [0:4] do
    let c1 ← peek 1
    let c2 ← peek 2
    match (← peek 0) == '%', hexValue c1, hexValue c2 with
    | true, some h, some l =>
      let o := h * 16 + l
      if width == 0 then
        width := utf8Width o
        if width == 0 then fail context "found an incorrect leading UTF-8 octet"
      else if o &&& 0xC0 != 0x80 then fail context "found an incorrect trailing UTF-8 octet"
      octets := octets.push o.toUInt8
      skip
      skip
      skip
      if octets.size == width then break
    | _, _, _ => fail context "did not find URI escaped octet"
  return octets.toList

/-- Reads a tag URI after `head` (a handle that turned out to start the URI: its `!` is not
kept). `verbatim` allows the flow indicators; `directive` names a `%TAG` directive in faults. -/
def tagUri (verbatim directive : Bool) (head : String) (start : Mark) : ScanM Tag := do
  let b ← bound
  let context := some (if directive then "while parsing a %TAG directive" else "while parsing a tag", start)
  let mut bytes : Array UInt8 := (String.ofList (head.toList.drop 1)).toUTF8.toList.toArray
  let mut length := head.length
  for _ in [0:b] do
    let c ← peek 0
    if !isUriChar verbatim c then break
    if c == '%' then
      bytes := bytes ++ (← uriEscapes context).toArray
    else
      bytes := bytes ++ c.toString.toUTF8.toList.toArray
      skip
    length := length + 1
  if length == 0 then fail context "did not find expected tag URI"
  return bytes.toList

/-- Reads a tag handle: `!`, then letters, digits, `_` and `-`, then `!` if there is one. In a
`%TAG` directive the handle must be `!` or end in `!`. -/
def tagHandle (directive : Bool) (start : Mark) : ScanM String := do
  let b ← bound
  if (← peek 0) != '!' then
    fail (some (if directive then "while scanning a tag directive" else "while scanning a tag", start))
      "did not find expected '!'"
  skip
  let mut handle := "!"
  for _ in [0:b] do
    let c ← peek 0
    if isNameChar c then
      handle := handle.push c
      skip
    else break
  if (← peek 0) == '!' then
    handle := handle.push '!'
    skip
  else if directive && handle != "!" then
    fail (some ("while parsing a tag directive", start)) "did not find expected '!'"
  return handle

/-- Reads a tag `!<uri>`, `!handle!suffix` or `!suffix`, ending at a blank, a line break, or a
`,` in a flow collection. -/
def tag : ScanM Unit := do
  let start ← here
  let (handle, suffix) ← if (← peek 1) == '<' then do
      skip
      skip
      let suffix ← tagUri true false "" start
      if (← peek 0) != '>' then fail (some ("while scanning a tag", start)) "did not find the expected '>'"
      skip
      pure ("", suffix)
    else do
      let handle ← tagHandle false start
      if handle.length > 1 && handle.back == '!' then
        pure (handle, ← tagUri false false "" start)
      else
        let suffix ← tagUri false false handle start
        pure (if suffix.isEmpty then ("", [33]) else ("!", suffix))
  let c ← peek 0
  if !isBlankOrEnd c && !((← get).flowLevel > 0 && c == ',') then
    fail (some ("while scanning a tag", start)) "did not find expected whitespace or line break"
  push (.tag handle suffix) start

def skipBlanks : ScanM Unit := do
  let b ← bound
  for _ in [0:b] do
    if isBlank (← peek 0) then skip else break

/-- Reads a version number of at most nine digits. -/
def versionNumber (context : Option (String × Mark)) : ScanM Nat := do
  let b ← bound
  let mut value := 0
  let mut length := 0
  for _ in [0:b] do
    let c ← peek 0
    if !c.isDigit then break
    length := length + 1
    if length > 9 then fail context "found extremely long version number"
    value := value * 10 + (c.toNat - 48)
    skipUnmarked
  if length == 0 then fail context "did not find expected version number"
  return value

/-- Reads a `%YAML` or `%TAG` directive line; any other name is refused, and a directive closes
every block collection. -/
def directive : ScanM Unit := do
  unrollIndent (-1)
  removeSimpleKey
  modify fun s => { s with simpleKeyAllowed := false }
  let b ← bound
  let start ← here
  let inDirective := some ("while scanning a directive", start)
  skip
  let mut name := ""
  for _ in [0:b] do
    let c ← peek 0
    if isNameChar c then
      name := name.push c
      skip
    else break
  if name.isEmpty then fail inDirective "could not find expected directive name"
  if !isBlankOrEnd (← peek 0) then fail inDirective "found unexpected non-alphabetical character"
  let kind ← if name == "YAML" then do
      let inYaml := some ("while scanning a %YAML directive", start)
      skipBlanks
      let major ← versionNumber inYaml
      if (← peek 0) != '.' then fail inYaml "did not find expected digit or '.' character"
      skip
      let minor ← versionNumber inYaml
      pure (TokenKind.versionDirective major minor)
    else if name == "TAG" then do
      let inTag := some ("while scanning a %TAG directive", start)
      skipBlanks
      let handle ← tagHandle true start
      if !isBlank (← peek 0) then fail inTag "did not find expected whitespace"
      skipBlanks
      let pfx ← tagUri true true "" start
      if !isBlankOrEnd (← peek 0) then fail inTag "did not find expected whitespace or line break"
      pure (TokenKind.tagDirective handle pfx)
    else fail inDirective "found unknown directive name"
  let stop ← here
  skipBlanks
  if (← peek 0) == '#' then
    for _ in [0:b] do
      if isBreakOrEnd (← peek 0) then break
      skip
  if !isBreakOrEnd (← peek 0) then fail inDirective "did not find expected comment or line break"
  if isBreak (← peek 0) then skipLine
  modify fun s => { s with tokens := s.tokens.push ⟨kind, start, stop⟩ }

/-! ## Tokens -/

/-- Ends the stream: closes every block collection. -/
def streamEnd : ScanM Unit := do
  if (← here).column != 0 then
    modify fun s => { s with mark := { s.mark with line := s.mark.line + 1, column := 0 } }
  unrollIndent (-1)
  removeSimpleKey
  modify fun s => { s with simpleKeyAllowed := false }
  push .streamEnd (← here)
  modify fun s => { s with done := true }

/-- A document start (`---`) or end (`...`) marker. -/
def documentIndicator (kind : TokenKind) : ScanM Unit := do
  unrollIndent (-1)
  removeSimpleKey
  modify fun s => { s with simpleKeyAllowed := false }
  let start ← here
  skip
  skip
  skip
  push kind start

/-- `[` or `{`. -/
def flowCollectionStart (kind : TokenKind) : ScanM Unit := do
  saveSimpleKey
  increaseFlowLevel
  modify fun s => { s with simpleKeyAllowed := true }
  let start ← here
  skip
  push kind start

/-- `]` or `}`. -/
def flowCollectionEnd (kind : TokenKind) : ScanM Unit := do
  removeSimpleKey
  decreaseFlowLevel
  modify fun s => { s with simpleKeyAllowed := false }
  let start ← here
  skip
  push kind start

/-- `,` in a flow collection. -/
def flowEntry : ScanM Unit := do
  removeSimpleKey
  modify fun s => { s with simpleKeyAllowed := true }
  let start ← here
  skip
  push .flowEntry start

/-- `-` before a block sequence entry. -/
def blockEntry : ScanM Unit := do
  let s ← get
  if s.flowLevel == 0 then
    if !s.simpleKeyAllowed then fail none "block sequence entries are not allowed in this context"
    rollIndent s.mark.column none .blockSequenceStart s.mark
  removeSimpleKey
  modify fun s => { s with simpleKeyAllowed := true }
  let start ← here
  skip
  push .blockEntry start

/-- `?` before a complex key. -/
def complexKey : ScanM Unit := do
  let s ← get
  if s.flowLevel == 0 then
    if !s.simpleKeyAllowed then fail none "mapping keys are not allowed in this context"
    rollIndent s.mark.column none .blockMappingStart s.mark
  removeSimpleKey
  modify fun s => { s with simpleKeyAllowed := s.flowLevel == 0 }
  let start ← here
  skip
  push .key start

/-- `:` after a key: a possible simple key before it becomes a key. -/
def valueIndicator : ScanM Unit := do
  let k ← currentKey
  if k.possible then
    insertAt k.tokenNumber .key k.mark
    rollIndent k.mark.column (some k.tokenNumber) .blockMappingStart k.mark
    setKey { k with possible := false }
    modify fun s => { s with simpleKeyAllowed := false }
  else
    let s ← get
    if s.flowLevel == 0 then
      if !s.simpleKeyAllowed then fail none "mapping values are not allowed in this context"
      rollIndent s.mark.column none .blockMappingStart s.mark
    modify fun s => { s with simpleKeyAllowed := s.flowLevel == 0 }
  let start ← here
  skip
  push .value start

def fetchNext : ScanM Unit := do
  toNextToken
  staleSimpleKeys
  unrollIndent ((← here).column : Int)
  let c0 ← peek 0
  let c1 ← peek 1
  let c2 ← peek 2
  let c3 ← peek 3
  let s ← get
  let col := s.mark.column
  let flow := s.flowLevel > 0
  if isEnd c0 then streamEnd
  else if col == 0 && c0 == '%' then directive
  else if col == 0 && c0 == '-' && c1 == '-' && c2 == '-' && isBlankOrEnd c3 then documentIndicator .documentStart
  else if col == 0 && c0 == '.' && c1 == '.' && c2 == '.' && isBlankOrEnd c3 then documentIndicator .documentEnd
  else if c0 == '[' then flowCollectionStart .flowSequenceStart
  else if c0 == '{' then flowCollectionStart .flowMappingStart
  else if c0 == ']' then flowCollectionEnd .flowSequenceEnd
  else if c0 == '}' then flowCollectionEnd .flowMappingEnd
  else if c0 == ',' then flowEntry
  else if c0 == '-' && isBlankOrEnd c1 then blockEntry
  else if c0 == '?' && (flow || isBlankOrEnd c1) then complexKey
  else if c0 == ':' && (flow || isBlankOrEnd c1) then valueIndicator
  else if c0 == '*' then do saveSimpleKey; modify (fun s => { s with simpleKeyAllowed := false }); anchorOrAlias true
  else if c0 == '&' then do saveSimpleKey; modify (fun s => { s with simpleKeyAllowed := false }); anchorOrAlias false
  else if c0 == '!' then do saveSimpleKey; modify (fun s => { s with simpleKeyAllowed := false }); tag
  else if c0 == '|' && !flow then do removeSimpleKey; modify (fun s => { s with simpleKeyAllowed := true }); blockScalar true
  else if c0 == '>' && !flow then do removeSimpleKey; modify (fun s => { s with simpleKeyAllowed := true }); blockScalar false
  else if c0 == '\'' then do saveSimpleKey; modify (fun s => { s with simpleKeyAllowed := false }); quotedScalar true
  else if c0 == '"' then do saveSimpleKey; modify (fun s => { s with simpleKeyAllowed := false }); quotedScalar false
  else if !(isBlankOrEnd c0 || "-?:,[]{}#&*!|>'\"%@`".contains c0) ||
      (c0 == '-' && !isBlank c1) || (!flow && (c0 == '?' || c0 == ':') && !isBlankOrEnd c1) then do
    saveSimpleKey
    modify fun s => { s with simpleKeyAllowed := false }
    plainScalar
  else
    fail (some ("while scanning for the next token", (← here))) "found character that cannot start any token"

end Scan

/-- A character the text may not hold: control characters other than tab and line breaks,
surrogates and the two non-characters at the end of the basic plane. -/
def isForbidden (c : Char) : Bool :=
  let n := c.toNat
  !(n == 0x09 || n == 0x0A || n == 0x0D || (0x20 ≤ n && n ≤ 0x7E) || n == 0x85 ||
    (0xA0 ≤ n && n ≤ 0xD7FF) || (0xE000 ≤ n && n ≤ 0xFFFD) || (0x10000 ≤ n && n ≤ 0x10FFFF))

/-- Scans a whole text: its settled tokens and the error that stopped scanning, if any. A
forbidden character is refused before any token. -/
def scan (text : String) : Array Token × Option SyntaxError :=
  let chars := text.toList
  match chars.findIdx? isForbidden with
  | some i =>
    let offset := (String.ofList (chars.take i)).utf8ByteSize
    (#[], some { problem := "control characters are not allowed", mark := {}, offset := offset })
  | none =>
  let input := chars.toArray
  let run : ScanM Unit := do
    modify fun s => { s with simpleKeyAllowed := true, simpleKeys := [{}] }
    Scan.push .streamStart {}
    for _ in [0:input.size + 2] do
      if (← get).done then break
      Scan.fetchNext
  let (r, s) := (run.run).run { input := input }
  match r with
  | .ok () => (s.tokens, none)
  | .error e =>
    let claimed := (s.simpleKeys.filter (·.possible)).map (·.tokenNumber)
    (s.tokens.extract 0 (claimed.foldl min s.tokens.size), some e)

end ContractAbi.Yaml
