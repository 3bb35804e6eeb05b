import ContractAbi.Text.Blank
import ContractAbi.Text.Letters

/-!
# Field value patterns

A log filter may match a span field's value against a regular expression. A pattern that does
not parse refuses the whole filter, and the refusal shows the pattern with carets under the
part at fault, and under an earlier part the fault refers back to (the first of two equal group
names or flags):

```
regex parse error:
    (
    ^
error: unclosed group
```

The pattern is read once, left to right, the way the regular-expression syntax reads it:
groups (capture groups, named or not, groups with flags, and flags alone; look-around is
refused), alternation, bracketed classes (nested classes, ASCII classes, set operations and
ranges), repetitions, counted repetitions and escapes. The first fault met is the one reported.

A pattern that parses can still be refused by the matcher, which compiles it to a DFA: a DFA
cannot hold a Unicode word boundary (`\b`, `\B`, `\<`, `\>` and the `\b{...}` forms while
Unicode mode is on, as it is unless a `u` flag is negated).

The whitespace-insensitive mode (`x`), the nesting limit and the checks made after parsing
(property names, case folding tables, patterns that can match invalid UTF-8) are not modelled:
such patterns are taken as they parse.
-/

namespace ContractAbi.Cli

/-- A pattern fault: what is wrong, the stretch `[start, stop)` it is at (one caret at least),
and perhaps an earlier stretch it refers back to. -/
structure PatternFault where
  kind : String
  start : Nat
  stop : Nat
  earlier : Option (Nat × Nat) := none
  deriving Inhabited

/-- The caret line under a pattern: every stretch, from left to right, gets at least one
caret. -/
def caretLine (spans : List (Nat × Nat)) : String :=
  (spans.foldl (fun (acc : String × Nat) (span : Nat × Nat) =>
    let width := max 1 (span.2 - span.1)
    ((acc.1.pushn ' ' (span.1 - acc.2)).pushn '^' width, max acc.2 span.1 + width)) ("", 0)).1

/-- The text of a pattern fault: the pattern, carets under the stretches at fault, and what is
wrong. -/
def PatternFault.render (f : PatternFault) (pattern : String) : String :=
  let spans := ((f.start, f.stop) :: f.earlier.toList).mergeSort fun a b =>
    a.1 < b.1 || (a.1 == b.1 && a.2 ≤ b.2)
  "regex parse error:\n    " ++ pattern ++ "\n    " ++ caretLine spans ++ "\nerror: " ++ f.kind

inductive PatternError where
  /-- The pattern does not parse. -/
  | malformed (fault : PatternFault)
  /-- The pattern parses but holds a Unicode word boundary, which a DFA cannot hold. -/
  | unicodeWordBoundary
  deriving Inhabited

/-- A fault at `[start, stop)`. -/
def patternFault {α : Type} (kind : String) (start stop : Nat) : Except PatternFault α :=
  .error { kind := kind, start := start, stop := stop }

/-- A fault at `[start, stop)` that refers back to an earlier stretch. -/
def patternFaultAgain {α : Type} (kind : String) (start stop : Nat) (earlier : Nat × Nat) :
    Except PatternFault α :=
  .error { kind := kind, start := start, stop := stop, earlier := some earlier }

/-- The fault of an escape cut off by the end of the pattern. -/
def escapeEof : String := "incomplete escape sequence, reached end of pattern prematurely"

def isMetaCharacter (c : Char) : Bool :=
  ['\\', '.', '+', '*', '?', '(', ')', '|', '[', ']', '{', '}', '^', '$', '#', '&', '-', '~'].contains c

/-- A character that stands for itself after a backslash: a meta character, or an ASCII
character other than a letter, a digit, `<` and `>`. -/
def isEscapable (c : Char) : Bool :=
  isMetaCharacter c || (c.toNat < 128 && !c.isAlphanum && c != '<' && c != '>')

def isHexDigit (c : Char) : Bool := c.isDigit || ('a' ≤ c && c ≤ 'f') || ('A' ≤ c && c ≤ 'F')

def hexDigitsValue (ds : List Char) : Nat :=
  ds.foldl (fun acc d => acc * 16 + if d.isDigit then d.toNat - 48 else d.toLower.toNat - 87) 0

/-- A Unicode scalar value: at most U+10FFFF and not a surrogate. -/
def isScalarValue (v : Nat) : Bool := v ≤ 0x10FFFF && !(0xD800 ≤ v && v ≤ 0xDFFF)

/-- What an escape stands for, as far as the checks need to know. -/
inductive Escaped where
  /-- One character. -/
  | literal (c : Char)
  /-- A class of characters: `\d`, `\s`, `\w`, their negations, or a Unicode class. -/
  | set
  /-- An assertion; `wordBoundary` when it looks at word characters. -/
  | assertion (wordBoundary : Bool)

/-- Reads the hexadecimal escape whose letter is at `p`: a brace body, or two digits after `x`,
four after `u`, eight after `U`. -/
def readHex (cs : Array Char) (p : Nat) : Except PatternFault (Char × Nat) := do
  let n := cs.size
  let q := p + 1
  if q ≥ n then return ← patternFault escapeEof n n
  if cs[q]! == '{' then
    let mut k := q + 1
    let mut ds : List Char := []
    for _ in [0:n] do
      if k ≥ n || cs[k]! == '}' then break
      if !isHexDigit cs[k]! then return ← patternFault "invalid hexadecimal digit" k (k + 1)
      ds := ds ++ [cs[k]!]
      k := k + 1
    if k ≥ n then return ← patternFault escapeEof q n
    if ds.isEmpty then return ← patternFault "hexadecimal literal empty" q (k + 1)
    let v := hexDigitsValue ds
    if !isScalarValue v then
      return ← patternFault "hexadecimal literal is not a Unicode scalar value" (q + 1) k
    return (Char.ofNat v, k + 1)
  else
    let width := if cs[p]! == 'x' then 2 else if cs[p]! == 'u' then 4 else 8
    let mut ds : List Char := []
    for d in [0:width] do
      if q + d ≥ n then return ← patternFault escapeEof n n
      if !isHexDigit cs[q + d]! then
        return ← patternFault "invalid hexadecimal digit" (q + d) (q + d + 1)
      ds := ds ++ [cs[q + d]!]
    let v := hexDigitsValue ds
    if !isScalarValue v then
      return ← patternFault "hexadecimal literal is not a Unicode scalar value" q (q + width)
    return (Char.ofNat v, q + width)

/-- Reads a Unicode class escape whose letter (`p` or `P`) is at `p`: the position after it.
The class is a brace body or one character. -/
def readUnicodeClass (cs : Array Char) (p : Nat) : Except PatternFault Nat := do
  let n := cs.size
  let q := p + 1
  if q ≥ n then return ← patternFault escapeEof n n
  if cs[q]! == '{' then
    match (cs.toList.drop (q + 1)).findIdx? (· == '}') with
    | some k => return q + k + 2
    | none => patternFault escapeEof n n
  else if cs[q]! == '\\' then patternFault "invalid Unicode character class" q (q + 1)
  else return q + 1

/-- Reads the braces after `\b` at `p` when they name a special word boundary; `none` when they
are a counted repetition. -/
def readWordBoundaryName (cs : Array Char) (start p : Nat) : Except PatternFault (Option Nat) := do
  let n := cs.size
  let isNameChar (c : Char) : Bool := c.isAlpha || c == '-'
  if p + 1 ≥ n then
    return ← patternFault ("found either the beginning of a special word boundary or a bounded " ++
      "repetition on a \\b with an opening brace, but no closing brace") start n
  if !isNameChar cs[p + 1]! then return none
  let mut k := p + 1
  for _ in [0:n] do
    if k < n && isNameChar cs[k]! then k := k + 1 else break
  if k ≥ n || cs[k]! != '}' then
    return ← patternFault ("special word boundary assertion is either unclosed or contains an " ++
      "invalid character") p k
  let name := String.ofList ((cs.toList.drop (p + 1)).take (k - p - 1))
  if !(["start", "end", "start-half", "end-half"].contains name) then
    return ← patternFault ("unrecognized special word boundary assertion, valid choices are: " ++
      "start, end, start-half or end-half") (p + 1) k
  return some (k + 1)

/-- Reads an escape whose backslash is at `i`: what it stands for and the position after it. -/
def readEscape (cs : Array Char) (i : Nat) : Except PatternFault (Escaped × Nat) := do
  let some c := cs[i + 1]? | patternFault escapeEof i (i + 1)
  if c.isDigit then return ← patternFault "backreferences are not supported" i (i + 2)
  if c == 'x' || c == 'u' || c == 'U' then
    let (v, j) ← readHex cs (i + 1)
    return (.literal v, j)
  if c == 'p' || c == 'P' then return (.set, ← readUnicodeClass cs (i + 1))
  if ['d', 's', 'w', 'D', 'S', 'W'].contains c then return (.set, i + 2)
  let j := i + 2
  if isEscapable c then return (.literal c, j)
  match c with
  | 'a' => return (.literal (Char.ofNat 7), j)
  | 'f' => return (.literal (Char.ofNat 12), j)
  | 't' => return (.literal '\t', j)
  | 'n' => return (.literal '\n', j)
  | 'r' => return (.literal '\r', j)
  | 'v' => return (.literal (Char.ofNat 11), j)
  | 'A' | 'z' => return (.assertion false, j)
  | 'b' =>
    if cs[j]? == some '{' then
      match ← readWordBoundaryName cs i j with
      | some k => return (.assertion true, k)
      | none => return (.assertion true, j)
    else return (.assertion true, j)
  | 'B' | '<' | '>' => return (.assertion true, j)
  | _ => patternFault "unrecognized escape sequence" i j

/-! ## Classes -/

/-- The names an ASCII class `[:name:]` may have. -/
def asciiClassNames : List String :=
  ["alnum", "alpha", "ascii", "blank", "cntrl", "digit", "graph", "lower", "print", "punct",
   "space", "upper", "word", "xdigit"]

/-- Reads an ASCII class `[:name:]` or `[:^name:]` whose `[` is at `p`: the position after it,
or `none` when the text there is not one (it then opens a nested class). -/
def readAsciiClass (cs : Array Char) (p : Nat) : Option Nat := do
  guard (cs[p + 1]? == some ':')
  let q := if cs[p + 2]? == some '^' then p + 3 else p + 2
  let k ← (cs.toList.drop q).findIdx? (· == ':')
  guard (cs[q + k + 1]? == some ']')
  guard (asciiClassNames.contains (String.ofList ((cs.toList.drop q).take k)))
  return q + k + 2

/-- Reads a class opening at `p`: `[`, perhaps `^`, then literal `-`s or else one literal `]`;
answers the stretch an unclosed class is named by. -/
def readClassOpen (cs : Array Char) (p : Nat) : Except PatternFault ((Nat × Nat) × Nat) := do
  let n := cs.size
  let unclosed := "unclosed character class"
  let mut q := p + 1
  if q ≥ n then return ← patternFault unclosed p q
  if cs[q]! == '^' then
    q := q + 1
    if q ≥ n then return ← patternFault unclosed p q
  let mut dashes := false
  for _ in [0:n] do
    if q < n && cs[q]! == '-' then
      dashes := true
      q := q + 1
      if q ≥ n then return ← patternFault unclosed p p
    else break
  if !dashes && cs[q]! == ']' then
    q := q + 1
    if q ≥ n then return ← patternFault unclosed p q
  return ((p, q), q)

/-- Reads one item of a class at `p`: an escape or a character. -/
def readClassItem (cs : Array Char) (p : Nat) : Except PatternFault (Escaped × Nat) :=
  if cs[p]! == '\\' then readEscape cs p else .ok (.literal cs[p]!, p + 1)

/-- Reads one class item or range `a-z` at `p`; a range takes two single characters in order,
and a `-` before `]` or `-` ends none. -/
def readClassRange (cs : Array Char) (p : Nat) (unclosed : PatternFault) :
    Except PatternFault Nat := do
  let n := cs.size
  let (first, q) ← readClassItem cs p
  if q ≥ n then throw unclosed
  if cs[q]! != '-' || cs[q + 1]? == some ']' || cs[q + 1]? == some '-' then
    match first with
    | .assertion _ =>
      return ← patternFault "invalid escape sequence found in character class" p q
    | _ => return q
  let r := q + 1
  if r ≥ n then throw unclosed
  let (second, s) ← readClassItem cs r
  let bound (e : Escaped) (lo hi : Nat) : Except PatternFault Char :=
    match e with
    | .literal c => .ok c
    | _ => patternFault "invalid range boundary, must be a literal" lo hi
  let lo ← bound first p q
  let hi ← bound second r s
  if hi < lo then
    return ← patternFault "invalid character class range, the start must be <= the end" p s
  return s

/-- Reads a bracketed class whose `[` is at `p`: the position after its `]`. Classes nest; the
open ones are kept innermost first, and a class left unclosed is named by the innermost. -/
def readClass (cs : Array Char) (p : Nat) : Except PatternFault Nat := do
  let n := cs.size
  let unclosedAt (span : Nat × Nat) : PatternFault :=
    { kind := "unclosed character class", start := span.1, stop := span.2 }
  let (outer, q) ← readClassOpen cs p
  let mut opens : List (Nat × Nat) := [outer]
  let mut i := q
  for _ in [0:n + 1] do
    let innermost := unclosedAt (opens.headD outer)
    if i ≥ n then throw innermost
    let c := cs[i]!
    if c == '[' then
      match readAsciiClass cs i with
      | some j => i := j
      | none =>
        let (inner, j) ← readClassOpen cs i
        opens := inner :: opens
        i := j
    else if c == ']' then
      opens := opens.tail
      i := i + 1
      if opens.isEmpty then return i
    else if (c == '&' || c == '-' || c == '~') && cs[i + 1]? == some c then
      i := i + 2
    else
      i ← readClassRange cs i innermost
  throw (unclosedAt (opens.headD outer))

/-! ## Repetitions -/

/-- Reads a decimal at `p`, blanks around it allowed: its value and the position after it. -/
def readDecimal (cs : Array Char) (p : Nat) : Except PatternFault (Nat × Nat) := do
  let skipBlanks (k : Nat) : Nat := k + ((cs.toList.drop k).takeWhile Text.isBlank).length
  let start := skipBlanks p
  let digits := (cs.toList.drop start).takeWhile Char.isDigit
  let stop := start + digits.length
  if digits.isEmpty then
    return ← patternFault "repetition quantifier expects a valid decimal" start stop
  let v : Nat := digits.foldl (fun acc d => acc * 10 + (d.toNat - 48)) 0
  if v ≥ 4294967296 then return ← patternFault "decimal literal invalid" start stop
  return (v, skipBlanks stop)

/-- Reads a counted repetition `{n}`, `{n,}` or `{n,m}` whose `{` is at `p`: the position
after its `}` and a `?` making it lazy. A bounded range may not run backwards. -/
def readCount (cs : Array Char) (p : Nat) : Except PatternFault Nat := do
  let n := cs.size
  let unclosed := "unclosed counted repetition"
  if p + 1 ≥ n then return ← patternFault unclosed p n
  let (low, q) ← readDecimal cs (p + 1)
  let mut i := q
  let mut high : Option Nat := none
  if i ≥ n then return ← patternFault unclosed p n
  if cs[i]! == ',' then
    i := i + 1
    if i ≥ n then return ← patternFault unclosed p n
    if cs[i]! != '}' then
      let (h, j) ← readDecimal cs i
      high := some h
      i := j
  if i ≥ n || cs[i]! != '}' then return ← patternFault unclosed p i
  i := i + 1
  if cs[i]? == some '?' then i := i + 1
  if let some h := high then
    if h < low then
      return ← patternFault "invalid repetition count range, the start must be <= the end" p i
  return i

/-! ## Groups -/

def flagLetters : List Char := ['i', 'm', 's', 'U', 'u', 'R', 'x']

/-- Reads a group's flags up to `:` or `)`: Unicode mode after them, whether any was written, and
where they end. A flag, and `-`, may be written once, `-` not last. -/
def readFlags (cs : Array Char) (p : Nat) (unicode : Bool) :
    Except PatternFault (Bool × Bool × Nat) := do
  let n := cs.size
  let mut seen : List (Char × Nat) := []
  let mut dangling : Option Nat := none
  let mut negated := false
  let mut mode := unicode
  let mut i := p
  for _ in [0:n + 1] do
    if i ≥ n || cs[i]! == ':' || cs[i]! == ')' then break
    let c := cs[i]!
    if c == '-' then
      if let some (_, o) := seen.find? (·.1 == '-') then
        return ← patternFaultAgain "flag negation operator repeated" i (i + 1) (o, o + 1)
      dangling := some i
      negated := true
    else
      dangling := none
      if !flagLetters.contains c then return ← patternFault "unrecognized flag" i (i + 1)
      if let some (_, o) := seen.find? (·.1 == c) then
        return ← patternFaultAgain "duplicate flag" i (i + 1) (o, o + 1)
      if c == 'u' then mode := !negated
    seen := seen ++ [(c, i)]
    i := i + 1
    if i ≥ n then return ← patternFault "expected flag but got end of regex" n n
  if let some d := dangling then return ← patternFault "dangling flag negation operator" d (d + 1)
  return (mode, !seen.isEmpty, i)

/-- A character a group name may hold; the first must be a letter or `_`. -/
def isCaptureChar (c : Char) (first : Bool) : Bool :=
  c == '_' ||
    if first then c.isAlpha || (c.toNat ≥ 128 && Text.isAlphanumeric c)
    else c == '.' || c == '[' || c == ']' || Text.isAlphanumeric c

/-- Reads a group name from `p` up to its `>`: the name, the stretch it covers, and the
position after the `>`. -/
def readCaptureName (cs : Array Char) (p : Nat) :
    Except PatternFault (String × (Nat × Nat) × Nat) := do
  let n := cs.size
  let eof := "unclosed capture group name"
  if p ≥ n then return ← patternFault eof n n
  let mut i := p
  for _ in [0:n] do
    if i ≥ n || cs[i]! == '>' then break
    if !isCaptureChar cs[i]! (i == p) then
      return ← patternFault "invalid capture group character" i (i + 1)
    i := i + 1
  if i ≥ n then return ← patternFault eof n n
  if i == p then return ← patternFault "empty capture group name" p p
  return (String.ofList ((cs.toList.drop p).take (i - p)), (p, i), i + 1)

/-- Where the reading of a pattern stands, outside classes. -/
structure PatternScan where
  pos : Nat := 0
  /-- The open groups, innermost first: where each opened, and the Unicode mode outside it. -/
  groups : List (Nat × Bool) := []
  /-- Whether the current sequence ends with an item a repetition may apply to. -/
  repeatable : Bool := false
  unicode : Bool := true
  /-- The group names so far, with the stretch each was written at. -/
  names : List (String × (Nat × Nat)) := []
  /-- Whether a word boundary was met in Unicode mode. -/
  wordBoundary : Bool := false

/-- Reads what follows a `(` at `s.pos`: a capture group, named or not, a group with flags, or
flags alone, which set the mode for the rest of the enclosing group. -/
def openGroup (cs : Array Char) (s : PatternScan) : Except PatternFault PatternScan := do
  let n := cs.size
  let p := s.pos
  let q := p + 1
  let follows (t : String) : Bool := (cs.toList.drop q).take t.length == t.toList
  for t in ["?=", "?!", "?<=", "?<!"] do
    if follows t then
      return ← patternFault "look-around, including look-ahead and look-behind, is not supported"
        p (q + t.length)
  let opened := { s with groups := (p, s.unicode) :: s.groups, repeatable := false }
  let nameAt := if follows "?P<" then some (q + 3) else if follows "?<" then some (q + 2) else none
  match nameAt with
  | some k =>
    let (name, span, r) ← readCaptureName cs k
    if let some (_, o) := s.names.find? (·.1 == name) then
      return ← patternFaultAgain "duplicate capture group name" span.1 span.2 o
    return { opened with pos := r, names := s.names ++ [(name, span)] }
  | none =>
    if cs[q]? != some '?' then return { opened with pos := q }
    if q + 1 ≥ n then return ← patternFault "unclosed group" q q
    let (mode, written, r) ← readFlags cs (q + 1) s.unicode
    if cs[r]! == ')' then
      if !written then return ← patternFault "repetition operator missing expression" q q
      return { s with pos := r + 1, unicode := mode, repeatable := false }
    return { opened with pos := r + 1, unicode := mode }

/-- Reads a whole pattern: its first fault, or whether it holds a word boundary in Unicode
mode. -/
def readPattern (cs : Array Char) : Except PatternFault Bool := do
  let n := cs.size
  let mut s : PatternScan := {}
  for _ in [0:n + 1] do
    if s.pos ≥ n then break
    let p := s.pos
    let c := cs[p]!
    if c == '(' then s ← openGroup cs s
    else if c == ')' then
      match s.groups with
      | [] => return ← patternFault "unopened group" p (p + 1)
      | (_, mode) :: rest =>
        s := { s with pos := p + 1, groups := rest, unicode := mode, repeatable := true }
    else if c == '|' then s := { s with pos := p + 1, repeatable := false }
    else if c == '[' then
      let q ← readClass cs p
      s := { s with pos := q, repeatable := true }
    else if c == '?' || c == '*' || c == '+' then
      if !s.repeatable then return ← patternFault "repetition operator missing expression" p p
      s := { s with pos := p + 1 }
    else if c == '{' then
      if !s.repeatable then return ← patternFault "repetition operator missing expression" p p
      let q ← readCount cs p
      s := { s with pos := q }
    else if c == '\\' then
      let (e, q) ← readEscape cs p
      let boundary := match e with
        | .assertion true => s.unicode
        | _ => false
      s := { s with pos := q, repeatable := true, wordBoundary := s.wordBoundary || boundary }
    else s := { s with pos := p + 1, repeatable := true }
  match s.groups with
  | (g, _) :: _ => patternFault "unclosed group" g (g + 1)
  | [] => return s.wordBoundary

/-- Checks a field pattern: why the matcher refuses it, if it does. -/
def checkPattern (pattern : String) : Option PatternError :=
  match readPattern pattern.toList.toArray with
  | .error f => some (.malformed f)
  | .ok true => some .unicodeWordBoundary
  | .ok false => none

end ContractAbi.Cli
