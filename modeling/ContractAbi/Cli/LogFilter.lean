import ContractAbi.Text.Blank
import ContractAbi.Text.Letters
import ContractAbi.Cli.FieldPattern

/-!
# Log filters

A log filter is a comma-separated list of directives; empty pieces are ignored. A directive is
read character by character, after its leading and trailing blanks are set aside:

- it starts with a letter, digit, `-`, `:` or `_` (a target, or a level alone), or with `[` (a
  span);
- a target runs up to `=` (a level follows), or `[` (a span follows);
- a span runs up to `]` (then only `=` and a level may follow), or `{`, which opens its field
  list; fields are separated by `,` and the list closes with `}` and then `]`; a field may not
  be empty;
- a level runs to the end.

The pieces are cut from the directive as it was given, blanks included, at the places found in
the trimmed text; so a trailing blank stays in a target or level (`info ` is a target, and
`zzz=off ` has no valid level). A level is a number from 0 to 5 (with an optional `+` and
leading zeros), one of `off`, `error`, `warn`, `info`, `debug`, `trace` in any case, or nothing.

A field is `name` or `name=value`; a value that is not a boolean or a number is a pattern, and
a pattern the matcher refuses (one that does not parse, or holds a Unicode word boundary)
refuses the filter.

The program's log lines never reach its answers, so only whether a filter is valid, and why
not, matters.
-/

namespace ContractAbi.Cli

inductive FilterError where
  /-- A directive that does not read. -/
  | directive
  /-- A level that is not one. -/
  | level
  /-- A field value whose pattern the matcher refuses. -/
  | pattern (text : String) (refusal : PatternError)

def levelMessage : String :=
  "error parsing level filter: expected one of \"off\", \"error\", \"warn\", \"info\", " ++
    "\"debug\", \"trace\", or a number 0-5"

/-- The refusal of a pattern holding a Unicode word boundary. -/
def wordBoundaryMessage : String :=
  "unsupported regex feature for DFAs: cannot build DFAs for regexes with Unicode word " ++
    "boundaries; switch to ASCII word boundaries, or heuristically enable Unicode word " ++
    "boundaries or use a different regex engine"

def FilterError.causes : FilterError → List String
  | .directive => ["invalid filter directive"]
  | .level => [levelMessage, levelMessage]
  | .pattern p (.malformed f) =>
    ["invalid field filter: error building NFA", "error building NFA", "error parsing regex",
     f.render p]
  | .pattern _ .unicodeWordBoundary =>
    ["invalid field filter: " ++ wordBoundaryMessage, wordBoundaryMessage]

def isLevelText (s : String) : Bool :=
  let digits := match s.toList with
    | '+' :: ds => ds
    | ds => ds
  (!digits.isEmpty && digits.all Char.isDigit &&
      digits.foldl (fun acc c => acc * 10 + (c.toNat - 48)) 0 ≤ 5) ||
    ["", "off", "error", "warn", "info", "debug", "trace"].contains
      (String.ofList (s.toList.map Char.toLower))

/-- Whether a text is a decimal integer, with an optional sign (`-` only when `signed`). -/
def isIntegerText (s : String) (signed : Bool) : Bool :=
  let digits := match s.toList with
    | '+' :: ds => ds
    | '-' :: ds => if signed then ds else []
    | ds => ds
  !digits.isEmpty && digits.all Char.isDigit

/-- Whether a text is a float: an optional sign, then `inf`, `infinity` or `nan` in any case,
or digits with an optional point (at least one digit) and an optional exponent. -/
def isFloatText (s : String) : Bool :=
  let body := match s.toList with
    | '+' :: r | '-' :: r => r
    | r => r
  let word := String.ofList (body.map Char.toLower)
  word == "inf" || word == "infinity" || word == "nan" ||
    let whole := body.takeWhile Char.isDigit
    let rest := body.drop whole.length
    let (frac, afterFrac) := match rest with
      | '.' :: r => (r.takeWhile Char.isDigit, r.drop (r.takeWhile Char.isDigit).length)
      | r => ([], r)
    !(whole.isEmpty && frac.isEmpty) &&
      match afterFrac with
      | [] => true
      | e :: r =>
        (e == 'e' || e == 'E') &&
          let ds := match r with
            | '+' :: t | '-' :: t => t
            | t => t
          !ds.isEmpty && ds.all Char.isDigit

/-- Checks one field of a span's field list: its value, after the first `=`, is a boolean, a
number, or a pattern that parses. -/
def checkField (field : String) : Except FilterError Unit :=
  match field.splitOn "=" with
  | _ :: value :: _ =>
    if value == "true" || value == "false" || isIntegerText value true || isFloatText value then
      .ok ()
    else match checkPattern value with
      | some e => .error (.pattern value e)
      | none => .ok ()
  | _ => .ok ()

/-- Where the reading of a directive stands; each position is a byte offset into the
directive as given. -/
inductive DirectiveState where
  | start
  | levelOrTarget (start : Nat)
  | span (start : Nat)
  | field (start : Nat)
  | fields
  | target
  | level (start : Nat)
  | complete

/-- The text of a directive between two byte offsets. -/
def sliceBytes (bytes : List UInt8) (lo hi : Nat) : String :=
  (String.fromUTF8? (ByteArray.mk ((bytes.drop lo).take (hi - lo)).toArray)).getD ""

/-- One step of reading a directive: the state after the character `c` at offset `i`. -/
def DirectiveState.step (bytes : List UInt8) (i : Nat) (c : Char) :
    DirectiveState → Except FilterError DirectiveState
  | .start =>
    if c == '[' then .ok (.span (i + 1))
    else if !(c == '-' || c == ':' || c == '_') && !Text.isAlphanumeric c then .error .directive
    else .ok (.levelOrTarget i)
  | .levelOrTarget s =>
    if c == '=' then .ok (.level (i + 1))
    else if c == '[' then .ok (.span (i + 1))
    else if c == ',' then .ok .complete
    else .ok (.levelOrTarget s)
  | .target => if c == '=' then .ok (.level (i + 1)) else .error .directive
  | .span s =>
    if c == ']' then .ok .target
    else if c == '{' then .ok (.field (i + 1))
    else .ok (.span s)
  | .field s =>
    if c == '}' || c == ',' then
      let f := sliceBytes bytes s i
      if f.isEmpty then .error .directive
      else do
        checkField f
        return if c == '}' then .fields else .field (i + 1)
    else .ok (.field s)
  | .fields => if c == ']' then .ok .target else .error .directive
  | .level s =>
    if c == ',' then
      if isLevelText (sliceBytes bytes s i) then .ok .complete else .error .level
    else .ok (.level s)
  | .complete => .error .directive

def checkDirective (d : String) : Except FilterError Unit := do
  let bytes := d.toUTF8.toList
  let trimmed := Text.trimChars d.toList
  let mut state := DirectiveState.start
  let mut i := 0
  for c in trimmed do
    state ← state.step bytes i c
    i := i + c.utf8Size
  match state with
  | .levelOrTarget _ | .target | .fields => pure ()
  | .level s => if isLevelText (sliceBytes bytes s bytes.length) then pure () else throw .level
  | .start | .span _ | .field _ | .complete => throw .directive

/-- Checks a log filter: its first refused directive, if any. -/
def checkFilter (s : String) : Except FilterError Unit :=
  (s.splitOn ",").forM fun d => if d.isEmpty then pure () else checkDirective d

def isLogFilter (s : String) : Bool :=
  match checkFilter s with
  | .ok () => true
  | .error _ => false

end ContractAbi.Cli
