import ContractAbi.Yaml.Scanner
import ContractAbi.Json.Schema
import ContractAbi.Text.Shortest

/-!
# What a plain scalar stands for

A quoted or block scalar is always a string. A plain one is read by its text, first match wins:
empty or `~`/`null` (in three spellings) is null; `true`/`false` (three spellings each) a
boolean; an integer in decimal, or after `0x`, `0o` or `0b`, with an optional sign, that fits 64
bits (then 128 bits); a decimal float, or `.inf`/`.nan` in three spellings, with an optional
sign; anything else a string. Digits led by a zero (`007`, `-01`) are a string, not a number.

A tag of the core schema (`!!bool`, `!!int`, `!!float`, `!!null`) reads the text as that kind
whatever its style, and a text the kind does not allow is a fault; a local tag (`!name`) on a
plain scalar changes nothing; any other tag makes a string.

The kind decides how a scalar is named when a value of another kind was expected, and what a
buffered scalar holds. Floats are named in positional notation; an integer beyond 64 bits cannot
be buffered.
-/

namespace ContractAbi.Yaml

open Json (Unexpected Content)

def isNull (s : String) : Bool := s == "~" || s == "null" || s == "Null" || s == "NULL"

def parseBool (s : String) : Option Bool :=
  if s == "true" || s == "True" || s == "TRUE" then some true
  else if s == "false" || s == "False" || s == "FALSE" then some false
  else none

/-- Digits led by a zero, after an optional sign: text, not a number. -/
def digitsButNotNumber (s : String) : Bool :=
  let cs := match s.toList with
    | '-' :: r | '+' :: r => r
    | cs => cs
  cs.length > 1 && cs.head? == some '0' && (cs.drop 1).all Char.isDigit

/-- An integer in a radix: an optional `+` (or `-` when `signed`), then at least one digit. -/
def parseRadix (s : String) (radix : Nat) (signed : Bool) : Option Int :=
  let cs := s.toList
  let (neg, ds) := match cs with
    | '+' :: r => (false, r)
    | '-' :: r => if signed then (true, r) else (false, cs)
    | _ => (false, cs)
  if ds.isEmpty then none
  else
    let digit (c : Char) : Option Nat := (hexValue c).bind fun v => if v < radix then some v else none
    (ds.foldlM (fun acc c => (digit c).map (acc * radix + ·)) 0).map fun v =>
      if neg then -(v : Int) else (v : Int)

def radixPrefixes : List (String × Nat) := [("0x", 16), ("0o", 8), ("0b", 2)]

/-- A non-negative integer below `limit`. -/
def parseUnsigned (scalar : String) (limit : Nat) : Option Nat := Id.run do
  let unpositive := if scalar.startsWith "+" then String.ofList (scalar.toList.drop 1) else scalar
  for (pfx, radix) in radixPrefixes do
    if unpositive.startsWith pfx then
      let rest := String.ofList (unpositive.toList.drop 2)
      if rest.startsWith "+" || rest.startsWith "-" then return none
      if let some v := parseRadix rest radix false then
        if v < limit then return some v.toNat
  if unpositive.startsWith "+" || unpositive.startsWith "-" then return none
  if digitsButNotNumber scalar then return none
  match parseRadix unpositive 10 false with
  | some v => if v < limit then some v.toNat else none
  | none => none

/-- An integer within `low ..= high`, as a negative one is read. -/
def parseSigned (scalar : String) (low high : Int) : Option Int := Id.run do
  for (pfx, radix) in radixPrefixes do
    if scalar.startsWith ("-" ++ pfx) then
      let rest := String.ofList (scalar.toList.drop 3)
      if let some v := parseRadix ("-" ++ rest) radix true then
        if low ≤ v && v ≤ high then return some v
  if digitsButNotNumber scalar then return none
  match parseRadix scalar 10 true with
  | some v => if low ≤ v && v ≤ high then some v else none
  | none => none

/-- An integer a plain scalar spells, by the narrowest kind that holds it. -/
inductive PlainInteger where
  | u64 (n : Nat)
  | i64 (i : Int)
  | u128 (n : Nat)
  | i128 (i : Int)

def plainInteger (s : String) : Option PlainInteger :=
  match parseUnsigned s (Nat.pow 2 64) with
  | some n => some (.u64 n)
  | none =>
    match parseSigned s (-(Int.pow 2 63)) (Int.pow 2 63 - 1) with
    | some i => some (.i64 i)
    | none =>
      match parseUnsigned s (Nat.pow 2 128) with
      | some n => some (.u128 n)
      | none => (parseSigned s (-(Int.pow 2 127)) (Int.pow 2 127 - 1)).map .i128

def digitsValue (ds : List Char) : Nat := ds.foldl (fun acc c => acc * 10 + (c.toNat - 48)) 0

/-- A decimal float: an optional sign, digits with an optional point (at least one digit), and
an optional exponent; or `inf`, `infinity` or `nan` in any case. -/
def parseFloatText (s : String) : Option Float :=
  let cs := s.toList
  let (neg, body) := match cs with
    | '+' :: r => (false, r)
    | '-' :: r => (true, r)
    | _ => (false, cs)
  let signed (f : Float) : Float := if neg then -f else f
  let word := String.ofList (body.map Char.toLower)
  if word == "inf" || word == "infinity" then some (signed (1.0 / 0.0))
  else if word == "nan" then some (0.0 / 0.0)
  else
    let intDigits := body.takeWhile Char.isDigit
    let afterInt := body.drop intDigits.length
    let (fracDigits, afterFrac) := match afterInt with
      | '.' :: r => (r.takeWhile Char.isDigit, r.drop (r.takeWhile Char.isDigit).length)
      | r => ([], r)
    if intDigits.isEmpty && fracDigits.isEmpty then none
    else
      let expo : Option Int := match afterFrac with
        | [] => some 0
        | c :: r =>
          if c == 'e' || c == 'E' then
            let (eneg, eds) := match r with
              | '+' :: t => (false, t)
              | '-' :: t => (true, t)
              | t => (false, t)
            if !eds.isEmpty && eds.all Char.isDigit then
              some (if eneg then -(digitsValue eds : Int) else (digitsValue eds : Int))
            else none
          else none
      expo.map fun e =>
        let ds := intDigits ++ fracDigits
        let m := digitsValue ds
        let k : Int := e - fracDigits.length
        let magnitude : Int := ((ds.dropWhile (· == '0')).length : Int) + k
        if m == 0 || magnitude < -400 then signed 0.0
        else if magnitude > 400 then signed (1.0 / 0.0)
        else if k ≥ 0 then signed (Float.ofScientific m false k.toNat)
        else signed (Float.ofScientific m true k.natAbs)

/-- The finite float a plain scalar spells, or `.inf`/`.nan` in three spellings. -/
def parseF64 (scalar : String) : Option Float :=
  let unpositive? : Option String := match scalar.toList with
    | '+' :: r => if r.head? == some '+' || r.head? == some '-' then none else some (String.ofList r)
    | _ => some scalar
  match unpositive? with
  | none => none
  | some u =>
    if u == ".inf" || u == ".Inf" || u == ".INF" then some (1.0 / 0.0)
    else if scalar == "-.inf" || scalar == "-.Inf" || scalar == "-.INF" then some (-(1.0 / 0.0))
    else if scalar == ".nan" || scalar == ".NaN" || scalar == ".NAN" then some (0.0 / 0.0)
    else match parseFloatText u with
      | some f => if f.isFinite then some f else none
      | none => none

/-- What a scalar stands for when read as any value. -/
inductive ScalarValue where
  | unit
  | bool (b : Bool)
  | unsigned (n : Nat)
  | signed (i : Int)
  /-- An integer beyond 64 bits: nothing takes it, and a fault names it by this text. -/
  | wide (text : String)
  | float (f : Float)
  | str (s : String)

/-- How a fault names a float: positional notation. -/
def floatUnexpected (f : Float) : Unexpected :=
  .other ("floating point `" ++ Text.positionalText f ++ "`")

/-- How a scalar value is named when a value of another kind was expected. -/
def ScalarValue.unexpected : ScalarValue → Unexpected
  | .unit => .other "unit value"
  | .bool b => .bool b
  | .unsigned n => .unsigned n
  | .signed i => .signed i
  | .wide t => .other t
  | .float f => floatUnexpected f
  | .str s => .str s

/-- A scalar value as a buffered value; an integer beyond 64 bits cannot be buffered. -/
def ScalarValue.content : ScalarValue → Option Content
  | .unit => some (.other "unit value")
  | .bool b => some (.bool b)
  | .unsigned n => some (.unsigned n)
  | .signed i => some (.negative i)
  | .wide _ => none
  | .float f => some (.other (floatUnexpected f).text)
  | .str s => some (.str s)

def PlainInteger.value : PlainInteger → ScalarValue
  | .u64 n => .unsigned n
  | .i64 i => .signed i
  | .u128 n => .wide ("integer `" ++ toString n ++ "` as u128")
  | .i128 i => .wide ("integer `" ++ toString i ++ "` as i128")

def plainValue (text : String) : ScalarValue :=
  if text.isEmpty || isNull text then .unit
  else match parseBool text with
  | some b => .bool b
  | none =>
    match plainInteger text with
    | some i => i.value
    | none =>
      if digitsButNotNumber text then .str text
      else match parseF64 text with
        | some f => .float f
        | none => .str text

def tagOf (s : String) : Tag := s.toUTF8.toList

/-- The core schema's tags for booleans, integers, floats and null. -/
def boolTag : Tag := tagOf "tag:yaml.org,2002:bool"

@[inherit_doc boolTag]
def intTag : Tag := tagOf "tag:yaml.org,2002:int"

@[inherit_doc boolTag]
def floatTag : Tag := tagOf "tag:yaml.org,2002:float"

@[inherit_doc boolTag]
def nullTag : Tag := tagOf "tag:yaml.org,2002:null"

/-- Whether a tag starts with `!`: a local tag. -/
def isLocalTag (t : Tag) : Bool := t.head? == some 33

/-- Whether a node's tag names an enum variant: a local tag that is valid UTF-8. -/
def isVariantTag : Option Tag → Bool
  | some t => isLocalTag t && (String.fromUTF8? (ByteArray.mk t.toArray)).isSome
  | none => false

/-- The fault of a scalar whose text its tag does not allow. -/
def invalidScalar (text expected : String) : String :=
  (Json.invalidValue (.str text) expected).message

/-- What a scalar stands for as any value: a core schema tag decides the kind, a local tag or
none leaves it to the text, anything else is a string. -/
def scalarValue (text : String) (style : Style) (tag : Option Tag) : Except String ScalarValue :=
  match tag with
  | some t =>
    if t == boolTag then
      match parseBool text with
      | some b => .ok (.bool b)
      | none => .error (invalidScalar text "a boolean")
    else if t == intTag then
      match plainInteger text with
      | some i => .ok i.value
      | none => .error (invalidScalar text "an integer")
    else if t == floatTag then
      match parseF64 text with
      | some f => .ok (.float f)
      | none => .error (invalidScalar text "a float")
    else if t == nullTag then
      if isNull text then .ok .unit else .error (invalidScalar text "null")
    else if isLocalTag t && style == .plain then .ok (plainValue text)
    else .ok (.str text)
  | none => .ok (if style == .plain then plainValue text else .str text)

end ContractAbi.Yaml
