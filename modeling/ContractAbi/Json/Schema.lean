import ContractAbi.Json.Stream

/-!
# Reading JSON by schema

The pieces a schema is read with: array elements and object members one at a time, values of
the basic kinds, options, sequences, maps and records, and buffered values.

A record is read from an object, its members in any order, unknown members skipped and a member
given twice refused; or from an array, its members in declaration order, a missing trailing one
taking its default when it has one. Once its members are read, the first required member that is
absent, in declaration order, is reported.

A buffered value (`Content`) is a whole JSON value kept for later: a tagged declaration is read
into one before its tag says what it holds. Decoding a buffered value reports faults without a
place; they take the place of the enclosing value.
-/

namespace ContractAbi.Json

/-- Runs a body, then a closing step even when the body failed; the body's fault wins. -/
def withEnd {α : Type} (body : Parser α) (close : Parser Unit) : Parser α := do
  let r ← tryCatch (do let v ← body; pure (Except.ok v)) (fun e => pure (Except.error e))
  let c ← tryCatch (do close; pure (Except.ok ())) (fun e => pure (Except.error e))
  match r, c with
  | .error e, _ => throw e
  | .ok _, .error e => throw e
  | .ok v, .ok () => return v

/-- Whether another array element follows; on `true` the element is next. -/
def nextElement (first : Bool) : Parser Bool := do
  let peek ← do
    match ← whitespace with
    | some 93 => return false
    | some 44 =>
      if first then pure (some (44 : UInt8)) else do eat; whitespace
    | some b => if first then pure (some b) else failPeek .expectedListCommaOrEnd
    | none => failPeek .eofList
  match peek with
  | some 93 => failPeek .trailingComma
  | some _ => return true
  | none => failPeek .eofValue

/-- The next member key, or `none` at the end of the object. -/
def nextKey (first : Bool) : Parser (Option String) := do
  let peek ← do
    match ← whitespace with
    | some 125 => return none
    | some 44 =>
      if first then pure (some (44 : UInt8)) else do eat; whitespace
    | some b => if first then pure (some b) else failPeek .expectedObjectCommaOrEnd
    | none => failPeek .eofObject
  match peek with
  | some 34 => do eat; return some (← parseString)
  | some 125 => failPeek .trailingComma
  | some _ => failPeek .keyMustBeString
  | none => failPeek .eofValue

def colon : Parser Unit := do
  match ← whitespace with
  | some 58 => eat
  | some _ => failPeek .expectedColon
  | none => failPeek .eofObject

def endSeq : Parser Unit := do
  match ← whitespace with
  | some 93 => eat
  | some 44 => do
    eat
    match ← whitespace with
    | some 93 => failPeek .trailingComma
    | _ => failPeek .trailingCharacters
  | some _ => failPeek .trailingCharacters
  | none => failPeek .eofList

def endMap : Parser Unit := do
  match ← whitespace with
  | some 125 => eat
  | some 44 => failPeek .trailingComma
  | some _ => failPeek .trailingCharacters
  | none => failPeek .eofObject

/-- Reads the value that stands where a value of another kind was expected, and refuses it. -/
def refuse {α : Type} (expected : String) : Parser α := fixPosition do
  let b := (← peekByte).getD 0
  let err ←
    if b = 110 then do eat; parseIdent [117, 108, 108]; pure (invalidType .unit expected)
    else if b = 116 then do eat; parseIdent [114, 117, 101]; pure (invalidType (.bool true) expected)
    else if b = 102 then do
      eat; parseIdent [97, 108, 115, 101]; pure (invalidType (.bool false) expected)
    else if b = 45 then do eat; pure (invalidType (← parseInteger false).unexpected expected)
    else if 48 ≤ b.toNat ∧ b.toNat ≤ 57 then do
      pure (invalidType (← parseInteger true).unexpected expected)
    else if b = 34 then do eat; pure (invalidType (.str (← parseString)) expected)
    else if b = 91 then pure (invalidType .seq expected)
    else if b = 123 then pure (invalidType .map expected)
    else failPeek .expectedValue
  throw err

def readText : Parser String := fixPosition do
  match ← whitespace with
  | none => failPeek .eofValue
  | some 34 => do eat; parseString
  | some _ => refuse "a string"

def readBool : Parser Bool := fixPosition do
  match ← whitespace with
  | none => failPeek .eofValue
  | some 116 => do eat; parseIdent [114, 117, 101]; return true
  | some 102 => do eat; parseIdent [97, 108, 115, 101]; return false
  | some _ => refuse "a boolean"

def readU64 : Parser Nat := fixPosition do
  let visit (n : Number) : Parser Nat :=
    match n with
    | .unsigned v => return v
    | .negative i => throw (invalidValue (.signed i) "u64")
    | .double f => throw (invalidType (.float f) "u64")
  match ← whitespace with
  | none => failPeek .eofValue
  | some 45 => do eat; visit (← parseInteger false)
  | some b =>
    if 48 ≤ b.toNat ∧ b.toNat ≤ 57 then do visit (← parseInteger true)
    else refuse "u64"

/-- An optional value: `null` is none. -/
def readOption {α : Type} (inner : Parser α) : Parser (Option α) := do
  match ← whitespace with
  | some 110 => do eat; parseIdent [117, 108, 108]; return none
  | _ => return some (← inner)

/-- Array elements, each read by `elem`. -/
def readElements {α : Type} (elem : Parser α) : Nat → Bool → Parser (List α)
  | 0, _ => return []
  | fuel + 1, first => do
    if ← nextElement first then
      let x ← elem
      return x :: (← readElements elem fuel false)
    else return []

/-- A sequence of values, each read by `elem`. -/
def readSeq {α : Type} (elem : Parser α) : Parser (List α) := fixPosition do
  match ← whitespace with
  | none => failPeek .eofValue
  | some 91 => nested do
    eat
    withEnd (do readElements elem ((← get).rest.length + 1) true) endSeq
  | some _ => refuse "a sequence"

/-- Map members, each value read by `value` and inserted; a key given again replaces its value in
place. -/
def readEntries {α : Type} (value : Parser α) : Nat → Bool → List (String × α) →
    Parser (List (String × α))
  | 0, _, acc => return acc
  | fuel + 1, first, acc => do
    match ← nextKey first with
    | none => return acc
    | some k =>
      colon
      let v ← value
      let acc := if acc.any (·.1 == k) then acc.map (fun p => if p.1 == k then (k, v) else p)
        else acc ++ [(k, v)]
      readEntries value fuel false acc

/-- A map from text keys, in first-insertion order. -/
def readMap {α : Type} (value : Parser α) : Parser (List (String × α)) := fixPosition do
  match ← whitespace with
  | none => failPeek .eofValue
  | some 123 => nested do
    eat
    withEnd (do readEntries value ((← get).rest.length + 1) true []) endMap
  | some _ => refuse "a map"

/-! ## Records -/

/-- One member of a record schema, read into a partial record `σ`. -/
structure Member (σ : Type) where
  key : String
  /-- The member has no default: an array form must give it. -/
  required : Bool
  /-- The member was already given. -/
  present : σ → Bool
  /-- Reads the member's value into the partial record. -/
  read : σ → Parser σ

def readMembers {σ : Type} (members : List (Member σ)) : Nat → Bool → σ → Parser σ
  | 0, _, s => return s
  | fuel + 1, first, s => do
    match ← nextKey first with
    | none => return s
    | some k =>
      match members.find? (·.key == k) with
      | some m =>
        if m.present s then throw (duplicateField k)
        colon
        let s ← m.read s
        readMembers members fuel false s
      | none =>
        colon
        skipValue
        readMembers members fuel false s

/-- Reads array elements into a partial record, member after member. -/
def readPositional {σ : Type} (expecting : String) : List (Member σ) → Nat → Bool → σ → Parser σ
  | [], _, _, s => return s
  | m :: rest, i, first, s => do
    if ← nextElement first then
      let s ← m.read s
      readPositional expecting rest (i + 1) false s
    else if m.required then throw (invalidLength i expecting)
    else readPositional expecting rest (i + 1) false s

/-- A record named `name` with these members, completed by `finish`. -/
def readRecord {σ α : Type} (name : String) (members : List (Member σ)) (init : σ)
    (finish : σ → Except JsonError α) : Parser α := fixPosition do
  match ← whitespace with
  | none => failPeek .eofValue
  | some 123 => nested do
    eat
    withEnd (do
      let s ← readMembers members ((← get).rest.length + 1) true init
      match finish s with
      | .ok v => pure v
      | .error e => throw e) endMap
  | some 91 => nested do
    eat
    let expecting := "struct " ++ name ++ " with " ++ toString members.length ++ " elements"
    withEnd (do
      let s ← readPositional expecting members 0 true init
      match finish s with
      | .ok v => pure v
      | .error e => throw e) endSeq
  | some _ => refuse ("struct " ++ name)

/-- A required member's value, or the fault that it is missing. -/
def required {α : Type} (key : String) : Option α → Except JsonError α
  | some v => .ok v
  | none => .error (missingField key)

/-! ## Buffered values -/

/-- A whole JSON value kept for later. -/
inductive Content where
  | unit
  | bool (b : Bool)
  | unsigned (n : Nat)
  | negative (i : Int)
  | double (f : Float)
  | str (s : String)
  | seq (items : List Content)
  /-- A mapping's entries in order; a key may be any value. -/
  | map (entries : List (Content × Content))
  /-- A scalar kept only by how a fault names it. -/
  | other (text : String)
  deriving Inhabited

/-- How a buffered value is named in a fault. -/
def Content.unexpected : Content → Unexpected
  | .unit => .unit
  | .bool b => .bool b
  | .unsigned n => .unsigned n
  | .negative i => .signed i
  | .double f => .float f
  | .str s => .str s
  | .seq _ => .seq
  | .map _ => .map
  | .other t => .other t

def Number.toContent : Number → Content
  | .unsigned n => .unsigned n
  | .negative i => .negative i
  | .double f => .double f

mutual

def readContent : Nat → Parser Content
  | 0 => failPeek .recursionLimit
  | fuel + 1 => fixPosition do
    match ← whitespace with
    | none => failPeek .eofValue
    | some b =>
      if b = 110 then do eat; parseIdent [117, 108, 108]; return .unit
      else if b = 116 then do eat; parseIdent [114, 117, 101]; return .bool true
      else if b = 102 then do eat; parseIdent [97, 108, 115, 101]; return .bool false
      else if b = 45 then do eat; return (← parseInteger false).toContent
      else if 48 ≤ b.toNat ∧ b.toNat ≤ 57 then return (← parseInteger true).toContent
      else if b = 34 then do eat; return .str (← parseString)
      else if b = 91 then nested do
        eat
        withEnd (do return .seq (← readContentItems fuel true)) endSeq
      else if b = 123 then nested do
        eat
        withEnd (do return .map (← readContentEntries fuel true)) endMap
      else failPeek .expectedValue

def readContentItems : Nat → Bool → Parser (List Content)
  | 0, _ => return []
  | fuel + 1, first => do
    if ← nextElement first then
      let x ← readContent fuel
      return x :: (← readContentItems fuel false)
    else return []

def readContentEntries : Nat → Bool → Parser (List (Content × Content))
  | 0, _ => return []
  | fuel + 1, first => do
    match ← nextKey first with
    | none => return []
    | some k =>
      colon
      let v ← readContent fuel
      return (.str k, v) :: (← readContentEntries fuel false)

end

/-- Reads any value into a buffer, with fuel enough for the text left. -/
def readAny : Parser Content := do
  readContent (2 * (← get).rest.length + 2)

/-! ## Decoding buffered values -/

/-- Decoding a buffered value: faults have no place. -/
abbrev Decode (α : Type) := Content → Except JsonError α

def Content.text : Decode String
  | .str s => .ok s
  | c => .error (invalidType c.unexpected "a string")

def Content.boolean : Decode Bool
  | .bool b => .ok b
  | c => .error (invalidType c.unexpected "a boolean")

def Content.u64 : Decode Nat
  | .unsigned n => .ok n
  | .negative i => .error (invalidValue (.signed i) "u64")
  | c => .error (invalidType c.unexpected "u64")

/-- The count of elements an array form was expected to have. -/
def elementsExpected (n : Nat) : String :=
  if n = 1 then "1 element in sequence" else toString n ++ " elements in sequence"

def Content.list {α : Type} (elem : Decode α) : Decode (List α)
  | .seq items => items.mapM elem
  | c => .error (invalidType c.unexpected "a sequence")

/-- One member of a record schema decoded from buffers. -/
structure BufferedMember (σ : Type) where
  key : String
  required : Bool
  present : σ → Bool
  read : σ → Content → Except JsonError σ

/-- The member a buffered key names: a string names the member of that key, an unsigned
integer the member at that position (none past the last); any other key is refused. -/
def memberOf {σ : Type} (members : List (BufferedMember σ)) :
    Content → Except JsonError (Option (BufferedMember σ))
  | .str k => .ok (members.find? (·.key == k))
  | .unsigned n => .ok members[n]?
  | c => .error (invalidType c.unexpected "field identifier")

def decodeMembers {σ : Type} (members : List (BufferedMember σ)) :
    List (Content × Content) → σ → Except JsonError σ
  | [], s => .ok s
  | (k, v) :: rest, s => do
    match ← memberOf members k with
    | some m =>
      if m.present s then .error (duplicateField m.key)
      else decodeMembers members rest (← m.read s v)
    | none => decodeMembers members rest s

/-- Decodes buffered array elements into a partial record, member after member; elements left
over are refused. -/
def decodePositional {σ : Type} (expecting : String) :
    List (BufferedMember σ) → Nat → List Content → σ → Except JsonError σ
  | [], i, items, s =>
    if items.isEmpty then .ok s else .error (invalidLength (i + items.length) (elementsExpected i))
  | m :: rest, i, items, s =>
    match items with
    | x :: xs => do decodePositional expecting rest (i + 1) xs (← m.read s x)
    | [] =>
      if m.required then .error (invalidLength i expecting)
      else decodePositional expecting rest (i + 1) [] s

/-- A buffered record named `name` with these members, completed by `finish`. -/
def Content.record {σ α : Type} (name : String) (members : List (BufferedMember σ)) (init : σ)
    (finish : σ → Except JsonError α) : Decode α
  | .map entries => do finish (← decodeMembers members entries init)
  | .seq items => do
    let expecting := "struct " ++ name ++ " with " ++ toString members.length ++ " elements"
    finish (← decodePositional expecting members 0 items init)
  | c => .error (invalidType c.unexpected ("struct " ++ name))

end ContractAbi.Json
