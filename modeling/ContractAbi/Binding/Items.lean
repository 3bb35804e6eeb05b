import ContractAbi.Text.Blank
import ContractAbi.Strategy
import ContractAbi.Binding.RustType
import ContractAbi.Binding.Decode

/-!
# Type declarations in bindings

The items that declare types: an alias per aliased primitive in use, a struct per record or
composite, a one-byte enum per declared enum, and a struct per readonly endpoint with several
named outputs.

A record-like struct gets nested and whole-slot decoders only when every field fits inside a
record; composites built for call arguments may hold multi-value members, and get none. Every
struct and enum gets a `Default` implementation built from zero values: an enum's default is its
variant with discriminant 0, else its first.
-/

namespace ContractAbi.Binding

def line (level : Nat) (text : String) : String :=
  "".pushn ' ' level ++ text ++ "\n"

/-- Doc lines as `///` comments; a blank line is a bare `///`. -/
def docLines (docs : List String) (level : Nat) : String :=
  String.join (docs.map fun d =>
    if Text.isAllBlank d then line level "///" else line level ("/// " ++ Text.trimEnd d))

/-- `pub type Alias = Target;` for each aliased primitive in use. -/
def aliases (custom : List Primitive) : String :=
  String.join (custom.map fun p => line 0 ("pub type " ++ primitiveType p ++ " = " ++ aliasTarget p ++ ";"))

/-- Joins the results of a fallible text function over a list. -/
def joinMapM {α : Type} (f : α → Except ConversionError String) (xs : List α) :
    Except ConversionError String :=
  xs.foldlM (fun acc x => (acc ++ ·) <$> f x) ""

/-- A public function of an impl block: its name, parameters, result type and body lines. -/
structure ImplFn where
  name : String
  params : String
  result : String
  body : String

/-- The text of a function inside an impl block. -/
def ImplFn.text (f : ImplFn) : String :=
  line 2 ("pub fn " ++ f.name ++ "(" ++ f.params ++ ") -> " ++ f.result ++ " \x7b") ++ f.body ++
    line 2 "\x7d"

/-- `impl ty { ... }` holding its functions, a blank line between two. -/
def implBlock (ty : String) (fns : List ImplFn) : String :=
  line 0 ("impl " ++ ty ++ " \x7b") ++ "\n".intercalate (fns.map ImplFn.text) ++ line 0 "\x7d"

/-- The nested decoder of a record-like type, reading each field under `read_with`. -/
def decodeNestedFn (fields : List Field) : ImplFn where
  name := "decode_nested"
  params := "decoder: &mut NestedDecoder<'_>"
  result := "Result<Self, WireError>"
  body := line 4 "decoder.read_with(|decoder| \x7b" ++
    line 6 "Ok(Self \x7b" ++
    String.join (fields.map fun f => line 8 (fieldIdent f.name ++ ": " ++ nestedRead "decoder" f.type ++ "?,")) ++
    line 6 "\x7d)" ++
    line 4 "\x7d)"

/-- The whole-slot decoder of a record-like type: its nested decoder over the slot. -/
def recordTopDecodeFn : ImplFn where
  name := "top_decode"
  params := "slot: &[u8]"
  result := "Result<Self, WireError>"
  body := line 4 "wire::decode_record(slot, Self::decode_nested)"

/-- A record-like declaration: a declared struct or a composite. -/
def recordItem (name : String) (fields : List Field) (docs : List String) (c : Catalog) :
    Except ConversionError String := do
  let ty := typeIdent name
  let decl := docLines docs 0 ++ line 0 "#[derive(Debug, Clone, PartialEq, Eq)]" ++
    line 0 ("pub struct " ++ ty ++ " \x7b") ++
    String.join (fields.map fun f => line 2 ("pub " ++ fieldIdent f.name ++ ": " ++ rustType f.type ++ ",")) ++
    line 0 "\x7d" ++ "\n"
  let decoders :=
    if fields.all (fun f => (Shape.checkNested f.type).toBool) then
      implBlock ty [decodeNestedFn fields, recordTopDecodeFn] ++ "\n"
    else ""
  let zeros ← joinMapM (fun f => do
    return line 6 (fieldIdent f.name ++ ": " ++ (← zeroValue c f.type) ++ ",")) fields
  return decl ++ decoders ++
    line 0 ("impl Default for " ++ ty ++ " \x7b") ++
    line 2 "fn default() -> Self \x7b" ++
    line 4 "Self \x7b" ++ zeros ++
    line 4 "\x7d" ++
    line 2 "\x7d" ++
    line 0 "\x7d"

/-- The functions of a one-byte enum: from and to its discriminant, and its two decoders. -/
def enumFns (name : String) (variants : List Variant) : List ImplFn :=
  let ty := typeIdent name
  [{ name := "try_from_discriminant", params := "value: u8", result := "Result<Self, WireError>"
     body := line 4 "match value \x7b" ++
      String.join (variants.map fun v =>
        line 6 (toString v.discriminant ++ " => Ok(" ++ ty ++ "::" ++ typeIdent v.name ++ "),")) ++
      line 6 ("_ => Err(WireError::UnknownDiscriminant \x7b type_name: \"" ++ name ++
        "\".to_string(), value \x7d),") ++
      line 4 "\x7d" },
    { name := "discriminant", params := "self", result := "u8", body := line 4 "self as u8" },
    { name := "decode_nested", params := "decoder: &mut NestedDecoder<'_>"
      result := "Result<Self, WireError>"
      body := line 4 "decoder.read_with(|decoder| Self::try_from_discriminant(decoder.read_u8()?))" },
    { name := "top_decode", params := "slot: &[u8]", result := "Result<Self, WireError>"
      body := line 4 "Self::try_from_discriminant(wire::top_decode_u8(slot)?)" }]

/-- A one-byte enum with its decoders, default and argument encoding. -/
def enumItem (name : String) (variants : List Variant) (docs : List String) :
    Except ConversionError String := do
  let ty := typeIdent name
  let some dflt := defaultVariant variants
    | throw (.invalidEnum name "enum has no variants")
  return docLines docs 0 ++
    line 0 "#[derive(Debug, Clone, Copy, PartialEq, Eq, Hash)]" ++
    line 0 "#[repr(u8)]" ++
    line 0 ("pub enum " ++ ty ++ " \x7b") ++
    String.join (variants.map fun v =>
      line 2 (typeIdent v.name ++ " = " ++ toString v.discriminant ++ ",")) ++
    line 0 "\x7d" ++ "\n" ++
    implBlock ty (enumFns name variants) ++ "\n" ++
    line 0 ("impl Default for " ++ ty ++ " \x7b") ++
    line 2 "fn default() -> Self \x7b" ++
    line 4 (ty ++ "::" ++ typeIdent dflt.name) ++
    line 2 "\x7d" ++
    line 0 "\x7d" ++ "\n" ++
    line 0 ("impl WireArg for " ++ ty ++ " \x7b") ++
    line 2 "fn to_wire_arg(&self) -> String \x7b" ++
    line 4 "self.discriminant().to_wire_arg()" ++
    line 2 "\x7d" ++
    line 0 "\x7d"

/-- The struct returned by an endpoint with several named outputs. -/
def outputStructItem (name : String) (fields : List (String × ResolvedType)) : String :=
  line 0 "#[derive(Debug, Clone, PartialEq, Eq)]" ++
  line 0 ("pub struct " ++ name ++ " \x7b") ++
  String.join (fields.map fun (n, t) => line 2 ("pub " ++ fieldIdent n ++ ": " ++ rustType t ++ ",")) ++
  line 0 "\x7d"

end ContractAbi.Binding
