import ContractAbi.Json
import ContractAbi.Text.Hex

/-!
# Decoded values

A value read back from a call's return data without generated code: scalars, text, raw bytes,
enum variants, records with their fields in declaration order, and lists. Tuples and multi-value
groups are records whose fields are named `var0`, `var1`, ….
-/

namespace ContractAbi

/-- A value decoded from return data. -/
inductive Value where
  | bool (b : Bool)
  /-- `u8` to `u64`. -/
  | unsigned (n : Nat)
  /-- A big integer, signed or not. -/
  | bigInteger (i : Int)
  /-- UTF-8 text and token identifiers. -/
  | text (s : String)
  | bytes (bs : List UInt8)
  | address (bs : List UInt8)
  | enum (typeName variant : String) (discriminant : Nat)
  /-- Named records, tuples and groups, fields in order. -/
  | record (typeName : String) (fields : List (String × Value))
  | list (elements : List Value)
  deriving Inhabited

namespace Value

mutual

/-- The serialized value, tagged by `kind`. -/
def toJson : Value → Json
  | .bool b => .obj [("kind", .str "bool"), ("value", .bool b)]
  | .unsigned n => .obj [("kind", .str "unsigned"), ("value", .nat n)]
  | .bigInteger i => .obj [("kind", .str "big-integer"), ("value", .str (Json.intText i))]
  | .text s => .obj [("kind", .str "text"), ("value", .str s)]
  | .bytes bs => .obj [("kind", .str "bytes"), ("hex", .str (Text.toHex bs))]
  | .address bs => .obj [("kind", .str "address"), ("hex", .str (Text.toHex bs))]
  | .enum t v d => .obj [("kind", .str "enum"), ("type_name", .str t), ("variant", .str v),
      ("discriminant", .nat d)]
  | .record t fs => .obj [("kind", .str "record"), ("type_name", .str t), ("fields", .obj (fieldsJson fs))]
  | .list xs => .obj [("kind", .str "list"), ("elements", .arr (listJson xs))]

def fieldsJson : List (String × Value) → List (String × Json)
  | [] => []
  | (n, v) :: rest => (n, toJson v) :: fieldsJson rest

def listJson : List Value → List Json
  | [] => []
  | v :: rest => toJson v :: listJson rest

end

end Value

end ContractAbi
