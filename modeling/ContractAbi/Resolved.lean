import ContractAbi.Primitive
import ContractAbi.Json
import ContractAbi.OrderedMap

/-!
# Resolved types and the catalog

A type expression resolved against a document: a primitive, a declared record or enum, a list,
a simple variadic, or a composite. Composites are the anonymous `multi<...>`, `tuple<...>` and
`variadic<multi<...>>` forms; each carries the synthetic name it was registered under and its
member types.

Every resolved type prints back as a type expression (`display`): keywords for primitives,
names for declared types, `List<T>`, `variadic<T>`, `variadic<multi<A,B>>`, `multi<A,B>` and
`tuple<A,B>`, with members joined by a bare comma.

The catalog holds every declaration one resolution produced: records and enums in document
order, then composites in registration order, each member of a composite named `var0`,
`var1`, ….
-/

namespace ContractAbi

/-- A type expression resolved against a document. -/
inductive ResolvedType where
  | primitive (p : Primitive)
  /-- A declared struct. -/
  | record (name : String)
  /-- A declared enum. -/
  | enum (name : String)
  | list (inner : ResolvedType)
  /-- `variadic<T>`: one value per remaining slot. -/
  | variadic (inner : ResolvedType)
  /-- `variadic<multi<...>>`: repeating groups of slots. -/
  | multiVariadic (name : String) (members : List ResolvedType)
  /-- `multi<...>`: one group of slots. -/
  | multi (name : String) (members : List ResolvedType)
  /-- `tuple<...>`: members laid out one after the other in one value. -/
  | tuple (name : String) (members : List ResolvedType)
  deriving Inhabited

namespace ResolvedType

mutual

def beq : ResolvedType → ResolvedType → Bool
  | .primitive p, .primitive q => p == q
  | .record a, .record b => a == b
  | .enum a, .enum b => a == b
  | .list a, .list b => beq a b
  | .variadic a, .variadic b => beq a b
  | .multiVariadic n xs, .multiVariadic m ys => n == m && beqList xs ys
  | .multi n xs, .multi m ys => n == m && beqList xs ys
  | .tuple n xs, .tuple m ys => n == m && beqList xs ys
  | _, _ => false

def beqList : List ResolvedType → List ResolvedType → Bool
  | [], [] => true
  | x :: xs, y :: ys => beq x y && beqList xs ys
  | _, _ => false

end

instance : BEq ResolvedType := ⟨beq⟩

mutual

def display : ResolvedType → String
  | .primitive p => p.keyword
  | .record n => n
  | .enum n => n
  | .list i => "List<" ++ display i ++ ">"
  | .variadic i => "variadic<" ++ display i ++ ">"
  | .multiVariadic _ ms => "variadic<multi<" ++ displayList ms ++ ">>"
  | .multi _ ms => "multi<" ++ displayList ms ++ ">"
  | .tuple _ ms => "tuple<" ++ displayList ms ++ ">"

def displayList : List ResolvedType → String
  | [] => ""
  | [x] => display x
  | x :: xs => display x ++ "," ++ displayList xs

end

mutual

/-- The nesting depth of a type: one for a leaf. -/
def depth : ResolvedType → Nat
  | .list i | .variadic i => depth i + 1
  | .multiVariadic _ ms | .multi _ ms | .tuple _ ms => depthList ms + 1
  | _ => 1

def depthList : List ResolvedType → Nat
  | [] => 0
  | x :: xs => max (depth x) (depthList xs)

end

/-- Named records and tuples: values laid out field after field. -/
def isRecordLike : ResolvedType → Bool
  | .record _ | .tuple .. => true
  | _ => false

/-- Types that decode from exactly one whole slot. -/
def isTopDecodable : ResolvedType → Bool
  | .primitive _ | .record _ | .enum _ | .tuple .. => true
  | _ => false

/-- Multi-value types spread one logical value over several slots. -/
def isMultiValue : ResolvedType → Bool
  | .variadic _ | .multiVariadic .. | .multi .. => true
  | _ => false

def composite? : ResolvedType → Option (String × List ResolvedType)
  | .multiVariadic n ms | .multi n ms | .tuple n ms => some (n, ms)
  | _ => none

mutual

/-- The serialized form of a resolved type, tagged by `kind`. -/
def toJson : ResolvedType → Json
  | .primitive p => .obj [("kind", .str "primitive"), ("primitive", .str p.tag)]
  | .record n => .obj [("kind", .str "named-record"), ("name", .str n)]
  | .enum n => .obj [("kind", .str "named-enum"), ("name", .str n)]
  | .list i => .obj [("kind", .str "list"), ("inner", toJson i)]
  | .variadic i => .obj [("kind", .str "simple-variadic"), ("inner", toJson i)]
  | .multiVariadic n ms => .obj [("kind", .str "multi-variadic"), ("composite", compositeJson n ms)]
  | .multi n ms => .obj [("kind", .str "multi"), ("composite", compositeJson n ms)]
  | .tuple n ms => .obj [("kind", .str "tuple"), ("composite", compositeJson n ms)]

/-- A composite reference: its name and members. -/
def compositeJson (n : String) (ms : List ResolvedType) : Json :=
  .obj [("name", .str n), ("members", .arr (toJsonList ms))]

def toJsonList : List ResolvedType → List Json
  | [] => []
  | x :: xs => toJson x :: toJsonList xs

end

end ResolvedType

/-- A named, typed member of a record or composite. -/
structure Field where
  name : String
  type : ResolvedType
  deriving Inhabited

/-- An enum variant and its one-byte discriminant. -/
structure Variant where
  name : String
  discriminant : Nat
  deriving Inhabited, DecidableEq

instance : BEq Field := ⟨fun a b => a.name == b.name && a.type == b.type⟩

/-- The fields of a composite: member `i` is named `var{i}`. -/
def compositeFields (members : List ResolvedType) : List Field :=
  (List.range members.length).zip members |>.map fun (i, t) => ⟨"var" ++ toString i, t⟩

/-- Every declaration one resolution produced. -/
structure Catalog where
  records : OrderedMap (List Field) := []
  enums : OrderedMap (List Variant) := []
  composites : OrderedMap (List Field) := []
  deriving Inhabited

namespace Catalog

/-- The fields of a record-like type: a declared record or a tuple. -/
def fieldsOf? (c : Catalog) : ResolvedType → Option (List Field)
  | .record n => c.records.get? n
  | .tuple n _ => c.composites.get? n
  | _ => none

def entryCount (c : Catalog) : Nat := c.records.length + c.composites.length

/-- The greatest depth of a field type of a record or composite. -/
def depth (c : Catalog) : Nat :=
  let fieldDepth (fs : List Field) : Nat := fs.foldl (fun m f => max m f.type.depth) 0
  (c.records ++ c.composites).foldl (fun m e => max m (fieldDepth e.2)) 0

def fieldsJson (fs : List Field) : Json :=
  .arr (fs.map fun f => .obj [("name", .str f.name), ("field_type", f.type.toJson)])

def toJson (c : Catalog) : Json :=
  .obj [("records", .obj (c.records.map fun (n, fs) => (n, fieldsJson fs))),
    ("enums", .obj (c.enums.map fun (n, vs) => (n, .arr (vs.map fun v =>
      .obj [("name", .str v.name), ("discriminant", .nat v.discriminant)])))),
    ("composites", .obj (c.composites.map fun (n, fs) => (n, fieldsJson fs)))]

end Catalog

end ContractAbi
