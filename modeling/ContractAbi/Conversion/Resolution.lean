import ContractAbi.Document
import ContractAbi.TypeExpr
import ContractAbi.Strategy
import ContractAbi.Binding.RustType

/-!
# Resolving type expressions against a document

Resolution reads a type expression, looks its names up among the document's declarations and
records, in a `Context`, what bindings for it need: the big-number runtime items it uses, the
aliased primitives in first-use order, and the anonymous composites it mentions.

Composites are deduplicated by their member lists: a `tuple<...>`, `multi<...>` or
`variadic<multi<...>>` whose members equal an earlier composite's gets that composite's name.
A new composite is named `ComplexType{n}` after the registry's size, stepping to the next free
index while the name is reserved (a declared type's identifier) or already registered.

A `multi<T>` with a single member is `List<T>`, and `variadic<multi<T>>` is `variadic<T>`.

Named types resolve in document order. A struct's fields must each fit inside a record; an
enum needs at least one variant, one-byte discriminants and no discriminant twice. Last, every
record field needs a zero value. A failure stops resolution and keeps all that was resolved
before it.

Termination: every step of `resolveWith` reads a strictly shorter expression, so the length of
the expression plus one is enough fuel.
-/

namespace ContractAbi

/-- Composites deduplicated by member list, in registration order. -/
structure Registry where
  entries : OrderedMap (List Field) := []
  /-- Identifiers of declared types: composites never take one. -/
  reserved : List String := []
  deriving Inhabited

namespace Registry

/-- The synthetic composite name with index `i`. -/
def nameAt (i : Nat) : String := "ComplexType" ++ toString i

/-- A name already owned by a declared type or a registered composite. -/
def taken (r : Registry) (name : String) : Bool :=
  r.reserved.contains name || r.entries.contains name

/-- The first free synthetic name from index `i` on; the fuel is the number of taken names. -/
def freeFrom (r : Registry) : Nat → Nat → String
  | 0, i => nameAt i
  | fuel + 1, i => if r.taken (nameAt i) then r.freeFrom fuel (i + 1) else nameAt i

/-- The name of the composite with these members: an equal entry's name, or a new entry. -/
def register (r : Registry) (members : List ResolvedType) : String × Registry :=
  let fields := compositeFields members
  match r.entries.find? (fun e => e.2 == fields) with
  | some (n, _) => (n, r)
  | none =>
    let n := r.freeFrom (r.reserved.length + r.entries.length) r.entries.length
    (n, { r with entries := r.entries ++ [(n, fields)] })

def size (r : Registry) : Nat := r.entries.length

end Registry

structure Context where
  usesBigInt : Bool := false
  usesBigUint : Bool := false
  /-- Aliased primitives, in first-use order. -/
  customTypes : List Primitive := []
  composites : Registry := {}
  deriving Inhabited

namespace Context

/-- A context whose composites never take the identifier of one of the document's types. -/
def forDocument (doc : AbiDocument) : Context :=
  { composites := { reserved := doc.types.keys.map Binding.typeIdent } }

/-- The runtime items the bindings import, sorted. -/
def imports (c : Context) : List String :=
  (if c.usesBigInt then ["BigInt"] else []) ++ (if c.usesBigUint then ["BigUint"] else [])

def note (c : Context) (p : Primitive) : Context :=
  let c := if p.isCustomAlias && !c.customTypes.contains p then
    { c with customTypes := c.customTypes ++ [p] } else c
  match p with
  | .bigUint => { c with usesBigUint := true }
  | .bigInt => { c with usesBigInt := true }
  | _ => c

end Context

/-- Resolution: it may fail, and keeps what it registered before a failure. -/
abbrev Resolve := ExceptT ConversionError (StateM Context)

def registerComposite (members : List ResolvedType) : Resolve String :=
  modifyGet fun c =>
    let (n, r) := c.composites.register members
    (n, { c with composites := r })

/-- Resolves the comma-separated members of a composite expression, each with `member`. -/
def resolveMembers (member : String → Resolve ResolvedType) (inner : String) :
    Resolve (List ResolvedType) :=
  match TypeExpr.splitMembers inner with
  | .error e => throw (.unrecognizedType e.text)
  | .ok parts => parts.mapM member

/-- Resolves an expression with `fuel` levels of nesting at most. -/
def resolveWith (doc : AbiDocument) : Nat → String → Resolve ResolvedType
  | 0, e => throw (.unrecognizedType e)
  | fuel + 1, expr =>
    let members := resolveMembers (resolveWith doc fuel)
    match TypeExpr.parse expr with
    | .error e => throw (.unrecognizedType e.text)
    | .ok (.primitive p) => do
      modify (·.note p)
      return .primitive p
    | .ok (.named n) =>
      match doc.types.get? n with
      | some (.struct ..) => return .record n
      | some (.enum ..) => return .enum n
      | none => throw (.unknownType n)
    | .ok (.list i) => return .list (← resolveWith doc fuel i)
    | .ok (.variadic i) => return .variadic (← resolveWith doc fuel i)
    | .ok (.multiVariadic i) => do
      match ← members i with
      | [m] => return .variadic m
      | ms => return .multiVariadic (← registerComposite ms) ms
    | .ok (.multi i) => do
      match ← members i with
      | [m] => return .list m
      | ms => return .multi (← registerComposite ms) ms
    | .ok (.tuple i) => do
      let ms ← members i
      return .tuple (← registerComposite ms) ms

def resolve (doc : AbiDocument) (expr : String) : Resolve ResolvedType :=
  resolveWith doc (expr.length + 1) expr

/-- Resolves a struct's fields in order; each must fit inside a record. -/
def resolveFields (doc : AbiDocument) (owner : String) : List StructField → Resolve (List Field)
  | [] => return []
  | f :: fs => do
    let ty ← resolve doc f.typeExpr
    match Shape.checkNested ty with
    | .error s => throw (.unsupportedShape ("field '" ++ f.name ++ "' of '" ++ owner ++ "'") s)
    | .ok () => pure ()
    return ⟨f.name, ty⟩ :: (← resolveFields doc owner fs)

/-- Checks variants in order against the discriminants already seen. -/
def checkVariants (name : String) (seen : List Nat) :
    List EnumVariant → Except ConversionError (List Variant)
  | [] => .ok []
  | v :: vs =>
    if 256 ≤ v.discriminant then
      .error (.invalidEnum name ("discriminant " ++ toString v.discriminant ++ " of '" ++ v.name ++
        "' does not fit in one byte"))
    else if seen.contains v.discriminant then
      .error (.invalidEnum name ("discriminant " ++ toString v.discriminant ++
        " is used more than once"))
    else
      (⟨v.name, v.discriminant⟩ :: ·) <$> checkVariants name (v.discriminant :: seen) vs

/-- An enum's variants: at least one, each discriminant one byte and used once. -/
def resolveVariants (name : String) (variants : List EnumVariant) : Except ConversionError (List Variant) :=
  if variants.isEmpty then .error (.invalidEnum name "enum has no variants")
  else checkVariants name [] variants

/-- Records and enums resolved so far, in document order. -/
structure Declarations where
  records : OrderedMap (List Field) := []
  enums : OrderedMap (List Variant) := []
  deriving Inhabited

/-- The catalog of the declarations and the context's composites. -/
def Declarations.catalog (d : Declarations) (c : Context) : Catalog :=
  ⟨d.records, d.enums, c.composites.entries⟩

/-- Resolution with declarations: both are kept up to a failure. -/
abbrev Declare := ExceptT ConversionError (StateM (Declarations × Context))

/-- Runs a resolution step on the context part of the state. -/
def Declare.lift (m : Resolve α) : Declare α :=
  fun s =>
    let (r, c) := (m.run).run s.2
    (r, (s.1, c))

def declareAll (doc : AbiDocument) : List (String × TypeDefinition) → Declare Unit
  | [] => return ()
  | (name, .struct _ fields) :: rest => do
    let resolved ← Declare.lift (resolveFields doc name fields)
    modify fun (d, c) => ({ d with records := d.records.insert name resolved }, c)
    declareAll doc rest
  | (name, .enum _ variants) :: rest => do
    let resolved ← liftExcept (resolveVariants name variants)
    modify fun (d, c) => ({ d with enums := d.enums.insert name resolved }, c)
    declareAll doc rest
where
  liftExcept {α : Type} : Except ConversionError α → Declare α
    | .ok a => pure a
    | .error e => throw e

def checkZeroValues (c : Catalog) : Except ConversionError Unit :=
  c.records.forM fun (_, fs) => fs.forM fun f => (Binding.zeroValue c f.type).map fun _ => ()

/-- Resolves every named type of the document, then checks every record field's zero value. -/
def declareTypes (doc : AbiDocument) : Declare Unit := do
  declareAll doc doc.types
  let (d, c) ← get
  match checkZeroValues (d.catalog c) with
  | .ok () => return ()
  | .error e => throw e

end ContractAbi
