import ContractAbi.Resolved
import ContractAbi.Binding.Names

/-!
# Argument encoders in bindings

Every argument is flattened into `args`, one hex string per wire argument, in declaration
order: a scalar or enum pushes itself; a record or tuple pushes its fields one after the other;
a `multi<...>` pushes its members; a list or variadic loops over its items, one indentation
step deeper, naming the loop variable after the loop's depth.

A record that lies on a cycle of record references has no finite encoder; `encode` answers
`none` when the expansion enters a record or tuple that is already being expanded. Along one
expansion path every entered declaration is distinct, so the fuel `encodeFuel` never runs out
before that check fires.
-/

namespace ContractAbi.Binding

/-- Statements pushing the wire arguments of `expr`, with the record-like types being
expanded on `path`. -/
def encodeWith (c : Catalog) : Nat → List ResolvedType → String → ResolvedType → Nat → Nat →
    Option String
  | 0, _, _, _, _, _ => none
  | fuel + 1, path, expr, ty, level, depth =>
    let pad := "".pushn ' ' level
    let item := "item" ++ toString depth
    match ty with
    | .primitive _ | .enum _ => some (pad ++ "args.push(" ++ expr ++ ".to_wire_arg());\n")
    | .record _ | .tuple .. =>
      if path.contains ty then none
      else
        ((c.fieldsOf? ty).getD []).foldlM (fun acc f =>
          (acc ++ ·) <$> encodeWith c fuel (ty :: path) (expr ++ "." ++ fieldIdent f.name) f.type
            level depth) ""
    | .multi _ ms =>
      (List.range ms.length).zip ms |>.foldlM (fun acc (i, m) =>
        (acc ++ ·) <$> encodeWith c fuel path (expr ++ ".var" ++ toString i) m level depth) ""
    | .list i | .variadic i => do
      let body ← encodeWith c fuel path item i (level + 2) (depth + 1)
      some (pad ++ "for " ++ item ++ " in " ++ expr ++ ".iter() \x7b\n" ++ body ++ pad ++ "\x7d\n")
    | .multiVariadic _ ms => do
      let body ← (List.range ms.length).zip ms |>.foldlM (fun acc (i, m) =>
        (acc ++ ·) <$> encodeWith c fuel path (item ++ ".var" ++ toString i) m (level + 2)
          (depth + 1)) ""
      some (pad ++ "for " ++ item ++ " in " ++ expr ++ ".iter() \x7b\n" ++ body ++ pad ++ "\x7d\n")

/-- Fuel enough for any acyclic expansion: at most one entry per declaration along a path,
each followed by at most the deepest nesting. -/
def encodeFuel (c : Catalog) (ty : ResolvedType) : Nat :=
  (c.entryCount + 1) * (ty.depth + c.depth + 1) + 1

/-- Statements pushing the wire arguments of `expr` at indentation `level`; `none` when a record
on a cycle of record references is reached. -/
def encode (c : Catalog) (expr : String) (ty : ResolvedType) (level : Nat) : Option String :=
  encodeWith c (encodeFuel c ty) [] expr ty level 0

end ContractAbi.Binding
