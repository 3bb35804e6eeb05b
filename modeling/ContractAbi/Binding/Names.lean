/-!
# Identifiers of generated bindings

Bindings are Rust source, so names from an ABI become Rust identifiers: snake case for fields,
methods and parameters, Pascal case for generated types, and an escape for keywords. Case
changes touch ASCII letters only; every other character is kept as it is.

- A keyword that may be written raw becomes `r#kw`; `self`, `Self`, `super` and `crate`, which
  may not, get a trailing underscore; an empty name or one that starts with an ASCII digit gets a
  leading underscore.
- Snake case turns `-`, space and `_` into one `_` (none at the start, never two in a row), and
  starts a new word before an uppercase letter that follows a lowercase letter or a digit, or
  that ends a run of capitals before a lowercase letter (`XMLHttp` is `xml_http`).
- Pascal case splits at `_`, `-` and space, drops empty parts and capitalizes the first letter
  of each part.
-/

namespace ContractAbi.Binding

/-- Keywords that are written `r#kw` when used as identifiers. -/
def rawKeywords : List String :=
  ["as", "break", "const", "continue", "else", "enum", "extern", "false", "fn", "for", "if",
    "impl", "in", "let", "loop", "match", "mod", "move", "mut", "pub", "ref", "return", "static",
    "struct", "trait", "true", "type", "unsafe", "use", "where", "while", "async", "await", "dyn",
    "abstract", "become", "box", "do", "final", "macro", "override", "priv", "typeof", "unsized",
    "virtual", "yield", "try", "gen"]

/-- Keywords that cannot be raw identifiers. -/
def pathKeywords : List String := ["self", "Self", "super", "crate"]

def escapeKeyword (name : String) : String :=
  if pathKeywords.contains name then name ++ "_"
  else if rawKeywords.contains name then "r#" ++ name
  else
    match name.toList with
    | [] => "_"
    | c :: _ => if c.isDigit then "_" ++ name else name

def isSeparator (c : Char) : Bool := c = '-' || c = ' ' || c = '_'

/-- Appends `_` unless the output is empty or already ends with one; `out` is reversed. -/
def pushBreak (out : List Char) : List Char :=
  match out with
  | [] => []
  | '_' :: _ => out
  | _ => '_' :: out

/-- Snake case of the characters after `prev`, appended to the reversed output `out`. -/
def snakeAux : Option Char → List Char → List Char → List Char
  | _, out, [] => out
  | prev, out, c :: rest =>
    if isSeparator c then snakeAux (some c) (pushBreak out) rest
    else
      let boundary :=
        match prev with
        | none => false
        | some p =>
          c.isUpper &&
            (p.isLower || p.isDigit ||
              (p.isUpper && (match rest with | n :: _ => n.isLower | [] => false)))
      let out := if boundary then pushBreak out else out
      snakeAux (some c) (c.toLower :: out) rest

/-- `getUserUndelegations` is `get_user_undelegations`, `getEGLDReserve` is
`get_egld_reserve`. -/
def snakeCase (name : String) : String :=
  String.ofList (snakeAux none [] name.toList).reverse

/-- Capitalizes the first character of a part, if it is an ASCII letter. -/
def capitalize (part : List Char) : List Char :=
  match part with
  | [] => []
  | c :: rest => c.toUpper :: rest

/-- `unbond_epoch` is `UnbondEpoch`. -/
def pascalCase (name : String) : String :=
  let parts := name.toList.splitBy (fun a b => !isSeparator a && !isSeparator b)
  String.ofList ((parts.filter fun p => !p.all isSeparator).flatMap capitalize)

/-- The first character in lowercase, if it is an ASCII letter. -/
def lowerFirst (name : String) : String :=
  match name.toList with
  | [] => ""
  | c :: rest => String.ofList (c.toLower :: rest)

/-- The identifier of a field or local: snake case, escaped. -/
def fieldIdent (name : String) : String :=
  escapeKeyword (snakeCase name)

/-- The identifier of a declared type: the name itself, escaped. -/
def typeIdent (name : String) : String :=
  escapeKeyword name

/-- Method names the generated accessor defines itself. -/
def accessorMethods : List String := ["new", "transport", "contract_address"]

/-- The method of an endpoint: snake case, moved aside when it would clash with an accessor
method. -/
def methodName (endpoint : String) : String :=
  let snake := snakeCase endpoint
  if accessorMethods.contains snake then snake ++ "_endpoint" else escapeKeyword snake

/-- Names that generated method bodies use for their own locals. -/
def bodyLocals : List String := ["options", "payment", "args", "slots", "data", "outcome"]

/-- A local of the form `out` followed by at least one digit. -/
def isOutputLocal (ident : String) : Bool :=
  match ident.toList with
  | 'o' :: 'u' :: 't' :: d :: ds => (d :: ds).all Char.isDigit
  | _ => false

/-- The identifier of a parameter, moved aside when it would clash with a body local. -/
def paramIdent (name : String) : String :=
  let ident := fieldIdent name
  if bodyLocals.contains ident || isOutputLocal ident then ident ++ "_arg" else ident

end ContractAbi.Binding
