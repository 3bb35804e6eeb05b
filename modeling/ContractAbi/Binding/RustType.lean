import ContractAbi.Resolved
import ContractAbi.Binding.Names
import ContractAbi.Conversion.Error

/-!
# Rust types of resolved types

How a resolved type is spelled in bindings: the owned type of a field or result, the type of a
parameter (small copyable values by value, the rest borrowed), and the zero value every
`Default` implementation is built from. Address and token identifiers are spelled by their alias;
composites by their synthetic name.

A declared enum's zero value is its variant with discriminant 0, or else its first variant; an
enum with no variants has none, which is a conversion failure.
-/

namespace ContractAbi.Binding

/-- The name of a primitive in bindings; aliases use their alias. -/
def primitiveType : Primitive → String
  | .bool => "bool"
  | .u8 => "u8"
  | .u16 => "u16"
  | .u32 => "u32"
  | .u64 => "u64"
  | .bigUint => "BigUint"
  | .bigInt => "BigInt"
  | .bytes => "Vec<u8>"
  | .utf8String => "String"
  | .address => "Address"
  | .tokenIdentifier => "TokenIdentifier"
  | .egldOrEsdtTokenIdentifier => "EgldOrEsdtTokenIdentifier"

def aliasTarget : Primitive → String
  | .address => "[u8; 32]"
  | _ => "String"

def rustType : ResolvedType → String
  | .primitive p => primitiveType p
  | .record n | .enum n => typeIdent n
  | .list i | .variadic i => "Vec<" ++ rustType i ++ ">"
  | .multiVariadic n _ => "Vec<" ++ n ++ ">"
  | .multi n _ | .tuple n _ => n

def paramType : ResolvedType → String
  | .primitive p =>
    match p with
    | .bool | .u8 | .u16 | .u32 | .u64 => primitiveType p
    | .utf8String | .tokenIdentifier | .egldOrEsdtTokenIdentifier => "&str"
    | .bytes => "&[u8]"
    | .bigUint | .bigInt | .address => "&" ++ primitiveType p
  | .enum n => typeIdent n
  | .record n => "&" ++ typeIdent n
  | .multi n _ | .tuple n _ => "&" ++ n
  | .list i | .variadic i => "&[" ++ rustType i ++ "]"
  | .multiVariadic n _ => "&[" ++ n ++ "]"

/-- The variant a `Default` implementation picks: discriminant 0 if declared, else the first. -/
def defaultVariant (variants : List Variant) : Option Variant :=
  (variants.find? (·.discriminant == 0)).or variants.head?

/-- The zero value of a type as a Rust expression. -/
def zeroValue (c : Catalog) : ResolvedType → Except ConversionError String
  | .primitive p =>
    .ok (match p with
      | .bool => "false"
      | .u8 | .u16 | .u32 | .u64 => "0"
      | .bigUint => "BigUint::default()"
      | .bigInt => "BigInt::default()"
      | .bytes => "Vec::new()"
      | .utf8String | .tokenIdentifier | .egldOrEsdtTokenIdentifier => "String::new()"
      | .address => "[0u8; 32]")
  | .enum n =>
    match defaultVariant ((c.enums.get? n).getD []) with
    | some v => .ok (typeIdent n ++ "::" ++ typeIdent v.name)
    | none => .error (.invalidEnum n "enum has no variants")
  | ty@(.record _) | ty@(.tuple ..) | ty@(.multi ..) => .ok (rustType ty ++ "::default()")
  | .list _ | .variadic _ | .multiVariadic .. => .ok "Vec::new()"

end ContractAbi.Binding
