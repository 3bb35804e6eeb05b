/-!
# Primitive wire types

The twelve primitive types of a contract ABI, with the keyword that names each in a type
expression, the tag it carries in serialized models, its nested width and whether bindings
declare it as a named alias.

Main statement: every primitive is found again from its keyword (`ofKeyword?_keyword`).
-/

namespace ContractAbi

/-- A primitive wire type. -/
inductive Primitive where
  | bool
  | u8
  | u16
  | u32
  | u64
  | bigUint
  | bigInt
  | bytes
  | utf8String
  | address
  | tokenIdentifier
  | egldOrEsdtTokenIdentifier
  deriving DecidableEq, Repr, Inhabited

namespace Primitive

def all : List Primitive :=
  [bool, u8, u16, u32, u64, bigUint, bigInt, bytes, utf8String, address, tokenIdentifier,
    egldOrEsdtTokenIdentifier]

/-- The keyword that names a primitive in a type expression. -/
def keyword : Primitive → String
  | bool => "bool"
  | u8 => "u8"
  | u16 => "u16"
  | u32 => "u32"
  | u64 => "u64"
  | bigUint => "BigUint"
  | bigInt => "BigInt"
  | bytes => "bytes"
  | utf8String => "utf-8 string"
  | address => "Address"
  | tokenIdentifier => "TokenIdentifier"
  | egldOrEsdtTokenIdentifier => "EgldOrEsdtTokenIdentifier"

/-- The tag of a primitive in serialized models: its name in kebab case. -/
def tag : Primitive → String
  | bool => "bool"
  | u8 => "u8"
  | u16 => "u16"
  | u32 => "u32"
  | u64 => "u64"
  | bigUint => "big-uint"
  | bigInt => "big-int"
  | bytes => "bytes"
  | utf8String => "utf8-string"
  | address => "address"
  | tokenIdentifier => "token-identifier"
  | egldOrEsdtTokenIdentifier => "egld-or-esdt-token-identifier"

def ofKeyword? (s : String) : Option Primitive :=
  all.find? (·.keyword == s)

/-- Addresses and token identifiers are declared once per bindings file as named aliases. -/
def isCustomAlias : Primitive → Bool
  | address | tokenIdentifier | egldOrEsdtTokenIdentifier => true
  | _ => false

/-- Width in bytes of the nested encoding; `none` for length-prefixed kinds. -/
def fixedWidth : Primitive → Option Nat
  | bool | u8 => some 1
  | u16 => some 2
  | u32 => some 4
  | u64 => some 8
  | address => some 32
  | _ => none

/-- The position of a primitive in declaration order, which orders alias lists. -/
def index (p : Primitive) : Nat :=
  all.idxOf p

theorem ofKeyword?_keyword (p : Primitive) : ofKeyword? p.keyword = some p := by
  cases p <;> rfl

end Primitive

end ContractAbi
