import ContractAbi.Strategy
import ContractAbi.Binding.Names
import ContractAbi.Conversion.Error

/-!
# Output decoders in bindings

Each output of a call is read by one statement over the call's returned slots. The statement's
shape follows the output's decode strategy: a scalar reads one slot with the type's whole-slot
decoder, a self-terminating list reads records back to back from one slot, a repeating output
reads every remaining slot or group of slots, a group reads `width` slots into one composite.

Values that sit inside a record are read from a nested decoder by `nestedRead`; multi-value
shapes never pass the nested check, so for them the expression is a failing one.
-/

namespace ContractAbi.Binding

/-- The suffix of the runtime readers of a primitive. -/
def primitiveSuffix : Primitive → String
  | .bool => "bool"
  | .u8 => "u8"
  | .u16 => "u16"
  | .u32 => "u32"
  | .u64 => "u64"
  | .bigUint => "big_uint"
  | .bigInt => "big_int"
  | .bytes => "bytes"
  | .utf8String | .tokenIdentifier | .egldOrEsdtTokenIdentifier => "string"
  | .address => "address"

def unreadable (ty : ResolvedType) (r : ShapeReason) : ConversionError :=
  .unsupportedShape "generated decoder" (.at ty r)

mutual

/-- An expression reading one nested value from `decoder`. -/
def nestedRead (decoder : String) : ResolvedType → String
  | .primitive p => decoder ++ ".read_" ++ primitiveSuffix p ++ "()"
  | .record n | .enum n => typeIdent n ++ "::decode_nested(" ++ decoder ++ ")"
  | .tuple n _ => n ++ "::decode_nested(" ++ decoder ++ ")"
  | .list i => decoder ++ ".read_list(" ++ nestedItem i ++ ")"
  | ty => "Err(WireError::UnsupportedShape \x7b shape: \"" ++ ty.display ++ "\".to_string() \x7d)"

def nestedItem : ResolvedType → String
  | .record n | .enum n => typeIdent n ++ "::decode_nested"
  | .tuple n _ => n ++ "::decode_nested"
  | ty => "|item| " ++ nestedRead "item" ty

end

/-- The function decoding a value that owns a whole slot. -/
def topDecodeFn : ResolvedType → Except ConversionError String
  | .primitive p => .ok ("wire::top_decode_" ++ primitiveSuffix p)
  | .record n | .enum n => .ok (typeIdent n ++ "::top_decode")
  | .tuple n _ => .ok (n ++ "::top_decode")
  | ty => .error (unreadable ty .notOneSlot)

/-- The value of member `index` of a group of slots. -/
def groupMember (index : Nat) : ResolvedType → Except ConversionError String
  | .list i =>
    if i.isRecordLike then
      .ok ("wire::decode_self_terminating(&group[" ++ toString index ++ "], " ++ nestedItem i ++ ")")
    else (topDecodeFn (.list i)).map fun f => f ++ "(&group[" ++ toString index ++ "])?"
  | ty => (topDecodeFn ty).map fun f => f ++ "(&group[" ++ toString index ++ "])?"

/-- The members of a group, each as `var{i}: value`. -/
def groupFields (index : Nat) : List ResolvedType → Except ConversionError (List String)
  | [] => .ok []
  | m :: ms => do
    let v ← groupMember index m
    return ("var" ++ toString index ++ ": " ++ v) :: (← groupFields (index + 1) ms)

def groupConstructor (name : String) (members : List ResolvedType) : Except ConversionError String :=
  (groupFields 0 members).map fun fs => name ++ " \x7b " ++ ", ".intercalate fs ++ " \x7d"

/-- The statement `let out{index} = ...;` decoding one planned output. -/
def outputDecode (index : Nat) (ty : ResolvedType) (plan : OutputPlan) (level : Nat) :
    Except ConversionError String := do
  let slot := toString plan.firstSlot
  let value ← match plan.strategy, ty with
    | .scalar, _ => (topDecodeFn ty).map fun f => "data.scalar(" ++ slot ++ ", " ++ f ++ ")?"
    | .selfTerminating, .list i => .ok ("data.self_terminating(" ++ slot ++ ", " ++ nestedItem i ++ ")")
    | .eachSlot, .list i | .eachSlot, .variadic i =>
      (topDecodeFn i).map fun f => "data.each_slot(" ++ slot ++ ", " ++ f ++ ")"
    | .groups w, .multiVariadic n ms =>
      (groupConstructor n ms).map fun g =>
        "data.groups(" ++ slot ++ ", " ++ toString w ++ ", |group| Ok(" ++ g ++ "))"
    | .group w, .multi n ms =>
      (groupConstructor n ms).map fun g =>
        "data.group(" ++ slot ++ ", " ++ toString w ++ ", |group| Ok(" ++ g ++ "))?"
    | _, _ => .error (unreadable ty .planMismatch)
  return "".pushn ' ' level ++ "let out" ++ toString index ++ " = " ++ value ++ ";\n"

end ContractAbi.Binding
