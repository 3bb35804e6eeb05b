import ContractAbi.Conversion.Endpoint
import ContractAbi.Binding.Items
import ContractAbi.Binding.Encode

/-!
# Accessor methods

One method per endpoint. Readonly endpoints query the contract and decode each output by its
plan; the result is the single output, a tuple of the outputs, or the output struct when every
output is named. Mutable endpoints send a call request and return the transaction hash; they
take call options and, when they accept tokens other than the native one, a token payment.

Every input is flattened into `args` by its encoder. A method documents that only the owner may
call it, after its own docs.
-/

namespace ContractAbi.Binding

def returnType (e : Endpoint) : String :=
  match e.kind with
  | .mutable => "String"
  | .readonly =>
    match e.outputs with
    | [] => "()"
    | [single] => rustType single.type
    | many =>
      if e.hasNamedOutputs then e.outputStructName
      else "(" ++ ", ".intercalate (many.map (rustType ·.type)) ++ ")"

def returnValue (e : Endpoint) : String :=
  match e.outputs with
  | [] => "()"
  | [_] => "out0"
  | many =>
    let numbered := (List.range many.length).zip many
    if e.hasNamedOutputs then
      e.outputStructName ++ " \x7b " ++ ", ".intercalate (numbered.map fun (i, o) =>
        fieldIdent (o.name.getD "") ++ ": out" ++ toString i) ++ " \x7d"
    else "(" ++ ", ".intercalate (numbered.map fun (i, _) => "out" ++ toString i) ++ ")"

/-- The statements decoding a readonly endpoint's outputs by their plans. -/
def outputDecoders (e : Endpoint) : Except ConversionError String :=
  joinMapM (fun (i, o, p) => outputDecode i o.type p 4)
    ((List.range e.outputs.length).zip (e.outputs.zip e.plans))

/-- The statements pushing one input into `args`; an input reaching a record on a cycle of record
references has none. -/
def inputPushes (c : Catalog) (i : Input) : Except ConversionError String :=
  match encode c (paramIdent i.name) i.type 4 with
  | some s => .ok s
  | none => .error (.unboundedEncoder i.type.display)

/-- The statements building `args`: none without inputs, else a new vector and the pushes of
each input. -/
def argsBlock (c : Catalog) (inputs : List Input) : Except ConversionError String :=
  if inputs.isEmpty then pure ""
  else (line 4 "let mut args: Vec<String> = Vec::new();" ++ ·) <$> joinMapM (inputPushes c) inputs

def methodItem (e : Endpoint) (c : Catalog) : Except ConversionError String := do
  let owner :=
    if e.onlyOwner then
      (if e.docs.isEmpty then "" else line 2 "///") ++
        line 2 "/// Only the contract owner may call this endpoint."
    else ""
  let callParams :=
    if e.kind == .mutable then
      ["options: &CallOptions"] ++ (if e.acceptsTokenPayment then ["payment: Option<&TokenPayment>"] else [])
    else []
  let params := ["&self"] ++ callParams ++ e.inputs.map fun i => paramIdent i.name ++ ": " ++ paramType i.type
  let signature := line 2 ("pub fn " ++ e.methodName ++ "(" ++ ", ".intercalate params ++
    ") -> Result<" ++ returnType e ++ ", BindingError> \x7b")
  let hasArgs := !e.inputs.isEmpty
  let args ← argsBlock c e.inputs
  let body ← match e.kind with
    | .readonly => do
      let argsExpr := if hasArgs then "&args" else "&[]"
      let query := "self.transport.query(&self.contract_address, \"" ++ e.name ++ "\", " ++ argsExpr ++ ")?;"
      let reads ←
        if e.outputs.isEmpty then pure (line 4 query)
        else do
          let decoders ← outputDecoders e
          pure (line 4 ("let slots = " ++ query) ++
            line 4 ("let data = ReturnData::new(\"" ++ e.name ++ "\", &slots);") ++ decoders)
      pure (reads ++ line 4 ("Ok(" ++ returnValue e ++ ")"))
    | .mutable =>
      pure (line 4 "let outcome = self.transport.call(CallRequest \x7b" ++
        line 6 "contract_address: &self.contract_address," ++
        line 6 ("endpoint: \"" ++ e.name ++ "\",") ++
        line 6 ("args: " ++ (if hasArgs then "args" else "Vec::new()") ++ ",") ++
        line 6 "options," ++
        line 6 ((if e.acceptsTokenPayment then "payment" else "payment: None") ++ ",") ++
        line 4 "\x7d)?;" ++
        line 4 ("outcome.into_result(\"" ++ e.name ++ "\")"))
  return docLines e.docs 2 ++ owner ++ signature ++ args ++ body ++ line 2 "\x7d"

end ContractAbi.Binding
