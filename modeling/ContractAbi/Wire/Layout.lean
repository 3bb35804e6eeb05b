import ContractAbi.Wire.Decoder

/-!
# Layouts of nested data

A layout says what a run of nested bytes holds: a scalar of some kind, a count-prefixed list of
one layout, or a record of several layouts one after the other. Decoding a layout gives a datum
of the same shape. A record is read under `readWith`: when one of its fields fails, nothing of
it is taken.
-/

namespace ContractAbi.Wire

/-- What a run of nested bytes holds. -/
inductive Layout where
  | scalar (k : Kind)
  | list (item : Layout)
  | record (fields : List Layout)
  deriving Inhabited

/-- A value read from the wire, before any type gives it a name. -/
inductive Datum where
  | bool (b : Bool)
  | unsigned (n : Nat)
  | integer (i : Int)
  | text (s : String)
  /-- Raw bytes: byte strings and addresses. -/
  | bytes (bs : List UInt8)
  /-- The items of a list, or the fields of a record. -/
  | seq (items : List Datum)
  deriving Inhabited

namespace NestedDecoder

def decodeKind : Kind → Decode Datum
  | .bool => .bool <$> readBool
  | .u8 => (fun b => .unsigned b.toNat) <$> readU8
  | .u16 => .unsigned <$> readUnsigned 2
  | .u32 => .unsigned <$> readUnsigned 4
  | .u64 => .unsigned <$> readUnsigned 8
  | .bigUint => (fun n => .integer (Int.ofNat n)) <$> readBigUint
  | .bigInt => .integer <$> readBigInt
  | .bytes => .bytes <$> readBytes
  | .string => .text <$> readString
  | .address => .bytes <$> readAddress

end NestedDecoder

mutual

def Layout.decode : Layout → Decode Datum
  | .scalar k => NestedDecoder.decodeKind k
  | .list item => .seq <$> NestedDecoder.readList item.decode
  | .record fields => .seq <$> NestedDecoder.readWith (Layout.decodeFields fields)

def Layout.decodeFields : List Layout → Decode (List Datum)
  | [] => pure []
  | l :: rest => do
    let d ← l.decode
    (d :: ·) <$> Layout.decodeFields rest

end

end ContractAbi.Wire
