import ContractAbi.Wire.Basic
import ContractAbi.Text.Hex
import ContractAbi.Text.Utf8

/-!
# Call arguments

Arguments travel as hexadecimal text. Fixed-width integers keep their full width; a boolean is
one byte; big integers are minimal, zero being the empty argument, and signed ones are in two's
complement; text is its UTF-8 bytes; bytes and addresses are themselves.
-/

namespace ContractAbi.Wire

open Text

/-- A value as one call argument. -/
inductive Arg where
  /-- An unsigned integer of the given width in bytes. -/
  | unsigned (width : Nat) (value : Nat)
  | bool (b : Bool)
  | bigUint (n : Nat)
  | bigInt (i : Int)
  | text (s : String)
  | bytes (bs : List UInt8)
  deriving DecidableEq, Repr

def Arg.bytesOf : Arg → List UInt8
  | .unsigned w v => bytesOfNatFixed w v
  | .bool b => [if b then 1 else 0]
  | .bigUint n => bytesOfNat n
  | .bigInt i => bytesOfInt i
  | .text s => encodeUtf8 s
  | .bytes bs => bs

def Arg.toHex (a : Arg) : String :=
  Text.toHex a.bytesOf

/-- A plain call's transaction data: the endpoint name and each argument after an `@`. -/
def dataField (endpoint : String) (args : List String) : String :=
  args.foldl (fun acc a => acc ++ "@" ++ a) endpoint

end ContractAbi.Wire
