/-! What can be wrong with an encoded intermediate state. -/

namespace Earliest.Intermediate

/-- The parts of an encoded state that a reader asks for. -/
inductive Part where
  | header
  | boolean
  | int32
  | int64
  | float32
  | float64
  | binaryLength
  | binaryValue
  deriving DecidableEq

def Part.name : Part → String
  | header => "header"
  | boolean => "bool"
  | int32 => "i32"
  | int64 => "i64"
  | float32 => "f32"
  | float64 => "f64"
  | binaryLength => "binary length"
  | binaryValue => "binary value"

inductive Defect where
  | truncated (part : Part) (needed remaining : Nat)
  | booleanByte (byte : UInt8)
  | negativeLength (length : Int)
  | flagByte (byte : UInt8)
  | trailing (count : Nat)
  deriving DecidableEq

end Earliest.Intermediate
