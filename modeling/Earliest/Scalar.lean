import Earliest.Value
import Earliest.Ieee.Text
import Earliest.Text.Hex
import Earliest.Text.Utf8

/-! Single values with their logical type. A scalar is either null or a stored
value seen through a logical type: `Scalar.stored` and `Scalar.ofValue` pass
between the two. Only text can fail to be read, when its bytes are not UTF-8. -/

namespace Earliest

inductive Scalar where
  | null
  | boolean (value : Bool)
  | int8 (value : Int8)
  | int16 (value : Int16)
  | int32 (value : Int32)
  | int64 (value : Int64)
  | float16 (value : Ieee .binary16)
  | float32 (value : Ieee .binary32)
  | float64 (value : Ieee .binary64)
  | date32 (days : Int32)
  | timestamp (unit : TimeUnit) (value : Int64)
  | utf8 (text : String)
  | binary (bytes : Bytes)
  deriving DecidableEq

namespace Scalar

@[reducible] def dataType : Scalar → DataType
  | null => .null
  | boolean _ => .boolean
  | int8 _ => .int8
  | int16 _ => .int16
  | int32 _ => .int32
  | int64 _ => .int64
  | float16 _ => .float16
  | float32 _ => .float32
  | float64 _ => .float64
  | date32 _ => .date32
  | timestamp unit _ => .timestamp unit
  | utf8 _ => .utf8
  | binary _ => .binary

def isNull : Scalar → Bool
  | null => true
  | _ => false

def text : Scalar → String
  | null => "NULL"
  | boolean v => if v then "true" else "false"
  | int8 v => toString v.toInt
  | int16 v => toString v.toInt
  | int32 v => toString v.toInt
  | int64 v => toString v.toInt
  | float16 v => v.toSingle.text
  | float32 v => v.text
  | float64 v => v.text
  | date32 v => "date(" ++ toString v.toInt ++ ")"
  | timestamp unit v => toString v.toInt ++ unit.symbol
  | utf8 s => s
  | binary bytes => "\\x" ++ Text.hex bytes

/-- Scalars of different types differ, timestamps of different units too;
floating-point numbers compare as numbers. -/
def equal : Scalar → Scalar → Bool
  | float16 x, float16 y => x.equal y
  | float32 x, float32 y => x.equal y
  | float64 x, float64 y => x.equal y
  | s, t => decide (s = t)

/-- What a column stores for the scalar; nothing for null. -/
def stored : (s : Scalar) → Option s.dataType.physical.Value
  | null => none
  | boolean v => some v
  | int8 v => some v
  | int16 v => some v
  | int32 v => some v
  | int64 v => some v
  | float16 v => some v
  | float32 v => some v
  | float64 v => some v
  | date32 v => some v
  | timestamp _ v => some v
  | utf8 s => some (Utf8.encode s)
  | binary bytes => some bytes

/-- A stored value seen through a logical type. -/
def ofValue : (t : DataType) → t.physical.Value → Except Utf8.Defect Scalar
  | .null, v => nomatch v
  | .boolean, v => .ok (.boolean v)
  | .int8, v => .ok (.int8 v)
  | .int16, v => .ok (.int16 v)
  | .int32, v => .ok (.int32 v)
  | .int64, v => .ok (.int64 v)
  | .float16, v => .ok (.float16 v)
  | .float32, v => .ok (.float32 v)
  | .float64, v => .ok (.float64 v)
  | .date32, v => .ok (.date32 v)
  | .timestamp unit, v => .ok (.timestamp unit v)
  | .utf8, v => (Utf8.decode v).map .utf8
  | .binary, v => .ok (.binary v)

end Scalar

end Earliest
