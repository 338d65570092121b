import Earliest.Column.Builder

/-! Columns from whole lists of values. -/

namespace Earliest

/-- A single value of a logical type as a program holds it: text is a string, and
all else is as stored. -/
@[reducible] def DataType.Item : DataType → Type
  | .null => Empty
  | .boolean => Bool
  | .int8 => Int8
  | .int16 => Int16
  | .int32 => Int32
  | .int64 => Int64
  | .float16 => Ieee .binary16
  | .float32 => Ieee .binary32
  | .float64 => Ieee .binary64
  | .date32 => Int32
  | .timestamp _ => Int64
  | .utf8 => String
  | .binary => Bytes

def Scalar.ofItem : (t : DataType) → t.Item → Scalar
  | .null, v => nomatch v
  | .boolean, v => .boolean v
  | .int8, v => .int8 v
  | .int16, v => .int16 v
  | .int32, v => .int32 v
  | .int64, v => .int64 v
  | .float16, v => .float16 v
  | .float32, v => .float32 v
  | .float64, v => .float64 v
  | .date32, v => .date32 v
  | .timestamp unit, v => .timestamp unit v
  | .utf8, v => .utf8 v
  | .binary, v => .binary v

namespace Column

/-- Appends each scalar in turn; the first refusal is the answer. -/
def ofScalars (t : DataType) (scalars : List Scalar) : Except Fault Column :=
  Builder.column (Builder.each Builder.appendScalar scalars (.new t))

def ofItems (t : DataType) (items : List (Option t.Item)) : Except Fault Column :=
  ofScalars t (items.map fun item => (item.map (Scalar.ofItem t)).getD .null)

/-- Appends stored values of type `p`. -/
def ofStored (t : DataType) (p : Physical) (values : List (Option p.Value)) :
    Except Fault Column :=
  Builder.column (Builder.each (Builder.appendStored p) values (.new t))

/-- Every row is the given value; one row is stored. -/
def repeated (s : Scalar) (len : Nat) : Except Fault Column :=
  if s.isNull then .ok (nulls .null len)
  else (ofScalars s.dataType [s]).map fun one => { one with len, layout := .constant }

end Column

end Earliest
