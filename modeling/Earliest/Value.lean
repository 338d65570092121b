import Earliest.DataType
import Earliest.Ieee.Format

/-! Stored values. Each physical type has one type of values, and a function over
stored values is written once for all of them, by cases on the physical type. -/

namespace Earliest

abbrev Bytes := List UInt8

@[reducible] def Fixed.Value : Fixed → Type
  | boolean => Bool
  | int8 => Int8
  | int16 => Int16
  | int32 => Int32
  | int64 => Int64
  | float16 => Ieee .binary16
  | float32 => Ieee .binary32
  | float64 => Ieee .binary64

/-- What one row stores. An untyped null stores nothing, so it has no values. -/
@[reducible] def Physical.Value : Physical → Type
  | untypedNull => Empty
  | fixed type => type.Value
  | binary => Bytes

namespace Fixed

instance decEqValue : (t : Fixed) → DecidableEq t.Value
  | boolean => inferInstanceAs (DecidableEq Bool)
  | int8 => inferInstanceAs (DecidableEq Int8)
  | int16 => inferInstanceAs (DecidableEq Int16)
  | int32 => inferInstanceAs (DecidableEq Int32)
  | int64 => inferInstanceAs (DecidableEq Int64)
  | float16 => inferInstanceAs (DecidableEq (Ieee .binary16))
  | float32 => inferInstanceAs (DecidableEq (Ieee .binary32))
  | float64 => inferInstanceAs (DecidableEq (Ieee .binary64))

/-- What stands under a null row. -/
def blank : (t : Fixed) → t.Value
  | boolean => false
  | int8 => (0 : Int8)
  | int16 => (0 : Int16)
  | int32 => (0 : Int32)
  | int64 => (0 : Int64)
  | float16 => Ieee.zero
  | float32 => Ieee.zero
  | float64 => Ieee.zero

/-- Floating-point numbers compare as numbers, all else as stored. -/
def equal : (t : Fixed) → t.Value → t.Value → Bool
  | float16, x, y => Ieee.equal x y
  | float32, x, y => Ieee.equal x y
  | float64, x, y => Ieee.equal x y
  | _, x, y => decide (x = y)

end Fixed

instance Physical.decEqValue : (p : Physical) → DecidableEq p.Value
  | untypedNull => inferInstanceAs (DecidableEq Empty)
  | fixed type => inferInstanceAs (DecidableEq type.Value)
  | binary => inferInstanceAs (DecidableEq (List UInt8))

end Earliest
