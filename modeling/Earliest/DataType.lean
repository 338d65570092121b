/-! Column types. A logical type says what a value means, a physical type how
it is stored; several logical types may share one physical type, and only the
physical type decides how bytes are read. -/

namespace Earliest

/-- The resolution of a timestamp. -/
inductive TimeUnit where
  | second
  | millisecond
  | microsecond
  | nanosecond
  deriving DecidableEq

namespace TimeUnit

def symbol : TimeUnit → String
  | second => "s"
  | millisecond => "ms"
  | microsecond => "μs"
  | nanosecond => "ns"

def name : TimeUnit → String
  | second => "Second"
  | millisecond => "Millisecond"
  | microsecond => "Microsecond"
  | nanosecond => "Nanosecond"

end TimeUnit

/-- Values that all take the same room. -/
inductive Fixed where
  | boolean
  | int8
  | int16
  | int32
  | int64
  | float16
  | float32
  | float64
  deriving DecidableEq

def Fixed.name : Fixed → String
  | boolean => "Boolean"
  | int8 => "Int8"
  | int16 => "Int16"
  | int32 => "Int32"
  | int64 => "Int64"
  | float16 => "Float16"
  | float32 => "Float32"
  | float64 => "Float64"

/-- Bytes that one value takes. -/
def Fixed.width : Fixed → Nat
  | boolean => 1
  | int8 => 1
  | int16 => 2
  | int32 => 4
  | int64 => 8
  | float16 => 2
  | float32 => 4
  | float64 => 8

/-- How the values of a column are stored. -/
inductive Physical where
  | untypedNull
  | fixed (type : Fixed)
  | binary
  deriving DecidableEq

namespace Physical

/-! The fixed types by their own names, in patterns too. -/

@[match_pattern] abbrev boolean : Physical := fixed .boolean
@[match_pattern] abbrev int8 : Physical := fixed .int8
@[match_pattern] abbrev int16 : Physical := fixed .int16
@[match_pattern] abbrev int32 : Physical := fixed .int32
@[match_pattern] abbrev int64 : Physical := fixed .int64
@[match_pattern] abbrev float16 : Physical := fixed .float16
@[match_pattern] abbrev float32 : Physical := fixed .float32
@[match_pattern] abbrev float64 : Physical := fixed .float64

def name : Physical → String
  | untypedNull => "UntypedNull"
  | fixed type => type.name
  | binary => "Binary"

end Physical

/-- What the values of a column mean. -/
inductive DataType where
  | null
  | boolean
  | int8
  | int16
  | int32
  | int64
  | float16
  | float32
  | float64
  /-- Days since the epoch. -/
  | date32
  /-- Time since the epoch in the given unit. -/
  | timestamp (unit : TimeUnit)
  | utf8
  | binary
  deriving DecidableEq

namespace DataType

@[reducible] def physical : DataType → Physical
  | null => .untypedNull
  | boolean => .boolean
  | int8 => .int8
  | int16 => .int16
  | int32 => .int32
  | int64 => .int64
  | float16 => .float16
  | float32 => .float32
  | float64 => .float64
  | date32 => .int32
  | timestamp _ => .int64
  | utf8 => .binary
  | binary => .binary

/-- The type's name; a timestamp shows the symbol of its unit. -/
def name : DataType → String
  | null => "Null"
  | boolean => "Boolean"
  | int8 => "Int8"
  | int16 => "Int16"
  | int32 => "Int32"
  | int64 => "Int64"
  | float16 => "Float16"
  | float32 => "Float32"
  | float64 => "Float64"
  | date32 => "Date32"
  | timestamp unit => "Timestamp(" ++ unit.symbol ++ ")"
  | utf8 => "Utf8"
  | binary => "Binary"

/-- As `name`, with the unit of a timestamp written out. -/
def longName : DataType → String
  | timestamp unit => "Timestamp(" ++ unit.name ++ ")"
  | type => type.name

end DataType

end Earliest
