import Earliest.FirstBy.Defect
import Earliest.Report
import Earliest.Scalar

/-! Everything that can go wrong, as causes. The wording, the category and the
fields of each cause stand in `Fault.report` alone. -/

namespace Earliest

/-- Why memory for a group array could not be had. -/
inductive Refusal where
  | tooLarge
  | exhausted
  deriving DecidableEq

def Refusal.text : Refusal → String
  | tooLarge =>
    "memory allocation failed because the computed capacity exceeded the collection's maximum"
  | exhausted => "memory allocation failed because the memory allocator returned an error"

inductive Fault where
  /-- A container has no such slot: the caller skipped a check it had promised. -/
  | slotRange (index size : Nat)
  /-- A function of the caller's did not return. -/
  | unwound
  | absent (field : String)
  -- columns
  | physicalMismatch (stored requested : Physical)
  | columnData (type : DataType) (stored : Physical)
  | validityLength (validity data : Nat)
  | reinterpretation (current requested : DataType)
  | rowRange (index len : Nat)
  | notUtf8 (defect : Utf8.Defect)
  | appended (builder value : DataType)
  /-- No object can hold so many rows. -/
  | roomRange (rows : Nat)
  -- scalars
  | notInteger (value : Scalar)
  | negativeInteger (value : Int)
  -- memory
  | memoryLimit (requested reserved : Nat) (limit : Option Nat)
  | capacityRange (capacity : Nat)
  | growth (refusal : Refusal)
  -- settings
  | unknownSetting (name : String)
  | minCapacityRange (maximum : Nat)
  | configSyntax
  -- aggregation
  | valueType (type : DataType)
  | inputCount (count : Nat)
  | columnLength (column : String) (len groups : Nat)
  | timeType (type : DataType)
  | inputType (expected got : DataType)
  | groupRange (group count : Nat)
  | intermediateInput (type : DataType)
  | intermediateOutput (type : DataType)
  | outputType (expected got : DataType)
  | malformed (defect : Intermediate.Defect)
  | malformedRow (row : Nat) (defect : Intermediate.Defect)
  | oversized (len : Nat)
  | oversizedGroup (group len : Nat)
  deriving DecidableEq

open Report in
def Intermediate.Defect.report : Intermediate.Defect → Report
  | .truncated part needed remaining =>
    (new .invalidArgument ("Truncated intermediate state reading " ++ part.name)).withFields
      [("needed", .number needed), ("remaining", .number remaining)]
  | .booleanByte byte =>
    (new .invalidArgument "Invalid encoded bool").withField "byte" (.number byte.toNat)
  | .negativeLength length =>
    (new .invalidArgument "Negative binary length in intermediate state").withField
      "len" (.number length)
  | .flagByte byte =>
    (new .invalidArgument "Invalid null flag in intermediate state").withField
      "byte" (.number byte.toNat)
  | .trailing count =>
    (new .invalidArgument "Trailing bytes in intermediate state").withField
      "trailing" (.number count)

namespace Fault

open Report in
def report : Fault → Report
  | slotRange index size =>
    (new .internal "Slot out of range").withFields
      [("index", .number index), ("size", .number size)]
  | unwound => new .internal "Slot function unwound"
  | absent field => new .other ("Missing field '" ++ field ++ "'. This indicates a bug.")
  | physicalMismatch stored requested =>
    (new .invalidArgument "Physical type mismatch for column data").withFields
      [("expected_type", .physical stored), ("requested_type", .physical requested)]
  | columnData type stored =>
    (new .invalidArgument "Data does not match column datatype").withFields
      [("datatype", .dataType type), ("physical_type", .physical stored)]
  | validityLength validity data =>
    (new .invalidArgument "Validity length mismatch").withFields
      [("validity_len", .number validity), ("data_len", .number data)]
  | reinterpretation current requested =>
    new .invalidArgument
      ("Cannot reinterpret " ++ current.name ++ " column as " ++ requested.name)
  | rowRange index len =>
    (new .invalidArgument "Index out of bounds").withFields
      [("idx", .number index), ("len", .number len)]
  | notUtf8 defect => withRoot "binary data not valid utf8" (.message defect.text)
  | appended builder value =>
    (new .invalidArgument "Cannot append value to column builder").withFields
      [("builder_type", .dataType builder), ("value_type", .dataType value)]
  | roomRange rows =>
    (new .internal "No object can hold so many rows").withField "rows" (.number rows)
  | notInteger value => new .invalidArgument ("Not an integer: " ++ value.text)
  | negativeInteger value =>
    new .invalidArgument ("Expected a non-negative integer, got " ++ toString value)
  | memoryLimit requested reserved limit =>
    (new .resourceExhausted "Memory limit exceeded").withFields
      [("requested_bytes", .number requested), ("reserved_bytes", .number reserved),
        ("limit_bytes", .number (limit.getD 0xFFFFFFFFFFFFFFFF : Nat))]
  | capacityRange capacity =>
    (new .resourceExhausted "Group array capacity exceeds addressable memory").withField
      "requested_capacity" (.number capacity)
  | growth refusal => withRoot "failed to grow group array" (.message refusal.text)
  | unknownSetting name => new .invalidArgument ("Missing setting for '" ++ name ++ "'")
  | minCapacityRange maximum =>
    new .invalidArgument
      ("Group array minimum capacity cannot be greater than " ++ toString maximum)
  | configSyntax => new .other "failed to parse aggregate config"
  | valueType type =>
    (new .unsupportedType ("Unsupported type for first_by: " ++ type.name)).withField
      "physical_type" (.physical type.physical)
  | inputCount count =>
    new .invalidArgument ("first_by expects 3 inputs, got " ++ toString count)
  | columnLength column len groups =>
    (new .invalidArgument
        "Column length does not match number of group ids for first_by").withFields
      [("column", .string column), ("column_len", .number len),
        ("group_ids_len", .number groups)]
  | timeType type => new .unsupportedType ("Unsupported time type for first_by: " ++ type.name)
  | inputType expected got =>
    (new .invalidArgument "Unexpected x type for first_by").withFields
      [("expected", .dataType expected), ("got", .dataType got)]
  | groupRange group count =>
    (new .invalidArgument "Group id out of range for first_by").withFields
      [("group", .number group), ("group_count", .number count)]
  | intermediateInput type =>
    new .invalidArgument
      ("Intermediate input for first_by must be binary, got " ++ type.name)
  | intermediateOutput type =>
    new .invalidArgument
      ("Intermediate output for first_by must be binary, got " ++ type.name)
  | outputType expected got =>
    (new .invalidArgument "Unexpected output type for first_by").withFields
      [("expected", .dataType expected), ("got", .dataType got)]
  | malformed defect => defect.report
  | malformedRow row defect =>
    defect.report.withFields [("aggregate", .string "first_by"), ("row", .number row)]
  | oversized len =>
    (new .internal "Binary value too large to encode").withField "len" (.number len)
  | oversizedGroup group len =>
    (new .internal "Binary value too large to encode").withFields
      [("len", .number len), ("aggregate", .string "first_by"), ("group", .number group)]

def kind (f : Fault) : ErrorKind := f.report.kind

end Fault

/-- The value that has to be there. -/
def required {α : Type} (field : String) : Option α → Except Fault α
  | some a => .ok a
  | none => .error (.absent field)

/-- The outcome of a call that may fail, and the state after it. -/
abbrev Attempt (σ : Type) := Except Fault Unit × σ

end Earliest
