import Earliest.Column.Data
import Earliest.Validity

/-! Columns: a logical type, stored values, and which of them are valid. A flat
column stores each row; a constant one stores a single row for all. Readers go
through the selection, which takes a row to the stored row behind it. -/

namespace Earliest

inductive Layout where
  | flat
  | constant
  deriving DecidableEq

def Layout.name : Layout → String
  | flat => "Flat"
  | constant => "Constant"

/-- From the rows of a column to its stored rows. -/
inductive Selection where
  /-- Each row is stored. -/
  | linear (len : Nat)
  /-- Every row is stored row 0. -/
  | constant (len : Nat)
  deriving DecidableEq

namespace Selection

def len : Selection → Nat
  | linear n => n
  | constant n => n

/-- The stored row, without asking whether the row is within the length. -/
def row (s : Selection) (i : Nat) : Nat :=
  match s with
  | linear _ => i
  | constant _ => 0

def get? (s : Selection) (i : Nat) : Option Nat :=
  if i < s.len then some (s.row i) else none

end Selection

structure Column where
  dataType : DataType
  len : Nat
  layout : Layout
  /-- Of the stored rows. -/
  validity : Validity
  data : ColumnData

namespace Column

/-- A flat column of parts that belong together. -/
def flat (t : DataType) (validity : Validity) (data : ColumnData) : Column :=
  ⟨t, data.size, .flat, validity, data⟩

/-- A flat column, of parts that are checked to belong together. -/
def ofParts (t : DataType) (validity : Validity) (data : ColumnData) : Except Fault Column :=
  if t.physical ≠ data.physical then .error (.columnData t data.physical)
  else if validity.len ≠ data.size then .error (.validityLength validity.len data.size)
  else .ok (flat t validity data)

/-- All rows are null; one placeholder is stored. -/
def nulls (t : DataType) (len : Nat) : Column :=
  ⟨t, len, .constant, .allInvalid 1, (ColumnData.empty t.physical).pushBlank⟩

/-- The same rows under another logical type that stores them alike. -/
def withDataType (c : Column) (t : DataType) : Except Fault Column :=
  if t.physical = c.dataType.physical then .ok { c with dataType := t }
  else .error (.reinterpretation c.dataType t)

def physical (c : Column) : Physical := c.dataType.physical

def selection (c : Column) : Selection :=
  match c.layout with
  | .flat => .linear c.len
  | .constant => .constant c.len

/-- Whether the row holds a value; no answer where the validity has no such row. -/
def isValid? (c : Column) (i : Nat) : Option Bool := c.validity.get? (c.selection.row i)

def isNull? (c : Column) (i : Nat) : Option Bool := (c.isValid? i).map (!·)

/-- As `isValid?`, for a reader that expects an answer. -/
def valid (c : Column) (i : Nat) : Except Fault Bool :=
  match c.isValid? i with
  | some b => .ok b
  | none => .error (.slotRange (c.selection.row i) c.validity.len)

/-- The stored value of type `p` behind a row, which the reader calls `field`; none where
the row is null. -/
def stored (p : Physical) (field : String) (c : Column) (i : Nat) :
    Except Fault (Option p.Value) :=
  match c.valid i with
  | .error f => .error f
  | .ok false => .ok none
  | .ok true => (c.data.read p field (c.selection.row i)).map some

/-- The stored row `row` through the column's type. -/
def readRow (c : Column) (row : Nat) : Except Fault Scalar :=
  if c.dataType = .null then .ok .null
  else
    match c.data.read c.dataType.physical "value" row with
    | .ok v => (Scalar.ofValue c.dataType v).mapError .notUtf8
    | .error f => .error f

def value (c : Column) (i : Nat) : Except Fault Scalar :=
  match c.selection.get? i with
  | none => .error (.rowRange i c.len)
  | some row =>
    match c.validity.get? row with
    | none => .error (.slotRange row c.validity.len)
    | some false => .ok .null
    | some true => c.readRow row

/-- Every row, in order. -/
def rows (c : Column) : List (Except Fault Scalar) := (List.range c.len).map c.value

end Column

end Earliest
