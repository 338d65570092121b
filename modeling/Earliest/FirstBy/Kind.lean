import Earliest.Memory.Slot

/-! The kinds of values that can be tracked per group, and how a group's slot holds
one: a number as itself, a byte string in a buffer that keeps its room. -/

namespace Earliest

inductive Kind where
  | boolean
  | int32
  | int64
  | float32
  | float64
  | binary
  deriving DecidableEq

namespace Kind

@[reducible] def physical : Kind → Physical
  | boolean => .boolean
  | int32 => .int32
  | int64 => .int64
  | float32 => .float32
  | float64 => .float64
  | binary => .binary

def ofPhysical? : Physical → Option Kind
  | .boolean => some boolean
  | .int32 => some int32
  | .int64 => some int64
  | .float32 => some float32
  | .float64 => some float64
  | .binary => some binary
  | _ => none

theorem ofPhysical?_eq_some_iff {p : Physical} {k : Kind} :
    ofPhysical? p = some k ↔ p = k.physical := by
  rcases p with _ | type | _
  · cases k <;> simp [ofPhysical?, physical]
  · cases type <;> cases k <;> simp [ofPhysical?, physical]
  · cases k <;> simp [ofPhysical?, physical]

@[reducible] def Value (k : Kind) : Type := k.physical.Value

@[reducible] def Cell : Kind → Type
  | boolean => Bool
  | int32 => Int32
  | int64 => Int64
  | float32 => Ieee .binary32
  | float64 => Ieee .binary64
  | binary => Buffer

instance cellSlot : (k : Kind) → Slot k.Cell
  | boolean => inferInstanceAs (Slot Bool)
  | int32 => inferInstanceAs (Slot Int32)
  | int64 => inferInstanceAs (Slot Int64)
  | float32 => inferInstanceAs (Slot (Ieee .binary32))
  | float64 => inferInstanceAs (Slot (Ieee .binary64))
  | binary => inferInstanceAs (Slot Buffer)

/-- What the cell of a new group holds. -/
def blank : (k : Kind) → k.Cell
  | boolean => false
  | int32 => (0 : Int32)
  | int64 => (0 : Int64)
  | float32 => Ieee.zero
  | float64 => Ieee.zero
  | binary => Buffer.empty

def write : (k : Kind) → k.Value → k.Cell → k.Cell
  | boolean, v, _ => v
  | int32, v, _ => v
  | int64, v, _ => v
  | float32, v, _ => v
  | float64, v, _ => v
  | binary, v, cell => Buffer.write cell v

def read : (k : Kind) → k.Cell → k.Value
  | boolean, cell => cell
  | int32, cell => cell
  | int64, cell => cell
  | float32, cell => cell
  | float64, cell => cell
  | binary, cell => Buffer.bytes cell

theorem read_write (k : Kind) (v : k.Value) (cell : k.Cell) : k.read (k.write v cell) = v := by
  cases k <;> simp [read, write, Buffer.write, Buffer.append, Buffer.clear]

end Kind

end Earliest
