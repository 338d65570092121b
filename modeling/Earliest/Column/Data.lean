import Earliest.Column.ByteStrings
import Earliest.Fault
import Earliest.Memory.Range

/-! The stored values of a column. `Store` fixes the container of each physical
type and `ColumnData` pairs a container with its type, so that a typed access is
a check of the type followed by a plain look-up. -/

namespace Earliest

/-- The container of a physical type. Untyped nulls are only counted. -/
@[reducible] def Physical.Store : Physical → Type
  | untypedNull => Nat
  | fixed type => Array type.Value
  | binary => ByteStrings

namespace Store

def empty : (p : Physical) → p.Store
  | .untypedNull => (0 : Nat)
  | .fixed _ => #[]
  | .binary => ByteStrings.empty

def size : (p : Physical) → p.Store → Nat
  | .untypedNull, n => n
  | .fixed _, s => Array.size s
  | .binary, s => ByteStrings.size s

def get? : (p : Physical) → p.Store → Nat → Option p.Value
  | .untypedNull, _, _ => none
  | .fixed _, s, i => s[i]?
  | .binary, s, i => ByteStrings.get? s i

def push : (p : Physical) → p.Store → p.Value → p.Store
  | .untypedNull, _, v => nomatch v
  | .fixed _, s, v => Array.push s v
  | .binary, s, v => ByteStrings.push s v

/-- Adds a placeholder, which stands under a null row. -/
def pushBlank : (p : Physical) → p.Store → p.Store
  | .untypedNull, n => Nat.succ n
  | .fixed type, s => Array.push s type.blank
  | .binary, s => ByteStrings.push s []

/-- Floating-point numbers compare as numbers, byte strings by their offsets and bytes. -/
def equal : (p : Physical) → p.Store → p.Store → Bool
  | .untypedNull, m, n => Nat.beq m n
  | .fixed type, s, t => Array.isEqv s t type.equal
  | .binary, s, t => decide (@Eq ByteStrings s t)

/-- Bytes that room for so many values takes at once. A byte string takes an offset of eight
bytes, besides the first one, and the number of offsets wraps like any other size. -/
def room : Physical → Nat → Nat
  | .untypedNull, _ => 0
  | .fixed type, capacity => capacity * type.width
  | .binary, capacity => (capacity + 1) % sizeRange * 8

@[simp] theorem size_empty (p : Physical) : size p (empty p) = 0 := by
  cases p <;> rfl

end Store

structure ColumnData where
  physical : Physical
  store : physical.Store

namespace ColumnData

def empty (p : Physical) : ColumnData := ⟨p, Store.empty p⟩

/-- As `empty`, with room for so many values; no answer where no object can be that large. -/
def withRoom? (p : Physical) (capacity : Nat) : Option ColumnData :=
  if Store.room p capacity < objectRange then some (empty p) else none

def size (d : ColumnData) : Nat := Store.size d.physical d.store

def pushBlank (d : ColumnData) : ColumnData :=
  { d with store := Store.pushBlank d.physical d.store }

/-- The container, for a reader that asks for values of type `p`. -/
def values (p : Physical) (d : ColumnData) : Except Fault p.Store :=
  if h : d.physical = p then .ok (h ▸ d.store) else .error (.physicalMismatch d.physical p)

@[simp] theorem values_self (p : Physical) (s : p.Store) : values p ⟨p, s⟩ = .ok s := by
  simp [values]

/-- Adds a value of type `p`, which has to be the container's own. -/
def push (p : Physical) (v : p.Value) (d : ColumnData) : Attempt ColumnData :=
  match d.values p with
  | .ok store => (.ok (), ⟨p, Store.push p store v⟩)
  | .error f => (.error f, d)

/-- The value of type `p` at `row`, which the reader calls `field`. -/
def read (p : Physical) (field : String) (row : Nat) (d : ColumnData) : Except Fault p.Value :=
  match d.values p with
  | .ok store => required field (Store.get? p store row)
  | .error f => .error f

def ofCount (n : Nat) : ColumnData := ⟨.untypedNull, n⟩

def ofList (p : Physical) (values : List p.Value) : ColumnData :=
  ⟨p, values.foldl (Store.push p) (Store.empty p)⟩

def equal (d e : ColumnData) : Bool :=
  match e.values d.physical with
  | .ok store => Store.equal d.physical d.store store
  | .error _ => false

end ColumnData

end Earliest
