import Earliest.Value

/-! What the elements of a group array take up. A number takes its slot alone; a
byte buffer owns its capacity besides. -/

namespace Earliest

/-- A byte string with room to grow. -/
structure Buffer where
  bytes : Bytes
  capacity : Nat
  deriving DecidableEq

namespace Buffer

/-- As much room as bytes. -/
def ofBytes (b : Bytes) : Buffer := ⟨b, b.length⟩

def empty : Buffer := ofBytes []

/-- Room at least doubles when it is short, and is never less than eight after that. -/
def append (s : Buffer) (b : Bytes) : Buffer :=
  let len := s.bytes.length + b.length
  ⟨s.bytes ++ b, if len ≤ s.capacity then s.capacity else max (max (2 * s.capacity) len) 8⟩

/-- The room stays. -/
def clear (s : Buffer) : Buffer := { s with bytes := [] }

/-- The bytes in place of what was there. -/
def write (s : Buffer) (b : Bytes) : Buffer := s.clear.append b

end Buffer

class Slot (α : Type) where
  /-- Bytes of one slot. -/
  width : Nat
  /-- Bytes that a value owns outside its slot. -/
  heap : α → Nat
  copy : α → α

instance : Slot Bool := ⟨1, fun _ => 0, id⟩
instance : Slot Int32 := ⟨4, fun _ => 0, id⟩
instance : Slot Int64 := ⟨8, fun _ => 0, id⟩
instance (f : Format) : Slot (Ieee f) := ⟨f.width / 8, fun _ => 0, id⟩
/-- A copy has no more room than it needs. -/
instance : Slot Buffer := ⟨24, Buffer.capacity, fun s => .ofBytes s.bytes⟩

end Earliest
