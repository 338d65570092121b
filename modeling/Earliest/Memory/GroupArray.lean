import Earliest.Memory.Manager
import Earliest.Memory.Slot

/-! Dense arrays of one value per group. Slots that were never written hold the fill
value. Memory for the capacity is reserved with a manager before it is taken, so a
refusal at any point leaves the array as it was and gives back what was granted. -/

namespace Earliest

/-- Whether memory can be had. What is free changes with time, so each request of a call,
in turn, has an answer of its own for the bytes it asks for. -/
structure Allocator where
  answer : Nat → Nat → Option Refusal

namespace Allocator

/-- Whether the next request for so many bytes is refused. -/
def refusal (alloc : Allocator) (bytes : Nat) : Option Refusal := alloc.answer 0 bytes

/-- The answers after the first. -/
def next (alloc : Allocator) : Allocator := ⟨fun request => alloc.answer (request + 1)⟩

/-- Less than 2^50 bytes can be had. -/
def standard : Allocator where
  answer _ bytes :=
    if objectRange ≤ bytes then some .tooLarge
    else if 0x4000000000000 ≤ bytes then some .exhausted
    else none

end Allocator

structure GroupArray (α : Type) where
  fill : α
  values : Array α
  /-- Slots that memory was taken for. -/
  capacity : Nat
  /-- The least capacity to take when the array grows. -/
  minCapacity : Nat
  /-- What the values own outside their slots, as the calls have counted it. The count is kept in
  the 64 bits of `heapWord`, and they hold it only where it has not left them. -/
  heapBytes : Int
  /-- Bytes reserved with the manager. -/
  reserved : Nat

namespace GroupArray

variable {α : Type} [Slot α]

def new (fill : α) (minCapacity : Nat) : GroupArray α := ⟨fill, #[], 0, minCapacity, 0, 0⟩

def size (a : GroupArray α) : Nat := a.values.size

/-- The word that the count is kept in. It wraps. -/
def heapWord (a : GroupArray α) : UInt64 := .ofInt a.heapBytes

/-- Adds slots up to `n`, each with a copy of the fill value, and counts for each what the fill
value itself owns. -/
def extend (a : GroupArray α) (n : Nat) : GroupArray α :=
  let added := n - a.size
  { a with
    values := a.values ++ Array.replicate added (Slot.copy a.fill)
    heapBytes := a.heapBytes + (added * Slot.heap a.fill : Nat) }

/-- At least doubles what there is. -/
def grownCapacity (a : GroupArray α) (n : Nat) : Nat :=
  max (max n (min (2 * a.capacity) (sizeRange - 1))) a.minCapacity

/-- Takes memory for `capacity` slots: the bytes are reserved first, and given back
when the memory cannot be had. -/
def grow (alloc : Allocator) (capacity : Nat) (a : GroupArray α) (m : Manager) :
    Attempt (GroupArray α × Manager) :=
  let extra := (capacity - a.capacity) * Slot.width α
  if sizeRange ≤ extra then (.error (.capacityRange capacity), a, m)
  else
    match m.reserve extra with
    | .error f => (.error f, a, m)
    | .ok granted =>
      match alloc.refusal (capacity * Slot.width α) with
      | some refusal => (.error (.growth refusal), a, granted.release extra)
      | none => (.ok (), { a with capacity, reserved := a.reserved + extra }, granted)

/-- Takes memory for slots `0` to `n - 1` where the capacity does not cover them. -/
def house (alloc : Allocator) (n : Nat) (a : GroupArray α) (m : Manager) :
    Attempt (GroupArray α × Manager) :=
  if n ≤ a.capacity then (.ok (), a, m) else a.grow alloc (a.grownCapacity n) m

/-- Makes slots `0` to `n - 1` addressable. -/
def ensure (alloc : Allocator) (n : Nat) (a : GroupArray α) (m : Manager) :
    Attempt (GroupArray α × Manager) :=
  if n ≤ a.size then (.ok (), a, m)
  else
    match a.house alloc n m with
    | (.ok (), a, m) => (.ok (), a.extend n, m)
    | (.error f, a, m) => (.error f, a, m)

/-- Whether the word holds the count with the slots up to `n` added. -/
def holdsCount (a : GroupArray α) (n : Nat) : Bool :=
  a.heapWord.toNat + (n - a.size) * Slot.heap a.fill < sizeRange

/-- As `ensure`, in a build that checks its arithmetic. There is no outcome where it stops the
caller because the word does not hold the count, with the memory taken and no slot added. -/
def ensureChecked (alloc : Allocator) (n : Nat) (a : GroupArray α) (m : Manager) :
    Option (Except Fault Unit) × GroupArray α × Manager :=
  if n ≤ a.size then (some (.ok ()), a, m)
  else
    match a.house alloc n m with
    | (.ok (), a, m) =>
      if a.holdsCount n then (some (.ok ()), a.extend n, m) else (none, a, m)
    | (.error f, a, m) => (some (.error f), a, m)

def get? (a : GroupArray α) (i : Nat) : Option α := a.values[i]?

/-- Writes a slot; without the slot nothing changes. -/
def set (a : GroupArray α) (i : Nat) (v : α) : GroupArray α :=
  if h : i < a.values.size then
    { a with
      values := a.values.set i v
      heapBytes := a.heapBytes - Slot.heap a.values[i] + Slot.heap v }
  else a

/-- Changes a slot; without the slot nothing changes. -/
def update (a : GroupArray α) (i : Nat) (f : α → α) : GroupArray α :=
  match a.get? i with
  | some v => a.set i (f v)
  | none => a

/-- Puts a value into a slot and counts nothing. -/
def leave (a : GroupArray α) (i : Nat) (v : α) : GroupArray α :=
  { a with values := a.values.setIfInBounds i v }

/-- As `set`, with a fault without the slot. -/
def trySet (a : GroupArray α) (i : Nat) (v : α) : Attempt (GroupArray α) :=
  if i < a.size then (.ok (), a.set i v) else (.error (.slotRange i a.size), a)

/-- As `update`, by a function that may unwind on its way; `.error` then holds what it has made of
the slot. The count is brought up to date only when it returns. -/
def tryUpdate (a : GroupArray α) (i : Nat) (f : α → Except α α) : Attempt (GroupArray α) :=
  match a.get? i with
  | none => (.error (.slotRange i a.size), a)
  | some v =>
    match f v with
    | .ok made => (.ok (), a.set i made)
    | .error made => (.error .unwound, a.leave i made)

def toList (a : GroupArray α) : List α := a.values.toList

/-- Bytes used beyond the array's fixed part, as they have been counted. -/
def footprint (a : GroupArray α) : Int := (a.capacity * Slot.width α : Nat) + a.heapBytes

/-- Gives back all that the array reserved. -/
def free (a : GroupArray α) (m : Manager) : Manager := m.release a.reserved

end GroupArray

end Earliest
