import Earliest.FirstBy.Accumulator

/-! Accumulators of any kind. The kind follows from the physical type of `x`, and an
accumulator then answers a sequence of calls, each of which may fail. -/

namespace Earliest

/-- The calls that change an accumulator. -/
inductive Call where
  | setGroupCount (count : Nat)
  | addInput (ids : List Nat) (inputs : List Column)
  | addIntermediate (ids : List Nat) (input : Column)

def Accumulator.call {k : Kind} (alloc : Allocator) (c : Call) (a : Accumulator k)
    (m : Manager) : Attempt (Accumulator k × Manager) :=
  match c with
  | .setGroupCount count => a.setGroupCount alloc count m
  | .addInput ids inputs =>
    let (outcome, a) := a.addInput ids inputs
    (outcome, a, m)
  | .addIntermediate ids input =>
    let (outcome, a) := a.addIntermediate ids input
    (outcome, a, m)

structure Aggregate where
  kind : Kind
  state : Accumulator kind

namespace Aggregate

/-- Only some physical types can be tracked. -/
def new (xType yType : DataType) (minCapacity : Nat) : Except Fault Aggregate :=
  match Kind.ofPhysical? xType.physical with
  | some k => .ok ⟨k, .new k xType yType minCapacity⟩
  | none => .error (.valueType xType)

def call (alloc : Allocator) (c : Call) (a : Aggregate) (m : Manager) :
    Attempt (Aggregate × Manager) :=
  let (outcome, state, m) := a.state.call alloc c m
  (outcome, ⟨a.kind, state⟩, m)

def footprint (a : Aggregate) : Int := a.state.footprint

def free (a : Aggregate) (m : Manager) : Manager := a.state.free m

def intermediateType (a : Aggregate) : DataType := a.state.intermediateType

def finalType (a : Aggregate) : DataType := a.state.finalType

def intermediates? (a : Aggregate) (count : Nat) : Option (Except Fault Column) :=
  a.state.intermediates? count

def finals? (a : Aggregate) (count : Nat) : Option (Except Fault Column) := a.state.finals? count

end Aggregate

end Earliest
