import Earliest.FirstBy.Aggregate

/-! Accumulators that share one memory manager. What an accumulator reserved goes
back to the manager when it is dropped. Columns of intermediate states can be kept
and merged into any of the accumulators later. -/

namespace Earliest

structure Session where
  /-- Clones of the manager count in the same ledger, so there is one for all. -/
  manager : Manager
  /-- In order of creation; none where one has been dropped. -/
  aggregates : List (Option Aggregate)
  kept : List Column

namespace Session

def new (m : Manager) : Session := ⟨m, [], []⟩

/-- What a group can be evaluated to. -/
inductive Stage where
  | intermediate
  | final

inductive Op where
  /-- Opens an accumulator of the kind that fits `xType`. -/
  | create (xType yType : DataType) (minCapacity : Nat)
  /-- Opens an accumulator of a given kind. -/
  | createAs (kind : Kind) (xType yType : DataType) (minCapacity : Nat)
  | call (index : Nat) (call : Call)
  /-- Merges the kept column of that number. -/
  | mergeKept (index : Nat) (ids : List Nat) (column : Nat)
  /-- Evaluates a group into a builder. -/
  | evaluate (stage : Stage) (index group : Nat) (output : Builder)
  /-- Evaluates the intermediate states of the first groups and keeps the column. -/
  | keep (index count : Nat)
  | drop (index : Nat)

def aggregate? (s : Session) (index : Nat) : Option Aggregate := s.aggregates[index]?.join

def find (s : Session) (index : Nat) : Except Fault Aggregate :=
  match s.aggregate? index with
  | some a => .ok a
  | none => .error (.slotRange index s.aggregates.length)

def add (a : Aggregate) (s : Session) : Session :=
  { s with aggregates := s.aggregates ++ [some a] }

def call (alloc : Allocator) (index : Nat) (c : Call) (s : Session) : Attempt Session :=
  match s.find index with
  | .error f => (.error f, s)
  | .ok a =>
    let (outcome, a, manager) := a.call alloc c s.manager
    (outcome, { s with manager, aggregates := s.aggregates.set index (some a) })

/-- Evaluating only reads the session. -/
def evaluate (stage : Stage) (index group : Nat) (output : Builder) (s : Session) :
    Attempt Builder :=
  match s.find index with
  | .error f => (.error f, output)
  | .ok a =>
    match stage with
    | .intermediate => a.state.evaluateIntermediate group output
    | .final => a.state.evaluateFinal group output

def keep (index count : Nat) (s : Session) : Attempt Session :=
  match s.find index with
  | .error f => (.error f, s)
  | .ok a =>
    match a.intermediates? count with
    | none => (.error (.roomRange count), s)
    | some (.error f) => (.error f, s)
    | some (.ok column) => (.ok (), { s with kept := s.kept ++ [column] })

def drop (index : Nat) (s : Session) : Session :=
  match s.aggregate? index with
  | none => s
  | some a => { s with manager := a.free s.manager, aggregates := s.aggregates.set index none }

def apply (alloc : Allocator) (s : Session) : Op → Attempt Session
  | .create xType yType minCapacity =>
    match Aggregate.new xType yType minCapacity with
    | .error f => (.error f, s)
    | .ok a => (.ok (), s.add a)
  | .createAs kind xType yType minCapacity =>
    (.ok (), s.add ⟨kind, .new kind xType yType minCapacity⟩)
  | .call index c => s.call alloc index c
  | .mergeKept index ids column =>
    match s.kept[column]? with
    | none => (.error (.slotRange column s.kept.length), s)
    | some input => s.call alloc index (.addIntermediate ids input)
  | .evaluate stage index group output =>
    ((s.evaluate stage index group output).1, s)
  | .keep index count => s.keep index count
  | .drop index => (.ok (), s.drop index)

/-- Bytes that each accumulator uses beyond its fixed part. -/
def footprints (s : Session) : List (Option Int) :=
  s.aggregates.map (·.map Aggregate.footprint)

def dropAll (s : Session) : Session :=
  (List.range s.aggregates.length).foldl (fun s index => s.drop index) s

end Session

end Earliest
