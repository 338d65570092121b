import Earliest.Column.Builder
import Earliest.FirstBy.Intermediate
import Earliest.Memory.GroupArray

/-! The value of `x` at the earliest time, per group. Each group keeps one candidate;
a new one replaces it only when its timestamp is strictly smaller, so on equal
timestamps the first one seen stays. A row takes part when `y` and the time are
valid; a null `x` takes part as a null. Candidates come from rows of columns or
from encoded states, and both go through `absorb`. -/

namespace Earliest

structure Accumulator (k : Kind) where
  xType : DataType
  /-- Of the column whose validity alone decides which rows count. -/
  yType : DataType
  groupCount : Nat
  timestamps : GroupArray Int64
  initialized : GroupArray Bool
  nulls : GroupArray Bool
  values : GroupArray k.Cell

namespace Accumulator

variable {k : Kind}

def new (k : Kind) (xType yType : DataType) (minCapacity : Nat) : Accumulator k where
  xType
  yType
  groupCount := 0
  timestamps := .new Int64.maxValue minCapacity
  initialized := .new false minCapacity
  nulls := .new true minCapacity
  values := .new k.blank minCapacity

/-- Bytes used beyond the accumulator's fixed part. -/
def footprint (a : Accumulator k) : Int :=
  a.timestamps.footprint + a.initialized.footprint + a.nulls.footprint + a.values.footprint

/-- Gives back all that the arrays reserved. -/
def free (a : Accumulator k) (m : Manager) : Manager :=
  a.values.free (a.nulls.free (a.initialized.free (a.timestamps.free m)))

/-- Makes groups `0` to `count - 1` addressable. The arrays grow in turn, and one that
grew before another was refused stays grown. -/
def setGroupCount (alloc : Allocator) (count : Nat) (a : Accumulator k) (m : Manager) :
    Attempt (Accumulator k × Manager) :=
  if count ≤ a.groupCount then (.ok (), a, m)
  else
    match a.timestamps.ensure alloc count m with
    | (.error f, timestamps, m) => (.error f, { a with timestamps }, m)
    | (.ok (), timestamps, m) =>
      match a.initialized.ensure alloc.next count m with
      | (.error f, initialized, m) => (.error f, { a with timestamps, initialized }, m)
      | (.ok (), initialized, m) =>
        match a.nulls.ensure alloc.next.next count m with
        | (.error f, nulls, m) => (.error f, { a with timestamps, initialized, nulls }, m)
        | (.ok (), nulls, m) =>
          match a.values.ensure alloc.next.next.next count m with
          | (.error f, values, m) =>
            (.error f, { a with timestamps, initialized, nulls, values }, m)
          | (.ok (), values, m) =>
            (.ok (), { a with timestamps, initialized, nulls, values, groupCount := count }, m)

/-- Whether every array has a slot for the group. -/
def covers (a : Accumulator k) (group : Nat) : Bool :=
  group < a.timestamps.size && group < a.initialized.size && group < a.nulls.size &&
    group < a.values.size

/-- Whether the group's candidate stands against one of that timestamp. -/
def keeps (a : Accumulator k) (group : Nat) (timestamp : Int64) : Bool :=
  match a.initialized.get? group, a.timestamps.get? group with
  | some true, some best => decide (best ≤ timestamp)
  | _, _ => false

/-- Makes the candidate the group's own. The value of a null is left as it was. -/
def record (a : Accumulator k) (group : Nat) (c : Candidate k) : Accumulator k :=
  { a with
    timestamps := a.timestamps.set group c.timestamp
    initialized := a.initialized.set group true
    nulls := a.nulls.set group c.value.isNone
    values :=
      match c.value with
      | none => a.values
      | some v => a.values.update group (k.write v) }

/-- Applies a candidate to a group that the arrays cover. -/
def offer (a : Accumulator k) (group : Nat) (c : Candidate k) : Accumulator k :=
  if a.keeps group c.timestamp then a else a.record group c

/-- Applies, for each group id in turn, the candidate of its row, if it has one. The
rows before one that cannot be read stay applied. -/
def absorb (read : Nat → Except Fault (Option (Candidate k))) (a : Accumulator k) :
    Nat → List Nat → Attempt (Accumulator k)
  | _, [] => (.ok (), a)
  | row, group :: rest =>
    match read row with
    | .error f => (.error f, a)
    | .ok none => absorb read a (row + 1) rest
    | .ok (some c) =>
      if a.covers group then absorb read (a.offer group c) (row + 1) rest
      else (.error (.slotRange group a.groupCount), a)

def checkGroup (a : Accumulator k) (group : Nat) : Except Fault Unit :=
  if group < a.groupCount then .ok () else .error (.groupRange group a.groupCount)

/-- The first group id out of range is the one reported. -/
def checkGroups (a : Accumulator k) (ids : List Nat) : Except Fault Unit :=
  match ids.find? (a.groupCount ≤ ·) with
  | some group => .error (.groupRange group a.groupCount)
  | none => .ok ()

/-- Whether the accumulator can take the columns for the group ids. -/
def checkInput (a : Accumulator k) (ids : List Nat) (x y time : Column) : Except Fault Unit :=
  if x.len ≠ ids.length then .error (.columnLength "x" x.len ids.length)
  else if y.len ≠ ids.length then .error (.columnLength "y" y.len ids.length)
  else if time.len ≠ ids.length then .error (.columnLength "time" time.len ids.length)
  else if time.physical ≠ .int64 then .error (.timeType time.dataType)
  else if x.physical ≠ k.physical then .error (.inputType a.xType x.dataType)
  else a.checkGroups ids

/-- The candidate of a row, if it counts. -/
def inputCandidate (k : Kind) (x y time : Column) (row : Nat) :
    Except Fault (Option (Candidate k)) :=
  match y.valid row with
  | .error f => .error f
  | .ok false => .ok none
  | .ok true =>
    match time.stored .int64 "timestamp" row with
    | .error f => .error f
    | .ok none => .ok none
    | .ok (some timestamp) =>
      (x.stored k.physical "x value" row).map fun value => some ⟨timestamp, value⟩

/-- Takes in rows of `x`, `y` and the time; `ids` names the group of each row. -/
def addInput (ids : List Nat) (inputs : List Column) (a : Accumulator k) :
    Attempt (Accumulator k) :=
  match inputs with
  | [x, y, time] =>
    match a.checkInput ids x y time with
    | .error f => (.error f, a)
    | .ok () => a.absorb (inputCandidate k x y time) 0 ids
  | _ => (.error (.inputCount inputs.length), a)

/-- Whether the accumulator can take the encoded states for the group ids. -/
def checkIntermediate (a : Accumulator k) (ids : List Nat) (input : Column) :
    Except Fault Unit :=
  if input.physical ≠ .binary then .error (.intermediateInput input.dataType)
  else if input.len ≠ ids.length then
    .error (.columnLength "intermediate" input.len ids.length)
  else a.checkGroups ids

/-- The candidate that the bytes of a row encode, if the row is not null. -/
def intermediateCandidate (k : Kind) (input : Column) (row : Nat) :
    Except Fault (Option (Candidate k)) :=
  match input.stored .binary "intermediate state" row with
  | .error f => .error f
  | .ok none => .ok none
  | .ok (some bytes) =>
    match Intermediate.decode k bytes with
    | .ok c => .ok (some c)
    | .error d => .error (.malformedRow row d)

/-- Takes in encoded states; `ids` names the group of each. -/
def addIntermediate (ids : List Nat) (input : Column) (a : Accumulator k) :
    Attempt (Accumulator k) :=
  match a.checkIntermediate ids input with
  | .error f => (.error f, a)
  | .ok () => a.absorb (intermediateCandidate k input) 0 ids

/-- What a group holds: nothing, or its candidate. No answer when an array lacks the
group's slot. -/
def candidate? (a : Accumulator k) (group : Nat) : Option (Option (Candidate k)) :=
  match a.initialized.get? group, a.timestamps.get? group, a.nulls.get? group,
      a.values.get? group with
  | some false, some _, some _, some _ => some none
  | some true, some t, some isNull, some cell =>
    some (some ⟨t, if isNull then none else some (k.read cell)⟩)
  | _, _, _, _ => none

/-- As `candidate?`, for groups that have been announced. -/
def held (a : Accumulator k) (group : Nat) : Except Fault (Option (Candidate k)) :=
  match a.checkGroup group with
  | .error f => .error f
  | .ok () =>
    match a.candidate? group with
    | some c => .ok c
    | none => .error (.slotRange group a.groupCount)

/-- A candidate too large to encode is reported with its group. -/
def encodeGroup (group : Nat) (c : Candidate k) : Except Fault Bytes :=
  (Intermediate.encode c).mapError fun
    | .oversized len => .oversizedGroup group len
    | f => f

/-- Appends the group's encoded state, or null for a group that holds nothing. -/
def evaluateIntermediate (a : Accumulator k) (group : Nat) (output : Builder) :
    Attempt Builder :=
  if output.physical ≠ .binary then (.error (.intermediateOutput output.dataType), output)
  else
    match a.held group with
    | .error f => (.error f, output)
    | .ok none => (.ok (), output.appendNull)
    | .ok (some c) =>
      match encodeGroup group c with
      | .error f => (.error f, output)
      | .ok bytes => output.append .binary bytes

/-- Appends the group's value, or null. -/
def evaluateFinal (a : Accumulator k) (group : Nat) (output : Builder) : Attempt Builder :=
  if output.physical ≠ k.physical then (.error (.outputType a.xType output.dataType), output)
  else
    match a.held group with
    | .error f => (.error f, output)
    | .ok c => output.appendStored k.physical (c.bind Candidate.value)

def intermediateType (_ : Accumulator k) : DataType := .binary

def finalType (a : Accumulator k) : DataType := a.xType

/-- Groups `0` to `count - 1` as a column, up to the first that cannot be evaluated. -/
def collect (evaluate : Nat → Builder → Attempt Builder) (count : Nat) (output : Builder) :
    Except Fault Column :=
  Builder.column (Builder.each evaluate (List.range count) output)

/-- The encoded states of groups `0` to `count - 1`, where there is room for them. -/
def intermediates (a : Accumulator k) (count : Nat) : Except Fault Column :=
  collect a.evaluateIntermediate count (.new a.intermediateType)

/-- The values of groups `0` to `count - 1`, where there is room for them. -/
def finals (a : Accumulator k) (count : Nat) : Except Fault Column :=
  collect a.evaluateFinal count (.new a.finalType)

/-- As `intermediates`, with the room taken before any group is looked at. There is no answer
where no object can be that large. -/
def intermediates? (a : Accumulator k) (count : Nat) : Option (Except Fault Column) :=
  (Builder.withRoom? a.intermediateType count).map (collect a.evaluateIntermediate count)

/-- As `finals`, with the room taken before any group is looked at. There is no answer where no
object can be that large. -/
def finals? (a : Accumulator k) (count : Nat) : Option (Except Fault Column) :=
  (Builder.withRoom? a.finalType count).map (collect a.evaluateFinal count)

/-- Evaluates each group in turn into one builder, whatever becomes of the others. -/
def evaluateEach (evaluate : Nat → Builder → Attempt Builder) :
    List Nat → Builder → List (Except Fault Unit) × Builder
  | [], output => ([], output)
  | group :: rest, output =>
    let (outcome, output) := evaluate group output
    let (outcomes, output) := evaluateEach evaluate rest output
    (outcome :: outcomes, output)

end Accumulator

end Earliest
