import Earliest.Column.Basic

/-! Building a flat column row by row. An entry goes to the data first and to the mask
only after the data took it. -/

namespace Earliest

structure Builder where
  dataType : DataType
  validity : Bitmap
  data : ColumnData

namespace Builder

def new (t : DataType) : Builder := ⟨t, .empty, .empty t.physical⟩

/-- As `new`, with room for so many rows at once; no answer where no object can be that large.
The mask takes an eighth of a byte for a row, for which there is always room. -/
def withRoom? (t : DataType) (capacity : Nat) : Option Builder :=
  (ColumnData.withRoom? t.physical capacity).map fun data => { new t with data }

def physical (b : Builder) : Physical := b.dataType.physical

def len (b : Builder) : Nat := b.validity.len

def appendNull (b : Builder) : Builder :=
  { b with validity := b.validity.push false, data := b.data.pushBlank }

/-- Adds a stored value of type `p`, which has to be the builder's own. -/
def append (p : Physical) (v : p.Value) (b : Builder) : Attempt Builder :=
  match b.data.push p v with
  | (.ok (), data) => (.ok (), { b with validity := b.validity.push true, data })
  | (.error f, data) => (.error f, { b with data })

/-- Adds a stored value of type `p`, or null. -/
def appendStored (p : Physical) (v : Option p.Value) (b : Builder) : Attempt Builder :=
  match v with
  | none => (.ok (), b.appendNull)
  | some v => b.append p v

/-- Adds null or a scalar of the builder's logical type. -/
def appendScalar (s : Scalar) (b : Builder) : Attempt Builder :=
  match s.stored with
  | none => (.ok (), b.appendNull)
  | some v =>
    if s.dataType = b.dataType then b.append s.dataType.physical v
    else (.error (.appended b.dataType s.dataType), b)

/-- Makes an append for each item in turn, up to the first that is refused. -/
def each {ι : Type} (append : ι → Builder → Attempt Builder) :
    List ι → Builder → Attempt Builder
  | [], b => (.ok (), b)
  | item :: rest, b =>
    match append item b with
    | (.ok (), b) => each append rest b
    | (.error f, b) => (.error f, b)

def finish (b : Builder) : Column := .flat b.dataType (.ofBitmap b.validity) b.data

/-- As `finish`, where nothing was refused. -/
def column (result : Attempt Builder) : Except Fault Column :=
  match result with
  | (.ok (), b) => .ok b.finish
  | (.error f, _) => .error f

end Builder

end Earliest
