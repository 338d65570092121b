import Earliest.Value

/-! A sequence of byte strings kept end to end. String `i` lies between offsets `i`
and `i + 1`; the first offset is zero and the last is the number of bytes. -/

namespace Earliest

structure ByteStrings where
  offsets : Array Nat
  bytes : Array UInt8
  deriving DecidableEq

namespace ByteStrings

def empty : ByteStrings := ⟨#[0], #[]⟩

def size (s : ByteStrings) : Nat := s.offsets.size - 1

def push (s : ByteStrings) (b : Bytes) : ByteStrings :=
  ⟨s.offsets.push (s.bytes.size + b.length), s.bytes ++ b⟩

def get? (s : ByteStrings) (i : Nat) : Option Bytes :=
  match s.offsets[i]?, s.offsets[i + 1]? with
  | some first, some last =>
    if first ≤ last ∧ last ≤ s.bytes.size then some (s.bytes.extract first last).toList
    else none
  | _, _ => none

def ofList (strings : List Bytes) : ByteStrings := strings.foldl push empty

def toList (s : ByteStrings) : List Bytes :=
  (List.range s.size).map fun i => (s.get? i).getD []

end ByteStrings

end Earliest
