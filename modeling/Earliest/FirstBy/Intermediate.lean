import Earliest.Fault
import Earliest.FirstBy.BigEndian
import Earliest.FirstBy.Kind

/-! The intermediate state of one group as bytes: the timestamp in eight bytes, a flag
that is 1 for a null value and 0 for a value, and then the value. Numbers stand
most significant byte first, a boolean is one byte 0 or 1, and a byte string
follows its length in four bytes. A reader takes the bytes of one part and leaves
the rest, also when it fails. -/

namespace Earliest

/-- A timestamp with the value, or null, that goes with it. -/
structure Candidate (k : Kind) where
  timestamp : Int64
  value : Option k.Value
  deriving DecidableEq

namespace Intermediate

/-- Takes `n` bytes off the front. -/
def take (part : Part) (n : Nat) (bytes : Bytes) : Except Defect Bytes × Bytes :=
  if bytes.length < n then (.error (.truncated part n bytes.length), bytes)
  else (.ok (bytes.take n), bytes.drop n)

/-- Takes a number of `n` bytes off the front. -/
def takeNumber (part : Part) (n : Nat) (bytes : Bytes) : Except Defect Nat × Bytes :=
  match take part n bytes with
  | (.ok front, rest) => (.ok (ofBigEndian front), rest)
  | (.error d, rest) => (.error d, rest)

/-- The longest byte string whose length can be written. -/
def maxLength : Nat := 0x7FFFFFFF

def encodeValue : (k : Kind) → k.Value → Except Fault Bytes
  | .boolean, v => .ok [if v = true then 1 else 0]
  | .int32, v => .ok (bigEndian 4 (Int32.toBitVec v).toNat)
  | .int64, v => .ok (bigEndian 8 (Int64.toBitVec v).toNat)
  | .float32, v => .ok (bigEndian 4 (Ieee.bits v).toNat)
  | .float64, v => .ok (bigEndian 8 (Ieee.bits v).toNat)
  | .binary, v =>
    if List.length v ≤ maxLength then .ok (bigEndian 4 (List.length v) ++ v)
    else .error (.oversized (List.length v))

def decodeBoolean (bytes : Bytes) : Except Defect Bool × Bytes :=
  match bytes with
  | [] => (.error (.truncated .boolean 1 0), [])
  | b :: rest =>
    if b = 0 then (.ok false, rest)
    else if b = 1 then (.ok true, rest)
    else (.error (.booleanByte b), rest)

/-- The length is signed. -/
def decodeBinary (bytes : Bytes) : Except Defect Bytes × Bytes :=
  match takeNumber .binaryLength 4 bytes with
  | (.error d, rest) => (.error d, rest)
  | (.ok n, rest) =>
    if n ≤ maxLength then take .binaryValue n rest
    else (.error (.negativeLength (BitVec.ofNat 32 n).toInt), rest)

def onValue {α β : Type} (f : α → β) (r : Except Defect α × Bytes) : Except Defect β × Bytes :=
  (r.1.map f, r.2)

def decodeValue : (k : Kind) → Bytes → Except Defect k.Value × Bytes
  | .boolean, bytes => decodeBoolean bytes
  | .int32, bytes =>
    onValue (fun n => Int32.ofBitVec (.ofNat 32 n)) (takeNumber .int32 4 bytes)
  | .int64, bytes =>
    onValue (fun n => Int64.ofBitVec (.ofNat 64 n)) (takeNumber .int64 8 bytes)
  | .float32, bytes =>
    onValue (fun n => (⟨.ofNat _ n⟩ : Ieee .binary32)) (takeNumber .float32 4 bytes)
  | .float64, bytes =>
    onValue (fun n => (⟨.ofNat _ n⟩ : Ieee .binary64)) (takeNumber .float64 8 bytes)
  | .binary, bytes => decodeBinary bytes

/-- The bytes of the timestamp and the flag. -/
def headerLength : Nat := 9

def header (timestamp : Int64) (isNull : Bool) : Bytes :=
  bigEndian 8 timestamp.toBitVec.toNat ++ [if isNull then 1 else 0]

def encode {k : Kind} (c : Candidate k) : Except Fault Bytes :=
  match c.value with
  | none => .ok (header c.timestamp true)
  | some v => (encodeValue k v).map (header c.timestamp false ++ ·)

/-- What follows the header has to be used up. -/
def decodeBody (k : Kind) (flag : UInt8) (bytes : Bytes) : Except Defect (Option k.Value) :=
  let (value, rest) : Except Defect (Option k.Value) × Bytes :=
    if flag = 0 then onValue some (decodeValue k bytes)
    else if flag = 1 then (.ok none, bytes)
    else (.error (.flagByte flag), bytes)
  match value with
  | .error d => .error d
  | .ok v => if rest.isEmpty then .ok v else .error (.trailing rest.length)

def decode (k : Kind) (bytes : Bytes) : Except Defect (Candidate k) :=
  match take .header headerLength bytes with
  | (.error d, _) => .error d
  | (.ok front, rest) =>
    let timestamp := Int64.ofBitVec (.ofNat 64 (ofBigEndian (front.take 8)))
    (decodeBody k (front.getD 8 0) rest).map fun value => ⟨timestamp, value⟩

end Intermediate

/-- How values are spelled out; floating-point numbers are not. -/
def Kind.spelling? : (k : Kind) → Option (k.Value → String)
  | .boolean => some fun v => if v = true then "true" else "false"
  | .int32 => some fun v => toString (Int32.toInt v)
  | .int64 => some fun v => toString (Int64.toInt v)
  | .binary =>
    some fun v => "[" ++ ", ".intercalate (List.map (fun b : UInt8 => toString b.toNat) v) ++ "]"
  | _ => none

/-- The state spelled out, for the kinds whose values are. -/
def Candidate.detail {k : Kind} (c : Candidate k) : Option String :=
  k.spelling?.map fun spell =>
    "DecodedState \x7b timestamp: " ++ toString c.timestamp.toInt ++ ", value: " ++
      (match c.value with
      | none => "None"
      | some v => "Some(" ++ spell v ++ ")") ++ " \x7d"

end Earliest
