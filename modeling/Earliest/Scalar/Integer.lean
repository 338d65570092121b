import Earliest.Fault

/-! Scalars as integers. The four integer types can be read as a number; dates and
timestamps cannot, although they are stored as integers. -/

namespace Earliest.Scalar

def toInt? : Scalar → Option Int
  | int8 v => some v.toInt
  | int16 v => some v.toInt
  | int32 v => some v.toInt
  | int64 v => some v.toInt
  | _ => none

def toInt (s : Scalar) : Except Fault Int :=
  match s.toInt? with
  | some n => .ok n
  | none => .error (.notInteger s)

def toNat (s : Scalar) : Except Fault Nat :=
  match s.toInt with
  | .error f => .error f
  | .ok (.ofNat n) => .ok n
  | .ok (.negSucc n) => .error (.negativeInteger (.negSucc n))

end Earliest.Scalar
