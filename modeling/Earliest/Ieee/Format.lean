/-! Floating-point numbers as their stored bits. Nothing here computes with
them: they are carried bit for bit, compared by the IEEE rule, and taken apart
into a sign, a significand and a power of two, so that a finite number is
exactly `significand * 2 ^ scale`. -/

namespace Earliest

/-- An interchange format, given by the widths of its two fields. -/
structure Format where
  exponentBits : Nat
  fractionBits : Nat

namespace Format

abbrev width (f : Format) : Nat := 1 + f.exponentBits + f.fractionBits

abbrev binary16 : Format := ⟨5, 10⟩
abbrev binary32 : Format := ⟨8, 23⟩
abbrev binary64 : Format := ⟨11, 52⟩

def bias (f : Format) : Nat := (1 <<< (f.exponentBits - 1)) - 1

end Format

/-- A number of format `f`, as its bits. Equality of this type is equality of
bits; `Ieee.equal` is the comparison of numbers. -/
structure Ieee (f : Format) where
  bits : BitVec f.width
  deriving DecidableEq

namespace Ieee

variable {f : Format}

def zero : Ieee f := ⟨0⟩

def negative (x : Ieee f) : Bool := x.bits.msb

def fraction (x : Ieee f) : Nat := (x.bits.extractLsb' 0 f.fractionBits).toNat

def exponent (x : Ieee f) : Nat := (x.bits.extractLsb' f.fractionBits f.exponentBits).toNat

/-- The all-ones exponent, kept for infinities and NaNs. -/
def special (x : Ieee f) : Bool := x.exponent + 1 == 1 <<< f.exponentBits

def isNaN (x : Ieee f) : Bool := x.special && x.fraction != 0

def isInfinite (x : Ieee f) : Bool := x.special && x.fraction == 0

def isZero (x : Ieee f) : Bool := x.exponent == 0 && x.fraction == 0

/-- A NaN equals nothing, not even itself; the two zeros are equal. -/
def equal (x y : Ieee f) : Bool :=
  !x.isNaN && !y.isNaN && (x == y || (x.isZero && y.isZero))

/-- The hidden bit is set except in subnormals. -/
def significand (x : Ieee f) : Nat :=
  if x.exponent = 0 then x.fraction else (1 <<< f.fractionBits) + x.fraction

def scale (x : Ieee f) : Int :=
  (max x.exponent 1 : Nat) - (f.bias + f.fractionBits : Nat)

/-- The same number in the 32-bit format, which holds every 16-bit one. -/
def toSingle (x : Ieee .binary16) : Ieee .binary32 :=
  let sign := if x.negative then 1 <<< 31 else 0
  let magnitude :=
    if x.special then (255 <<< 23) + (x.fraction <<< 13)
    else if x.isZero then 0
    else
      let top := Nat.log2 x.significand
      ((top + x.scale + 127).toNat <<< 23) + ((x.significand <<< (23 - top)) - (1 <<< 23))
  ⟨BitVec.ofNat _ (sign + magnitude)⟩

end Ieee

end Earliest
