import Earliest.Bitmap

/-! Which rows of a column hold a value. A validity of one kind for all rows needs
no mask; the first row of the other kind makes one. -/

namespace Earliest

/-- Equality tells the three forms apart. -/
inductive Validity where
  | allValid (len : Nat)
  | allInvalid (len : Nat)
  | mask (bits : Bitmap)
  deriving DecidableEq

namespace Validity

/-- True bits are valid rows; a mask without a false bit is not kept. -/
def ofBitmap (m : Bitmap) : Validity :=
  if m.isAllTrue then allValid m.len else mask m

def len : Validity → Nat
  | allValid n => n
  | allInvalid n => n
  | mask m => m.len

def isAllValid : Validity → Bool
  | allValid _ => true
  | allInvalid n => n == 0
  | mask m => m.isAllTrue

/-- Only a mask checks the row, and only against its stored bytes. -/
def get? (v : Validity) (i : Nat) : Option Bool :=
  match v with
  | allValid _ => some true
  | allInvalid _ => some false
  | mask m => m.get? i

def setValid? (v : Validity) (i : Nat) : Option Validity :=
  match v with
  | allValid n => some (allValid n)
  | allInvalid n => ((Bitmap.allFalse n).set? i true).map mask
  | mask m => (m.set? i true).map mask

def setInvalid? (v : Validity) (i : Nat) : Option Validity :=
  match v with
  | allValid n => ((Bitmap.allTrue n).set? i false).map mask
  | allInvalid n => some (allInvalid n)
  | mask m => (m.set? i false).map mask

def toList (v : Validity) : List Bool :=
  (List.range v.len).map fun i => (v.get? i).getD false

end Validity

end Earliest
