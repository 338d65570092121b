import Earliest.Fault
import Earliest.Memory.Range

/-! Memory managers. A manager grants reservations of bytes before memory is taken
and gets them back afterwards. A tracked one counts what is reserved in a 64-bit
counter and refuses what would pass its limit or the counter's range. -/

namespace Earliest

/-- Reserved bytes and the most that may be reserved. -/
structure Ledger where
  reserved : Nat
  limit : Option Nat
  deriving DecidableEq

namespace Ledger

def fits (l : Ledger) (bytes : Nat) : Bool :=
  l.reserved + bytes < sizeRange && l.limit.all (l.reserved + bytes ≤ ·)

/-- Nothing is always granted, even where the counter stands above the limit. -/
def reserve (l : Ledger) (bytes : Nat) : Except Fault Ledger :=
  if bytes = 0 then .ok l
  else if l.fits bytes then .ok { l with reserved := l.reserved + bytes }
  else .error (.memoryLimit bytes l.reserved l.limit)

/-- The counter wraps when more is given back than was reserved. -/
def release (l : Ledger) (bytes : Nat) : Ledger :=
  { l with reserved := (l.reserved + (sizeRange - bytes)) % sizeRange }

end Ledger

inductive Manager where
  /-- Grants everything and counts nothing. -/
  | untracked
  | tracked (ledger : Ledger)
  deriving DecidableEq

namespace Manager

def new (limit : Option Nat) : Manager := tracked ⟨0, limit⟩

def reserve (m : Manager) (bytes : Nat) : Except Fault Manager :=
  match m with
  | untracked => .ok untracked
  | tracked l => (l.reserve bytes).map tracked

def release (m : Manager) (bytes : Nat) : Manager :=
  match m with
  | untracked => untracked
  | tracked l => tracked (l.release bytes)

def ledger? : Manager → Option Ledger
  | untracked => none
  | tracked l => some l

def reserved (m : Manager) : Nat := (m.ledger?.map Ledger.reserved).getD 0

def limit? (m : Manager) : Option Nat := m.ledger?.bind Ledger.limit

end Manager

end Earliest
