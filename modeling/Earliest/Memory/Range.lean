/-! The sizes that memory can have. Addresses have 64 bits, and a single object may take
less than half of what they reach. -/

namespace Earliest

/-- One more than the largest size. -/
def sizeRange : Nat := 0x10000000000000000

/-- The least size that no object can have. -/
def objectRange : Nat := 0x8000000000000000

end Earliest
