/-! Bitmaps, eight bits to a byte, the least significant first. Reads and writes
are checked only against the stored bytes, so the bits of the last byte past the
length can be reached too; `toList` and the counts never look at them. -/

namespace Earliest

/-- Bit `k` of a byte. -/
def byteBit (b : UInt8) (k : Nat) : Bool := b.toNat.testBit k

def setByteBit (b : UInt8) (k : Nat) (v : Bool) : UInt8 :=
  if v then b ||| (1 <<< UInt8.ofNat k) else b &&& ~~~(1 <<< UInt8.ofNat k)

theorem toNat_one_shiftLeft {k : Nat} (h : k < 8) :
    ((1 : UInt8) <<< UInt8.ofNat k).toNat = 1 <<< k := by
  have hk : (1 <<< k : Nat) < 256 := by
    rw [Nat.shiftLeft_eq, Nat.one_mul]
    exact Nat.pow_lt_pow_right (by decide) h
  rw [UInt8.toNat_shiftLeft]
  simp only [UInt8.toNat_ofNat', UInt8.toNat_one, Nat.reducePow]
  rw [Nat.mod_eq_of_lt (by omega : k < 256), Nat.mod_eq_of_lt h, Nat.mod_eq_of_lt hk]

/-- Writing a bit shows in that bit alone. -/
theorem byteBit_setByteBit (b : UInt8) {k j : Nat} (v : Bool) (hk : k < 8) (hj : j < 8) :
    byteBit (setByteBit b k v) j = if j = k then v else byteBit b j := by
  have hbit : (1 <<< k : Nat).testBit j = decide (j = k) := by
    rw [Nat.shiftLeft_eq, Nat.one_mul, Nat.testBit_two_pow]
    exact decide_eq_decide.2 eq_comm
  cases v with
  | true =>
    simp only [byteBit, setByteBit, if_true, UInt8.toNat_or, toNat_one_shiftLeft hk,
      Nat.testBit_or, hbit]
    by_cases h : j = k <;> simp [h]
  | false =>
    have hnot : (~~~((1 : UInt8) <<< UInt8.ofNat k)).toNat.testBit j = !decide (j = k) := by
      rw [← hbit, ← toNat_one_shiftLeft hk, ← UInt8.toNat_toBitVec, ← UInt8.toNat_toBitVec,
        UInt8.toBitVec_not, BitVec.testBit_toNat, BitVec.testBit_toNat, BitVec.getLsbD_not]
      simp [hj]
    simp only [byteBit, setByteBit, Bool.false_eq_true, if_false, UInt8.toNat_and,
      Nat.testBit_and, hnot]
    by_cases h : j = k <;> simp [h]

/-- How many of the lowest `n` bits are set. -/
def countBits (b : UInt8) (n : Nat) : Nat := (List.range n).countP (byteBit b)

/-- Equality is that of the length and of all stored bytes. -/
structure Bitmap where
  len : Nat
  bytes : Array UInt8
  deriving DecidableEq

namespace Bitmap

/-- The bytes that `n` bits take. -/
def byteCount (n : Nat) : Nat := (n + 7) / 8

def empty : Bitmap := ⟨0, #[]⟩

/-- All bytes are ones, the last one whole. -/
def allTrue (n : Nat) : Bitmap := ⟨n, Array.replicate (byteCount n) 0xFF⟩

def allFalse (n : Nat) : Bitmap := ⟨n, Array.replicate (byteCount n) 0⟩

/-- The bit at `i`, wherever a byte is stored for it. -/
def get? (m : Bitmap) (i : Nat) : Option Bool := m.bytes[i / 8]?.map (byteBit · (i % 8))

def set? (m : Bitmap) (i : Nat) (v : Bool) : Option Bitmap :=
  if i / 8 < m.bytes.size then
    some { m with bytes := m.bytes.modify (i / 8) (setByteBit · (i % 8) v) }
  else none

/-- Adds a bit, and a byte for it when all stored bytes are in use. -/
def push (m : Bitmap) (v : Bool) : Bitmap :=
  let bytes := if m.len = m.bytes.size * 8 then m.bytes.push 0 else m.bytes
  ⟨m.len + 1, bytes.modify (m.len / 8) (setByteBit · (m.len % 8) v)⟩

def ofList (bits : List Bool) : Bitmap := bits.foldl push empty

def toList (m : Bitmap) : List Bool :=
  (List.range m.len).map fun i => (m.get? i).getD false

/-- Counts whole bytes and then takes back the bits of the last one past the length. -/
def countTrues (m : Bitmap) : Nat :=
  let all := m.bytes.foldl (fun n b => n + countBits b 8) 0
  match m.len % 8, m.bytes.back? with
  | 0, _ => all
  | _, none => all
  | used, some last => all - countBits last 8 + countBits last used

def isAllTrue (m : Bitmap) : Bool := m.countTrues == m.len

def text (m : Bitmap) : String :=
  "[" ++ ", ".intercalate (m.toList.map fun b => if b then "true" else "false") ++ "]"

/-- A reader that has passed the bits before `index`. -/
structure Cursor where
  bitmap : Bitmap
  index : Nat

def cursor (m : Bitmap) : Cursor := ⟨m, 0⟩

namespace Cursor

/-- The next bit, none at the end, and the reader past it. -/
def next (c : Cursor) : Option Bool × Cursor :=
  if c.index < c.bitmap.len then (c.bitmap.get? c.index, { c with index := c.index + 1 })
  else (none, c)

def advance (c : Cursor) : Nat → Cursor
  | 0 => c
  | n + 1 => c.next.2.advance n

/-- Bounds on the bits still to come. -/
def sizeHint (c : Cursor) : Nat × Option Nat :=
  let left := c.bitmap.len - c.index
  (left, some left)

end Cursor

end Bitmap

end Earliest
