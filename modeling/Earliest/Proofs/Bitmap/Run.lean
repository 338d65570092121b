import Earliest.Proofs.Bitmap

/-! Runs of calls on a bitmap. The bitmap stands for a list of bits: a push adds one at the end,
and a write within the length changes one. A write to the padding of the last byte finds its byte
and shows in nothing, and neither do the ones that stand there from the start, since a push writes
over the bit that it takes in. -/

namespace Earliest.Bitmap

variable {m m' : Bitmap} {l : List Bool} {i k : Nat} {v : Bool}

/-! ## Calls -/

/-- The ways to make a bitmap. -/
inductive Start where
  | empty
  | allTrue (n : Nat)
  | allFalse (n : Nat)
  | ofList (bits : List Bool)

def Start.bitmap : Start → Bitmap
  | empty => .empty
  | allTrue n => .allTrue n
  | allFalse n => .allFalse n
  | ofList bits => .ofList bits

def Start.bits : Start → List Bool
  | empty => []
  | allTrue n => List.replicate n true
  | allFalse n => List.replicate n false
  | ofList bits => bits

/-- The calls that change a bitmap. -/
inductive Op where
  | push (v : Bool)
  | set (i : Nat) (v : Bool)

/-- The bitmap after the call. A write that finds no byte leaves it as it was. -/
def apply (m : Bitmap) : Op → Bitmap
  | .push v => m.push v
  | .set i v => (m.set? i v).getD m

def run (m : Bitmap) (ops : List Op) : Bitmap := ops.foldl apply m

/-- What the call makes of a list of bits. A write past its end does nothing. -/
def Op.onBits (l : List Bool) : Op → List Bool
  | push v => l ++ [v]
  | set i v => if i < l.length then l.set i v else l

theorem Op.onBits_set (l : List Bool) (i : Nat) (v : Bool) : onBits l (.set i v) = l.set i v := by
  rw [onBits]
  split
  · rfl
  · rename_i hi
    rw [List.set_eq_of_length_le (not_lt.mp hi)]

/-- The list after the calls. -/
def bitsAfter (l : List Bool) (ops : List Op) : List Bool := ops.foldl Op.onBits l

/-! ## What a bitmap holds -/

/-- The bitmap's bits are these, in exactly the bytes that they take. -/
structure Holds (m : Bitmap) (l : List Bool) : Prop where
  full : m.Full
  toList : m.toList = l

theorem Holds.len_eq (h : m.Holds l) : m.len = l.length := by
  rw [← h.toList, length_toList]

theorem Holds.get?_eq (h : m.Holds l) (hi : i < l.length) : m.get? i = l[i]? := by
  have hlen : i < m.len := h.len_eq ▸ hi
  obtain ⟨b, hb⟩ := exists_get? h.full hlen
  rw [← h.toList, getElem?_toList m hlen, hb, Option.getD_some]

theorem holds_of_get? (hm : m.Full) (hlen : m.len = l.length)
    (h : ∀ i < m.len, m.get? i = l[i]?) : m.Holds l where
  full := hm
  toList := by
    apply List.ext_getElem?
    intro i
    rcases Nat.lt_or_ge i m.len with hi | hi
    · obtain ⟨b, hb⟩ := exists_get? hm hi
      rw [getElem?_toList m hi, ← h i hi, hb, Option.getD_some]
    · rw [List.getElem?_eq_none (length_toList m ▸ hi), List.getElem?_eq_none (hlen ▸ hi)]

theorem Holds.push (h : m.Holds l) (v : Bool) : (m.push v).Holds (l ++ [v]) where
  full := h.full.push v
  toList := by rw [toList_push h.full, h.toList]

/-- A write past the length, where it finds a byte at all, goes to the padding. -/
theorem Holds.set? (h : m.Holds l) (hset : m.set? i v = some m') :
    m'.Holds (Op.onBits l (.set i v)) := by
  have hlen : m'.len = m.len := len_set? hset
  have hbits : (Op.onBits l (.set i v)).length = l.length := by
    rw [Op.onBits]
    split
    · exact List.length_set
    · rfl
  apply holds_of_get? (h.full.set? hset) (hlen.trans (h.len_eq.trans hbits.symm))
  intro j hj
  have hjl : j < l.length := h.len_eq ▸ hlen ▸ hj
  rw [get?_set? hset, h.get?_eq hjl, Op.onBits]
  by_cases hji : j = i
  · subst hji
    rw [if_pos rfl, if_pos hjl, List.getElem?_set_self hjl]
  · rw [if_neg hji]
    split
    · rw [List.getElem?_set_ne (Ne.symm hji)]
    · rfl

/-- There is a byte for each bit of the list, so a write that finds none is past the end. -/
theorem Holds.apply (h : m.Holds l) (op : Op) : (m.apply op).Holds (op.onBits l) := by
  cases op with
  | push v => exact h.push v
  | set i v =>
    rcases hset : m.set? i v with _ | m'
    · have hpast : ¬ i < l.length := by
        intro hi
        have hbyte := div_lt_size h.full (h.len_eq ▸ hi)
        exact absurd (set?_eq_none_iff.mp hset) (not_le.mpr hbyte)
      rw [Bitmap.apply, hset, Option.getD_none, Op.onBits, if_neg hpast]
      exact h
    · rw [Bitmap.apply, hset, Option.getD_some]
      exact h.set? hset

theorem Holds.run (h : m.Holds l) (ops : List Op) : (m.run ops).Holds (bitsAfter l ops) := by
  induction ops generalizing m l with
  | nil => exact h
  | cons op ops ih => exact ih (h.apply op)

theorem holds_empty : empty.Holds [] := ⟨full_empty, rfl⟩

theorem holds_allTrue (n : Nat) : (allTrue n).Holds (List.replicate n true) := by
  have hlen : (allTrue n).len = (List.replicate n true).length := List.length_replicate.symm
  apply holds_of_get? (full_allTrue n) hlen
  intro i (hi : i < n)
  rw [get?_allTrue (lt_byteCount hi), List.getElem?_replicate_of_lt hi]

theorem holds_allFalse (n : Nat) : (allFalse n).Holds (List.replicate n false) := by
  have hlen : (allFalse n).len = (List.replicate n false).length := List.length_replicate.symm
  apply holds_of_get? (full_allFalse n) hlen
  intro i (hi : i < n)
  rw [get?_allFalse (lt_byteCount hi), List.getElem?_replicate_of_lt hi]

theorem Holds.foldl_push (h : m.Holds l) (bits : List Bool) :
    (bits.foldl Bitmap.push m).Holds (l ++ bits) := by
  induction bits generalizing m l with
  | nil => simpa using h
  | cons v bits ih =>
    rw [List.foldl_cons, List.append_cons]
    exact ih (h.push v)

theorem holds_start (start : Start) : start.bitmap.Holds start.bits := by
  cases start with
  | empty => exact holds_empty
  | allTrue n => exact holds_allTrue n
  | allFalse n => exact holds_allFalse n
  | ofList bits => exact holds_empty.foldl_push bits

/-! ## Readers -/

/-- A reader stays at the end once it is there. -/
theorem advance_eq (hi : i ≤ m.len) (k : Nat) :
    Cursor.advance ⟨m, i⟩ k = ⟨m, min (i + k) m.len⟩ := by
  induction k generalizing i with
  | zero => rw [Cursor.advance, Nat.add_zero, Nat.min_eq_left hi]
  | succ k ih =>
    rw [Cursor.advance, Cursor.next]
    split
    · rename_i hlt
      rw [ih (Nat.succ_le_of_lt hlt), show i + 1 + k = i + (k + 1) by omega]
    · rename_i hend
      have hi' : i = m.len := Nat.le_antisymm hi (not_lt.mp hend)
      rw [ih hi, Nat.min_eq_right (by omega), Nat.min_eq_right (by omega)]

/-- What can be seen of a bitmap that holds the bits. -/
structure Shows (m : Bitmap) (l : List Bool) : Prop where
  len : m.len = l.length
  bytes : m.bytes.size = (l.length + 7) / 8
  get : ∀ i < l.length, m.get? i = l[i]?
  unread : ∀ i, m.get? i = none ↔ m.bytes.size ≤ i / 8
  unwritten : ∀ i v, m.set? i v = none ↔ m.bytes.size ≤ i / 8
  kept : ∀ i v, m.bytes.size ≤ i / 8 → m.apply (.set i v) = m
  next : ∀ k, (m.cursor.advance k).next.1 = l[k]?
  sizeHint : ∀ k ≤ l.length,
    (m.cursor.advance k).sizeHint = (l.length - k, some (l.length - k))
  toList : m.toList = l
  countTrues : m.countTrues = l.count true
  isAllTrue : m.isAllTrue = true ↔ ∀ b ∈ l, b = true

theorem Holds.shows (h : m.Holds l) : m.Shows l where
  len := h.len_eq
  bytes := h.len_eq ▸ h.full
  get _ hi := h.get?_eq hi
  unread _ := get?_eq_none_iff
  unwritten _ _ := set?_eq_none_iff
  kept i v hi := by rw [Bitmap.apply, set?_eq_none_iff.mpr hi, Option.getD_none]
  next k := by
    rw [cursor, advance_eq (Nat.zero_le _), Nat.zero_add, Cursor.next, h.len_eq]
    dsimp only
    split
    · rename_i hlt
      have hk : min k l.length = k := by omega
      rw [hk] at hlt ⊢
      exact h.get?_eq hlt
    · rename_i hend
      rw [List.getElem?_eq_none (by omega)]
  sizeHint k hk := by
    rw [cursor, advance_eq (Nat.zero_le _), Nat.zero_add, Cursor.sizeHint, h.len_eq,
      Nat.min_eq_left hk]
  toList := h.toList
  countTrues := by rw [countTrues_eq h.full, h.toList]
  isAllTrue := by rw [isAllTrue_iff h.full, h.toList]

/-- After any calls a bitmap shows the list that its bits were put into, and never the padding of
its last byte. A write there makes no difference to what is seen, whatever calls follow, and
neither do the ones that an all-true bitmap starts with. -/
theorem run_shows (start : Start) (ops : List Op) :
    (start.bitmap.run ops).Shows (bitsAfter start.bits ops) ∧
      (∀ i v later, (start.bitmap.run ops).len ≤ i →
        ∃ l, (start.bitmap.run (ops ++ later)).Shows l ∧
          (start.bitmap.run (ops ++ .set i v :: later)).Shows l) ∧
      ∀ n, ∃ l, ((allTrue n).run ops).Shows l ∧
        ((ofList (List.replicate n true)).run ops).Shows l := by
  have hrun := (holds_start start).run ops
  refine ⟨hrun.shows, ?_, ?_⟩
  · intro i v later hi
    have hpast : ¬ i < (bitsAfter start.bits ops).length := not_lt.mpr (hrun.len_eq ▸ hi)
    refine ⟨bitsAfter start.bits (ops ++ later), ((holds_start start).run _).shows, ?_⟩
    have hbits : bitsAfter start.bits (ops ++ .set i v :: later) =
        bitsAfter start.bits (ops ++ later) := by
      rw [bitsAfter, bitsAfter, List.foldl_append, List.foldl_append, List.foldl_cons]
      congr 1
      exact if_neg hpast
    rw [← hbits]
    exact ((holds_start start).run _).shows
  · intro n
    exact ⟨_, ((holds_start (.allTrue n)).run ops).shows,
      ((holds_start (.ofList (List.replicate n true))).run ops).shows⟩

/-- The second of two writes goes to the padding, where a later push comes to stand. -/
theorem run_shows_padding :
    ((allTrue 3).run ([.set 1 false] ++ .set 4 false :: [.push false, .push true])).Shows
        [true, false, true, false, true] ∧
      ((allTrue 3).run [.set 1 false]).set? 8 true = none := by
  obtain ⟨hbefore, hpadding, -⟩ := run_shows (.allTrue 3) [.set 1 false]
  obtain ⟨l, hwithout, hwith⟩ := hpadding 4 false [.push false, .push true] (by decide)
  have hl : l = [true, false, true, false, true] := by
    rw [← hwithout.toList]
    decide
  exact ⟨hl ▸ hwith, (hbefore.unwritten 8 true).mpr (by decide)⟩

end Earliest.Bitmap
