import Earliest.Proofs.Memory.Slots

/-! The word that the count of an array is kept in. It moves by the operations of 64-bit words, and
is the count itself wherever that is in their range. A build that checks its arithmetic does as one
that does not, as long as the word holds the count; where it does not, the call stops between taking
memory and adding slots. -/

namespace Earliest.GroupArray

variable {α : Type} [Slot α] {a a' : GroupArray α} {alloc : Allocator} {m m' : Manager}
  {outcome : Except Fault Unit} {i n : Nat} {old : α}

/-! ## The word -/

theorem ofInt_natCast (n : Nat) : UInt64.ofInt n = UInt64.ofNat n := by
  apply UInt64.toNat_inj.mp
  simp only [UInt64.ofInt, UInt64.toNat_ofNat']
  omega

theorem ofInt_sub (x y : Int) : UInt64.ofInt (x - y) = UInt64.ofInt x - UInt64.ofInt y := by
  rw [Int.sub_eq_add_neg, UInt64.ofInt_add, UInt64.ofInt_neg, UInt64.sub_eq_add_neg]

omit [Slot α] in
theorem toNat_heapWord (a : GroupArray α) : (a.heapWord.toNat : Int) = a.heapBytes % 2 ^ 64 := by
  simp only [heapWord, UInt64.ofInt, UInt64.toNat_ofNat']
  omega

omit [Slot α] in
/-- In the range of words the count is the word. -/
theorem toNat_heapWord_of_lt (h : 0 ≤ a.heapBytes) (hlt : a.heapBytes < 2 ^ 64) :
    (a.heapWord.toNat : Int) = a.heapBytes := by
  rw [toNat_heapWord, Int.emod_eq_of_lt h hlt]

/-- Slots that are added add a product to the word. -/
theorem heapWord_extend (a : GroupArray α) (n : Nat) : (a.extend n).heapWord =
    a.heapWord + .ofNat (n - a.size) * .ofNat (Slot.heap a.fill) := by
  have hcount : (a.extend n).heapBytes =
      a.heapBytes + ((n - a.size : Nat) : Int) * (Slot.heap a.fill : Nat) := by
    rw [← Nat.cast_mul]
    rfl
  rw [heapWord, hcount, UInt64.ofInt_add, UInt64.ofInt_mul, ofInt_natCast, ofInt_natCast, heapWord]

/-- A value in place of another adds what it owns to the word, less what the other owned. -/
theorem heapWord_set (h : a.get? i = some old) (v : α) : (a.set i v).heapWord =
    a.heapWord - .ofNat (Slot.heap old) + .ofNat (Slot.heap v) := by
  rw [heapWord, heapBytes_set h, UInt64.ofInt_add, ofInt_sub, ofInt_natCast, ofInt_natCast,
    heapWord]

/-- What the array uses, in the word's own arithmetic. -/
theorem ofInt_footprint (a : GroupArray α) :
    UInt64.ofInt a.footprint = .ofNat (a.capacity * Slot.width α) + a.heapWord := by
  rw [footprint, UInt64.ofInt_add, ofInt_natCast, heapWord]

/-! ## A build that checks its arithmetic -/

/-- Taking memory changes nothing but the capacity and the reservation. -/
theorem exists_of_house (h : a.house alloc n m = (outcome, a', m')) :
    ∃ capacity reserved, a' = { a with capacity, reserved } := by
  by_cases hc : n ≤ a.capacity
  · rw [house, if_pos hc] at h
    cases h
    exact ⟨_, _, rfl⟩
  · rw [house, if_neg hc] at h
    rcases grow_cases h with ⟨-, -, -, -, rfl⟩ | ⟨-, rfl, -⟩
    · exact ⟨_, _, rfl⟩
    · exact ⟨_, _, rfl⟩

/-- Such a build ends a call as one that lets the word wrap does, but where the word does not hold
the count: then the call stops with the memory taken, and with no slot added or counted. -/
theorem ensureChecked_of_ensure (h : a.ensure alloc n m = (outcome, a', m')) :
    a.ensureChecked alloc n m =
      if outcome = .ok () ∧ sizeRange ≤ a.heapWord.toNat + (n - a.size) * Slot.heap a.fill then
        (none, { a' with values := a.values, heapBytes := a.heapBytes }, m')
      else (some outcome, a', m') := by
  by_cases hn : n ≤ a.size
  · rw [ensure, if_pos hn] at h
    cases h
    have hlt : a.heapWord.toNat + (n - a.size) * Slot.heap a.fill < sizeRange := by
      rw [Nat.sub_eq_zero_of_le hn, Nat.zero_mul]
      exact a.heapWord.toNat_lt
    rw [ensureChecked, if_pos hn, if_neg fun h => absurd h.2 (not_le.mpr hlt)]
  · rw [ensure, if_neg hn] at h
    rw [ensureChecked, if_neg hn]
    rcases hhouse : a.house alloc n m with ⟨housed, b, mb⟩
    obtain ⟨capacity, reserved, rfl⟩ := exists_of_house hhouse
    rw [hhouse] at h
    cases housed with
    | error f =>
      cases h
      simp only [reduceCtorEq, false_and, if_false]
    | ok =>
      cases h
      by_cases hrange : sizeRange ≤ a.heapWord.toNat + (n - a.size) * Slot.heap a.fill
      · have hfull : holdsCount { a with capacity, reserved } n = false :=
          decide_eq_false (not_lt.mpr hrange)
        rw [if_pos ⟨rfl, hrange⟩]
        simp only [hfull, Bool.false_eq_true, if_false, extend]
      · have hholds : holdsCount { a with capacity, reserved } n = true :=
          decide_eq_true (not_le.mp hrange)
        rw [if_neg fun h => hrange h.2]
        simp only [hholds, if_true]

theorem ensureChecked_of_holds (h : a.ensure alloc n m = (outcome, a', m'))
    (hholds : a.heapWord.toNat + (n - a.size) * Slot.heap a.fill < sizeRange ∨
      outcome ≠ .ok ()) : a.ensureChecked alloc n m = (some outcome, a', m') := by
  rw [ensureChecked_of_ensure h, if_neg]
  rintro ⟨hok, hrange⟩
  exact hholds.elim (absurd hrange ∘ not_le.mpr) (absurd hok)

theorem ensureChecked_of_full (h : a.ensure alloc n m = (.ok (), a', m'))
    (hfull : sizeRange ≤ a.heapWord.toNat + (n - a.size) * Slot.heap a.fill) :
    a.ensureChecked alloc n m =
      (none, { a' with values := a.values, heapBytes := a.heapBytes }, m') := by
  rw [ensureChecked_of_ensure h, if_pos ⟨rfl, hfull⟩]

end Earliest.GroupArray
