import Mathlib
import Earliest.Memory.GroupArray

/-! Growing a group array. A call of `ensure` does one of three things: it leaves all as
it was, it adds slots, or it takes memory and adds slots. The manager's counter then
moves with the array's reservation, and the reservation with the capacity. -/

namespace Earliest

/-! ## The counter -/

/-- A tracked manager that counts `total`, within its limit and the counter's range. -/
structure Manager.Counts (m : Manager) (limit : Option Nat) (total : Nat) : Prop where
  eq : m = .tracked ⟨total, limit⟩
  range : total < sizeRange
  within : limit.all (total ≤ ·)

namespace Manager.Counts

variable {m m' : Manager} {limit : Option Nat} {total bytes : Nat}

theorem new (limit : Option Nat) : (Manager.new limit).Counts limit 0 where
  eq := rfl
  range := by decide
  within := by cases limit <;> simp

theorem reserve (hm : m.Counts limit total) (h : m.reserve bytes = .ok m') :
    m'.Counts limit (total + bytes) := by
  obtain ⟨rfl, hr, hw⟩ := hm
  by_cases h0 : bytes = 0
  · simp only [Manager.reserve, Ledger.reserve, h0, if_true, Except.map, Except.ok.injEq] at h
    subst h h0
    exact ⟨rfl, hr, hw⟩
  · by_cases hf : Ledger.fits ⟨total, limit⟩ bytes = true
    · simp only [Manager.reserve, Ledger.reserve, h0, hf, if_false, if_true, Except.map,
        Except.ok.injEq] at h
      subst h
      obtain ⟨hrange, hwithin⟩ := Bool.and_eq_true_iff.mp hf
      exact ⟨rfl, of_decide_eq_true hrange, hwithin⟩
    · simp [Manager.reserve, Ledger.reserve, h0, hf, Except.map] at h

/-- What was counted is given back without a wrap. -/
theorem release (hm : m.Counts limit (total + bytes)) : (m.release bytes).Counts limit total := by
  obtain ⟨rfl, hr, hw⟩ := hm
  have hreserved : (total + bytes + (sizeRange - bytes)) % sizeRange = total := by
    rw [show total + bytes + (sizeRange - bytes) = total + sizeRange by omega,
      Nat.add_mod_right, Nat.mod_eq_of_lt (by omega)]
  refine ⟨by simp only [Manager.release, Ledger.release, hreserved], by omega, ?_⟩
  cases limit with
  | none => rfl
  | some l =>
    simp only [Option.all_some, decide_eq_true_eq] at hw ⊢
    omega

theorem congr {total' : Nat} (hm : m.Counts limit total) (h : total = total') :
    m.Counts limit total' := h ▸ hm

end Manager.Counts

/-- Memory as a call meets it: others may have used it since the call before. -/
structure Surroundings where
  alloc : Allocator
  manager : Manager

namespace GroupArray

variable {α : Type} [Slot α] {a a' : GroupArray α} {alloc : Allocator} {m m' : Manager}
  {outcome : Except Fault Unit} {limit : Option Nat} {n : Nat}

/-! ## The three things a call can do -/

omit [Slot α] in
theorem lt_grownCapacity (h : a.capacity < n) : a.capacity < a.grownCapacity n := by
  unfold grownCapacity
  omega

/-- The bytes that a new capacity takes beyond the old one. -/
def extraBytes (a : GroupArray α) (capacity : Nat) : Nat :=
  (capacity - a.capacity) * Slot.width α

/-- The array with memory for `capacity` slots. -/
def withCapacity (a : GroupArray α) (capacity : Nat) : GroupArray α :=
  { a with capacity, reserved := a.reserved + a.extraBytes capacity }

/-- Memory is taken when the bytes can be counted, the manager grants them and the
allocator has them; otherwise the array stays, and a grant is given back. -/
theorem grow_cases {capacity : Nat} (h : a.grow alloc capacity m = (outcome, a', m')) :
    (outcome = .ok () ∧ a.extraBytes capacity < sizeRange ∧
      m.reserve (a.extraBytes capacity) = .ok m' ∧
      alloc.refusal (capacity * Slot.width α) = none ∧ a' = a.withCapacity capacity) ∨
    ((∃ f, outcome = .error f) ∧ a' = a ∧
      (m' = m ∨ ∃ granted, m.reserve (a.extraBytes capacity) = .ok granted ∧
        m' = granted.release (a.extraBytes capacity))) := by
  unfold grow at h
  simp only at h
  split at h
  · cases h
    exact .inr ⟨⟨_, rfl⟩, rfl, .inl rfl⟩
  · rename_i hrange
    split at h
    · cases h
      exact .inr ⟨⟨_, rfl⟩, rfl, .inl rfl⟩
    · rename_i granted hgrant
      split at h
      · cases h
        exact .inr ⟨⟨_, rfl⟩, rfl, .inr ⟨granted, hgrant, rfl⟩⟩
      · rename_i halloc
        cases h
        exact .inl ⟨rfl, not_le.mp hrange, hgrant, halloc, rfl⟩

/-- A call of `ensure` leaves all as it was, adds slots to the memory there is, or takes
memory and adds slots. -/
theorem ensure_cases (h : a.ensure alloc n m = (outcome, a', m')) :
    (outcome = .ok () ∧ n ≤ a.size ∧ a' = a ∧ m' = m) ∨
    (outcome = .ok () ∧ a.size < n ∧ n ≤ a.capacity ∧ a' = a.extend n ∧ m' = m) ∨
    (outcome = .ok () ∧ a.size < n ∧ a.capacity < n ∧
      a' = (a.withCapacity (a.grownCapacity n)).extend n ∧
      m.reserve (a.extraBytes (a.grownCapacity n)) = .ok m') ∨
    ((∃ f, outcome = .error f) ∧ a' = a ∧
      (m' = m ∨ ∃ granted, m.reserve (a.extraBytes (a.grownCapacity n)) = .ok granted ∧
        m' = granted.release (a.extraBytes (a.grownCapacity n)))) := by
  by_cases hn : n ≤ a.size
  · rw [ensure, if_pos hn] at h
    cases h
    exact .inl ⟨rfl, hn, rfl, rfl⟩
  · rw [ensure, if_neg hn, house] at h
    by_cases hc : n ≤ a.capacity
    · rw [if_pos hc] at h
      cases h
      exact .inr (.inl ⟨rfl, not_le.mp hn, hc, rfl, rfl⟩)
    · rw [if_neg hc] at h
      rcases hg : a.grow alloc (a.grownCapacity n) m with ⟨grown, b, mb⟩
      rcases grow_cases hg with ⟨rfl, -, hgrant, -, rfl⟩ | ⟨⟨f, rfl⟩, rfl, hm⟩
      · simp only [hg, Prod.mk.injEq] at h
        obtain ⟨rfl, rfl, rfl⟩ := h
        exact .inr (.inr (.inl ⟨rfl, not_le.mp hn, not_le.mp hc, rfl, hgrant⟩))
      · simp only [hg, Prod.mk.injEq] at h
        obtain ⟨rfl, rfl, rfl⟩ := h
        exact .inr (.inr (.inr ⟨⟨f, rfl⟩, rfl, hm⟩))

theorem size_extend (h : a.size ≤ n) : (a.extend n).size = n := by
  simp only [size, extend, Array.size_append, Array.size_replicate] at h ⊢
  omega

/-- A call that succeeds makes the slots addressable. -/
theorem le_size_of_ensure (h : a.ensure alloc n m = (.ok (), a', m')) : n ≤ a'.size := by
  rcases ensure_cases h with ⟨-, hn, rfl, -⟩ | ⟨-, hn, -, rfl, -⟩ | ⟨-, hn, -, rfl, -⟩ |
    ⟨⟨f, hf⟩, -⟩
  · exact hn
  · rw [size_extend hn.le]
  · rw [size_extend (show (a.withCapacity _).size ≤ n from hn.le)]
  · cases hf

/-- At most one call of `ensure`, whatever came of it. -/
inductive Called (n : Nat) (a : GroupArray α) (m : Manager) : GroupArray α → Manager → Prop
  | untouched : Called n a m a m
  | once {alloc : Allocator} {outcome : Except Fault Unit} {a' : GroupArray α} {m' : Manager}
      (h : a.ensure alloc n m = (outcome, a', m')) : Called n a m a' m'

/-! ## The reservation -/

/-- The reservation is that of the capacity. -/
def Backed (a : GroupArray α) : Prop := a.reserved = a.capacity * Slot.width α

theorem backed_new (fill : α) (minCapacity : Nat) : (new fill minCapacity).Backed := by
  simp [Backed, new]

theorem backed_withCapacity {capacity : Nat} (ha : a.Backed) (h : a.capacity ≤ capacity) :
    (a.withCapacity capacity).Backed := by
  unfold Backed at ha ⊢
  simp only [withCapacity, extraBytes]
  rw [ha, ← Nat.add_mul, Nat.add_sub_cancel' h]

theorem Backed.ensure (ha : a.Backed) (h : a.ensure alloc n m = (outcome, a', m')) :
    a'.Backed := by
  rcases ensure_cases h with ⟨-, -, rfl, -⟩ | ⟨-, -, -, rfl, -⟩ | ⟨-, -, hc, rfl, -⟩ |
    ⟨-, rfl, -⟩
  · exact ha
  · exact ha
  · exact backed_withCapacity ha (lt_grownCapacity hc).le
  · exact ha

theorem Called.backed (h : Called n a m a' m') (ha : a.Backed) : a'.Backed := by
  cases h with
  | untouched => exact ha
  | once h => exact ha.ensure h

/-- Whatever a call does, the counter moves with this array's reservation. -/
theorem ensure_counts {others : Nat} (h : a.ensure alloc n m = (outcome, a', m'))
    (hm : m.Counts limit (others + a.reserved)) : m'.Counts limit (others + a'.reserved) := by
  rcases ensure_cases h with ⟨-, -, rfl, rfl⟩ | ⟨-, -, -, rfl, rfl⟩ | ⟨-, -, -, rfl, hgrant⟩ |
    ⟨-, rfl, rfl | ⟨granted, hgrant, rfl⟩⟩
  · exact hm
  · exact hm
  · exact Nat.add_assoc others _ _ ▸ hm.reserve hgrant
  · exact hm
  · exact (hm.reserve hgrant).release

theorem Called.counts (others : Nat) (h : Called n a m a' m')
    (hm : m.Counts limit (others + a.reserved)) : m'.Counts limit (others + a'.reserved) := by
  cases h with
  | untouched => exact hm
  | once h => exact ensure_counts h hm

end GroupArray

end Earliest
