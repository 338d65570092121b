import Earliest.Proofs.Memory.Run

/-! Few growths for many slots. An array that runs out of memory at least doubles what it has, so
the capacity is never more than twice the slots or the least there may be, and it has changed no
more often than its logarithm says. Only a value that takes up no memory at all could have a
capacity that doubling carries past the range of sizes. -/

namespace Earliest.GroupArray

variable {α : Type} [Slot α] {a a' : GroupArray α} {n : Nat} {s : Surroundings} {op : Op α}
  {outcome : Except Fault Unit} {steps : List (Surroundings × Op α)}
  {trace : List (Op α × Except Fault Unit)}

/-! ## One growth -/

/-- What an object can have room for is far from where doubling stops. -/
theorem Housed.two_mul_capacity_lt (ha : a.Housed) (hwidth : 0 < Slot.width α) :
    2 * a.capacity < sizeRange := by
  have hle : a.capacity ≤ a.capacity * Slot.width α := Nat.le_mul_of_pos_right _ hwidth
  have hlt := ha.bounded
  simp only [objectRange, sizeRange] at hlt ⊢
  omega

theorem Housed.two_mul_capacity_le (ha : a.Housed) (hwidth : 0 < Slot.width α) (n : Nat) :
    2 * a.capacity ≤ a.grownCapacity n := by
  have hlt := ha.two_mul_capacity_lt hwidth
  unfold grownCapacity
  omega

/-- Only a call that succeeds and asks for more than there is memory for changes the capacity. -/
theorem Ends.capacity_cases (h : Ends a op outcome a') (hsize : a.size ≤ a.capacity) :
    (∃ n, op = .ensure n ∧ a.capacity < n ∧ outcome = .ok () ∧
      a'.capacity = a.grownCapacity n) ∨
    ((∀ n, op = .ensure n → a.capacity < n → outcome ≠ .ok ()) ∧ a'.capacity = a.capacity) := by
  cases h with
  | @ensured s n _ _ m' h =>
    rcases ensure_cases h with ⟨-, hn, rfl, -⟩ | ⟨-, -, hc, rfl, -⟩ | ⟨rfl, -, hc, rfl, -⟩ |
      ⟨⟨f, rfl⟩, rfl, -⟩
    · refine .inr ⟨?_, rfl⟩
      rintro _ ⟨⟩ hc
      exact absurd (hn.trans hsize) (not_le.mpr hc)
    · refine .inr ⟨?_, rfl⟩
      rintro _ ⟨⟩ hc'
      exact absurd hc (not_le.mpr hc')
    · exact .inl ⟨n, rfl, hc, rfl, rfl⟩
    · exact .inr ⟨fun _ _ _ => nofun, rfl⟩
  | written hop =>
    refine .inr ⟨?_, capacity_update _ _ _⟩
    rintro n rfl
    cases hop
  | unwound => exact .inr ⟨fun _ _ _ => nofun, rfl⟩
  | missed => exact .inr ⟨fun _ _ _ => nofun, rfl⟩

theorem Ends.two_mul_capacity_le (h : Ends a op outcome a') (ha : a.Housed)
    (hwidth : 0 < Slot.width α) (hne : a'.capacity ≠ a.capacity) :
    2 * a.capacity ≤ a'.capacity := by
  rcases h.capacity_cases ha.size with ⟨n, -, -, -, hgrown⟩ | ⟨-, hsame⟩
  · exact hgrown ▸ ha.two_mul_capacity_le hwidth n
  · exact absurd hsame hne

theorem Housed.apply (ha : a.Housed) (halloc : s.alloc.Bounded) (op : Op α) :
    (a.apply s op).2.Housed := by
  cases op with
  | ensure n => exact ha.ensure halloc rfl
  | set i v =>
    rw [GroupArray.apply, trySet]
    split
    · exact ha.set i v
    · exact ha
  | update i f => exact ha.tryUpdate i f

/-! ## Runs -/

/-- How often the capacity changed in the course of the calls. -/
def growths : List (Surroundings × Op α) → GroupArray α → Nat
  | [], _ => 0
  | (s, op) :: rest, a =>
    let b := (a.apply s op).2
    (if b.capacity = a.capacity then 0 else 1) + growths rest b

/-- Each growth at least doubles the capacity, and the first one takes some. -/
theorem Housed.run (ha : a.Housed) (hwidth : 0 < Slot.width α)
    (halloc : ∀ step ∈ steps, step.1.alloc.Bounded) (hrun : a.run steps = (trace, a')) :
    a'.Housed ∧ 2 ^ growths steps a * a.capacity ≤ a'.capacity ∧
      (1 ≤ growths steps a → 2 ^ (growths steps a - 1) ≤ a'.capacity) := by
  induction steps generalizing a trace with
  | nil =>
    cases hrun
    refine ⟨ha, ?_, nofun⟩
    rw [growths, pow_zero, Nat.one_mul]
  | cons step steps ih =>
    obtain ⟨s, op⟩ := step
    obtain ⟨outcome, b, rest, hstep, hrest, rfl⟩ := exists_apply_of_run_cons hrun
    have hb : b.Housed := by
      have h := ha.apply (halloc (s, op) List.mem_cons_self) op
      rwa [hstep] at h
    obtain ⟨hlast, hdoubled, hfirst⟩ :=
      ih hb (fun step hmem => halloc step (List.mem_cons_of_mem _ hmem)) hrest
    refine ⟨hlast, ?_⟩
    simp only [growths, hstep]
    split
    · rename_i hsame
      rw [Nat.zero_add]
      exact ⟨hsame ▸ hdoubled, hfirst⟩
    · rename_i hne
      have htwice := (ends_of_apply hstep).two_mul_capacity_le ha hwidth hne
      have hpos : 1 ≤ b.capacity := by omega
      refine ⟨?_, ?_⟩
      · calc
          2 ^ (1 + growths steps b) * a.capacity = 2 ^ growths steps b * (2 * a.capacity) := by
            rw [pow_add, pow_one]
            ring
          _ ≤ 2 ^ growths steps b * b.capacity := Nat.mul_le_mul_left _ htwice
          _ ≤ a'.capacity := hdoubled
      · intro _
        rw [Nat.add_sub_cancel_left]
        exact (Nat.le_mul_of_pos_right _ hpos).trans hdoubled

end Earliest.GroupArray
