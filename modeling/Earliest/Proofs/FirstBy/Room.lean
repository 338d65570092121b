import Earliest.Proofs.FirstBy.Evaluate
import Earliest.Proofs.FirstBy.Refusal
import Earliest.Proofs.Memory.Conservation

/-! Room for a column of all groups. Each group that was announced has a slot in memory, and the
memory of an array is one object. So where memory that no object can have is never had, a column of
as many rows is not too large for an object either. Only the states want one offset more than there
are groups, and that can be one too many. -/

namespace Earliest

theorem Allocator.Bounded.next {alloc : Allocator} (h : alloc.Bounded) : alloc.next.Bounded :=
  fun request => h (request + 1)

/-- Values take no more room in a column than in the slots of groups. -/
theorem Kind.room_lt {k : Kind} {n : Nat} (h : n * Slot.width k.Cell < objectRange) :
    Store.room k.physical n < objectRange := by
  rw [k.width_cell] at h
  cases k with
  | binary =>
    show (n + 1) % sizeRange * 8 < objectRange
    simp only [Kind.slotSize, objectRange, sizeRange] at h ⊢
    omega
  | _ => exact h

/-- An offset takes as much as a timestamp, and there is one more of them. -/
theorem room_binary_lt {n : Nat} (h : (n + 1) * 8 < objectRange) :
    Store.room .binary n < objectRange := by
  show (n + 1) % sizeRange * 8 < objectRange
  exact (Nat.mul_le_mul_right 8 (Nat.mod_le _ _)).trans_lt h

namespace Accumulator

variable {k : Kind} {a a' : Accumulator k} {alloc : Allocator} {n : Nat}

/-! ## Memory that objects can have -/

/-- The memory of each array is such that an object can have it. -/
def Housed (a : Accumulator k) : Prop := ∀ q, (a.lane q).Housed

theorem housed_new (k : Kind) (xType yType : DataType) (minCapacity : Nat) :
    (new k xType yType minCapacity).Housed := by
  intro q
  cases q <;> exact .new _ minCapacity

theorem Housed.of_arrays (ht : a.timestamps.Housed) (hi : a.initialized.Housed)
    (hn : a.nulls.Housed) (hv : a.values.Housed) : a.Housed
  | .timestamps => ht
  | .initialized => hi
  | .nulls => hn
  | .values => hv

theorem Housed.setGroupCount (ha : a.Housed) (halloc : alloc.Bounded) (count : Nat) (m : Manager) :
    (a.setGroupCount alloc count m).2.1.Housed := by
  unfold Accumulator.setGroupCount
  split
  · exact ha
  · -- an array that cannot grow ends the call, with those before it grown
    rcases ht : a.timestamps.ensure alloc count m with ⟨_ | _, timestamps, m₁⟩
    · exact .of_arrays ((ha .timestamps).ensure halloc ht) (ha .initialized) (ha .nulls)
        (ha .values)
    · have ht := (ha .timestamps).ensure halloc ht
      dsimp only
      rcases hi : a.initialized.ensure alloc.next count m₁ with ⟨_ | _, initialized, m₂⟩
      · exact .of_arrays ht ((ha .initialized).ensure halloc.next hi) (ha .nulls) (ha .values)
      · have hi := (ha .initialized).ensure halloc.next hi
        dsimp only
        rcases hn : a.nulls.ensure alloc.next.next count m₂ with ⟨_ | _, nulls, m₃⟩
        · exact .of_arrays ht hi ((ha .nulls).ensure halloc.next.next hn) (ha .values)
        · have hn := (ha .nulls).ensure halloc.next.next hn
          dsimp only
          rcases hv : a.values.ensure alloc.next.next.next count m₃ with ⟨_ | _, values, m₄⟩ <;>
            exact .of_arrays ht hi hn ((ha .values).ensure halloc.next.next.next hv)

theorem Housed.offer (ha : a.Housed) (group : Nat) (c : Candidate k) :
    (a.offer group c).Housed := by
  unfold Accumulator.offer
  split
  · exact ha
  · intro q
    cases q with
    | timestamps => exact (ha .timestamps).set group _
    | initialized => exact (ha .initialized).set group _
    | nulls => exact (ha .nulls).set group _
    | values =>
      obtain ⟨timestamp, _ | v⟩ := c
      · exact ha .values
      · exact (ha .values).update group _

theorem Housed.absorb (ha : a.Housed) (read : Nat → Except Fault (Option (Candidate k)))
    (row : Nat) (ids : List Nat) : (a.absorb read row ids).2.Housed := by
  induction ids generalizing a row with
  | nil => exact ha
  | cons group rest ih =>
    unfold Accumulator.absorb
    split
    · exact ha
    · exact ih ha (row + 1)
    · split
      · exact ih (ha.offer group _) (row + 1)
      · exact ha

theorem Housed.call (ha : a.Housed) (halloc : alloc.Bounded) (c : Call) (m : Manager) :
    (a.call alloc c m).2.1.Housed := by
  cases c with
  | setGroupCount count => exact ha.setGroupCount halloc count m
  | addInput ids inputs =>
    show (a.addInput ids inputs).2.Housed
    unfold addInput
    split
    · split
      · exact ha
      · exact ha.absorb _ 0 ids
    · exact ha
  | addIntermediate ids input =>
    show (a.addIntermediate ids input).2.Housed
    unfold addIntermediate
    split
    · exact ha
    · exact ha.absorb _ 0 ids

theorem Housed.run (ha : a.Housed) {calls : List (Surroundings × Call)}
    (halloc : ∀ call ∈ calls, call.1.alloc.Bounded) : (a.run calls).2.Housed := by
  induction calls generalizing a with
  | nil => exact ha
  | cons call calls ih =>
    obtain ⟨hfirst, hrest⟩ := List.forall_mem_cons.mp halloc
    exact ih (ha.call hfirst call.2 call.1.manager) hrest

/-! ## Room -/

theorem finals?_eq (ha : a.Sound) (hhoused : a.Housed) (hx : a.xType.physical = k.physical)
    (hn : n ≤ a.groupCount) : a.finals? n = some (a.finals n) := by
  have hslots : n ≤ a.values.capacity := hn.trans (ha.values.trans (hhoused .values).size)
  have hroom : Store.room a.finalType.physical n < objectRange := by
    rw [finalType, hx]
    exact Kind.room_lt ((Nat.mul_le_mul_right _ hslots).trans_lt (hhoused .values).bounded)
  exact (collect_withRoom? a.finalType).trans (if_pos hroom)

theorem intermediates?_eq (hn : (n + 1) * 8 < objectRange) :
    a.intermediates? n = some (a.intermediates n) :=
  (collect_withRoom? a.intermediateType).trans (if_pos (room_binary_lt hn))

end Accumulator

end Earliest
