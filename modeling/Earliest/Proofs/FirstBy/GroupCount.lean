import Earliest.FirstBy.Accumulator
import Earliest.Proofs.Memory.Growth

/-! What announcing groups does to an accumulator. The four arrays are called in turn up to
the first refusal; only when none refuses does the number of groups change. -/

namespace Earliest

namespace Accumulator

variable {k : Kind} {a a' : Accumulator k} {alloc : Allocator} {count : Nat} {m m' : Manager}
  {outcome : Except Fault Unit}

/-- What is left of a call of `setGroupCount`. -/
structure Announced (count : Nat) (a : Accumulator k) (m : Manager) (outcome : Except Fault Unit)
    (a' : Accumulator k) (m' : Manager) : Prop where
  types : a'.xType = a.xType ∧ a'.yType = a.yType
  arrays : ∃ m₁ m₂ m₃, GroupArray.Called count a.timestamps m a'.timestamps m₁ ∧
    GroupArray.Called count a.initialized m₁ a'.initialized m₂ ∧
    GroupArray.Called count a.nulls m₂ a'.nulls m₃ ∧
    GroupArray.Called count a.values m₃ a'.values m'
  refused : ∀ f, outcome = .error f → a'.groupCount = a.groupCount
  accepted : outcome = .ok () → a'.groupCount = max a.groupCount count
  covered : outcome = .ok () → a.groupCount < count →
    count ≤ a'.timestamps.size ∧ count ≤ a'.initialized.size ∧ count ≤ a'.nulls.size ∧
      count ≤ a'.values.size

theorem setGroupCount_announced (h : a.setGroupCount alloc count m = (outcome, a', m')) :
    Announced count a m outcome a' m' := by
  open GroupArray.Called GroupArray in
  unfold setGroupCount at h
  split at h
  · rename_i hc
    cases h
    exact ⟨⟨rfl, rfl⟩, ⟨_, _, _, untouched, untouched, untouched, untouched⟩, fun _ _ => rfl,
      fun _ => (Nat.max_eq_left hc).symm, fun _ hlt => absurd hc (not_le.mpr hlt)⟩
  · rename_i hc
    split at h
    · rename_i ht
      cases h
      exact ⟨⟨rfl, rfl⟩, ⟨_, _, _, once ht, untouched, untouched, untouched⟩, fun _ _ => rfl,
        nofun, nofun⟩
    · rename_i ht
      split at h
      · rename_i hi
        cases h
        exact ⟨⟨rfl, rfl⟩, ⟨_, _, _, once ht, once hi, untouched, untouched⟩, fun _ _ => rfl,
          nofun, nofun⟩
      · rename_i hi
        split at h
        · rename_i hn
          cases h
          exact ⟨⟨rfl, rfl⟩, ⟨_, _, _, once ht, once hi, once hn, untouched⟩, fun _ _ => rfl,
            nofun, nofun⟩
        · rename_i hn
          split at h
          · rename_i hv
            cases h
            exact ⟨⟨rfl, rfl⟩, ⟨_, _, _, once ht, once hi, once hn, once hv⟩, fun _ _ => rfl,
              nofun, nofun⟩
          · rename_i hv
            cases h
            exact ⟨⟨rfl, rfl⟩, ⟨_, _, _, once ht, once hi, once hn, once hv⟩, nofun,
              fun _ => (Nat.max_eq_right (not_le.mp hc).le).symm,
              fun _ _ => ⟨le_size_of_ensure ht, le_size_of_ensure hi, le_size_of_ensure hn,
                le_size_of_ensure hv⟩⟩

end Accumulator

end Earliest
