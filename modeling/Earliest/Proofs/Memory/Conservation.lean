import Earliest.FirstBy.Session
import Earliest.Proofs.FirstBy.View

/-! Accumulators that share a tracked manager. After every step of a session the
manager counts exactly the slots that the live accumulators have memory for, so a
refused growth leaks nothing and gives back nothing twice, and nothing is left once
all are dropped. -/

namespace Earliest

/-- Bytes of one value slot. -/
def Kind.slotSize : Kind → Nat
  | boolean => 1
  | int32 => 4
  | int64 => 8
  | float32 => 4
  | float64 => 8
  | binary => 24

theorem Kind.width_cell (k : Kind) : Slot.width k.Cell = k.slotSize := by
  cases k <;> rfl

namespace Accumulator

variable {k : Kind} {a a' : Accumulator k} {m m' : Manager} {limit : Option Nat} {others : Nat}

/-- Bytes of the slots that the arrays have memory for. -/
def slotBytes (a : Accumulator k) : Nat :=
  a.timestamps.capacity * 8 + a.initialized.capacity * 1 + a.nulls.capacity * 1 +
    a.values.capacity * k.slotSize

/-- What the arrays hold with the manager. -/
def reserved (a : Accumulator k) : Nat :=
  a.timestamps.reserved + a.initialized.reserved + a.nulls.reserved + a.values.reserved

/-- Each array's reservation is that of its capacity. -/
structure Backed (a : Accumulator k) : Prop where
  timestamps : a.timestamps.Backed
  initialized : a.initialized.Backed
  nulls : a.nulls.Backed
  values : a.values.Backed

theorem backed_new (k : Kind) (xType yType : DataType) (minCapacity : Nat) :
    (new k xType yType minCapacity).Backed :=
  ⟨GroupArray.backed_new _ _, GroupArray.backed_new _ _, GroupArray.backed_new _ _,
    GroupArray.backed_new _ _⟩

theorem Backed.reserved_eq (ha : a.Backed) : a.reserved = a.slotBytes := by
  obtain ⟨ht, hi, hn, hv⟩ := ha
  rw [reserved, ht, hi, hn, hv, slotBytes, Kind.width_cell]
  rfl

/-- However far the four arrays get, each is backed. -/
theorem Announced.backed {count : Nat} {outcome : Except Fault Unit}
    (h : Announced count a m outcome a' m') (ha : a.Backed) : a'.Backed := by
  obtain ⟨_, _, _, ht, hi, hn, hv⟩ := h.arrays
  exact ⟨ht.backed ha.timestamps, hi.backed ha.initialized, hn.backed ha.nulls,
    hv.backed ha.values⟩

/-- The counter has moved with all of them. -/
theorem Announced.counts {count : Nat} {outcome : Except Fault Unit}
    (h : Announced count a m outcome a' m') (hm : m.Counts limit (others + a.reserved)) :
    m'.Counts limit (others + a'.reserved) := by
  obtain ⟨-, ⟨m₁, m₂, m₃, ht, hi, hn, hv⟩, -, -, -⟩ := h
  unfold reserved at hm ⊢
  -- each call sees what the other three arrays hold as held by others
  have c₁ := ht.counts (others + a.initialized.reserved + a.nulls.reserved + a.values.reserved)
    (hm.congr (by omega))
  have c₂ := hi.counts (others + a'.timestamps.reserved + a.nulls.reserved + a.values.reserved)
    (c₁.congr (by omega))
  have c₃ :=
    hn.counts (others + a'.timestamps.reserved + a'.initialized.reserved + a.values.reserved)
      (c₂.congr (by omega))
  have c₄ :=
    hv.counts (others + a'.timestamps.reserved + a'.initialized.reserved + a'.nulls.reserved)
      (c₃.congr (by omega))
  exact c₄.congr (by omega)

/-- Two accumulators with the same memory: only what stands in the slots may differ. -/
structure SameMemory (a b : Accumulator k) : Prop where
  capacities : b.timestamps.capacity = a.timestamps.capacity ∧
    b.initialized.capacity = a.initialized.capacity ∧ b.nulls.capacity = a.nulls.capacity ∧
    b.values.capacity = a.values.capacity
  reservations : b.timestamps.reserved = a.timestamps.reserved ∧
    b.initialized.reserved = a.initialized.reserved ∧ b.nulls.reserved = a.nulls.reserved ∧
    b.values.reserved = a.values.reserved

namespace SameMemory

theorem refl (a : Accumulator k) : SameMemory a a :=
  ⟨⟨rfl, rfl, rfl, rfl⟩, ⟨rfl, rfl, rfl, rfl⟩⟩

theorem trans {b c : Accumulator k} (h : SameMemory a b) (h' : SameMemory b c) :
    SameMemory a c := by
  obtain ⟨⟨c₁, c₂, c₃, c₄⟩, ⟨r₁, r₂, r₃, r₄⟩⟩ := h
  obtain ⟨⟨d₁, d₂, d₃, d₄⟩, ⟨s₁, s₂, s₃, s₄⟩⟩ := h'
  exact ⟨⟨d₁.trans c₁, d₂.trans c₂, d₃.trans c₃, d₄.trans c₄⟩,
    ⟨s₁.trans r₁, s₂.trans r₂, s₃.trans r₃, s₄.trans r₄⟩⟩

theorem backed {b : Accumulator k} (h : SameMemory a b) (ha : a.Backed) : b.Backed := by
  obtain ⟨⟨c₁, c₂, c₃, c₄⟩, ⟨r₁, r₂, r₃, r₄⟩⟩ := h
  obtain ⟨ht, hi, hn, hv⟩ := ha
  exact ⟨by rw [GroupArray.Backed, c₁, r₁, ht], by rw [GroupArray.Backed, c₂, r₂, hi],
    by rw [GroupArray.Backed, c₃, r₃, hn], by rw [GroupArray.Backed, c₄, r₄, hv]⟩

theorem reserved {b : Accumulator k} (h : SameMemory a b) : b.reserved = a.reserved := by
  obtain ⟨-, ⟨r₁, r₂, r₃, r₄⟩⟩ := h
  simp only [Accumulator.reserved, r₁, r₂, r₃, r₄]

end SameMemory

theorem sameMemory_offer (a : Accumulator k) (group : Nat) (c : Candidate k) :
    SameMemory a (a.offer group c) := by
  unfold offer
  split
  · exact .refl a
  · cases hv : c.value <;> exact ⟨by simp [record, hv], by simp [record, hv]⟩

theorem sameMemory_offerAll (a : Accumulator k) (l : List (Nat × Candidate k)) :
    SameMemory a (a.offerAll l) := by
  induction l generalizing a with
  | nil => exact .refl a
  | cons o l ih => exact (sameMemory_offer a o.1 o.2).trans (ih _)

theorem sameMemory_absorb (read : Nat → Except Fault (Option (Candidate k))) (a : Accumulator k)
    (row : Nat) (ids : List Nat) : SameMemory a (a.absorb read row ids).2 := by
  induction ids generalizing a row with
  | nil => exact .refl a
  | cons group rest ih =>
    unfold absorb
    split
    · exact .refl a
    · exact ih a (row + 1)
    · split
      · exact (sameMemory_offer a group _).trans (ih _ (row + 1))
      · exact .refl a

theorem sameMemory_addInput (ids : List Nat) (inputs : List Column) (a : Accumulator k) :
    SameMemory a (a.addInput ids inputs).2 := by
  unfold addInput
  split
  · split
    · exact .refl a
    · exact sameMemory_absorb _ a 0 ids
  · exact .refl a

theorem sameMemory_addIntermediate (ids : List Nat) (input : Column) (a : Accumulator k) :
    SameMemory a (a.addIntermediate ids input).2 := by
  unfold addIntermediate
  split
  · exact .refl a
  · exact sameMemory_absorb _ a 0 ids

theorem call_counts {alloc : Allocator} {c : Call} {outcome : Except Fault Unit}
    (h : a.call alloc c m = (outcome, a', m')) (ha : a.Backed)
    (hm : m.Counts limit (others + a.reserved)) :
    a'.Backed ∧ m'.Counts limit (others + a'.reserved) := by
  cases c with
  | setGroupCount count =>
    have hannounced := setGroupCount_announced h
    exact ⟨hannounced.backed ha, hannounced.counts hm⟩
  | addInput ids inputs =>
    have hs := sameMemory_addInput ids inputs a
    cases h
    exact ⟨hs.backed ha, hs.reserved ▸ hm⟩
  | addIntermediate ids input =>
    have hs := sameMemory_addIntermediate ids input a
    cases h
    exact ⟨hs.backed ha, hs.reserved ▸ hm⟩

/-- A dropped accumulator gives back what its arrays hold. -/
theorem free_counts (hm : m.Counts limit (others + a.reserved)) :
    (a.free m).Counts limit others := by
  unfold reserved at hm
  have hall : m.Counts limit (others + a.values.reserved + a.nulls.reserved +
      a.initialized.reserved + a.timestamps.reserved) := hm.congr (by omega)
  exact hall.release.release.release.release

end Accumulator

namespace Aggregate

def slotBytes (a : Aggregate) : Nat := a.state.slotBytes

theorem backed_of_new {xType yType : DataType} {minCapacity : Nat} {a : Aggregate}
    (h : new xType yType minCapacity = .ok a) :
    a.state.Backed ∧ a.slotBytes = 0 := by
  unfold new at h
  split at h
  · cases h
    exact ⟨Accumulator.backed_new _ _ _ _, by simp [slotBytes, Accumulator.slotBytes,
      Accumulator.new, GroupArray.new]⟩
  · cases h

end Aggregate

namespace Session

variable {s : Session} {limit : Option Nat}

/-- Bytes of the slots that the live accumulators have memory for. -/
def slotBytes (s : Session) : Nat :=
  (s.aggregates.map fun a => (a.map Aggregate.slotBytes).getD 0).sum

/-- Each step with the allocator's answers to its requests. -/
def run (s : Session) (steps : List (Allocator × Op)) : Session :=
  steps.foldl (fun s step => (s.apply step.1 step.2).2) s

/-- Each accumulator's reservations are those of its capacities, and the counter is the sum of
them all. -/
structure Conserved (s : Session) (limit : Option Nat) : Prop where
  backed : ∀ a, some a ∈ s.aggregates → a.state.Backed
  counts : s.manager.Counts limit s.slotBytes

theorem conserved_new (limit : Option Nat) : (new (.new limit)).Conserved limit where
  backed := by simp [new]
  counts := .new limit

theorem mem_of_aggregate? {index : Nat} {a : Aggregate} (h : s.aggregate? index = some a) :
    s.aggregates[index]? = some (some a) := by
  unfold aggregate? at h
  rcases hs : s.aggregates[index]? with _ | _ | b
  · simp [hs] at h
  · simp [hs] at h
  · rw [hs, Option.join_some, Option.some.injEq] at h
    rw [h]

theorem Conserved.add (hs : s.Conserved limit) {a : Aggregate}
    (ha : a.state.Backed ∧ a.slotBytes = 0) : (s.add a).Conserved limit := by
  obtain ⟨hb, hz⟩ := ha
  refine ⟨?_, hs.counts.congr (by simp [Session.add, slotBytes, hz])⟩
  intro b hm
  rcases List.mem_append.mp hm with hm | hm
  · exact hs.backed b hm
  · cases List.mem_singleton.mp hm
    exact hb

/-- One accumulator in the place of another, with the counter moved by the difference. -/
theorem Conserved.replace (hs : s.Conserved limit) {index : Nat} {a : Aggregate}
    {b : Option Aggregate} {m : Manager} (ha : s.aggregate? index = some a)
    (hb : ∀ c, b = some c → c.state.Backed)
    (hm : ∀ others, s.manager.Counts limit (others + a.slotBytes) →
      m.Counts limit (others + (b.map Aggregate.slotBytes).getD 0)) :
    Conserved { s with manager := m, aggregates := s.aggregates.set index b } limit := by
  obtain ⟨rest, hsum, hset⟩ :=
    exists_sum_set (fun a => (a.map Aggregate.slotBytes).getD 0) (mem_of_aggregate? ha)
  refine ⟨?_, (hm rest (hs.counts.congr hsum)).congr (hset b).symm⟩
  intro c hc
  rcases List.mem_or_eq_of_mem_set hc with hc | rfl
  · exact hs.backed c hc
  · exact hb c rfl

theorem Conserved.backed_of_aggregate? (hs : s.Conserved limit) {index : Nat} {a : Aggregate}
    (h : s.aggregate? index = some a) : a.state.Backed :=
  hs.backed a (List.mem_of_getElem? (mem_of_aggregate? h))

theorem Conserved.call (hs : s.Conserved limit) (alloc : Allocator) (index : Nat) (c : Call) :
    (s.call alloc index c).2.Conserved limit := by
  unfold Session.call find
  rcases ha : s.aggregate? index with _ | ⟨k, a⟩
  · exact hs
  · rcases hc : a.call alloc c s.manager with ⟨outcome, a', m'⟩
    have hb : a.Backed := hs.backed_of_aggregate? ha
    have hcall : ∀ others, s.manager.Counts limit (others + a.slotBytes) →
        a'.Backed ∧ m'.Counts limit (others + a'.slotBytes) := by
      intro others hm
      obtain ⟨hb', hm'⟩ := Accumulator.call_counts hc hb (hm.congr (by rw [hb.reserved_eq]))
      exact ⟨hb', hm'.congr (by rw [hb'.reserved_eq])⟩
    obtain ⟨rest, hsum, -⟩ :=
      exists_sum_set (fun a => (a.map Aggregate.slotBytes).getD 0) (mem_of_aggregate? ha)
    have hb' := (hcall rest (hs.counts.congr hsum)).1
    simp only [Aggregate.call, hc]
    refine hs.replace ha ?_ ?_
    · rintro _ ⟨⟩
      exact hb'
    · intro others hm
      exact (hcall others hm).2

theorem Conserved.keep (hs : s.Conserved limit) (index count : Nat) :
    (s.keep index count).2.Conserved limit := by
  unfold Session.keep
  split
  · exact hs
  · split
    · exact hs
    · exact hs
    · exact ⟨hs.backed, hs.counts⟩

theorem Conserved.drop (hs : s.Conserved limit) (index : Nat) : (s.drop index).Conserved limit := by
  unfold Session.drop
  split
  · exact hs
  · rename_i a ha
    have hb := hs.backed_of_aggregate? ha
    refine hs.replace ha (by simp) ?_
    intro others hm
    have hm' : s.manager.Counts limit (others + a.state.reserved) :=
      hm.congr (by rw [Aggregate.slotBytes, hb.reserved_eq])
    exact Accumulator.free_counts hm'

/-- Every step, whatever comes of it. -/
theorem Conserved.apply (hs : s.Conserved limit) (alloc : Allocator) (op : Op) :
    (s.apply alloc op).2.Conserved limit := by
  cases op with
  | create xType yType minCapacity =>
    unfold Session.apply
    dsimp only
    split
    · exact hs
    · rename_i ha
      exact hs.add (Aggregate.backed_of_new ha)
  | createAs kind xType yType minCapacity =>
    exact hs.add ⟨Accumulator.backed_new _ _ _ _, by simp [Aggregate.slotBytes,
      Accumulator.slotBytes, Accumulator.new, GroupArray.new]⟩
  | call index c => exact hs.call alloc index c
  | mergeKept index ids column =>
    unfold Session.apply
    dsimp only
    split
    · exact hs
    · exact hs.call alloc index _
  | evaluate stage index group output => exact hs
  | keep index count => exact hs.keep index count
  | drop index => exact hs.drop index

theorem Conserved.run (hs : s.Conserved limit) (steps : List (Allocator × Op)) :
    (s.run steps).Conserved limit := by
  induction steps generalizing s with
  | nil => exact hs
  | cons step rest ih => exact ih (hs.apply step.1 step.2)

/-! ## Nothing is left over -/

theorem aggregates_drop (s : Session) (index : Nat) :
    (s.drop index).aggregates = s.aggregates.set index none := by
  unfold Session.drop
  split
  · rename_i h
    rcases hs : s.aggregates[index]? with _ | _ | a
    · rw [List.set_eq_of_length_le (List.getElem?_eq_none_iff.mp hs)]
    · apply List.ext_getElem?
      intro i
      by_cases hi : index = i
      · subst hi
        have hlt := (List.getElem?_eq_some_iff.mp hs).1
        rw [hs, List.getElem?_set_self hlt]
      · rw [List.getElem?_set_ne hi]
    · simp [aggregate?, hs] at h
  · rfl

theorem getElem?_dropEach (indices : List Nat) (s : Session) (i : Nat) :
    (indices.foldl (fun s index => s.drop index) s).aggregates[i]? =
      if i ∈ indices then s.aggregates[i]?.map fun _ => none else s.aggregates[i]? := by
  induction indices generalizing s with
  | nil => simp
  | cons index rest ih =>
    rw [List.foldl_cons, ih, aggregates_drop]
    by_cases hi : index = i
    · subst hi
      rw [List.getElem?_set_self']
      rcases s.aggregates[index]? with _ | a <;> simp
    · simp [List.getElem?_set_ne hi, Ne.symm hi]

theorem slotBytes_eq_zero (h : ∀ a ∈ s.aggregates, a = none) : s.slotBytes = 0 := by
  apply List.sum_eq_zero
  intro n hn
  obtain ⟨a, ha, rfl⟩ := List.mem_map.mp hn
  rw [h a ha]
  rfl

theorem eq_none_of_mem_dropAll {a : Option Aggregate} (h : a ∈ s.dropAll.aggregates) :
    a = none := by
  obtain ⟨i, hi⟩ := List.getElem?_of_mem h
  rw [dropAll, getElem?_dropEach] at hi
  split at hi
  · obtain ⟨-, -, rfl⟩ := Option.map_eq_some_iff.mp hi
    rfl
  · rename_i hout
    exact absurd (List.mem_range.mpr (List.getElem?_eq_some_iff.mp hi).1) hout

theorem Conserved.dropAll (hs : s.Conserved limit) : s.dropAll.Conserved limit := by
  unfold Session.dropAll
  generalize List.range s.aggregates.length = indices
  induction indices generalizing s with
  | nil => exact hs
  | cons index rest ih => exact ih (hs.drop index)

/-- After every run of every number of accumulators, the counter is the sum of the slots that
the live ones have memory for, within its range and the limit, and it is zero once all are
dropped. -/
theorem reserved_run (limit : Option Nat) (steps : List (Allocator × Op)) :
    let s := (new (.new limit)).run steps
    s.manager.reserved = s.slotBytes ∧ s.manager.limit? = limit ∧ s.slotBytes < 2 ^ 64 ∧
      limit.all (s.slotBytes ≤ ·) ∧ (∀ a, some a ∈ s.aggregates → a.state.Backed) ∧
      ((∀ a ∈ s.aggregates, a = none) → s.manager.reserved = 0) ∧
      s.dropAll.manager.reserved = 0 := by
  intro s
  have hs : s.Conserved limit := (conserved_new limit).run steps
  have reserved_eq {s : Session} (hs : s.Conserved limit) : s.manager.reserved = s.slotBytes := by
    rw [hs.counts.eq]
    rfl
  refine ⟨reserved_eq hs, by rw [hs.counts.eq]; rfl, hs.counts.range, hs.counts.within,
    hs.backed, ?_, ?_⟩
  · intro h
    rw [reserved_eq hs, slotBytes_eq_zero h]
  · rw [reserved_eq hs.dropAll, slotBytes_eq_zero fun a => eq_none_of_mem_dropAll]

end Session

end Earliest
