import Earliest.Proofs.FirstBy.Earliest
import Earliest.Proofs.FirstBy.GroupCount
import Earliest.Proofs.Memory.Slots

/-! What each group of an accumulator holds. The four arrays are seen as one candidate or none
per group: a sound accumulator has all slots of the groups that were announced, and nothing in
any other. Offering a candidate then keeps the earlier one, in that group alone, and announcing
groups changes what none of them holds. -/

namespace Earliest.Accumulator

variable {k : Kind} {a a' : Accumulator k} {c : Candidate k} {g group : Nat}

/-- The group's candidate, if it holds one. -/
def view (a : Accumulator k) (g : Nat) : Option (Candidate k) := (a.candidate? g).join

/-- Announced groups have all four slots, and no other group holds anything. -/
structure Sound (a : Accumulator k) : Prop where
  fill : a.initialized.fill = false
  timestamps : a.groupCount ≤ a.timestamps.size
  initialized : a.groupCount ≤ a.initialized.size
  nulls : a.groupCount ≤ a.nulls.size
  values : a.groupCount ≤ a.values.size
  idle : ∀ g, a.groupCount ≤ g → a.initialized.get? g ≠ some true

theorem sound_new (k : Kind) (xType yType : DataType) (minCapacity : Nat) :
    (new k xType yType minCapacity).Sound := by
  refine ⟨rfl, le_rfl, le_rfl, le_rfl, le_rfl, ?_⟩
  intro g _ h
  simp [new, GroupArray.new, GroupArray.get?] at h

/-! ## Reading a group -/

theorem view_of_not_initialized (h : a.initialized.get? g ≠ some true) : a.view g = none := by
  unfold view candidate?
  split
  · rfl
  · contradiction
  · rfl

theorem view_new (k : Kind) (xType yType : DataType) (minCapacity g : Nat) :
    (new k xType yType minCapacity).view g = none :=
  view_of_not_initialized ((sound_new k xType yType minCapacity).idle g (Nat.zero_le g))

/-- The value behind a slot and its null flag. -/
def valueOf (isNull : Bool) (cell : k.Cell) : Option k.Value :=
  if isNull then none else some (k.read cell)

/-- A group's four slots. -/
structure Slots (a : Accumulator k) (g : Nat) (i : Bool) (t : Int64) (n : Bool) (v : k.Cell) :
    Prop where
  initialized : a.initialized.get? g = some i
  timestamp : a.timestamps.get? g = some t
  isNull : a.nulls.get? g = some n
  value : a.values.get? g = some v

theorem Slots.candidate? {i n : Bool} {t : Int64} {v : k.Cell} (h : a.Slots g i t n v) :
    a.candidate? g = some (if i then some ⟨t, valueOf n v⟩ else none) := by
  obtain ⟨hi, ht, hn, hv⟩ := h
  rw [Accumulator.candidate?, hi, ht, hn, hv]
  cases i <;> rfl

theorem Slots.view {i n : Bool} {t : Int64} {v : k.Cell} (h : a.Slots g i t n v) :
    a.view g = if i then some ⟨t, valueOf n v⟩ else none := by
  rw [Accumulator.view, h.candidate?, Option.join_some]

theorem held_of_le (h : a.groupCount ≤ g) : a.held g = .error (.groupRange g a.groupCount) := by
  rw [held, checkGroup, if_neg (not_lt.mpr h)]

namespace Sound

theorem slots (ha : a.Sound) (hg : g < a.groupCount) : ∃ i t n v, a.Slots g i t n v := by
  obtain ⟨i, hi⟩ := GroupArray.exists_get? (hg.trans_le ha.initialized)
  obtain ⟨t, ht⟩ := GroupArray.exists_get? (hg.trans_le ha.timestamps)
  obtain ⟨n, hn⟩ := GroupArray.exists_get? (hg.trans_le ha.nulls)
  obtain ⟨v, hv⟩ := GroupArray.exists_get? (hg.trans_le ha.values)
  exact ⟨i, t, n, v, hi, ht, hn, hv⟩

theorem covers (ha : a.Sound) (hg : g < a.groupCount) : a.covers g = true := by
  simp [Accumulator.covers, hg.trans_le ha.timestamps, hg.trans_le ha.initialized,
    hg.trans_le ha.nulls, hg.trans_le ha.values]

/-- Reading an announced group gives what it holds. -/
theorem held_eq (ha : a.Sound) (hg : g < a.groupCount) : a.held g = .ok (a.view g) := by
  obtain ⟨i, t, n, v, h⟩ := ha.slots hg
  rw [held, checkGroup, if_pos hg, h.candidate?, h.view]

theorem view_eq_none (ha : a.Sound) (hg : a.groupCount ≤ g) : a.view g = none :=
  view_of_not_initialized (ha.idle g hg)

theorem lt_groupCount_of_view (ha : a.Sound) (h : a.view g = some c) : g < a.groupCount := by
  by_contra hg
  rw [ha.view_eq_none (not_lt.mp hg)] at h
  cases h

theorem held_eq_ok_some_iff (ha : a.Sound) : a.held g = .ok (some c) ↔ a.view g = some c := by
  by_cases hg : g < a.groupCount
  · rw [ha.held_eq hg, Except.ok.injEq]
  · have hview := ha.view_eq_none (not_lt.mp hg)
    rw [held_of_le (not_lt.mp hg), hview]
    simp

end Sound

/-! ## Offering a candidate -/

theorem record_slots {i n : Bool} {t : Int64} {v : k.Cell} (h : a.Slots g i t n v)
    (c : Candidate k) :
    ∃ v', (a.record g c).Slots g true c.timestamp c.value.isNone v' ∧
      valueOf c.value.isNone v' = c.value := by
  obtain ⟨hi, ht, hn, hv⟩ := h
  have hinitialized := GroupArray.get?_set_self true (GroupArray.lt_size_of_get? hi)
  have htimestamp := GroupArray.get?_set_self c.timestamp (GroupArray.lt_size_of_get? ht)
  have hnull := GroupArray.get?_set_self c.value.isNone (GroupArray.lt_size_of_get? hn)
  obtain ⟨timestamp, _ | w⟩ := c
  · exact ⟨v, ⟨hinitialized, htimestamp, hnull, hv⟩, rfl⟩
  · refine ⟨k.write w v, ⟨hinitialized, htimestamp, hnull, ?_⟩, ?_⟩
    · exact GroupArray.get?_update_self _ hv
    · exact congrArg some (k.read_write w v)

theorem view_record_self {i n : Bool} {t : Int64} {v : k.Cell} (h : a.Slots g i t n v)
    (c : Candidate k) : (a.record g c).view g = some c := by
  obtain ⟨v', h', hvalue⟩ := record_slots h c
  rw [h'.view, hvalue]
  rfl

/-- A group keeps its candidate against those that are no earlier. -/
theorem Sound.keeps_eq (ha : a.Sound) (hg : g < a.groupCount) (t : Int64) :
    a.keeps g t = (a.view g).any (·.timestamp ≤ t) := by
  obtain ⟨i, t', n, v, h⟩ := ha.slots hg
  rw [h.view, keeps, h.initialized, h.timestamp]
  cases i <;> rfl

theorem view_offer_self (ha : a.Sound) (hg : g < a.groupCount) (c : Candidate k) :
    (a.offer g c).view g = Candidate.keep (a.view g) c := by
  obtain ⟨i, t, n, v, h⟩ := ha.slots hg
  have hrecord : (a.record g c).view g = some c := view_record_self h c
  rw [offer, ha.keeps_eq hg]
  rcases hview : a.view g with _ | b
  · exact hrecord
  · by_cases ht : b.timestamp ≤ c.timestamp
    · simp [ht, hview, Candidate.keep_of_le ht]
    · simp [ht, hrecord, Candidate.keep_of_lt (Int64.not_le.mp ht)]

theorem candidate?_record_of_ne (c : Candidate k) (h : g ≠ group) :
    (a.record group c).candidate? g = a.candidate? g := by
  unfold candidate? record
  simp only [GroupArray.get?_set_of_ne _ h]
  cases c.value with
  | none => rfl
  | some w => simp only [GroupArray.get?_update_of_ne _ h]

theorem view_offer_of_ne (c : Candidate k) (h : g ≠ group) :
    (a.offer group c).view g = a.view g := by
  unfold offer
  split
  · rfl
  · rw [view, candidate?_record_of_ne c h, view]

@[simp] theorem groupCount_offer (a : Accumulator k) (group : Nat) (c : Candidate k) :
    (a.offer group c).groupCount = a.groupCount := by
  unfold offer
  split <;> rfl

@[simp] theorem xType_offer (a : Accumulator k) (group : Nat) (c : Candidate k) :
    (a.offer group c).xType = a.xType := by
  unfold offer
  split <;> rfl

theorem size_values_record (a : Accumulator k) (group : Nat) (c : Candidate k) :
    (a.record group c).values.size = a.values.size := by
  unfold record
  cases c.value with
  | none => rfl
  | some v => exact GroupArray.size_update _ _ _

theorem Sound.record (ha : a.Sound) (hg : group < a.groupCount) (c : Candidate k) :
    (a.record group c).Sound := by
  obtain ⟨hf, ht, hi, hn, hv, hidle⟩ := ha
  refine ⟨?_, ?_, ?_, ?_, ?_, ?_⟩
  · rw [Accumulator.record, GroupArray.fill_set, hf]
  · rwa [Accumulator.record, GroupArray.size_set]
  · rwa [Accumulator.record, GroupArray.size_set]
  · rwa [Accumulator.record, GroupArray.size_set]
  · rwa [size_values_record]
  · intro g hle
    rw [Accumulator.record, GroupArray.get?_set_of_ne _ (hg.trans_le hle).ne']
    exact hidle g hle

theorem Sound.offer (ha : a.Sound) (hg : group < a.groupCount) (c : Candidate k) :
    (a.offer group c).Sound := by
  unfold Accumulator.offer
  split
  · exact ha
  · exact ha.record hg c

/-! ## Offering candidates in turn -/

/-- Each candidate is offered to its group. -/
def offerAll (a : Accumulator k) (offers : List (Nat × Candidate k)) : Accumulator k :=
  offers.foldl (fun a offer => a.offer offer.1 offer.2) a

/-- The candidates that are offered to a group, in order. -/
def offeredTo (g : Nat) (offers : List (Nat × Candidate k)) : List (Candidate k) :=
  (offers.filter fun offer => offer.1 = g).map Prod.snd

theorem offeredTo_append (g : Nat) (l l' : List (Nat × Candidate k)) :
    offeredTo g (l ++ l') = offeredTo g l ++ offeredTo g l' := by
  simp [offeredTo]

theorem offeredTo_cons_self (g : Nat) (c : Candidate k) (l : List (Nat × Candidate k)) :
    offeredTo g ((g, c) :: l) = c :: offeredTo g l := by
  simp [offeredTo]

theorem offeredTo_cons_of_ne (h : g ≠ group) (c : Candidate k) (l : List (Nat × Candidate k)) :
    offeredTo g ((group, c) :: l) = offeredTo g l := by
  simp [offeredTo, h.symm]

theorem mem_offeredTo_iff {l : List (Nat × Candidate k)} : c ∈ offeredTo g l ↔ (g, c) ∈ l := by
  simp [offeredTo]

theorem offerAll_cons (a : Accumulator k) (group : Nat) (c : Candidate k)
    (l : List (Nat × Candidate k)) :
    a.offerAll ((group, c) :: l) = (a.offer group c).offerAll l := rfl

theorem offerAll_append (a : Accumulator k) (l l' : List (Nat × Candidate k)) :
    a.offerAll (l ++ l') = (a.offerAll l).offerAll l' := List.foldl_append

/-- Every group offered to has been announced. -/
def Announces (a : Accumulator k) (offers : List (Nat × Candidate k)) : Prop :=
  ∀ offer ∈ offers, offer.1 < a.groupCount

@[simp] theorem groupCount_offerAll (a : Accumulator k) (l : List (Nat × Candidate k)) :
    (a.offerAll l).groupCount = a.groupCount := by
  induction l generalizing a with
  | nil => rfl
  | cons offer l ih => rw [offerAll_cons, ih, groupCount_offer]

@[simp] theorem xType_offerAll (a : Accumulator k) (l : List (Nat × Candidate k)) :
    (a.offerAll l).xType = a.xType := by
  induction l generalizing a with
  | nil => rfl
  | cons offer l ih => rw [offerAll_cons, ih, xType_offer]

theorem Announces.tail {l : List (Nat × Candidate k)} (hl : a.Announces ((group, c) :: l)) :
    (a.offer group c).Announces l := by
  intro later hlater
  rw [groupCount_offer]
  exact hl later (List.mem_cons_of_mem _ hlater)

theorem Sound.offerAll {l : List (Nat × Candidate k)} (ha : a.Sound) (hl : a.Announces l) :
    (a.offerAll l).Sound := by
  induction l generalizing a with
  | nil => exact ha
  | cons offer l ih =>
    obtain ⟨group, c⟩ := offer
    have hg : group < a.groupCount := hl (group, c) List.mem_cons_self
    exact ih (ha.offer hg c) hl.tail

/-- Each group keeps the earliest of what it held and what it is offered. -/
theorem view_offerAll {l : List (Nat × Candidate k)} (ha : a.Sound) (hl : a.Announces l)
    (g : Nat) : (a.offerAll l).view g = (offeredTo g l).foldl Candidate.keep (a.view g) := by
  induction l generalizing a with
  | nil => rfl
  | cons offer l ih =>
    obtain ⟨group, c⟩ := offer
    have hg : group < a.groupCount := hl (group, c) List.mem_cons_self
    rw [offerAll_cons, ih (ha.offer hg c) hl.tail]
    by_cases h : g = group
    · subst h
      rw [offeredTo_cons_self, List.foldl_cons, view_offer_self ha hg]
    · rw [offeredTo_cons_of_ne h, view_offer_of_ne c h]

/-! ## Announcing groups -/

namespace Announced

variable {count : Nat} {m m' : Manager} {outcome : Except Fault Unit}

theorem grows (h : Announced count a m outcome a' m') :
    GroupArray.Grows a.timestamps a'.timestamps ∧
      GroupArray.Grows a.initialized a'.initialized ∧ GroupArray.Grows a.nulls a'.nulls ∧
      GroupArray.Grows a.values a'.values := by
  obtain ⟨_, _, _, ht, hi, hn, hv⟩ := h.arrays
  exact ⟨ht.grows, hi.grows, hn.grows, hv.grows⟩

theorem idle (h : Announced count a m outcome a' m') (ha : a.Sound) (hg : a.groupCount ≤ g) :
    a'.initialized.get? g ≠ some true := by
  obtain ⟨-, hi, -, -⟩ := h.grows
  by_cases hold : g < a.initialized.size
  · rw [hi.kept g hold]
    exact ha.idle g hg
  · by_cases hnew : g < a'.initialized.size
    · rw [hi.added g (not_lt.mp hold) hnew, ha.fill]
      decide
    · rw [GroupArray.get?_eq_none (not_lt.mp hnew)]
      decide

theorem groupCount_le (h : Announced count a m outcome a' m') :
    a.groupCount ≤ a'.groupCount := by
  cases outcome with
  | ok => exact h.accepted rfl ▸ le_max_left _ _
  | error f => exact (h.refused f rfl).ge

/-- New groups have slots in an array that kept its own and was covered when all went well. -/
theorem groupCount_le_size {old new : Nat} (h : Announced count a m outcome a' m')
    (hold : a.groupCount ≤ old) (hle : old ≤ new)
    (hnew : outcome = .ok () → a.groupCount < count → count ≤ new) : a'.groupCount ≤ new := by
  cases outcome with
  | error f => exact h.refused f rfl ▸ hold.trans hle
  | ok =>
    rw [h.accepted rfl]
    by_cases hcount : a.groupCount < count
    · exact max_le (hold.trans hle) (hnew rfl hcount)
    · exact max_le (hold.trans hle) ((not_lt.mp hcount).trans (hold.trans hle))

theorem sound (h : Announced count a m outcome a' m') (ha : a.Sound) : a'.Sound := by
  obtain ⟨ht, hi, hn, hv⟩ := h.grows
  refine ⟨hi.fill.trans ha.fill, ?_, ?_, ?_, ?_, ?_⟩
  · exact h.groupCount_le_size ha.timestamps ht.size fun ho hc => (h.covered ho hc).1
  · exact h.groupCount_le_size ha.initialized hi.size fun ho hc => (h.covered ho hc).2.1
  · exact h.groupCount_le_size ha.nulls hn.size fun ho hc => (h.covered ho hc).2.2.1
  · exact h.groupCount_le_size ha.values hv.size fun ho hc => (h.covered ho hc).2.2.2
  · intro g hg
    exact h.idle ha (h.groupCount_le.trans hg)

/-- Old groups keep what they held, and new ones hold nothing. -/
theorem view_eq (h : Announced count a m outcome a' m') (ha : a.Sound) (g : Nat) :
    a'.view g = a.view g := by
  by_cases hg : g < a.groupCount
  · obtain ⟨ht, hi, hn, hv⟩ := h.grows
    unfold view candidate?
    rw [ht.kept g (hg.trans_le ha.timestamps), hi.kept g (hg.trans_le ha.initialized),
      hn.kept g (hg.trans_le ha.nulls), hv.kept g (hg.trans_le ha.values)]
  · rw [ha.view_eq_none (not_lt.mp hg), view_of_not_initialized (h.idle ha (not_lt.mp hg))]

end Announced

end Earliest.Accumulator
