import Earliest.Proofs.FirstBy.Indistinguishable
import Earliest.Proofs.FirstBy.Input
import Earliest.Proofs.FirstBy.Intact
import Earliest.Proofs.Memory.Ensure

/-! Announcements that are refused. The four arrays grow in turn, and those that grew before one was
refused stay grown, with their memory counted. Calls do not tell such an accumulator from one that
was not asked, and when the announcement is made again and succeeds nothing is left of the
refusal. -/

namespace Earliest

/-- The answers after so many requests. -/
def Allocator.after (alloc : Allocator) (requests : Nat) : Allocator :=
  Allocator.next^[requests] alloc

namespace Accumulator

variable {k : Kind} {a a' b b' : Accumulator k} {alloc : Allocator} {count : Nat} {m m' : Manager}
  {f : Fault}

/-! ## The arrays -/

/-- The arrays, in the order in which they grow. -/
inductive Lane where
  | timestamps
  | initialized
  | nulls
  | values
  deriving DecidableEq

namespace Lane

@[reducible] def Cell (k : Kind) : Lane → Type
  | timestamps => Int64
  | initialized => Bool
  | nulls => Bool
  | values => k.Cell

instance cellSlot (k : Kind) : (lane : Lane) → Slot (lane.Cell k)
  | timestamps => inferInstanceAs (Slot Int64)
  | initialized => inferInstanceAs (Slot Bool)
  | nulls => inferInstanceAs (Slot Bool)
  | values => inferInstanceAs (Slot k.Cell)

/-- What the slot of a new group holds. -/
def blank (k : Kind) : (lane : Lane) → lane.Cell k
  | timestamps => Int64.maxValue
  | initialized => false
  | nulls => true
  | values => k.blank

/-- The arrays that grow before it. -/
def before : Lane → List Lane
  | timestamps => []
  | initialized => [timestamps]
  | nulls => [timestamps, initialized]
  | values => [timestamps, initialized, nulls]

end Lane

def lane (a : Accumulator k) : (lane : Lane) → GroupArray (lane.Cell k)
  | .timestamps => a.timestamps
  | .initialized => a.initialized
  | .nulls => a.nulls
  | .values => a.values

theorem Sound.groupCount_le_size (ha : a.Sound) (q : Lane) : a.groupCount ≤ (a.lane q).size := by
  cases q with
  | timestamps => exact ha.timestamps
  | initialized => exact ha.initialized
  | nulls => exact ha.nulls
  | values => exact ha.values

theorem Lane.copy_blank (k : Kind) (q : Lane) : Slot.copy (q.blank k) = q.blank k := by
  cases q with
  | values => exact k.copy_blank
  | _ => rfl

theorem Intact.fill_lane (ha : a.Intact) (q : Lane) : (a.lane q).fill = q.blank k := by
  obtain ⟨ht, hn, hv⟩ := ha.fills
  cases q with
  | timestamps => exact ht
  | initialized => exact ha.sound.fill
  | nulls => exact hn
  | values => exact hv

theorem Announced.called_lane {outcome : Except Fault Unit}
    (h : Announced count a m outcome a' m') (q : Lane) :
    ∃ m₁ m₂, GroupArray.Called count (a.lane q) m₁ (a'.lane q) m₂ := by
  obtain ⟨_, _, _, ht, hi, hn, hv⟩ := h.arrays
  cases q with
  | timestamps => exact ⟨_, _, ht⟩
  | initialized => exact ⟨_, _, hi⟩
  | nulls => exact ⟨_, _, hn⟩
  | values => exact ⟨_, _, hv⟩

theorem Announced.grows_lane {outcome : Except Fault Unit}
    (h : Announced count a m outcome a' m') (q : Lane) :
    GroupArray.Grows (a.lane q) (a'.lane q) := by
  obtain ⟨_, _, hcalled⟩ := h.called_lane q
  exact hcalled.grows

theorem Extends.widens_lane (h : Extends a a') (q : Lane) :
    GroupArray.Widens (a.lane q) (a'.lane q) := by
  cases q with
  | timestamps => exact h.timestamps
  | initialized => exact h.initialized
  | nulls => exact h.nulls
  | values => exact h.values

/-! ## What a call leaves -/

/-- The accumulator after an announcement that was refused at that array. -/
def partly (count : Nat) (a : Accumulator k) : Lane → Accumulator k
  | .timestamps => a
  | .initialized => { a with timestamps := a.timestamps.ensured count }
  | .nulls =>
    { a with
      timestamps := a.timestamps.ensured count
      initialized := a.initialized.ensured count }
  | .values =>
    { a with
      timestamps := a.timestamps.ensured count
      initialized := a.initialized.ensured count
      nulls := a.nulls.ensured count }

/-- The bytes that were granted before it. -/
def partlyBytes (count : Nat) (a : Accumulator k) (q : Lane) : Nat :=
  (q.before.map fun p => (a.lane p).growthBytes count).sum

/-- The accumulator after an announcement that succeeded. -/
def announce (count : Nat) (a : Accumulator k) : Accumulator k :=
  if count ≤ a.groupCount then a
  else
    { a with
      groupCount := count
      timestamps := a.timestamps.ensured count
      initialized := a.initialized.ensured count
      nulls := a.nulls.ensured count
      values := a.values.ensured count }

theorem lane_partly_of_mem {p q : Lane} (h : p ∈ q.before) :
    (a.partly count q).lane p = (a.lane p).ensured count := by
  cases q <;> cases p <;> first | rfl | exact absurd h (by decide)

theorem lane_partly_of_not_mem {p q : Lane} (h : p ∉ q.before) :
    (a.partly count q).lane p = a.lane p := by
  cases q <;> cases p <;> first | rfl | exact absurd (by decide) h

theorem groupCount_partly (count : Nat) (a : Accumulator k) (q : Lane) :
    (a.partly count q).groupCount = a.groupCount := by
  cases q <;> rfl

/-- What grew before the refusal need not grow again. -/
theorem announce_partly (h : a.groupCount < count) (q : Lane) :
    (a.partly count q).announce count = a.announce count := by
  have hc : ¬ count ≤ a.groupCount := not_le.mpr h
  unfold announce
  rw [groupCount_partly, if_neg hc, if_neg hc]
  cases q <;> simp only [partly, GroupArray.ensured_ensured]

/-- All that an announcement can do. It succeeds, or one of the arrays is refused when the manager
has granted what the arrays before it asked for. -/
theorem setGroupCount_cases {outcome : Except Fault Unit}
    (h : a.setGroupCount alloc count m = (outcome, a', m')) :
    (outcome = .ok () ∧ a' = a.announce count) ∨
    ∃ (f : Fault) (q : Lane) (granted : Manager), outcome = .error f ∧ a.groupCount < count ∧
      a' = a.partly count q ∧ granted = m.charge (a.partlyBytes count q) ∧
      (m.reserved < sizeRange → granted.reserved < sizeRange) ∧
      (a.lane q).ensure (alloc.after q.before.length) count granted = (.error f, a.lane q, m') := by
  open GroupArray in
  unfold setGroupCount at h
  unfold announce
  split at h
  · rename_i hc
    cases h
    exact .inl ⟨rfl, (if_pos hc).symm⟩
  · rename_i hc
    rw [if_neg hc]
    have hlt := not_le.mp hc
    split at h
    · rename_i ht
      cases h
      obtain rfl := eq_of_ensure_error ht
      exact .inr ⟨_, .timestamps, m, rfl, hlt, rfl, (Manager.charge_zero m).symm, id, ht⟩
    · rename_i ht
      obtain ⟨rfl, rfl, hm₁⟩ := ensure_ok ht
      split at h
      · rename_i hi
        cases h
        obtain rfl := eq_of_ensure_error hi
        exact .inr ⟨_, .initialized, _, rfl, hlt, rfl, rfl, hm₁, hi⟩
      · rename_i hi
        obtain ⟨rfl, rfl, hm₂⟩ := ensure_ok hi
        rw [Manager.charge_charge] at h hm₂
        split at h
        · rename_i hn
          cases h
          obtain rfl := eq_of_ensure_error hn
          exact .inr ⟨_, .nulls, _, rfl, hlt, rfl, rfl, hm₂ ∘ hm₁, hn⟩
        · rename_i hn
          obtain ⟨rfl, rfl, hm₃⟩ := ensure_ok hn
          rw [Manager.charge_charge, Nat.add_assoc] at h hm₃
          split at h
          · rename_i hv
            cases h
            obtain rfl := eq_of_ensure_error hv
            exact .inr ⟨_, .values, _, rfl, hlt, rfl, rfl, hm₃ ∘ hm₂ ∘ hm₁, hv⟩
          · rename_i hv
            cases h
            rw [(ensure_ok hv).1]
            exact .inl ⟨rfl, rfl⟩

/-- An announcement that succeeds leaves the same accumulator whatever memory it met. -/
theorem eq_announce_of_setGroupCount (h : a.setGroupCount alloc count m = (.ok (), a', m')) :
    a' = a.announce count := by
  rcases setGroupCount_cases h with ⟨-, ha'⟩ | ⟨f, q, granted, hf, -⟩
  · exact ha'
  · cases hf

/-- One that is refused leaves with the manager what was granted before. -/
theorem setGroupCount_error (hm : m.reserved < sizeRange)
    (h : a.setGroupCount alloc count m = (.error f, a', m')) :
    a.groupCount < count ∧ ∃ q : Lane, a' = a.partly count q ∧
      m' = m.charge (a.partlyBytes count q) ∧
      (a.lane q).ensure (alloc.after q.before.length) count m' = (.error f, a.lane q, m') := by
  rcases setGroupCount_cases h with
    ⟨hok, -⟩ | ⟨_, q, granted, hf, hlt, ha', hgranted, hrange, hrefused⟩
  · cases hok
  · cases hf
    obtain rfl := GroupArray.manager_eq_of_ensure_error (hrange hm) hrefused
    exact ⟨hlt, q, ha', hgranted, hrefused⟩

/-! ## After a refusal -/

/-- How an announcement ends that a tracked manager's accumulator could not make: where it was
refused, what the arrays before that one have gained, and what the manager counts for them. -/
structure RefusedAt (q : Lane) (alloc : Allocator) (count : Nat) (l : Ledger) (f : Fault)
    (a a' : Accumulator k) (m' : Manager) : Prop where
  refused : (a.lane q).ensure (alloc.after q.before.length) count m' = (.error f, a.lane q, m')
  kept : ∀ p ∉ q.before, a'.lane p = a.lane p
  covered : ∀ p ∈ q.before, count ≤ (a'.lane p).size
  added : ∀ p i, (a.lane p).size ≤ i → i < (a'.lane p).size → (a'.lane p).get? i = some (p.blank k)
  widened : ∀ p, (a.lane p).capacity ≤ (a'.lane p).capacity
  counted : m' = .tracked
    { l with
      reserved := l.reserved + (q.before.map fun p =>
        ((a'.lane p).capacity - (a.lane p).capacity) * Slot.width (p.Cell k)).sum }

theorem exists_refusedAt {l : Ledger} (ha : a.Intact) (hl : l.reserved < sizeRange)
    (h : a.setGroupCount alloc count (.tracked l) = (.error f, a', m')) :
    ∃ q, RefusedAt q alloc count l f a a' m' := by
  have hannounced := setGroupCount_announced h
  have hwidens := Extends.announced hannounced
  have hm : (Manager.tracked l).reserved < sizeRange := hl
  obtain ⟨-, q, rfl, rfl, hrefused⟩ := setGroupCount_error hm h
  refine ⟨q, hrefused, fun p hp => lane_partly_of_not_mem hp, ?_, ?_, ?_, ?_⟩
  · intro p hp
    rw [lane_partly_of_mem hp, GroupArray.size_ensured]
    exact le_max_right _ _
  · intro p i hi hlt
    rw [(hannounced.grows_lane p).added i hi hlt, ha.fill_lane, p.copy_blank]
  · intro p
    exact (hwidens.widens_lane p).capacity
  · have hbytes : (q.before.map fun p => (((a.partly count q).lane p).capacity -
        (a.lane p).capacity) * Slot.width (p.Cell k)) =
        q.before.map fun p => (a.lane p).growthBytes count := by
      apply List.map_congr_left
      intro p hp
      rw [lane_partly_of_mem hp]
      rfl
    rw [hbytes]
    rfl

/-- After any run, an announcement that fails is refused at one of the four arrays. That one and
those after it stay as they are, and those before it have slots up to the count, the new ones with
the fill values, and the manager counts the memory they gained. The slots of all groups stand as
before, and calls do not tell that the announcement was ever made. When it is made again and
succeeds, the accumulator is the one that the first attempt would have left, had it succeeded; and
with other calls between the two, calls do not tell them apart. -/
theorem Reached.setGroupCount_refused {l : Ledger} (ha : a.Reached) (hl : l.reserved < 2 ^ 64)
    (h : a.setGroupCount alloc count (.tracked l) = (.error f, a', m')) :
    (∃ q, RefusedAt q alloc count l f a a' m') ∧
    a'.groupCount = a.groupCount ∧
    (∀ g < a.groupCount, ∀ q, ∃ v,
      (a.lane q).get? g = some v ∧ (a'.lane q).get? g = some v) ∧
    Indistinguishable a' a ∧
    ∀ alloc₁ m₁ m₁' b, a.setGroupCount alloc₁ count m₁ = (.ok (), b, m₁') →
      (∀ alloc₂ m₂ m₂' b', a'.setGroupCount alloc₂ count m₂ = (.ok (), b', m₂') → b' = b) ∧
      ∀ calls calls' : List (Surroundings × Call),
        (∀ call ∈ calls, ∀ column ∈ call.2.columns, column.Built) →
        SameCalls (a'.run calls).1 (b.run calls').1 →
        AnnouncedFirst a.groupCount (a'.run calls).1 →
        batchOutcomes (a'.run calls).1 = batchOutcomes (b.run calls').1 ∧
        ∀ alloc₂ m₂ m₂' b',
          (a'.run calls).2.setGroupCount alloc₂ count m₂ = (.ok (), b', m₂') →
          Indistinguishable b' (b.run calls').2 := by
  have hintact := ha.intact
  have hsound := hintact.sound
  have hannounced := setGroupCount_announced h
  have hcount : a'.groupCount = a.groupCount := hannounced.refused f rfl
  have halike : HoldsAlike a' a := (HoldsAlike.refl hsound).left (.announced hannounced) rfl
  refine ⟨exists_refusedAt hintact hl h, hcount, ?_, ?_, ?_⟩
  · intro g hg q
    have hlt := hg.trans_le (hsound.groupCount_le_size q)
    obtain ⟨v, hv⟩ := GroupArray.exists_get? hlt
    exact ⟨v, hv, ((hannounced.grows_lane q).kept g hlt).trans hv⟩
  · have htrails : Trails 0 a' a := ⟨halike, by rw [hcount, Nat.max_zero]⟩
    exact htrails.indistinguishable
  · intro alloc₁ m₁ m₁' b hfirst
    have hm : (Manager.tracked l).reserved < sizeRange := hl
    obtain ⟨hlt, q, hpartly, -, -⟩ := setGroupCount_error hm h
    have hfirst' := setGroupCount_announced hfirst
    -- until the announcement is made again the refused accumulator lacks the new groups
    have htrails : Trails count a' b :=
      ⟨halike.right (.announced hfirst') rfl, by rw [hfirst'.accepted rfl, hcount]⟩
    refine ⟨?_, ?_⟩
    · intro alloc₂ m₂ m₂' b' hagain
      rw [eq_announce_of_setGroupCount hagain, eq_announce_of_setGroupCount hfirst, hpartly,
        announce_partly hlt]
    · intro calls calls' hcalls hsame hnames
      obtain ⟨houtcomes, hlast⟩ := htrails.run hsame hcalls Prod.mk.eta.symm Prod.mk.eta.symm
        (.inr (hcount.symm ▸ hnames))
      refine ⟨houtcomes, ?_⟩
      intro alloc₂ m₂ m₂' b' hagain
      have hagain' := setGroupCount_announced hagain
      have hequal : Trails 0 b' (b.run calls').2 := by
        refine ⟨hlast.toHoldsAlike.left (.announced hagain') rfl, ?_⟩
        rw [hagain'.accepted rfl, hlast.groupCount, Nat.max_zero]
      exact hequal.indistinguishable

/-- The announcement is made again, in vain, and then two rows come. -/
def inVain : List (Surroundings × Call) :=
  [(⟨.standard, .tracked ⟨0, some 5⟩⟩, .setGroupCount 3),
    (⟨.standard, .untracked⟩, .addInput [0, 0] [twoNumbers 1 2, twoNumbers 1 2, firstOfTwo 1 9])]

theorem built_inVain : ∀ call ∈ inVain, ∀ column ∈ call.2.columns, column.Built := by
  simp [inVain, Call.columns, built_twoNumbers, built_firstOfTwo]

theorem sameCalls_inVain {a b : Accumulator .int32} {f : Fault}
    (h : (a.setGroupCount .standard 3 (.tracked ⟨0, some 5⟩)).1 = .error f) :
    SameCalls (a.run inVain).1 (b.run inVain.tail).1 := by
  show SameCalls
    ((.setGroupCount 3, (a.setGroupCount .standard 3 (.tracked ⟨0, some 5⟩)).1) :: _) _
  rw [h]
  exact .failedFirst 3 f (.batch rfl _ _ .nil)

/-- The limit allows for two timestamps and their flags, and for no value. -/
theorem setGroupCount_refused_twoRows :
    let a := ((new .int32 .int32 .int64 0).run twoRows).2
    let a' := (a.setGroupCount .standard 3 (.tracked ⟨0, some 20⟩)).2.1
    let b := (a.setGroupCount .standard 3 .untracked).2.1
    RefusedAt .values .standard 3 ⟨0, some 20⟩ (.memoryLimit 8 20 (some 20)) a a'
        (.tracked ⟨20, some 20⟩) ∧
      Indistinguishable a' a ∧ (a'.setGroupCount .standard 3 .untracked).2.1 = b ∧
      Indistinguishable ((a'.run inVain).2.setGroupCount .standard 3 .untracked).2.1
        (b.run inVain.tail).2 := by
  intro a a' b
  have ha : a.Reached := ⟨.int32, .int64, 0, _, _, built_twoRows, Prod.mk.eta.symm⟩
  have hends {c : Accumulator .int32} {m m' : Manager} {outcome : Except Fault Unit}
      (h : (c.setGroupCount .standard 3 m).1 = outcome)
      (h' : (c.setGroupCount .standard 3 m).2.2 = m') :
      c.setGroupCount .standard 3 m = (outcome, (c.setGroupCount .standard 3 m).2.1, m') :=
    Prod.ext h (Prod.ext rfl h')
  have hrefused : a.setGroupCount .standard 3 (.tracked ⟨0, some 20⟩) =
      (.error (.memoryLimit 8 20 (some 20)), a', .tracked ⟨20, some 20⟩) :=
    hends (by decide) (by decide)
  have hsame : SameCalls (a'.run inVain).1 (b.run inVain.tail).1 :=
    sameCalls_inVain (f := .memoryLimit 8 0 (some 5)) (by decide)
  obtain ⟨⟨q, hq⟩, -, -, halike, hretry⟩ := ha.setGroupCount_refused (by decide) hrefused
  obtain ⟨hat, hafter⟩ := hretry .standard .untracked .untracked b (hends (by decide) (by decide))
  obtain ⟨-, hequal⟩ := hafter _ _ built_inVain hsame (by decide)
  have hvalues : q = .values := by
    have hcounted := hq.counted
    cases q <;> first | rfl | exact absurd hcounted (by decide)
  subst hvalues
  refine ⟨hq, halike, ?_, ?_⟩
  · exact hat .standard .untracked .untracked _ (hends (by decide) (by decide))
  · exact hequal .standard .untracked .untracked _ (hends (by decide) (by decide))

end Accumulator

end Earliest
