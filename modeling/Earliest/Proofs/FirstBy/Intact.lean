import Earliest.Proofs.Column.Reads
import Earliest.Proofs.FirstBy.Run

/-! What no call can break. The four arrays of an accumulator may be of different lengths once a
growth was refused half-way, but each has the slots of the groups that were announced, and a group
that holds nothing rests at the fill values in every array that has its slot. So a call finds each
slot that it asks for, whatever it is given, and nothing that was gained is lost again. -/

namespace Earliest

namespace GroupArray

variable {α : Type} [Slot α] {a a' : GroupArray α} {alloc : Allocator} {m : Manager} {n : Nat}

theorem orderly_grow (alloc : Allocator) (capacity : Nat) (a : GroupArray α) (m : Manager) :
    Orderly (a.grow alloc capacity m).1 := by
  have hreserve {bytes : Nat} {f : Fault} (h : m.reserve bytes = .error f) :
      f.isBreach = false := by
    cases m with
    | untracked => cases h
    | tracked l =>
      unfold Manager.reserve Ledger.reserve at h
      dsimp only at h
      split at h
      · cases h
      · split at h
        · cases h
        · cases h
          rfl
  unfold grow
  dsimp only
  split
  · exact .error rfl
  · split
    · rename_i h
      exact .error (hreserve h)
    · split
      · exact .error rfl
      · exact .ok ()

theorem orderly_house (alloc : Allocator) (n : Nat) (a : GroupArray α) (m : Manager) :
    Orderly (a.house alloc n m).1 := by
  unfold house
  split
  · exact .ok ()
  · exact orderly_grow alloc (a.grownCapacity n) a m

/-- A call that cannot have the memory says so and breaks nothing. -/
theorem orderly_ensure (alloc : Allocator) (n : Nat) (a : GroupArray α) (m : Manager) :
    Orderly (a.ensure alloc n m).1 := by
  unfold ensure
  split
  · exact .ok ()
  · have hhouse := orderly_house alloc n a m
    split
    · exact .ok ()
    · rename_i h
      rw [h] at hhouse
      exact hhouse

end GroupArray

theorem Kind.copy_blank (k : Kind) : Slot.copy k.blank = k.blank := by
  cases k <;> rfl

namespace Accumulator

variable {k : Kind} {a a' a'' : Accumulator k} {c : Candidate k} {g group count : Nat}
  {m m' : Manager} {outcome : Except Fault Unit}

/-! ## The invariant -/

/-- The group's slots, where it has them, hold the fill values. -/
structure Blank (a : Accumulator k) (g : Nat) : Prop where
  timestamp : a.timestamps.Holds g Int64.maxValue
  initialized : a.initialized.Holds g false
  isNull : a.nulls.Holds g true
  value : a.values.Holds g k.blank

/-- What holds of the arrays between calls, also after calls that failed. -/
structure Intact (a : Accumulator k) : Prop where
  sound : a.Sound
  fills : a.timestamps.fill = Int64.maxValue ∧ a.nulls.fill = true ∧ a.values.fill = k.blank
  blank : ∀ g, a.initialized.get? g ≠ some true → a.Blank g
  weighed : a.values.Weighed

theorem intact_new (k : Kind) (xType yType : DataType) (minCapacity : Nat) :
    (new k xType yType minCapacity).Intact where
  sound := sound_new k xType yType minCapacity
  fills := ⟨rfl, rfl, rfl⟩
  blank g _ := by
    constructor <;> intro v hv <;> simp [new, GroupArray.new, GroupArray.get?] at hv
  weighed := GroupArray.weighed_new _ _

namespace Intact

theorem record (ha : a.Intact) (hg : group < a.groupCount) (c : Candidate k) :
    (a.record group c).Intact where
  sound := ha.sound.record hg c
  fills := by
    obtain ⟨ht, hn, hv⟩ := ha.fills
    refine ⟨(GroupArray.fill_set _ _ _).trans ht, (GroupArray.fill_set _ _ _).trans hn, ?_⟩
    unfold Accumulator.record
    cases c.value with
    | none => exact hv
    | some v => exact (GroupArray.fill_update _ _ _).trans hv
  blank g hidle := by
    -- the group that was written to holds something now, so what is left is about the others
    have hlt : group < a.initialized.size := hg.trans_le ha.sound.initialized
    have hne : g ≠ group := by
      rintro rfl
      exact hidle (GroupArray.get?_set_self true hlt)
    have hinitialized : (a.record group c).initialized.get? g = a.initialized.get? g :=
      GroupArray.get?_set_of_ne true hne
    obtain ⟨ht, hi, hn, hv⟩ := ha.blank g (hinitialized ▸ hidle)
    refine ⟨ht.congr (GroupArray.get?_set_of_ne _ hne), hi.congr hinitialized,
      hn.congr (GroupArray.get?_set_of_ne _ hne), hv.congr ?_⟩
    unfold Accumulator.record
    cases c.value with
    | none => rfl
    | some v => exact GroupArray.get?_update_of_ne _ hne
  weighed := by
    unfold Accumulator.record
    cases c.value with
    | none => exact ha.weighed
    | some v => exact ha.weighed.update group _

theorem offer (ha : a.Intact) (hg : group < a.groupCount) (c : Candidate k) :
    (a.offer group c).Intact := by
  unfold Accumulator.offer
  split
  · exact ha
  · exact ha.record hg c

theorem offerAll {l : List (Nat × Candidate k)} (ha : a.Intact) (hl : a.Announces l) :
    (a.offerAll l).Intact := by
  induction l generalizing a with
  | nil => exact ha
  | cons offer l ih =>
    obtain ⟨group, c⟩ := offer
    exact ih (ha.offer (hl (group, c) List.mem_cons_self) c) hl.tail

/-- However far the arrays got, the slots that they gained hold the fill values. -/
theorem announced (ha : a.Intact) (h : Announced count a m outcome a' m') : a'.Intact where
  sound := h.sound ha.sound
  fills := by
    obtain ⟨ht, -, hn, hv⟩ := h.grows
    obtain ⟨ht', hn', hv'⟩ := ha.fills
    exact ⟨ht.fill.trans ht', hn.fill.trans hn', hv.fill.trans hv'⟩
  blank g hidle := by
    obtain ⟨ht, hi, hn, hv⟩ := h.grows
    obtain ⟨ht', hn', hv'⟩ := ha.fills
    -- the flag may be new while other slots of the group are old, after an earlier refusal
    have hold : a.initialized.get? g ≠ some true := by
      intro htrue
      rw [← hi.kept g (GroupArray.lt_size_of_get? htrue)] at htrue
      exact hidle htrue
    obtain ⟨bt, bi, bn, bv⟩ := ha.blank g hold
    exact ⟨ht.holds ht' bt, hi.holds ha.sound.fill bi, hn.holds hn' bn,
      hv.holds (hv' ▸ k.copy_blank) bv⟩
  weighed := by
    obtain ⟨-, -, hv'⟩ := ha.fills
    obtain ⟨-, ⟨_, _, _, -, -, -, hv⟩, -⟩ := h
    exact hv.weighed (hv' ▸ k.copy_blank) ha.weighed

/-- A group that was announced and holds nothing has all four slots, at their fill values. -/
theorem slots_of_not_initialized (ha : a.Intact) (hg : g < a.groupCount)
    (h : a.initialized.get? g = some false) : a.Slots g false Int64.maxValue true k.blank := by
  obtain ⟨i, t, n, v, hs⟩ := ha.sound.slots hg
  obtain ⟨ht, -, hn, hv⟩ := ha.blank g (by rw [h]; decide)
  exact ⟨h, ht t hs.timestamp ▸ hs.timestamp, hn n hs.isNull ▸ hs.isNull,
    hv v hs.value ▸ hs.value⟩

end Intact

/-! ## What only grows -/

/-- Nothing was given up: no group, slot or memory, and no group is empty again. -/
structure Extends (a a' : Accumulator k) : Prop where
  groupCount : a.groupCount ≤ a'.groupCount
  timestamps : a.timestamps.Widens a'.timestamps
  initialized : a.initialized.Widens a'.initialized
  nulls : a.nulls.Widens a'.nulls
  values : a.values.Widens a'.values
  holds : ∀ g, a.initialized.get? g = some true → a'.initialized.get? g = some true

namespace Extends

theorem refl (a : Accumulator k) : Extends a a :=
  ⟨le_rfl, .refl _, .refl _, .refl _, .refl _, fun _ h => h⟩

theorem trans (h : Extends a a') (h' : Extends a' a'') : Extends a a'' where
  groupCount := h.groupCount.trans h'.groupCount
  timestamps := h.timestamps.trans h'.timestamps
  initialized := h.initialized.trans h'.initialized
  nulls := h.nulls.trans h'.nulls
  values := h.values.trans h'.values
  holds g hg := h'.holds g (h.holds g hg)

theorem offer (a : Accumulator k) (group : Nat) (c : Candidate k) :
    Extends a (a.offer group c) := by
  unfold Accumulator.offer
  split
  · exact .refl a
  · refine ⟨le_rfl, .set _ _ _, .set _ _ _, .set _ _ _, ?_, ?_⟩
    · unfold record
      cases c.value with
      | none => exact .refl _
      | some v => exact .update _ _ _
    · intro g hg
      by_cases h : g = group
      · subst h
        exact GroupArray.get?_set_self true (GroupArray.lt_size_of_get? hg)
      · exact (GroupArray.get?_set_of_ne true h).trans hg

theorem offerAll (a : Accumulator k) (l : List (Nat × Candidate k)) :
    Extends a (a.offerAll l) := by
  induction l generalizing a with
  | nil => exact .refl a
  | cons o l ih => exact (offer a o.1 o.2).trans (ih _)

theorem announced (h : Announced count a m outcome a' m') : Extends a a' := by
  obtain ⟨_, _, _, ht, hi, hn, hv⟩ := h.arrays
  refine ⟨h.groupCount_le, ht.widens, hi.widens, hn.widens, hv.widens, ?_⟩
  intro g hg
  exact (hi.grows.kept g (GroupArray.lt_size_of_get? hg)).trans hg

end Extends

/-! ## How calls end -/

theorem orderly_setGroupCount (alloc : Allocator) (count : Nat) (a : Accumulator k)
    (m : Manager) : Orderly (a.setGroupCount alloc count m).1 := by
  have hensure {α : Type} [Slot α] {alloc : Allocator} {b b' : GroupArray α} {m m' : Manager}
      {f : Fault} (h : b.ensure alloc count m = (.error f, b', m')) : f.isBreach = false :=
    GroupArray.orderly_ensure alloc count b m f (congrArg Prod.fst h)
  unfold setGroupCount
  split
  · exact .ok ()
  · split
    · rename_i h
      exact .error (hensure h)
    · split
      · rename_i h
        exact .error (hensure h)
      · split
        · rename_i h
          exact .error (hensure h)
        · split
          · rename_i h
            exact .error (hensure h)
          · exact .ok ()

theorem orderly_checkGroups (a : Accumulator k) (ids : List Nat) :
    Orderly (a.checkGroups ids) := by
  unfold checkGroups
  split
  · exact .error rfl
  · exact .ok ()

theorem orderly_addInput (ids : List Nat) {inputs : List Column} (ha : a.Sound)
    (hinputs : ∀ c ∈ inputs, c.WellFormed) : Orderly (a.addInput ids inputs).1 := by
  have hcheckInput (x y time : Column) : Orderly (a.checkInput ids x y time) :=
    .guard rfl (.guard rfl (.guard rfl (.guard rfl (.guard rfl (orderly_checkGroups a ids)))))
  unfold addInput
  split
  · rename_i x y time
    rcases hcheck : a.checkInput ids x y time with f | _
    · exact .error (hcheckInput x y time f hcheck)
    · have hrun := addInput_eq ha (checkInput_eq_ok_iff.mp hcheck) (hinputs x (by simp))
        (hinputs y (by simp)) (hinputs time (by simp))
      simp only [addInput, hcheck] at hrun
      rw [hrun]
      exact .ok ()
  · exact .error rfl

theorem orderly_addIntermediate (ids : List Nat) {input : Column} (ha : a.Sound)
    (hinput : input.WellFormed) : Orderly (a.addIntermediate ids input).1 := by
  have hcheckIntermediate : Orderly (a.checkIntermediate ids input) :=
    .guard rfl (.guard rfl (orderly_checkGroups a ids))
  rcases hcheck : a.checkIntermediate ids input with f | _
  · rw [addIntermediate, hcheck]
    exact .error (hcheckIntermediate f hcheck)
  · have htakes := checkIntermediate_eq_ok_iff.mp hcheck
    rcases malformed_cases k ids input with hall | ⟨row, d, hrow, hd, hbefore⟩
    · rw [addIntermediate_eq ha htakes hinput hall]
      exact .ok ()
    · rw [addIntermediate_malformed ha htakes hinput hrow hd hbefore]
      exact .error rfl

theorem orderly_evaluateIntermediate (ha : a.Sound) (g : Nat) {output : Builder}
    (ho : output.WellFormed) : Orderly (a.evaluateIntermediate g output).1 := by
  by_cases hp : output.physical = .binary
  · by_cases hg : g < a.groupCount
    · rcases hview : a.view g with _ | c
      · rw [evaluateIntermediate_none ha hg hp hview]
        exact .ok _
      · by_cases hfits : Intermediate.FitsState c
        · obtain ⟨bytes, hbytes⟩ := Intermediate.exists_encode_iff.mpr hfits
          obtain ⟨output', happend⟩ := ho.exists_append hp bytes
          rw [evaluateIntermediate_some ha hg hp hview hbytes, happend]
          exact .ok _
        · obtain ⟨len, hlarge⟩ := evaluateIntermediate_oversized ha hg hp hview hfits
          rw [hlarge]
          exact .error rfl
    · rw [evaluateIntermediate, if_neg (not_not.mpr hp), held, checkGroup, if_neg hg]
      exact .error rfl
  · rw [evaluateIntermediate, if_pos hp]
    exact .error rfl

theorem orderly_evaluateFinal (ha : a.Sound) (g : Nat) {output : Builder}
    (ho : output.WellFormed) : Orderly (a.evaluateFinal g output).1 := by
  by_cases hp : output.physical = k.physical
  · by_cases hg : g < a.groupCount
    · obtain ⟨output', happend⟩ :=
        Builder.exists_appendStored ho hp ((a.view g).bind Candidate.value)
      rw [evaluateFinal_eq ha hg hp, happend]
      exact .ok _
    · rw [evaluateFinal, if_neg (not_not.mpr hp), held, checkGroup, if_neg hg]
      exact .error rfl
  · rw [evaluateFinal, if_pos hp]
    exact .error rfl

/-! ## Runs -/

theorem Responds.intact {c : Call} (ha : a.Intact) (h : Responds a c outcome a') :
    a'.Intact := by
  cases h with
  | announced h => exact ha.announced h
  | accepted h => exact ha.offerAll h.announces
  | refused => exact ha

theorem Responds.extends {c : Call} (h : Responds a c outcome a') : Extends a a' := by
  cases h with
  | announced h => exact .announced h
  | accepted => exact .offerAll _ _
  | refused => exact .refl _

theorem orderly_respond (s : Surroundings) {c : Call} (ha : a.Sound)
    (hc : ∀ column ∈ c.columns, column.Built) : Orderly (a.respond s c).1 := by
  cases c with
  | setGroupCount count => exact orderly_setGroupCount s.alloc count a s.manager
  | addInput ids inputs => exact orderly_addInput ids ha fun c hmem => (hc c hmem).wellFormed
  | addIntermediate ids input =>
    exact orderly_addIntermediate ids ha (hc input List.mem_cons_self).wellFormed

/-- Whatever calls bring, and however each of them ends. -/
theorem Intact.run {calls : List (Surroundings × Call)}
    {trace : List (Call × Except Fault Unit)} (ha : a.Intact)
    (hcalls : ∀ call ∈ calls, ∀ column ∈ call.2.columns, column.Built)
    (hrun : a.run calls = (trace, a')) :
    a'.Intact ∧ Extends a a' ∧ ∀ t ∈ trace, Orderly t.2 := by
  induction calls generalizing a trace with
  | nil =>
    cases hrun
    exact ⟨ha, .refl _, fun t ht => absurd ht List.not_mem_nil⟩
  | cons call calls ih =>
    obtain ⟨s, c⟩ := call
    obtain ⟨outcome, b, rest, hstep, hrest, rfl⟩ := exists_respond_of_run_cons hrun
    have hc := hcalls (s, c) List.mem_cons_self
    have hfirst := responds_of_respond ha.sound hc hstep
    have horderly := orderly_respond s ha.sound hc
    rw [hstep] at horderly
    obtain ⟨hlast, hextends, horderly'⟩ := ih (hfirst.intact ha)
      (fun call hmem => hcalls call (List.mem_cons_of_mem _ hmem)) hrest
    exact ⟨hlast, hfirst.extends.trans hextends, List.forall_mem_cons.mpr ⟨horderly, horderly'⟩⟩

theorem Reached.intact (ha : a.Reached) : a.Intact := by
  obtain ⟨xType, yType, minCapacity, calls, trace, hcalls, hrun⟩ := ha
  exact ((intact_new k xType yType minCapacity).run hcalls hrun).1

/-- Whatever calls came before, and however they ended: each array has the slots of the groups
that were announced, the slots past them hold the fill values, and so do the slots of a group that
holds nothing. No further call gives anything up, and no call or evaluation finds a slot or a value
missing, whatever it is given. -/
theorem Reached.unbroken (ha : a.Reached) :
    (a.groupCount ≤ a.timestamps.size ∧ a.groupCount ≤ a.initialized.size ∧
      a.groupCount ≤ a.nulls.size ∧ a.groupCount ≤ a.values.size) ∧
    (∀ g, a.groupCount ≤ g → a.Blank g) ∧
    (∀ g < a.groupCount, a.initialized.get? g = some false →
      a.Slots g false Int64.maxValue true k.blank) ∧
    (∀ g cell, a.values.get? g = some cell → Slot.heap cell ≤ a.values.heapBytes) ∧
    (∀ calls : List (Surroundings × Call),
      (∀ call ∈ calls, ∀ column ∈ Call.columns call.2, column.Built) →
        Extends a (a.run calls).2 ∧ ∀ t ∈ (a.run calls).1, Orderly t.2) ∧
    ∀ g (output : Builder), output.Built →
      Orderly (a.evaluateIntermediate g output).1 ∧ Orderly (a.evaluateFinal g output).1 := by
  have hintact := ha.intact
  have hsound := hintact.sound
  refine ⟨⟨hsound.timestamps, hsound.initialized, hsound.nulls, hsound.values⟩, ?_, ?_, ?_, ?_, ?_⟩
  · intro g hg
    exact hintact.blank g (hsound.idle g hg)
  · intro g hg h
    exact hintact.slots_of_not_initialized hg h
  · intro g cell h
    exact hintact.weighed.heap_le h
  · intro calls hcalls
    exact (hintact.run hcalls rfl).2
  · intro g output ho
    exact ⟨orderly_evaluateIntermediate hsound g ho.wellFormed,
      orderly_evaluateFinal hsound g ho.wellFormed⟩

/-- A group is announced, and then two more under a limit that stops the second array. -/
def halfGrown : List (Surroundings × Call) :=
  [(⟨.standard, .untracked⟩, .setGroupCount 1), (⟨.standard, .new (some 17)⟩, .setGroupCount 3)]

theorem unbroken_halfGrown :
    let a := ((new .int32 .int32 .int64 0).run halfGrown).2
    a.groupCount = 1 ∧ a.timestamps.size = 3 ∧ a.initialized.size = 1 ∧ a.Blank 2 ∧
      a.Slots 0 false Int64.maxValue true (0 : Int32) ∧ Extends a (a.run twoRows).2 ∧
      Orderly (a.evaluateFinal 2 (.new .int32)).1 := by
  intro a
  have ha : a.Reached :=
    ⟨.int32, .int64, 0, halfGrown, _, by simp [halfGrown, Call.columns], Prod.mk.eta.symm⟩
  obtain ⟨-, hpast, hidle, -, hcalls, hevaluate⟩ := ha.unbroken
  exact ⟨rfl, rfl, rfl, hpast 2 (by decide), hidle 0 (by decide) rfl,
    (hcalls twoRows built_twoRows).1, (hevaluate 2 _ (.new .int32)).2⟩

end Accumulator

end Earliest
