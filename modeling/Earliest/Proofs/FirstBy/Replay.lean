import Earliest.Proofs.FirstBy.Run

/-! Batches that arrive again. A batch that was taken in leaves each of its groups with a candidate
no later than those it offers, and whatever comes after can only make that candidate earlier. So
the batch changes nothing when it arrives again, and one that a malformed row cut short can be
sent again with that row mended. -/

namespace Earliest.Accumulator

variable {k : Kind} {a a' last : Accumulator k} {c d : Call} {outcome result : Except Fault Unit}
  {g row : Nat} {offers : List (Nat × Candidate k)}

/-! ## Offers that change nothing -/

/-- The group of each offer holds a candidate that is no later. -/
def Dominates (a : Accumulator k) (offers : List (Nat × Candidate k)) : Prop :=
  ∀ offer ∈ offers, ∃ b, a.view offer.1 = some b ∧ b.timestamp ≤ offer.2.timestamp

theorem keeps_of_view {b : Candidate k} {t : Int64} (hb : a.view g = some b)
    (ht : b.timestamp ≤ t) : a.keeps g t = true := by
  unfold view candidate? at hb
  split at hb
  · cases hb
  · rename_i hinitialized htimestamp _ _
    cases hb
    rw [keeps, hinitialized, htimestamp]
    exact decide_eq_true ht
  · cases hb

/-- Not a slot changes: the arrays stay as they are, what the values own included. -/
theorem offerAll_of_dominates (h : a.Dominates offers) : a.offerAll offers = a := by
  induction offers with
  | nil => rfl
  | cons offer offers ih =>
    obtain ⟨b, hb, hle⟩ := h offer List.mem_cons_self
    have hoffer : a.offer offer.1 offer.2 = a := by
      rw [Accumulator.offer, keeps_of_view hb hle, if_pos rfl]
    rw [offerAll_cons, hoffer]
    apply ih
    intro later hlater
    exact h later (List.mem_cons_of_mem _ hlater)

theorem dominates_offerAll (ha : a.Sound) (hl : a.Announces offers) :
    (a.offerAll offers).Dominates offers := by
  intro offer hoffer
  rw [view_offerAll ha hl]
  exact Candidate.exists_foldl_keep_of_mem _ (mem_offeredTo_iff.mpr hoffer)

/-- A later call replaces a candidate only by an earlier one. -/
theorem Dominates.of_effect (h : a.Dominates offers) (he : Effect c outcome a a') :
    a'.Dominates offers := by
  intro offer hoffer
  obtain ⟨b, hb, hle⟩ := h offer hoffer
  obtain ⟨d, hd, hdb⟩ := Candidate.exists_foldl_keep (offeredTo offer.1 (c.offers k outcome)) b
  refine ⟨d, ?_, Int64.le_trans hdb hle⟩
  rw [he.view, hb]
  exact hd

/-! ## Batches that change nothing -/

/-- More groups refuse no batch. -/
theorem Accepts.mono (h : a.Accepts c outcome) (hle : a.groupCount ≤ a'.groupCount) :
    a'.Accepts c outcome := by
  have hids {ids : List Nat} (hids : ∀ g ∈ ids, g < a.groupCount) :
      ∀ g ∈ ids, g < a'.groupCount := by
    intro g hg
    exact (hids g hg).trans_le hle
  cases h with
  | input h hx hy ht =>
    exact .input ⟨h.xLen, h.yLen, h.timeLen, h.timeType, h.xType, hids h.ids⟩ hx hy ht
  | states h hinput hall => exact .states ⟨h.type, h.len, hids h.ids⟩ hinput hall
  | malformed h hinput hrow hd hbefore =>
    exact .malformed ⟨h.type, h.len, hids h.ids⟩ hinput hrow hd hbefore

/-- A batch that is accepted, with nothing in it that would change a group. -/
structure Absorbed (c : Call) (outcome : Except Fault Unit) (a : Accumulator k) : Prop where
  accepts : a.Accepts c outcome
  dominates : a.Dominates (c.offers k outcome)

namespace Absorbed

theorem call_eq (h : Absorbed c outcome a) (ha : a.Sound) (alloc : Allocator) (m : Manager) :
    a.call alloc c m = (outcome, a, m) := by
  rw [h.accepts.call_eq ha, offerAll_of_dominates h.dominates]

theorem of_accepts (ha : a.Sound) (h : a.Accepts c outcome) :
    Absorbed c outcome (a.offerAll (c.offers k outcome)) where
  accepts := h.mono (groupCount_offerAll a _).ge
  dominates := dominates_offerAll ha h.announces

theorem responds (h : Absorbed c outcome a) (ha : a.Sound) (hd : Responds a d result a') :
    Absorbed c outcome a' where
  accepts := h.accepts.mono hd.groupCount_le
  dominates := h.dominates.of_effect (hd.effect ha)

end Absorbed

/-- After a run, every batch that was taken in on the way is absorbed. -/
theorem absorbed_of_mem_trace {calls : List (Surroundings × Call)}
    {trace : List (Call × Except Fault Unit)} (ha : a.Sound)
    (hcalls : ∀ call ∈ calls, ∀ column ∈ call.2.columns, column.Built)
    (hrun : a.run calls = (trace, last)) {t : Call × Except Fault Unit} (ht : t ∈ trace)
    (htaken : t.1.taken t.2 = true) : Absorbed t.1 t.2 last := by
  induction calls generalizing a trace with
  | nil =>
    cases hrun
    cases ht
  | cons call calls ih =>
    obtain ⟨s, c⟩ := call
    obtain ⟨outcome, b, rest, hrespond, hrest, rfl⟩ := exists_respond_of_run_cons hrun
    have hfirst := responds_of_respond ha (hcalls (s, c) List.mem_cons_self) hrespond
    have hlater : ∀ call ∈ calls, ∀ column ∈ call.2.columns, column.Built :=
      fun call hmem => hcalls call (List.mem_cons_of_mem _ hmem)
    have hb := (hfirst.effect ha).sound
    rcases List.mem_cons.mp ht with rfl | ht
    · obtain ⟨haccepts, rfl⟩ := hfirst.accepts_of_taken htaken
      exact run_induction (fun hsound hd h => h.responds hsound hd) hb hlater hrest
        (.of_accepts ha haccepts)
    · exact ih hb hlater hrest ht

/-! ## Sending a batch again -/

variable {ids ids' : List Nat} {input input' : Column} {defect : Intermediate.Defect}

/-- Two batches of states with the same groups and bytes up to a row. -/
structure SameBefore (row : Nat) (ids ids' : List Nat) (input input' : Column) : Prop where
  ids : ids'.take row = ids.take row
  bytes : ∀ i < row, input'.cell .binary i = input.cell .binary i

theorem SameBefore.statesOf_eq (h : SameBefore row ids ids' input input') :
    statesOf k (ids'.take row) input' = statesOf k (ids.take row) input := by
  rw [statesOf, statesOf, h.ids]
  apply offersFrom_congr
  intro i hi
  have hrow : 0 + i < row := by
    rw [List.length_take] at hi
    omega
  rw [stateAt, stateAt, h.bytes _ hrow]

theorem exists_statesOf_append (k : Kind) (ids : List Nat) (input : Column) (row : Nat) :
    ∃ rest, statesOf k ids input = statesOf k (ids.take row) input ++ rest := by
  have hsplit := offersFrom_append (stateAt k input) 0 (ids.take row) (ids.drop row)
  rw [List.take_append_drop] at hsplit
  exact ⟨_, hsplit⟩

/-- An accepted batch that begins like one cut short first offers what that one did. -/
theorem exists_offers_append (h : SameBefore row ids ids' input input')
    (hcut : a.Accepts (.addIntermediate ids input) (.error (.malformedRow row defect)))
    (ha : a.Accepts (.addIntermediate ids' input') outcome) :
    ∃ rest, (Call.addIntermediate ids' input').offers k outcome =
      (Call.addIntermediate ids input).offers k (.error (.malformedRow row defect)) ++ rest := by
  show ∃ rest, _ = statesOf k (ids.take row) input ++ rest
  rw [← h.statesOf_eq]
  cases ha with
  | states => exact exists_statesOf_append k ids' input' row
  | @malformed _ _ row' d _ _ _ hd _ =>
    have hle : row ≤ row' := by
      by_contra hlt
      obtain ⟨bytes, hcell, hdecode⟩ := hd
      rw [h.bytes row' (not_le.mp hlt)] at hcell
      exact hcut.reportsFirst.2.2 row' (not_le.mp hlt) d ⟨bytes, hcell, hdecode⟩
    obtain ⟨rest, hrest⟩ := exists_statesOf_append k (ids'.take row') input' row
    rw [List.take_take, Nat.min_eq_left hle] at hrest
    exact ⟨rest, hrest⟩

/-- After a batch, one that offers the same and more ends as it would without the first. -/
theorem Accepts.respond_after {rest : List (Nat × Candidate k)} (ha : a.Sound)
    (hc : a.Accepts c outcome) (hd : a.Accepts d result)
    (hrest : d.offers k result = c.offers k outcome ++ rest) (s : Surroundings) :
    (a.offerAll (c.offers k outcome)).respond s d = a.respond s d := by
  have hlater := hd.mono (groupCount_offerAll a (c.offers k outcome)).ge
  have hdominates := dominates_offerAll ha hc.announces
  rw [hlater.respond_eq (ha.offerAll hc.announces), hd.respond_eq ha, hrest, offerAll_append,
    offerAll_append, offerAll_of_dominates hdominates]

/-- A batch that a malformed row cut short leaves no trace once its mended form is taken in. -/
theorem addIntermediate_mended (ha : a.Sound) (hinput : input.Built) (hinput' : input'.Built)
    (hcut : (a.addIntermediate ids input).1 = .error (.malformedRow row defect))
    (hsame : SameBefore row ids ids' input input')
    (htaken : (Call.addIntermediate ids' input').taken (a.addIntermediate ids' input').1 = true) :
    (a.addIntermediate ids input).2.addIntermediate ids' input' =
      a.addIntermediate ids' input' := by
  have hresponds := responds_addIntermediate ids ha hinput.wellFormed
  rw [hcut] at hresponds
  obtain ⟨hcutAccepts, hcutState⟩ := hresponds.accepts_of_taken rfl
  have hmended := responds_addIntermediate ids' ha hinput'.wellFormed
  have haccepts := (hmended.accepts_of_taken htaken).1
  obtain ⟨rest, hrest⟩ := exists_offers_append hsame hcutAccepts haccepts
  have hafter := hcutAccepts.respond_after ha haccepts hrest ⟨.standard, .untracked⟩
  rwa [respond_addIntermediate, respond_addIntermediate, ← hcutState] at hafter

/-- After any run, a batch that was taken in before, in whole or up to a malformed row, ends as it
did then and changes nothing, neither in the slots nor in the memory. And when a malformed row cuts
a batch short, its mended form brings the accumulator to where it would be without that call. -/
theorem run_absorbs_taken {xType yType : DataType} {minCapacity : Nat}
    {calls : List (Surroundings × Call)} {trace : List (Call × Except Fault Unit)}
    (hcalls : ∀ call ∈ calls, ∀ column ∈ call.2.columns, column.Built)
    (hrun : (new k xType yType minCapacity).run calls = (trace, a)) :
    (∀ t ∈ trace, t.1.taken t.2 = true → ∀ alloc m, a.call alloc t.1 m = (t.2, a, m)) ∧
      ∀ ids ids' input input' row defect, input.Built → input'.Built →
        (a.addIntermediate ids input).1 = .error (.malformedRow row defect) →
        SameBefore row ids ids' input input' →
        (Call.addIntermediate ids' input').taken (a.addIntermediate ids' input').1 = true →
        (a.addIntermediate ids input).2.addIntermediate ids' input' =
          a.addIntermediate ids' input' := by
  have hnew := sound_new k xType yType minCapacity
  have ha := (run_view hnew hcalls hrun).1
  refine ⟨?_, ?_⟩
  · intro t ht htaken alloc m
    exact (absorbed_of_mem_trace hnew hcalls hrun ht htaken).call_eq ha alloc m
  · intro ids ids' input input' row defect hinput hinput' hcut hsame htaken
    exact addIntermediate_mended ha hinput hinput' hcut hsame htaken

/-- Encoded states of one group, two rows. -/
def twoStates (first second : Bytes) : Column :=
  .flat .binary (.allValid 2) (.ofList .binary [first, second])

theorem built_twoStates (first second : Bytes) : (twoStates first second).Built := by
  have hstore : ColumnData.Built (.ofList .binary [first, second]) :=
    ByteStrings.Built.push (.push .empty first) second
  exact Column.built_flat (.allValid 2) hstore rfl rfl

/-- The bytes of a state with a number of one byte. -/
def smallState (timestamp value : UInt8) : Bytes :=
  [0, 0, 0, 0, 0, 0, 0, timestamp, 0, 0, 0, 0, value]

/-- A batch is cut short by its second row, and then an earlier state comes. -/
def cutShort : List (Surroundings × Call) :=
  let surroundings : Surroundings := ⟨.standard, .untracked⟩
  [(surroundings, .setGroupCount 1),
    (surroundings, .addIntermediate [0, 0] (twoStates (smallState 5 7) [9])),
    (surroundings, .addIntermediate [0, 0] (twoStates (smallState 3 8) (smallState 4 6)))]

theorem built_cutShort : ∀ call ∈ cutShort, ∀ column ∈ call.2.columns, column.Built := by
  simp [cutShort, Call.columns, built_twoStates]

theorem run_absorbs_taken_cutShort :
    let a := ((new .int32 .int32 .int64 0).run cutShort).2
    let cut := twoStates (smallState 5 7) [9]
    let later := twoStates (smallState 2 1) [9]
    let mended := twoStates (smallState 2 1) (smallState 2 4)
    a.call .standard (.addIntermediate [0, 0] cut) .untracked =
        (.error (.malformedRow 1 (.truncated .header 9 1)), a, .untracked) ∧
      (a.addIntermediate [0, 0] later).2.addIntermediate [0, 0] mended =
        a.addIntermediate [0, 0] mended := by
  intro a cut later mended
  have hmem : (.addIntermediate [0, 0] cut, .error (.malformedRow 1 (.truncated .header 9 1))) ∈
      ((new .int32 .int32 .int64 0).run cutShort).1 :=
    List.mem_cons_of_mem _ List.mem_cons_self
  have hcut : (a.addIntermediate [0, 0] later).1 =
      .error (.malformedRow 1 (.truncated .header 9 1)) := by decide +kernel
  have hsame : SameBefore 1 [0, 0] [0, 0] later mended := by
    refine ⟨rfl, ?_⟩
    intro i hi
    cases Nat.lt_one_iff.mp hi
    decide +kernel
  obtain ⟨hreplay, hmended⟩ := run_absorbs_taken built_cutShort Prod.mk.eta.symm
  exact ⟨hreplay _ hmem rfl .standard .untracked,
    hmended [0, 0] [0, 0] later mended 1 _ (built_twoStates _ _) (built_twoStates _ _) hcut hsame
      (by decide +kernel)⟩

end Earliest.Accumulator
