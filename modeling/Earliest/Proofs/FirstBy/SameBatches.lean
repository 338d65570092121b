import Earliest.Proofs.FirstBy.Order

/-! Runs that make the same batches. How a batch ends depends on the batch and on the type of `x`,
once the groups that it names have been announced, and on nothing else that an accumulator went
through. So two runs with the same batches end them alike and evaluate alike, whatever else they
announced, with whatever memory, and however many of the announcements failed. -/

namespace Earliest

variable {k : Kind}

namespace Call

variable {c : Call} {outcome : Except Fault Unit}

/-- Rows or intermediate states, and no announcement of groups. -/
def isBatch : Call → Bool
  | setGroupCount _ => false
  | _ => true

/-- The group of each row. -/
def ids : Call → List Nat
  | setGroupCount _ => []
  | addInput ids _ => ids
  | addIntermediate ids _ => ids

/-- How many groups have been announced after a call that ended so, if `count` were before it. -/
def announced (count : Nat) : Call → Except Fault Unit → Nat
  | setGroupCount n, .ok () => max count n
  | _, _ => count

theorem offers_of_not_isBatch (h : c.isBatch = false) : c.offers k outcome = [] := by
  cases c with
  | setGroupCount n => rfl
  | _ => cases h

end Call

/-- The batches among calls, in order. -/
def batches (calls : List (Surroundings × Call)) : List Call :=
  (calls.map Prod.snd).filter Call.isBatch

/-- The batches of a run, each with its outcome. -/
def batchOutcomes (trace : List (Call × Except Fault Unit)) : List (Call × Except Fault Unit) :=
  trace.filter fun t => t.1.isBatch

/-- Each group that a batch names was announced before it by a call that succeeded, or was among
the `count` first ones to begin with. -/
def AnnouncedFirst : Nat → List (Call × Except Fault Unit) → Prop
  | _, [] => True
  | count, (c, outcome) :: trace =>
    (∀ g ∈ c.ids, g < count) ∧ AnnouncedFirst (c.announced count outcome) trace

instance decidableAnnouncedFirst : (count : Nat) → (trace : List (Call × Except Fault Unit)) →
    Decidable (AnnouncedFirst count trace)
  | _, [] => inferInstanceAs (Decidable True)
  | count, (c, outcome) :: trace =>
    have := decidableAnnouncedFirst (c.announced count outcome) trace
    inferInstanceAs (Decidable ((∀ g ∈ c.ids, g < count) ∧
      AnnouncedFirst (c.announced count outcome) trace))

/-- Lists of pairs with the same first parts, in which these decide the second ones. -/
theorem eq_of_map_fst_eq {α β : Type} {l l' : List (α × β)}
    (hfst : l.map Prod.fst = l'.map Prod.fst)
    (h : ∀ p ∈ l, ∀ q ∈ l', p.1 = q.1 → p.2 = q.2) : l = l' := by
  induction l generalizing l' with
  | nil => exact (List.map_eq_nil_iff.mp hfst.symm).symm
  | cons p l ih =>
    obtain ⟨q, l', rfl, hq, hrest⟩ := List.map_eq_cons_iff.mp hfst.symm
    have hp : p = q := Prod.ext hq.symm (h p List.mem_cons_self q List.mem_cons_self hq.symm)
    rw [hp, ih hrest.symm fun p hp q hq =>
      h p (List.mem_cons_of_mem _ hp) q (List.mem_cons_of_mem _ hq)]

namespace Accumulator

variable {a a' b : Accumulator k} {c : Call} {outcome outcome' : Except Fault Unit}
  {ids : List Nat} {s s' : Surroundings} {xType : DataType} {count g : Nat}

/-! ## One batch -/

theorem checkGroups_congr (ha : ∀ g ∈ ids, g < a.groupCount) (hb : ∀ g ∈ ids, g < b.groupCount) :
    a.checkGroups ids = b.checkGroups ids := by
  rw [checkGroups_eq_ok_iff.mpr ha, checkGroups_eq_ok_iff.mpr hb]

/-- Whatever the groups hold, rows end as they can be read. -/
theorem absorb_congr {read : Nat → Except Fault (Option (Candidate k))} (row : Nat)
    (ha : a.Sound) (hb : b.Sound) (hids : ∀ g ∈ ids, g < a.groupCount)
    (hids' : ∀ g ∈ ids, g < b.groupCount) :
    (a.absorb read row ids).1 = (b.absorb read row ids).1 := by
  induction ids generalizing a b row with
  | nil => rfl
  | cons group ids ih =>
    obtain ⟨hg, hrest⟩ := List.forall_mem_cons.mp hids
    obtain ⟨hg', hrest'⟩ := List.forall_mem_cons.mp hids'
    unfold absorb
    rcases read row with f | _ | c
    · rfl
    · exact ih (row + 1) ha hb hrest hrest'
    · simp only [ha.covers hg, hb.covers hg', if_true]
      apply ih (row + 1) (ha.offer hg c) (hb.offer hg' c)
      · rwa [groupCount_offer]
      · rwa [groupCount_offer]

/-- All that a batch reads of an accumulator to see how it ends: whether it names a group too many,
and a type for the text of an error. -/
theorem respond_congr (ha : a.Sound) (hb : b.Sound) (hx : a.xType = b.xType)
    (hgroups : a.checkGroups c.ids = b.checkGroups c.ids) (hc : c.isBatch = true) :
    (a.respond s c).1 = (b.respond s' c).1 := by
  cases c with
  | setGroupCount count => cases hc
  | addInput ids inputs =>
    show (a.addInput ids inputs).1 = (b.addInput ids inputs).1
    unfold addInput
    split
    · rename_i x y time
      have hcheck : a.checkInput ids x y time = b.checkInput ids x y time := by
        simp only [Call.ids] at hgroups
        rw [checkInput, checkInput, hx, hgroups]
      rw [hcheck]
      split
      · rfl
      · rename_i hok
        exact absorb_congr 0 ha hb (checkInput_eq_ok_iff.mp (hcheck.trans hok)).ids
          (checkInput_eq_ok_iff.mp hok).ids
    · rfl
  | addIntermediate ids input =>
    show (a.addIntermediate ids input).1 = (b.addIntermediate ids input).1
    have hcheck : a.checkIntermediate ids input = b.checkIntermediate ids input := by
      simp only [Call.ids] at hgroups
      rw [checkIntermediate, checkIntermediate, hgroups]
    unfold addIntermediate
    rw [hcheck]
    split
    · rfl
    · rename_i hok
      exact absorb_congr 0 ha hb (checkIntermediate_eq_ok_iff.mp (hcheck.trans hok)).ids
        (checkIntermediate_eq_ok_iff.mp hok).ids

/-- An accumulator where all that the call names was announced. -/
structure Ready (xType : DataType) (c : Call) (a : Accumulator k) : Prop where
  sound : a.Sound
  xType : a.xType = xType
  ids : ∀ g ∈ c.ids, g < a.groupCount

/-- A batch ends in the same way wherever it is made, once its groups have been announced. -/
theorem Ready.respond_congr (ha : a.Ready xType c) (hb : b.Ready xType c)
    (hc : c.isBatch = true) : (a.respond s c).1 = (b.respond s' c).1 :=
  Accumulator.respond_congr ha.sound hb.sound (ha.xType.trans hb.xType.symm)
    (checkGroups_congr ha.ids hb.ids) hc

/-! ## Runs -/

theorem map_fst_of_run {calls : List (Surroundings × Call)}
    {trace : List (Call × Except Fault Unit)} (hrun : a.run calls = (trace, a')) :
    trace.map Prod.fst = calls.map Prod.snd := by
  induction calls generalizing a trace with
  | nil =>
    cases hrun
    rfl
  | cons call calls ih =>
    obtain ⟨s, c⟩ := call
    rcases hrest : (a.respond s c).2.run calls with ⟨rest, last⟩
    simp only [run, hrest, Prod.mk.injEq] at hrun
    obtain ⟨rfl, rfl⟩ := hrun
    rw [List.map_cons, List.map_cons, ih hrest]

theorem map_fst_batchOutcomes {calls : List (Surroundings × Call)}
    {trace : List (Call × Except Fault Unit)} (hrun : a.run calls = (trace, a')) :
    (batchOutcomes trace).map Prod.fst = batches calls := by
  rw [batches, ← map_fst_of_run hrun, List.filter_map]
  rfl

theorem Responds.announced_le (h : Responds a c outcome a') (hle : count ≤ a.groupCount) :
    c.announced count outcome ≤ a'.groupCount := by
  unfold Call.announced
  split
  · cases h with
    | announced h => exact h.accepted rfl ▸ max_le_max_right _ hle
    | accepted h => cases h
  · exact hle.trans h.groupCount_le

/-- Each call of a run was made on an accumulator where all that it names was announced. -/
theorem exists_ready_of_mem_trace {calls : List (Surroundings × Call)}
    {trace : List (Call × Except Fault Unit)} (ha : a.Sound) (hle : count ≤ a.groupCount)
    (hcalls : ∀ call ∈ calls, ∀ column ∈ call.2.columns, column.Built)
    (hrun : a.run calls = (trace, a')) (hannounced : AnnouncedFirst count trace)
    (h : (c, outcome) ∈ trace) :
    ∃ b : Accumulator k, ∃ s, b.Ready a.xType c ∧ (b.respond s c).1 = outcome := by
  induction calls generalizing a trace count with
  | nil =>
    cases hrun
    cases h
  | cons call calls ih =>
    obtain ⟨s, first⟩ := call
    obtain ⟨o, b, rest, hstep, hrest, rfl⟩ := exists_respond_of_run_cons hrun
    obtain ⟨hids, hannounced⟩ := hannounced
    rcases List.mem_cons.mp h with heq | h
    · cases heq
      exact ⟨a, s, ⟨ha, rfl, fun g hg => (hids g hg).trans_le hle⟩, congrArg Prod.fst hstep⟩
    · have hfirst := responds_of_respond ha (hcalls (s, first) List.mem_cons_self) hstep
      obtain ⟨b', s', hready, houtcome⟩ := ih (hfirst.effect ha).sound (hfirst.announced_le hle)
        (fun call hmem => hcalls call (List.mem_cons_of_mem _ hmem)) hrest hannounced h
      exact ⟨b', s', hfirst.xType_eq ▸ hready, houtcome⟩

/-- Only batches offer candidates. -/
theorem candidatesFor_batchOutcomes (k : Kind) (g : Nat)
    (trace : List (Call × Except Fault Unit)) :
    candidatesFor k g (batchOutcomes trace) = candidatesFor k g trace := by
  rw [candidatesFor, batchOutcomes]
  exact congrArg (offeredTo g) (flatMap_offers_filter k (fun _ => Call.offers_of_not_isBatch) trace)

/-- Two runs with the same batches, in the same order, end each of them alike when each group was
announced before it was used, and evaluate every group that both announced alike. How often, when
and up to which count groups were announced, which of these calls failed, with what memory they met
and how the arrays were set to grow makes no difference. A group that was announced and offered
nothing evaluates to null. -/
theorem run_sameBatches {xType yType yType' : DataType} {minCapacity minCapacity' : Nat}
    {calls calls' : List (Surroundings × Call)} {trace trace' : List (Call × Except Fault Unit)}
    (hcalls : ∀ call ∈ calls, ∀ column ∈ call.2.columns, column.Built)
    (hcalls' : ∀ call ∈ calls', ∀ column ∈ call.2.columns, column.Built)
    (hrun : (new k xType yType minCapacity).run calls = (trace, a))
    (hrun' : (new k xType yType' minCapacity').run calls' = (trace', b))
    (hsame : batches calls = batches calls') (hannounced : AnnouncedFirst 0 trace)
    (hannounced' : AnnouncedFirst 0 trace') :
    batchOutcomes trace = batchOutcomes trace' ∧
      (∀ g, g < a.groupCount → g < b.groupCount → EvaluatesAlike g a b) ∧
      ∀ g < a.groupCount, candidatesFor k g trace = [] → ∀ output : Builder,
        (output.physical = .binary →
          a.evaluateIntermediate g output = (.ok (), output.appendNull)) ∧
        (output.physical = k.physical → a.evaluateFinal g output = (.ok (), output.appendNull)) := by
  have ha := (run_view (sound_new k xType yType minCapacity) hcalls hrun).1
  have hb := (run_view (sound_new k xType yType' minCapacity') hcalls' hrun').1
  have houtcomes : batchOutcomes trace = batchOutcomes trace' := by
    apply eq_of_map_fst_eq
    · rw [map_fst_batchOutcomes hrun, map_fst_batchOutcomes hrun', hsame]
    · rintro ⟨c, outcome⟩ hmem ⟨c', outcome'⟩ hmem' hc
      cases hc
      obtain ⟨hmem, hbatch⟩ := List.mem_filter.mp hmem
      obtain ⟨hmem', -⟩ := List.mem_filter.mp hmem'
      obtain ⟨d, s, hd, houtcome⟩ := exists_ready_of_mem_trace
        (sound_new k xType yType minCapacity) le_rfl hcalls hrun hannounced hmem
      obtain ⟨d', s', hd', houtcome'⟩ := exists_ready_of_mem_trace
        (sound_new k xType yType' minCapacity') le_rfl hcalls' hrun' hannounced' hmem'
      exact houtcome.symm.trans ((hd.respond_congr hd' hbatch).trans houtcome')
  refine ⟨houtcomes, ?_, ?_⟩
  · intro g hg hg' output
    have hheld : a.held g = b.held g := by
      rw [ha.held_eq hg, hb.held_eq hg', view_of_run hcalls hrun, view_of_run hcalls' hrun',
        ← candidatesFor_batchOutcomes, houtcomes, candidatesFor_batchOutcomes]
    have hx : a.xType = b.xType := by rw [xType_of_run hcalls hrun, xType_of_run hcalls' hrun']
    exact ⟨evaluateIntermediate_congr hheld output, evaluateFinal_congr hx hheld output⟩
  · intro g hg hnone output
    have hview : a.view g = none := by
      rw [view_of_run hcalls hrun, hnone]
      rfl
    refine ⟨fun ho => evaluateIntermediate_none ha hg ho hview, fun ho => ?_⟩
    rw [evaluateFinal_eq ha hg ho, hview]
    rfl

/-- The batch of `twoRows`, after an announcement that ran out of memory at the last array and
one that did not. -/
def regrown : List (Surroundings × Call) :=
  [(⟨.standard, .new (some 50)⟩, .setGroupCount 3), (⟨.standard, .new (some 200)⟩, .setGroupCount 2)]
    ++ twoRows

theorem run_sameBatches_regrown :
    let run := (new .int32 .int32 .int64 5).run regrown
    let run' := (new .int32 .int32 .int64 0).run twoRows
    run.2.groupCount = 2 ∧ run'.2.groupCount = 1 ∧ batchOutcomes run.1 = batchOutcomes run'.1 ∧
      EvaluatesAlike 0 run.2 run'.2 ∧
      run.2.evaluateFinal 1 (.new .int32) = (.ok (), Builder.appendNull (.new .int32)) := by
  intro run run'
  have hregrown : ∀ call ∈ regrown, ∀ column ∈ call.2.columns, column.Built :=
    List.forall_mem_append.mpr ⟨by simp [Call.columns], built_twoRows⟩
  obtain ⟨houtcomes, halike, hnull⟩ := run_sameBatches hregrown built_twoRows
    (Prod.mk.eta (p := run)).symm (Prod.mk.eta (p := run')).symm rfl (by decide) (by decide)
  exact ⟨rfl, rfl, houtcomes, halike 0 (by decide) (by decide), (hnull 1 (by decide) rfl _).2 rfl⟩

end Accumulator

end Earliest
