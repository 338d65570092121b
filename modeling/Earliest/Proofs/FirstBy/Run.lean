import Earliest.FirstBy.Aggregate
import Earliest.Proofs.FirstBy.Evaluate
import Earliest.Proofs.FirstBy.Rows

/-! Whole runs of an accumulator. The calls and their outcomes alone say which candidates each
group was offered, and after any run a group evaluates to the earliest of them. -/

namespace Earliest

namespace Call

/-- The columns that a call brings. -/
def columns : Call → List Column
  | .setGroupCount _ => []
  | .addInput _ inputs => inputs
  | .addIntermediate _ input => [input]

/-- What a call that ended so offered to the groups: an input its rows, and intermediate states
those before a malformed row. A call that failed for any other reason offered nothing. -/
def offers (k : Kind) : Call → Except Fault Unit → List (Nat × Candidate k)
  | .addInput ids [x, y, time], .ok () => offersOf (rowsOf k ids x y time)
  | .addIntermediate ids input, .ok () => statesOf k ids input
  | .addIntermediate ids input, .error (.malformedRow row _) => statesOf k (ids.take row) input
  | _, _ => []

/-- Whether a batch was taken in, in whole or up to a malformed row. -/
def taken : Call → Except Fault Unit → Bool
  | .addInput _ _, .ok () => true
  | .addIntermediate _ _, .ok () => true
  | .addIntermediate _ _, .error (.malformedRow _ _) => true
  | _, _ => false

theorem offers_of_not_taken {c : Call} {outcome : Except Fault Unit}
    (h : c.taken outcome = false) : c.offers k outcome = [] := by
  unfold offers
  split
  · cases h
  · cases h
  · cases h
  · rfl

/-- A malformed row that a call reports is the first one, with what is wrong with it. -/
def ReportsFirst (k : Kind) : Call → Except Fault Unit → Prop
  | .addIntermediate ids input, .error (.malformedRow row d) =>
    row < ids.length ∧ Accumulator.Malformed k input row d ∧
      ∀ i < row, ∀ d, ¬ Accumulator.Malformed k input i d
  | _, _ => True

theorem reportsFirst_of_not_taken {c : Call} {outcome : Except Fault Unit}
    (h : c.taken outcome = false) : c.ReportsFirst k outcome := by
  unfold ReportsFirst
  split
  · cases h
  · trivial

end Call

/-- An accumulator is opened as one of the kind whose values its type stores. -/
theorem Aggregate.physical_of_new {k : Kind} {a : Accumulator k} {xType yType : DataType}
    {minCapacity : Nat} (h : new xType yType minCapacity = .ok ⟨k, a⟩) :
    xType.physical = k.physical := by
  unfold new at h
  split at h
  · rename_i hkind
    cases h
    exact Kind.ofPhysical?_eq_some_iff.mp hkind
  · cases h

/-- The candidates for a group that calls offered, in the order of the calls and their rows. -/
def candidatesFor (k : Kind) (g : Nat) (trace : List (Call × Except Fault Unit)) :
    List (Candidate k) :=
  Accumulator.offeredTo g (trace.flatMap fun (c, outcome) => c.offers k outcome)

/-- Calls that offer nothing may be left out. -/
theorem flatMap_offers_filter (k : Kind) {keep : Call × Except Fault Unit → Bool}
    (h : ∀ t, keep t = false → t.1.offers k t.2 = []) (trace : List (Call × Except Fault Unit)) :
    ((trace.filter keep).flatMap fun t => t.1.offers k t.2) =
      trace.flatMap fun t => t.1.offers k t.2 := by
  induction trace with
  | nil => rfl
  | cons t trace ih =>
    rw [List.flatMap_cons, ← ih, List.filter_cons]
    split
    · rw [List.flatMap_cons]
    · rename_i ht
      rw [h t (Bool.eq_false_iff.mpr ht), List.nil_append]

namespace Accumulator

variable {k : Kind} {a a' : Accumulator k} {c : Call} {outcome : Except Fault Unit}

def respond (s : Surroundings) (c : Call) (a : Accumulator k) : Attempt (Accumulator k) :=
  let (outcome, a, _) := a.call s.alloc c s.manager
  (outcome, a)

theorem respond_addIntermediate (s : Surroundings) (ids : List Nat) (input : Column)
    (a : Accumulator k) : a.respond s (.addIntermediate ids input) = a.addIntermediate ids input :=
  rfl

/-- The calls in turn, each with its outcome, and the accumulator after them. -/
def run : List (Surroundings × Call) → Accumulator k →
    List (Call × Except Fault Unit) × Accumulator k
  | [], a => ([], a)
  | (s, c) :: rest, a =>
    let (outcome, a) := a.respond s c
    let (trace, a) := run rest a
    ((c, outcome) :: trace, a)

/-- A run is its first call and then the others. -/
theorem exists_respond_of_run_cons {s : Surroundings} {calls : List (Surroundings × Call)}
    {trace : List (Call × Except Fault Unit)} (h : a.run ((s, c) :: calls) = (trace, a')) :
    ∃ outcome b rest, a.respond s c = (outcome, b) ∧ b.run calls = (rest, a') ∧
      trace = (c, outcome) :: rest := by
  simp only [run, Prod.mk.injEq] at h
  obtain ⟨rfl, rfl⟩ := h
  exact ⟨_, _, _, rfl, rfl, rfl⟩

/-! ## One call -/

/-- A batch that passes the checks, with how taking it in ends: an input with its last row, and
states with their last row or the first malformed one. -/
inductive Accepts (a : Accumulator k) : Call → Except Fault Unit → Prop
  | input {ids : List Nat} {x y time : Column} (h : Takes k a.groupCount ids x y time)
      (hx : x.WellFormed) (hy : y.WellFormed) (ht : time.WellFormed) :
      Accepts a (.addInput ids [x, y, time]) (.ok ())
  | states {ids : List Nat} {input : Column} (h : a.TakesStates ids input)
      (hinput : input.WellFormed) (hall : ∀ i < ids.length, ∀ d, ¬ Malformed k input i d) :
      Accepts a (.addIntermediate ids input) (.ok ())
  | malformed {ids : List Nat} {input : Column} {row : Nat} {d : Intermediate.Defect}
      (h : a.TakesStates ids input) (hinput : input.WellFormed) (hrow : row < ids.length)
      (hd : Malformed k input row d) (hbefore : ∀ i < row, ∀ d, ¬ Malformed k input i d) :
      Accepts a (.addIntermediate ids input) (.error (.malformedRow row d))

namespace Accepts

theorem announces (h : a.Accepts c outcome) : a.Announces (c.offers k outcome) := by
  cases h with
  | input h => exact h.announces
  | states h => exact h.announces
  | malformed h =>
    apply announces_offersFrom
    intro g hg
    exact h.ids g (List.mem_of_mem_take hg)

theorem reportsFirst (h : a.Accepts c outcome) : c.ReportsFirst k outcome := by
  cases h with
  | input => trivial
  | states => trivial
  | malformed h hinput hrow hd hbefore => exact ⟨hrow, hd, hbefore⟩

/-- An accepted batch is offered, and the memory that the call meets does not matter. -/
theorem call_eq (ha : a.Sound) (h : a.Accepts c outcome) (alloc : Allocator) (m : Manager) :
    a.call alloc c m = (outcome, a.offerAll (c.offers k outcome), m) := by
  cases h with
  | input h hx hy ht =>
    rw [call, addInput_eq ha h hx hy ht]
    rfl
  | states h hinput hall =>
    rw [call, addIntermediate_eq ha h hinput hall]
    rfl
  | malformed h hinput hrow hd hbefore =>
    rw [call, addIntermediate_malformed ha h hinput hrow hd hbefore]
    rfl

theorem respond_eq (ha : a.Sound) (h : a.Accepts c outcome) (s : Surroundings) :
    a.respond s c = (outcome, a.offerAll (c.offers k outcome)) := by
  rw [respond, h.call_eq ha]

end Accepts

/-- The three things that a call can do. -/
inductive Responds (a : Accumulator k) : Call → Except Fault Unit → Accumulator k → Prop
  | announced {count : Nat} {m m' : Manager} {outcome : Except Fault Unit} {a' : Accumulator k}
      (h : Announced count a m outcome a' m') : Responds a (.setGroupCount count) outcome a'
  | accepted {c : Call} {outcome : Except Fault Unit} (h : a.Accepts c outcome) :
      Responds a c outcome (a.offerAll (c.offers k outcome))
  | refused {c : Call} {f : Fault} (h : c.taken (.error f) = false) : Responds a c (.error f) a

theorem responds_addInput (ids : List Nat) {inputs : List Column} (ha : a.Sound)
    (hinputs : ∀ c ∈ inputs, c.WellFormed) :
    Responds a (.addInput ids inputs) (a.addInput ids inputs).1 (a.addInput ids inputs).2 := by
  rcases addInput_cases ids ha hinputs with ⟨x, y, time, rfl, htakes, hrun⟩ | ⟨f, hrun⟩
  · rw [hrun]
    have haccepts : a.Accepts (.addInput ids [x, y, time]) (.ok ()) :=
      .input htakes (hinputs x (by simp)) (hinputs y (by simp)) (hinputs time (by simp))
    exact .accepted haccepts
  · rw [hrun]
    exact .refused rfl

theorem responds_addIntermediate (ids : List Nat) {input : Column} (ha : a.Sound)
    (hinput : input.WellFormed) :
    Responds a (.addIntermediate ids input) (a.addIntermediate ids input).1
      (a.addIntermediate ids input).2 := by
  rcases hcheck : a.checkIntermediate ids input with f | _
  · have hrun : a.addIntermediate ids input = (.error f, a) := by
      simp only [addIntermediate, hcheck]
    rw [hrun]
    cases f with
    | malformedRow row d => exact absurd hcheck checkIntermediate_ne_malformedRow
    | _ => exact .refused rfl
  · have htakes := checkIntermediate_eq_ok_iff.mp hcheck
    rcases malformed_cases k ids input with hall | ⟨row, d, hrow, hd, hbefore⟩
    · rw [addIntermediate_eq ha htakes hinput hall]
      exact .accepted (.states htakes hinput hall)
    · rw [addIntermediate_malformed ha htakes hinput hrow hd hbefore]
      exact .accepted (.malformed htakes hinput hrow hd hbefore)

theorem responds_of_respond {s : Surroundings} (ha : a.Sound)
    (hc : ∀ column ∈ c.columns, column.Built) (h : a.respond s c = (outcome, a')) :
    Responds a c outcome a' := by
  cases c with
  | setGroupCount count =>
    rcases hset : a.setGroupCount s.alloc count s.manager with ⟨o, b, m⟩
    simp only [respond, call, hset, Prod.mk.injEq] at h
    obtain ⟨rfl, rfl⟩ := h
    exact .announced (setGroupCount_announced hset)
  | addInput ids inputs =>
    cases h
    exact responds_addInput ids ha fun c hmem => (hc c hmem).wellFormed
  | addIntermediate ids input =>
    cases h
    exact responds_addIntermediate ids ha (hc input List.mem_cons_self).wellFormed

namespace Responds

theorem groupCount_le (h : Responds a c outcome a') : a.groupCount ≤ a'.groupCount := by
  cases h with
  | announced h => exact h.groupCount_le
  | accepted => rw [groupCount_offerAll]
  | refused => exact le_rfl

theorem xType_eq (h : Responds a c outcome a') : a'.xType = a.xType := by
  cases h with
  | announced h => exact h.types.1
  | accepted => rw [xType_offerAll]
  | refused => rfl

/-- Only an accepted batch is taken in. -/
theorem accepts_of_taken (h : Responds a c outcome a') (ht : c.taken outcome = true) :
    a.Accepts c outcome ∧ a' = a.offerAll (c.offers k outcome) := by
  cases h with
  | announced => cases ht
  | accepted h => exact ⟨h, rfl⟩
  | refused h => exact absurd ht (by rw [h]; decide)

end Responds

/-- What a call does to a sound accumulator. -/
structure Effect (c : Call) (outcome : Except Fault Unit) (a a' : Accumulator k) : Prop where
  sound : a'.Sound
  view : ∀ g, a'.view g = (offeredTo g (c.offers k outcome)).foldl Candidate.keep (a.view g)
  reports : c.ReportsFirst k outcome

theorem Responds.effect (ha : a.Sound) (h : Responds a c outcome a') : Effect c outcome a a' := by
  cases h with
  | announced h => exact ⟨h.sound ha, fun g => h.view_eq ha g, trivial⟩
  | accepted h => exact ⟨ha.offerAll h.announces, view_offerAll ha h.announces, h.reportsFirst⟩
  | refused h =>
    refine ⟨ha, ?_, Call.reportsFirst_of_not_taken h⟩
    intro g
    rw [Call.offers_of_not_taken h]
    rfl

/-! ## Runs -/

/-- After a run each group holds the earliest of what it held and was offered. -/
theorem run_view {calls : List (Surroundings × Call)} {trace : List (Call × Except Fault Unit)}
    (ha : a.Sound) (hcalls : ∀ call ∈ calls, ∀ column ∈ call.2.columns, column.Built)
    (hrun : a.run calls = (trace, a')) :
    a'.Sound ∧ (∀ g, a'.view g = (candidatesFor k g trace).foldl Candidate.keep (a.view g)) ∧
      ∀ t ∈ trace, t.1.ReportsFirst k t.2 := by
  induction calls generalizing a trace with
  | nil =>
    cases hrun
    exact ⟨ha, fun g => rfl, fun t ht => absurd ht List.not_mem_nil⟩
  | cons call calls ih =>
    obtain ⟨s, c⟩ := call
    obtain ⟨outcome, b, rest, hstep, hrest, rfl⟩ := exists_respond_of_run_cons hrun
    have hfirst := (responds_of_respond ha (hcalls (s, c) List.mem_cons_self) hstep).effect ha
    obtain ⟨hsound, hview, hreports⟩ :=
      ih hfirst.sound (fun call hmem => hcalls call (List.mem_cons_of_mem _ hmem)) hrest
    refine ⟨hsound, ?_, ?_⟩
    · intro g
      rw [hview, hfirst.view, candidatesFor, candidatesFor, List.flatMap_cons, offeredTo_append,
        List.foldl_append]
    · intro t ht
      rcases List.mem_cons.mp ht with rfl | ht
      · exact hfirst.reports
      · exact hreports t ht

/-- What every call keeps, a run keeps. -/
theorem run_induction {P : Accumulator k → Prop} {calls : List (Surroundings × Call)}
    {trace : List (Call × Except Fault Unit)}
    (hstep : ∀ {c : Call} {outcome : Except Fault Unit} {a a' : Accumulator k},
      a.Sound → Responds a c outcome a' → P a → P a')
    (ha : a.Sound) (hcalls : ∀ call ∈ calls, ∀ column ∈ call.2.columns, column.Built)
    (hrun : a.run calls = (trace, a')) (h : P a) : P a' := by
  induction calls generalizing a trace with
  | nil =>
    cases hrun
    exact h
  | cons call calls ih =>
    obtain ⟨s, c⟩ := call
    obtain ⟨outcome, b, rest, hrespond, hrest, rfl⟩ := exists_respond_of_run_cons hrun
    have hfirst := responds_of_respond ha (hcalls (s, c) List.mem_cons_self) hrespond
    exact ih (hfirst.effect ha).sound (fun call hmem => hcalls call (List.mem_cons_of_mem _ hmem))
      hrest (hstep ha hfirst h)

/-- The accumulators that calls lead to, failed ones included. -/
def Reached (a : Accumulator k) : Prop :=
  ∃ xType yType minCapacity calls trace,
    (∀ call ∈ calls, ∀ column ∈ Call.columns call.2, column.Built) ∧
      (new k xType yType minCapacity).run calls = (trace, a)

theorem Reached.sound (ha : a.Reached) : a.Sound := by
  obtain ⟨xType, yType, minCapacity, calls, trace, hcalls, hrun⟩ := ha
  exact (run_view (sound_new k xType yType minCapacity) hcalls hrun).1

theorem eq_new_of_aggregate {xType yType : DataType} {minCapacity : Nat}
    (h : Aggregate.new xType yType minCapacity = .ok ⟨k, a⟩) :
    a = new k xType yType minCapacity := by
  unfold Aggregate.new at h
  split at h
  · cases h
    rfl
  · cases h

/-- After any run, failed calls included, a group that was offered nothing evaluates to null.
Any other evaluates to the earliest candidate it was offered, the first one on its timestamp:
to its encoding, unless that cannot be written and nothing is, and to its value or null. -/
theorem run_evaluates {xType yType : DataType} {minCapacity : Nat} {start : Accumulator k}
    (hnew : Aggregate.new xType yType minCapacity = .ok ⟨k, start⟩)
    {calls : List (Surroundings × Call)} {trace : List (Call × Except Fault Unit)}
    (hcalls : ∀ call ∈ calls, ∀ column ∈ call.2.columns, column.Built)
    (hrun : start.run calls = (trace, a)) {g : Nat} (hg : g < a.groupCount)
    {states values : Builder} (hstates : states.Built) (hvalues : values.Built)
    (hbinary : states.physical = .binary) (hkind : values.physical = k.physical) :
    (∀ t ∈ trace, t.1.ReportsFirst k t.2) ∧
      ((candidatesFor k g trace = [] ∧
          Appends .binary none states (a.evaluateIntermediate g states) ∧
          Appends k.physical none values (a.evaluateFinal g values)) ∨
        ∃ c : Candidate k, c.IsEarliest (candidatesFor k g trace) ∧
          (Intermediate.FitsState c → ∃ bytes, Intermediate.encode c = .ok bytes ∧
            Appends .binary (some bytes) states (a.evaluateIntermediate g states)) ∧
          (¬ Intermediate.FitsState c →
            ∃ len, a.evaluateIntermediate g states = (.error (.oversizedGroup g len), states)) ∧
          Appends k.physical c.value values (a.evaluateFinal g values)) := by
  cases eq_new_of_aggregate hnew
  obtain ⟨ha, hview, hreports⟩ := run_view (sound_new k xType yType minCapacity) hcalls hrun
  have hheld : a.view g = Candidate.earliest (candidatesFor k g trace) := by
    rw [hview g, view_new, Candidate.earliest]
  have hfinal := evaluateFinal_eq ha hg hkind
  refine ⟨hreports, ?_⟩
  rcases hearliest : Candidate.earliest (candidatesFor k g trace) with _ | c
  · rw [hearliest] at hheld
    refine .inl ⟨Candidate.earliest_eq_none_iff.mp hearliest, ?_, ?_⟩
    · rw [evaluateIntermediate_none ha hg hbinary hheld]
      exact appends_appendStored hstates.wellFormed hbinary none
    · rw [hfinal, hheld]
      exact appends_appendStored hvalues.wellFormed hkind none
  · rw [hearliest] at hheld
    refine .inr ⟨c, Candidate.earliest_eq_some_iff.mp hearliest, ?_, ?_, ?_⟩
    · intro hfits
      obtain ⟨bytes, hbytes⟩ := Intermediate.exists_encode_iff.mpr hfits
      refine ⟨bytes, hbytes, ?_⟩
      rw [evaluateIntermediate_some ha hg hbinary hheld hbytes]
      exact appends_appendStored hstates.wellFormed hbinary (some bytes)
    · intro hlarge
      exact evaluateIntermediate_oversized ha hg hbinary hheld hlarge
    · rw [hfinal, hheld]
      exact appends_appendStored hvalues.wellFormed hkind c.value

/-- A group is announced, and then offered two rows, the second one earlier. -/
def twoRows : List (Surroundings × Call) :=
  let surroundings : Surroundings := ⟨.standard, .untracked⟩
  let x := Column.flat .int32 (.allValid 2) (.ofList .int32 [7, 8])
  let time := Column.flat .int64 (.allValid 2) (.ofList .int64 [5, 3])
  [(surroundings, .setGroupCount 1), (surroundings, .addInput [0, 0] [x, time, time])]

theorem built_twoRows : ∀ call ∈ twoRows, ∀ column ∈ call.2.columns, column.Built := by
  have hx : (Column.flat .int32 (.allValid 2) (.ofList .int32 [7, 8])).Built :=
    Column.built_flat (.allValid 2) trivial rfl rfl
  have htime : (Column.flat .int64 (.allValid 2) (.ofList .int64 [5, 3])).Built :=
    Column.built_flat (.allValid 2) trivial rfl rfl
  simp [twoRows, Call.columns, hx, htime]

theorem run_evaluates_twoRows :
    Appends .int32 (some (8 : Int32)) (.new .int32)
      (((new .int32 .int32 .int64 0).run twoRows).2.evaluateFinal 0 (.new .int32)) := by
  have hnew : Aggregate.new .int32 .int64 0 = .ok ⟨.int32, new .int32 .int32 .int64 0⟩ := rfl
  have hcandidates : candidatesFor .int32 0 ((new .int32 .int32 .int64 0).run twoRows).1 =
      [⟨5, some (7 : Int32)⟩, ⟨3, some (8 : Int32)⟩] := rfl
  obtain ⟨-, ⟨hnil, -⟩ | ⟨c, hc, -, -, hvalue⟩⟩ :=
    run_evaluates hnew built_twoRows Prod.mk.eta.symm (g := 0) (by decide) (.new .binary)
      (.new .int32) rfl rfl
  · rw [hcandidates] at hnil
    cases hnil
  · rw [hcandidates] at hc
    have h8 : some c = some ⟨3, some (8 : Int32)⟩ :=
      (Candidate.earliest_eq_some_iff.mpr hc).symm.trans (by decide)
    cases h8
    exact hvalue

end Accumulator

end Earliest
