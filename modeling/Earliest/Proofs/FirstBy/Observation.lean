import Earliest.Proofs.Column.Entries
import Earliest.Proofs.FirstBy.Order
import Earliest.Proofs.FirstBy.Room

/-! Evaluating observes and changes nothing else. A group's evaluation adds one row at the end of
the builder it is given, or is refused and leaves the builder as it was, and the accumulator stays
what it is. So the columns of all groups, where there is room for them, list what each group holds,
however often they are asked for and whatever else is asked for in between. -/

namespace Earliest

namespace Accumulator

open Column (Lists lists_finish)

variable {k : Kind} {a : Accumulator k} {n count : Nat} {t : DataType} {p : Physical}
  {value : Nat → Option p.Value} {evaluate : Nat → Builder → Attempt Builder}
  {output : Builder}

/-! ## One group -/

/-- An evaluation of the first `count` groups, by what it does for each: it appends the group's
value, and is refused for a builder of another type and for a group past the last. -/
structure Evaluates (count : Nat) (p : Physical) (value : Nat → Option p.Value)
    (evaluate : Nat → Builder → Attempt Builder) : Prop where
  appends : ∀ g output, output.physical = p → g < count →
    evaluate g output = output.appendStored p (value g)
  refuses : ∀ g output, ¬ (output.physical = p ∧ g < count) →
    ∃ f, evaluate g output = (.error f, output) ∧ f.kind = .invalidArgument

theorem evaluates_intermediate (ha : a.Sound)
    (hfits : ∀ g c, a.view g = some c → Intermediate.FitsState c) :
    Evaluates a.groupCount .binary (fun g => stateBytes (a.view g)) a.evaluateIntermediate := by
  constructor
  · intro g output ho hg
    exact evaluateIntermediate_eq ha hg ho (hfits g)
  · intro g output h
    by_cases ho : output.physical = .binary
    · have hg : a.groupCount ≤ g := not_lt.mp fun hg => h ⟨ho, hg⟩
      refine ⟨.groupRange g a.groupCount, ?_, rfl⟩
      rw [evaluateIntermediate, if_neg (not_not.mpr ho), held_of_le hg]
    · refine ⟨.intermediateOutput output.dataType, ?_, rfl⟩
      rw [evaluateIntermediate, if_pos ho]

theorem evaluates_final (ha : a.Sound) :
    Evaluates a.groupCount k.physical (fun g => (a.view g).bind Candidate.value)
      a.evaluateFinal := by
  constructor
  · intro g output ho hg
    exact evaluateFinal_eq ha hg ho
  · intro g output h
    by_cases ho : output.physical = k.physical
    · have hg : a.groupCount ≤ g := not_lt.mp fun hg => h ⟨ho, hg⟩
      refine ⟨.groupRange g a.groupCount, ?_, rfl⟩
      rw [evaluateFinal, if_neg (not_not.mpr ho), held_of_le hg]
    · refine ⟨.outputType a.xType output.dataType, ?_, rfl⟩
      rw [evaluateFinal, if_pos ho]

/-- The result of evaluating one group into a builder: where it can be, the builder has one row
more at its end, and otherwise it is what it was. -/
structure Observes (can : Prop) (p : Physical) (v : Option p.Value) (output : Builder)
    (result : Attempt Builder) : Prop where
  succeeds : result.1 = .ok () ↔ can
  gains : result.1 = .ok () → result.2.Built ∧ result.2.validity.len = result.2.data.size ∧
    ∃ rows, Lists output.dataType p rows output.finish ∧
      Lists output.dataType p (rows ++ [v]) result.2.finish
  refused : ∀ f, result.1 = .error f → f.kind = .invalidArgument ∧ result.2 = output

theorem Evaluates.observes (h : Evaluates count p value evaluate) (ho : output.Built) (g : Nat) :
    Observes (output.physical = p ∧ g < count) p (value g) output (evaluate g output) := by
  by_cases hcan : output.physical = p ∧ g < count
  · obtain ⟨hp, hg⟩ := hcan
    obtain rfl : output.physical = p := hp
    obtain ⟨rows, hrows⟩ := ho.exists_holds
    obtain ⟨output', happend⟩ :=
      Builder.exists_appendStored ho.wellFormed rfl (value g)
    have hresult := (h.appends g output rfl hg).trans happend
    have hholds := hrows.appendStored happend
    have hlists := lists_finish hholds
    rw [Builder.dataType_appendStored happend] at hlists
    rw [hresult]
    refine ⟨iff_of_true rfl ⟨rfl, hg⟩, fun _ => ?_, nofun⟩
    exact ⟨ho.appendStored happend, hholds.wellFormed.len, rows, lists_finish hrows, hlists⟩
  · obtain ⟨f, hresult, hf⟩ := h.refuses g output hcan
    rw [hresult]
    refine ⟨iff_of_false nofun hcan, nofun, ?_⟩
    rintro _ ⟨⟩
    exact ⟨hf, rfl⟩

/-! ## Groups in turn -/

/-- Evaluating groups in turn into one builder, by what it leaves there: the rows of the groups that
can be evaluated, and of the others not a trace. -/
structure ObservesEach (count : Nat) (p : Physical) (value : Nat → Option p.Value)
    (evaluate : Nat → Builder → Attempt Builder) (groups : List Nat) (output : Builder) :
    Prop where
  succeeds : (evaluateEach evaluate groups output).1.map Except.isOk =
    groups.map fun g => decide (output.physical = p ∧ g < count)
  unchanged : (evaluateEach evaluate groups output).2 = (evaluateEach evaluate
    (groups.filter fun g => decide (output.physical = p ∧ g < count)) output).2
  gains : output.physical = p → ∃ rows, Lists output.dataType p rows output.finish ∧
    Lists output.dataType p (rows ++ (groups.filter (· < count)).map value)
      (evaluateEach evaluate groups output).2.finish

/-- A refused group may be left out. -/
theorem Evaluates.evaluateEach_filter (h : Evaluates count p value evaluate) (groups : List Nat)
    (output : Builder) :
    (evaluateEach evaluate groups output).2 = (evaluateEach evaluate
      (groups.filter fun g => decide (output.physical = p ∧ g < count)) output).2 := by
  induction groups generalizing output with
  | nil => rfl
  | cons g groups ih =>
    by_cases hcan : output.physical = p ∧ g < count
    · rw [List.filter_cons, if_pos (decide_eq_true hcan)]
      rcases hfirst : evaluate g output with ⟨outcome, output'⟩
      have hsame : output'.physical = output.physical := by
        have happend := (h.appends g output hcan.1 hcan.2).symm.trans hfirst
        exact congrArg DataType.physical (Builder.dataType_appendStored happend)
      simp only [evaluateEach, hfirst, ih output', hsame]
    · rw [List.filter_cons, if_neg (by simpa using hcan)]
      obtain ⟨f, hfirst, -⟩ := h.refuses g output hcan
      simp only [evaluateEach, hfirst]
      exact ih output

theorem Evaluates.holds_evaluateEach (h : Evaluates count p value evaluate)
    {rows : List (Option p.Value)} (ho : output.Holds p rows) (groups : List Nat) :
    (evaluateEach evaluate groups output).1.map Except.isOk = groups.map (decide <| · < count) ∧
      (evaluateEach evaluate groups output).2.dataType = output.dataType ∧
      (evaluateEach evaluate groups output).2.Holds p
        (rows ++ (groups.filter (· < count)).map value) := by
  induction groups generalizing output rows with
  | nil => simpa [evaluateEach] using ho
  | cons g groups ih =>
    by_cases hg : g < count
    · obtain ⟨output', happend⟩ := Builder.exists_appendStored ho.wellFormed ho.physical (value g)
      have hfirst := (h.appends g output ho.physical hg).trans happend
      obtain ⟨hoks, htype, hrest⟩ := ih (ho.appendStored happend)
      simp only [evaluateEach, hfirst]
      refine ⟨?_, htype.trans (Builder.dataType_appendStored happend), ?_⟩
      · simp [hoks, hg, Except.isOk, Except.toBool]
      · rw [List.append_assoc] at hrest
        simpa [hg] using hrest
    · obtain ⟨f, hfirst, -⟩ := h.refuses g output fun hcan => hg hcan.2
      obtain ⟨hoks, htype, hrest⟩ := ih ho
      simp only [evaluateEach, hfirst]
      refine ⟨?_, htype, ?_⟩
      · simp [hoks, hg, Except.isOk, Except.toBool]
      · simpa [hg] using hrest

theorem Evaluates.isOk_evaluateEach_of_ne (h : Evaluates count p value evaluate)
    (ho : output.physical ≠ p) (groups : List Nat) :
    (evaluateEach evaluate groups output).1.map Except.isOk = groups.map fun _ => false := by
  induction groups with
  | nil => rfl
  | cons g groups ih =>
    obtain ⟨f, hfirst, -⟩ := h.refuses g output fun hcan => ho hcan.1
    simp only [evaluateEach, hfirst]
    exact congrArg (false :: ·) ih

theorem Evaluates.observesEach (h : Evaluates count p value evaluate) (ho : output.Built)
    (groups : List Nat) : ObservesEach count p value evaluate groups output := by
  by_cases hp : output.physical = p
  · obtain rfl : output.physical = p := hp
    obtain ⟨rows, hrows⟩ := ho.exists_holds
    obtain ⟨hoks, htype, hholds⟩ := h.holds_evaluateEach hrows groups
    refine ⟨?_, h.evaluateEach_filter groups output, fun _ => ⟨rows, lists_finish hrows, ?_⟩⟩
    · simpa using hoks
    · exact htype ▸ lists_finish hholds
  · refine ⟨?_, h.evaluateEach_filter groups output, fun h => absurd h hp⟩
    simpa [hp] using h.isOk_evaluateEach_of_ne hp groups

/-- What an evaluation of the first `count` groups does to builders. -/
structure Observed (count : Nat) (p : Physical) (value : Nat → Option p.Value)
    (evaluate : Nat → Builder → Attempt Builder) : Prop where
  one : ∀ g output, output.Built →
    Observes (output.physical = p ∧ g < count) p (value g) output (evaluate g output)
  each : ∀ groups output, output.Built → ObservesEach count p value evaluate groups output

theorem Evaluates.observed (h : Evaluates count p value evaluate) :
    Observed count p value evaluate where
  one g _ ho := h.observes ho g
  each groups _ ho := h.observesEach ho groups

/-! ## All groups -/

/-- The first groups as columns: as many of them as there are, with a row for each, and wherever
there is room for so many rows. -/
structure Collects (count : Nat) (t : DataType) (p : Physical) (value : Nat → Option p.Value)
    (all : Nat → Except Fault Column) (all? : Nat → Option (Except Fault Column)) : Prop where
  succeeds : ∀ n, (∃ column, all n = .ok column) ↔ n ≤ count
  lists : ∀ n column, all n = .ok column → Lists t p ((List.range n).map value) column
  room : ∀ n, all? n = if Store.room p n < objectRange then some (all n) else none

/-- The first groups as a column. -/
theorem Evaluates.exists_column (h : Evaluates count p value evaluate) (ht : t.physical = p)
    (hn : n ≤ count) :
    ∃ column, collect evaluate n (.new t) = .ok column ∧
      Lists t p ((List.range n).map value) column := by
  have heach : ∀ g < n, ∀ b : Builder, b.physical = p →
      evaluate g b = b.appendStored p (value g) := by
    intro g hg b hb
    exact h.appends g b hb (hg.trans_le hn)
  obtain ⟨b, hcolumn, htype, hb⟩ := exists_collect ht heach
  exact ⟨b.finish, hcolumn, htype ▸ lists_finish hb⟩

/-- A group past the last stands in the way of a column. -/
theorem Evaluates.le_of_column (h : Evaluates count p value evaluate) {column : Column}
    (hcolumn : collect evaluate n (.new t) = .ok column) : n ≤ count := by
  apply le_of_collect ?_ hcolumn
  intro b
  obtain ⟨f, hrefused, -⟩ := h.refuses count b fun hcan => hcan.2.false
  exact ⟨f, congrArg Prod.fst hrefused⟩

theorem Evaluates.collects (h : Evaluates count p value evaluate) (ht : t.physical = p) :
    Collects count t p value (fun n => collect evaluate n (.new t))
      fun n => (Builder.withRoom? t n).map (collect evaluate n) := by
  constructor
  · intro n
    constructor
    · rintro ⟨column, hcolumn⟩
      exact h.le_of_column hcolumn
    · intro hn
      obtain ⟨column, hcolumn, -⟩ := h.exists_column ht hn
      exact ⟨column, hcolumn⟩
  · intro n column hcolumn
    obtain ⟨column', hcolumn', hlists⟩ := h.exists_column ht (h.le_of_column hcolumn)
    cases hcolumn.symm.trans hcolumn'
    exact hlists
  · intro n
    rw [collect_withRoom?, ht]

end Accumulator

/-! ## Observations in between -/

namespace Session

variable {s : Session} {op : Op} {steps : List (Allocator × Op)}

/-- The steps that evaluate. -/
def Op.Observes : Op → Prop
  | .evaluate _ _ _ _ => True
  | .keep _ _ => True
  | _ => False

/-- The column that a step is to keep. -/
def column? (s : Session) : Op → Option Column
  | .keep index count =>
    match s.find index with
    | .ok a => (a.intermediates? count).bind Except.toOption
    | .error _ => none
  | _ => none

theorem apply_of_observes (alloc : Allocator) (h : op.Observes) :
    (s.apply alloc op).2 = { s with kept := s.kept ++ (s.column? op).toList } := by
  cases op with
  | evaluate stage index group output => simp [apply, column?]
  | keep index count =>
    show (s.keep index count).2 = _
    unfold keep column?
    rcases hfind : s.find index with f | a
    · simp [hfind]
    · rcases hcolumn : a.intermediates? count with _ | f | column <;>
        simp [hfind, hcolumn, Except.toOption]
  | _ => exact h.elim

/-- An observation answers from the accumulators alone. -/
theorem outcome_of_observes (alloc : Allocator) (kept : List Column) (h : op.Observes) :
    (apply alloc { s with kept } op).1 = (s.apply alloc op).1 := by
  cases op with
  | evaluate stage index group output => rfl
  | keep index count =>
    show (keep index count { s with kept }).1 = (s.keep index count).1
    have hfind : find { s with kept } index = s.find index := rfl
    rw [keep, keep, hfind]
    rcases s.find index with f | a
    · rfl
    · rcases hcolumn : a.intermediates? count with _ | f | column <;> simp only [hcolumn]
  | _ => exact h.elim

/-- Observations change nothing but the columns that are kept, and each of these is the one that
would be had at the start. -/
theorem run_of_observes (h : ∀ step ∈ steps, step.2.Observes) :
    s.run steps = { s with kept := s.kept ++ steps.filterMap fun step => s.column? step.2 } := by
  induction steps generalizing s with
  | nil => simp [run]
  | cons step rest ih =>
    obtain ⟨hfirst, hrest⟩ := List.forall_mem_cons.mp h
    have hstep : s.run (step :: rest) = (s.apply step.1 step.2).2.run rest := rfl
    have hsame : ∀ kept op, column? { s with kept } op = s.column? op := by
      intro kept op
      cases op <;> rfl
    rw [hstep, apply_of_observes step.1 hfirst, ih hrest, List.filterMap_cons]
    simp only [hsame]
    cases s.column? step.2 <;> simp

end Session

namespace Accumulator

variable {k : Kind} {a : Accumulator k}

/-- After any run evaluating only observes. A group's state goes to any builder of byte strings, if
it can be written, and its value to any builder of the kind's type: as one row at the end, and not
at all for a group that was not announced. The first groups make a column if they were announced,
with a row for what each of them holds, and it is what a caller gets who finds room for so many
rows; for their values the kind is the one that fits `xType`. Where memory that no object can have
is never had, there is room for the values of all groups that were announced, and for their states
unless the offsets of these are one too many. In a session of any accumulators, whatever is
evaluated leaves the accumulators and the memory as they were, and every answer is the one that
would have been had at the start. -/
theorem run_observes {xType yType : DataType} {minCapacity : Nat}
    {calls : List (Surroundings × Call)} {trace : List (Call × Except Fault Unit)}
    (hcalls : ∀ call ∈ calls, ∀ column ∈ call.2.columns, column.Built)
    (hrun : (new k xType yType minCapacity).run calls = (trace, a)) :
    ((∀ g c, a.view g = some c → Intermediate.FitsState c) →
      Observed a.groupCount .binary (fun g => stateBytes (a.view g)) a.evaluateIntermediate ∧
        Collects a.groupCount .binary .binary (fun g => stateBytes (a.view g))
          a.intermediates a.intermediates?) ∧
    Observed a.groupCount k.physical (fun g => (a.view g).bind Candidate.value)
      a.evaluateFinal ∧
    (∀ start, Aggregate.new xType yType minCapacity = .ok ⟨k, start⟩ →
      Collects a.groupCount xType k.physical (fun g => (a.view g).bind Candidate.value)
        a.finals a.finals? ∧
      ((∀ call ∈ calls, call.1.alloc.Bounded) → ∀ n ≤ a.groupCount,
        a.finals? n = some (a.finals n) ∧
          ((n + 1) * 8 < objectRange → a.intermediates? n = some (a.intermediates n)))) ∧
    ∀ (s : Session) (steps : List (Allocator × Session.Op)),
      (∀ step ∈ steps, step.2.Observes) →
        s.run steps =
            { s with kept := s.kept ++ steps.filterMap fun step => s.column? step.2 } ∧
          ∀ alloc (op : Session.Op), op.Observes →
            ((s.run steps).apply alloc op).1 = (s.apply alloc op).1 := by
  have ha := (run_view (sound_new k xType yType minCapacity) hcalls hrun).1
  refine ⟨?_, (evaluates_final ha).observed, ?_, ?_⟩
  · intro hfits
    have hstates := evaluates_intermediate ha hfits
    exact ⟨hstates.observed, hstates.collects rfl⟩
  · intro start hnew
    have hphysical : xType.physical = k.physical := Aggregate.physical_of_new hnew
    obtain rfl : a.xType = xType := xType_of_run hcalls hrun
    refine ⟨(evaluates_final ha).collects hphysical, ?_⟩
    intro halloc n hn
    have hhoused : ((new k a.xType yType minCapacity).run calls).2.Housed :=
      (housed_new k a.xType yType minCapacity).run halloc
    rw [hrun] at hhoused
    exact ⟨finals?_eq ha hhoused hphysical hn, intermediates?_eq⟩
  · intro s steps hsteps
    have hafter := Session.run_of_observes (s := s) hsteps
    refine ⟨hafter, ?_⟩
    intro alloc op hop
    rw [hafter]
    exact Session.outcome_of_observes alloc _ hop

theorem run_observes_twoRows :
    let a := ((new .int32 .int32 .int64 0).run twoRows).2
    (∃ column, a.finals 1 = .ok column ∧ column.cells .int32 = [some (8 : Int32)]) ∧
      (∃ column, a.intermediates 1 = .ok column ∧ column.len = 1) ∧
      (¬ ∃ column, a.finals 2 = .ok column) ∧ a.finals? 1 = some (a.finals 1) := by
  intro a
  obtain ⟨hstates, -, hvalues, -⟩ := run_observes built_twoRows Prod.mk.eta.symm
  have hfits : ∀ g c, a.view g = some c → Intermediate.FitsState c := by
    rintro g ⟨_, _ | v⟩ - <;> trivial
  have hstates := (hstates hfits).2
  obtain ⟨hvalues, hroom⟩ := hvalues _ rfl
  obtain ⟨column, hcolumn⟩ := (hvalues.succeeds 1).mpr (by decide)
  obtain ⟨states, hcolumn'⟩ := (hstates.succeeds 1).mpr (by decide)
  refine ⟨⟨column, hcolumn, ?_⟩, ⟨states, hcolumn', ?_⟩, ?_, (hroom ?_ 1 (by decide)).1⟩
  · exact (hvalues.lists 1 column hcolumn).cells
  · exact (hstates.lists 1 states hcolumn').len
  · rw [hvalues.succeeds 2]
    decide
  · simp [twoRows, Allocator.bounded_standard]

end Accumulator

end Earliest
