import Earliest.Proofs.FirstBy.Run

/-! Rows in another order. Accumulators that were given the same rows, in whatever order and
batches, agree on the timestamp of each group. Which value stands there is a matter of order only
among the candidates on that one timestamp: where the first of them has the same value in both
orders, the group evaluates alike. -/

namespace Earliest

variable {k : Kind}

/-- A row that a batch delivers: of an input, or an encoded state with the group it is for. -/
inductive Delivery (k : Kind) where
  | row (r : Row k)
  | state (group : Nat) (bytes : Option Bytes)

/-- What the row offers, and to which group. -/
def Delivery.offer? : Delivery k → Option (Nat × Candidate k)
  | row r => r.candidate?.map (r.group, ·)
  | state group bytes =>
    (bytes.bind fun b => (Intermediate.decode k b).toOption).map (group, ·)

/-- The rows of a column of encoded states; `ids` names the group of each. -/
def encodedRows (k : Kind) (ids : List Nat) (input : Column) : List (Delivery k) :=
  ids.zipIdx.map fun (group, i) => .state group (input.cell .binary i)

/-- The rows that a call which ended so took in. -/
def Call.delivers (k : Kind) : Call → Except Fault Unit → List (Delivery k)
  | .addInput ids [x, y, time], .ok () => (rowsOf k ids x y time).map .row
  | .addIntermediate ids input, .ok () => encodedRows k ids input
  | .addIntermediate ids input, .error (.malformedRow row _) => encodedRows k (ids.take row) input
  | _, _ => []

/-- The rows that calls took in, in order. -/
def delivered (k : Kind) (trace : List (Call × Except Fault Unit)) : List (Delivery k) :=
  trace.flatMap fun (c, outcome) => c.delivers k outcome

theorem statesOf_eq_filterMap (k : Kind) (ids : List Nat) (input : Column) :
    statesOf k ids input = (encodedRows k ids input).filterMap Delivery.offer? := by
  rw [encodedRows, List.filterMap_map]
  rfl

theorem offersOf_eq_filterMap (rows : List (Row k)) :
    offersOf rows = (rows.map Delivery.row).filterMap Delivery.offer? := by
  rw [List.filterMap_map]
  rfl

theorem Call.offers_eq_filterMap (k : Kind) (c : Call) (outcome : Except Fault Unit) :
    c.offers k outcome = (c.delivers k outcome).filterMap Delivery.offer? := by
  unfold offers
  split
  · exact offersOf_eq_filterMap _
  · exact statesOf_eq_filterMap k _ _
  · exact statesOf_eq_filterMap k _ _
  · rename_i hinput hstates hcut
    unfold delivers
    split
    · exact (hinput _ _ _ _ rfl rfl).elim
    · exact (hstates _ _ rfl rfl).elim
    · exact (hcut _ _ _ _ rfl rfl).elim
    · rfl

theorem candidatesFor_eq (k : Kind) (g : Nat) (trace : List (Call × Except Fault Unit)) :
    candidatesFor k g trace =
      Accumulator.offeredTo g ((delivered k trace).filterMap Delivery.offer?) := by
  rw [candidatesFor, delivered, List.filterMap_flatMap]
  simp only [Call.offers_eq_filterMap]

theorem candidatesFor_perm {trace trace' : List (Call × Except Fault Unit)}
    (h : (delivered k trace).Perm (delivered k trace')) (g : Nat) :
    (candidatesFor k g trace).Perm (candidatesFor k g trace') := by
  rw [candidatesFor_eq, candidatesFor_eq]
  exact ((h.filterMap _).filter _).map _

namespace Accumulator

variable {a b : Accumulator k} {g : Nat}

/-- Whether the group holds anything, and at which timestamp, is the same in both. -/
def SameTime (g : Nat) (a b : Accumulator k) : Prop :=
  ∃ o o', a.held g = .ok o ∧ b.held g = .ok o' ∧
    o.map Candidate.timestamp = o'.map Candidate.timestamp

/-- The group evaluates to the same, whatever it is evaluated into. -/
def EvaluatesAlike (g : Nat) (a b : Accumulator k) : Prop :=
  ∀ output, a.evaluateIntermediate g output = b.evaluateIntermediate g output ∧
    a.evaluateFinal g output = b.evaluateFinal g output

theorem xType_of_run {calls : List (Surroundings × Call)}
    {trace : List (Call × Except Fault Unit)} {xType yType : DataType} {minCapacity : Nat}
    (hcalls : ∀ call ∈ calls, ∀ column ∈ call.2.columns, column.Built)
    (hrun : (new k xType yType minCapacity).run calls = (trace, a)) : a.xType = xType := by
  apply run_induction (P := fun b => b.xType = xType) ?_ (sound_new k xType yType minCapacity)
    hcalls hrun rfl
  intro c outcome b b' _ hresponds hx
  exact hresponds.xType_eq.trans hx

theorem view_of_run {calls : List (Surroundings × Call)}
    {trace : List (Call × Except Fault Unit)} {xType yType : DataType} {minCapacity : Nat}
    (hcalls : ∀ call ∈ calls, ∀ column ∈ call.2.columns, column.Built)
    (hrun : (new k xType yType minCapacity).run calls = (trace, a)) (g : Nat) :
    a.view g = Candidate.earliest (candidatesFor k g trace) := by
  obtain ⟨-, hview, -⟩ := run_view (sound_new k xType yType minCapacity) hcalls hrun
  rw [hview, view_new, Candidate.earliest]

/-- Two runs that took in the same rows, in any order and any batches, agree for each group on
whether it holds anything and on its timestamp. They evaluate it alike when the first candidate
on that timestamp has the same value in both orders, so certainly when all candidates on it do. -/
theorem run_perm {xType yType yType' : DataType} {minCapacity minCapacity' : Nat}
    {calls calls' : List (Surroundings × Call)} {trace trace' : List (Call × Except Fault Unit)}
    (hcalls : ∀ call ∈ calls, ∀ column ∈ call.2.columns, column.Built)
    (hcalls' : ∀ call ∈ calls', ∀ column ∈ call.2.columns, column.Built)
    (hrun : (new k xType yType minCapacity).run calls = (trace, a))
    (hrun' : (new k xType yType' minCapacity').run calls' = (trace', b))
    (hperm : (delivered k trace).Perm (delivered k trace')) (hg : g < a.groupCount)
    (hg' : g < b.groupCount) :
    SameTime g a b ∧
      ((∀ c c' : Candidate k, c.IsEarliest (candidatesFor k g trace) →
        c'.IsEarliest (candidatesFor k g trace') → c.value = c'.value) → EvaluatesAlike g a b) ∧
      ((∀ c ∈ candidatesFor k g trace, ∀ d ∈ candidatesFor k g trace,
        (∀ e ∈ candidatesFor k g trace, c.timestamp ≤ e.timestamp) →
        d.timestamp = c.timestamp → d.value = c.value) → EvaluatesAlike g a b) := by
  have ha := (run_view (sound_new k xType yType minCapacity) hcalls hrun).1
  have hb := (run_view (sound_new k xType yType' minCapacity') hcalls' hrun').1
  have hcandidates := candidatesFor_perm hperm g
  have htime := Candidate.timestamp_earliest_perm hcandidates
  have halike (hvalue : ∀ c c' : Candidate k, c.IsEarliest (candidatesFor k g trace) →
      c'.IsEarliest (candidatesFor k g trace') → c.value = c'.value) : EvaluatesAlike g a b := by
    have hheld : a.held g = b.held g := by
      rw [ha.held_eq hg, hb.held_eq hg', view_of_run hcalls hrun, view_of_run hcalls' hrun',
        Candidate.earliest_eq_of_timestamp htime hvalue]
    have hx : a.xType = b.xType := by rw [xType_of_run hcalls hrun, xType_of_run hcalls' hrun']
    intro output
    exact ⟨evaluateIntermediate_congr hheld output, evaluateFinal_congr hx hheld output⟩
  refine ⟨⟨_, _, ha.held_eq hg, hb.held_eq hg', ?_⟩, halike, ?_⟩
  · rwa [view_of_run hcalls hrun, view_of_run hcalls' hrun']
  · intro hone
    apply halike
    intro c c' hc hc'
    -- the other order's winner is a candidate of this one, on the same timestamp
    have hmem := hcandidates.mem_iff.mpr hc'.mem
    have hsame : c'.timestamp = c.timestamp :=
      Int64.le_antisymm (hc'.le (hcandidates.mem_iff.mp hc.mem)) (hc.le hmem)
    exact (hone c hc.mem c' hmem (fun e he => hc.le he) hsame).symm

/-- The rows of `twoRows`, the last one first and in a batch of its own. -/
def turnedRows : List (Surroundings × Call) :=
  let surroundings : Surroundings := ⟨.standard, .untracked⟩
  let x (value : Int32) := Column.flat .int32 (.allValid 1) (.ofList .int32 [value])
  let time (value : Int64) := Column.flat .int64 (.allValid 1) (.ofList .int64 [value])
  [(surroundings, .setGroupCount 1), (surroundings, .addInput [0] [x 8, time 3, time 3]),
    (surroundings, .addInput [0] [x 7, time 5, time 5])]

theorem built_turnedRows : ∀ call ∈ turnedRows, ∀ column ∈ call.2.columns, column.Built := by
  have hx (value : Int32) :
      (Column.flat .int32 (.allValid 1) (.ofList .int32 [value])).Built :=
    Column.built_flat (.allValid 1) trivial rfl rfl
  have htime (value : Int64) :
      (Column.flat .int64 (.allValid 1) (.ofList .int64 [value])).Built :=
    Column.built_flat (.allValid 1) trivial rfl rfl
  simp [turnedRows, Call.columns, hx, htime]

theorem run_perm_turnedRows :
    EvaluatesAlike 0 ((new .int32 .int32 .int64 0).run twoRows).2
      ((new .int32 .int32 .int64 0).run turnedRows).2 := by
  have hrows : delivered .int32 ((new .int32 .int32 .int64 0).run twoRows).1 =
      [.row ⟨0, some (7 : Int32), true, some 5⟩, .row ⟨0, some (8 : Int32), true, some 3⟩] := rfl
  have hturned : delivered .int32 ((new .int32 .int32 .int64 0).run turnedRows).1 =
      [.row ⟨0, some (8 : Int32), true, some 3⟩, .row ⟨0, some (7 : Int32), true, some 5⟩] := rfl
  have hcandidates : candidatesFor .int32 0 ((new .int32 .int32 .int64 0).run twoRows).1 =
      [⟨5, some (7 : Int32)⟩, ⟨3, some (8 : Int32)⟩] := rfl
  have hperm : (delivered .int32 ((new .int32 .int32 .int64 0).run twoRows).1).Perm
      (delivered .int32 ((new .int32 .int32 .int64 0).run turnedRows).1) := by
    rw [hrows, hturned]
    exact .swap _ _ []
  obtain ⟨-, -, hone⟩ := run_perm built_twoRows built_turnedRows Prod.mk.eta.symm
    Prod.mk.eta.symm hperm (g := 0) (by decide) (by decide)
  apply hone
  rw [hcandidates]
  decide

end Accumulator

end Earliest
