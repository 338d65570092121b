import Earliest.Proofs.FirstBy.Input
import Earliest.Proofs.FirstBy.Replay

/-! How batches end. An input is taken in whole or not at all, and when it is not the kind of the
error tells a time of the wrong type from everything else. Intermediate states are taken in up to
the first row that cannot be read, and the error names that row. -/

namespace Earliest

/-- A field that a report lacks is found among those it is given. -/
theorem Report.field?_withFields {r : Report} {key : String} (h : r.field? key = none)
    (fields : List (String × FieldValue)) :
    (r.withFields fields).field? key = fields.lookup key := by
  rw [field?] at h
  rw [field?, withFields, List.lookup_append, h, Option.none_or]

theorem Intermediate.Defect.field?_report (d : Intermediate.Defect) :
    d.report.kind = .invalidArgument ∧ d.report.field? "row" = none ∧
      d.report.field? "aggregate" = none := by
  cases d <;> simp [report, Report.field?, Report.kind, Report.new, Report.withField,
    Report.withFields]

/-- What a malformed row adds stands out from the fields of its defect. -/
theorem Fault.report_malformedRow (row : Nat) (d : Intermediate.Defect) :
    (malformedRow row d).kind = .invalidArgument ∧
      (malformedRow row d).report.field? "row" = some (.number row) ∧
      (malformedRow row d).report.field? "aggregate" = some (.string "first_by") := by
  obtain ⟨hkind, hrow, haggregate⟩ := d.field?_report
  refine ⟨hkind, ?_, ?_⟩
  · rw [report, Report.field?_withFields hrow]
    rfl
  · rw [report, Report.field?_withFields haggregate]
    rfl

namespace Accumulator

variable {k : Kind} {a : Accumulator k} {ids : List Nat} {x y time input : Column}
  {inputs : List Column} {f : Fault} {i : Nat}

theorem kind_of_checkGroups (h : a.checkGroups ids = .error f) : f.kind = .invalidArgument := by
  unfold checkGroups at h
  split at h
  · cases h
    rfl
  · cases h

/-! ## Inputs -/

/-- Three columns with a row for each group id, whose times are not stored as integers of 64
bits. -/
def Mistimed (ids : List Nat) (inputs : List Column) : Prop :=
  ∃ x y time, inputs = [x, y, time] ∧ (∀ c ∈ inputs, c.len = ids.length) ∧
    time.physical ≠ .int64

theorem mistimed_iff :
    Mistimed ids [x, y, time] ↔ x.len = ids.length ∧ y.len = ids.length ∧
      time.len = ids.length ∧ time.physical ≠ .int64 := by
  constructor
  · rintro ⟨x, y, time, heq, hlen, htype⟩
    cases heq
    exact ⟨hlen x (by simp), hlen y (by simp), hlen time (by simp), htype⟩
  · rintro ⟨hx, hy, ht, htype⟩
    refine ⟨x, y, time, rfl, ?_, htype⟩
    simp [hx, hy, ht]

/-- The kind of an error tells whether the type of the times is to blame. -/
structure Blames (ids : List Nat) (inputs : List Column) (f : Fault) : Prop where
  mistimed : Mistimed ids inputs → f.kind = .unsupportedType
  otherwise : ¬ Mistimed ids inputs → f.kind = .invalidArgument

theorem blames_of_checkInput (h : a.checkInput ids x y time = .error f) :
    Blames ids [x, y, time] f := by
  have hother (hnot : ¬ Mistimed ids [x, y, time]) (hkind : f.kind = .invalidArgument) :
      Blames ids [x, y, time] f := ⟨fun hmistimed => absurd hmistimed hnot, fun _ => hkind⟩
  rw [mistimed_iff] at hother
  -- the type of the times is looked at once the lengths are right, and before all else
  unfold checkInput at h
  split at h
  · rename_i hx
    cases h
    exact hother (fun hm => hx hm.1) rfl
  · rename_i hx
    split at h
    · rename_i hy
      cases h
      exact hother (fun hm => hy hm.2.1) rfl
    · rename_i hy
      split at h
      · rename_i ht
        cases h
        exact hother (fun hm => ht hm.2.2.1) rfl
      · rename_i ht
        split at h
        · rename_i htype
          cases h
          have hmistimed : Mistimed ids [x, y, time] :=
            mistimed_iff.mpr ⟨not_not.mp hx, not_not.mp hy, not_not.mp ht, htype⟩
          exact ⟨fun _ => rfl, fun hnot => absurd hmistimed hnot⟩
        · rename_i htype
          have hnot : ¬ (x.len = ids.length ∧ y.len = ids.length ∧ time.len = ids.length ∧
              time.physical ≠ .int64) := fun hm => htype hm.2.2.2
          split at h
          · cases h
            exact hother hnot rfl
          · exact hother hnot (kind_of_checkGroups h)

theorem not_mistimed (h : inputs.length ≠ 3) : ¬ Mistimed ids inputs := by
  rintro ⟨x, y, time, rfl, -, -⟩
  exact h rfl

theorem addInput_of_length_ne (h : inputs.length ≠ 3) :
    a.addInput ids inputs = (.error (.inputCount inputs.length), a) := by
  unfold addInput
  split
  · exact absurd rfl h
  · rfl

/-- An input that is refused was refused by the checks, before any row of it was offered. -/
theorem addInput_error (ha : a.Sound) (hinputs : ∀ c ∈ inputs, c.WellFormed)
    (h : (a.addInput ids inputs).1 = .error f) :
    (a.addInput ids inputs).2 = a ∧ Blames ids inputs f := by
  by_cases hcount : inputs.length = 3
  · obtain ⟨x, y, time, rfl⟩ := List.length_eq_three.mp hcount
    by_cases htakes : Takes k a.groupCount ids x y time
    · rw [addInput_eq ha htakes (hinputs x (by simp)) (hinputs y (by simp))
        (hinputs time (by simp))] at h
      cases h
    · obtain ⟨f', hcheck, hrun⟩ := addInput_refused htakes
      rw [hrun] at h ⊢
      cases h
      exact ⟨rfl, blames_of_checkInput hcheck⟩
  · rw [addInput_of_length_ne hcount] at h ⊢
    cases h
    exact ⟨rfl, fun hm => absurd hm (not_mistimed hcount), fun _ => rfl⟩

theorem addInput_ok_iff (ha : a.Sound) (hinputs : ∀ c ∈ inputs, c.WellFormed) :
    (a.addInput ids inputs).1 = .ok () ↔
      ∃ x y time, inputs = [x, y, time] ∧ Takes k a.groupCount ids x y time := by
  constructor
  · intro hok
    rcases addInput_cases ids ha hinputs with ⟨x, y, time, heq, htakes, -⟩ | ⟨f, hrun⟩
    · exact ⟨x, y, time, heq, htakes⟩
    · rw [hrun] at hok
      cases hok
  · rintro ⟨x, y, time, rfl, htakes⟩
    rw [addInput_eq ha htakes (hinputs x (by simp)) (hinputs y (by simp))
      (hinputs time (by simp))]

/-- After any run, an input is taken in exactly when there are three columns with a row for each
group id, the times are stored as integers of 64 bits, `x` as the values of the accumulator are, and
all of the groups have been announced. Then each row is offered. Otherwise not a slot changes, and
the error is an unsupported type exactly when it is the times that are of the wrong type. -/
theorem Reached.addInput_all_or_nothing (ha : a.Reached) (ids : List Nat)
    (hinputs : ∀ c ∈ inputs, c.Built) :
    ((a.addInput ids inputs).1 = .ok () ↔
        ∃ x y time, inputs = [x, y, time] ∧ Takes k a.groupCount ids x y time) ∧
      (∀ x y time, inputs = [x, y, time] → (a.addInput ids inputs).1 = .ok () →
        (a.addInput ids inputs).2 = a.offerAll (offersOf (rowsOf k ids x y time))) ∧
      ∀ f, (a.addInput ids inputs).1 = .error f →
        (a.addInput ids inputs).2 = a ∧
          (Mistimed ids inputs → f.kind = .unsupportedType) ∧
          (¬ Mistimed ids inputs → f.kind = .invalidArgument) := by
  have hsound := ha.sound
  have hwell : ∀ c ∈ inputs, c.WellFormed := fun c hc => (hinputs c hc).wellFormed
  refine ⟨addInput_ok_iff hsound hwell, ?_, ?_⟩
  · rintro x y time rfl hok
    obtain ⟨_, _, _, heq, htakes⟩ := (addInput_ok_iff hsound hwell).mp hok
    cases heq
    rw [addInput_eq hsound htakes (hwell x (by simp)) (hwell y (by simp)) (hwell time (by simp))]
  · intro f hf
    obtain ⟨hstate, hblames⟩ := addInput_error hsound hwell hf
    exact ⟨hstate, hblames.mistimed, hblames.otherwise⟩

theorem addInput_all_or_nothing_twoRows :
    let a := ((new .int32 .int32 .int64 0).run twoRows).2
    let x := twoNumbers 7 8
    (a.addInput [0, 0] [x, x, firstOfTwo 2 9]).1 = .ok () ∧
      (a.addInput [0, 0] [x, x, firstOfTwo 2 9]).2 = a.offerAll [(0, ⟨2, some (7 : Int32)⟩)] ∧
      a.addInput [0, 1] [x, x, firstOfTwo 2 9] = (.error (.groupRange 1 1), a) ∧
      a.addInput [0, 1] [x, x, x] = (.error (.timeType .int32), a) ∧
      (Fault.timeType .int32).kind = .unsupportedType := by
  intro a x
  have ha : a.Reached := ⟨.int32, .int64, 0, _, _, built_twoRows, Prod.mk.eta.symm⟩
  have hx : x.Built := built_twoNumbers 7 8
  have hgood : ∀ c ∈ [x, x, firstOfTwo 2 9], c.Built := by simp [hx, built_firstOfTwo]
  have hbad : ∀ c ∈ [x, x, x], c.Built := by simp [hx]
  have htakes : Takes .int32 a.groupCount [0, 0] x x (firstOfTwo 2 9) :=
    ⟨rfl, rfl, rfl, rfl, rfl, by decide⟩
  have hrows : offersOf (rowsOf .int32 [0, 0] x x (firstOfTwo 2 9)) =
      [(0, ⟨2, some (7 : Int32)⟩)] := by decide
  have hrange : (a.addInput [0, 1] [x, x, firstOfTwo 2 9]).1 = .error (.groupRange 1 1) := by
    decide
  have htype : (a.addInput [0, 1] [x, x, x]).1 = .error (.timeType .int32) := by decide
  have hmistimed : Mistimed [0, 1] [x, x, x] := mistimed_iff.mpr ⟨rfl, rfl, rfl, nofun⟩
  obtain ⟨hiff, hoffered, -⟩ := ha.addInput_all_or_nothing [0, 0] hgood
  obtain ⟨-, -, hgoodError⟩ := ha.addInput_all_or_nothing [0, 1] hgood
  obtain ⟨-, -, hbadError⟩ := ha.addInput_all_or_nothing [0, 1] hbad
  have hok := hiff.mpr ⟨x, x, firstOfTwo 2 9, rfl, htakes⟩
  have hstate := hoffered x x (firstOfTwo 2 9) rfl hok
  rw [hrows] at hstate
  obtain ⟨hkept, -⟩ := hgoodError _ hrange
  obtain ⟨hkept', hkind, -⟩ := hbadError _ htype
  exact ⟨hok, hstate, Prod.ext hrange hkept, Prod.ext htype hkept', hkind hmistimed⟩

/-! ## Intermediate states -/

theorem kind_of_checkIntermediate (h : a.checkIntermediate ids input = .error f) :
    f.kind = .invalidArgument := by
  unfold checkIntermediate at h
  split at h
  · cases h
    rfl
  · split at h
    · cases h
      rfl
    · exact kind_of_checkGroups h

theorem addIntermediate_refused (h : ¬ a.TakesStates ids input) :
    ∃ f, f.kind = .invalidArgument ∧ a.addIntermediate ids input = (.error f, a) := by
  rcases hcheck : a.checkIntermediate ids input with f | _
  · exact ⟨f, kind_of_checkIntermediate hcheck, by simp only [addIntermediate, hcheck]⟩
  · exact absurd (checkIntermediate_eq_ok_iff.mp hcheck) h

/-- A row that is null or encodes a state. What is stored under a null does not matter. -/
def Readable (k : Kind) (input : Column) (i : Nat) : Prop :=
  ∀ bytes, input.cell .binary i = some bytes → ∃ c, Intermediate.decode k bytes = .ok c

theorem readable_iff : Readable k input i ↔ ∀ d, ¬ Malformed k input i d := by
  constructor
  · rintro h d ⟨bytes, hcell, hbytes⟩
    obtain ⟨c, hc⟩ := h bytes hcell
    rw [hc] at hbytes
    cases hbytes
  · intro h bytes hcell
    rcases hbytes : Intermediate.decode k bytes with d | c
    · exact absurd ⟨bytes, hcell, hbytes⟩ (h d)
    · exact ⟨c, rfl⟩

/-- How a call ends that takes in states up to a row it cannot read, and names that row. -/
structure CutShort (a : Accumulator k) (ids : List Nat) (input : Column) (f : Fault)
    (a' : Accumulator k) (row : Nat) : Prop where
  lt : row < ids.length
  unreadable : ¬ Readable k input row
  first : ∀ i < row, Readable k input i
  kind : f.kind = .invalidArgument
  namesRow : f.report.field? "row" = some (.number row)
  namesAggregate : f.report.field? "aggregate" = some (.string "first_by")
  state : a' = a.offerAll (statesOf k (ids.take row) input)

/-- States that pass the checks are taken in up to the first row that cannot be read. -/
theorem addIntermediate_cases (ha : a.Sound) (h : a.TakesStates ids input)
    (hinput : input.WellFormed) :
    ((∀ i < ids.length, Readable k input i) ∧
        a.addIntermediate ids input = (.ok (), a.offerAll (statesOf k ids input))) ∨
      ∃ f a' row, a.addIntermediate ids input = (.error f, a') ∧
        a.CutShort ids input f a' row := by
  rcases malformed_cases k ids input with hall | ⟨row, d, hrow, hd, hbefore⟩
  · exact .inl ⟨fun i hi => readable_iff.mpr (hall i hi), addIntermediate_eq ha h hinput hall⟩
  · obtain ⟨hkind, hname, haggregate⟩ := Fault.report_malformedRow row d
    refine .inr ⟨_, _, row, addIntermediate_malformed ha h hinput hrow hd hbefore, hrow, ?_, ?_,
      hkind, hname, haggregate, rfl⟩
    · intro hreadable
      exact readable_iff.mp hreadable d hd
    · intro i hi
      exact readable_iff.mpr (hbefore i hi)

/-- After any run, intermediate states are refused as an invalid argument unless they are binary,
one for each group id, and for groups that have been announced; then not a slot changes. Those that
pass are taken in exactly when every row that is not null can be read. If one cannot, the error
names the first such row, and the states before it are taken in, and nothing else. -/
theorem Reached.addIntermediate_exact (ha : a.Reached) (ids : List Nat) (hinput : input.Built) :
    (¬ a.TakesStates ids input → ∃ f, f.kind = .invalidArgument ∧
        a.addIntermediate ids input = (.error f, a)) ∧
      (a.TakesStates ids input →
        ((a.addIntermediate ids input).1 = .ok () ↔ ∀ i < ids.length, Readable k input i) ∧
        ((a.addIntermediate ids input).1 = .ok () →
          (a.addIntermediate ids input).2 = a.offerAll (statesOf k ids input)) ∧
        ∀ f, (a.addIntermediate ids input).1 = .error f →
          ∃ row, a.CutShort ids input f (a.addIntermediate ids input).2 row) := by
  refine ⟨addIntermediate_refused, ?_⟩
  intro htakes
  rcases addIntermediate_cases ha.sound htakes hinput.wellFormed with
    ⟨hall, hrun⟩ | ⟨f, a', row, hrun, hcut⟩
  · rw [hrun]
    refine ⟨⟨fun _ => hall, fun _ => rfl⟩, fun _ => rfl, ?_⟩
    intro f hf
    cases hf
  · rw [hrun]
    refine ⟨⟨nofun, fun hall => absurd (hall row hcut.lt) hcut.unreadable⟩, nofun, ?_⟩
    intro f' hf
    cases hf
    exact ⟨row, hcut⟩

/-- All of four rows but the second. -/
def threeOfFour : Bitmap := (((Bitmap.empty.push true).push false).push true).push true

/-- Encoded states of one group, four rows with the second one null. -/
def nullAmongFour (first second third fourth : Bytes) : Column :=
  .flat .binary (.ofBitmap threeOfFour) (.ofList .binary [first, second, third, fourth])

theorem built_nullAmongFour (first second third fourth : Bytes) :
    (nullAmongFour first second third fourth).Built := by
  have hstore : ColumnData.Built (.ofList .binary [first, second, third, fourth]) :=
    ByteStrings.Built.push (.push (.push (.push .empty first) second) third) fourth
  have hvalid : threeOfFour.Built := .push (.push (.push (.push .empty true) false) true) true
  exact Column.built_flat (.ofBitmap hvalid) hstore rfl rfl

theorem addIntermediate_exact_nullAmongFour :
    let a := ((new .int32 .int32 .int64 0).run twoRows).2
    let input := nullAmongFour (smallState 2 4) [] [9] [9, 9]
    a.addIntermediate [0, 0, 0, 0] input =
        (.error (.malformedRow 2 (.truncated .header 9 1)),
          a.offerAll [(0, ⟨2, some (4 : Int32)⟩)]) ∧
      Readable .int32 input 1 ∧
      (a.addIntermediate [0, 1, 0, 0] input).2 = a := by
  intro a input
  have ha : a.Reached := ⟨.int32, .int64, 0, _, _, built_twoRows, Prod.mk.eta.symm⟩
  have hinput : input.Built := built_nullAmongFour _ _ _ _
  have htakes : a.TakesStates [0, 0, 0, 0] input := ⟨rfl, rfl, by decide⟩
  have hrefused : ¬ a.TakesStates [0, 1, 0, 0] input :=
    fun h => absurd (h.ids 1 (by decide)) (by decide)
  have houtcome : (a.addIntermediate [0, 0, 0, 0] input).1 =
      .error (.malformedRow 2 (.truncated .header 9 1)) := by decide +kernel
  obtain ⟨-, hexact⟩ := ha.addIntermediate_exact [0, 0, 0, 0] hinput
  obtain ⟨-, -, hcut⟩ := hexact htakes
  obtain ⟨row, hrow⟩ := hcut _ houtcome
  obtain ⟨f, -, hrun⟩ := (ha.addIntermediate_exact [0, 1, 0, 0] hinput).1 hrefused
  have htwo : row = 2 := by
    have hnamed := (Fault.report_malformedRow 2 _).2.1.symm.trans hrow.namesRow
    rw [Option.some.injEq, FieldValue.number.injEq] at hnamed
    omega
  subst htwo
  have hstates : statesOf .int32 [0, 0] input = [(0, ⟨2, some (4 : Int32)⟩)] := by decide +kernel
  refine ⟨Prod.ext houtcome ?_, hrow.first 1 (by decide), by rw [hrun]⟩
  rw [hrow.state, ← hstates]
  rfl

end Accumulator

end Earliest
