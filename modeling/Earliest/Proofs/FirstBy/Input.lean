import Earliest.Proofs.Column.SameRows
import Earliest.Proofs.FirstBy.Run

/-! What an input shows to an accumulator. A row counts when its `y` and its time are valid; only
then is its `x` read, and of `y` nothing else ever is. So inputs that show the same in the rows
that count leave the same accumulator, however their columns are stored. -/

namespace Earliest

variable {k : Kind} {i : Nat} {x y time x' y' time' : Column}

theorem Column.shows_of_cell {c : Column} {p : Physical} {v : p.Value}
    (h : c.cell p i = some v) : c.shows i = true := by
  unfold Column.cell at h
  split at h
  · assumption
  · cases h

/-- A row that is the same in two inputs as far as it counts: of `y` the validity, the time where
`y` is valid, and `x` where the time is valid too. A cell is the stored value, or none for a null
whatever is stored there. -/
structure SameRow (k : Kind) (i : Nat) (x y time x' y' time' : Column) : Prop where
  valid : y.shows i = y'.shows i
  timestamp : y.shows i = true → time.cell .int64 i = time'.cell .int64 i
  value : y.shows i = true → time.shows i = true → x.cell k.physical i = x'.cell k.physical i

/-- Inputs of the same lengths and physical types, with the same rows as far as they count. The
type of `y` may be another one. -/
structure SameInput (k : Kind) (x y time x' y' time' : Column) : Prop where
  xLen : x.len = x'.len
  yLen : y.len = y'.len
  timeLen : time.len = time'.len
  xType : x.physical = x'.physical
  timeType : time.physical = time'.physical
  row : ∀ i, i < x.len → i < y.len → i < time.len → SameRow k i x y time x' y' time'

theorem SameRow.candidate?_eq (h : SameRow k i x y time x' y' time') (group : Nat) :
    Row.candidate? ⟨group, x.cell k.physical i, y.shows i, time.cell .int64 i⟩ =
      Row.candidate? ⟨group, x'.cell k.physical i, y'.shows i, time'.cell .int64 i⟩ := by
  unfold Row.candidate?
  rw [← h.valid]
  split
  · rename_i hy
    rw [← h.timestamp hy]
    rcases htime : time.cell .int64 i with _ | t
    · rfl
    · rw [h.value hy (Column.shows_of_cell htime)]
  · rfl

theorem sameInput_of_alike (hx : Column.Alike x x') (hy : Column.Alike y y')
    (ht : Column.Alike time time') : SameInput k x y time x' y' time' where
  xLen := hx.len
  yLen := hy.len
  timeLen := ht.len
  xType := congrArg DataType.physical hx.dataType
  timeType := congrArg DataType.physical ht.dataType
  row i hix hiy hit :=
    ⟨hy.shows i hiy, fun _ => ht.cell .int64 i hit, fun _ _ => hx.cell k.physical i hix⟩

namespace Accumulator

variable {a : Accumulator k} {ids : List Nat}

theorem addInput_refused (h : ¬ Takes k a.groupCount ids x y time) :
    ∃ f, a.checkInput ids x y time = .error f ∧ a.addInput ids [x, y, time] = (.error f, a) := by
  rcases hcheck : a.checkInput ids x y time with f | _
  · exact ⟨f, rfl, by simp only [addInput, hcheck]⟩
  · exact absurd (checkInput_eq_ok_iff.mp hcheck) h

end Accumulator

namespace SameInput

open Accumulator

variable {a : Accumulator k} {ids : List Nat}

/-- The checks look at no row. -/
theorem takes_iff (h : SameInput k x y time x' y' time') :
    Takes k a.groupCount ids x y time ↔ Takes k a.groupCount ids x' y' time' := by
  constructor
  · intro ht
    exact ⟨h.xLen.symm.trans ht.xLen, h.yLen.symm.trans ht.yLen, h.timeLen.symm.trans ht.timeLen,
      h.timeType.symm.trans ht.timeType, h.xType.symm.trans ht.xType, ht.ids⟩
  · intro ht
    exact ⟨h.xLen.trans ht.xLen, h.yLen.trans ht.yLen, h.timeLen.trans ht.timeLen,
      h.timeType.trans ht.timeType, h.xType.trans ht.xType, ht.ids⟩

/-- Logical types stand in the errors only. -/
theorem checkInput_eq (h : SameInput k x y time x' y' time') (hx : x.dataType = x'.dataType)
    (ht : time.dataType = time'.dataType) :
    a.checkInput ids x y time = a.checkInput ids x' y' time' := by
  unfold checkInput Column.physical
  rw [h.xLen, h.yLen, h.timeLen, hx, ht]

theorem offersOf_eq (h : SameInput k x y time x' y' time')
    (htakes : Takes k a.groupCount ids x y time) :
    offersOf (rowsOf k ids x y time) = offersOf (rowsOf k ids x' y' time') := by
  rw [offersOf_rowsOf, offersOf_rowsOf]
  apply offersFrom_congr
  intro i hi
  rw [Nat.zero_add]
  exact (h.row i (htakes.xLen ▸ hi) (htakes.yLen ▸ hi) (htakes.timeLen ▸ hi)).candidate?_eq 0

/-- Such inputs are both accepted or both refused, and leave the same accumulator. Where they are
refused the errors are the same too, if the logical types are. -/
theorem ends_alike (h : SameInput k x y time x' y' time') (ids : List Nat) (ha : a.Sound)
    (hx : x.WellFormed) (hy : y.WellFormed) (ht : time.WellFormed) (hx' : x'.WellFormed)
    (hy' : y'.WellFormed) (ht' : time'.WellFormed) :
    (a.addInput ids [x, y, time]).2 = (a.addInput ids [x', y', time']).2 ∧
      (a.addInput ids [x, y, time]).1.isOk = (a.addInput ids [x', y', time']).1.isOk ∧
      (x.dataType = x'.dataType → time.dataType = time'.dataType →
        a.addInput ids [x, y, time] = a.addInput ids [x', y', time']) := by
  by_cases htakes : Takes k a.groupCount ids x y time
  · rw [addInput_eq ha htakes hx hy ht, addInput_eq ha (h.takes_iff.mp htakes) hx' hy' ht',
      h.offersOf_eq htakes]
    exact ⟨rfl, rfl, fun _ _ => rfl⟩
  · obtain ⟨f, hcheck, hrun⟩ := addInput_refused htakes
    obtain ⟨f', hcheck', hrun'⟩ := addInput_refused (mt h.takes_iff.mpr htakes)
    rw [hrun, hrun']
    refine ⟨rfl, rfl, ?_⟩
    intro hxType htimeType
    rw [h.checkInput_eq hxType htimeType, hcheck', Except.error.injEq] at hcheck
    rw [hcheck]

end SameInput

namespace Accumulator

variable {a : Accumulator k} {ids : List Nat} {inputs inputs' : List Column}

/-- Columns may be stored in another way: the call does not tell. -/
theorem addInput_sameRows (ha : a.Sound) (hinputs : ∀ c ∈ inputs, c.WellFormed)
    (hinputs' : ∀ c ∈ inputs', c.WellFormed) (h : List.Forall₂ Column.SameRows inputs inputs') :
    a.addInput ids inputs = a.addInput ids inputs' := by
  have hcount := h.length_eq
  rcases h with _ | ⟨hx, _ | ⟨hy, _ | ⟨ht, _ | ⟨hz, hmore⟩⟩⟩⟩
  · rfl
  · rfl
  · rfl
  · rename_i x x' y y' time time'
    have hsame : SameInput k x y time x' y' time' := sameInput_of_alike hx.alike hy.alike ht.alike
    simp only [List.mem_cons, List.not_mem_nil, or_false, forall_eq_or_imp, forall_eq]
      at hinputs hinputs'
    obtain ⟨hxw, hyw, htw⟩ := hinputs
    obtain ⟨hxw', hyw', htw'⟩ := hinputs'
    obtain ⟨-, -, heq⟩ := hsame.ends_alike ids ha hxw hyw htw hxw' hyw' htw'
    exact heq hx.alike.dataType ht.alike.dataType
  · simp only [addInput, hcount]

/-- After any run, inputs with the same rows as far as they count end alike: both are accepted or
both refused, and the accumulators they leave are the same in every slot. Columns that differ in
nothing but how their rows are stored may stand for one another, and the errors are then the same
as well. -/
theorem addInput_reads_rows (ha : a.Reached) :
    (∀ ids x y time x' y' time', (∀ c ∈ [x, y, time, x', y', time'], c.Built) →
      SameInput k x y time x' y' time' →
        (a.addInput ids [x, y, time]).2 = (a.addInput ids [x', y', time']).2 ∧
          (a.addInput ids [x, y, time]).1.isOk = (a.addInput ids [x', y', time']).1.isOk) ∧
      ∀ ids inputs inputs', (∀ c ∈ inputs ++ inputs', c.Built) →
        List.Forall₂ Column.SameRows inputs inputs' →
          a.addInput ids inputs = a.addInput ids inputs' := by
  have hsound := ha.sound
  refine ⟨?_, ?_⟩
  · intro ids x y time x' y' time' hbuilt h
    have hw {c : Column} (hc : c ∈ [x, y, time, x', y', time']) : c.WellFormed :=
      (hbuilt c hc).wellFormed
    obtain ⟨hstate, houtcome, -⟩ := h.ends_alike ids hsound (hw (by simp)) (hw (by simp))
      (hw (by simp)) (hw (by simp)) (hw (by simp)) (hw (by simp))
    exact ⟨hstate, houtcome⟩
  · intro ids inputs inputs' hbuilt h
    apply addInput_sameRows hsound ?_ ?_ h
    · intro c hc
      exact (hbuilt c (List.mem_append_left _ hc)).wellFormed
    · intro c hc
      exact (hbuilt c (List.mem_append_right _ hc)).wellFormed

/-- Two numbers, the second one null but stored all the same. -/
def firstOfTwo (first second : Int64) : Column :=
  .flat .int64 (.ofBitmap ((Bitmap.empty.push true).push false)) (.ofList .int64 [first, second])

theorem built_firstOfTwo (first second : Int64) : (firstOfTwo first second).Built :=
  Column.built_flat (.ofBitmap (.push (.push .empty true) false)) trivial rfl rfl

/-- Two stored numbers. -/
def twoNumbers (first second : Int32) : Column :=
  .flat .int32 (.allValid 2) (.ofList .int32 [first, second])

theorem built_twoNumbers (first second : Int32) : (twoNumbers first second).Built :=
  Column.built_flat (.allValid 2) trivial rfl rfl

/-- One stored number for two rows. -/
def sameNumber (value : Int32) : Column :=
  ⟨.int32, 2, .constant, .allValid 1, .ofList .int32 [value]⟩

theorem addInput_reads_rows_constant :
    let a := ((new .int32 .int32 .int64 0).run [(⟨.standard, .untracked⟩, .setGroupCount 1)]).2
    (a.addInput [0, 0] [twoNumbers 7 8, twoNumbers 1 2, firstOfTwo 3 9]).2 =
        (a.addInput [0, 0] [twoNumbers 7 0, sameNumber 1, firstOfTwo 3 4]).2 ∧
      a.addInput [0, 0] [sameNumber 7, twoNumbers 1 2, firstOfTwo 3 9] =
        a.addInput [0, 0] [twoNumbers 7 7, twoNumbers 1 2, firstOfTwo 3 9] := by
  intro a
  have ha : a.Reached := ⟨.int32, .int64, 0, _, _, by simp [Call.columns], Prod.mk.eta.symm⟩
  have hone : Column.repeated (.int32 1) 2 = .ok (sameNumber 1) := rfl
  have hseven : Column.repeated (.int32 7) 2 = .ok (sameNumber 7) := rfl
  have hflat : Column.ofScalars .int32 (List.replicate 2 (.int32 7)) = .ok (twoNumbers 7 7) := rfl
  obtain ⟨hrows, hstored⟩ := addInput_reads_rows ha
  refine ⟨(hrows _ _ _ _ _ _ _ ?_ ?_).1, hstored _ _ _ ?_ ?_⟩
  · simp [built_twoNumbers, built_firstOfTwo, Column.Built.repeated hone]
  · refine ⟨rfl, rfl, rfl, rfl, rfl, ?_⟩
    intro i hi _ _
    have hlt : i < 2 := hi
    interval_cases i
    · exact ⟨rfl, fun _ => rfl, fun _ _ => rfl⟩
    · exact ⟨rfl, fun _ => rfl, fun _ htime => absurd htime (by decide)⟩
  · simp [built_twoNumbers, built_firstOfTwo, Column.Built.repeated hseven]
  · exact .cons (.repeated hseven hflat) (.cons (.refl _) (.cons (.refl _) .nil))

end Accumulator

end Earliest
