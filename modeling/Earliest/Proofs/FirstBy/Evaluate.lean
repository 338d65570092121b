import Earliest.Proofs.Column.Holds
import Earliest.Proofs.FirstBy.View
import Earliest.Proofs.Intermediate.Codec

/-! What evaluating groups appends. A group's state and its value depend on what the group holds
and on nothing else about the accumulator, so accumulators that hold the same evaluate to the
same columns. A state that is too large to encode is the only one that is refused. Room for a
column is there or not whatever the groups hold. -/

namespace Earliest

theorem Intermediate.eq_oversized_of_encode {k : Kind} {c : Candidate k} {f : Fault}
    (h : encode c = .error f) : ∃ len, f = .oversized len := by
  obtain ⟨t, _ | v⟩ := c
  · cases h
  · cases k with
    | binary =>
      by_cases hl : List.length v ≤ maxLength
      · simp [encode, encodeValue, hl, Except.map] at h
      · simp only [encode, encodeValue, hl, if_false, Except.map, Except.error.injEq] at h
        exact ⟨_, h.symm⟩
    | _ => cases h

namespace Accumulator

variable {k : Kind} {a a' : Accumulator k} {g n : Nat} {output : Builder} {p : Physical}

/-! ## One group -/

/-- The bytes that stand for what a group holds. -/
def stateBytes (held : Option (Candidate k)) : Option Bytes :=
  held.bind fun c => (Intermediate.encode c).toOption

theorem evaluateIntermediate_none (ha : a.Sound) (hg : g < a.groupCount)
    (ho : output.physical = .binary) (h : a.view g = none) :
    a.evaluateIntermediate g output = (.ok (), output.appendNull) := by
  rw [evaluateIntermediate, if_neg (not_not.mpr ho), ha.held_eq hg, h]

theorem evaluateIntermediate_some {c : Candidate k} {bytes : Bytes} (ha : a.Sound)
    (hg : g < a.groupCount) (ho : output.physical = .binary) (h : a.view g = some c)
    (hc : Intermediate.encode c = .ok bytes) :
    a.evaluateIntermediate g output = output.append .binary bytes := by
  rw [evaluateIntermediate, if_neg (not_not.mpr ho), ha.held_eq hg, h]
  simp only [encodeGroup, hc, Except.mapError]

/-- A state that does not fit is refused, with its group named, and nothing is appended. -/
theorem evaluateIntermediate_oversized {c : Candidate k} (ha : a.Sound) (hg : g < a.groupCount)
    (ho : output.physical = .binary) (h : a.view g = some c) (hc : ¬ Intermediate.FitsState c) :
    ∃ len, a.evaluateIntermediate g output = (.error (.oversizedGroup g len), output) := by
  rcases hencode : Intermediate.encode c with f | bytes
  · obtain ⟨len, rfl⟩ := Intermediate.eq_oversized_of_encode hencode
    refine ⟨len, ?_⟩
    rw [evaluateIntermediate, if_neg (not_not.mpr ho), ha.held_eq hg, h]
    simp only [encodeGroup, hencode, Except.mapError]
  · exact absurd (Intermediate.exists_encode_iff.mp ⟨bytes, hencode⟩) hc

/-- Only a state that fits is ever written. -/
theorem fitsState_of_evaluateIntermediate {c : Candidate k} {output' : Builder} (ha : a.Sound)
    (hg : g < a.groupCount) (h : a.view g = some c)
    (hok : a.evaluateIntermediate g output = (.ok (), output')) : Intermediate.FitsState c := by
  by_contra hlarge
  by_cases ho : output.physical = .binary
  · obtain ⟨len, hlen⟩ := evaluateIntermediate_oversized ha hg ho h hlarge
    rw [hlen] at hok
    cases hok
  · rw [evaluateIntermediate, if_pos ho] at hok
    cases hok

/-- A group whose state fits appends its state, or null when it holds nothing. -/
theorem evaluateIntermediate_eq (ha : a.Sound) (hg : g < a.groupCount)
    (ho : output.physical = .binary) (hfits : ∀ c, a.view g = some c → Intermediate.FitsState c) :
    a.evaluateIntermediate g output = output.appendStored .binary (stateBytes (a.view g)) := by
  rcases h : a.view g with _ | c
  · exact evaluateIntermediate_none ha hg ho h
  · obtain ⟨bytes, hbytes⟩ := Intermediate.exists_encode_iff.mpr (hfits c h)
    rw [evaluateIntermediate_some ha hg ho h hbytes, stateBytes, Option.bind_some, hbytes]
    rfl

/-- A group appends the value it holds, or null. -/
theorem evaluateFinal_eq (ha : a.Sound) (hg : g < a.groupCount)
    (ho : output.physical = k.physical) :
    a.evaluateFinal g output =
      output.appendStored k.physical ((a.view g).bind Candidate.value) := by
  rw [evaluateFinal, if_neg (not_not.mpr ho), ha.held_eq hg]

/-! An evaluation reads what the group holds, and for the texts of its errors the type. -/

theorem evaluateIntermediate_congr (h : a.held g = a'.held g) (output : Builder) :
    a.evaluateIntermediate g output = a'.evaluateIntermediate g output := by
  rw [evaluateIntermediate, evaluateIntermediate, h]

theorem evaluateFinal_congr (hx : a.xType = a'.xType) (h : a.held g = a'.held g)
    (output : Builder) : a.evaluateFinal g output = a'.evaluateFinal g output := by
  rw [evaluateFinal, evaluateFinal, h, hx]

/-- An evaluation that adds one row, the value or null, to what the builder had. -/
def Appends (p : Physical) (v : Option p.Value) (output : Builder)
    (result : Attempt Builder) : Prop :=
  ∃ output', result = (.ok (), output') ∧ output.appendStored p v = (.ok (), output') ∧
    output'.finish.cells p = output.finish.cells p ++ [v]

theorem appends_appendStored (ho : output.WellFormed) (hp : output.physical = p)
    (v : Option p.Value) : Appends p v output (output.appendStored p v) := by
  obtain ⟨output', h⟩ := Builder.exists_appendStored ho hp v
  exact ⟨output', h, h, (Builder.cells_appendStored ho h).2⟩

/-! ## All groups -/

variable {evaluate evaluate' : Nat → Builder → Attempt Builder}

theorem collect_eq_ok_iff {column : Column} :
    collect evaluate n output = .ok column ↔
      ∃ b, Builder.each evaluate (List.range n) output = (.ok (), b) ∧ b.finish = column :=
  Builder.column_eq_ok_iff

/-- Evaluations that each append a value make a column of all of them. -/
theorem exists_collect {value : Nat → Option p.Value} {t : DataType} (ht : t.physical = p)
    (h : ∀ g < n, ∀ b : Builder, b.physical = p → evaluate g b = b.appendStored p (value g)) :
    ∃ b : Builder, collect evaluate n (.new t) = .ok b.finish ∧ b.dataType = t ∧
      b.Holds p ((List.range n).map value) := by
  have hnew : (Builder.new t).Holds p [] := ht ▸ Builder.holds_new t
  have heach : ∀ g ∈ List.range n, ∀ b : Builder, b.dataType = t →
      evaluate g b = b.appendStored p (value g) := by
    intro g hg b hb
    exact h g (List.mem_range.mp hg) b ((congrArg DataType.physical hb).trans ht)
  obtain ⟨b, hall, htype, hb⟩ := hnew.exists_each heach
  exact ⟨b, collect_eq_ok_iff.mpr ⟨b, hall, rfl⟩, htype, hb⟩

/-- A column of all groups evaluates each of them. -/
theorem exists_evaluate_of_collect {column : Column}
    (h : collect evaluate n output = .ok column) (hg : g < n) :
    ∃ b b', evaluate g b = (.ok (), b') := by
  obtain ⟨_, hall, -⟩ := collect_eq_ok_iff.mp h
  exact Builder.exists_append_of_each hall (List.mem_range.mpr hg)

/-- A group that cannot be evaluated stands in the way of a column. -/
theorem le_of_collect {column : Column} (hrefused : ∀ b, ∃ f, (evaluate g b).1 = .error f)
    (h : collect evaluate n output = .ok column) : n ≤ g := by
  by_contra hn
  obtain ⟨b, b', hgroup⟩ := exists_evaluate_of_collect h (not_le.mp hn)
  obtain ⟨f, hf⟩ := hrefused b
  rw [hgroup] at hf
  cases hf

/-- The states of groups that were not announced are not had. -/
theorem le_groupCount_of_intermediates {column : Column} (h : a.intermediates n = .ok column) :
    n ≤ a.groupCount := by
  apply le_of_collect ?_ h
  intro b
  by_cases ho : b.physical = .binary
  · refine ⟨.groupRange a.groupCount a.groupCount, ?_⟩
    rw [evaluateIntermediate, if_neg (not_not.mpr ho), held_of_le le_rfl]
  · refine ⟨.intermediateOutput b.dataType, ?_⟩
    rw [evaluateIntermediate, if_pos ho]

/-- Where the states were written, each of them fits. -/
theorem fitsState_of_intermediates {column : Column} (ha : a.Sound) (hn : n ≤ a.groupCount)
    (h : a.intermediates n = .ok column) :
    ∀ g < n, ∀ c, a.view g = some c → Intermediate.FitsState c := by
  intro g hg c hc
  obtain ⟨output, output', hok⟩ := exists_evaluate_of_collect h hg
  exact fitsState_of_evaluateIntermediate ha (hg.trans_le hn) hc hok

/-- The states of the first groups, one row each. -/
theorem exists_intermediates (ha : a.Sound) (hn : n ≤ a.groupCount)
    (hfits : ∀ g < n, ∀ c, a.view g = some c → Intermediate.FitsState c) :
    ∃ column, a.intermediates n = .ok column ∧ column.WellFormed ∧ column.physical = .binary ∧
      column.cells .binary = (List.range n).map fun g => stateBytes (a.view g) := by
  have heach : ∀ g < n, ∀ b : Builder, b.physical = .binary →
      a.evaluateIntermediate g b = b.appendStored .binary (stateBytes (a.view g)) := by
    intro g hg b hp
    exact evaluateIntermediate_eq ha (hg.trans_le hn) hp (hfits g hg)
  obtain ⟨b, hcolumn, -, hb⟩ := exists_collect (t := a.intermediateType) rfl heach
  exact ⟨b.finish, hcolumn, Column.wellFormed_finish hb.wellFormed, hb.physical, hb.cells⟩

/-- The values of the first groups, one row each. -/
theorem exists_finals (ha : a.Sound) (hn : n ≤ a.groupCount)
    (hx : a.xType.physical = k.physical) :
    ∃ column, a.finals n = .ok column ∧ column.WellFormed ∧ column.dataType = a.xType ∧
      column.cells k.physical = (List.range n).map fun g => (a.view g).bind Candidate.value := by
  have heach : ∀ g < n, ∀ b : Builder, b.physical = k.physical →
      a.evaluateFinal g b = b.appendStored k.physical ((a.view g).bind Candidate.value) := by
    intro g hg b hp
    exact evaluateFinal_eq ha (hg.trans_le hn) hp
  obtain ⟨b, hcolumn, htype, hb⟩ := exists_collect (t := a.finalType) hx heach
  exact ⟨b.finish, hcolumn, Column.wellFormed_finish hb.wellFormed, htype, hb.cells⟩

theorem collect_congr (h : ∀ g < n, ∀ b, evaluate g b = evaluate' g b) :
    collect evaluate n output = collect evaluate' n output :=
  congrArg Builder.column
    (Builder.each_congr fun g hg b => h g (List.mem_range.mp hg) b)

/-! Room is taken before any group is looked at, and an answer is then the column. -/

theorem collect_withRoom? (t : DataType) :
    (Builder.withRoom? t n).map (collect evaluate n) =
      if Store.room t.physical n < objectRange then some (collect evaluate n (.new t))
      else none := by
  rw [Builder.withRoom?, ColumnData.withRoom?]
  split <;> rfl

/-- Two accumulators whose first groups hold the same. -/
structure Agrees (n : Nat) (a a' : Accumulator k) : Prop where
  xType : a.xType = a'.xType
  held : ∀ g < n, a.held g = a'.held g

theorem Agrees.intermediates_eq (h : Agrees n a a') : a.intermediates n = a'.intermediates n := by
  have heach : ∀ g < n, ∀ b, a.evaluateIntermediate g b = a'.evaluateIntermediate g b := by
    intro g hg b
    exact evaluateIntermediate_congr (h.held g hg) b
  exact collect_congr heach

theorem Agrees.finals_eq (h : Agrees n a a') : a.finals n = a'.finals n := by
  have heach : ∀ g < n, ∀ b, a.evaluateFinal g b = a'.evaluateFinal g b := by
    intro g hg b
    exact evaluateFinal_congr h.xType (h.held g hg) b
  rw [finals, finals, finalType, finalType, h.xType, collect_congr heach]

end Accumulator

end Earliest
