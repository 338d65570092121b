import Earliest.Proofs.Column.SameRows

/-! Reads that always have an answer. In a column that came about through its constructors each
row within the length is a null or a value of the column's type. Only text can be refused, where
bytes that are no text were relabelled as text, and no read finds a slot or a value missing. -/

namespace Earliest

/-- The faults of a caller that skipped a check: there is no such slot, or nothing in it, or data
of another type. And those of a call that does not return. -/
def Fault.isBreach : Fault → Bool
  | slotRange _ _ | absent _ | physicalMismatch _ _ | unwound | roomRange _ => true
  | _ => false

/-- No check was skipped, whatever else may have been refused. -/
def Orderly {α : Type} (outcome : Except Fault α) : Prop :=
  ∀ f, outcome = .error f → f.isBreach = false

namespace Orderly

variable {α : Type}

theorem ok (a : α) : Orderly (.ok a : Except Fault α) := nofun

theorem error {f : Fault} (h : f.isBreach = false) : Orderly (.error f : Except Fault α) := by
  rintro _ ⟨⟩
  exact h

/-- A check in front. -/
theorem guard {p : Prop} [Decidable p] {f : Fault} {r : Except Fault α} (hf : f.isBreach = false)
    (h : Orderly r) : Orderly (if p then .error f else r) := by
  split
  · exact .error hf
  · exact h

end Orderly

/-! ## Values of a type -/

namespace Scalar

variable {t : DataType} {v : t.physical.Value} {s : Scalar}

/-- A stored value is read as a value of the type that it is seen through. -/
theorem dataType_ofValue (h : ofValue t v = .ok s) : s.isNull = false ∧ s.dataType = t := by
  cases t with
  | null => exact nomatch v
  | utf8 =>
    rcases hdecode : Utf8.decode v with d | text
    · simp only [ofValue, hdecode] at h
      cases h
    · simp only [ofValue, hdecode] at h
      cases h
      exact ⟨rfl, rfl⟩
  | _ =>
    cases h
    exact ⟨rfl, rfl⟩

theorem eq_utf8_of_ofValue {d : Utf8.Defect} (h : ofValue t v = .error d) : t = .utf8 := by
  cases t with
  | null => exact nomatch v
  | utf8 => rfl
  | _ => cases h

end Scalar

namespace DataType

/-- How a reader sees a row of the type that stores a value, or none. -/
def seen (t : DataType) : Option t.physical.Value → Except Fault Scalar
  | none => .ok .null
  | some v => (Scalar.ofValue t v).mapError .notUtf8

theorem ne_null_of_value {t : DataType} (v : t.physical.Value) : t ≠ .null := by
  rintro rfl
  exact nomatch v

end DataType

namespace Column

variable {c : Column} {t : DataType} {s : Scalar} {i n : Nat}

/-! ## One row -/

theorem len_selection (c : Column) : c.selection.len = c.len := by
  unfold selection
  cases c.layout <;> rfl

theorem value_of_le (h : c.len ≤ i) : c.value i = .error (.rowRange i c.len) := by
  have hget : c.selection.get? i = none := if_neg (by rw [len_selection]; omega)
  rw [value, hget]

/-- Within the length a row is null, or it is read through the column's type. -/
theorem value_of_lt (hc : c.WellFormed) (hi : i < c.len) :
    c.isValid? i = some (c.shows i) ∧
      c.value i = if c.shows i then c.readRow (c.selection.row i) else .ok .null := by
  obtain ⟨b, hb⟩ := Validity.exists_get? hc.full (hc.len.symm ▸ row_lt hc hi)
  have hvalid : c.isValid? i = some b := hb
  have hshows : c.shows i = b := by
    rw [shows, hvalid]
    cases b <;> rfl
  have hget : c.selection.get? i = some (c.selection.row i) :=
    if_pos (by rw [len_selection]; exact hi)
  refine ⟨hshows ▸ hvalid, ?_⟩
  rw [value, hget, hshows]
  cases b <;> simp only [hb] <;> rfl

/-- A row that shows a value is read as that value, seen through the column's type. -/
theorem value_of_shows (hc : c.WellFormed) (hi : i < c.len) (h : c.shows i = true)
    (ht : c.dataType ≠ .null) :
    ∃ v, c.cell c.dataType.physical i = some v ∧
      c.value i = (Scalar.ofValue c.dataType v).mapError .notUtf8 := by
  have hne : c.dataType.physical ≠ .untypedNull := by
    intro hnull
    cases hd : c.dataType <;> simp_all
  obtain ⟨v, hv⟩ := ColumnData.exists_get? hc.data hc.physical hne (row_lt hc hi)
  refine ⟨v, by rw [cell, if_pos h, hv], ?_⟩
  rw [(value_of_lt hc hi).2, if_pos h, readRow, if_neg ht, ColumnData.read_eq_ok hv]

theorem value_of_null (hc : c.WellFormed) (hi : i < c.len) (ht : c.dataType = .null) :
    c.value i = .ok .null := by
  rw [(value_of_lt hc hi).2, readRow, if_pos ht]
  exact ite_self _

/-- A row that shows a value is a value of the column's type, unless it is no text. -/
theorem value_cases (hc : c.WellFormed) (hi : i < c.len) (h : c.shows i = true)
    (ht : c.dataType ≠ .null) :
    (∃ s, c.value i = .ok s ∧ s.isNull = false ∧ s.dataType = c.dataType) ∨
      c.dataType = .utf8 ∧ ∃ d, c.value i = .error (.notUtf8 d) := by
  obtain ⟨v, -, hvalue⟩ := value_of_shows hc hi h ht
  rcases hread : Scalar.ofValue c.dataType v with d | s
  · exact .inr ⟨Scalar.eq_utf8_of_ofValue hread, d, by rw [hvalue, hread]; rfl⟩
  · exact .inl ⟨s, by rw [hvalue, hread]; rfl, Scalar.dataType_ofValue hread⟩

theorem orderly_value (hc : c.WellFormed) (i : Nat) : Orderly (c.value i) := by
  rcases Nat.lt_or_ge i c.len with hi | hi
  · by_cases ht : c.dataType = .null
    · rw [value_of_null hc hi ht]
      exact .ok _
    · cases hshows : c.shows i with
      | false =>
        rw [(value_of_lt hc hi).2, hshows]
        exact .ok _
      | true =>
        obtain ⟨s, hvalue, -⟩ | ⟨-, d, hvalue⟩ := value_cases hc hi hshows ht
        · rw [hvalue]
          exact .ok s
        · rw [hvalue]
          exact .error rfl
  · rw [value_of_le hi]
    exact .error rfl

/-- The rows of a flat column are those that store these values of type `p`, in order. -/
structure Lists (t : DataType) (p : Physical) (rows : List (Option p.Value)) (c : Column) :
    Prop where
  layout : c.layout = .flat
  dataType : c.dataType = t
  physical : t.physical = p
  len : c.len = rows.length
  cells : c.cells p = rows
  isNull : ∀ i v, rows[i]? = some v → c.isNull? i = some v.isNone
  value : ∀ i v, rows[i]? = some v → c.value i = t.seen (physical ▸ v)

/-- A builder finishes as the column of the rows that it holds. -/
theorem lists_finish {p : Physical} {rows : List (Option p.Value)} {b : Builder}
    (hb : b.Holds p rows) : Lists b.dataType p rows b.finish := by
  obtain rfl : b.physical = p := hb.physical
  have hc := wellFormed_finish hb.wellFormed
  have hvalue : ∀ i v, rows[i]? = some v → b.finish.value i = b.dataType.seen v := by
    intro i v hi
    have hlt : i < b.finish.len := (List.getElem?_eq_some_iff.mp hi).1.trans_eq hb.size.symm
    have hshows := hb.shows hi
    cases v with
    | none =>
      rw [(value_of_lt hc hlt).2, hshows]
      rfl
    | some w =>
      obtain ⟨w', hcell, hvalue⟩ :=
        value_of_shows hc hlt hshows (DataType.ne_null_of_value w)
      cases (hb.cell hi).symm.trans hcell
      exact hvalue
  exact ⟨rfl, rfl, rfl, hb.size, hb.cells, fun i v hi => hb.isNull? hi, hvalue⟩

/-! ## Columns from values -/

/-- Appending whatever is accepted keeps to builders that can come about. -/
theorem built_ofScalars {scalars : List Scalar} (h : ofScalars t scalars = .ok c) : c.Built := by
  obtain ⟨b, hall, rfl⟩ := ofScalars_eq_ok_iff.mp h
  exact .finish (Builder.each_keeps (fun _ _ _ hb happend => hb.appendScalar happend) (.new t) hall)

/-- Any scalar can be repeated: a builder of its own type accepts it. -/
theorem exists_repeated (s : Scalar) (n : Nat) : ∃ c, repeated s n = .ok c := by
  obtain ⟨b, hb⟩ := Builder.exists_appendStored (Builder.wellFormed_new s.dataType) rfl s.stored
  have happend : (Builder.new s.dataType).appendScalar s = (.ok (), b) :=
    (Builder.appendScalar_eq rfl).trans hb
  unfold repeated
  split
  · exact ⟨_, rfl⟩
  · rw [ofScalars, Builder.each_cons_ok happend]
    exact ⟨_, rfl⟩

/-- A column that came about through its constructors is well formed, and so each of its rows can
be read: as a null, or as a value of the column's type unless the bytes under a text are none.
Past the length a read is refused as such. A value can always be repeated. -/
theorem built_answers :
    (∀ c : Column, c.Built →
      (c.data.physical = c.dataType.physical ∧ c.validity.len = c.data.size ∧
        (c.layout = .flat ∧ c.len = c.data.size ∨ c.layout = .constant ∧ c.data.size = 1)) ∧
      (∀ i, c.len ≤ i → ∃ f : Fault, c.value i = .error f ∧ f.kind = .invalidArgument ∧
        f.report.message = "Index out of bounds") ∧
      (∀ i < c.len, (∃ b, c.isValid? i = some b) ∧
        (c.isNull? i = some true → c.value i = .ok .null) ∧
        (c.isValid? i = some true → c.dataType ≠ .null →
          (∃ s, c.value i = .ok s ∧ s.isNull = false ∧ s.dataType = c.dataType) ∨
            c.dataType = .utf8 ∧ ∃ f : Fault, c.value i = .error f ∧
              f.report.message = "binary data not valid utf8")) ∧
      ∀ i f, c.value i = .error f → f.isBreach = false) ∧
    (∀ t items c, ofItems t items = .ok c → c.Built) ∧
    ∀ s n, ∃ c, repeated s n = .ok c := by
  refine ⟨?_, fun t items c h => built_ofScalars h, exists_repeated⟩
  intro c hbuilt
  have hc := hbuilt.wellFormed
  refine ⟨⟨hc.physical, hc.len, ?_⟩, ?_, ?_, fun i => orderly_value hc i⟩
  · have hlayout := hc.layout
    cases hl : c.layout with
    | flat =>
      rw [hl] at hlayout
      exact .inl ⟨rfl, hlayout⟩
    | constant =>
      rw [hl] at hlayout
      exact .inr ⟨rfl, hlayout⟩
  · intro i hi
    exact ⟨_, value_of_le hi, rfl, rfl⟩
  · intro i hi
    obtain ⟨hvalid, hvalue⟩ := value_of_lt hc hi
    refine ⟨⟨_, hvalid⟩, ?_, ?_⟩
    · intro hnull
      rw [isNull?, hvalid, Option.map_some, Option.some.injEq, Bool.not_eq_true'] at hnull
      rw [hvalue, hnull]
      rfl
    · intro hshown ht
      rw [hvalid, Option.some.injEq] at hshown
      obtain h | ⟨hutf8, d, h⟩ := value_cases hc hi hshown ht
      · exact .inl h
      · exact .inr ⟨hutf8, _, h, rfl⟩

/-- A byte that is no text, and a null, relabelled as text. -/
def relabelled : Except Fault Column :=
  (ofItems .binary [some [0xFF], none]).bind (·.withDataType .utf8)

theorem built_answers_relabelled :
    ∃ c, relabelled = .ok c ∧ c.Built ∧ c.len = 2 ∧ c.dataType = .utf8 ∧
      (∃ f : Fault, c.value 0 = .error f ∧ f.report.message = "binary data not valid utf8" ∧
        f.isBreach = false) ∧
      c.value 1 = .ok .null ∧
      ∃ f : Fault, c.value 2 = .error f ∧ f.report.message = "Index out of bounds" := by
  obtain ⟨hanswers, hitems, -⟩ := built_answers
  have hrefused : (relabelled.bind (·.value 0)).isOk = false := by decide +kernel
  obtain ⟨bytes, hbytes⟩ : ∃ c, ofItems .binary [some [0xFF], none] = .ok c := ⟨_, rfl⟩
  obtain ⟨c, hc⟩ : ∃ c, bytes.withDataType .utf8 = .ok c := by
    cases hbytes
    exact ⟨_, rfl⟩
  have hbuilt : c.Built := .withDataType (hitems _ _ _ hbytes) hc
  obtain ⟨-, hout, hin, hbreach⟩ := hanswers c hbuilt
  cases hbytes
  cases hc
  obtain ⟨-, -, hvalid⟩ := hin 0 (by decide)
  obtain ⟨-, hnull, -⟩ := hin 1 (by decide)
  obtain ⟨f, hf, -, hmessage⟩ := hout 2 (by decide)
  refine ⟨_, rfl, hbuilt, rfl, rfl, ?_, hnull rfl, f, hf, hmessage⟩
  obtain ⟨s, hs, -⟩ | ⟨-, f, hf, hmessage⟩ := hvalid rfl nofun
  · cases (congrArg Except.isOk hs).symm.trans hrefused
  · exact ⟨f, hf, hmessage, hbreach 0 f hf⟩

end Column

end Earliest
