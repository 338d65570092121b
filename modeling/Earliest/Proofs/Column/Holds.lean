import Earliest.Proofs.Column.Cells

/-! The rows of a builder as a list of stored values, none for a null. An append adds its value at
the end of the list, and the finished column shows just the list. -/

namespace Earliest.Builder

variable {b b' : Builder} {p : Physical} {t : DataType} {v : Option p.Value} {i : Nat}
  {rows : List (Option p.Value)}

theorem validity_appendStored (h : b.appendStored p v = (.ok (), b')) :
    b'.validity = b.validity.push v.isSome := by
  cases v with
  | none =>
    cases h
    rfl
  | some v =>
    obtain ⟨store, -, rfl⟩ := append_eq_ok_iff.mp h
    rfl

/-- The rows taken so far store these values of type `p`. The bits are a fact of their own: a cell
without a value does not tell whether its row is null. -/
structure Holds (p : Physical) (rows : List (Option p.Value)) (b : Builder) : Prop where
  wellFormed : b.WellFormed
  physical : b.physical = p
  bits : b.validity.toList = rows.map Option.isSome
  cells : b.finish.cells p = rows

theorem holds_new (t : DataType) : Holds t.physical [] (new t) where
  wellFormed := wellFormed_new t
  physical := rfl
  bits := rfl
  cells := cells_new t

theorem Holds.appendStored (hb : Holds p rows b) (h : b.appendStored p v = (.ok (), b')) :
    Holds p (rows ++ [v]) b' := by
  obtain ⟨hb', hcells⟩ := cells_appendStored hb.wellFormed h
  refine ⟨hb', ?_, ?_, ?_⟩
  · exact (congrArg DataType.physical (dataType_appendStored h)).trans hb.physical
  · rw [validity_appendStored h, Bitmap.toList_push hb.wellFormed.full, hb.bits, List.map_append,
      List.map_singleton]
  · rw [hcells, hb.cells]

/-- Appends that each add a value, in builders of the type, add all of them. -/
theorem Holds.exists_each {ι : Type} {append : ι → Builder → Attempt Builder} {items : List ι}
    {value : ι → Option p.Value} (hb : Holds p rows b)
    (h : ∀ item ∈ items, ∀ c : Builder, c.dataType = b.dataType →
      append item c = c.appendStored p (value item)) :
    ∃ b', each append items b = (.ok (), b') ∧ b'.dataType = b.dataType ∧
      Holds p (rows ++ items.map value) b' := by
  induction items generalizing b rows with
  | nil => exact ⟨b, rfl, rfl, by simpa using hb⟩
  | cons item items ih =>
    obtain ⟨hitem, hitems⟩ := List.forall_mem_cons.mp h
    obtain ⟨c, hc⟩ := exists_appendStored hb.wellFormed hb.physical (value item)
    have htype := dataType_appendStored hc
    obtain ⟨b', hrest, htype', hb'⟩ := ih (hb.appendStored hc) (by rwa [htype])
    rw [List.append_assoc] at hb'
    exact ⟨b', (each_cons_ok ((hitem b rfl).trans hc)).trans hrest, htype'.trans htype, hb'⟩

/-- Every builder that can come about holds some rows. -/
theorem Built.exists_holds (hb : b.Built) : ∃ rows, Holds b.physical rows b := by
  induction hb with
  | new t => exact ⟨[], holds_new t⟩
  | @appendNull b _ ih =>
    obtain ⟨rows, h⟩ := ih
    exact ⟨rows ++ [none], h.appendStored (v := none) rfl⟩
  | @append b b' p v _ happend ih =>
    obtain ⟨rows, h⟩ := ih
    have htype := dataType_appendStored (v := some v) happend
    have hp : b.physical = p := by
      obtain ⟨store, hd, -⟩ := append_eq_ok_iff.mp happend
      exact h.wellFormed.physical.symm.trans (congrArg ColumnData.physical hd)
    subst hp
    rw [physical, htype]
    exact ⟨rows ++ [some v], h.appendStored (v := some v) happend⟩

namespace Holds

theorem len (hb : Holds p rows b) : b.len = rows.length := by
  rw [Builder.len, ← Bitmap.length_toList, hb.bits, List.length_map]

theorem size (hb : Holds p rows b) : b.data.size = rows.length :=
  hb.wellFormed.len.symm.trans hb.len

theorem isValid? (hb : Holds p rows b) (hi : rows[i]? = some v) :
    b.finish.isValid? i = some v.isSome := by
  have hbit : b.validity.toList[i]? = some v.isSome := by
    rw [hb.bits, List.getElem?_map, hi, Option.map_some]
  exact isValid?_finish hb.wellFormed hbit

theorem shows (hb : Holds p rows b) (hi : rows[i]? = some v) : b.finish.shows i = v.isSome := by
  rw [Column.shows, hb.isValid? hi]
  cases v <;> rfl

theorem isNull? (hb : Holds p rows b) (hi : rows[i]? = some v) :
    b.finish.isNull? i = some v.isNone := by
  rw [Column.isNull?, hb.isValid? hi]
  cases v <;> rfl

theorem cell (hb : Holds p rows b) (hi : rows[i]? = some v) : b.finish.cell p i = v := by
  have hrow : (b.finish.cells p)[i]? = some v := hb.cells ▸ hi
  rw [Column.cells, List.getElem?_map] at hrow
  obtain ⟨j, hj, hcell⟩ := Option.map_eq_some_iff.mp hrow
  obtain ⟨hlt, hij⟩ := List.getElem?_eq_some_iff.mp hj
  rw [List.getElem_range] at hij
  rw [hij, hcell]

end Holds

end Earliest.Builder
