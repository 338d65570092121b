import Earliest.Proofs.Column.Built

/-! The rows of a column as values. On a well-formed column every read within the length has an
answer, and it is the row's value, or none for a null. Appending to a builder appends to the
rows of the column that it finishes as. -/

namespace Earliest

namespace ColumnData

/-- The stored value of type `p`, if there is one. -/
def get? (p : Physical) (d : ColumnData) (row : Nat) : Option p.Value :=
  match d.values p with
  | .ok store => Store.get? p store row
  | .error _ => none

variable {d d' : ColumnData} {p : Physical} {i : Nat}

theorem get?_mk (p : Physical) (store : p.Store) (i : Nat) :
    get? p ⟨p, store⟩ i = Store.get? p store i := by
  rw [get?, values_self]

theorem get?_of_ne (h : d.physical ≠ p) : d.get? p i = none := by
  rw [get?, values, dif_neg h]

theorem get?_pushBlank (hd : d.Built) (hi : i < d.size) : d.pushBlank.get? p i = d.get? p i := by
  obtain ⟨q, store⟩ := d
  by_cases hq : q = p
  · subst hq
    rw [pushBlank, get?_mk, get?_mk, Store.get?_pushBlank_of_lt hd hi]
  · have hblank : (pushBlank ⟨q, store⟩).physical ≠ p := hq
    exact (get?_of_ne hblank).trans (get?_of_ne hq).symm

theorem exists_get? (hd : d.Built) (hp : d.physical = p) (hne : p ≠ .untypedNull)
    (hi : i < d.size) : ∃ v, d.get? p i = some v := by
  obtain ⟨q, store⟩ := d
  cases hp
  rw [get?_mk]
  exact Store.exists_get? hd hne hi

theorem read_eq_ok {v : p.Value} {field : String} (h : d.get? p i = some v) :
    d.read p field i = .ok v := by
  rcases hs : d.values p with f | store
  · simp only [get?, hs] at h
    cases h
  · simp only [get?, hs] at h
    simp only [read, hs, h, required]

end ColumnData

namespace Column

variable {c : Column} {p : Physical} {i : Nat}

/-- Whether the row holds a value. -/
def shows (c : Column) (i : Nat) : Bool := c.isValid? i == some true

/-- The row's value of type `p`, none for a null. -/
def cell (p : Physical) (c : Column) (i : Nat) : Option p.Value :=
  if c.shows i then c.data.get? p (c.selection.row i) else none

/-- All rows, in order. -/
def cells (p : Physical) (c : Column) : List (Option p.Value) :=
  (List.range c.len).map (c.cell p)

@[simp] theorem length_cells (p : Physical) (c : Column) : (c.cells p).length = c.len := by
  simp [cells]

/-- A column has no values of a type that is not its own. -/
theorem cell_of_ne (hc : c.WellFormed) (h : c.physical ≠ p) (i : Nat) : c.cell p i = none := by
  have hdata : c.data.physical ≠ p := hc.physical.trans_ne h
  rw [cell, ColumnData.get?_of_ne hdata]
  exact ite_self none

theorem row_lt (hc : c.WellFormed) (hi : i < c.len) : c.selection.row i < c.data.size := by
  have hlayout := hc.layout
  unfold selection
  cases hl : c.layout with
  | flat =>
    rw [hl] at hlayout
    exact hlayout ▸ hi
  | constant =>
    rw [hl] at hlayout
    exact hlayout.symm ▸ Nat.one_pos

theorem valid_eq (hc : c.WellFormed) (hi : i < c.len) : c.valid i = .ok (c.shows i) := by
  obtain ⟨b, hb⟩ := Validity.exists_get? hc.full (hc.len.symm ▸ row_lt hc hi)
  have hvalid : c.isValid? i = some b := hb
  cases b <;> simp [valid, shows, hvalid]

/-- A read within the length has an answer: the row's value, or none for a null. -/
theorem stored_eq (hc : c.WellFormed) (hp : c.physical = p) (hne : p ≠ .untypedNull)
    (hi : i < c.len) (field : String) : c.stored p field i = .ok (c.cell p i) := by
  unfold stored cell
  rw [valid_eq hc hi]
  cases c.shows i with
  | false => rfl
  | true =>
    obtain ⟨v, hv⟩ := ColumnData.exists_get? hc.data (hc.physical.trans hp) hne (row_lt hc hi)
    simp [ColumnData.read_eq_ok hv, hv, Except.map]

end Column

namespace Builder

variable {b b' : Builder} {p : Physical} {i : Nat}

/-- The value of type `p` of an accepted row, none for a null. -/
def cell (p : Physical) (b : Builder) (i : Nat) : Option p.Value :=
  if b.validity.get? i = some true then b.data.get? p i else none

/-- Whether a row of the finished column holds a value is the bit that was pushed for it. -/
theorem isValid?_finish {bit : Bool} (hb : b.WellFormed)
    (h : b.validity.toList[i]? = some bit) : b.finish.isValid? i = some bit := by
  have hi : i < b.len := by
    rw [len, ← Bitmap.length_toList]
    exact (List.getElem?_eq_some_iff.mp h).1
  have hget : b.finish.isValid? i = b.validity.get? i := Validity.get?_ofBitmap hb.full hi
  obtain ⟨bit', hbit'⟩ := Bitmap.exists_get? hb.full hi
  rw [Bitmap.getElem?_toList _ hi, hbit', Option.getD_some] at h
  rw [hget, hbit', h]

theorem cell_finish (hb : b.WellFormed) (hi : i < b.len) : b.finish.cell p i = b.cell p i := by
  have hvalid : b.finish.isValid? i = b.validity.get? i := Validity.get?_ofBitmap hb.full hi
  simp only [Column.cell, Column.shows, hvalid, beq_iff_eq]
  rfl

theorem cells_finish (hb : b.WellFormed) :
    b.finish.cells p = (List.range b.len).map (b.cell p) := by
  have hlen : b.finish.len = b.len := hb.len.symm
  rw [Column.cells, hlen]
  apply List.map_congr_left
  intro i hi
  exact cell_finish hb (List.mem_range.mp hi)

theorem cells_new (t : DataType) : (new t).finish.cells p = [] :=
  cells_finish (wellFormed_new t)

theorem cells_appendNull (hb : b.WellFormed) :
    b.appendNull.finish.cells p = b.finish.cells p ++ [none] := by
  have hlen : b.appendNull.len = b.len + 1 := rfl
  have hself : b.appendNull.cell p b.len = none := by
    have hget : b.appendNull.validity.get? b.len = some false :=
      Bitmap.get?_push_self hb.full false
    simp [cell, hget]
  rw [cells_finish hb.appendNull, cells_finish hb, hlen, List.range_succ, List.map_append,
    List.map_singleton, hself]
  congr 1
  apply List.map_congr_left
  intro i hi
  have hi : i < b.len := List.mem_range.mp hi
  have hget : b.appendNull.validity.get? i = b.validity.get? i :=
    Bitmap.get?_push_of_lt hb.full false hi
  rw [cell, cell, hget, show b.appendNull.data = b.data.pushBlank from rfl,
    ColumnData.get?_pushBlank hb.data (hb.len ▸ hi)]

theorem cells_append {v : p.Value} (hb : b.WellFormed) (h : b.append p v = (.ok (), b')) :
    b'.finish.cells p = b.finish.cells p ++ [some v] := by
  have hb' := hb.append h
  obtain ⟨store, hd, rfl⟩ := append_eq_ok_iff.mp h
  have hbuilt : Store.Built p store := (hd ▸ hb.data : ColumnData.Built ⟨p, store⟩)
  have hsize : b.len = Store.size p store := hb.len.trans (congrArg ColumnData.size hd)
  rw [cells_finish hb', cells_finish hb]
  have hlen : (b.validity.push true).len = b.len + 1 := Bitmap.len_push b.validity true
  rw [len, hlen, List.range_succ, List.map_append, List.map_singleton]
  congr 1
  · apply List.map_congr_left
    intro i hi
    have hi : i < b.len := List.mem_range.mp hi
    have hget : (b.validity.push true).get? i = b.validity.get? i :=
      Bitmap.get?_push_of_lt hb.full true hi
    simp only [cell, hget, hd, ColumnData.get?_mk]
    rw [Store.get?_push_of_lt hbuilt v (hsize ▸ hi)]
  · have hget : (b.validity.push true).get? b.len = some true :=
      Bitmap.get?_push_self hb.full true
    simp only [cell, hget, ColumnData.get?_mk, if_true]
    rw [hsize, Store.get?_push_self hbuilt v]

/-- Appending a value or a null appends it to the rows. -/
theorem cells_appendStored {v : Option p.Value} (hb : b.WellFormed)
    (h : b.appendStored p v = (.ok (), b')) :
    b'.WellFormed ∧ b'.finish.cells p = b.finish.cells p ++ [v] := by
  cases v with
  | none =>
    cases h
    exact ⟨hb.appendNull, cells_appendNull hb⟩
  | some v => exact ⟨hb.append h, cells_append hb h⟩

/-- Whether it accepts the value or not, a builder keeps its type. -/
theorem dataType_appendStored {v : Option p.Value} {outcome : Except Fault Unit}
    (h : b.appendStored p v = (outcome, b')) : b'.dataType = b.dataType := by
  cases v with
  | none =>
    cases h
    rfl
  | some v =>
    by_cases hp : b.data.physical = p
    · subst hp
      cases (append_of_data rfl v).symm.trans h
      rfl
    · cases (append_of_data_ne hp v).symm.trans h
      rfl

theorem exists_appendStored (hb : b.WellFormed) (hp : b.physical = p) (v : Option p.Value) :
    ∃ b', b.appendStored p v = (.ok (), b') := by
  cases v with
  | none => exact ⟨b.appendNull, rfl⟩
  | some v => exact hb.exists_append hp v

end Builder

end Earliest
