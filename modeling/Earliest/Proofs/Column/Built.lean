import Earliest.Column.Collect
import Earliest.Proofs.Bitmap
import Earliest.Proofs.Column.Store

/-! Columns as they can come about. A column is built from parts that are checked, from a
builder, or as a constant, and may be relabelled. However it was built, its data are of its
type, its validity has a bit for each stored row, and each row has a stored row behind it. -/

namespace Earliest

inductive Bitmap.Built : Bitmap → Prop
  | empty : Built .empty
  | allTrue (n : Nat) : Built (.allTrue n)
  | allFalse (n : Nat) : Built (.allFalse n)
  | push {m : Bitmap} (hm : Built m) (v : Bool) : Built (m.push v)
  | set {m m' : Bitmap} {i : Nat} {v : Bool} (hm : Built m) (h : m.set? i v = some m') : Built m'

theorem Bitmap.Built.full {m : Bitmap} (hm : m.Built) : m.Full := by
  induction hm with
  | empty => exact full_empty
  | allTrue n => exact full_allTrue n
  | allFalse n => exact full_allFalse n
  | push _ v ih => exact ih.push v
  | set _ h ih => exact ih.set? h

inductive Validity.Built : Validity → Prop
  | allValid (n : Nat) : Built (.allValid n)
  | allInvalid (n : Nat) : Built (.allInvalid n)
  | ofBitmap {m : Bitmap} (hm : m.Built) : Built (.ofBitmap m)
  | setValid {v v' : Validity} {i : Nat} (hv : Built v) (h : v.setValid? i = some v') : Built v'
  | setInvalid {v v' : Validity} {i : Nat} (hv : Built v) (h : v.setInvalid? i = some v') :
      Built v'

/-- A mask has exactly the bytes that its bits take. -/
def Validity.Full : Validity → Prop
  | mask m => m.Full
  | _ => True

namespace Validity

theorem full_ofBitmap {m : Bitmap} (hm : m.Full) : (ofBitmap m).Full := by
  unfold ofBitmap
  split
  · trivial
  · exact hm

theorem full_map_mask {m : Bitmap} {i : Nat} {b : Bool} {v : Validity} (hm : m.Full)
    (h : (m.set? i b).map mask = some v) : v.Full := by
  obtain ⟨m', hm', rfl⟩ := Option.map_eq_some_iff.mp h
  exact hm.set? hm'

theorem Built.full {v : Validity} (hv : v.Built) : v.Full := by
  induction hv with
  | allValid n => trivial
  | allInvalid n => trivial
  | ofBitmap hm => exact full_ofBitmap hm.full
  | @setValid v v' i _ h ih =>
    cases v with
    | allValid n =>
      cases h
      trivial
    | allInvalid n => exact full_map_mask (Bitmap.full_allFalse n) h
    | mask m => exact full_map_mask ih h
  | @setInvalid v v' i _ h ih =>
    cases v with
    | allValid n => exact full_map_mask (Bitmap.full_allTrue n) h
    | allInvalid n =>
      cases h
      trivial
    | mask m => exact full_map_mask ih h

theorem exists_get? {v : Validity} (hv : v.Full) {i : Nat} (hi : i < v.len) :
    ∃ b, v.get? i = some b := by
  cases v with
  | allValid n => exact ⟨true, rfl⟩
  | allInvalid n => exact ⟨false, rfl⟩
  | mask m => exact Bitmap.exists_get? hv hi

@[simp] theorem len_ofBitmap (m : Bitmap) : (ofBitmap m).len = m.len := by
  unfold ofBitmap
  split <;> rfl

/-- Dropping a mask without a false bit changes no bit. -/
theorem get?_ofBitmap {m : Bitmap} (hm : m.Full) {i : Nat} (hi : i < m.len) :
    (ofBitmap m).get? i = m.get? i := by
  unfold ofBitmap
  split
  · rename_i hall
    obtain ⟨b, hb⟩ := Bitmap.exists_get? hm hi
    have hmem : b ∈ m.toList := by
      have h := Bitmap.getElem?_toList m hi
      rw [hb, Option.getD_some] at h
      exact List.mem_of_getElem? h
    rw [hb, (Bitmap.isAllTrue_iff hm).mp hall b hmem]
    rfl
  · rfl

end Validity

/-- Column data whose byte strings, if it has any, were pushed. -/
def ColumnData.Built (d : ColumnData) : Prop := Store.Built d.physical d.store

namespace ColumnData

variable {d : ColumnData} {p : Physical}

theorem built_empty (p : Physical) : (empty p).Built := Store.built_empty p

theorem Built.pushBlank (hd : d.Built) : d.pushBlank.Built := Store.Built.pushBlank hd

theorem size_pushBlank (hd : d.Built) : d.pushBlank.size = d.size + 1 :=
  Store.size_pushBlank hd

theorem push_self (p : Physical) (store : p.Store) (v : p.Value) :
    push p v ⟨p, store⟩ = (.ok (), ⟨p, Store.push p store v⟩) := by
  rw [push, values_self]

/-- Data of another type refuse the value and stay what they are. -/
theorem push_of_ne (h : d.physical ≠ p) (v : p.Value) :
    d.push p v = (.error (.physicalMismatch d.physical p), d) := by
  rw [push, values, dif_neg h]

end ColumnData

namespace Builder

/-- The builders that appending onto a new one gives. -/
inductive Built : Builder → Prop
  | new (t : DataType) : Built (.new t)
  | appendNull {b : Builder} (hb : Built b) : Built b.appendNull
  | append {b b' : Builder} {p : Physical} {v : p.Value} (hb : Built b)
      (h : b.append p v = (.ok (), b')) : Built b'

/-- The data are of the builder's type, and there is a bit for each stored row. -/
structure WellFormed (b : Builder) : Prop where
  physical : b.data.physical = b.dataType.physical
  data : b.data.Built
  full : b.validity.Full
  len : b.validity.len = b.data.size

variable {b b' : Builder} {p : Physical} {v : p.Value}

theorem append_of_data {store : p.Store} (h : b.data = ⟨p, store⟩) (v : p.Value) :
    b.append p v = (.ok (),
      { b with validity := b.validity.push true, data := ⟨p, Store.push p store v⟩ }) := by
  rw [append, h, ColumnData.push_self]

/-- A value of another type goes neither to the data nor to the mask. -/
theorem append_of_data_ne (h : b.data.physical ≠ p) (v : p.Value) :
    b.append p v = (.error (.physicalMismatch b.data.physical p), b) := by
  rw [append, ColumnData.push_of_ne h]

/-- An append is accepted exactly when the data are of the value's type. -/
theorem append_eq_ok_iff :
    b.append p v = (.ok (), b') ↔ ∃ store, b.data = ⟨p, store⟩ ∧
      b' = { b with validity := b.validity.push true, data := ⟨p, Store.push p store v⟩ } := by
  constructor
  · intro h
    by_cases hp : b.data.physical = p
    · subst hp
      exact ⟨b.data.store, rfl, (Prod.ext_iff.mp ((append_of_data rfl v).symm.trans h)).2.symm⟩
    · cases (append_of_data_ne hp v).symm.trans h
  · rintro ⟨store, hd, rfl⟩
    exact append_of_data hd v

theorem wellFormed_new (t : DataType) : (new t).WellFormed where
  physical := rfl
  data := ColumnData.built_empty t.physical
  full := Bitmap.full_empty
  len := (Store.size_empty t.physical).symm

theorem WellFormed.appendNull (hb : b.WellFormed) : b.appendNull.WellFormed where
  physical := hb.physical
  data := hb.data.pushBlank
  full := hb.full.push false
  len := (congrArg (· + 1) hb.len).trans (ColumnData.size_pushBlank hb.data).symm

theorem WellFormed.append (hb : b.WellFormed) (h : b.append p v = (.ok (), b')) : b'.WellFormed := by
  obtain ⟨store, hd, rfl⟩ := append_eq_ok_iff.mp h
  obtain ⟨hphysical, hdata, hfull, hlen⟩ := hb
  rw [hd] at hphysical hdata hlen
  exact ⟨hphysical, Store.Built.push hdata v, hfull.push true,
    (congrArg (· + 1) hlen).trans (Store.size_push hdata v).symm⟩

theorem Built.wellFormed (hb : b.Built) : b.WellFormed := by
  induction hb with
  | new t => exact wellFormed_new t
  | appendNull _ ih => exact ih.appendNull
  | append _ h ih => exact ih.append h

/-- A value of the builder's own type is always accepted. -/
theorem WellFormed.exists_append (hb : b.WellFormed) (hp : b.physical = p) (v : p.Value) :
    ∃ b', b.append p v = (.ok (), b') := by
  obtain ⟨t, validity, q, store⟩ := b
  have hq : q = p := hb.physical.trans hp
  subst hq
  exact ⟨_, append_of_data (b := ⟨t, validity, q, store⟩) rfl v⟩

theorem Built.appendStored {v : Option p.Value} (hb : b.Built)
    (h : b.appendStored p v = (.ok (), b')) : b'.Built := by
  cases v with
  | none =>
    cases h
    exact hb.appendNull
  | some v => exact hb.append h

theorem Built.appendScalar (hb : b.Built) {s : Scalar}
    (h : b.appendScalar s = (.ok (), b')) : b'.Built := by
  unfold Builder.appendScalar at h
  split at h
  · cases h
    exact hb.appendNull
  · split at h
    · exact hb.append h
    · cases h

theorem len_appendScalar {s : Scalar} (h : b.appendScalar s = (.ok (), b')) :
    b'.len = b.len + 1 := by
  unfold Builder.appendScalar at h
  split at h
  · cases h
    rfl
  · split at h
    · obtain ⟨store, -, rfl⟩ := append_eq_ok_iff.mp h
      rfl
    · cases h

/-! ## Appends in turn -/

section Each

variable {ι : Type} {append : ι → Builder → Attempt Builder} {item : ι} {items : List ι}

theorem each_cons_ok (h : append item b = (.ok (), b')) :
    each append (item :: items) b = each append items b' := by
  rw [each, h]

theorem each_cons_error {f : Fault} (h : append item b = (.error f, b')) :
    each append (item :: items) b = (.error f, b') := by
  rw [each, h]

theorem each_cons_eq_ok_iff :
    each append (item :: items) b = (.ok (), b') ↔
      ∃ b₁, append item b = (.ok (), b₁) ∧ each append items b₁ = (.ok (), b') := by
  rcases hfirst : append item b with ⟨f | _, b₁⟩
  · rw [each_cons_error hfirst]
    exact iff_of_false nofun nofun
  · rw [each_cons_ok hfirst]
    constructor
    · intro h
      exact ⟨b₁, rfl, h⟩
    · rintro ⟨_, ⟨⟩, h⟩
      exact h

theorem each_congr {append' : ι → Builder → Attempt Builder}
    (h : ∀ item ∈ items, ∀ b, append item b = append' item b) :
    each append items b = each append' items b := by
  induction items generalizing b with
  | nil => rfl
  | cons item items ih =>
    obtain ⟨hitem, hitems⟩ := List.forall_mem_cons.mp h
    rw [each, each, hitem b]
    rcases append' item b with ⟨f | _, b₁⟩
    · rfl
    · exact ih hitems

/-- Where all were accepted, each of them was. -/
theorem exists_append_of_each (h : each append items b = (.ok (), b')) (hitem : item ∈ items) :
    ∃ c c', append item c = (.ok (), c') := by
  induction items generalizing b with
  | nil => cases hitem
  | cons first items ih =>
    obtain ⟨b₁, hfirst, hrest⟩ := each_cons_eq_ok_iff.mp h
    rcases List.mem_cons.mp hitem with rfl | hlater
    · exact ⟨b, b₁, hfirst⟩
    · exact ih hrest hlater

/-- What every accepted append keeps, all of them in turn keep. -/
theorem each_keeps {motive : Builder → Prop}
    (hkeep : ∀ item b b', motive b → append item b = (.ok (), b') → motive b') (hb : motive b)
    (h : each append items b = (.ok (), b')) : motive b' := by
  induction items generalizing b with
  | nil =>
    cases h
    exact hb
  | cons item items ih =>
    obtain ⟨b₁, hfirst, hrest⟩ := each_cons_eq_ok_iff.mp h
    exact ih (hkeep item b b₁ hb hfirst) hrest

end Each

theorem column_eq_ok_iff {result : Attempt Builder} {c : Column} :
    column result = .ok c ↔ ∃ b, result = (.ok (), b) ∧ b.finish = c := by
  obtain ⟨f | _, b⟩ := result
  · exact iff_of_false nofun nofun
  · constructor
    · rintro ⟨⟩
      exact ⟨b, rfl, rfl⟩
    · rintro ⟨_, ⟨⟩, rfl⟩
      rfl

end Builder

namespace Column

/-- The columns that can come about. -/
inductive Built : Column → Prop
  | ofParts {t : DataType} {v : Validity} {d : ColumnData} {c : Column} (hv : v.Built)
      (hd : d.Built) (h : ofParts t v d = .ok c) : Built c
  | finish {b : Builder} (hb : b.Built) : Built b.finish
  | repeated {s : Scalar} {len : Nat} {c : Column} (h : repeated s len = .ok c) : Built c
  | nulls (t : DataType) (len : Nat) : Built (nulls t len)
  | withDataType {c c' : Column} {t : DataType} (hc : Built c) (h : c.withDataType t = .ok c') :
      Built c'

/-- A column is relabelled as any type that stores its values alike, and nothing else changes. -/
theorem withDataType_eq_ok_iff {c c' : Column} {t : DataType} :
    c.withDataType t = .ok c' ↔ t.physical = c.physical ∧ { c with dataType := t } = c' := by
  unfold withDataType
  split
  · rename_i hphysical
    rw [Except.ok.injEq]
    exact (and_iff_right hphysical).symm
  · rename_i hphysical
    exact iff_of_false nofun fun h => hphysical h.1

/-- What readers rely on. -/
structure WellFormed (c : Column) : Prop where
  physical : c.data.physical = c.dataType.physical
  data : c.data.Built
  full : c.validity.Full
  len : c.validity.len = c.data.size
  layout : match c.layout with
    | .flat => c.len = c.data.size
    | .constant => c.data.size = 1

/-- Parts are accepted exactly when they belong together. -/
theorem ofParts_eq_ok_iff {t : DataType} {v : Validity} {d : ColumnData} {c : Column} :
    ofParts t v d = .ok c ↔ (t.physical = d.physical ∧ v.len = d.size) ∧ flat t v d = c := by
  unfold ofParts
  split
  · rename_i hphysical
    exact iff_of_false nofun fun h => hphysical h.1.1
  · rename_i hphysical
    split
    · rename_i hlen
      exact iff_of_false nofun fun h => hlen h.1.2
    · rename_i hlen
      rw [Except.ok.injEq]
      exact (and_iff_right ⟨not_not.mp hphysical, not_not.mp hlen⟩).symm

theorem built_flat {t : DataType} {v : Validity} {d : ColumnData} (hv : v.Built) (hd : d.Built)
    (ht : t.physical = d.physical) (hlen : v.len = d.size) : (flat t v d).Built :=
  .ofParts hv hd (ofParts_eq_ok_iff.mpr ⟨⟨ht, hlen⟩, rfl⟩)

theorem wellFormed_finish {b : Builder} (hb : b.WellFormed) : b.finish.WellFormed where
  physical := hb.physical
  data := hb.data
  full := Validity.full_ofBitmap hb.full
  len := (Validity.len_ofBitmap _).trans hb.len
  layout := rfl

theorem wellFormed_nulls (t : DataType) (len : Nat) : (nulls t len).WellFormed where
  physical := rfl
  data := (ColumnData.built_empty t.physical).pushBlank
  full := trivial
  len := ((ColumnData.size_pushBlank (ColumnData.built_empty t.physical)).trans
    (congrArg (· + 1) (Store.size_empty t.physical))).symm
  layout := (ColumnData.size_pushBlank (ColumnData.built_empty t.physical)).trans
    (congrArg (· + 1) (Store.size_empty t.physical))

theorem ofScalars_eq_ok_iff {t : DataType} {scalars : List Scalar} {c : Column} :
    ofScalars t scalars = .ok c ↔
      ∃ b, Builder.each Builder.appendScalar scalars (.new t) = (.ok (), b) ∧ b.finish = c :=
  Builder.column_eq_ok_iff

theorem ofScalars_singleton {t : DataType} {s : Scalar} {c : Column}
    (h : ofScalars t [s] = .ok c) :
    ∃ b, (Builder.new t).appendScalar s = (.ok (), b) ∧ b.finish = c := by
  obtain ⟨b, hall, hc⟩ := ofScalars_eq_ok_iff.mp h
  obtain ⟨_, hfirst, ⟨⟩⟩ := Builder.each_cons_eq_ok_iff.mp hall
  exact ⟨b, hfirst, hc⟩

theorem wellFormed_repeated {s : Scalar} {len : Nat} {c : Column}
    (h : repeated s len = .ok c) : c.WellFormed := by
  unfold repeated at h
  split at h
  · cases h
    exact wellFormed_nulls .null len
  · rcases hone : ofScalars s.dataType [s] with f | one
    · simp [hone, Except.map] at h
    · simp only [hone, Except.map, Except.ok.injEq] at h
      subst h
      obtain ⟨b, hb, rfl⟩ := ofScalars_singleton hone
      have hw := ((Builder.Built.new s.dataType).appendScalar hb).wellFormed
      obtain ⟨hphysical, hdata, hfull, hlen, -⟩ := wellFormed_finish hw
      exact ⟨hphysical, hdata, hfull, hlen, hw.len.symm.trans (Builder.len_appendScalar hb)⟩

theorem Built.wellFormed {c : Column} (hc : c.Built) : c.WellFormed := by
  induction hc with
  | ofParts hv hd h =>
    obtain ⟨⟨hphysical, hlen⟩, rfl⟩ := ofParts_eq_ok_iff.mp h
    exact ⟨hphysical.symm, hd, hv.full, hlen, rfl⟩
  | finish hb => exact wellFormed_finish hb.wellFormed
  | repeated h => exact wellFormed_repeated h
  | nulls t len => exact wellFormed_nulls t len
  | withDataType _ h ih =>
    obtain ⟨hphysical, rfl⟩ := withDataType_eq_ok_iff.mp h
    exact ⟨ih.physical.trans hphysical.symm, ih.data, ih.full, ih.len, ih.layout⟩

end Column

end Earliest
