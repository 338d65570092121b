import Earliest.Proofs.Column.Holds

/-! The same rows, stored in another way. A constant column stands for the flat one that stores
its row again and again, a validity may take any of its forms, and what is stored under a null
may be anything. None of this shows in the rows. -/

namespace Earliest

namespace Builder

variable {b : Builder} {s : Scalar}

/-- A scalar of the builder's own type is appended as what it stores. -/
theorem appendScalar_eq (h : b.dataType = s.dataType) :
    b.appendScalar s = b.appendStored s.dataType.physical s.stored := by
  unfold appendScalar appendStored
  cases s.stored with
  | none => rfl
  | some v => exact if_pos h.symm

end Builder

namespace Column

variable {c c' c'' : Column} {t : DataType} {s : Scalar} {n : Nat}

/-- Columns that differ in nothing but how their rows are stored. -/
inductive SameRows : Column → Column → Prop
  | refl (c : Column) : SameRows c c
  | symm {c c' : Column} (h : SameRows c c') : SameRows c' c
  | trans {c c' c'' : Column} (h : SameRows c c') (h' : SameRows c' c'') : SameRows c c''
  /-- One stored row for all, or one for each. -/
  | repeated {s : Scalar} {n : Nat} {c c' : Column} (h : repeated s n = .ok c)
      (h' : ofScalars s.dataType (List.replicate n s) = .ok c') : SameRows c c'
  | nulls {t : DataType} {n : Nat} {c : Column}
      (h : ofScalars t (List.replicate n .null) = .ok c) : SameRows (nulls t n) c
  /-- Another form of the validity, and other data under the nulls. -/
  | parts {t : DataType} {v v' : Validity} {d d' : ColumnData} {c c' : Column}
      (h : ofParts t v d = .ok c) (h' : ofParts t v' d' = .ok c') (hsize : d.size = d'.size)
      (hvalid : ∀ i < d.size, v.get? i = v'.get? i)
      (hdata : ∀ i < d.size, v.get? i = some true →
        d.get? t.physical i = d'.get? t.physical i) : SameRows c c'

/-- Columns of one type whose rows are the same to every reader. -/
structure Alike (c c' : Column) : Prop where
  dataType : c.dataType = c'.dataType
  len : c.len = c'.len
  shows : ∀ i < c.len, c.shows i = c'.shows i
  cell : ∀ p, ∀ i < c.len, c.cell p i = c'.cell p i

namespace Alike

theorem symm (h : Alike c c') : Alike c' c where
  dataType := h.dataType.symm
  len := h.len.symm
  shows i hi := (h.shows i (h.len ▸ hi)).symm
  cell p i hi := (h.cell p i (h.len ▸ hi)).symm

theorem trans (h : Alike c c') (h' : Alike c' c'') : Alike c c'' where
  dataType := h.dataType.trans h'.dataType
  len := h.len.trans h'.len
  shows i hi := (h.shows i hi).trans (h'.shows i (h.len ▸ hi))
  cell p i hi := (h.cell p i hi).trans (h'.cell p i (h.len ▸ hi))

end Alike

/-! ## Repeated rows -/

/-- All rows of the column hold the value, or are null. -/
structure Repeats (t : DataType) (v : Option t.physical.Value) (n : Nat) (c : Column) : Prop where
  wellFormed : c.WellFormed
  dataType : c.dataType = t
  len : c.len = n
  shows : ∀ i < n, c.shows i = v.isSome
  cell : ∀ i < n, c.cell t.physical i = v

theorem Repeats.alike {v : Option t.physical.Value} (h : Repeats t v n c)
    (h' : Repeats t v n c') : Alike c c' where
  dataType := h.dataType.trans h'.dataType.symm
  len := h.len.trans h'.len.symm
  shows i hi := (h.shows i (h.len ▸ hi)).trans (h'.shows i (h.len ▸ hi)).symm
  cell p i hi := by
    by_cases hp : t.physical = p
    · cases hp
      rw [h.cell i (h.len ▸ hi), h'.cell i (h.len ▸ hi)]
    · have hc : c.physical ≠ p := fun hcp => hp (h.dataType ▸ hcp)
      have hc' : c'.physical ≠ p := fun hcp => hp (h'.dataType ▸ hcp)
      rw [cell_of_ne h.wellFormed hc, cell_of_ne h'.wellFormed hc']

theorem repeats_ofScalars {v : Option t.physical.Value}
    (hs : ∀ b : Builder, b.dataType = t → b.appendScalar s = b.appendStored t.physical v)
    (h : ofScalars t (List.replicate n s) = .ok c) : Repeats t v n c := by
  obtain ⟨b, hall, rfl⟩ := ofScalars_eq_ok_iff.mp h
  have hadds : ∀ s' ∈ List.replicate n s, ∀ b : Builder, b.dataType = t →
      b.appendScalar s' = b.appendStored t.physical v := by
    intro s' hs' b hb
    rw [List.eq_of_mem_replicate hs']
    exact hs b hb
  obtain ⟨b', hall', ht, hb⟩ := (Builder.holds_new t).exists_each hadds
  cases hall.symm.trans hall'
  rw [List.nil_append, List.map_replicate] at hb
  have hrow : ∀ i < n, (List.replicate n v)[i]? = some v := by
    intro i hi
    exact List.getElem?_replicate_of_lt hi
  refine ⟨wellFormed_finish hb.wellFormed, ht, ?_, ?_, ?_⟩
  · exact hb.size.trans List.length_replicate
  · intro i hi
    exact hb.shows (hrow i hi)
  · intro i hi
    exact hb.cell (hrow i hi)

theorem repeats_nulls (t : DataType) (n : Nat) : Repeats t none n (nulls t n) where
  wellFormed := wellFormed_nulls t n
  dataType := rfl
  len := rfl
  shows _ _ := rfl
  cell _ _ := rfl

/-! In a constant column row 0 stands for every row. -/

theorem shows_constant (c : Column) (n i : Nat) :
    shows { c with len := n, layout := .constant } i = c.shows 0 := by
  obtain ⟨_, _, layout, _, _⟩ := c
  cases layout <;> rfl

theorem cell_constant (p : Physical) (c : Column) (n i : Nat) :
    cell p { c with len := n, layout := .constant } i = c.cell p 0 := by
  obtain ⟨_, _, layout, _, _⟩ := c
  cases layout <;> rfl

theorem Repeats.constant {v : Option t.physical.Value} (h : Repeats t v 1 c)
    (hc : { c with len := n, layout := .constant }.WellFormed) :
    Repeats t v n { c with len := n, layout := .constant } where
  wellFormed := hc
  dataType := h.dataType
  len := rfl
  shows i _ := (shows_constant c n i).trans (h.shows 0 Nat.one_pos)
  cell i _ := (cell_constant t.physical c n i).trans (h.cell 0 Nat.one_pos)

theorem repeats_repeated (h : repeated s n = .ok c) : Repeats s.dataType s.stored n c := by
  have hw := wellFormed_repeated h
  unfold repeated at h
  split at h
  · rename_i hnull
    cases h
    cases s with
    | null => exact repeats_nulls .null n
    | _ => cases hnull
  · rcases hone : ofScalars s.dataType [s] with f | one
    · rw [hone] at h
      cases h
    · rw [hone] at h
      cases h
      exact (repeats_ofScalars (n := 1) (fun _ => Builder.appendScalar_eq) hone).constant hw

/-! ## Other parts -/

theorem alike_of_ofParts {v v' : Validity} {d d' : ColumnData} (h : ofParts t v d = .ok c)
    (h' : ofParts t v' d' = .ok c') (hsize : d.size = d'.size)
    (hvalid : ∀ i < d.size, v.get? i = v'.get? i)
    (hdata : ∀ i < d.size, v.get? i = some true →
      d.get? t.physical i = d'.get? t.physical i) : Alike c c' := by
  obtain ⟨⟨hd, -⟩, rfl⟩ := ofParts_eq_ok_iff.mp h
  obtain ⟨⟨hd', -⟩, rfl⟩ := ofParts_eq_ok_iff.mp h'
  have hshows : ∀ i < d.size, (flat t v d).shows i = (flat t v' d').shows i := by
    intro i hi
    show (v.get? i == some true) = (v'.get? i == some true)
    rw [hvalid i hi]
  refine ⟨rfl, hsize, hshows, ?_⟩
  intro p i hi
  rw [cell, cell, ← hshows i hi]
  split
  · rename_i hv
    show d.get? p i = d'.get? p i
    by_cases hp : t.physical = p
    · subst hp
      exact hdata i hi (beq_iff_eq.mp hv)
    · rw [ColumnData.get?_of_ne (hd ▸ hp), ColumnData.get?_of_ne (hd' ▸ hp)]
  · rfl

theorem SameRows.alike (h : SameRows c c') : Alike c c' := by
  induction h with
  | refl c => exact ⟨rfl, rfl, fun _ _ => rfl, fun _ _ _ => rfl⟩
  | symm _ ih => exact ih.symm
  | trans _ _ ih ih' => exact ih.trans ih'
  | repeated h h' =>
    exact (repeats_repeated h).alike (repeats_ofScalars (fun _ => Builder.appendScalar_eq) h')
  | @nulls t n _ h => exact (repeats_nulls t n).alike (repeats_ofScalars (fun _ _ => rfl) h)
  | parts h h' hsize hvalid hdata => exact alike_of_ofParts h h' hsize hvalid hdata

end Column

end Earliest
