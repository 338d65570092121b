import Earliest.Column.Agreement
import Earliest.Proofs.Column.Entries

/-! Columns that agree. Two scalars are equal when they come to the same key, and the only scalar
without a key is a NaN. Two columns agree when all their rows come to the same keys, and a row that
cannot be read comes to none. So agreement is symmetric and transitive, and a row without a key is
all that keeps a column from agreeing with itself. How the rows are stored does not matter. -/

namespace Earliest

/-! ## Numbers and scalars -/

namespace Ieee

variable {f : Format}

/-- What the number is equal by: both zeros are one, and a NaN is equal to nothing. -/
def key? (x : Ieee f) : Option (Ieee f) :=
  if x.isNaN then none else some (if x.isZero then zero else x)

theorem isZero_zero : (zero : Ieee f).isZero = true := by
  simp [isZero, zero, exponent, fraction]

theorem ne_of_isZero {x y : Ieee f} (hx : x.isZero = true) (hy : y.isZero = false) : x ≠ y := by
  rintro rfl
  cases hx.symm.trans hy

theorem equal_iff {x y : Ieee f} :
    x.equal y = true ↔ ∃ key, x.key? = some key ∧ y.key? = some key := by
  unfold equal key?
  cases x.isNaN with
  | true => simp
  | false =>
    cases y.isNaN with
    | true => simp
    | false =>
      -- without NaNs, equal numbers have the same bits, unless both are zero
      cases hx : x.isZero <;> cases hy : y.isZero
      · simpa using eq_comm
      · simpa [(ne_of_isZero hy hx).symm] using ne_of_isZero isZero_zero hx
      · simpa [ne_of_isZero hx hy] using (ne_of_isZero isZero_zero hy).symm
      · simp

end Ieee

namespace Scalar

variable {s t : Scalar}

def isNaN : Scalar → Bool
  | float16 x => x.isNaN
  | float32 x => x.isNaN
  | float64 x => x.isNaN
  | _ => false

/-- What the scalar is equal by. -/
def key? : Scalar → Option Scalar
  | float16 x => x.key?.map float16
  | float32 x => x.key?.map float32
  | float64 x => x.key?.map float64
  | s => some s

theorem equal_iff : s.equal t = true ↔ ∃ key, s.key? = some key ∧ t.key? = some key := by
  cases s with
  | float16 x | float32 x | float64 x => cases t <;> simp [equal, key?, Ieee.equal_iff]
  | _ =>
    rw [exists_congr fun key => @and_comm _ (t.key? = some key)]
    cases t <;> simp [equal, key?]

theorem exists_key_iff : (∃ key, s.key? = some key) ↔ s.isNaN = false := by
  rw [← Option.isSome_iff_exists]
  cases s with
  | float16 x | float32 x | float64 x => simp [key?, isNaN, Ieee.key?]
  | _ => simp [key?, isNaN]

/-- Null has a key of its own. -/
theorem key?_eq_some_null_iff : s.key? = some .null ↔ s = .null := by
  cases s <;> simp [key?]

end Scalar

namespace Column

variable {a a' b c : Column} {t : DataType} {s : Scalar} {i n : Nat}

/-! ## Rows -/

/-- What the row is equal by, where it can be read. -/
def rowKey? (c : Column) (i : Nat) : Option Scalar :=
  match c.value i with
  | .ok s => s.key?
  | .error _ => none

theorem rowsAgree_iff :
    rowsAgree (a.value i) (b.value i) = true ↔
      ∃ key, a.rowKey? i = some key ∧ b.rowKey? i = some key := by
  unfold rowKey?
  rcases a.value i with f | s
  · simp [rowsAgree]
  · rcases b.value i with f | t
    · simp [rowsAgree]
    · exact Scalar.equal_iff

theorem exists_rowKey_iff :
    (∃ key, c.rowKey? i = some key) ↔ ∃ s, c.value i = .ok s ∧ s.isNaN = false := by
  unfold rowKey?
  rcases c.value i with f | s
  · simp
  · simp [Scalar.exists_key_iff]

theorem rowKey?_eq_some_null_iff : c.rowKey? i = some .null ↔ c.value i = .ok .null := by
  unfold rowKey?
  rcases c.value i with f | s
  · simp
  · simp [Scalar.key?_eq_some_null_iff]

/-! ## Agreement -/

theorem agrees_iff : a.agrees b = true ↔
    a.dataType = b.dataType ∧ a.len = b.len ∧
      ∀ i < a.len, ∃ key, a.rowKey? i = some key ∧ b.rowKey? i = some key := by
  simp only [agrees, Bool.and_eq_true, decide_eq_true_eq, beq_iff_eq, List.all_eq_true,
    List.mem_range, rowsAgree_iff, and_assoc]

theorem agrees_comm (a b : Column) : a.agrees b = b.agrees a := by
  have hle (a b : Column) (h : a.agrees b = true) : b.agrees a = true := by
    obtain ⟨htype, hlen, hrows⟩ := agrees_iff.mp h
    refine agrees_iff.mpr ⟨htype.symm, hlen.symm, fun i hi => ?_⟩
    obtain ⟨key, ha, hb⟩ := hrows i (hlen ▸ hi)
    exact ⟨key, hb, ha⟩
  exact Bool.eq_iff_iff.mpr ⟨hle a b, hle b a⟩

theorem agrees_trans (h : a.agrees b = true) (h' : b.agrees c = true) : a.agrees c = true := by
  obtain ⟨htype, hlen, hrows⟩ := agrees_iff.mp h
  obtain ⟨htype', hlen', hrows'⟩ := agrees_iff.mp h'
  refine agrees_iff.mpr ⟨htype.trans htype', hlen.trans hlen', fun i hi => ?_⟩
  obtain ⟨key, ha, hb⟩ := hrows i hi
  obtain ⟨key', hb', hc⟩ := hrows' i (hlen ▸ hi)
  cases hb.symm.trans hb'
  exact ⟨key, ha, hc⟩

theorem agrees_self_iff :
    a.agrees a = true ↔ ∀ i < a.len, ∃ s, a.value i = .ok s ∧ s.isNaN = false := by
  simp only [agrees_iff, true_and, and_self, exists_rowKey_iff]

/-- No row is null in one of them alone. -/
theorem value_eq_null_iff_of_agrees (h : a.agrees b = true) (i : Nat) :
    a.value i = .ok .null ↔ b.value i = .ok .null := by
  obtain ⟨-, hlen, hrows⟩ := agrees_iff.mp h
  by_cases hi : i < a.len
  · obtain ⟨key, ha, hb⟩ := hrows i hi
    rw [← rowKey?_eq_some_null_iff, ← rowKey?_eq_some_null_iff, ha, hb]
  · rw [value_of_le (not_lt.mp hi), value_of_le (hlen ▸ not_lt.mp hi)]
    exact iff_of_false nofun nofun

/-! ## Ways of storing rows -/

/-- A row is its stored value, seen through the column's type. -/
theorem value_eq_seen (hc : c.WellFormed) (hi : i < c.len) :
    c.value i = c.dataType.seen (c.cell c.dataType.physical i) := by
  cases hshows : c.shows i with
  | false =>
    rw [(value_of_lt hc hi).2, cell, hshows]
    rfl
  | true =>
    by_cases ht : c.dataType = .null
    · have hphysical : c.dataType.physical = .untypedNull := by rw [ht]
      have hcell : c.cell c.dataType.physical i = none := by
        rw [hphysical]
        rcases c.cell .untypedNull i with _ | v
        · rfl
        · exact Empty.elim v
      rw [value_of_null hc hi ht, hcell]
      rfl
    · obtain ⟨v, hcell, hvalue⟩ := value_of_shows hc hi hshows ht
      rw [hcell, hvalue]
      rfl

theorem Alike.value_eq (ha : a.WellFormed) (ha' : a'.WellFormed) (h : Alike a a') (i : Nat) :
    a.value i = a'.value i := by
  by_cases hi : i < a.len
  · rw [value_eq_seen ha hi, value_eq_seen ha' (h.len ▸ hi), h.cell _ i hi, h.dataType]
  · rw [value_of_le (not_lt.mp hi), value_of_le (h.len ▸ not_lt.mp hi), h.len]

/-- How the rows of a column are stored does not show when it is compared. -/
theorem SameRows.agrees_eq (ha : a.Built) (ha' : a'.Built) (h : SameRows a a') (b : Column) :
    a.agrees b = a'.agrees b := by
  have halike := h.alike
  unfold agrees
  rw [halike.dataType, halike.len, funext (halike.value_eq ha.wellFormed ha'.wellFormed)]

/-- What is appended over and over is read in every row. -/
theorem exists_ofScalars_replicate (hs : s = .null ∨ s.dataType = t) (hnan : s.isNaN = false)
    (n : Nat) : ∃ c, ofScalars t (List.replicate n s) = .ok c ∧ c.agrees c = true := by
  have hall : ∀ s' ∈ List.replicate n s, s' = .null ∨ s'.dataType = t :=
    fun s' hs' => List.eq_of_mem_replicate hs' ▸ hs
  obtain ⟨c, hc, hreads⟩ := exists_ofScalars hall
  refine ⟨c, hc, agrees_self_iff.mpr fun i hi => ⟨s, ?_, hnan⟩⟩
  have hlen : c.len = n := by rw [hreads.len, List.length_map, List.length_replicate]
  have hentry : ((List.replicate n s).map Builder.Entry.scalar)[i]? = some (.scalar s) := by
    rw [List.map_replicate, List.getElem?_replicate_of_lt (hlen ▸ hi)]
  exact (hreads.value i _ hentry).eq_ok

/-- Agreement is a partial equivalence, and it does not depend on how rows are stored: two columns
of the same rows agree with the same columns. A column agrees with itself if all its rows can be
read and none is a NaN. A value repeated agrees with the value appended as often, and so do nulls of
any type. Columns that agree are of one type and length, and null at the same rows. -/
theorem agrees_partialEquivalence :
    (∀ a b : Column, a.agrees b = b.agrees a) ∧
    (∀ a b c : Column, a.agrees b = true → b.agrees c = true → a.agrees c = true) ∧
    (∀ a : Column, a.agrees a = true ↔
      ∀ i < a.len, ∃ s, a.value i = .ok s ∧ s.isNaN = false) ∧
    (∀ (s : Scalar) (n : Nat), s.isNaN = false →
      ∃ c c', repeated s n = .ok c ∧ ofScalars s.dataType (List.replicate n s) = .ok c' ∧
        c.agrees c' = true) ∧
    (∀ (t : DataType) (n : Nat), ∃ c, ofScalars t (List.replicate n .null) = .ok c ∧
      (nulls t n).agrees c = true) ∧
    (∀ a b : Column, a.agrees b = true → a.dataType = b.dataType ∧ a.len = b.len ∧
      ∀ i, a.value i = .ok .null ↔ b.value i = .ok .null) ∧
    (∀ a a' b : Column, a.Built → a'.Built → SameRows a a' → a.agrees b = a'.agrees b) := by
  refine ⟨agrees_comm, fun _ _ _ => agrees_trans, fun _ => agrees_self_iff, ?_, ?_, ?_, ?_⟩
  · intro s n hnan
    obtain ⟨c, hc⟩ := exists_repeated s n
    obtain ⟨c', hc', hself⟩ := exists_ofScalars_replicate (t := s.dataType) (.inr rfl) hnan n
    have hsame := (SameRows.repeated hc hc').agrees_eq (.repeated hc) (built_ofScalars hc') c'
    exact ⟨c, c', hc, hc', hsame.trans hself⟩
  · intro t n
    obtain ⟨c, hc, hself⟩ := exists_ofScalars_replicate (s := .null) (t := t) (.inl rfl) rfl n
    have hsame := (SameRows.nulls hc).agrees_eq (.nulls t n) (built_ofScalars hc) c
    exact ⟨c, hc, hsame.trans hself⟩
  · intro a b h
    obtain ⟨htype, hlen, -⟩ := agrees_iff.mp h
    exact ⟨htype, hlen, value_eq_null_iff_of_agrees h⟩
  · exact fun a a' b ha ha' h => h.agrees_eq ha ha' b

/-- Zeros of either sign, one for all rows or one for each, and a text that is repeated. -/
theorem agrees_partialEquivalence_zeros :
    let plus : Column := ⟨.float64, 2, .constant, .allValid 1, ⟨.float64, #[⟨0⟩]⟩⟩
    let minus : Column := ⟨.float64, 2, .constant, .allValid 1, ⟨.float64, #[⟨1 <<< 63⟩]⟩⟩
    let mixed : Column := .flat .float64 (.allValid 2) ⟨.float64, #[⟨0⟩, ⟨1 <<< 63⟩]⟩
    plus.agrees mixed = true ∧ mixed.agrees minus = true ∧ plus.agrees minus = true ∧
      (plus.dataType = minus.dataType ∧ plus.len = minus.len) ∧
      (∃ c c', repeated (.utf8 "twice") 2 = .ok c ∧
        ofScalars .utf8 [.utf8 "twice", .utf8 "twice"] = .ok c' ∧ c.agrees c' = true) ∧
      ∃ c, ofScalars .int8 [.null, .null] = .ok c ∧ SameRows (nulls .int8 2) c ∧
        (nulls .int8 2).agrees c = c.agrees c := by
  intro plus minus mixed
  obtain ⟨-, htrans, -, hrepeated, hnulls, hsame, hstored⟩ := agrees_partialEquivalence
  have hfirst : plus.agrees mixed = true := by decide
  have hsecond : mixed.agrees minus = true := by decide
  have hboth := htrans plus mixed minus hfirst hsecond
  obtain ⟨htype, hlen, -⟩ := hsame plus minus hboth
  obtain ⟨c, hc, -⟩ := hnulls .int8 2
  have hnull := hstored _ c c (.nulls .int8 2) (built_ofScalars hc) (.nulls hc)
  exact ⟨hfirst, hsecond, hboth, ⟨htype, hlen⟩, hrepeated (.utf8 "twice") 2 rfl, c, hc, .nulls hc,
    hnull⟩

end Column

end Earliest
