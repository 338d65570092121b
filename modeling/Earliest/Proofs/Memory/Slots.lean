import Mathlib
import Earliest.Proofs.Memory.Growth

/-! What stands in the slots of a group array. A write changes one slot, and a call of `ensure`
none: whatever came of the call, the slots it added hold the fill value. What the values own
outside their slots is counted to the byte. -/

namespace Earliest

/-- One summand of a sum, and the sum with another in its place. -/
theorem exists_sum_set {β : Type} {l : List β} {i : Nat} {old : β} (f : β → Nat)
    (h : l[i]? = some old) :
    ∃ rest, (l.map f).sum = rest + f old ∧ ∀ x, ((l.set i x).map f).sum = rest + f x := by
  induction l generalizing i with
  | nil => simp at h
  | cons b l ih =>
    cases i with
    | zero =>
      simp only [List.getElem?_cons_zero, Option.some.injEq] at h
      subst h
      exact ⟨(l.map f).sum, by simp [Nat.add_comm], fun x => by simp [Nat.add_comm]⟩
    | succ i =>
      obtain ⟨rest, hsum, hset⟩ := ih (by simpa using h)
      refine ⟨f b + rest, by simp [hsum, Nat.add_assoc], ?_⟩
      intro x
      rw [List.set_cons_succ, List.map_cons, List.sum_cons, hset x, Nat.add_assoc]

namespace GroupArray

variable {α : Type} [Slot α] {a a' : GroupArray α} {m m' : Manager} {i j n : Nat} {v : α}
  {f : α → α}

omit [Slot α] in
theorem exists_get? (h : i < a.size) : ∃ v, a.get? i = some v :=
  ⟨a.values[i], Array.getElem?_eq_getElem h⟩

omit [Slot α] in
theorem get?_eq_none (h : a.size ≤ i) : a.get? i = none := Array.getElem?_eq_none h

omit [Slot α] in
theorem lt_size_of_get? (h : a.get? i = some v) : i < a.size := by
  by_contra hi
  rw [get?_eq_none (not_lt.mp hi)] at h
  cases h

/-! ## Writing -/

@[simp] theorem size_set (a : GroupArray α) (i : Nat) (v : α) : (a.set i v).size = a.size := by
  unfold set size
  split <;> simp

@[simp] theorem fill_set (a : GroupArray α) (i : Nat) (v : α) : (a.set i v).fill = a.fill := by
  unfold set
  split <;> rfl

@[simp] theorem capacity_set (a : GroupArray α) (i : Nat) (v : α) :
    (a.set i v).capacity = a.capacity := by
  unfold set
  split <;> rfl

@[simp] theorem minCapacity_set (a : GroupArray α) (i : Nat) (v : α) :
    (a.set i v).minCapacity = a.minCapacity := by
  unfold set
  split <;> rfl

@[simp] theorem reserved_set (a : GroupArray α) (i : Nat) (v : α) :
    (a.set i v).reserved = a.reserved := by
  unfold set
  split <;> rfl

theorem get?_set_self (v : α) (h : i < a.size) : (a.set i v).get? i = some v := by
  have hi : i < a.values.size := h
  simp [set, get?, hi]

theorem get?_set_of_ne (v : α) (h : j ≠ i) : (a.set i v).get? j = a.get? j := by
  unfold set get?
  split
  · rw [Array.getElem?_set_ne _ h.symm]
  · rfl

@[simp] theorem size_update (a : GroupArray α) (i : Nat) (f : α → α) :
    (a.update i f).size = a.size := by
  unfold update
  split <;> simp

@[simp] theorem fill_update (a : GroupArray α) (i : Nat) (f : α → α) :
    (a.update i f).fill = a.fill := by
  unfold update
  split <;> simp

@[simp] theorem capacity_update (a : GroupArray α) (i : Nat) (f : α → α) :
    (a.update i f).capacity = a.capacity := by
  unfold update
  split <;> simp

@[simp] theorem reserved_update (a : GroupArray α) (i : Nat) (f : α → α) :
    (a.update i f).reserved = a.reserved := by
  unfold update
  split <;> simp

theorem get?_update_self (f : α → α) (h : a.get? i = some v) :
    (a.update i f).get? i = some (f v) := by
  rw [update, h]
  exact get?_set_self (f v) (lt_size_of_get? h)

theorem get?_update_of_ne (f : α → α) (h : j ≠ i) : (a.update i f).get? j = a.get? j := by
  unfold update
  split
  · exact get?_set_of_ne _ h
  · rfl

theorem set_eq_update (a : GroupArray α) (i : Nat) (v : α) :
    a.set i v = a.update i fun _ => v := by
  by_cases h : i < a.size
  · obtain ⟨w, hw⟩ := exists_get? h
    rw [update, hw]
  · have hsame : a.set i v = a := dif_neg h
    rw [update, get?_eq_none (not_lt.mp h), hsame]

/-! ## Writing without counting -/

omit [Slot α] in
@[simp] theorem size_leave (a : GroupArray α) (i : Nat) (v : α) : (a.leave i v).size = a.size := by
  simp [leave, size]

omit [Slot α] in
theorem get?_leave_self (v : α) (h : i < a.size) : (a.leave i v).get? i = some v := by
  have hi : i < a.values.size := h
  simp [leave, get?, hi]

omit [Slot α] in
theorem get?_leave_of_ne (v : α) (h : j ≠ i) : (a.leave i v).get? j = a.get? j :=
  Array.getElem?_setIfInBounds_ne h.symm

/-! ## Growing -/

theorem get?_extend_of_lt (n : Nat) (h : i < a.size) : (a.extend n).get? i = a.get? i :=
  Array.getElem?_append_left h

theorem get?_extend_of_le (h : a.size ≤ i) (hn : i < n) :
    (a.extend n).get? i = some (Slot.copy a.fill) := by
  have hi : i - a.values.size < n - a.size := Nat.sub_lt_sub_right h hn
  simp only [extend, get?]
  rw [Array.getElem?_append_right h, Array.getElem?_replicate, if_pos hi]

/-- Whatever came of a call, it took no slot away and touched none. -/
structure Grows (a a' : GroupArray α) : Prop where
  fill : a'.fill = a.fill
  size : a.size ≤ a'.size
  kept : ∀ i < a.size, a'.get? i = a.get? i
  added : ∀ i, a.size ≤ i → i < a'.size → a'.get? i = some (Slot.copy a.fill)

namespace Grows

theorem refl (a : GroupArray α) : Grows a a :=
  ⟨rfl, le_rfl, fun _ _ => rfl, fun _ h h' => absurd h' (not_lt.mpr h)⟩

theorem extend (h : a.size ≤ n) : Grows a (a.extend n) where
  fill := rfl
  size := (size_extend h).symm ▸ h
  kept _ hi := get?_extend_of_lt n hi
  added _ hi hn := get?_extend_of_le hi (size_extend h ▸ hn)

end Grows

theorem Called.grows (h : Called n a m a' m') : Grows a a' := by
  cases h with
  | untouched => exact .refl a
  | once h =>
    rcases ensure_cases h with ⟨-, -, rfl, -⟩ | ⟨-, hn, -, rfl, -⟩ | ⟨-, hn, -, rfl, -⟩ |
      ⟨-, rfl, -⟩
    · exact .refl _
    · exact .extend hn.le
    · obtain ⟨hfill, hsize, hkept, hadded⟩ :=
        Grows.extend (show (a.withCapacity (a.grownCapacity n)).size ≤ n from hn.le)
      exact ⟨hfill, hsize, hkept, hadded⟩
    · exact .refl _

/-- The slot holds the value, or there is no such slot. -/
def Holds (a : GroupArray α) (i : Nat) (v : α) : Prop := ∀ w, a.get? i = some w → w = v

omit [Slot α] in
theorem Holds.congr (h : a'.get? i = a.get? i) (ha : a.Holds i v) : a'.Holds i v := by
  intro w hw
  exact ha w (h ▸ hw)

/-- A slot that was kept holds what it held, and an added one the fill value. -/
theorem Grows.holds (h : Grows a a') (hfill : Slot.copy a.fill = v) (ha : a.Holds i v) :
    a'.Holds i v := by
  by_cases hi : i < a.size
  · exact ha.congr (h.kept i hi)
  · intro w hw
    have hadded := h.added i (not_lt.mp hi) (lt_size_of_get? hw)
    rw [hw, Option.some.injEq] at hadded
    exact hadded.trans hfill

/-- Neither slots nor memory for them were given up. -/
structure Widens (a a' : GroupArray α) : Prop where
  size : a.size ≤ a'.size
  capacity : a.capacity ≤ a'.capacity

namespace Widens

omit [Slot α] in
theorem refl (a : GroupArray α) : Widens a a := ⟨le_rfl, le_rfl⟩

omit [Slot α] in
theorem trans {a'' : GroupArray α} (h : Widens a a') (h' : Widens a' a'') : Widens a a'' :=
  ⟨h.size.trans h'.size, h.capacity.trans h'.capacity⟩

theorem set (a : GroupArray α) (i : Nat) (v : α) : Widens a (a.set i v) :=
  ⟨(size_set a i v).ge, (capacity_set a i v).ge⟩

theorem update (a : GroupArray α) (i : Nat) (f : α → α) : Widens a (a.update i f) :=
  ⟨(size_update a i f).ge, (capacity_update a i f).ge⟩

end Widens

theorem Called.widens (h : Called n a m a' m') : Widens a a' := by
  refine ⟨h.grows.size, ?_⟩
  cases h with
  | untouched => exact le_rfl
  | once h =>
    rcases ensure_cases h with ⟨-, -, rfl, -⟩ | ⟨-, -, -, rfl, -⟩ | ⟨-, -, hcapacity, rfl, -⟩ |
      ⟨-, rfl, -⟩
    · exact le_rfl
    · exact le_rfl
    · exact (lt_grownCapacity hcapacity).le
    · exact le_rfl

/-! ## What the values own -/

/-- The values in the slots own so many bytes outside them. -/
def heapTotal (a : GroupArray α) : Nat := (a.toList.map Slot.heap).sum

/-- The count is of what the values own outside their slots, and so many bytes more. -/
def Charged (a : GroupArray α) (extra : Int) : Prop := a.heapBytes = a.heapTotal + extra

/-- The count of what the values own outside their slots is exact. -/
def Weighed (a : GroupArray α) : Prop := a.heapBytes = a.heapTotal

/-- What a slot is charged beyond what it owns when it is added: the fill value's own bytes are
counted, and a copy of it may own less. -/
def spare (fill : α) : Int := Slot.heap fill - Slot.heap (Slot.copy fill)

theorem spare_of_copy_eq {fill : α} (h : Slot.copy fill = fill) : spare fill = 0 := by
  rw [spare, h, Int.sub_self]

omit [Slot α] in
theorem getElem?_toList (h : a.get? i = some v) : a.toList[i]? = some v := by
  rwa [toList, Array.getElem?_toList]

/-- What one value owns, and what is owned with another in its place. -/
theorem exists_heapTotal_set {old : α} (h : a.get? i = some old) :
    ∃ rest, a.heapTotal = rest + Slot.heap old ∧
      ∀ v, (a.set i v).heapTotal = rest + Slot.heap v ∧
        (a.leave i v).heapTotal = rest + Slot.heap v := by
  have hi : i < a.values.size := lt_size_of_get? h
  obtain ⟨rest, hsum, hset⟩ := exists_sum_set Slot.heap (getElem?_toList h)
  refine ⟨rest, hsum, fun v => ⟨?_, ?_⟩⟩
  · rw [← hset v, heapTotal, set, dif_pos hi]
    simp only [toList, Array.toList_set]
  · rw [← hset v, heapTotal, leave]
    simp only [toList, Array.toList_setIfInBounds]

theorem heap_le_heapTotal (h : a.get? i = some v) : Slot.heap v ≤ a.heapTotal := by
  obtain ⟨rest, hsum, -⟩ := exists_heapTotal_set h
  omega

theorem heapTotal_extend (a : GroupArray α) (n : Nat) :
    (a.extend n).heapTotal = a.heapTotal + (n - a.size) * Slot.heap (Slot.copy a.fill) := by
  simp only [heapTotal, toList, extend, Array.toList_append, Array.toList_replicate,
    List.map_append, List.sum_append, List.map_replicate, List.sum_replicate, smul_eq_mul]

theorem heapBytes_set {old : α} (h : a.get? i = some old) (v : α) :
    (a.set i v).heapBytes = a.heapBytes - Slot.heap old + Slot.heap v := by
  have hi : i < a.values.size := lt_size_of_get? h
  have hold : a.values[i] = old := Option.some.inj ((Array.getElem?_eq_getElem hi).symm.trans h)
  rw [set, dif_pos hi, hold]

theorem charged_new (fill : α) (minCapacity : Nat) : (new fill minCapacity).Charged 0 := rfl

namespace Charged

variable {extra : Int}

theorem congr {extra' : Int} (ha : a.Charged extra) (h : extra = extra') : a.Charged extra' :=
  h ▸ ha

/-- No value owns more than is counted. -/
theorem heap_le (ha : a.Charged extra) (hextra : 0 ≤ extra) (h : a.get? i = some v) :
    Slot.heap v ≤ a.heapBytes := by
  have hle := heap_le_heapTotal h
  rw [Charged] at ha
  omega

theorem set (ha : a.Charged extra) (i : Nat) (v : α) : (a.set i v).Charged extra := by
  by_cases hi : i < a.size
  · obtain ⟨old, hold⟩ := exists_get? hi
    obtain ⟨rest, htotal, hset⟩ := exists_heapTotal_set hold
    rw [Charged] at ha ⊢
    rw [heapBytes_set hold, (hset v).1]
    omega
  · have hsame : a.set i v = a := dif_neg hi
    rwa [hsame]

theorem update (ha : a.Charged extra) (i : Nat) (f : α → α) : (a.update i f).Charged extra := by
  unfold GroupArray.update
  split
  · exact ha.set i _
  · exact ha

/-- What a value owns more than the one before it, and that was not counted, is missing. -/
theorem leave {old : α} (ha : a.Charged extra) (h : a.get? i = some old) (v : α) :
    (a.leave i v).Charged (extra - (Slot.heap v - Slot.heap old)) := by
  obtain ⟨rest, htotal, hset⟩ := exists_heapTotal_set h
  have hcount : (a.leave i v).heapBytes = a.heapBytes := rfl
  rw [Charged] at ha ⊢
  rw [hcount, (hset v).2]
  omega

theorem extend (ha : a.Charged extra) (n : Nat) :
    (a.extend n).Charged (extra + (n - a.size : Nat) * spare a.fill) := by
  have hcount : (a.extend n).heapBytes =
      a.heapBytes + ((n - a.size) * Slot.heap a.fill : Nat) := rfl
  rw [Charged] at ha ⊢
  rw [hcount, heapTotal_extend, ha, spare]
  push_cast
  ring

end Charged

/-- Each slot that a call adds is charged the fill value's own bytes. -/
theorem Called.charged {rest : Int} (h : Called n a m a' m')
    (ha : a.Charged (a.size * spare a.fill + rest)) :
    a'.Charged (a'.size * spare a'.fill + rest) := by
  have hextend {b : GroupArray α} (hb : b.Charged (b.size * spare b.fill + rest))
      (hn : b.size < n) :
      (b.extend n).Charged ((b.extend n).size * spare (b.extend n).fill + rest) := by
    refine (hb.extend n).congr ?_
    have hfill : (b.extend n).fill = b.fill := rfl
    rw [size_extend hn.le, hfill, Nat.cast_sub hn.le]
    ring
  cases h with
  | untouched => exact ha
  | once h =>
    rcases ensure_cases h with ⟨-, -, rfl, -⟩ | ⟨-, hn, -, rfl, -⟩ | ⟨-, hn, -, rfl, -⟩ |
      ⟨-, rfl, -⟩
    · exact ha
    · exact hextend ha hn
    · have hmore : (a.withCapacity (a.grownCapacity n)).Charged (a.size * spare a.fill + rest) := ha
      exact hextend hmore hn
    · exact ha

theorem weighed_iff_charged : a.Weighed ↔ a.Charged 0 := by
  rw [Weighed, Charged, Int.add_zero]

theorem weighed_new (fill : α) (minCapacity : Nat) : (new fill minCapacity).Weighed := rfl

namespace Weighed

theorem heap_le (ha : a.Weighed) (h : a.get? i = some v) : Slot.heap v ≤ a.heapBytes :=
  (weighed_iff_charged.mp ha).heap_le le_rfl h

theorem set (ha : a.Weighed) (i : Nat) (v : α) : (a.set i v).Weighed :=
  weighed_iff_charged.mpr ((weighed_iff_charged.mp ha).set i v)

theorem update (ha : a.Weighed) (i : Nat) (f : α → α) : (a.update i f).Weighed :=
  weighed_iff_charged.mpr ((weighed_iff_charged.mp ha).update i f)

end Weighed

/-- Where a copy of the fill value owns as much as it does, the count stays exact. -/
theorem Called.weighed (h : Called n a m a' m') (hfill : Slot.copy a.fill = a.fill)
    (ha : a.Weighed) : a'.Weighed := by
  have hspare : spare a.fill = 0 := spare_of_copy_eq hfill
  have hcharged : a.Charged (a.size * spare a.fill + 0) := by
    rw [hspare, Int.mul_zero]
    exact weighed_iff_charged.mp ha
  have hcharged' := h.charged hcharged
  rw [h.grows.fill, hspare, Int.mul_zero] at hcharged'
  exact weighed_iff_charged.mpr hcharged'

theorem Weighed.heapBytes_eq_zero (ha : a.Weighed) (hheap : ∀ v : α, Slot.heap v = 0) :
    a.heapBytes = 0 := by
  have htotal : a.heapTotal = 0 := by
    apply List.sum_eq_zero
    intro bytes hbytes
    obtain ⟨v, -, rfl⟩ := List.mem_map.mp hbytes
    exact hheap v
  rw [ha, htotal, Nat.cast_zero]

/-! ## What the array uses -/

theorem footprint_le_set (h : ∀ w, a.get? i = some w → Slot.heap w ≤ Slot.heap v) :
    a.footprint ≤ (a.set i v).footprint := by
  by_cases hi : i < a.size
  · obtain ⟨old, hold⟩ := exists_get? hi
    have hle := h old hold
    rw [footprint, footprint, capacity_set, heapBytes_set hold]
    omega
  · have hsame : a.set i v = a := dif_neg hi
    rw [hsame]

theorem footprint_le_update (h : ∀ w, Slot.heap w ≤ Slot.heap (f w)) :
    a.footprint ≤ (a.update i f).footprint := by
  unfold update
  split
  · rename_i v hv
    apply footprint_le_set
    intro w hw
    rw [hv, Option.some.injEq] at hw
    exact hw ▸ h v
  · exact le_rfl

theorem footprint_le_extend (a : GroupArray α) (n : Nat) : a.footprint ≤ (a.extend n).footprint :=
  Int.add_le_add_left (Int.le_add_of_nonneg_right (Int.natCast_nonneg _)) _

theorem Called.footprint_le (h : Called n a m a' m') : a.footprint ≤ a'.footprint := by
  cases h with
  | untouched => exact le_rfl
  | once h =>
    rcases ensure_cases h with ⟨-, -, rfl, -⟩ | ⟨-, -, -, rfl, -⟩ | ⟨-, -, hc, rfl, -⟩ |
      ⟨-, rfl, -⟩
    · exact le_rfl
    · exact footprint_le_extend a n
    · have hmore : a.footprint ≤ (a.withCapacity (a.grownCapacity n)).footprint :=
        Int.add_le_add_right
          (Int.ofNat_le.mpr (Nat.mul_le_mul_right _ (lt_grownCapacity hc).le)) _
      exact hmore.trans (footprint_le_extend _ n)
    · exact le_rfl

end GroupArray

end Earliest
