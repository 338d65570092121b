import Earliest.Proofs.Memory.Overflow

/-! How a call of `ensure` ends. The size of what it asks for is checked first, then the manager is
asked and then the allocator, and a call that any of them stops leaves the array and the manager
as they were. What a call that ends well makes of the array does not depend on the memory it met.
Nothing checks the count of what the values own: the word it is kept in wraps, and a build that
checks its arithmetic stops there. -/

namespace Earliest

/-! ## Counting and giving back -/

namespace Manager

variable {m granted : Manager} {bytes : Nat}

/-- The manager after it has granted so many bytes more. -/
def charge (m : Manager) (bytes : Nat) : Manager :=
  match m with
  | untracked => untracked
  | tracked l => tracked { l with reserved := l.reserved + bytes }

@[simp] theorem charge_zero (m : Manager) : m.charge 0 = m := by
  cases m <;> rfl

@[simp] theorem charge_charge (m : Manager) (bytes more : Nat) :
    (m.charge bytes).charge more = m.charge (bytes + more) := by
  cases m with
  | untracked => rfl
  | tracked l => simp only [charge, Nat.add_assoc]

/-- A grant is counted, and the counter stays in its range. -/
theorem eq_charge_of_reserve (h : m.reserve bytes = .ok granted) :
    granted = m.charge bytes ∧ (m.reserved < sizeRange → granted.reserved < sizeRange) := by
  cases m with
  | untracked =>
    cases h
    exact ⟨rfl, id⟩
  | tracked l =>
    by_cases h0 : bytes = 0
    · simp only [reserve, Ledger.reserve, h0, if_true, Except.map, Except.ok.injEq] at h
      subst h h0
      exact ⟨rfl, id⟩
    · by_cases hf : l.fits bytes = true
      · simp only [reserve, Ledger.reserve, h0, hf, if_false, if_true, Except.map,
          Except.ok.injEq] at h
        subst h
        exact ⟨rfl, fun _ => of_decide_eq_true (Bool.and_eq_true_iff.mp hf).1⟩
      · simp [reserve, Ledger.reserve, h0, hf, Except.map] at h

/-- A grant that is given back leaves no trace. -/
theorem release_of_reserve (hm : m.reserved < sizeRange) (h : m.reserve bytes = .ok granted) :
    granted.release bytes = m := by
  obtain ⟨rfl, hrange⟩ := eq_charge_of_reserve h
  cases m with
  | untracked => rfl
  | tracked l =>
    have hl : l.reserved < sizeRange := hm
    have htotal : l.reserved + bytes < sizeRange := hrange hm
    have hback : (l.reserved + bytes + (sizeRange - bytes)) % sizeRange = l.reserved := by
      rw [show l.reserved + bytes + (sizeRange - bytes) = l.reserved + sizeRange by omega,
        Nat.add_mod_right, Nat.mod_eq_of_lt hl]
    simp only [charge, release, Ledger.release, hback]

end Manager

/-- Memory that no object can have is never had. -/
def Allocator.Bounded (alloc : Allocator) : Prop :=
  ∀ request bytes, objectRange ≤ bytes → alloc.answer request bytes ≠ none

theorem Allocator.bounded_standard : Allocator.standard.Bounded := by
  intro request bytes h
  simp [standard, h]

namespace GroupArray

variable {α : Type} [Slot α] {a a' : GroupArray α} {alloc : Allocator} {m m' granted : Manager}
  {n capacity : Nat} {outcome : Except Fault Unit} {fault : Fault} {refusal : Refusal}

/-! ## The array after a call that ended well -/

/-- The array with slots `0` to `n - 1`, in the memory there is or in more. -/
def ensured (a : GroupArray α) (n : Nat) : GroupArray α :=
  if n ≤ a.size then a
  else if n ≤ a.capacity then a.extend n
  else (a.withCapacity (a.grownCapacity n)).extend n

/-- The bytes of its memory beyond what there is. -/
def growthBytes (a : GroupArray α) (n : Nat) : Nat := a.extraBytes (a.ensured n).capacity

theorem ensured_of_le (h : n ≤ a.size) : a.ensured n = a := if_pos h

theorem ensured_of_le_capacity (h : a.size < n) (hc : n ≤ a.capacity) :
    a.ensured n = a.extend n := by
  rw [ensured, if_neg (not_le.mpr h), if_pos hc]

theorem ensured_of_capacity_lt (h : a.size < n) (hc : a.capacity < n) :
    a.ensured n = (a.withCapacity (a.grownCapacity n)).extend n := by
  rw [ensured, if_neg (not_le.mpr h), if_neg (not_le.mpr hc)]

theorem growthBytes_of_capacity_eq (h : (a.ensured n).capacity = a.capacity) :
    a.growthBytes n = 0 := by
  rw [growthBytes, extraBytes, h, Nat.sub_self, Nat.zero_mul]

theorem size_ensured (a : GroupArray α) (n : Nat) : (a.ensured n).size = max a.size n := by
  rcases Nat.lt_or_ge a.size n with h | h
  · rw [Nat.max_eq_right h.le, ensured, if_neg (not_le.mpr h)]
    split
    · exact size_extend h.le
    · exact size_extend (show (a.withCapacity _).size ≤ n from h.le)
  · rw [ensured_of_le h, Nat.max_eq_left h]

theorem ensured_ensured (a : GroupArray α) (n : Nat) : (a.ensured n).ensured n = a.ensured n :=
  ensured_of_le (size_ensured a n ▸ le_max_right _ _)

/-- A call that ends well leaves the same array whatever memory it met, and the manager has
granted what the array grew by. -/
theorem ensure_ok (h : a.ensure alloc n m = (.ok (), a', m')) :
    a' = a.ensured n ∧ m' = m.charge (a.growthBytes n) ∧
      (m.reserved < sizeRange → m'.reserved < sizeRange) := by
  rcases ensure_cases h with ⟨-, hn, rfl, rfl⟩ | ⟨-, hn, hc, rfl, rfl⟩ |
    ⟨-, hn, hc, rfl, hgrant⟩ | ⟨⟨f, hf⟩, -⟩
  · have hsame := ensured_of_le hn
    have hzero := growthBytes_of_capacity_eq (congrArg capacity hsame)
    exact ⟨hsame.symm, by rw [hzero, Manager.charge_zero], id⟩
  · have hsame := ensured_of_le_capacity hn hc
    have hzero : a.growthBytes n = 0 := growthBytes_of_capacity_eq (by rw [hsame]; rfl)
    exact ⟨hsame.symm, by rw [hzero, Manager.charge_zero], id⟩
  · have hgrown := ensured_of_capacity_lt hn hc
    obtain ⟨hm', hrange⟩ := Manager.eq_charge_of_reserve hgrant
    exact ⟨hgrown.symm, by rw [hm', growthBytes, hgrown]; rfl, hrange⟩
  · cases hf

/-- A call that is stopped leaves the array. -/
theorem eq_of_ensure_error (h : a.ensure alloc n m = (.error fault, a', m')) : a' = a := by
  rcases ensure_cases h with ⟨hf, -⟩ | ⟨hf, -⟩ | ⟨hf, -⟩ | ⟨-, harray, -⟩
  · cases hf
  · cases hf
  · cases hf
  · exact harray

/-- It gives back what the manager had granted. -/
theorem manager_eq_of_ensure_error (hm : m.reserved < sizeRange)
    (h : a.ensure alloc n m = (.error fault, a', m')) : m' = m := by
  rcases ensure_cases h with ⟨hf, -⟩ | ⟨hf, -⟩ | ⟨hf, -⟩ | ⟨-, -, rfl | ⟨granted, hgrant, rfl⟩⟩
  · cases hf
  · cases hf
  · cases hf
  · rfl
  · exact Manager.release_of_reserve hm hgrant

/-! ## Who stops a call -/

theorem ensure_of_le (h : n ≤ a.size) : a.ensure alloc n m = (.ok (), a, m) := if_pos h

theorem ensure_of_le_capacity (h : a.size < n) (hc : n ≤ a.capacity) :
    a.ensure alloc n m = (.ok (), a.extend n, m) := by
  rw [ensure, if_neg (not_le.mpr h), house, if_pos hc]

omit [Slot α] in
theorem le_grownCapacity (a : GroupArray α) (n : Nat) : n ≤ a.grownCapacity n :=
  (le_max_left _ _).trans (le_max_left _ _)

theorem fst_ensure (h : a.size < n) (hc : a.capacity < n) :
    (a.ensure alloc n m).1 = (a.grow alloc (a.grownCapacity n) m).1 := by
  rw [ensure, if_neg (not_le.mpr h), house, if_neg (not_le.mpr hc)]
  rcases a.grow alloc (a.grownCapacity n) m with ⟨_ | _, b, m'⟩ <;> rfl

theorem grow_of_range (h : sizeRange ≤ a.extraBytes capacity) :
    a.grow alloc capacity m = (.error (.capacityRange capacity), a, m) := if_pos h

theorem grow_of_reserve_error (h : a.extraBytes capacity < sizeRange)
    (hm : m.reserve (a.extraBytes capacity) = .error fault) :
    a.grow alloc capacity m = (.error fault, a, m) := by
  unfold extraBytes at h hm
  rw [grow, if_neg (not_le.mpr h), hm]

theorem grow_of_refusal (h : a.extraBytes capacity < sizeRange)
    (hm : m.reserve (a.extraBytes capacity) = .ok granted)
    (halloc : alloc.refusal (capacity * Slot.width α) = some refusal) :
    a.grow alloc capacity m =
      (.error (.growth refusal), a, granted.release (a.extraBytes capacity)) := by
  unfold extraBytes at h hm ⊢
  rw [grow, if_neg (not_le.mpr h), hm]
  simp only [halloc]

theorem ensure_of_grant (hs : a.size < n) (hc : a.capacity < n) (hn : a.grownCapacity n = capacity)
    (h : a.extraBytes capacity < sizeRange)
    (hm : m.reserve (a.extraBytes capacity) = .ok granted)
    (halloc : alloc.refusal (capacity * Slot.width α) = none) :
    a.ensure alloc n m = (.ok (), (a.withCapacity capacity).extend n, granted) := by
  unfold extraBytes at h hm
  rw [ensure, if_neg (not_le.mpr hs), house, if_neg (not_le.mpr hc), hn, grow,
    if_neg (not_le.mpr h), hm]
  simp only [halloc]
  rfl

theorem refusal_of_ensure_ok (h : a.ensure alloc n m = (.ok (), a', m')) (hs : a.size < n)
    (hc : a.capacity < n) : alloc.refusal (a.grownCapacity n * Slot.width α) = none := by
  have hfst : (a.grow alloc (a.grownCapacity n) m).1 = .ok () :=
    (fst_ensure hs hc).symm.trans (congrArg Prod.fst h)
  rcases hgrow : a.grow alloc (a.grownCapacity n) m with ⟨outcome, b, mb⟩
  rcases grow_cases hgrow with ⟨-, -, -, halloc, -⟩ | ⟨⟨f, rfl⟩, -⟩
  · exact halloc
  · rw [hgrow] at hfst
    cases hfst

/-! ## Arrays that calls lead to -/

/-- The arrays that calls lead to, whatever came of each and in either build. Others may have used
the memory between them. -/
inductive Reached (fill : α) (minCapacity : Nat) : GroupArray α → Prop
  | new : Reached fill minCapacity (new fill minCapacity)
  | ensure {a : GroupArray α} (ha : Reached fill minCapacity a) {alloc : Allocator}
      (halloc : alloc.Bounded) (n : Nat) (m : Manager) :
      Reached fill minCapacity (a.ensure alloc n m).2.1
  | ensureChecked {a : GroupArray α} (ha : Reached fill minCapacity a) {alloc : Allocator}
      (halloc : alloc.Bounded) (n : Nat) (m : Manager) :
      Reached fill minCapacity (a.ensureChecked alloc n m).2.1
  | set {a : GroupArray α} (ha : Reached fill minCapacity a) (i : Nat) (v : α) :
      Reached fill minCapacity (a.set i v)
  | update {a : GroupArray α} (ha : Reached fill minCapacity a) (i : Nat) (f : α → Except α α) :
      Reached fill minCapacity (a.tryUpdate i f).2

/-- The slots have memory, and the reservation is that of the memory, which an object can have. -/
structure Housed (a : GroupArray α) : Prop where
  size : a.size ≤ a.capacity
  backed : a.Backed
  bounded : a.capacity * Slot.width α < objectRange

namespace Housed

theorem new (fill : α) (minCapacity : Nat) : (GroupArray.new fill minCapacity).Housed where
  size := le_rfl
  backed := backed_new fill minCapacity
  bounded := by simp [GroupArray.new, objectRange]

theorem set (ha : a.Housed) (i : Nat) (v : α) : (a.set i v).Housed := by
  obtain ⟨hsize, hbacked, hbounded⟩ := ha
  exact ⟨by rwa [size_set, capacity_set], by rwa [Backed, reserved_set, capacity_set],
    by rwa [capacity_set]⟩

theorem update (ha : a.Housed) (i : Nat) (f : α → α) : (a.update i f).Housed := by
  unfold GroupArray.update
  split
  · exact ha.set i _
  · exact ha

theorem leave (ha : a.Housed) (i : Nat) (v : α) : (a.leave i v).Housed := by
  obtain ⟨hsize, hbacked, hbounded⟩ := ha
  exact ⟨by rwa [size_leave], hbacked, hbounded⟩

theorem tryUpdate (ha : a.Housed) (i : Nat) (f : α → Except α α) :
    (a.tryUpdate i f).2.Housed := by
  unfold GroupArray.tryUpdate
  split
  · exact ha
  · split
    · exact ha.set i _
    · exact ha.leave i _

theorem ensure (ha : a.Housed) (halloc : alloc.Bounded)
    (h : a.ensure alloc n m = (outcome, a', m')) : a'.Housed := by
  have hbacked := ha.backed.ensure h
  rcases ensure_cases h with ⟨-, -, rfl, -⟩ | ⟨-, hn, hc, rfl, -⟩ | ⟨rfl, hn, hc, rfl, -⟩ |
    ⟨-, rfl, -⟩
  · exact ha
  · exact ⟨by rwa [size_extend hn.le], hbacked, ha.bounded⟩
  · refine ⟨?_, hbacked, ?_⟩
    · rw [size_extend (show (a.withCapacity _).size ≤ n from hn.le)]
      exact le_grownCapacity a n
    · show a.grownCapacity n * Slot.width α < objectRange
      by_contra hlarge
      exact halloc 0 _ (not_lt.mp hlarge) (refusal_of_ensure_ok h hn hc)
  · exact ha

theorem ensureChecked (ha : a.Housed) (halloc : alloc.Bounded) (n : Nat) (m : Manager) :
    (a.ensureChecked alloc n m).2.1.Housed := by
  rcases h : a.ensure alloc n m with ⟨outcome, a', m'⟩
  have ha' := ha.ensure halloc h
  rw [ensureChecked_of_ensure h]
  split
  · have hcalled : Called n a m a' m' := .once h
    exact ⟨hcalled.grows.size.trans ha'.size, ha'.backed, ha'.bounded⟩
  · exact ha'

end Housed

theorem Reached.housed {fill : α} {minCapacity : Nat} (ha : Reached fill minCapacity a) :
    a.Housed := by
  induction ha with
  | new => exact .new fill minCapacity
  | ensure _ halloc n m ih => exact ih.ensure halloc rfl
  | ensureChecked _ halloc n m ih => exact ih.ensureChecked halloc n m
  | set _ i v ih => exact ih.set i v
  | update _ i f ih => exact ih.tryUpdate i f

/-- The word after a call that ended well, whatever memory it met. -/
theorem heapWord_ensured (a : GroupArray α) (n : Nat) : (a.ensured n).heapWord =
    a.heapWord + .ofNat (n - a.size) * .ofNat (Slot.heap a.fill) := by
  unfold ensured
  split
  · rename_i hn
    rw [Nat.sub_eq_zero_of_le hn]
    simp
  · split
    · exact heapWord_extend a n
    · exact heapWord_extend (a.withCapacity (a.grownCapacity n)) n

/-- A call of `ensure` on an array that any calls led to. It changes nothing where the slots are
there, and asks for no memory where the capacity covers them. Otherwise it ends as the first of
three says that stops it: the check that the bytes beyond the old capacity can be counted at all,
the manager, and the allocator. When all goes well the slots are there, and when anything stops
the call the array and the manager's counter are as they were. Nothing is subtracted from less,
and the reservation is that of the capacity, in 64 bits. The word that counts what the values own
wraps, and a build that checks its arithmetic ends the call in the same way wherever it does not. -/
theorem Reached.ensure_exact {fill : α} {minCapacity : Nat}
    (ha : Reached fill minCapacity a) (halloc : alloc.Bounded) (hm : m.reserved < 2 ^ 64)
    (h : a.ensure alloc n m = (outcome, a', m')) :
    let capacity := max (max n (min (2 * a.capacity) (2 ^ 64 - 1))) a.minCapacity
    let extra := (capacity - a.capacity) * Slot.width α
    let count := a.heapWord.toNat + (n - a.size) * Slot.heap a.fill
    (n ≤ a.size → outcome = .ok () ∧ a' = a ∧ m' = m) ∧
    (a.size < n → n ≤ a.capacity → outcome = .ok () ∧ a'.capacity = a.capacity ∧
      a'.reserved = a.reserved ∧ m' = m) ∧
    (a.capacity < n →
      (2 ^ 64 ≤ extra → outcome = .error (.capacityRange capacity) ∧
        (Fault.capacityRange capacity).kind = .resourceExhausted) ∧
      (extra < 2 ^ 64 → ∀ fault, m.reserve extra = .error fault → outcome = .error fault) ∧
      (extra < 2 ^ 64 → ∀ granted, m.reserve extra = .ok granted →
        (∀ refusal, alloc.refusal (capacity * Slot.width α) = some refusal →
          outcome = .error (.growth refusal) ∧
            (Fault.growth refusal).report.message = "failed to grow group array") ∧
        (alloc.refusal (capacity * Slot.width α) = none →
          outcome = .ok () ∧ a'.capacity = capacity ∧ m' = granted))) ∧
    (outcome = .ok () → a'.size = max a.size n) ∧
    (∀ fault, outcome = .error fault → a' = a ∧ m' = m) ∧
    (a.size ≤ a.capacity ∧ (a.capacity < n → a.capacity < capacity) ∧
      (n < 2 ^ 64 → a.minCapacity < 2 ^ 64 → capacity < 2 ^ 64)) ∧
    (a'.reserved = a'.capacity * Slot.width α ∧ a'.capacity * Slot.width α < 2 ^ 63) ∧
    (outcome = .ok () → a'.heapWord =
      a.heapWord + .ofNat (n - a.size) * .ofNat (Slot.heap a.fill)) ∧
    (count < 2 ^ 64 ∨ outcome ≠ .ok () → a.ensureChecked alloc n m = (some outcome, a', m')) ∧
    (2 ^ 64 ≤ count → outcome = .ok () → a.ensureChecked alloc n m =
      (none, { a' with values := a.values, heapBytes := a.heapBytes }, m')) := by
  intro capacity extra count
  have hhoused := ha.housed
  have hhoused' := hhoused.ensure halloc h
  refine ⟨?_, ?_, ?_, ?_, ?_, ⟨hhoused.size, lt_grownCapacity, ?_⟩,
    ⟨hhoused'.backed, hhoused'.bounded⟩, ?_, ensureChecked_of_holds h, ?_⟩
  · intro hn
    rw [ensure_of_le hn] at h
    cases h
    exact ⟨rfl, rfl, rfl⟩
  · intro hs hc
    rw [ensure_of_le_capacity hs hc] at h
    cases h
    exact ⟨rfl, rfl, rfl, rfl⟩
  · intro hc
    have hs : a.size < n := hhoused.size.trans_lt hc
    have hfst : outcome = (a.grow alloc capacity m).1 :=
      (congrArg Prod.fst h).symm.trans (fst_ensure hs hc)
    refine ⟨?_, ?_, ?_⟩
    · intro hrange
      exact ⟨by rw [hfst, grow_of_range hrange], rfl⟩
    · intro hrange fault hfault
      rw [hfst, grow_of_reserve_error hrange hfault]
    · intro hrange granted hgrant
      refine ⟨?_, ?_⟩
      · intro refusal hrefusal
        exact ⟨by rw [hfst, grow_of_refusal hrange hgrant hrefusal], rfl⟩
      · intro hnone
        rw [ensure_of_grant hs hc rfl hrange hgrant hnone] at h
        cases h
        exact ⟨rfl, rfl, rfl⟩
  · rintro rfl
    rw [(ensure_ok h).1, size_ensured]
  · rintro fault rfl
    exact ⟨eq_of_ensure_error h, manager_eq_of_ensure_error hm h⟩
  · intro hn hmin
    exact max_lt (max_lt hn (by omega)) hmin
  · rintro rfl
    rw [(ensure_ok h).1, heapWord_ensured]
  · rintro hfull rfl
    exact ensureChecked_of_full h hfull

/-- Three slots, and then more than any object can hold: the manager grants the bytes and gets
them back. With more still the manager's counter would pass its range, and with one slot more the
bytes themselves do. -/
theorem ensure_exact_tooLarge :
    let a := ((new (0 : Int64) 2).ensure .standard 3 (.new none)).2.1
    let m : Manager := .tracked ⟨24, none⟩
    a.ensure .standard (2 ^ 60) m = (.error (.growth .tooLarge), a, m) ∧
      a.ensure .standard (2 ^ 61 + 2) m = (.error (.memoryLimit (2 ^ 64 - 8) 24 none), a, m) ∧
      a.ensure .standard (2 ^ 61 + 3) m = (.error (.capacityRange (2 ^ 61 + 3)), a, m) := by
  intro a m
  have ha : Reached (0 : Int64) 2 a := .ensure .new Allocator.bounded_standard 3 _
  have hcall (n : Nat) : a.ensure .standard n m = ((a.ensure .standard n m).1,
      (a.ensure .standard n m).2.1, (a.ensure .standard n m).2.2) := rfl
  have hexact (n : Nat) := ha.ensure_exact Allocator.bounded_standard (by decide) (hcall n)
  have hcapacity {n : Nat} (h : 6 ≤ n) :
      max (max n (min (2 * a.capacity) (2 ^ 64 - 1))) a.minCapacity = n := by
    show max (max n (min (2 * 3) (2 ^ 64 - 1))) 2 = n
    omega
  have hstopped {n : Nat} {fault : Fault} (h : (a.ensure .standard n m).1 = .error fault) :
      a.ensure .standard n m = (.error fault, a, m) := by
    obtain ⟨-, -, -, -, herror, -⟩ := hexact n
    obtain ⟨harray, hmanager⟩ := herror fault h
    exact Prod.ext h (Prod.ext harray hmanager)
  have hextra (n : Nat) : (n - a.capacity) * Slot.width Int64 = (n - 3) * 8 := rfl
  refine ⟨hstopped ?_, hstopped ?_, hstopped ?_⟩
  · obtain ⟨-, -, hgrows, -⟩ := hexact (2 ^ 60)
    rw [hcapacity (by decide), hextra] at hgrows
    have hgrant : m.reserve ((2 ^ 60 - 3) * 8) = .ok (.tracked ⟨24 + (2 ^ 60 - 3) * 8, none⟩) := by
      decide +kernel
    obtain ⟨-, -, hgranted⟩ := hgrows (by decide)
    exact ((hgranted (by decide) _ hgrant).1 .tooLarge (by decide)).1
  · obtain ⟨-, -, hgrows, -⟩ := hexact (2 ^ 61 + 2)
    rw [hcapacity (by decide), hextra] at hgrows
    have hrefused : m.reserve ((2 ^ 61 + 2 - 3) * 8) =
        .error (.memoryLimit (2 ^ 64 - 8) 24 none) := by
      decide +kernel
    exact (hgrows (by decide)).2.1 (by decide) _ hrefused
  · obtain ⟨-, -, hgrows, -⟩ := hexact (2 ^ 61 + 3)
    rw [hcapacity (by decide), hextra] at hgrows
    exact ((hgrows (by decide)).1 (by decide)).1

/-- No slots, to be filled with copies of a buffer with nothing in it and room for 2^36 bytes. The
copies have no room. -/
def roomyFill : GroupArray Buffer := new ⟨[], 2 ^ 36⟩ 0

theorem ensure_roomyFill : roomyFill.ensure .standard (2 ^ 28) (.new none) =
    (.ok (), (roomyFill.withCapacity (2 ^ 28)).extend (2 ^ 28), .tracked ⟨2 ^ 28 * 24, none⟩) := by
  have hcapacity : roomyFill.grownCapacity (2 ^ 28) = 2 ^ 28 := by decide
  exact ensure_of_grant (by decide) (by decide) hcapacity (by decide) (by decide) (by decide)

theorem heapWord_roomyFill :
    ((roomyFill.withCapacity (2 ^ 28)).extend (2 ^ 28)).heapWord = 0 := by
  rw [heapWord_extend]
  decide

/-- With 2^28 slots the word would have to hold 2^64. It wraps to nothing, and a build that checks
its arithmetic has the memory for the slots by then, and stops with none of them added. -/
theorem ensureChecked_roomyFill :
    let wrapped := roomyFill.ensure .standard (2 ^ 28) (.new none)
    let stopped := roomyFill.ensureChecked .standard (2 ^ 28) (.new none)
    (wrapped.1 = .ok () ∧ wrapped.2.1.size = 2 ^ 28 ∧ wrapped.2.1.heapWord = 0) ∧
      stopped.1 = none ∧ stopped.2.1.size = 0 ∧ stopped.2.1.capacity = 2 ^ 28 ∧
      stopped.2.1.reserved = 2 ^ 28 * 24 ∧ stopped.2.2.reserved = 2 ^ 28 * 24 := by
  intro wrapped stopped
  have hcount : sizeRange ≤
      roomyFill.heapWord.toNat + (2 ^ 28 - roomyFill.size) * Slot.heap roomyFill.fill := by decide
  have hstopped := ensureChecked_of_full ensure_roomyFill hcount
  have hsize : ((roomyFill.withCapacity (2 ^ 28)).extend (2 ^ 28)).size = 2 ^ 28 :=
    size_extend (Nat.zero_le _)
  have hreserved : 0 + roomyFill.extraBytes (2 ^ 28) = 2 ^ 28 * 24 := by decide
  simp only [wrapped, stopped, ensure_roomyFill, hstopped]
  exact ⟨⟨trivial, hsize, heapWord_roomyFill⟩, trivial, rfl, rfl, hreserved, rfl⟩

end GroupArray

end Earliest
