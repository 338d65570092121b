import Earliest.Proofs.Bitmap.Run

/-! Equality of bitmaps is that of their bytes, and so it looks at the padding that no reader sees.
Two bitmaps with the same bits are equal just where they have the same stray ones, those past the
length. Calls that keep within the length make none: they only lose one where a push comes to its
place. So bitmaps without stray ones at the start are equal just where they read alike, and one of
all-true bits becomes equal to such a one with the push that takes in the last of its stray ones. -/

namespace Earliest.Bitmap

variable {m m' : Bitmap} {l l' : List Bool} {ops : List Op} {op : Op} {i j n : Nat} {v : Bool}

/-! ## Equality by places -/

theorem eq_of_byteBit_eq {b b' : UInt8} (h : ∀ k < 8, byteBit b k = byteBit b' k) : b = b' := by
  apply UInt8.toNat_inj.mp
  apply Nat.eq_of_testBit_eq
  intro k
  rcases Nat.lt_or_ge k 8 with hk | hk
  · exact h k hk
  · have hpow : 2 ^ 8 ≤ 2 ^ k := Nat.pow_le_pow_right (by decide) hk
    rw [Nat.testBit_lt_two_pow (b.toNat_lt.trans_le hpow),
      Nat.testBit_lt_two_pow (b'.toNat_lt.trans_le hpow)]

theorem eq_of_get?_eq (hlen : m.len = m'.len) (h : ∀ i, m.get? i = m'.get? i) : m = m' := by
  obtain ⟨n, bytes⟩ := m
  obtain ⟨n', bytes'⟩ := m'
  obtain rfl : n = n' := hlen
  congr 1
  apply Array.ext_getElem?
  intro k
  have hbits : ∀ j < 8, bytes[k]?.map (byteBit · j) = bytes'[k]?.map (byteBit · j) := by
    intro j hj
    have hdiv : (8 * k + j) / 8 = k := by omega
    have hmod : (8 * k + j) % 8 = j := by omega
    simpa only [get?, hdiv, hmod] using h (8 * k + j)
  generalize bytes[k]? = b at hbits ⊢
  generalize bytes'[k]? = b' at hbits ⊢
  cases b with
  | none =>
    have hnone := hbits 0 (by decide)
    rw [Option.map_none] at hnone
    exact (Option.map_eq_none_iff.mp hnone.symm).symm
  | some b =>
    obtain ⟨c, rfl, -⟩ := Option.map_eq_some_iff.mp (hbits 0 (by decide)).symm
    exact congrArg some (eq_of_byteBit_eq fun j hj => Option.some.inj (hbits j hj))

/-- A one past the length. No reader comes to it. -/
def Stray (m : Bitmap) (i : Nat) : Prop := m.len ≤ i ∧ m.get? i = some true

/-- Every bit that is stored past the length is a zero. -/
def Clear (m : Bitmap) : Prop := ∀ i, m.len ≤ i → i < 8 * m.bytes.size → m.get? i = some false

theorem clear_iff : m.Clear ↔ ∀ i, ¬ m.Stray i := by
  constructor
  · rintro h i ⟨hlen, hone⟩
    rw [h i hlen (lt_of_get?_eq_some hone)] at hone
    cases hone
  · intro h i hlen hi
    rcases hbit : m.get? i with _ | _ | _
    · have := get?_eq_none_iff.mp hbit
      omega
    · rfl
    · exact absurd ⟨hlen, hbit⟩ (h i)

/-- The bits within the length are those of the list, and the bytes are as many, so the padding is
all that is left to differ. -/
theorem Holds.eq_iff (h : m.Holds l) (h' : m'.Holds l') :
    m = m' ↔ l = l' ∧ ∀ i, m.Stray i ↔ m'.Stray i := by
  constructor
  · rintro rfl
    exact ⟨h.toList.symm.trans h'.toList, fun _ => Iff.rfl⟩
  · rintro ⟨rfl, hstray⟩
    have hlen : m.len = m'.len := h.len_eq.trans h'.len_eq.symm
    have hsize : m.bytes.size = m'.bytes.size := by rw [h.full, h'.full, hlen]
    apply eq_of_get?_eq hlen
    intro i
    rcases Nat.lt_or_ge i l.length with hi | hi
    · rw [h.get?_eq hi, h'.get?_eq hi]
    · have hnone : m.get? i = none ↔ m'.get? i = none := by
        rw [get?_eq_none_iff, get?_eq_none_iff, hsize]
      have hone : m.get? i = some true ↔ m'.get? i = some true := by
        have hi' : m.len ≤ i := h.len_eq ▸ hi
        simpa only [Stray, hi', hlen ▸ hi', true_and] using hstray i
      -- an answer is none, a one or the zero that is left
      rcases hm : m.get? i with _ | _ | _ <;> rcases hm' : m'.get? i with _ | _ | _ <;>
        simp [hm, hm'] at hnone hone ⊢

/-- Readers of the two get the same bit at each step, and come to the end together. -/
def ReadAlike (m m' : Bitmap) : Prop :=
  ∀ k, (m.cursor.advance k).next.1 = (m'.cursor.advance k).next.1

theorem Holds.readAlike_iff (h : m.Holds l) (h' : m'.Holds l') : m.ReadAlike m' ↔ l = l' := by
  simp only [ReadAlike, h.shows.next, h'.shows.next]
  exact List.ext_getElem?_iff.symm

/-! ## Stray ones -/

theorem stray_allTrue_iff : (allTrue n).Stray i ↔ n ≤ i ∧ i < 8 * byteCount n := by
  have hsize : (allTrue n).bytes.size = byteCount n := full_allTrue n
  refine and_congr_right fun _ => ⟨?_, get?_allTrue⟩
  intro hone
  exact hsize ▸ lt_of_get?_eq_some hone

theorem forall_stray_allTrue_iff (hpart : n % 8 ≠ 0) {k : Nat} :
    (∀ i, (allTrue n).Stray i → i < n + k) ↔ 8 - n % 8 ≤ k := by
  simp only [stray_allTrue_iff, byteCount]
  constructor
  · intro h
    have hlast := h (n + (7 - n % 8))
    omega
  · intro hk i hi
    omega

theorem not_stray_allFalse : ¬ (allFalse n).Stray i := by
  have hsize : (allFalse n).bytes.size = byteCount n := full_allFalse n
  rintro ⟨-, hone⟩
  rw [get?_allFalse (hsize ▸ lt_of_get?_eq_some hone)] at hone
  cases hone

theorem not_stray_empty : ¬ empty.Stray i := by
  rintro ⟨-, hone⟩
  cases hone

theorem stray_push_iff (hm : m.Full) : (m.push v).Stray i ↔ m.Stray i ∧ (m.push v).len ≤ i := by
  rw [Stray, Stray, len_push]
  constructor
  · rintro ⟨hi, hone⟩
    exact ⟨⟨by omega, (get?_push_of_gt hm v (by omega)).mp hone⟩, hi⟩
  · rintro ⟨⟨-, hone⟩, hi⟩
    exact ⟨hi, (get?_push_of_gt hm v (by omega)).mpr hone⟩

/-- A write that is within the length does not come to the padding. -/
theorem stray_set?_iff (hset : m.set? j v = some m') (hj : j < m.len) :
    m'.Stray i ↔ m.Stray i := by
  have hlen : m'.len = m.len := len_set? hset
  rw [Stray, Stray, hlen]
  refine and_congr_right fun hi => ?_
  rw [get?_set? hset, if_neg (by omega)]

/-! ## Calls within the length -/

/-- A write is to a place within the length. -/
def Op.Fits (m : Bitmap) : Op → Prop
  | push _ => True
  | set i _ => i < m.len

instance (m : Bitmap) : (op : Op) → Decidable (op.Fits m)
  | .push _ => .isTrue trivial
  | .set i _ => inferInstanceAs (Decidable (i < m.len))

/-- Each call is within the length that it finds. -/
def Fit (m : Bitmap) : List Op → Prop
  | [] => True
  | op :: ops => op.Fits m ∧ Fit (m.apply op) ops

instance decidableFit (m : Bitmap) : (ops : List Op) → Decidable (m.Fit ops)
  | [] => .isTrue trivial
  | op :: ops =>
    have := decidableFit (m.apply op) ops
    inferInstanceAs (Decidable (op.Fits m ∧ (m.apply op).Fit ops))

/-- A push among the calls puts its bit at the place. -/
def Overwrites (m : Bitmap) : List Op → Nat → Prop
  | [], _ => False
  | .push v :: ops, i => i = m.len ∨ Overwrites (m.push v) ops i
  | .set j v :: ops, i => Overwrites (m.apply (.set j v)) ops i

def pushes : List Op → Nat
  | [] => 0
  | .push _ :: ops => pushes ops + 1
  | .set _ _ :: ops => pushes ops

theorem run_cons (m : Bitmap) (op : Op) (ops : List Op) :
    m.run (op :: ops) = (m.apply op).run ops := rfl

theorem len_apply_set (m : Bitmap) (i : Nat) (v : Bool) : (m.apply (.set i v)).len = m.len := by
  rcases hset : m.set? i v with _ | m'
  · rw [Bitmap.apply, hset, Option.getD_none]
  · rw [Bitmap.apply, hset, Option.getD_some, len_set? hset]

theorem len_run (m : Bitmap) (ops : List Op) : (m.run ops).len = m.len + pushes ops := by
  induction ops generalizing m with
  | nil => rfl
  | cons op ops ih =>
    cases op with
    | push v =>
      rw [run_cons, ih, Bitmap.apply, len_push, pushes]
      omega
    | set i v => rw [run_cons, ih, len_apply_set, pushes]

/-- The pushes go to the places from the length on, one after another. -/
theorem overwrites_iff : m.Overwrites ops i ↔ m.len ≤ i ∧ i < (m.run ops).len := by
  rw [len_run]
  induction ops generalizing m with
  | nil => simp [Overwrites, pushes]
  | cons op ops ih =>
    cases op with
    | push v =>
      rw [Overwrites, ih, len_push, pushes]
      omega
    | set j v => rw [Overwrites, ih, len_apply_set, pushes]

theorem Holds.stray_apply_iff (h : m.Holds l) (hfits : op.Fits m) :
    (m.apply op).Stray i ↔ m.Stray i ∧ (m.apply op).len ≤ i := by
  cases op with
  | push v => exact stray_push_iff h.full
  | set j v =>
    have hbyte := div_lt_size h.full hfits
    rw [len_apply_set]
    rcases hset : m.set? j v with _ | m'
    · exact absurd (set?_eq_none_iff.mp hset) (not_le.mpr hbyte)
    · rw [Bitmap.apply, hset, Option.getD_some, stray_set?_iff hset hfits]
      exact (and_iff_left_of_imp And.left).symm

/-- What is stray after the calls is what was before and is still past the length. -/
theorem Holds.stray_run_iff (h : m.Holds l) (hfit : m.Fit ops) :
    (m.run ops).Stray i ↔ m.Stray i ∧ (m.run ops).len ≤ i := by
  induction ops generalizing m l with
  | nil => exact (and_iff_left_of_imp And.left).symm
  | cons op ops ih =>
    obtain ⟨hfits, hrest⟩ := hfit
    -- the length never falls, so what is past it at the end was past it at each call
    have hgrows : (m.apply op).len ≤ ((m.apply op).run ops).len := by
      rw [len_run]
      omega
    rw [run_cons, ih (h.apply op) hrest, h.stray_apply_iff hfits, and_assoc]
    exact and_congr_right fun _ => and_iff_right_of_imp hgrows.trans

theorem fit_pushes (m : Bitmap) (bits : List Bool) : m.Fit (bits.map .push) := by
  induction bits generalizing m with
  | nil => trivial
  | cons v bits ih => exact ⟨trivial, ih (m.push v)⟩

theorem ofList_eq_run (bits : List Bool) : ofList bits = empty.run (bits.map .push) :=
  (List.foldl_map (f := Op.push) (g := apply)).symm

theorem not_stray_ofList (bits : List Bool) : ¬ (ofList bits).Stray i := by
  rw [ofList_eq_run, holds_empty.stray_run_iff (fit_pushes empty bits)]
  exact fun h => not_stray_empty h.1

/-! ## Histories -/

/-- The ways to start without a stray one. All-true bits leave none only in whole bytes. -/
def Start.Bare : Start → Prop
  | allTrue n => n % 8 = 0
  | _ => True

theorem Start.Bare.not_stray {start : Start} (h : start.Bare) : ¬ start.bitmap.Stray i := by
  cases start with
  | empty => exact not_stray_empty
  | allFalse n => exact not_stray_allFalse
  | ofList bits => exact not_stray_ofList bits
  | allTrue n =>
    have hwhole : n % 8 = 0 := h
    rw [Start.bitmap, stray_allTrue_iff, byteCount]
    omega

/-- How a bitmap came about: from a start, by calls within the length. -/
structure History where
  start : Start
  ops : List Op
  fit : start.bitmap.Fit ops

namespace History

def bitmap (h : History) : Bitmap := h.start.bitmap.run h.ops

def bits (h : History) : List Bool := bitsAfter h.start.bits h.ops

/-- A list of bits put in one after another. -/
def ofBits (l : List Bool) : History := ⟨.ofList l, [], trivial⟩

variable (h h' : History)

theorem holds : h.bitmap.Holds h.bits := (holds_start h.start).run h.ops

theorem readAlike_iff : h.bitmap.ReadAlike h'.bitmap ↔ h.bits = h'.bits :=
  h.holds.readAlike_iff h'.holds

theorem stray_iff : h.bitmap.Stray i ↔ h.start.bitmap.Stray i ∧ h.bitmap.len ≤ i :=
  (holds_start h.start).stray_run_iff h.fit

/-- Bitmaps that read alike are equal as soon as they are past the places where only one of their
starts had a one. -/
theorem eq_iff :
    h.bitmap = h'.bitmap ↔ h.bitmap.ReadAlike h'.bitmap ∧
      ∀ i, h.bitmap.len ≤ i → (h.start.bitmap.Stray i ↔ h'.start.bitmap.Stray i) := by
  rw [h.holds.eq_iff h'.holds, readAlike_iff]
  refine and_congr_right fun hbits => forall_congr' fun i => ?_
  have hlen : h.bitmap.len = h'.bitmap.len := by rw [h.holds.len_eq, h'.holds.len_eq, hbits]
  rw [stray_iff, stray_iff, ← hlen, and_congr_left_iff]

/-- Beside one that has no stray ones, those of the start have to be gone. -/
theorem eq_iff_of_bare {h' : History} (hbare : h'.start.Bare)
    (halike : h.bitmap.ReadAlike h'.bitmap) :
    h.bitmap = h'.bitmap ↔ ∀ i, h.start.bitmap.Stray i → i < h.bitmap.len := by
  rw [eq_iff, and_iff_right halike]
  refine forall_congr' fun i => ?_
  rw [iff_false_right hbare.not_stray, ← not_lt, not_imp_not]

theorem clear (hbare : h.start.Bare) : h.bitmap.Clear := by
  rw [clear_iff]
  intro i
  rw [stray_iff]
  exact fun hi => hbare.not_stray hi.1

end History

/-- Bitmaps that calls within the length lead to have zeros in the padding, unless all-true bits
left ones there at the start. Without such a start they are equal just where they read alike. With
one, a bitmap is equal to those that read like it and have none just when pushes have come to each
place where there was a one, which takes as many of them as the last byte had bits left. -/
theorem run_compares :
    (∀ h : History, h.start.Bare → h.bitmap.Clear) ∧
    (∀ h h' : History, h.start.Bare → h'.start.Bare →
      (h.bitmap == h'.bitmap ↔ h.bitmap.ReadAlike h'.bitmap)) ∧
    ∀ (n : Nat) (ops : List Op), n % 8 ≠ 0 → (allTrue n).Fit ops →
      (∃ h : History, h.start.Bare ∧ ((allTrue n).run ops).ReadAlike h.bitmap) ∧
      ∀ h : History, h.start.Bare → ((allTrue n).run ops).ReadAlike h.bitmap →
        ((allTrue n).run ops == h.bitmap ↔
          ∀ i, (allTrue n).Stray i → (allTrue n).Overwrites ops i) ∧
        ((allTrue n).run ops == h.bitmap ↔ 8 - n % 8 ≤ pushes ops) := by
  refine ⟨History.clear, ?_, ?_⟩
  · intro h h' hbare hbare'
    rw [beq_iff_eq, h.eq_iff h']
    exact and_iff_left fun i _ => iff_of_false hbare.not_stray hbare'.not_stray
  · intro n ops hpart hfit
    let ones : History := ⟨.allTrue n, ops, hfit⟩
    refine ⟨⟨.ofBits ones.bits, trivial, (ones.readAlike_iff _).mpr rfl⟩, ?_⟩
    intro h hbare halike
    have hequal : (allTrue n).run ops = h.bitmap ↔
        ∀ i, (allTrue n).Stray i → i < ((allTrue n).run ops).len :=
      ones.eq_iff_of_bare hbare halike
    have hlen : ((allTrue n).run ops).len = n + pushes ops := len_run (allTrue n) ops
    rw [beq_iff_eq, hequal]
    constructor
    · refine forall₂_congr fun i hi => ?_
      rw [overwrites_iff]
      exact (and_iff_right hi.1).symm
    · rw [hlen, forall_stray_allTrue_iff hpart]

/-- Six all-true bits have two stray ones behind them, and only the second push makes the bitmap
equal to one that was put together from a list. One that was put together in another order is equal
from the start. -/
theorem run_compares_takenIn :
    let ops : List Op := [.push true, .set 2 false]
    let l := [true, true, false, true, true, true, true]
    let turned : History :=
      ⟨.allFalse 6, [.set 3 true, .push true, .set 1 true, .set 0 true, .set 2 true, .set 5 true,
        .set 4 true, .set 2 false], by decide⟩
    (allTrue 6).Fit (ops ++ [.push false]) ∧
      ((allTrue 6).run ops == (History.ofBits l).bitmap) = false ∧
      ((allTrue 6).run (ops ++ [.push false]) == (History.ofBits (l ++ [false])).bitmap) = true ∧
      (turned.bitmap == (History.ofBits l).bitmap) = true ∧ turned.bitmap.Clear := by
  intro ops l turned
  obtain ⟨hclear, hequal, hones⟩ := run_compares
  have halike : ∀ (ops : List Op) (l : List Bool), bitsAfter (List.replicate 6 true) ops = l →
      ((allTrue 6).run ops).ReadAlike (History.ofBits l).bitmap :=
    fun ops l hl => (((holds_allTrue 6).run ops).readAlike_iff (History.ofBits l).holds).mpr hl
  have hbefore := (hones 6 ops (by decide) (by decide)).2 (.ofBits l) trivial
    (halike ops l (by decide))
  have hafter := (hones 6 (ops ++ [.push false]) (by decide) (by decide)).2
    (.ofBits (l ++ [false])) trivial (halike _ _ (by decide))
  refine ⟨by decide, ?_, hafter.2.mpr (by decide), ?_, hclear turned trivial⟩
  · exact Bool.eq_false_iff.mpr fun h => absurd (hbefore.2.mp h) (by decide)
  · exact (hequal turned (.ofBits l) trivial trivial).mpr
      ((turned.readAlike_iff _).mpr (by decide))

end Earliest.Bitmap
