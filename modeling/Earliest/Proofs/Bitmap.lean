import Mathlib
import Earliest.Bitmap

/-! A bitmap is a list of bits. Every operation keeps exactly the bytes that the bits take,
and on such a bitmap reads, writes and counts are those of the list, whatever stands in the
last byte past the length. -/

namespace Earliest.Bitmap

variable {m m' : Bitmap} {i j : Nat} {v : Bool}

/-- Exactly the bytes that the bits take. -/
def Full (m : Bitmap) : Prop := m.bytes.size = byteCount m.len

theorem full_empty : empty.Full := rfl

theorem full_allTrue (n : Nat) : (allTrue n).Full := by simp [Full, allTrue]

theorem full_allFalse (n : Nat) : (allFalse n).Full := by simp [Full, allFalse]

theorem Full.push (hm : m.Full) (v : Bool) : (m.push v).Full := by
  unfold Full byteCount at hm ⊢
  unfold Bitmap.push
  dsimp only
  split <;> simp only [Array.size_modify, Array.size_push] <;> omega

theorem len_push (m : Bitmap) (v : Bool) : (m.push v).len = m.len + 1 := rfl

theorem len_set? (h : m.set? i v = some m') : m'.len = m.len := by
  unfold Bitmap.set? at h
  split at h <;> cases h
  rfl

theorem Full.set? (hm : m.Full) (h : m.set? i v = some m') : m'.Full := by
  unfold Bitmap.set? at h
  split at h
  · cases h
    simpa [Full] using hm
  · cases h

/-! ## Reading -/

theorem div_lt_size (hm : m.Full) (h : i < m.len) : i / 8 < m.bytes.size := by
  unfold Full byteCount at hm
  omega

theorem exists_get? (hm : m.Full) (h : i < m.len) : ∃ b, m.get? i = some b := by
  rw [get?, Array.getElem?_eq_getElem (div_lt_size hm h)]
  exact ⟨_, rfl⟩

theorem get?_eq_none_iff : m.get? i = none ↔ m.bytes.size ≤ i / 8 := by
  rw [Bitmap.get?, Option.map_eq_none_iff, Array.getElem?_eq_none_iff]

theorem lt_of_get?_eq_some (h : m.get? i = some v) : i < 8 * m.bytes.size := by
  by_contra hi
  rw [get?_eq_none_iff.mpr (by omega)] at h
  cases h

theorem set?_eq_none_iff : m.set? i v = none ↔ m.bytes.size ≤ i / 8 := by
  unfold Bitmap.set?
  split
  · rename_i h
    exact iff_of_false nofun (not_le.mpr h)
  · rename_i h
    exact iff_of_true rfl (not_lt.mp h)

theorem lt_byteCount {n : Nat} (h : i < n) : i < 8 * byteCount n := by
  unfold byteCount
  omega

theorem get?_allTrue {n : Nat} (h : i < 8 * byteCount n) : (allTrue n).get? i = some true := by
  have hi : i / 8 < byteCount n := by omega
  have hones : ∀ k < 8, byteBit 0xFF k = true := by decide
  simp [get?, allTrue, hi, hones _ (Nat.mod_lt i (by decide))]

theorem get?_allFalse {n : Nat} (h : i < 8 * byteCount n) : (allFalse n).get? i = some false := by
  have hi : i / 8 < byteCount n := by omega
  simp [get?, allFalse, hi, byteBit]

/-- A write shows at its own place alone. -/
theorem get?_modify (bytes : Array UInt8) (hi : i / 8 < bytes.size) (v : Bool) (j : Nat) :
    ((bytes.modify (i / 8) (setByteBit · (i % 8) v))[j / 8]?).map (byteBit · (j % 8)) =
      if j = i then some v else (bytes[j / 8]?).map (byteBit · (j % 8)) := by
  rw [Array.getElem?_modify]
  by_cases hbyte : i / 8 = j / 8
  · rw [if_pos hbyte, ← hbyte, Array.getElem?_eq_getElem hi]
    simp only [Option.map_some]
    rw [byteBit_setByteBit _ _ (Nat.mod_lt i (by decide)) (Nat.mod_lt j (by decide))]
    have hij : j % 8 = i % 8 ↔ j = i := by omega
    by_cases hj : j = i <;> simp [hij, hj]
  · rw [if_neg hbyte, if_neg (by omega)]

theorem get?_set? (h : m.set? i v = some m') (j : Nat) :
    m'.get? j = if j = i then some v else m.get? j := by
  unfold set? at h
  split at h
  · rename_i hi
    cases h
    exact get?_modify m.bytes hi v j
  · cases h

/-- The byte that a new bit goes to is there. -/
theorem div_lt_size_room (hm : m.Full) :
    m.len / 8 < (if m.len = m.bytes.size * 8 then m.bytes.push 0 else m.bytes).size := by
  unfold Full byteCount at hm
  split
  · rw [Array.size_push]
    omega
  · omega

theorem get?_push_self (hm : m.Full) (v : Bool) : (m.push v).get? m.len = some v := by
  have h := get?_modify _ (div_lt_size_room hm) v m.len
  rwa [if_pos rfl] at h

theorem get?_push_of_lt (hm : m.Full) (v : Bool) (h : i < m.len) :
    (m.push v).get? i = m.get? i := by
  have hi := div_lt_size hm h
  have hne : i ≠ m.len := by omega
  have hp := get?_modify _ (div_lt_size_room hm) v i
  rw [if_neg hne] at hp
  refine hp.trans ?_
  split
  · rw [Array.getElem?_push_lt hi, get?, Array.getElem?_eq_getElem hi]
  · rfl

/-- A byte that is added for the new bit is a zero, so past the new bit no ones come with it. -/
theorem get?_push_of_gt (hm : m.Full) (v : Bool) (h : m.len < i) :
    (m.push v).get? i = some true ↔ m.get? i = some true := by
  have hne : i ≠ m.len := by omega
  have hp := get?_modify _ (div_lt_size_room hm) v i
  rw [if_neg hne] at hp
  rw [show (m.push v).get? i = _ from hp]
  split
  · rw [get?_eq_none_iff.mpr (by omega), Array.getElem?_push]
    split
    · simp [byteBit]
    · rw [Array.getElem?_eq_none (by omega)]
      rfl
  · rfl

theorem length_toList (m : Bitmap) : m.toList.length = m.len := by simp [toList]

theorem getElem?_toList (m : Bitmap) (h : i < m.len) :
    m.toList[i]? = some ((m.get? i).getD false) := by
  simp [toList, h]

theorem toList_push (hm : m.Full) (v : Bool) : (m.push v).toList = m.toList ++ [v] := by
  rw [toList, len_push, List.range_succ, List.map_append, List.map_singleton, get?_push_self hm,
    Option.getD_some]
  congr 1
  apply List.map_congr_left
  intro i hi
  rw [get?_push_of_lt hm v (List.mem_range.mp hi)]

/-! ## Counting -/

/-- The bit at `i` of a list of bytes. -/
def bitAt (bytes : List UInt8) (i : Nat) : Bool :=
  ((bytes[i / 8]?).map (byteBit · (i % 8))).getD false

theorem toList_eq_map_bitAt (m : Bitmap) :
    m.toList = (List.range m.len).map (bitAt m.bytes.toList) := by
  simp [toList, get?, bitAt]

theorem countP_range_add (p : Nat → Bool) (n k : Nat) :
    (List.range (n + k)).countP p =
      (List.range n).countP p + (List.range k).countP fun i => p (n + i) := by
  rw [List.range_add, List.countP_append, List.countP_map]
  rfl

theorem bitAt_cons_add (b : UInt8) (bytes : List UInt8) (i : Nat) :
    bitAt (b :: bytes) (8 + i) = bitAt bytes i := by
  have hd : (8 + i) / 8 = i / 8 + 1 := by omega
  have hm : (8 + i) % 8 = i % 8 := by omega
  rw [bitAt, hd, hm, List.getElem?_cons_succ, bitAt]

theorem bitAt_cons_of_lt (b : UInt8) (bytes : List UInt8) (h : i < 8) :
    bitAt (b :: bytes) i = byteBit b i := by
  rw [bitAt, Nat.div_eq_of_lt h, Nat.mod_eq_of_lt h]
  rfl

theorem countP_bitAt_cons (b : UInt8) (bytes : List UInt8) {n : Nat} (hn : n ≤ 8) :
    (List.range n).countP (bitAt (b :: bytes)) = countBits b n := by
  apply List.countP_congr
  intro i hi
  rw [bitAt_cons_of_lt b bytes ((List.mem_range.mp hi).trans_le hn)]

/-- Whole bytes count in full, however many bytes follow them. -/
theorem countP_bitAt_append (bytes rest : List UInt8) (n : Nat) :
    (List.range (8 * bytes.length + n)).countP (bitAt (bytes ++ rest)) =
      (bytes.map (countBits · 8)).sum + (List.range n).countP (bitAt rest) := by
  induction bytes with
  | nil => simp
  | cons b bytes ih =>
    have hlen : 8 * (b :: bytes).length + n = 8 + (8 * bytes.length + n) := by
      rw [List.length_cons]
      omega
    have htail : (fun i => bitAt (b :: (bytes ++ rest)) (8 + i)) = bitAt (bytes ++ rest) :=
      funext fun i => bitAt_cons_add b (bytes ++ rest) i
    rw [hlen, countP_range_add, List.cons_append, countP_bitAt_cons _ _ le_rfl, htail, ih,
      List.map_cons, List.sum_cons, Nat.add_assoc]

theorem foldl_countBits (bytes : List UInt8) (n : Nat) :
    bytes.foldl (fun n b => n + countBits b 8) n = n + (bytes.map (countBits · 8)).sum := by
  induction bytes generalizing n with
  | nil => rfl
  | cons b bytes ih => rw [List.foldl_cons, ih, List.map_cons, List.sum_cons, Nat.add_assoc]

theorem countTrues_eq (hm : m.Full) : m.countTrues = m.toList.count true := by
  have hcount : m.toList.count true = (List.range m.len).countP (bitAt m.bytes.toList) := by
    rw [toList_eq_map_bitAt, List.count_eq_countP, List.countP_map]
    exact List.countP_congr fun i _ => by simp
  unfold Full byteCount at hm
  rw [hcount, countTrues, ← Array.foldl_toList, ← Array.getLast?_toList, foldl_countBits]
  rcases List.eq_nil_or_concat m.bytes.toList with hnil | ⟨init, last, hlast⟩
  · have hlen : m.len = 0 := by
      have : m.bytes.size = 0 := by simpa using congrArg List.length hnil
      omega
    simp [hnil, hlen]
  · have hsize : m.bytes.size = init.length + 1 := by simpa using congrArg List.length hlast
    rw [hlast, List.concat_eq_append]
    rcases Nat.eq_zero_or_pos (m.len % 8) with hr | hr
    · have hlen : m.len = 8 * (init ++ [last]).length + 0 := by
        rw [List.length_append, List.length_singleton]
        omega
      have hall := countP_bitAt_append (init ++ [last]) [] 0
      rw [List.append_nil, ← hlen] at hall
      simp [hr, hall]
    · have hlen : m.len = 8 * init.length + m.len % 8 := by omega
      have hall := countP_bitAt_append init [last] (m.len % 8)
      rw [← hlen, countP_bitAt_cons last [] (by omega)] at hall
      obtain ⟨used, hused⟩ : ∃ used, m.len % 8 = used + 1 := ⟨m.len % 8 - 1, by omega⟩
      simp [hused] at hall ⊢
      omega

theorem isAllTrue_iff (hm : m.Full) : m.isAllTrue = true ↔ ∀ b ∈ m.toList, b = true := by
  rw [isAllTrue, countTrues_eq hm, beq_iff_eq, ← length_toList, List.count_eq_length]
  exact forall₂_congr fun _ _ => eq_comm

end Earliest.Bitmap
