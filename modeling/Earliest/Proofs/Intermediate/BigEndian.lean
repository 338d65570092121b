import Mathlib
import Earliest.FirstBy.BigEndian

/-! Big-endian bytes are base-256 numerals with the most significant digit first.
On a fixed number of bytes, writing and reading are inverse to each other, so a
number of that width has exactly one numeral. -/

namespace Earliest

/-- The bytes are the numeral of `n` in exactly `width` bytes. A negative `n` stands
in two's complement. -/
def IsNumeral (width : Nat) (n : Int) (b : Bytes) : Prop :=
  b.length = width ∧ ((Nat.ofDigits 256 (b.reverse.map UInt8.toNat) : Nat) : Int) = n % 256 ^ width

theorem foldl_eq_ofBigEndian (b : Bytes) (start : Nat) :
    b.foldl (fun n c => n * 256 + c.toNat) start = start * 256 ^ b.length + ofBigEndian b := by
  induction b generalizing start with
  | nil => simp [ofBigEndian]
  | cons x b ih =>
    have tail : ofBigEndian (x :: b) = x.toNat * 256 ^ b.length + ofBigEndian b := by
      rw [ofBigEndian, List.foldl_cons, ih, Nat.zero_mul, Nat.zero_add]
    rw [List.foldl_cons, ih, tail, List.length_cons]
    ring

theorem ofBigEndian_cons (x : UInt8) (b : Bytes) :
    ofBigEndian (x :: b) = x.toNat * 256 ^ b.length + ofBigEndian b := by
  rw [ofBigEndian, List.foldl_cons, foldl_eq_ofBigEndian, Nat.zero_mul, Nat.zero_add]

theorem ofBigEndian_eq_ofDigits (b : Bytes) :
    ofBigEndian b = Nat.ofDigits 256 (b.reverse.map UInt8.toNat) := by
  induction b with
  | nil => rfl
  | cons x b ih =>
    rw [ofBigEndian_cons, ih, List.reverse_cons, List.map_append, Nat.ofDigits_append]
    simp
    ring

theorem digit_lt {b : Bytes} {d : Nat} (h : d ∈ b.reverse.map UInt8.toNat) : d < 256 := by
  obtain ⟨x, -, rfl⟩ := List.mem_map.mp h
  exact x.toNat_lt

theorem ofBigEndian_lt (b : Bytes) : ofBigEndian b < 256 ^ b.length := by
  rw [ofBigEndian_eq_ofDigits]
  simpa using Nat.ofDigits_lt_base_pow_length (by decide) fun _ => digit_lt (b := b)

theorem ofBigEndian_injective {b c : Bytes} (hl : b.length = c.length)
    (h : ofBigEndian b = ofBigEndian c) : b = c := by
  rw [ofBigEndian_eq_ofDigits, ofBigEndian_eq_ofDigits] at h
  have hd := Nat.ofDigits_inj_of_len_eq (by decide) (by simpa using hl) (fun _ => digit_lt)
    (fun _ => digit_lt) h
  exact List.reverse_injective (List.map_injective_iff.mpr (fun _ _ => UInt8.toNat_inj.mp) hd)

theorem ofBigEndian_bigEndian (width n : Nat) :
    ofBigEndian (bigEndian width n) = n % 256 ^ width := by
  induction width with
  | zero => simp [bigEndian, ofBigEndian, Nat.mod_one]
  | succ width ih =>
    rw [bigEndian, ofBigEndian_cons, ih, length_bigEndian, UInt8.toNat_ofNat',
      Nat.shiftRight_eq_div_pow, Nat.pow_mul, show 2 ^ 8 = 256 from rfl, Nat.pow_succ 256,
      Nat.mod_mul]
    ring

theorem bigEndian_ofBigEndian (b : Bytes) : bigEndian b.length (ofBigEndian b) = b := by
  apply ofBigEndian_injective (length_bigEndian _ _)
  rw [ofBigEndian_bigEndian, Nat.mod_eq_of_lt (ofBigEndian_lt b)]

/-- The only numeral of a number is the one that is written. -/
theorem isNumeral_iff {width n : Nat} (hn : n < 256 ^ width) {b : Bytes} {i : Int}
    (hi : (n : Int) = i % 256 ^ width) : IsNumeral width i b ↔ b = bigEndian width n := by
  rw [IsNumeral, ← hi, ← ofBigEndian_eq_ofDigits, Int.natCast_inj]
  constructor
  · rintro ⟨rfl, rfl⟩
    exact (bigEndian_ofBigEndian b).symm
  · rintro rfl
    exact ⟨length_bigEndian _ _, by rw [ofBigEndian_bigEndian, Nat.mod_eq_of_lt hn]⟩

theorem bits_lt (width : Nat) (x : BitVec (8 * width)) : x.toNat < 256 ^ width := by
  simpa [Nat.pow_mul] using x.isLt

theorem isNumeral_toNat_iff (width : Nat) (x : BitVec (8 * width)) {b : Bytes} :
    IsNumeral width x.toNat b ↔ b = bigEndian width x.toNat := by
  refine isNumeral_iff (bits_lt width x) ?_
  rw [Int.emod_eq_of_lt (Int.natCast_nonneg _) (by exact_mod_cast bits_lt width x)]

/-- The numeral of a signed number is that of its bits. -/
theorem isNumeral_toInt_iff (width : Nat) (x : BitVec (8 * width)) {b : Bytes} :
    IsNumeral width x.toInt b ↔ b = bigEndian width x.toNat := by
  refine isNumeral_iff (bits_lt width x) ?_
  have hp : (256 ^ width : Int) = ((2 ^ (8 * width) : Nat) : Int) := by
    rw [Nat.pow_mul]
    norm_num
  rw [BitVec.toInt_eq_toNat_bmod, hp, Int.bmod_emod,
    Int.emod_eq_of_lt (Int.natCast_nonneg _) (by exact_mod_cast x.isLt)]

end Earliest
