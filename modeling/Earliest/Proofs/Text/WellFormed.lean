import Earliest.Proofs.Text.Utf8

/-! Well-formed UTF-8, said without a reader. Each character is a number in the fewest bytes that
can carry it, the number is no surrogate and not above U+10FFFF, and no character is cut. Just such
bytes are what some text is written as. Where bytes are refused, the defect tells the longest part
in front that is well formed: what can be read is read in the same way whatever follows it. -/

namespace Earliest.Utf8

variable {c : Char} {chars : List Char} {bytes front rest : List UInt8} {n valid : Nat} {d : Defect}

/-! ## Characters -/

/-- A byte of each kind, with the bits that it carries. -/
def Byte (mark width : Nat) (b : UInt8) (bits : Nat) : Prop :=
  b.toNat = mark + bits ∧ bits < 2 ^ width

/-- Bytes that carry a number: the lead byte has the top bits, and each byte after it six more. -/
inductive Carries : List UInt8 → Nat → Prop
  | one {w : UInt8} {n : Nat} (hw : Byte 0 7 w n) : Carries [w] n
  | two {w x : UInt8} {top m : Nat} (hw : Byte 0xC0 5 w top) (hx : Byte 0x80 6 x m) :
      Carries [w, x] (top * 64 + m)
  | three {w x y : UInt8} {top m n : Nat} (hw : Byte 0xE0 4 w top) (hx : Byte 0x80 6 x m)
      (hy : Byte 0x80 6 y n) : Carries [w, x, y] ((top * 64 + m) * 64 + n)
  | four {w x y z : UInt8} {top l m n : Nat} (hw : Byte 0xF0 3 w top) (hx : Byte 0x80 6 x l)
      (hy : Byte 0x80 6 y m) (hz : Byte 0x80 6 z n) :
      Carries [w, x, y, z] (((top * 64 + l) * 64 + m) * 64 + n)

/-- The least number that does not fit fewer bytes. -/
def least : (bytes : Nat) → Nat
  | 0 | 1 => 0
  | 2 => 0x80
  | 3 => 0x800
  | _ => 0x10000

/-- One character: its number is not overlong, no surrogate and not too large. -/
def IsChar (bytes : List UInt8) : Prop :=
  ∃ n, Carries bytes n ∧ least bytes.length ≤ n ∧ ¬ (0xD800 ≤ n ∧ n ≤ 0xDFFF) ∧ n ≤ 0x10FFFF

inductive WellFormed : List UInt8 → Prop
  | nil : WellFormed []
  | cons {char rest : List UInt8} (h : IsChar char) (hrest : WellFormed rest) :
      WellFormed (char ++ rest)

theorem carries_utf8EncodeChar (c : Char) :
    Carries (String.utf8EncodeChar c) c.toNat ∧
      least (String.utf8EncodeChar c).length ≤ c.toNat := by
  have hvalid : c.toNat < 0xD800 ∨ 0xDFFF < c.toNat ∧ c.toNat < 0x110000 := c.valid
  obtain ⟨w, hc⟩ | ⟨w, x, hc⟩ | ⟨w, x, y, hc⟩ | ⟨w, x, y, z, hc⟩ := utf8EncodeChar_cases c <;>
    rw [hc]
  · rw [utf8EncodeChar_eq_one_iff] at hc
    exact ⟨.one ⟨by omega, by omega⟩, Nat.zero_le _⟩
  · rw [utf8EncodeChar_eq_two_iff] at hc
    have h : Carries [w, x] (c.toNat / 64 * 64 + c.toNat % 64) :=
      .two ⟨by omega, by omega⟩ ⟨by omega, by omega⟩
    rw [show c.toNat / 64 * 64 + c.toNat % 64 = c.toNat by omega] at h
    exact ⟨h, hc.1.1⟩
  · rw [utf8EncodeChar_eq_three_iff] at hc
    have h : Carries [w, x, y] ((c.toNat / 4096 * 64 + c.toNat / 64 % 64) * 64 + c.toNat % 64) :=
      .three ⟨by omega, by omega⟩ ⟨by omega, by omega⟩ ⟨by omega, by omega⟩
    rw [show (c.toNat / 4096 * 64 + c.toNat / 64 % 64) * 64 + c.toNat % 64 = c.toNat by omega] at h
    exact ⟨h, hc.1.1⟩
  · rw [utf8EncodeChar_eq_four_iff] at hc
    have h : Carries [w, x, y, z] (((c.toNat / 262144 * 64 + c.toNat / 4096 % 64) * 64 +
        c.toNat / 64 % 64) * 64 + c.toNat % 64) :=
      .four ⟨by omega, by omega⟩ ⟨by omega, by omega⟩ ⟨by omega, by omega⟩ ⟨by omega, by omega⟩
    rw [show ((c.toNat / 262144 * 64 + c.toNat / 4096 % 64) * 64 + c.toNat / 64 % 64) * 64 +
        c.toNat % 64 = c.toNat by omega] at h
    exact ⟨h, hc.1⟩

theorem isChar_iff : IsChar bytes ↔ ∃ c, String.utf8EncodeChar c = bytes := by
  constructor
  · rintro ⟨n, hcarries, hleast, hsurrogate, hmax⟩
    have hvalid : n < 0xD800 ∨ 0xDFFF < n ∧ n < 0x110000 := by omega
    have hn : (Char.ofNat n).toNat = n := (charOfNat_eq_iff hvalid).mp rfl
    refine ⟨Char.ofNat n, ?_⟩
    rcases hcarries with ⟨hw⟩ | ⟨hw, hx⟩ | ⟨hw, hx, hy⟩ | ⟨hw, hx, hy, hz⟩ <;>
      simp only [Byte, least, List.length_cons, List.length_nil] at *
    · rw [utf8EncodeChar_eq_one_iff]
      omega
    · rw [utf8EncodeChar_eq_two_iff]
      omega
    · rw [utf8EncodeChar_eq_three_iff]
      omega
    · rw [utf8EncodeChar_eq_four_iff]
      omega
  · rintro ⟨c, rfl⟩
    have hvalid : c.toNat < 0xD800 ∨ 0xDFFF < c.toNat ∧ c.toNat < 0x110000 := c.valid
    obtain ⟨hcarries, hleast⟩ := carries_utf8EncodeChar c
    exact ⟨c.toNat, hcarries, hleast, by omega, by omega⟩

/-! ## Texts -/

theorem wellFormed_iff_flatMap :
    WellFormed bytes ↔ ∃ chars : List Char, chars.flatMap String.utf8EncodeChar = bytes := by
  constructor
  · intro h
    induction h with
    | nil => exact ⟨[], rfl⟩
    | cons hchar _ ih =>
      obtain ⟨c, rfl⟩ := isChar_iff.mp hchar
      obtain ⟨chars, rfl⟩ := ih
      exact ⟨c :: chars, List.flatMap_cons⟩
  · rintro ⟨chars, rfl⟩
    induction chars with
    | nil => exact .nil
    | cons c chars ih =>
      rw [List.flatMap_cons]
      exact .cons (isChar_iff.mpr ⟨c, rfl⟩) ih

theorem wellFormed_iff : WellFormed bytes ↔ ∃ s, encode s = bytes := by
  rw [wellFormed_iff_flatMap]
  constructor
  · rintro ⟨chars, h⟩
    exact ⟨String.ofList chars, by rw [encode, String.toList_ofList, h]⟩
  · rintro ⟨s, h⟩
    exact ⟨s.toList, h⟩

/-! ## Defects -/

/-- The longest part in front that is well formed takes so many bytes. -/
structure LongestPrefix (n : Nat) (bytes : List UInt8) : Prop where
  le : n ≤ bytes.length
  wellFormed : WellFormed (bytes.take n)
  longest : ∀ m ≤ bytes.length, WellFormed (bytes.take m) → m ≤ n

/-- A defect stands right behind a part that is read. -/
theorem exists_of_read_error (h : read valid bytes = .error d) :
    ∃ (chars : List Char) (rest : List UInt8),
      bytes = chars.flatMap String.utf8EncodeChar ++ rest ∧
        d.valid = valid + (chars.flatMap String.utf8EncodeChar).length := by
  induction valid, bytes using read.induct with
  | case1 valid =>
    rw [read] at h
    cases h
  | case2 valid w bytes c rest hstep later hrest ih =>
    rw [read_of_step hstep, hrest] at h
    cases h
  | case3 valid w bytes c rest hstep d' hrest ih =>
    rw [read_of_step hstep, hrest] at h
    cases h
    obtain ⟨chars, rest', rfl, hvalid⟩ := ih hrest
    refine ⟨c :: chars, rest', ?_, ?_⟩
    · rw [step_eq_char_iff.mp hstep, List.flatMap_cons, List.append_assoc]
    · rw [hvalid, List.flatMap_cons, List.length_append, String.length_utf8EncodeChar,
        Nat.add_assoc]
  | case4 valid w bytes n hstep | case5 valid w bytes hstep =>
    rw [read] at h
    split at h
    · rename_i hchar
      cases hstep.symm.trans hchar
    · cases h
      exact ⟨[], w :: bytes, rfl, rfl⟩
    · cases h
      exact ⟨[], w :: bytes, rfl, rfl⟩

/-- The reader stops at the end of the longest part in front that is well formed. -/
theorem longestPrefix_of_decode (h : decode bytes = .error d) : LongestPrefix d.valid bytes := by
  have hread : read 0 bytes = .error d := by
    unfold decode at h
    rcases hread : read 0 bytes with d' | chars
    · rw [hread] at h
      cases h
      rfl
    · rw [hread] at h
      cases h
  obtain ⟨chars, rest, rfl, hvalid⟩ := exists_of_read_error hread
  rw [Nat.zero_add] at hvalid
  refine ⟨?_, ?_, ?_⟩
  · rw [hvalid, List.length_append]
    exact Nat.le_add_right _ _
  · rw [hvalid, List.take_left]
    exact wellFormed_iff_flatMap.mpr ⟨chars, rfl⟩
  · intro m hm hwell
    obtain ⟨more, hmore⟩ := wellFormed_iff_flatMap.mp hwell
    -- The reader reads these too, so the defect is not in front of their end.
    have hsplit := List.take_append_drop m (chars.flatMap String.utf8EncodeChar ++ rest)
    rw [← hmore] at hsplit
    rw [← hsplit, read_flatMap_append] at hread
    rcases hlater : read (0 + (more.flatMap String.utf8EncodeChar).length)
      ((chars.flatMap String.utf8EncodeChar ++ rest).drop m) with d' | later
    · rw [hlater] at hread
      cases hread
      obtain ⟨_, _, -, hle⟩ := exists_of_read_error hlater
      have hlength : (more.flatMap String.utf8EncodeChar).length = m := by
        rw [hmore, List.length_take_of_le hm]
      omega
    · rw [hlater] at hread
      cases hread

theorem exists_decode_iff : (∃ s, decode bytes = .ok s) ↔ WellFormed bytes := by
  rw [wellFormed_iff]
  exact exists_congr fun s => decode_eq_ok_iff.trans eq_comm

end Earliest.Utf8
