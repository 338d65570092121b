import Mathlib
import Earliest.Text.Utf8

/-! Reading UTF-8 is the inverse of writing it. One step of the reader takes a character exactly
when the bytes in front are those that the character is written as, and so the accepted bytes are
those of texts, each read as the text it is. -/

namespace Earliest.Utf8

variable {c : Char} {w x y z : UInt8} {rest bytes : List UInt8} {n valid : Nat} {s : String}

/-! ## What a character is written as -/

theorem ofNat_eq_iff (h : n < 256) : UInt8.ofNat n = x ↔ x.toNat = n := by
  rw [← UInt8.toNat_inj, UInt8.toNat_ofNat_of_lt' h]
  exact eq_comm

theorem utf8EncodeChar_eq_one_iff :
    String.utf8EncodeChar c = [w] ↔ c.toNat < 0x80 ∧ w.toNat = c.toNat := by
  unfold String.utf8EncodeChar
  dsimp only
  rw [Char.toNat_val]
  split_ifs
  · rw [List.cons.injEq, ofNat_eq_iff (by omega)]
    simp
    omega
  all_goals
    simp
    omega

theorem utf8EncodeChar_eq_two_iff :
    String.utf8EncodeChar c = [w, x] ↔ (0x80 ≤ c.toNat ∧ c.toNat < 0x800) ∧
      w.toNat = 0xC0 + c.toNat / 64 ∧ x.toNat = 0x80 + c.toNat % 64 := by
  unfold String.utf8EncodeChar
  dsimp only
  rw [Char.toNat_val]
  split_ifs
  · simp
    omega
  · rw [List.cons.injEq, List.cons.injEq, ofNat_eq_iff (by omega), ofNat_eq_iff (by omega)]
    simp
    omega
  all_goals
    simp
    omega

theorem utf8EncodeChar_eq_three_iff :
    String.utf8EncodeChar c = [w, x, y] ↔ (0x800 ≤ c.toNat ∧ c.toNat < 0x10000) ∧
      w.toNat = 0xE0 + c.toNat / 4096 ∧ x.toNat = 0x80 + c.toNat / 64 % 64 ∧
      y.toNat = 0x80 + c.toNat % 64 := by
  unfold String.utf8EncodeChar
  dsimp only
  rw [Char.toNat_val]
  split_ifs
  · simp
    omega
  · simp
    omega
  · rw [List.cons.injEq, List.cons.injEq, List.cons.injEq, ofNat_eq_iff (by omega),
      ofNat_eq_iff (by omega), ofNat_eq_iff (by omega)]
    simp
    omega
  · simp
    omega

theorem utf8EncodeChar_eq_four_iff :
    String.utf8EncodeChar c = [w, x, y, z] ↔ 0x10000 ≤ c.toNat ∧
      w.toNat = 0xF0 + c.toNat / 262144 ∧ x.toNat = 0x80 + c.toNat / 4096 % 64 ∧
      y.toNat = 0x80 + c.toNat / 64 % 64 ∧ z.toNat = 0x80 + c.toNat % 64 := by
  have hchar : c.toNat < 0xD800 ∨ 0xDFFF < c.toNat ∧ c.toNat < 0x110000 := c.valid
  unfold String.utf8EncodeChar
  dsimp only
  rw [Char.toNat_val]
  split_ifs
  · simp
    omega
  · simp
    omega
  · simp
    omega
  · rw [List.cons.injEq, List.cons.injEq, List.cons.injEq, List.cons.injEq,
      ofNat_eq_iff (by omega), ofNat_eq_iff (by omega), ofNat_eq_iff (by omega),
      ofNat_eq_iff (by omega)]
    simp
    omega

/-- A character takes one to four bytes. -/
theorem utf8EncodeChar_cases (c : Char) :
    (∃ w, String.utf8EncodeChar c = [w]) ∨ (∃ w x, String.utf8EncodeChar c = [w, x]) ∨
      (∃ w x y, String.utf8EncodeChar c = [w, x, y]) ∨
      ∃ w x y z, String.utf8EncodeChar c = [w, x, y, z] := by
  unfold String.utf8EncodeChar
  dsimp only
  split_ifs
  · exact .inl ⟨_, rfl⟩
  · exact .inr (.inl ⟨_, _, rfl⟩)
  · exact .inr (.inr (.inl ⟨_, _, _, rfl⟩))
  · exact .inr (.inr (.inr ⟨_, _, _, _, rfl⟩))

/-! ## One step of the reader -/

theorem continuation_iff : continuation x = true ↔ 0x80 ≤ x.toNat ∧ x.toNat ≤ 0xBF := by
  simp [continuation, UInt8.le_iff_toNat_le]

/-- Four lead bytes narrow the range of what may follow. -/
theorem second_iff :
    second w x = true ↔ (0x80 ≤ x.toNat ∧ x.toNat ≤ 0xBF) ∧ (w.toNat = 0xE0 → 0xA0 ≤ x.toNat) ∧
      (w.toNat = 0xED → x.toNat ≤ 0x9F) ∧ (w.toNat = 0xF0 → 0x90 ≤ x.toNat) ∧
      (w.toNat = 0xF4 → x.toNat ≤ 0x8F) := by
  unfold second
  simp only [← UInt8.toNat_inj, UInt8.reduceToNat]
  split_ifs <;> simp [UInt8.le_iff_toNat_le, continuation_iff] <;> omega

theorem charOfNat_eq_iff (h : n < 0xD800 ∨ 0xDFFF < n ∧ n < 0x110000) :
    Char.ofNat n = c ↔ c.toNat = n := by
  have hvalid : n.isValidChar := h
  rw [← Char.toNat_inj, Char.toNat_ofNat, if_pos hvalid]
  exact eq_comm

/-! Each check of a continuation byte admits just the bytes of the character that the reader then
makes: the ranges after the four lead bytes leave out what no character is written as. -/

theorem second_and_scalar_iff_two (hw : 0xC2 ≤ w.toNat ∧ w.toNat < 0xE0) :
    second w x = true ∧ scalar (w.toNat - 0xC0) [x] = c ↔ String.utf8EncodeChar c = [w, x] := by
  rw [second_iff, utf8EncodeChar_eq_two_iff, scalar, List.foldl_cons, List.foldl_nil]
  constructor
  · rintro ⟨hx, hc⟩
    rw [charOfNat_eq_iff (by omega)] at hc
    omega
  · rintro ⟨hc, hw, hx⟩
    rw [charOfNat_eq_iff (by omega)]
    omega

theorem second_and_scalar_iff_three (hw : 0xE0 ≤ w.toNat ∧ w.toNat < 0xF0) :
    (second w x = true ∧ continuation y = true) ∧ scalar (w.toNat - 0xE0) [x, y] = c ↔
      String.utf8EncodeChar c = [w, x, y] := by
  rw [second_iff, continuation_iff, utf8EncodeChar_eq_three_iff, scalar, List.foldl_cons,
    List.foldl_cons, List.foldl_nil]
  have hchar : c.toNat < 0xD800 ∨ 0xDFFF < c.toNat ∧ c.toNat < 0x110000 := c.valid
  constructor
  · rintro ⟨hx, hc⟩
    rw [charOfNat_eq_iff (by omega)] at hc
    omega
  · rintro ⟨hc, hw, hx, hy⟩
    rw [charOfNat_eq_iff (by omega)]
    omega

theorem second_and_scalar_iff_four (hw : 0xF0 ≤ w.toNat ∧ w.toNat < 0xF5) :
    (second w x = true ∧ continuation y = true ∧ continuation z = true) ∧
        scalar (w.toNat - 0xF0) [x, y, z] = c ↔ String.utf8EncodeChar c = [w, x, y, z] := by
  rw [second_iff, continuation_iff, continuation_iff, utf8EncodeChar_eq_four_iff, scalar,
    List.foldl_cons, List.foldl_cons, List.foldl_cons, List.foldl_nil]
  have hchar : c.toNat < 0xD800 ∨ 0xDFFF < c.toNat ∧ c.toNat < 0x110000 := c.valid
  constructor
  · rintro ⟨hx, hc⟩
    rw [charOfNat_eq_iff (by omega)] at hc
    omega
  · rintro ⟨hc, hw, hx, hy, hz⟩
    rw [charOfNat_eq_iff (by omega)]
    omega

theorem twoBytes_eq_char_iff (hw : 0xC2 ≤ w.toNat ∧ w.toNat < 0xE0) :
    twoBytes w bytes = .char c rest ↔
      ∃ x, bytes = x :: rest ∧ String.utf8EncodeChar c = [w, x] := by
  rcases bytes with _ | ⟨x, bytes⟩
  · simp [twoBytes]
  · rw [twoBytes]
    constructor
    · intro h
      split at h
      · rename_i hx
        cases h
        exact ⟨x, rfl, (second_and_scalar_iff_two hw).mp ⟨hx, rfl⟩⟩
      · cases h
    · rintro ⟨_, ⟨⟩, hc⟩
      obtain ⟨hx, rfl⟩ := (second_and_scalar_iff_two hw).mpr hc
      rw [if_pos hx]

theorem threeBytes_eq_char_iff (hw : 0xE0 ≤ w.toNat ∧ w.toNat < 0xF0) :
    threeBytes w bytes = .char c rest ↔
      ∃ x y, bytes = x :: y :: rest ∧ String.utf8EncodeChar c = [w, x, y] := by
  constructor
  · intro h
    unfold threeBytes at h
    repeat' split at h
    all_goals try cases h
    rename_i hx _ y hy
    exact ⟨_, y, rfl, (second_and_scalar_iff_three hw).mp ⟨⟨hx, hy⟩, rfl⟩⟩
  · rintro ⟨x, y, rfl, hc⟩
    obtain ⟨⟨hx, hy⟩, rfl⟩ := (second_and_scalar_iff_three hw).mpr hc
    simp only [threeBytes, if_pos hx, if_pos hy]

theorem fourBytes_eq_char_iff (hw : 0xF0 ≤ w.toNat ∧ w.toNat < 0xF5) :
    fourBytes w bytes = .char c rest ↔
      ∃ x y z, bytes = x :: y :: z :: rest ∧ String.utf8EncodeChar c = [w, x, y, z] := by
  constructor
  · intro h
    unfold fourBytes at h
    repeat' split at h
    all_goals try cases h
    rename_i hx _ y hy _ z hz
    exact ⟨_, y, z, rfl, (second_and_scalar_iff_four hw).mp ⟨⟨hx, hy, hz⟩, rfl⟩⟩
  · rintro ⟨x, y, z, rfl, hc⟩
    obtain ⟨⟨hx, hy, hz⟩, rfl⟩ := (second_and_scalar_iff_four hw).mpr hc
    simp only [fourBytes, if_pos hx, if_pos hy, if_pos hz]

/-- The lead byte of a character tells how many bytes follow it. -/
theorem cons_eq_append_iff :
    w :: bytes = String.utf8EncodeChar c ++ rest ↔
      (w.toNat < 0x80 ∧ bytes = rest ∧ String.utf8EncodeChar c = [w]) ∨
      ((0xC2 ≤ w.toNat ∧ w.toNat < 0xE0) ∧
        ∃ x, bytes = x :: rest ∧ String.utf8EncodeChar c = [w, x]) ∨
      ((0xE0 ≤ w.toNat ∧ w.toNat < 0xF0) ∧
        ∃ x y, bytes = x :: y :: rest ∧ String.utf8EncodeChar c = [w, x, y]) ∨
      (0xF0 ≤ w.toNat ∧ w.toNat < 0xF5) ∧
        ∃ x y z, bytes = x :: y :: z :: rest ∧ String.utf8EncodeChar c = [w, x, y, z] := by
  constructor
  · intro h
    have hchar : c.toNat < 0xD800 ∨ 0xDFFF < c.toNat ∧ c.toNat < 0x110000 := c.valid
    obtain ⟨w', hc⟩ | ⟨w', x, hc⟩ | ⟨w', x, y, hc⟩ | ⟨w', x, y, z, hc⟩ := utf8EncodeChar_cases c
    · rw [hc] at h
      cases h
      have hlead := utf8EncodeChar_eq_one_iff.mp hc
      exact .inl ⟨by omega, rfl, hc⟩
    · rw [hc] at h
      cases h
      have hlead := utf8EncodeChar_eq_two_iff.mp hc
      exact .inr (.inl ⟨by omega, x, rfl, hc⟩)
    · rw [hc] at h
      cases h
      have hlead := utf8EncodeChar_eq_three_iff.mp hc
      exact .inr (.inr (.inl ⟨by omega, x, y, rfl, hc⟩))
    · rw [hc] at h
      cases h
      have hlead := utf8EncodeChar_eq_four_iff.mp hc
      exact .inr (.inr (.inr ⟨by omega, x, y, z, rfl, hc⟩))
  · rintro (⟨-, rfl, hc⟩ | ⟨-, x, rfl, hc⟩ | ⟨-, x, y, rfl, hc⟩ | ⟨-, x, y, z, rfl, hc⟩) <;>
      rw [hc] <;> rfl

/-- The reader takes a character off the front exactly when its bytes stand there. -/
theorem step_eq_char_iff :
    step w bytes = .char c rest ↔ w :: bytes = String.utf8EncodeChar c ++ rest := by
  rw [cons_eq_append_iff]
  unfold step
  simp only [UInt8.lt_iff_toNat_lt, UInt8.reduceToNat]
  split_ifs with hone hC2 htwo hthree hfour
  · rw [Step.char.injEq, charOfNat_eq_iff (by omega), utf8EncodeChar_eq_one_iff]
    constructor
    · rintro ⟨hc, rfl⟩
      exact .inl ⟨hone, rfl, by omega⟩
    · rintro (⟨-, rfl, hc⟩ | ⟨hw, -⟩ | ⟨hw, -⟩ | ⟨hw, -⟩)
      · exact ⟨by omega, rfl⟩
      all_goals omega
  · refine iff_of_false nofun ?_
    rintro (⟨hw, -⟩ | ⟨hw, -⟩ | ⟨hw, -⟩ | ⟨hw, -⟩) <;> omega
  · have hw : 0xC2 ≤ w.toNat ∧ w.toNat < 0xE0 := by omega
    rw [twoBytes_eq_char_iff hw]
    constructor
    · intro h
      exact .inr (.inl ⟨hw, h⟩)
    · rintro (⟨hw, -⟩ | ⟨-, h⟩ | ⟨hw, -⟩ | ⟨hw, -⟩)
      · omega
      · exact h
      all_goals omega
  · have hw : 0xE0 ≤ w.toNat ∧ w.toNat < 0xF0 := by omega
    rw [threeBytes_eq_char_iff hw]
    constructor
    · intro h
      exact .inr (.inr (.inl ⟨hw, h⟩))
    · rintro (⟨hw, -⟩ | ⟨hw, -⟩ | ⟨-, h⟩ | ⟨hw, -⟩)
      · omega
      · omega
      · exact h
      · omega
  · have hw : 0xF0 ≤ w.toNat ∧ w.toNat < 0xF5 := by omega
    rw [fourBytes_eq_char_iff hw]
    constructor
    · intro h
      exact .inr (.inr (.inr ⟨hw, h⟩))
    · rintro (⟨hw, -⟩ | ⟨hw, -⟩ | ⟨hw, -⟩ | ⟨-, h⟩)
      · omega
      · omega
      · omega
      · exact h
  · refine iff_of_false nofun ?_
    rintro (⟨hw, -⟩ | ⟨hw, -⟩ | ⟨hw, -⟩ | ⟨hw, -⟩) <;> omega

/-! ## Whole texts -/

theorem read_of_step (h : step w bytes = .char c rest) :
    read valid (w :: bytes) = (read (valid + c.utf8Size) rest).map (c :: ·) := by
  rw [read]
  split
  · rename_i hstep
    cases h.symm.trans hstep
    cases read (valid + c.utf8Size) rest <;> rfl
  · rename_i hstep
    cases h.symm.trans hstep
  · rename_i hstep
    cases h.symm.trans hstep

theorem exists_utf8EncodeChar_eq_cons (c : Char) :
    ∃ w tail, String.utf8EncodeChar c = w :: tail := by
  obtain ⟨w, h⟩ | ⟨w, x, h⟩ | ⟨w, x, y, h⟩ | ⟨w, x, y, z, h⟩ := utf8EncodeChar_cases c <;>
    exact ⟨w, _, h⟩

theorem read_char_append (c : Char) (rest : List UInt8) (valid : Nat) :
    read valid (String.utf8EncodeChar c ++ rest) =
      (read (valid + (String.utf8EncodeChar c).length) rest).map (c :: ·) := by
  obtain ⟨w, tail, hc⟩ := exists_utf8EncodeChar_eq_cons c
  have hstep : step w (tail ++ rest) = .char c rest := by
    rw [step_eq_char_iff, hc, List.cons_append]
  have hread : read valid (w :: (tail ++ rest)) = _ := read_of_step hstep
  rwa [← List.cons_append, ← hc, ← String.length_utf8EncodeChar] at hread

/-- Behind what can be read the reader goes on as it would from there. -/
theorem read_flatMap_append (chars : List Char) (rest : List UInt8) (valid : Nat) :
    read valid (chars.flatMap String.utf8EncodeChar ++ rest) =
      (read (valid + (chars.flatMap String.utf8EncodeChar).length) rest).map (chars ++ ·) := by
  induction chars generalizing valid with
  | nil => cases h : read valid rest <;> simp [h, Except.map]
  | cons c chars ih =>
    rw [List.flatMap_cons, List.append_assoc, read_char_append, ih, List.length_append,
      ← Nat.add_assoc]
    cases read _ rest <;> rfl

theorem read_flatMap (chars : List Char) (valid : Nat) :
    read valid (chars.flatMap String.utf8EncodeChar) = .ok chars := by
  have h := read_flatMap_append chars [] valid
  rwa [List.append_nil, read, Except.map, List.append_nil] at h

/-- The bytes that can be read are those of the characters that are read. -/
theorem read_eq_ok_iff {chars : List Char} :
    read valid bytes = .ok chars ↔ bytes = chars.flatMap String.utf8EncodeChar := by
  constructor
  · intro h
    induction valid, bytes using read.induct generalizing chars with
    | case1 valid =>
      rw [read] at h
      cases h
      rfl
    | case2 valid w bytes c rest hstep later hrest ih =>
      rw [read_of_step hstep, hrest] at h
      cases h
      rw [step_eq_char_iff.mp hstep, List.flatMap_cons, ← ih hrest]
    | case3 valid w bytes c rest hstep d hrest ih =>
      rw [read_of_step hstep, hrest] at h
      cases h
    | case4 valid w bytes n hstep | case5 valid w bytes hstep =>
      rw [read] at h
      split at h
      · rename_i hchar
        cases hstep.symm.trans hchar
      · cases h
      · cases h
  · rintro rfl
    exact read_flatMap chars valid

/-- Bytes are a text exactly when they are what some text is written as, and then they are that
text. -/
theorem decode_eq_ok_iff : decode bytes = .ok s ↔ bytes = encode s := by
  unfold decode encode
  constructor
  · intro h
    rcases hread : read 0 bytes with d | chars
    · rw [hread] at h
      cases h
    · rw [hread] at h
      cases h
      rw [String.toList_ofList]
      exact read_eq_ok_iff.mp hread
  · intro h
    rw [read_eq_ok_iff.mpr h]
    exact congrArg Except.ok (String.ofList_toList)

theorem decode_encode (s : String) : decode (encode s) = .ok s := decode_eq_ok_iff.mpr rfl

end Earliest.Utf8
