import Earliest.FirstBy.Intermediate
import Earliest.Proofs.Intermediate.BigEndian

/-! The encoded state is a one-to-one format. Reading a value takes off exactly the
bytes that writing it puts down, so a whole state is read back from its bytes and
from no others. `IsValue` and `IsState` give the accepted bytes without reference
to the reader or the writer. -/

namespace Earliest.Intermediate

/-- The values that can be written: the length of a byte string has to be one of a
signed number of four bytes. -/
def Fits : (k : Kind) → k.Value → Prop
  | .binary, v => List.length v ≤ 2147483647
  | _, _ => True

/-- The states that can be written. -/
def FitsState {k : Kind} (c : Candidate k) : Prop :=
  match c.value with
  | none => True
  | some v => Fits k v

/-- The bytes of one value. -/
def IsValue : (k : Kind) → k.Value → Bytes → Prop
  | .boolean, v, b => v = false ∧ b = [0] ∨ v = true ∧ b = [1]
  | .int32, v, b => IsNumeral 4 (Int32.toInt v) b
  | .int64, v, b => IsNumeral 8 (Int64.toInt v) b
  | .float32, v, b => IsNumeral 4 (Ieee.bits v).toNat b
  | .float64, v, b => IsNumeral 8 (Ieee.bits v).toNat b
  | .binary, v, b =>
    List.length v ≤ 2147483647 ∧ ∃ length, IsNumeral 4 (List.length v) length ∧ b = length ++ v

/-- The bytes of a whole state: the timestamp, and then a one and nothing more, or a zero
and a value. -/
def IsState {k : Kind} (c : Candidate k) (b : Bytes) : Prop :=
  ∃ timestamp body, IsNumeral 8 c.timestamp.toInt timestamp ∧ b = timestamp ++ body ∧
    match c.value with
    | none => body = [1]
    | some v => ∃ value, IsValue k v value ∧ body = 0 :: value

/-! ## Taking parts off the front -/

theorem take_eq_ok_iff {part : Part} {n : Nat} {b front rest : Bytes} :
    take part n b = (.ok front, rest) ↔ front.length = n ∧ b = front ++ rest := by
  unfold take
  constructor
  · intro h
    split at h
    · simp at h
    · simp only [Prod.mk.injEq, Except.ok.injEq] at h
      obtain ⟨rfl, rfl⟩ := h
      exact ⟨by simp; omega, (List.take_append_drop n b).symm⟩
  · rintro ⟨rfl, rfl⟩
    simp

theorem takeNumber_eq_ok_iff {part : Part} {width x : Nat} {b rest : Bytes} :
    takeNumber part width b = (.ok x, rest) ↔
      x < 256 ^ width ∧ b = bigEndian width x ++ rest := by
  constructor
  · intro h
    unfold takeNumber at h
    split at h
    · rename_i front rest' ht
      obtain ⟨rfl, rfl⟩ := take_eq_ok_iff.mp ht
      simp only [Prod.mk.injEq, Except.ok.injEq] at h
      obtain ⟨rfl, rfl⟩ := h
      exact ⟨ofBigEndian_lt front, by rw [bigEndian_ofBigEndian]⟩
    · simp at h
  · rintro ⟨hx, rfl⟩
    rw [takeNumber, take_eq_ok_iff.mpr ⟨length_bigEndian width x, rfl⟩]
    simp only [ofBigEndian_bigEndian, Nat.mod_eq_of_lt hx]

/-- A number read through `ofNat` is the one whose numeral stands at the front. -/
theorem onValue_takeNumber_iff {α : Type} (part : Part) (width : Nat) {ofNat : Nat → α}
    {toNat : α → Nat} (hlt : ∀ v, toNat v < 256 ^ width)
    (hinv : ∀ x < 256 ^ width, ∀ v, ofNat x = v ↔ x = toNat v) {b rest : Bytes} {v : α} :
    onValue ofNat (takeNumber part width b) = (.ok v, rest) ↔
      b = bigEndian width (toNat v) ++ rest := by
  constructor
  · intro h
    rcases hn : takeNumber part width b with ⟨d | x, rest'⟩
    · simp [onValue, hn, Except.map] at h
    · simp only [onValue, hn, Except.map, Prod.mk.injEq, Except.ok.injEq] at h
      obtain ⟨hv, rfl⟩ := h
      obtain ⟨hx, rfl⟩ := takeNumber_eq_ok_iff.mp hn
      rw [(hinv x hx v).mp hv]
  · intro hb
    have hn : takeNumber part width b = (.ok (toNat v), rest) :=
      takeNumber_eq_ok_iff.mpr ⟨hlt v, hb⟩
    rw [onValue, hn]
    simp only [Except.map, (hinv _ (hlt v) v).mpr rfl]

/-! ## Values -/

theorem int32_layout {v : Int32} {b : Bytes} :
    IsNumeral 4 v.toInt b ↔ b = bigEndian 4 v.toBitVec.toNat :=
  isNumeral_toInt_iff 4 v.toBitVec

theorem int64_layout {v : Int64} {b : Bytes} :
    IsNumeral 8 v.toInt b ↔ b = bigEndian 8 v.toBitVec.toNat :=
  isNumeral_toInt_iff 8 v.toBitVec

theorem float32_layout {v : Ieee .binary32} {b : Bytes} :
    IsNumeral 4 v.bits.toNat b ↔ b = bigEndian 4 v.bits.toNat :=
  isNumeral_toNat_iff 4 v.bits

theorem float64_layout {v : Ieee .binary64} {b : Bytes} :
    IsNumeral 8 v.bits.toNat b ↔ b = bigEndian 8 v.bits.toNat :=
  isNumeral_toNat_iff 8 v.bits

theorem length_layout {n : Nat} (hn : n ≤ 2147483647) {b : Bytes} :
    IsNumeral 4 n b ↔ b = bigEndian 4 n :=
  isNumeral_iff (by omega) (by omega)

theorem encodeValue_eq_ok_iff {k : Kind} {v : k.Value} {b : Bytes} :
    encodeValue k v = .ok b ↔ IsValue k v b := by
  cases k with
  | boolean => cases v <;> simp [encodeValue, IsValue, eq_comm]
  | int32 => rw [encodeValue, IsValue, int32_layout, Except.ok.injEq, eq_comm]
  | int64 => rw [encodeValue, IsValue, int64_layout, Except.ok.injEq, eq_comm]
  | float32 => rw [encodeValue, IsValue, float32_layout, Except.ok.injEq, eq_comm]
  | float64 => rw [encodeValue, IsValue, float64_layout, Except.ok.injEq, eq_comm]
  | binary =>
    rw [encodeValue, IsValue, show maxLength = 2147483647 from rfl]
    by_cases hl : List.length v ≤ 2147483647
    · simp only [hl, if_true, Except.ok.injEq, length_layout hl, true_and, exists_eq_left]
      exact eq_comm
    · simp [hl]

theorem exists_encodeValue_iff {k : Kind} {v : k.Value} :
    (∃ b, encodeValue k v = .ok b) ↔ Fits k v := by
  cases k with
  | binary =>
    rw [Fits, encodeValue, show maxLength = 2147483647 from rfl]
    by_cases hl : List.length v ≤ 2147483647 <;> simp [hl]
  | _ => simp [encodeValue, Fits]

theorem ofBitVec_ofNat32_iff {x : Nat} (hx : x < 256 ^ 4) (v : Int32) :
    Int32.ofBitVec (.ofNat 32 x) = v ↔ x = v.toBitVec.toNat := by
  constructor
  · rintro rfl
    simp only [Int32.toBitVec_ofBitVec, BitVec.toNat_ofNat]
    omega
  · rintro rfl
    simp

theorem ofBitVec_ofNat64_iff {x : Nat} (hx : x < 256 ^ 8) (v : Int64) :
    Int64.ofBitVec (.ofNat 64 x) = v ↔ x = v.toBitVec.toNat := by
  constructor
  · rintro rfl
    simp only [Int64.toBitVec_ofBitVec, BitVec.toNat_ofNat]
    omega
  · rintro rfl
    simp

theorem ieee_ofNat_iff {f : Format} {width x : Nat} (hw : f.width = 8 * width)
    (hx : x < 256 ^ width) (v : Ieee f) : (⟨.ofNat _ x⟩ : Ieee f) = v ↔ x = v.bits.toNat := by
  have hp : 2 ^ f.width = 256 ^ width := by
    rw [hw, Nat.pow_mul]
  constructor
  · rintro rfl
    rw [BitVec.toNat_ofNat, hp, Nat.mod_eq_of_lt hx]
  · rintro rfl
    simp

theorem decodeBoolean_eq_ok_iff {v : Bool} {b rest : Bytes} :
    decodeBoolean b = (.ok v, rest) ↔ b = (if v = true then 1 else 0) :: rest := by
  obtain _ | ⟨x, b⟩ := b
  · simp [decodeBoolean]
  · by_cases h0 : x = 0
    · cases v <;> simp [decodeBoolean, h0]
    · by_cases h1 : x = 1
      · cases v <;> simp [decodeBoolean, h1]
      · cases v <;> simp [decodeBoolean, h0, h1]

theorem decodeBinary_eq_ok_iff {v b rest : Bytes} :
    decodeBinary b = (.ok v, rest) ↔
      v.length ≤ maxLength ∧ b = bigEndian 4 v.length ++ v ++ rest := by
  constructor
  · intro h
    unfold decodeBinary at h
    split at h
    · simp at h
    · rename_i n body hn
      obtain ⟨-, rfl⟩ := takeNumber_eq_ok_iff.mp hn
      split at h
      · rename_i hle
        obtain ⟨rfl, rfl⟩ := take_eq_ok_iff.mp h
        exact ⟨hle, by rw [List.append_assoc]⟩
      · simp at h
  · rintro ⟨hle, rfl⟩
    have hlt : v.length < 256 ^ 4 := by unfold maxLength at hle; omega
    rw [decodeBinary, List.append_assoc, takeNumber_eq_ok_iff.mpr ⟨hlt, rfl⟩]
    simp only [if_pos hle, take_eq_ok_iff.mpr ⟨rfl, rfl⟩]

/-- A value is read exactly when its bytes stand at the front, and just those are taken. -/
theorem decodeValue_eq_ok_iff {k : Kind} {v : k.Value} {b rest : Bytes} :
    decodeValue k b = (.ok v, rest) ↔ ∃ front, encodeValue k v = .ok front ∧ b = front ++ rest := by
  cases k with
  | boolean => cases v <;> simp [decodeValue, decodeBoolean_eq_ok_iff, encodeValue]
  | int32 =>
    simp only [decodeValue, encodeValue, Except.ok.injEq, exists_eq_left']
    exact onValue_takeNumber_iff .int32 4
      (fun v : Int32 => bits_lt 4 v.toBitVec) fun _ => ofBitVec_ofNat32_iff
  | int64 =>
    simp only [decodeValue, encodeValue, Except.ok.injEq, exists_eq_left']
    exact onValue_takeNumber_iff .int64 8
      (fun v : Int64 => bits_lt 8 v.toBitVec) fun _ => ofBitVec_ofNat64_iff
  | float32 =>
    simp only [decodeValue, encodeValue, Except.ok.injEq, exists_eq_left']
    exact onValue_takeNumber_iff .float32 4
      (fun v : Ieee .binary32 => bits_lt 4 v.bits) fun _ => ieee_ofNat_iff rfl
  | float64 =>
    simp only [decodeValue, encodeValue, Except.ok.injEq, exists_eq_left']
    exact onValue_takeNumber_iff .float64 8
      (fun v : Ieee .binary64 => bits_lt 8 v.bits) fun _ => ieee_ofNat_iff rfl
  | binary =>
    by_cases hl : List.length v ≤ maxLength <;>
      simp [decodeValue, decodeBinary_eq_ok_iff, encodeValue, hl]

/-! ## States -/

theorem decode_append {k : Kind} {timestamp : Bytes} (ht : timestamp.length = 8) (flag : UInt8)
    (body : Bytes) :
    decode k (timestamp ++ flag :: body) = (decodeBody k flag body).map fun value =>
      ⟨Int64.ofBitVec (.ofNat 64 (ofBigEndian timestamp)), value⟩ := by
  have hfront : take .header headerLength (timestamp ++ flag :: body) =
      (.ok (timestamp ++ [flag]), body) :=
    take_eq_ok_iff.mpr ⟨by simp [ht, headerLength], by simp⟩
  simp [decode, hfront, ← ht]

theorem eq_append_of_decode_eq_ok {k : Kind} {b : Bytes} {c : Candidate k}
    (h : decode k b = .ok c) :
    ∃ timestamp flag body, timestamp.length = 8 ∧ b = timestamp ++ flag :: body := by
  unfold decode at h
  split at h
  · simp at h
  · rename_i front rest hfront
    obtain ⟨hl, rfl⟩ := take_eq_ok_iff.mp hfront
    have hsplit := List.take_append_drop 8 front
    obtain ⟨flag, hflag⟩ : ∃ flag, front.drop 8 = [flag] :=
      List.length_eq_one_iff.mp (by simp [hl, headerLength])
    rw [hflag] at hsplit
    refine ⟨front.take 8, flag, rest, by simp [hl, headerLength], ?_⟩
    conv_lhs => rw [← hsplit, List.append_assoc, List.singleton_append]

theorem decodeBody_none_iff {k : Kind} {flag : UInt8} {body : Bytes} :
    decodeBody k flag body = .ok none ↔ flag = 1 ∧ body = [] := by
  by_cases h0 : flag = 0
  · subst h0
    rcases hv : decodeValue k body with ⟨d | v, rest⟩
    · simp [decodeBody, onValue, hv, Except.map]
    · cases rest <;> simp [decodeBody, onValue, hv, Except.map]
  · by_cases h1 : flag = 1
    · cases body <;> simp [decodeBody, h1]
    · simp [decodeBody, h0, h1]

theorem decodeBody_some_iff {k : Kind} {flag : UInt8} {body : Bytes} {v : k.Value} :
    decodeBody k flag body = .ok (some v) ↔ flag = 0 ∧ encodeValue k v = .ok body := by
  have hwhole : decodeValue k body = (.ok v, []) ↔ encodeValue k v = .ok body := by
    simp [decodeValue_eq_ok_iff]
  rw [← hwhole]
  by_cases h0 : flag = 0
  · subst h0
    rcases hv : decodeValue k body with ⟨d | w, rest⟩
    · simp [decodeBody, onValue, hv, Except.map]
    · cases rest <;> simp [decodeBody, onValue, hv, Except.map]
  · by_cases h1 : flag = 1
    · cases body <;> simp [decodeBody, h1]
    · simp [decodeBody, h0, h1]

/-- The flag and what follows it. -/
def IsBody {k : Kind} (value : Option k.Value) (body : Bytes) : Prop :=
  match value with
  | none => body = [1]
  | some v => ∃ front, encodeValue k v = .ok front ∧ body = 0 :: front

theorem decodeBody_eq_ok_iff {k : Kind} {flag : UInt8} {body : Bytes} {value : Option k.Value} :
    decodeBody k flag body = .ok value ↔ IsBody value (flag :: body) := by
  cases value with
  | none => simp [decodeBody_none_iff, IsBody]
  | some v => simp [decodeBody_some_iff, IsBody, and_comm]

theorem encode_eq_ok_iff {k : Kind} {c : Candidate k} {b : Bytes} :
    encode c = .ok b ↔
      ∃ body, IsBody c.value body ∧ b = bigEndian 8 c.timestamp.toBitVec.toNat ++ body := by
  obtain ⟨t, value⟩ := c
  cases value with
  | none => simp [encode, header, IsBody, eq_comm]
  | some v =>
    rcases hv : encodeValue k v with f | front <;>
      simp [encode, header, IsBody, hv, Except.map, eq_comm]

theorem decode_eq_ok_iff_encode {k : Kind} {b : Bytes} {c : Candidate k} :
    decode k b = .ok c ↔ encode c = .ok b := by
  obtain ⟨t, value⟩ := c
  rw [encode_eq_ok_iff]
  constructor
  · intro h
    obtain ⟨timestamp, flag, body, hl, rfl⟩ := eq_append_of_decode_eq_ok h
    rw [decode_append hl] at h
    rcases hbody : decodeBody k flag body with d | w
    · simp [hbody, Except.map] at h
    · simp only [hbody, Except.map, Except.ok.injEq, Candidate.mk.injEq] at h
      obtain ⟨ht, rfl⟩ := h
      have hx := hl ▸ ofBigEndian_lt timestamp
      rw [ofBitVec_ofNat64_iff hx] at ht
      exact ⟨flag :: body, decodeBody_eq_ok_iff.mp hbody,
        by rw [← ht, ← hl, bigEndian_ofBigEndian]⟩
  · rintro ⟨body, hbody, rfl⟩
    obtain ⟨flag, rest, rfl⟩ : ∃ flag rest, body = flag :: rest := by
      cases value with
      | none => exact ⟨1, [], hbody⟩
      | some v =>
        obtain ⟨front, -, rfl⟩ := hbody
        exact ⟨0, front, rfl⟩
    have hx := bits_lt 8 t.toBitVec
    rw [decode_append (length_bigEndian _ _), decodeBody_eq_ok_iff.mpr hbody,
      ofBigEndian_bigEndian, Nat.mod_eq_of_lt hx]
    simp [Except.map]

theorem isBody_iff {k : Kind} {value : Option k.Value} {body : Bytes} :
    IsBody value body ↔
      match value with
      | none => body = [1]
      | some v => ∃ front, IsValue k v front ∧ body = 0 :: front := by
  cases value with
  | none => rfl
  | some v => simp only [IsBody, encodeValue_eq_ok_iff]

theorem encode_eq_ok_iff_isState {k : Kind} {b : Bytes} {c : Candidate k} :
    encode c = .ok b ↔ IsState c b := by
  rw [encode_eq_ok_iff, IsState]
  simp only [isBody_iff, int64_layout]
  constructor
  · rintro ⟨body, hbody, rfl⟩
    exact ⟨_, body, rfl, rfl, hbody⟩
  · rintro ⟨_, body, rfl, rfl, hbody⟩
    exact ⟨body, hbody, rfl⟩

theorem exists_encode_iff {k : Kind} {c : Candidate k} :
    (∃ b, encode c = .ok b) ↔ FitsState c := by
  obtain ⟨t, value⟩ := c
  cases value with
  | none => simp [encode, FitsState]
  | some v =>
    change _ ↔ Fits k v
    rw [← exists_encodeValue_iff]
    rcases hv : encodeValue k v with f | front <;> simp [encode, hv, Except.map]

/-- The format is one-to-one: reading gives a state exactly on the bytes that writing the
state gives, those bytes are the ones `IsState` names, and every state that fits has some. -/
theorem decode_encode_bijective (k : Kind) (b : Bytes) (c : Candidate k) :
    (decode k b = .ok c ↔ encode c = .ok b) ∧
      (decode k b = .ok c ↔ IsState c b) ∧
      ((∃ written, encode c = .ok written) ↔ FitsState c) :=
  ⟨decode_eq_ok_iff_encode, decode_eq_ok_iff_encode.trans encode_eq_ok_iff_isState,
    exists_encode_iff⟩

end Earliest.Intermediate
