import Earliest.Proofs.Intermediate.Delimited

/-! Bytes that are too few or too many. An encoded state that is cut anywhere ends inside a part
that asks for more, and one with anything behind it has bytes to spare, so no accepted bytes are
the front of others. A read that does not look for the end of the input relies on the check in
front of it: `readState?` keeps the two apart, and has an answer because no read goes too far. -/

namespace Earliest.Intermediate

variable {k : Kind} {b more : Bytes} {c : Candidate k} {α : Type}

/-! ## Checks and reads apart -/

/-- The first `n` bytes and the rest, without a check. A read past the end has no answer. -/
def read? (n : Nat) (b : Bytes) : Option (Bytes × Bytes) :=
  if n ≤ b.length then some (b.take n, b.drop n) else none

def readNumber? (n : Nat) (b : Bytes) : Option (Nat × Bytes) := do
  let (front, rest) ← read? n b
  return (ofBigEndian front, rest)

def readByte? : Bytes → Option (UInt8 × Bytes)
  | [] => none
  | byte :: rest => some (byte, rest)

/-- A number of a fixed width, after a check that it is there. -/
def readFixed? (part : Part) (width : Nat) (ofNat : Nat → α) (b : Bytes) :
    Option (Except Defect α × Bytes) := do
  if b.length < width then return (.error (.truncated part width b.length), b)
  let (n, rest) ← readNumber? width b
  return (.ok (ofNat n), rest)

def readBoolean? (b : Bytes) : Option (Except Defect Bool × Bytes) := do
  if b.length < 1 then return (.error (.truncated .boolean 1 b.length), b)
  let (byte, rest) ← readByte? b
  if byte = 0 then return (.ok false, rest)
  if byte = 1 then return (.ok true, rest)
  return (.error (.booleanByte byte), rest)

/-- The length is read from the input, and so it is checked before it is relied on. -/
def readBinary? (b : Bytes) : Option (Except Defect Bytes × Bytes) := do
  if b.length < 4 then return (.error (.truncated .binaryLength 4 b.length), b)
  let (n, rest) ← readNumber? 4 b
  if maxLength < n then return (.error (.negativeLength (BitVec.ofNat 32 n).toInt), rest)
  if rest.length < n then return (.error (.truncated .binaryValue n rest.length), rest)
  let (v, rest) ← read? n rest
  return (.ok v, rest)

def readValue? : (k : Kind) → Bytes → Option (Except Defect k.Value × Bytes)
  | .boolean, b => readBoolean? b
  | .int32, b => readFixed? .int32 4 (fun n => Int32.ofBitVec (.ofNat 32 n)) b
  | .int64, b => readFixed? .int64 8 (fun n => Int64.ofBitVec (.ofNat 64 n)) b
  | .float32, b => readFixed? .float32 4 (fun n => (⟨.ofNat _ n⟩ : Ieee .binary32)) b
  | .float64, b => readFixed? .float64 8 (fun n => (⟨.ofNat _ n⟩ : Ieee .binary64)) b
  | .binary, b => readBinary? b

/-- What the flag announces, and nothing behind it. -/
def readBody? (k : Kind) (flag : UInt8) (b : Bytes) :
    Option (Except Defect (Option k.Value)) := do
  let (value, rest) ←
    if flag = 0 then (readValue? k b).map (onValue some)
    else if flag = 1 then some (.ok none, b)
    else some (.error (.flagByte flag), b)
  match value with
  | .error d => return .error d
  | .ok v => return if rest.isEmpty then .ok v else .error (.trailing rest.length)

/-- A whole state. One check stands for the timestamp and the flag. -/
def readState? (k : Kind) (b : Bytes) : Option (Except Defect (Candidate k)) := do
  if b.length < headerLength then return .error (.truncated .header headerLength b.length)
  let (timestamp, b) ← readNumber? 8 b
  let (flag, b) ← readByte? b
  let value ← readBody? k flag b
  return value.map fun value => ⟨Int64.ofBitVec (.ofNat 64 timestamp), value⟩

theorem read?_eq {n : Nat} (part : Part) (h : n ≤ b.length) :
    ∃ front rest, read? n b = some (front, rest) ∧ take part n b = (.ok front, rest) :=
  ⟨_, _, if_pos h, if_neg (not_lt.mpr h)⟩

theorem readFixed?_eq (part : Part) (width : Nat) (ofNat : Nat → α) (b : Bytes) :
    readFixed? part width ofNat b = some (onValue ofNat (takeNumber part width b)) := by
  unfold readFixed? readNumber? takeNumber onValue
  by_cases h : b.length < width
  · simp [h, take, Except.map]
  · obtain ⟨front, rest, hread, htake⟩ := read?_eq part (not_lt.mp h)
    simp [h, hread, htake, Except.map]

theorem readBoolean?_eq (b : Bytes) : readBoolean? b = some (decodeBoolean b) := by
  obtain _ | ⟨byte, rest⟩ := b
  · rfl
  · by_cases h0 : byte = 0
    · simp [readBoolean?, readByte?, decodeBoolean, h0]
    · by_cases h1 : byte = 1 <;> simp [readBoolean?, readByte?, decodeBoolean, h0, h1]

theorem readBinary?_eq (b : Bytes) : readBinary? b = some (decodeBinary b) := by
  unfold readBinary? readNumber? decodeBinary takeNumber
  by_cases h : b.length < 4
  · simp [h, take]
  · obtain ⟨front, rest, hread, htake⟩ := read?_eq .binaryLength (not_lt.mp h)
    by_cases hn : ofBigEndian front ≤ maxLength
    · by_cases hrest : rest.length < ofBigEndian front
      · have hshort : take .binaryValue (ofBigEndian front) rest =
            (.error (.truncated .binaryValue (ofBigEndian front) rest.length), rest) :=
          if_pos hrest
        simp [h, hread, htake, hn, hrest, hshort, not_lt.mpr hn]
      · obtain ⟨v, last, hread', htake'⟩ := read?_eq .binaryValue (not_lt.mp hrest)
        simp [h, hread, htake, hn, hrest, hread', htake', not_lt.mpr hn]
    · simp [h, hread, htake, hn, not_le.mp hn]

theorem readValue?_eq (k : Kind) (b : Bytes) : readValue? k b = some (decodeValue k b) := by
  cases k with
  | boolean => exact readBoolean?_eq b
  | binary => exact readBinary?_eq b
  | _ => rw [readValue?, decodeValue, readFixed?_eq]

theorem readBody?_eq (k : Kind) (flag : UInt8) (b : Bytes) :
    readBody? k flag b = some (decodeBody k flag b) := by
  unfold readBody? decodeBody
  rw [readValue?_eq, Option.map_some]
  by_cases h0 : flag = 0
  · rcases onValue some (decodeValue k b) with ⟨d | v, rest⟩ <;> simp [h0]
  · by_cases h1 : flag = 1 <;> simp [h0, h1]

/-- Bytes that are as many as a header take its place at the front. -/
theorem exists_header (h : headerLength ≤ b.length) :
    ∃ timestamp flag body, timestamp.length = 8 ∧ b = timestamp ++ flag :: body := by
  unfold headerLength at h
  obtain ⟨flag, body, hdrop⟩ : ∃ flag body, b.drop 8 = flag :: body :=
    List.exists_cons_of_length_pos (by rw [List.length_drop]; omega)
  refine ⟨b.take 8, flag, body, by simp; omega, ?_⟩
  rw [← hdrop, List.take_append_drop]

theorem decode_of_short (h : b.length < headerLength) :
    decode k b = .error (.truncated .header headerLength b.length) := by
  unfold decode take
  simp [h]

/-- No read goes past the end, whatever the bytes are. -/
theorem readState?_eq (k : Kind) (b : Bytes) : readState? k b = some (decode k b) := by
  by_cases h : b.length < headerLength
  · rw [decode_of_short h]
    simp [readState?, h]
  · obtain ⟨timestamp, flag, body, hl, rfl⟩ := exists_header (not_lt.mp h)
    have hread : readNumber? 8 (timestamp ++ flag :: body) =
        some (ofBigEndian timestamp, flag :: body) := by
      simp [readNumber?, read?, ← hl]
    rw [decode_append hl, readState?, if_neg h, hread]
    simp [readByte?, readBody?_eq]

/-! ## Too few bytes -/

theorem decodeBody_of_error {d : Defect} (h : (decodeValue k b).1 = .error d) :
    decodeBody k 0 b = .error d := by
  simp [decodeBody, onValue, h, Except.map]

/-- A state that lost bytes at its end, however many, ends inside a part. -/
theorem decode_of_cut (h : decode k (b ++ more) = .ok c) (hmore : more ≠ []) :
    ∃ d, d.IsTruncated ∧ decode k b = .error d := by
  by_cases hshort : b.length < headerLength
  · exact ⟨_, ⟨_, _, _, hshort, rfl⟩, decode_of_short hshort⟩
  · obtain ⟨timestamp, flag, body, hl, rfl⟩ := exists_header (not_lt.mp hshort)
    rw [List.append_assoc, List.cons_append, decode_append hl] at h
    rw [decode_append hl]
    rcases hbody : decodeBody k flag (body ++ more) with d | _ | v
    · rw [hbody] at h
      cases h
    · obtain ⟨-, hnil⟩ := decodeBody_none_iff.mp hbody
      exact absurd (List.append_eq_nil_iff.mp hnil).2 hmore
    · obtain ⟨rfl, hvalue⟩ := decodeBody_some_iff.mp hbody
      have hwhole : decodeValue k (body ++ more) = (.ok v, []) :=
        decodeValue_eq_ok_iff.mpr ⟨body ++ more, hvalue, (List.append_nil _).symm⟩
      obtain ⟨d, hd, hcut⟩ | hlong := extends_decodeValue k body more
      · refine ⟨d, hd, ?_⟩
        rw [decodeBody_of_error hcut]
        rfl
      · rw [hlong, Prod.mk.injEq] at hwhole
        exact absurd (List.append_eq_nil_iff.mp hwhole.2).2 hmore

/-! ## Too many bytes -/

/-- What stands behind a state is counted. -/
theorem decode_of_extended (h : decode k b = .ok c) (hmore : more ≠ []) :
    decode k (b ++ more) = .error (.trailing more.length) := by
  obtain ⟨timestamp, flag, body, hl, rfl⟩ := eq_append_of_decode_eq_ok h
  rw [List.append_assoc, List.cons_append, decode_append hl]
  rw [decode_append hl] at h
  have hbody : decodeBody k flag (body ++ more) = .error (.trailing more.length) := by
    rcases hshort : decodeBody k flag body with d | _ | v
    · rw [hshort] at h
      cases h
    · obtain ⟨rfl, rfl⟩ := decodeBody_none_iff.mp hshort
      simp [decodeBody, hmore]
    · obtain ⟨rfl, hvalue⟩ := decodeBody_some_iff.mp hshort
      have hfront : decodeValue k (body ++ more) = (.ok v, more) :=
        decodeValue_eq_ok_iff.mpr ⟨body, hvalue, rfl⟩
      simp [decodeBody, onValue, hfront, Except.map, hmore]
  rw [hbody]
  rfl

/-! ## Lengths -/

theorem takeNumber_of_isNumeral (part : Part) {length : Bytes} {n : Int}
    (h : IsNumeral 4 n length) (rest : Bytes) :
    takeNumber part 4 (length ++ rest) = (.ok (n % 4294967296).toNat, rest) := by
  obtain ⟨hfour, hdigits⟩ := h
  rw [← ofBigEndian_eq_ofDigits] at hdigits
  rw [takeNumber, take_eq_ok_iff.mpr ⟨hfour, rfl⟩]
  have hvalue : ofBigEndian length = (n % 4294967296).toNat := by
    rw [← Int.toNat_natCast (ofBigEndian length), hdigits]
    rfl
  simp only [hvalue]

/-- A length is refused when it is negative, and when more bytes are needed for it than follow. -/
theorem decodeBinary_of_isNumeral {length : Bytes} {n : Int}
    (hn : -2147483648 ≤ n ∧ n ≤ 2147483647) (h : IsNumeral 4 n length) (body : Bytes) :
    (n < 0 → (decodeBinary (length ++ body)).1 = .error (.negativeLength n)) ∧
      (body.length < n → (decodeBinary (length ++ body)).1 =
        .error (.truncated .binaryValue n.toNat body.length)) := by
  have htake := takeNumber_of_isNumeral .binaryLength h body
  constructor
  · intro hneg
    have hlarge : ¬ (n % 4294967296).toNat ≤ maxLength := by
      unfold maxLength
      omega
    have hsigned : (BitVec.ofNat 32 (n % 4294967296).toNat).toInt = n := by
      rw [BitVec.toInt_eq_toNat_cond, BitVec.toNat_ofNat]
      split <;> omega
    simp only [decodeBinary, htake, if_neg hlarge, hsigned]
  · intro hshort
    have hsmall : (n % 4294967296).toNat ≤ maxLength := by
      unfold maxLength
      omega
    have hsame : (n % 4294967296).toNat = n.toNat := by omega
    have hcut : body.length < n.toNat := by omega
    rw [hsame] at hsmall htake
    simp only [decodeBinary, htake, if_pos hsmall, take, if_pos hcut]

theorem kind_malformed (d : Defect) : (Fault.malformed d).kind = .invalidArgument := by
  cases d <;> rfl

/-- Whatever the bytes are, reading them never goes past their end, and it gives a state or an
invalid argument. A state's own bytes are accepted, every proper front of them ends inside a part,
and every extension has bytes to spare. So no accepted bytes are the front of others. A length that
is negative, or larger than what follows, is refused. -/
theorem decode_framed (k : Kind) :
    (∀ b, readState? k b = some (decode k b) ∧
      ((∃ c, decode k b = .ok c) ∨
        ∃ d, decode k b = .error d ∧ (Fault.malformed d).kind = .invalidArgument)) ∧
    (∀ (c : Candidate k) b, encode c = .ok b → decode k b = .ok c ∧
      (∀ front rest, b = front ++ rest → rest ≠ [] →
        ∃ d, d.IsTruncated ∧ decode k front = .error d) ∧
      ∀ more, more ≠ [] → decode k (b ++ more) = .error (.trailing more.length)) ∧
    (∀ b b' c c', decode k b = .ok c → decode k b' = .ok c' → b <+: b' → b = b') ∧
    ∀ timestamp length body (n : Int), timestamp.length = 8 →
      -2147483648 ≤ n ∧ n ≤ 2147483647 → IsNumeral 4 n length →
      (n < 0 → decode .binary (timestamp ++ 0 :: (length ++ body)) =
        .error (.negativeLength n)) ∧
      (body.length < n → decode .binary (timestamp ++ 0 :: (length ++ body)) =
        .error (.truncated .binaryValue n.toNat body.length)) := by
  refine ⟨?_, ?_, ?_, ?_⟩
  · intro b
    refine ⟨readState?_eq k b, ?_⟩
    rcases h : decode k b with d | c
    · exact .inr ⟨d, rfl, kind_malformed d⟩
    · exact .inl ⟨c, rfl⟩
  · intro c b hb
    have hok := decode_eq_ok_iff_encode.mpr hb
    refine ⟨hok, ?_, fun more => decode_of_extended hok⟩
    rintro front rest rfl hrest
    exact decode_of_cut hok hrest
  · rintro b b' c c' h h' ⟨more, rfl⟩
    by_contra hne
    have hmore : more ≠ [] := by
      rintro rfl
      exact hne (List.append_nil b).symm
    rw [decode_of_extended h hmore] at h'
    cases h'
  · intro timestamp length body n ht hn hlength
    obtain ⟨hnegative, hlong⟩ := decodeBinary_of_isNumeral hn hlength body
    have hvalue : decodeValue .binary (length ++ body) = decodeBinary (length ++ body) := rfl
    rw [decode_append ht]
    constructor
    · intro hneg
      rw [decodeBody_of_error (hvalue ▸ hnegative hneg)]
      rfl
    · intro hshort
      rw [decodeBody_of_error (hvalue ▸ hlong hshort)]
      rfl

theorem decode_framed_twoBytes :
    let b : Bytes := [0, 0, 0, 0, 0, 0, 0, 5, 0, 0, 0, 0, 2, 1, 2]
    encode (⟨5, some [1, 2]⟩ : Candidate .binary) = .ok b ∧
      (∃ d, d.IsTruncated ∧ decode .binary (b.take 14) = .error d) ∧
      decode .binary (b ++ [7]) = .error (.trailing 1) ∧
      decode .binary (b.take 8 ++ 0 :: ([255, 255, 255, 255] ++ [1])) =
        .error (.negativeLength (-1)) := by
  intro b
  obtain ⟨-, hstate, -, hlength⟩ := decode_framed .binary
  have hb : encode (⟨5, some [1, 2]⟩ : Candidate .binary) = .ok b := by decide
  obtain ⟨-, hcut, hextended⟩ := hstate _ b hb
  have hminus : IsNumeral 4 (-1) [255, 255, 255, 255] := ⟨rfl, by decide⟩
  exact ⟨hb, hcut (b.take 14) [2] rfl (by decide), hextended [7] (by decide),
    (hlength (b.take 8) _ [1] (-1) rfl (by decide) hminus).1 (by decide)⟩

end Earliest.Intermediate
