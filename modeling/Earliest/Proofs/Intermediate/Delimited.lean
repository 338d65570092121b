import Earliest.Proofs.Intermediate.Codec

/-! A value's bytes say where they end. Reading a value stops at the end of its bytes, with whatever
stands behind them left over and without a look at it: what the reader says of an input it says of
every longer one, unless the input ends inside a part. -/

namespace Earliest.Intermediate

variable {α β : Type} {k : Kind} {more : Bytes}

/-- The bytes end inside a part: it needs more of them than are left. -/
def Defect.IsTruncated (d : Defect) : Prop :=
  ∃ part needed remaining, remaining < needed ∧ d = .truncated part needed remaining

/-- What is read off the shorter input is read off the longer one too, unless the shorter one ends
inside a part. The rest is longer by as much. -/
def Extends (more : Bytes) (short long : Except Defect α × Bytes) : Prop :=
  (∃ d, d.IsTruncated ∧ short.1 = .error d) ∨ long = (short.1, short.2 ++ more)

/-- Bytes behind the part that is taken stay where they are. -/
theorem extends_take (part : Part) (n : Nat) (b more : Bytes) :
    Extends more (take part n b) (take part n (b ++ more)) := by
  by_cases hn : b.length < n
  · exact .inl ⟨_, ⟨part, n, b.length, hn, rfl⟩, by rw [take, if_pos hn]⟩
  · have hle := not_lt.mp hn
    have hlong : ¬ (b ++ more).length < n := by
      rw [List.length_append]
      omega
    refine .inr ?_
    rw [take, take, if_neg hn, if_neg hlong, List.take_append_of_le_length hle,
      List.drop_append_of_le_length hle]

theorem Extends.onValue {short long : Except Defect α × Bytes} (h : Extends more short long)
    (f : α → β) : Extends more (onValue f short) (onValue f long) := by
  obtain ⟨d, hd, hshort⟩ | rfl := h
  · exact .inl ⟨d, hd, by rw [Intermediate.onValue, hshort]; rfl⟩
  · exact .inr rfl

theorem takeNumber_eq_onValue (part : Part) (n : Nat) (b : Bytes) :
    takeNumber part n b = onValue ofBigEndian (take part n b) := by
  unfold takeNumber onValue
  rcases take part n b with ⟨d | front, rest⟩ <;> rfl

theorem extends_takeNumber (part : Part) (n : Nat) (b more : Bytes) :
    Extends more (takeNumber part n b) (takeNumber part n (b ++ more)) := by
  rw [takeNumber_eq_onValue, takeNumber_eq_onValue]
  exact (extends_take part n b more).onValue ofBigEndian

theorem extends_decodeBoolean (b more : Bytes) :
    Extends more (decodeBoolean b) (decodeBoolean (b ++ more)) := by
  obtain _ | ⟨byte, rest⟩ := b
  · exact .inl ⟨_, ⟨.boolean, 1, 0, Nat.one_pos, rfl⟩, rfl⟩
  · refine .inr ?_
    rw [List.cons_append, decodeBoolean, decodeBoolean]
    split_ifs <;> rfl

/-- The length decides how much more is asked for, and it is the same in both inputs. -/
theorem extends_decodeBinary (b more : Bytes) :
    Extends more (decodeBinary b) (decodeBinary (b ++ more)) := by
  unfold decodeBinary
  rcases hshort : takeNumber .binaryLength 4 b with ⟨d | n, rest⟩
  · obtain ⟨d', hd, heq⟩ | hlong := extends_takeNumber .binaryLength 4 b more
    · rw [hshort] at heq
      cases heq
      exact .inl ⟨d, hd, rfl⟩
    · rw [hlong, hshort]
      exact .inr rfl
  · obtain ⟨d', -, heq⟩ | hlong := extends_takeNumber .binaryLength 4 b more
    · rw [hshort] at heq
      cases heq
    · rw [hlong, hshort]
      by_cases hn : n ≤ maxLength
      · simp only [if_pos hn]
        exact extends_take .binaryValue n rest more
      · simp only [if_neg hn]
        exact .inr rfl

theorem extends_decodeValue (k : Kind) (b more : Bytes) :
    Extends more (decodeValue k b) (decodeValue k (b ++ more)) := by
  cases k with
  | boolean => exact extends_decodeBoolean b more
  | binary => exact extends_decodeBinary b more
  | _ => exact (extends_takeNumber _ _ b more).onValue _

/-- The bytes of a value end by themselves. Each value that fits has its bytes, and with anything
behind them it is read back and just the rest is left; no other bytes are read as it, and the bytes
of one value are not the front of another's. Nor does anything else that the reader says depend on
what stands behind the part that it has come to. -/
theorem decodeValue_delimited (k : Kind) :
    (∀ v, Fits k v → ∃ front, encodeValue k v = .ok front ∧ IsValue k v front ∧
      ∀ rest, decodeValue k (front ++ rest) = (.ok v, rest)) ∧
    (∀ b v rest, decodeValue k b = (.ok v, rest) →
      Fits k v ∧ ∃ front, encodeValue k v = .ok front ∧ b = front ++ rest) ∧
    (∀ v w front back, encodeValue k v = .ok front → encodeValue k w = .ok back →
      front <+: back → v = w ∧ front = back) ∧
    (∀ b d rest more, decodeValue k b = (.error d, rest) → ¬ d.IsTruncated →
      decodeValue k (b ++ more) = (.error d, rest ++ more)) := by
  refine ⟨?_, ?_, ?_, ?_⟩
  · intro v hv
    obtain ⟨front, hfront⟩ := exists_encodeValue_iff.mpr hv
    exact ⟨front, hfront, encodeValue_eq_ok_iff.mp hfront,
      fun rest => decodeValue_eq_ok_iff.mpr ⟨front, hfront, rfl⟩⟩
  · intro b v rest h
    obtain ⟨front, hfront, hb⟩ := decodeValue_eq_ok_iff.mp h
    exact ⟨exists_encodeValue_iff.mp ⟨front, hfront⟩, front, hfront, hb⟩
  · rintro v w front _ hfront hback ⟨rest, rfl⟩
    have hv : decodeValue k (front ++ rest) = (.ok v, rest) :=
      decodeValue_eq_ok_iff.mpr ⟨front, hfront, rfl⟩
    have hw : decodeValue k (front ++ rest) = (.ok w, []) :=
      decodeValue_eq_ok_iff.mpr ⟨front ++ rest, hback, (List.append_nil _).symm⟩
    rw [hv, Prod.mk.injEq, Except.ok.injEq] at hw
    obtain ⟨rfl, rfl⟩ := hw
    exact ⟨rfl, (List.append_nil front).symm⟩
  · intro b d rest more h hd
    obtain ⟨d', hd', heq⟩ | hlong := extends_decodeValue k b more
    · rw [h] at heq
      cases heq
      exact absurd hd' hd
    · rw [hlong, h]

/-- Two bytes with a third behind them, and a length that is refused with more behind it. -/
theorem decodeValue_delimited_twoBytes :
    Fits .binary [1, 2] ∧
    (∃ front, encodeValue .binary [1, 2] = .ok front ∧
      decodeValue .binary (front ++ [3]) = (.ok [1, 2], [3])) ∧
    (∃ front, encodeValue .binary [1, 2] = .ok front ∧ [0, 0, 0, 2, 1, 2, 3] = front ++ [3]) ∧
    decodeValue .binary ([128, 0, 0, 0, 7] ++ [9]) =
      (.error (.negativeLength (-2147483648)), [7] ++ [9]) := by
  have hfits : Fits .binary [1, 2] := show 2 ≤ 2147483647 by omega
  obtain ⟨hwrites, hreads, -, hrefuses⟩ := decodeValue_delimited .binary
  obtain ⟨front, hfront, -, hback⟩ := hwrites [1, 2] hfits
  refine ⟨hfits, ⟨front, hfront, hback [3]⟩, (hreads _ [1, 2] [3] (by decide)).2, ?_⟩
  refine hrefuses [128, 0, 0, 0, 7] _ [7] [9] (by decide) ?_
  rintro ⟨_, _, _, -, ⟨⟩⟩

end Earliest.Intermediate
