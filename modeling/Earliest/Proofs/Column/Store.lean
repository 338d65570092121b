import Mathlib
import Earliest.Column.Data

/-! Stored values as lists. A byte-string container built by pushes gives back each string
that was pushed, in order, and every container grows at its end alone. -/

namespace Earliest

namespace ByteStrings

variable {s : ByteStrings} {l : List Bytes}

/-- The container keeps just these strings. -/
structure Holds (s : ByteStrings) (l : List Bytes) : Prop where
  count : s.offsets.size = l.length + 1
  offset : ∀ i ≤ l.length, s.offsets[i]? = some (l.take i).flatten.length
  bytes : s.bytes.toList = l.flatten

theorem holds_empty : empty.Holds [] where
  count := rfl
  offset i hi := by
    cases Nat.le_zero.mp hi
    rfl
  bytes := rfl

theorem Holds.size_eq (h : s.Holds l) : s.size = l.length := by
  rw [size, h.count, Nat.add_sub_cancel]

theorem Holds.size_bytes (h : s.Holds l) : s.bytes.size = l.flatten.length := by
  rw [← h.bytes, Array.length_toList]

theorem Holds.push (h : s.Holds l) (b : Bytes) : (s.push b).Holds (l ++ [b]) where
  count := by simp [ByteStrings.push, h.count]
  offset i hi := by
    have hlast : s.offsets.size = l.length + 1 := h.count
    rcases Nat.lt_or_eq_of_le hi with hlt | rfl
    · have hle : i ≤ l.length := by simpa [Nat.lt_succ_iff] using hlt
      rw [ByteStrings.push, Array.getElem?_push_lt (by omega), List.take_append_of_le_length hle,
        ← h.offset i hle, Array.getElem?_eq_getElem (by omega)]
    · have hidx : (l ++ [b]).length = s.offsets.size := by simp [hlast]
      rw [List.take_length, hidx, ByteStrings.push, Array.getElem?_push_size, h.size_bytes]
      simp
  bytes := by simp [ByteStrings.push, h.bytes]

theorem flatten_take_succ {i : Nat} (hi : i < l.length) :
    (l.take (i + 1)).flatten = (l.take i).flatten ++ l[i] := by
  rw [← List.take_append_getElem hi, List.flatten_append, List.flatten_singleton]

/-- Reading gives the string of that number, and nothing past the last. -/
theorem Holds.get?_eq (h : s.Holds l) (i : Nat) : s.get? i = l[i]? := by
  rcases Nat.lt_or_ge i l.length with hi | hi
  · have hsucc := flatten_take_succ hi
    have hlen : (l.take (i + 1)).flatten.length ≤ s.bytes.size := by
      rw [h.size_bytes]
      conv_rhs => rw [← List.take_append_drop (i + 1) l, List.flatten_append, List.length_append]
      exact Nat.le_add_right _ _
    have hle : (l.take i).flatten.length ≤ (l.take (i + 1)).flatten.length := by
      rw [hsucc, List.length_append]
      exact Nat.le_add_right _ _
    have hbytes : s.bytes.toList = (l.take i).flatten ++ (l[i] ++ (l.drop (i + 1)).flatten) := by
      rw [h.bytes, ← List.append_assoc, ← hsucc, ← List.flatten_append, List.take_append_drop]
    rw [get?, h.offset i hi.le, h.offset (i + 1) hi]
    dsimp only
    rw [if_pos ⟨hle, hlen⟩, Array.toList_extract, hbytes, List.getElem?_eq_getElem hi, hsucc,
      List.length_append]
    simp [List.extract]
  · have hnone : s.offsets[i + 1]? = none := Array.getElem?_eq_none (by rw [h.count]; omega)
    rw [List.getElem?_eq_none hi, get?, hnone]
    split <;> simp_all

/-- The containers that pushes onto the empty one give. -/
inductive Built : ByteStrings → Prop
  | empty : Built .empty
  | push {s : ByteStrings} (hs : Built s) (b : Bytes) : Built (s.push b)

theorem Built.exists_holds (hs : s.Built) : ∃ l, s.Holds l := by
  induction hs with
  | empty => exact ⟨[], holds_empty⟩
  | push _ b ih =>
    obtain ⟨l, h⟩ := ih
    exact ⟨l ++ [b], h.push b⟩

theorem ofList_append (l : List Bytes) (b : Bytes) : ofList (l ++ [b]) = (ofList l).push b := by
  rw [ofList, List.foldl_append]
  rfl

theorem holds_ofList (l : List Bytes) : (ofList l).Holds l := by
  induction l using List.reverseRecOn with
  | nil => exact holds_empty
  | append_singleton l b ih => exact ofList_append l b ▸ ih.push b

theorem Built.exists_eq_ofList (hs : s.Built) : ∃ l, s = ofList l := by
  induction hs with
  | empty => exact ⟨[], rfl⟩
  | push _ b ih =>
    obtain ⟨l, rfl⟩ := ih
    exact ⟨l ++ [b], (ofList_append l b).symm⟩

end ByteStrings

namespace Store

variable {p : Physical}

/-- A container of byte strings is built by pushes; any other may hold what it likes. -/
def Built : (p : Physical) → p.Store → Prop
  | .binary, s => ByteStrings.Built s
  | _, _ => True

theorem built_empty (p : Physical) : Built p (empty p) := by
  cases p with
  | binary => exact ByteStrings.Built.empty
  | _ => trivial

theorem Built.push {s : p.Store} (hs : Built p s) (v : p.Value) : Built p (push p s v) := by
  cases p with
  | binary => exact ByteStrings.Built.push hs v
  | _ => trivial

theorem Built.pushBlank {s : p.Store} (hs : Built p s) : Built p (pushBlank p s) := by
  cases p with
  | binary => exact ByteStrings.Built.push hs []
  | _ => trivial

theorem size_push {s : p.Store} (hs : Built p s) (v : p.Value) :
    size p (push p s v) = size p s + 1 := by
  cases p with
  | untypedNull => exact nomatch v
  | fixed type => exact Array.size_push v
  | binary =>
    obtain ⟨l, h⟩ := ByteStrings.Built.exists_holds hs
    change ByteStrings.size (ByteStrings.push s v) = ByteStrings.size s + 1
    rw [(h.push v).size_eq, h.size_eq, List.length_append, List.length_singleton]

theorem size_pushBlank {s : p.Store} (hs : Built p s) :
    size p (pushBlank p s) = size p s + 1 := by
  cases p with
  | untypedNull => rfl
  | fixed type => exact Array.size_push _
  | binary => exact size_push (p := .binary) hs []

theorem get?_push_self {s : p.Store} (hs : Built p s) (v : p.Value) :
    get? p (push p s v) (size p s) = some v := by
  cases p with
  | untypedNull => exact nomatch v
  | fixed type => exact Array.getElem?_push_size
  | binary =>
    obtain ⟨l, h⟩ := ByteStrings.Built.exists_holds hs
    change ByteStrings.get? (ByteStrings.push s v) (ByteStrings.size s) = some v
    rw [(h.push v).get?_eq, h.size_eq, List.getElem?_concat_length]

theorem get?_push_of_lt {s : p.Store} (hs : Built p s) (v : p.Value) {i : Nat}
    (hi : i < size p s) : get? p (push p s v) i = get? p s i := by
  cases p with
  | untypedNull => exact nomatch v
  | fixed type =>
    change (Array.push s v)[i]? = s[i]?
    rw [Array.getElem?_push_lt hi, Array.getElem?_eq_getElem hi]
  | binary =>
    obtain ⟨l, h⟩ := ByteStrings.Built.exists_holds hs
    change i < ByteStrings.size s at hi
    change ByteStrings.get? (ByteStrings.push s v) i = ByteStrings.get? s i
    rw [(h.push v).get?_eq, h.get?_eq, List.getElem?_append_left (h.size_eq ▸ hi)]

theorem get?_pushBlank_of_lt {s : p.Store} (hs : Built p s) {i : Nat} (hi : i < size p s) :
    get? p (pushBlank p s) i = get? p s i := by
  cases p with
  | untypedNull => rfl
  | fixed type => exact get?_push_of_lt (p := .fixed type) hs _ hi
  | binary => exact get?_push_of_lt (p := .binary) hs [] hi

/-- Every stored row can be read; an untyped null has no value to read. -/
theorem exists_get? {s : p.Store} (hs : Built p s) (hp : p ≠ .untypedNull) {i : Nat}
    (hi : i < size p s) : ∃ v, get? p s i = some v := by
  cases p with
  | untypedNull => exact absurd rfl hp
  | fixed type => exact ⟨_, Array.getElem?_eq_getElem hi⟩
  | binary =>
    obtain ⟨l, h⟩ := ByteStrings.Built.exists_holds hs
    exact ⟨_, (h.get?_eq i).trans (List.getElem?_eq_getElem (h.size_eq ▸ hi))⟩

end Store

end Earliest
