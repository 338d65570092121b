import Earliest.Proofs.Column.Store

/-! Byte strings kept end to end. The offsets of a container say where each string that was pushed
begins and ends, so that all of them can be told apart again, empty ones among them, and two
containers are the same only if they keep the same strings. -/

namespace Earliest

namespace ByteStrings

variable {s s' : ByteStrings} {strings strings' : List Bytes}

/-! ## Offsets -/

theorem Holds.offset_eq (h : s.Holds strings) {i n : Nat} (hn : s.offsets[i]? = some n) :
    i ≤ strings.length ∧ n = (strings.take i).flatten.length := by
  obtain ⟨hi, -⟩ := Array.getElem?_eq_some_iff.mp hn
  have hle : i ≤ strings.length := by
    rw [h.count] at hi
    omega
  exact ⟨hle, Option.some.inj (hn.symm.trans (h.offset i hle))⟩

theorem length_flatten_take_le (strings : List Bytes) {i j : Nat} (hij : i ≤ j) :
    (strings.take i).flatten.length ≤ (strings.take j).flatten.length := by
  obtain ⟨between, hbetween⟩ : strings.take i <+: strings.take j :=
    List.take_prefix_take_left hij
  rw [← hbetween, List.flatten_append, List.length_append]
  exact Nat.le_add_right _ _

/-! ## Reading by a machine word -/

/-- As `get?` of the word, with a successor that wraps. -/
def getWord? (s : ByteStrings) (i : UInt64) : Option Bytes :=
  match s.offsets[i.toNat]? with
  | none => none
  | some first =>
    match s.offsets[(i + 1).toNat]? with
    | none => none
    | some last =>
      if first ≤ last ∧ last ≤ s.bytes.size then some (s.bytes.extract first last).toList else none

/-- The successor wraps for the largest word alone, and no offset has that number. -/
theorem getWord?_eq (hsize : s.offsets.size < 2 ^ 64) (i : UInt64) :
    s.getWord? i = s.get? i.toNat := by
  rw [getWord?, ByteStrings.get?]
  rcases hfirst : s.offsets[i.toNat]? with _ | first
  · rfl
  · obtain ⟨hi, -⟩ := Array.getElem?_eq_some_iff.mp hfirst
    have hsucc : (i + 1).toNat = i.toNat + 1 := by
      rw [UInt64.toNat_add]
      exact Nat.mod_eq_of_lt (show i.toNat + 1 < 2 ^ 64 by omega)
    rw [hsucc]
    rcases s.offsets[i.toNat + 1]? with _ | last <;> rfl

/-! ## What is kept -/

/-- What can be seen of a container that keeps these strings. -/
structure Lists (s : ByteStrings) (strings : List Bytes) : Prop where
  count : s.offsets.size = strings.length + 1
  first : s.offsets[0]? = some 0
  ascending : ∀ i j m n : Nat, i ≤ j → s.offsets[i]? = some m → s.offsets[j]? = some n → m ≤ n
  last : s.offsets[strings.length]? = some s.bytes.size
  bytes : s.bytes.toList = strings.flatten
  size : s.size = strings.length
  within : ∀ (i : Nat) (hi : i < strings.length), s.get? i = some strings[i]
  beyond : ∀ i : Nat, strings.length ≤ i → s.get? i = none
  word : strings.length + 1 < 2 ^ 64 → ∀ i : UInt64, s.getWord? i = s.get? i.toNat

theorem Holds.lists (h : s.Holds strings) : s.Lists strings where
  count := h.count
  first := h.offset 0 (Nat.zero_le _)
  ascending i j m n hij hm hn := by
    rw [(h.offset_eq hm).2, (h.offset_eq hn).2]
    exact length_flatten_take_le strings hij
  last := by rw [h.offset _ le_rfl, List.take_length, h.size_bytes]
  bytes := h.bytes
  size := h.size_eq
  within i hi := (h.get?_eq i).trans (List.getElem?_eq_getElem hi)
  beyond i hi := (h.get?_eq i).trans (List.getElem?_eq_none hi)
  word hlength := getWord?_eq (h.count ▸ hlength)

/-- A container keeps no other strings: those it keeps can be read from it. -/
theorem Holds.unique (h : s.Holds strings) (h' : s.Holds strings') : strings = strings' :=
  List.ext_getElem? fun i => (h.get?_eq i).symm.trans (h'.get?_eq i)

theorem ofList_inj : ofList strings = ofList strings' ↔ strings = strings' := by
  constructor
  · intro heq
    exact (holds_ofList strings).unique (heq ▸ holds_ofList strings')
  · rintro rfl
    rfl

end ByteStrings

namespace ColumnData

variable {d : ColumnData} {strings strings' : List Bytes}

/-! ## Runs -/

/-- The stored values after the strings have been pushed. -/
def pushEach (d : ColumnData) : List Bytes → Attempt ColumnData
  | [] => (.ok (), d)
  | b :: rest =>
    match d.push .binary b with
    | (.ok (), d) => pushEach d rest
    | (.error f, d) => (.error f, d)

theorem push_binary (s : ByteStrings) (b : Bytes) :
    ColumnData.push .binary b ⟨.binary, s⟩ = (.ok (), ⟨.binary, s.push b⟩) := by
  rw [push, values_self]
  rfl

theorem pushEach_binary (s : ByteStrings) (strings : List Bytes) :
    pushEach ⟨.binary, s⟩ strings = (.ok (), ⟨.binary, strings.foldl ByteStrings.push s⟩) := by
  induction strings generalizing s with
  | nil => rfl
  | cons b strings ih =>
    rw [pushEach, push_binary]
    exact ih (s.push b)

theorem eq_of_withRoom? {p : Physical} {capacity : Nat} (h : withRoom? p capacity = some d) :
    d = empty p := by
  unfold withRoom? at h
  split at h
  · exact (Option.some.inj h).symm
  · cases h

theorem pushEach_of_withRoom? {capacity : Nat} (h : withRoom? .binary capacity = some d)
    (strings : List Bytes) : d.pushEach strings = (.ok (), ⟨.binary, .ofList strings⟩) := by
  rw [eq_of_withRoom? h]
  exact pushEach_binary .empty strings

theorem equal_binary_iff {s s' : ByteStrings} :
    ColumnData.equal ⟨.binary, s⟩ ⟨.binary, s'⟩ = true ↔ s = s' := by
  rw [equal, values_self]
  exact decide_eq_true_iff

/-- Pushes always succeed, whatever room there is, and the container that they lead to keeps just
the strings that were pushed, one after another. Two of them compare as equal, and are the same,
only after pushes of the same strings. -/
theorem pushEach_lists {capacity capacity' : Nat} {d d' : ColumnData}
    (strings strings' : List Bytes) (h : withRoom? .binary capacity = some d)
    (h' : withRoom? .binary capacity' = some d') :
    ∃ s s' : ByteStrings, d.pushEach strings = (.ok (), ⟨.binary, s⟩) ∧
      d'.pushEach strings' = (.ok (), ⟨.binary, s'⟩) ∧ s.Lists strings ∧ s'.Lists strings' ∧
      (s = s' ↔ strings = strings') ∧
      (ColumnData.equal ⟨.binary, s⟩ ⟨.binary, s'⟩ = true ↔ strings = strings') := by
  have hinj := @ByteStrings.ofList_inj strings strings'
  refine ⟨.ofList strings, .ofList strings', pushEach_of_withRoom? h strings,
    pushEach_of_withRoom? h' strings', ?_, ?_, hinj, equal_binary_iff.trans hinj⟩
  · exact (ByteStrings.holds_ofList strings).lists
  · exact (ByteStrings.holds_ofList strings').lists

/-- The same bytes in as many strings, cut in other places. -/
theorem pushEach_lists_sameBytes :
    ∃ s s' : ByteStrings, (empty .binary).pushEach [[1, 2], [], [3]] = (.ok (), ⟨.binary, s⟩) ∧
      (empty .binary).pushEach [[1], [2, 3], []] = (.ok (), ⟨.binary, s'⟩) ∧
      s.bytes.toList = s'.bytes.toList ∧ s.get? 1 = some [] ∧
      ColumnData.equal ⟨.binary, s⟩ ⟨.binary, s'⟩ = false := by
  have hroom : withRoom? .binary 0 = some (empty .binary) := rfl
  have hroom' : withRoom? .binary 4 = some (empty .binary) := rfl
  obtain ⟨s, s', hs, hs', hlists, hlists', -, hequal⟩ :=
    pushEach_lists [[1, 2], [], [3]] [[1], [2, 3], []] hroom hroom'
  refine ⟨s, s', hs, hs', hlists.bytes.trans hlists'.bytes.symm, hlists.within 1 (by decide), ?_⟩
  rw [← Bool.not_eq_true, hequal]
  decide

end ColumnData

end Earliest
