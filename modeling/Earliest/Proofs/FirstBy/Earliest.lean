import Mathlib
import Earliest.FirstBy.Intermediate

/-! The earliest of several candidates, and the first one of those on equal timestamps. Keeping
one candidate at a time finds it, and a list counts for no more than its earliest: that is
what lets partial results be merged in any grouping, as long as their order is kept. -/

namespace Earliest.Candidate

variable {k : Kind} {b c d : Candidate k} {l : List (Candidate k)}

/-- A candidate stands until one comes that is strictly earlier. -/
def keep (old : Option (Candidate k)) (c : Candidate k) : Option (Candidate k) :=
  match old with
  | none => some c
  | some b => if b.timestamp ≤ c.timestamp then some b else some c

/-- What is kept of a list. -/
def earliest (l : List (Candidate k)) : Option (Candidate k) := l.foldl keep none

/-- All before `c` are later, and none after it is earlier. -/
def IsEarliest (c : Candidate k) (l : List (Candidate k)) : Prop :=
  ∃ before after, l = before ++ c :: after ∧
    (∀ d ∈ before, c.timestamp < d.timestamp) ∧ ∀ d ∈ after, c.timestamp ≤ d.timestamp

theorem keep_of_le (h : b.timestamp ≤ c.timestamp) : keep (some b) c = some b := if_pos h

theorem keep_of_lt (h : c.timestamp < b.timestamp) : keep (some b) c = some c :=
  if_neg (Int64.not_le.mpr h)

/-- Something is kept, and it is no later than what came and what there was. -/
theorem exists_keep (o : Option (Candidate k)) (c : Candidate k) :
    ∃ d, keep o c = some d ∧ d.timestamp ≤ c.timestamp ∧
      ∀ b, o = some b → d.timestamp ≤ b.timestamp := by
  cases o with
  | none => exact ⟨c, rfl, Int64.le_refl _, nofun⟩
  | some b =>
    by_cases h : b.timestamp ≤ c.timestamp
    · refine ⟨b, keep_of_le h, h, ?_⟩
      intro b' hb'
      cases hb'
      exact Int64.le_refl _
    · have hlt := Int64.not_le.mp h
      refine ⟨c, keep_of_lt hlt, Int64.le_refl _, ?_⟩
      intro b' hb'
      cases hb'
      exact Int64.le_of_lt hlt

theorem earliest_append (l l' : List (Candidate k)) :
    earliest (l ++ l') = l'.foldl keep (earliest l) := List.foldl_append

theorem earliest_concat (l : List (Candidate k)) (c : Candidate k) :
    earliest (l ++ [c]) = keep (earliest l) c := earliest_append l [c]

theorem earliest_eq_none_iff : earliest l = none ↔ l = [] := by
  rcases List.eq_nil_or_concat l with rfl | ⟨l, c, rfl⟩
  · exact iff_of_true rfl rfl
  · obtain ⟨d, hd, -⟩ := exists_keep (earliest l) c
    simp [earliest_concat, hd]

/-! ## Merging -/

/-- Only the earlier of two neighbours matters. -/
theorem keep_keep (o : Option (Candidate k)) (c d : Candidate k) :
    keep (keep o c) d = (keep (some c) d).toList.foldl keep o := by
  by_cases hcd : c.timestamp ≤ d.timestamp
  · rw [keep_of_le hcd, Option.toList_some, List.foldl_cons, List.foldl_nil]
    cases o with
    | none => exact keep_of_le hcd
    | some b =>
      by_cases hbc : b.timestamp ≤ c.timestamp
      · rw [keep_of_le hbc, keep_of_le (Int64.le_trans hbc hcd)]
      · rw [keep_of_lt (Int64.not_le.mp hbc), keep_of_le hcd]
  · have hdc := Int64.not_le.mp hcd
    rw [keep_of_lt hdc, Option.toList_some, List.foldl_cons, List.foldl_nil]
    cases o with
    | none => exact keep_of_lt hdc
    | some b =>
      by_cases hbc : b.timestamp ≤ c.timestamp
      · rw [keep_of_le hbc]
      · have hcb := Int64.not_le.mp hbc
        rw [keep_of_lt hcb, keep_of_lt hdc, keep_of_lt (Int64.lt_trans hdc hcb)]

/-- A list does to a kept candidate what its earliest alone does. -/
theorem foldl_keep (l : List (Candidate k)) (o : Option (Candidate k)) :
    l.foldl keep o = (earliest l).toList.foldl keep o := by
  induction l using List.reverseRecOn with
  | nil => rfl
  | append_singleton l d ih =>
    rw [List.foldl_append, ih, earliest_concat]
    cases earliest l with
    | none => rfl
    | some c => exact keep_keep o c d

/-! ## What the earliest is -/

theorem foldl_keep_of_le (h : ∀ d ∈ l, c.timestamp ≤ d.timestamp) :
    l.foldl keep (some c) = some c := by
  induction l with
  | nil => rfl
  | cons d l ih =>
    rw [List.foldl_cons, keep_of_le (h d List.mem_cons_self)]
    apply ih
    intro e he
    exact h e (List.mem_cons_of_mem d he)

namespace IsEarliest

theorem mem (h : IsEarliest c l) : c ∈ l := by
  obtain ⟨before, after, rfl, -, -⟩ := h
  simp

theorem le (h : IsEarliest c l) (hd : d ∈ l) : c.timestamp ≤ d.timestamp := by
  obtain ⟨before, after, rfl, hbefore, hafter⟩ := h
  rcases List.mem_append.mp hd with hd | hd
  · exact Int64.le_of_lt (hbefore d hd)
  · rcases List.mem_cons.mp hd with rfl | hd
    · exact Int64.le_refl _
    · exact hafter d hd

/-- A candidate added at the end is the earliest only when it is strictly earlier. -/
theorem concat (h : IsEarliest b l) (hc : keep (some b) d = some c) :
    IsEarliest c (l ++ [d]) := by
  by_cases hbd : b.timestamp ≤ d.timestamp
  · rw [keep_of_le hbd] at hc
    cases hc
    obtain ⟨before, after, rfl, hbefore, hafter⟩ := h
    refine ⟨before, after ++ [d], by simp, hbefore, ?_⟩
    intro e he
    rcases List.mem_append.mp he with he | he
    · exact hafter e he
    · exact List.mem_singleton.mp he ▸ hbd
  · have hdb := Int64.not_le.mp hbd
    rw [keep_of_lt hdb] at hc
    cases hc
    refine ⟨l, [], rfl, ?_, nofun⟩
    intro e he
    exact Int64.lt_of_lt_of_le hdb (h.le he)

end IsEarliest

theorem isEarliest_of_earliest_eq (h : earliest l = some c) : IsEarliest c l := by
  induction l using List.reverseRecOn generalizing c with
  | nil => cases h
  | append_singleton l d ih =>
    rw [earliest_concat] at h
    rcases hl : earliest l with _ | b
    · rw [hl] at h
      cases h
      exact ⟨[], [], by rw [earliest_eq_none_iff.mp hl], nofun, nofun⟩
    · exact (ih hl).concat (hl ▸ h)

theorem earliest_eq_some_iff : earliest l = some c ↔ IsEarliest c l := by
  refine ⟨isEarliest_of_earliest_eq, ?_⟩
  intro h
  obtain ⟨before, after, rfl, hbefore, hafter⟩ := h
  have hc : keep (earliest before) c = some c := by
    rcases hb : earliest before with _ | b
    · rfl
    · exact keep_of_lt (hbefore b (isEarliest_of_earliest_eq hb).mem)
  rw [earliest_append, List.foldl_cons, hc, foldl_keep_of_le hafter]

/-! ## Timestamps -/

/-- A list with a candidate has an earliest one, which is no later. -/
theorem exists_isEarliest (h : c ∈ l) : ∃ b, IsEarliest b l ∧ b.timestamp ≤ c.timestamp := by
  rcases hl : earliest l with _ | b
  · rw [earliest_eq_none_iff.mp hl] at h
    cases h
  · have hb := isEarliest_of_earliest_eq hl
    exact ⟨b, hb, hb.le h⟩

/-- What was there is only ever replaced by something earlier. -/
theorem exists_foldl_keep (l : List (Candidate k)) (b : Candidate k) :
    ∃ d, l.foldl keep (some b) = some d ∧ d.timestamp ≤ b.timestamp := by
  rw [foldl_keep]
  cases earliest l with
  | none => exact ⟨b, rfl, Int64.le_refl _⟩
  | some e =>
    obtain ⟨d, hd, -, hle⟩ := exists_keep (some b) e
    exact ⟨d, hd, hle b rfl⟩

/-- After a list, something is held that is no later than any of the list. -/
theorem exists_foldl_keep_of_mem (o : Option (Candidate k)) (h : c ∈ l) :
    ∃ d, l.foldl keep o = some d ∧ d.timestamp ≤ c.timestamp := by
  obtain ⟨e, he, hec⟩ := exists_isEarliest h
  obtain ⟨d, hd, hde, -⟩ := exists_keep o e
  refine ⟨d, ?_, Int64.le_trans hde hec⟩
  rw [foldl_keep, earliest_eq_some_iff.mpr he]
  exact hd

/-- Lists in which each candidate of one is matched by one of the other that is no later have
their earliest on the same timestamp. -/
theorem timestamp_earliest_eq {l l' : List (Candidate k)}
    (h : ∀ c ∈ l, ∃ d ∈ l', d.timestamp ≤ c.timestamp)
    (h' : ∀ d ∈ l', ∃ c ∈ l, c.timestamp ≤ d.timestamp) :
    (earliest l).map timestamp = (earliest l').map timestamp := by
  rcases hl : earliest l with _ | b
  · have hnil : l' = [] := by
      apply List.eq_nil_iff_forall_not_mem.mpr
      intro d hd
      obtain ⟨c, hc, -⟩ := h' d hd
      rw [earliest_eq_none_iff.mp hl] at hc
      cases hc
    rw [earliest_eq_none_iff.mpr hnil]
  · have hb := isEarliest_of_earliest_eq hl
    obtain ⟨d, hd, hdb⟩ := h b hb.mem
    obtain ⟨b', hb', hb'd⟩ := exists_isEarliest hd
    obtain ⟨c, hc, hcb'⟩ := h' b' hb'.mem
    have heq : b.timestamp = b'.timestamp :=
      Int64.le_antisymm (Int64.le_trans (hb.le hc) hcb') (Int64.le_trans hb'd hdb)
    rw [earliest_eq_some_iff.mpr hb', Option.map_some, Option.map_some, heq]

theorem timestamp_earliest_perm {l l' : List (Candidate k)} (h : l.Perm l') :
    (earliest l).map timestamp = (earliest l').map timestamp := by
  apply timestamp_earliest_eq
  · intro c hc
    exact ⟨c, h.mem_iff.mp hc, Int64.le_refl _⟩
  · intro d hd
    exact ⟨d, h.mem_iff.mpr hd, Int64.le_refl _⟩

/-- On one timestamp it is only the value that can tell two earliest apart. -/
theorem earliest_eq_of_timestamp {l l' : List (Candidate k)}
    (htime : (earliest l).map timestamp = (earliest l').map timestamp)
    (hvalue : ∀ c c', IsEarliest c l → IsEarliest c' l' → c.value = c'.value) :
    earliest l = earliest l' := by
  rcases hl : earliest l with _ | c
  · rw [hl, Option.map_none, eq_comm, Option.map_eq_none_iff] at htime
    exact htime.symm
  · rw [hl, Option.map_some, eq_comm, Option.map_eq_some_iff] at htime
    obtain ⟨c', hl', ht⟩ := htime
    have hv := hvalue c c' (isEarliest_of_earliest_eq hl) (isEarliest_of_earliest_eq hl')
    obtain ⟨t, v⟩ := c
    obtain ⟨t', v'⟩ := c'
    cases ht
    cases hv
    exact hl'.symm

example : earliest [(⟨5, some (1 : Int32)⟩ : Candidate .int32), ⟨3, none⟩, ⟨3, some (2 : Int32)⟩] =
    some ⟨3, none⟩ := by decide

end Earliest.Candidate
