import Earliest.Proofs.Column.Cells
import Earliest.Proofs.FirstBy.View

/-! What a batch of rows offers to the groups. A row of an input offers a candidate when its `y`
and its time are valid, and a row of intermediate states offers the state it encodes. A batch
that passes the checks is offered row by row; only a state that cannot be read stops it, and
what stands before that one stays offered. -/

namespace Earliest

variable {k : Kind}

theorem Kind.physical_ne_untypedNull (k : Kind) : k.physical ≠ .untypedNull := by
  cases k <;> nofun

/-- A row of an input. Of `y` it matters only whether it is valid. -/
structure Row (k : Kind) where
  group : Nat
  x : Option k.Value
  y : Bool
  time : Option Int64

/-- The row's candidate, if the row counts. -/
def Row.candidate? (r : Row k) : Option (Candidate k) :=
  if r.y then r.time.map fun t => ⟨t, r.x⟩ else none

/-- The rows of an input, in order; `ids` names the group of each. -/
def rowsOf (k : Kind) (ids : List Nat) (x y time : Column) : List (Row k) :=
  ids.zipIdx.map fun (group, i) => ⟨group, x.cell k.physical i, y.shows i, time.cell .int64 i⟩

/-- What rows offer. -/
def offersOf (rows : List (Row k)) : List (Nat × Candidate k) :=
  rows.filterMap fun r => r.candidate?.map (r.group, ·)

/-- What rows from number `first` on offer, when `found` gives the candidate of each. -/
def offersFrom (found : Nat → Option (Candidate k)) (first : Nat) (ids : List Nat) :
    List (Nat × Candidate k) :=
  (ids.zipIdx first).filterMap fun (group, i) => (found i).map (group, ·)

/-- The state that a row of intermediate states encodes, if it encodes one. -/
def stateAt (k : Kind) (input : Column) (i : Nat) : Option (Candidate k) :=
  (input.cell .binary i).bind fun bytes => (Intermediate.decode k bytes).toOption

/-- What a column of intermediate states offers; `ids` names the group of each row. -/
def statesOf (k : Kind) (ids : List Nat) (input : Column) : List (Nat × Candidate k) :=
  offersFrom (stateAt k input) 0 ids

namespace Accumulator

variable {a : Accumulator k} {ids rest : List Nat} {row group : Nat} {input x y time : Column}
  {found : Nat → Option (Candidate k)} {read : Nat → Except Fault (Option (Candidate k))}

/-! ## Absorbing -/

theorem offersFrom_cons (found : Nat → Option (Candidate k)) (first group : Nat)
    (ids : List Nat) :
    offersFrom found first (group :: ids) =
      ((found first).map (group, ·)).toList ++ offersFrom found (first + 1) ids := by
  cases h : found first <;> simp [offersFrom, h]

theorem offersFrom_append (found : Nat → Option (Candidate k)) (first : Nat)
    (ids ids' : List Nat) :
    offersFrom found first (ids ++ ids') =
      offersFrom found first ids ++ offersFrom found (first + ids.length) ids' := by
  rw [offersFrom, List.zipIdx_append, List.filterMap_append]
  rfl

/-- Only the rows that the ids reach matter. -/
theorem offersFrom_congr {found found' : Nat → Option (Candidate k)} {first : Nat}
    (h : ∀ i < ids.length, found (first + i) = found' (first + i)) :
    offersFrom found first ids = offersFrom found' first ids := by
  unfold offersFrom
  apply List.filterMap_congr
  intro p hp
  obtain ⟨hle, hlt, -⟩ := List.mem_zipIdx hp
  have hrow := h (p.2 - first) (by omega)
  rw [Nat.add_sub_cancel' hle] at hrow
  show (found p.2).map (p.1, ·) = (found' p.2).map (p.1, ·)
  rw [hrow]

theorem announces_offersFrom (h : ∀ g ∈ ids, g < a.groupCount) (first : Nat) :
    a.Announces (offersFrom found first ids) := by
  intro offer hoffer
  obtain ⟨p, hp, hfound⟩ := List.mem_filterMap.mp hoffer
  obtain ⟨c, -, rfl⟩ := Option.map_eq_some_iff.mp hfound
  exact h p.1 (List.fst_mem_of_mem_zipIdx hp)

/-- Rows that can be read are offered, and the rest is absorbed after them. -/
theorem absorb_append (ha : a.Sound) (hids : ∀ g ∈ ids, g < a.groupCount)
    (hread : ∀ i < ids.length, read (row + i) = .ok (found (row + i))) :
    a.absorb read row (ids ++ rest) =
      (a.offerAll (offersFrom found row ids)).absorb read (row + ids.length) rest := by
  induction ids generalizing a row with
  | nil => rfl
  | cons group ids ih =>
    have hg := hids group List.mem_cons_self
    have hfirst : read row = .ok (found row) := hread 0 (Nat.succ_pos _)
    have hrest : ∀ i < ids.length, read (row + 1 + i) = .ok (found (row + 1 + i)) := by
      intro i hi
      rw [Nat.add_assoc, Nat.add_comm 1 i]
      exact hread (i + 1) (Nat.succ_lt_succ hi)
    rw [List.cons_append, absorb, hfirst, offersFrom_cons, List.length_cons,
      show row + (ids.length + 1) = row + 1 + ids.length by omega]
    cases found row with
    | none => exact ih ha (fun g h => hids g (List.mem_cons_of_mem _ h)) hrest
    | some c =>
      simp only [ha.covers hg, if_true]
      refine ih (ha.offer hg c) ?_ hrest
      intro g h
      rw [groupCount_offer]
      exact hids g (List.mem_cons_of_mem _ h)

theorem absorb_all (ha : a.Sound) (hids : ∀ g ∈ ids, g < a.groupCount)
    (hread : ∀ i < ids.length, read i = .ok (found i)) :
    a.absorb read 0 ids = (.ok (), a.offerAll (offersFrom found 0 ids)) := by
  have h : a.absorb read 0 (ids ++ []) =
      (a.offerAll (offersFrom found 0 ids)).absorb read (0 + ids.length) [] := by
    apply absorb_append ha hids
    intro i hi
    rw [Nat.zero_add]
    exact hread i hi
  rwa [List.append_nil] at h

/-- The first row that cannot be read ends the call with its fault. -/
theorem absorb_failing {f : Fault} (ha : a.Sound) (hids : ∀ g ∈ ids, g < a.groupCount)
    (hrow : row < ids.length) (hread : ∀ i < row, read i = .ok (found i))
    (hf : read row = .error f) :
    a.absorb read 0 ids = (.error f, a.offerAll (offersFrom found 0 (ids.take row))) := by
  have hlen : (ids.take row).length = row := List.length_take_of_le hrow.le
  have h : a.absorb read 0 (ids.take row ++ ids.drop row) =
      (a.offerAll (offersFrom found 0 (ids.take row))).absorb read (0 + (ids.take row).length)
        (ids.drop row) := by
    refine absorb_append ha ?_ ?_
    · intro g hg
      exact hids g (List.mem_of_mem_take hg)
    · intro i hi
      rw [Nat.zero_add]
      exact hread i (hlen ▸ hi)
  rw [List.take_append_drop, Nat.zero_add, hlen, List.drop_eq_getElem_cons hrow] at h
  rw [h, absorb, hf]

/-! ## Inputs -/

/-- The columns and the group ids of an input that passes the checks of an accumulator with
`count` groups. -/
structure Takes (k : Kind) (count : Nat) (ids : List Nat) (x y time : Column) : Prop where
  xLen : x.len = ids.length
  yLen : y.len = ids.length
  timeLen : time.len = ids.length
  timeType : time.physical = .int64
  xType : x.physical = k.physical
  ids : ∀ g ∈ ids, g < count

theorem checkGroups_eq_ok_iff : a.checkGroups ids = .ok () ↔ ∀ g ∈ ids, g < a.groupCount := by
  unfold checkGroups
  split
  · rename_i group h
    obtain ⟨hmem, hle⟩ := List.mem_of_find?_eq_some h, List.find?_some h
    simp only [reduceCtorEq, false_iff]
    intro hall
    exact absurd (hall group hmem) (not_lt.mpr (of_decide_eq_true hle))
  · rename_i h
    simpa using h

theorem checkInput_eq_ok_iff :
    a.checkInput ids x y time = .ok () ↔ Takes k a.groupCount ids x y time := by
  unfold checkInput
  constructor
  · intro h
    split at h
    · cases h
    · rename_i hx
      split at h
      · cases h
      · rename_i hy
        split at h
        · cases h
        · rename_i ht
          split at h
          · cases h
          · rename_i htype
            split at h
            · cases h
            · rename_i hxType
              exact ⟨not_not.mp hx, not_not.mp hy, not_not.mp ht, not_not.mp htype,
                not_not.mp hxType, checkGroups_eq_ok_iff.mp h⟩
  · rintro ⟨hx, hy, ht, htype, hxType, hids⟩
    simp [hx, hy, ht, htype, hxType, checkGroups_eq_ok_iff.mpr hids]

/-- Every row of an accepted input can be read. -/
theorem inputCandidate_eq (h : Takes k a.groupCount ids x y time) (hx : x.WellFormed)
    (hy : y.WellFormed) (ht : time.WellFormed) {i : Nat} (hi : i < ids.length) :
    inputCandidate k x y time i =
      .ok (Row.candidate? ⟨group, x.cell k.physical i, y.shows i, time.cell .int64 i⟩) := by
  unfold inputCandidate Row.candidate?
  rw [Column.valid_eq hy (h.yLen ▸ hi),
    Column.stored_eq ht h.timeType nofun (h.timeLen ▸ hi),
    Column.stored_eq hx h.xType (Kind.physical_ne_untypedNull k) (h.xLen ▸ hi)]
  cases y.shows i with
  | false => rfl
  | true => cases time.cell .int64 i <;> rfl

theorem offersOf_rowsOf (k : Kind) (ids : List Nat) (x y time : Column) :
    offersOf (rowsOf k ids x y time) =
      offersFrom (fun i =>
        Row.candidate? ⟨0, x.cell k.physical i, y.shows i, time.cell .int64 i⟩) 0 ids := by
  rw [offersOf, rowsOf, List.filterMap_map]
  rfl

theorem Takes.announces (h : Takes k a.groupCount ids x y time) :
    a.Announces (offersOf (rowsOf k ids x y time)) := by
  rw [offersOf_rowsOf]
  exact announces_offersFrom h.ids 0

/-- An input that passes the checks is offered row by row. -/
theorem addInput_eq (ha : a.Sound) (h : Takes k a.groupCount ids x y time) (hx : x.WellFormed)
    (hy : y.WellFormed) (ht : time.WellFormed) :
    a.addInput ids [x, y, time] = (.ok (), a.offerAll (offersOf (rowsOf k ids x y time))) := by
  simp only [addInput, checkInput_eq_ok_iff.mpr h]
  rw [offersOf_rowsOf]
  apply absorb_all ha h.ids
  intro i hi
  exact inputCandidate_eq h hx hy ht hi

/-- An input is accepted as a whole or leaves the accumulator as it was. -/
theorem addInput_cases (ids : List Nat) {inputs : List Column} (ha : a.Sound)
    (hinputs : ∀ c ∈ inputs, c.WellFormed) :
    (∃ x y time, inputs = [x, y, time] ∧ Takes k a.groupCount ids x y time ∧
      a.addInput ids inputs = (.ok (), a.offerAll (offersOf (rowsOf k ids x y time)))) ∨
    ∃ f, a.addInput ids inputs = (.error f, a) := by
  rcases inputs with _ | ⟨x, _ | ⟨y, _ | ⟨time, _ | ⟨z, more⟩⟩⟩⟩
  · exact .inr ⟨_, rfl⟩
  · exact .inr ⟨_, rfl⟩
  · exact .inr ⟨_, rfl⟩
  · rcases hcheck : a.checkInput ids x y time with f | _
    · exact .inr ⟨f, by simp only [addInput, hcheck]⟩
    · have hx := hinputs x (by simp)
      have hy := hinputs y (by simp)
      have ht := hinputs time (by simp)
      have htakes := checkInput_eq_ok_iff.mp hcheck
      exact .inl ⟨x, y, time, rfl, htakes, addInput_eq ha htakes hx hy ht⟩
  · exact .inr ⟨_, rfl⟩

/-! ## Intermediate states -/

/-- The column and the group ids of intermediate states that pass the checks. -/
structure TakesStates (a : Accumulator k) (ids : List Nat) (input : Column) : Prop where
  type : input.physical = .binary
  len : input.len = ids.length
  ids : ∀ g ∈ ids, g < a.groupCount

/-- A row whose bytes do not encode a state. -/
def Malformed (k : Kind) (input : Column) (row : Nat) (d : Intermediate.Defect) : Prop :=
  ∃ bytes, input.cell .binary row = some bytes ∧ Intermediate.decode k bytes = .error d

theorem checkIntermediate_eq_ok_iff :
    a.checkIntermediate ids input = .ok () ↔ a.TakesStates ids input := by
  unfold checkIntermediate
  constructor
  · intro h
    split at h
    · cases h
    · rename_i htype
      split at h
      · cases h
      · rename_i hlen
        exact ⟨not_not.mp htype, not_not.mp hlen, checkGroups_eq_ok_iff.mp h⟩
  · rintro ⟨htype, hlen, hids⟩
    simp [htype, hlen, checkGroups_eq_ok_iff.mpr hids]

/-- A failed check does not name a malformed row. -/
theorem checkIntermediate_ne_malformedRow {d : Intermediate.Defect} :
    a.checkIntermediate ids input ≠ .error (.malformedRow row d) := by
  unfold checkIntermediate checkGroups
  split
  · nofun
  · split
    · nofun
    · split <;> nofun

theorem Malformed.read_eq {i : Nat} {d : Intermediate.Defect} (hd : Malformed k input i d)
    (h : a.TakesStates ids input) (hinput : input.WellFormed) (hi : i < ids.length) :
    intermediateCandidate k input i = .error (.malformedRow i d) := by
  obtain ⟨bytes, hcell, hbytes⟩ := hd
  rw [intermediateCandidate, Column.stored_eq hinput h.type nofun (h.len ▸ hi), hcell]
  simp only [hbytes]

/-- A row that is not malformed can be read. -/
theorem intermediateCandidate_eq (h : a.TakesStates ids input) (hinput : input.WellFormed)
    {i : Nat} (hi : i < ids.length) (hd : ∀ d, ¬ Malformed k input i d) :
    intermediateCandidate k input i = .ok (stateAt k input i) := by
  rw [intermediateCandidate, Column.stored_eq hinput h.type nofun (h.len ▸ hi), stateAt]
  rcases hcell : input.cell .binary i with _ | bytes
  · rfl
  · rcases hbytes : Intermediate.decode k bytes with d | c
    · exact absurd ⟨bytes, hcell, hbytes⟩ (hd d)
    · simp only [hbytes, Option.bind_some, Except.toOption]

theorem TakesStates.announces (h : a.TakesStates ids input) :
    a.Announces (statesOf k ids input) := announces_offersFrom h.ids 0

/-- States that pass the checks and can all be read are offered row by row. -/
theorem addIntermediate_eq (ha : a.Sound) (h : a.TakesStates ids input)
    (hinput : input.WellFormed) (hall : ∀ i < ids.length, ∀ d, ¬ Malformed k input i d) :
    a.addIntermediate ids input = (.ok (), a.offerAll (statesOf k ids input)) := by
  simp only [addIntermediate, checkIntermediate_eq_ok_iff.mpr h]
  apply absorb_all ha h.ids
  intro i hi
  exact intermediateCandidate_eq h hinput hi (hall i hi)

/-- Of states that pass the checks, those before the first malformed row are offered. -/
theorem addIntermediate_malformed {d : Intermediate.Defect} (ha : a.Sound)
    (h : a.TakesStates ids input) (hinput : input.WellFormed) (hrow : row < ids.length)
    (hd : Malformed k input row d) (hbefore : ∀ i < row, ∀ d, ¬ Malformed k input i d) :
    a.addIntermediate ids input =
      (.error (.malformedRow row d), a.offerAll (statesOf k (ids.take row) input)) := by
  simp only [addIntermediate, checkIntermediate_eq_ok_iff.mpr h]
  refine absorb_failing ha h.ids hrow ?_ (hd.read_eq h hinput hrow)
  intro i hi
  exact intermediateCandidate_eq h hinput (hi.trans hrow) (hbefore i hi)

/-- The first malformed row, if there is one. -/
theorem malformed_cases (k : Kind) (ids : List Nat) (input : Column) :
    (∀ i < ids.length, ∀ d, ¬ Malformed k input i d) ∨
    ∃ row d, row < ids.length ∧ Malformed k input row d ∧
      ∀ i < row, ∀ d, ¬ Malformed k input i d := by
  classical
  by_cases hex : ∃ row, row < ids.length ∧ ∃ d, Malformed k input row d
  · obtain ⟨hrow, d, hd⟩ := Nat.find_spec hex
    refine .inr ⟨Nat.find hex, d, hrow, hd, ?_⟩
    intro i hi d hd
    exact Nat.find_min hex hi ⟨hi.trans hrow, d, hd⟩
  · left
    intro i hi d hd
    exact hex ⟨i, hi, d, hd⟩

end Accumulator

end Earliest
