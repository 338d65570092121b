import Earliest.Proofs.FirstBy.Evaluate
import Earliest.Proofs.FirstBy.Rows

/-! Aggregating in several stages. A plan says how one accumulator is filled: from rows, and from
the states of other accumulators that have plans of their own. Whichever way the same rows are
spread over a plan, as long as their order is kept, the states and the values at its root are
those of one accumulator that takes all of the rows itself. -/

namespace Earliest

/-- How an accumulator is filled, one step after another. A plan that merges nothing loads one
segment of the rows, and one that only merges is an inner node of a tree of merges. -/
inductive Plan where
  | done
  /-- Announces groups, with the memory that the call meets. -/
  | announce (s : Surroundings) (count : Nat) (next : Plan)
  /-- Adds a batch of rows. -/
  | add (ids : List Nat) (x y time : Column) (next : Plan)
  /-- Fills a new accumulator by a plan of its own, and merges the states of its groups. -/
  | merge (minCapacity : Nat) (part next : Plan)

namespace Plan

/-- Why an accumulator was not filled: memory for its groups was refused, or another call failed. -/
inductive Failure where
  | refused (fault : Fault)
  | failed (fault : Fault)

variable {k : Kind}

/-- Fills an accumulator. Of the accumulators that are merged the first `n` groups count. -/
def load (xType yType : DataType) (n : Nat) : Plan → Accumulator k →
    Except Failure (Accumulator k)
  | done, a => .ok a
  | announce s count next, a =>
    match a.setGroupCount s.alloc count s.manager with
    | (.error f, _, _) => .error (.refused f)
    | (.ok (), a, _) => next.load xType yType n a
  | add ids x y time next, a =>
    match a.addInput ids [x, y, time] with
    | (.error f, _) => .error (.failed f)
    | (.ok (), a) => next.load xType yType n a
  | merge minCapacity part next, a =>
    match part.load xType yType n (.new k xType yType minCapacity) with
    | .error f => .error f
    | .ok other =>
      match other.intermediates n with
      | .error f => .error (.failed f)
      | .ok column =>
        match a.addIntermediate (List.range n) column with
        | (.error f, _) => .error (.failed f)
        | (.ok (), a) => next.load xType yType n a

/-- The rows that a plan takes in, in order. -/
def rows (k : Kind) : Plan → List (Row k)
  | done => []
  | announce _ _ next => next.rows k
  | add ids x y time next => rowsOf k ids x y time ++ next.rows k
  | merge _ part next => part.rows k ++ next.rows k

/-- A plan whose columns belong together and whose groups are announced before they are used:
those of a batch before the batch, and the first `n` before states are merged or evaluated. So
far `count` have been. -/
def WellFormed (k : Kind) (n : Nat) : Plan → Nat → Prop
  | done, count => n ≤ count
  | announce _ more next, count => next.WellFormed k n (max count more)
  | add ids x y time next, count =>
    (x.Built ∧ y.Built ∧ time.Built) ∧ Accumulator.Takes k count ids x y time ∧
      next.WellFormed k n count
  | merge _ part next, count => n ≤ count ∧ part.WellFormed k n 0 ∧ next.WellFormed k n count

end Plan

/-- A row whose value can be written. -/
def Row.Fits {k : Kind} (r : Row k) : Prop := ∀ v, r.x = some v → Intermediate.Fits k v

theorem fitsState_of_mem_offersOf {k : Kind} {rows : List (Row k)} {offer : Nat × Candidate k}
    (hrows : ∀ r ∈ rows, r.Fits) (h : offer ∈ offersOf rows) :
    Intermediate.FitsState offer.2 := by
  obtain ⟨r, hr, hoffer⟩ := List.mem_filterMap.mp h
  obtain ⟨c, hc, rfl⟩ := Option.map_eq_some_iff.mp hoffer
  clear hoffer
  unfold Row.candidate? at hc
  split at hc
  · obtain ⟨t, -, rfl⟩ := Option.map_eq_some_iff.mp hc
    unfold Intermediate.FitsState
    cases hx : r.x with
    | none => trivial
    | some v => exact hrows r hr v hx
  · cases hc

namespace Accumulator

variable {k : Kind} {a other : Accumulator k} {column : Column} {g n : Nat}

/-- The candidates that rows hold for a group. -/
def candidatesOf (g : Nat) (rows : List (Row k)) : List (Candidate k) :=
  offeredTo g (offersOf rows)

theorem candidatesOf_append (g : Nat) (l l' : List (Row k)) :
    candidatesOf g (l ++ l') = candidatesOf g l ++ candidatesOf g l' := by
  rw [candidatesOf, offersOf, List.filterMap_append, offeredTo_append]
  rfl

theorem fitsState_of_earliest {rows : List (Row k)} {c : Candidate k}
    (hrows : ∀ r ∈ rows, r.Fits) (h : Candidate.earliest (candidatesOf g rows) = some c) :
    Intermediate.FitsState c := by
  have hmem := (Candidate.earliest_eq_some_iff.mp h).mem
  obtain ⟨offer, hoffer, rfl⟩ := List.mem_map.mp hmem
  exact fitsState_of_mem_offersOf hrows (List.mem_filter.mp hoffer).1

/-! ## Merging one accumulator -/

theorem offeredTo_offersFrom_of_not_mem {found : Nat → Option (Candidate k)} {first : Nat}
    {ids : List Nat} (h : g ∉ ids) : offeredTo g (offersFrom found first ids) = [] := by
  induction ids generalizing first with
  | nil => rfl
  | cons group ids ih =>
    have hne : g ≠ group := fun he => h (he ▸ List.mem_cons_self)
    rw [offersFrom_cons, offeredTo_append, ih fun hmem => h (List.mem_cons_of_mem _ hmem),
      List.append_nil]
    cases found first with
    | none => rfl
    | some c => exact offeredTo_cons_of_ne hne c []

/-- A column with one row for each of the first groups offers each of them its row. -/
theorem offeredTo_offersFrom_range {found : Nat → Option (Candidate k)} (hg : g < n) :
    offeredTo g (offersFrom found 0 (List.range n)) = (found g).toList := by
  induction n with
  | zero => omega
  | succ n ih =>
    rw [List.range_succ, offersFrom_append, offeredTo_append, List.length_range, Nat.zero_add]
    by_cases hn : g < n
    · have hlast : g ∉ [n] := by simpa using hn.ne
      rw [ih hn, offeredTo_offersFrom_of_not_mem hlast, List.append_nil]
    · obtain rfl : g = n := by omega
      rw [offeredTo_offersFrom_of_not_mem (by simp), List.nil_append, offersFrom_cons,
        offeredTo_append]
      cases found g with
      | none => rfl
      | some c => exact congrArg (· ++ []) (offeredTo_cons_self g c [])

theorem len_of_cells_eq {value : Nat → Option Bytes}
    (h : column.cells .binary = (List.range n).map value) : column.len = n := by
  have hlen := congrArg List.length h
  rwa [List.length_map, List.length_range, Column.length_cells] at hlen

theorem cell_of_cells_eq {value : Nat → Option Bytes} (hg : g < n)
    (h : column.cells .binary = (List.range n).map value) : column.cell .binary g = value g := by
  have hlen := len_of_cells_eq h
  have hcell := congrArg (·[g]?) h
  simpa [Column.cells, hlen, hg] using hcell

/-- The states that an accumulator evaluates to are read back as what its groups hold. -/
theorem stateAt_eq {value : Nat → Option (Candidate k)} (hg : g < n)
    (h : column.cells .binary = (List.range n).map fun g => stateBytes (value g))
    (hfits : ∀ c, value g = some c → Intermediate.FitsState c) :
    stateAt k column g = value g ∧ ∀ d, ¬ Malformed k column g d := by
  have hcell := cell_of_cells_eq hg h
  rcases hv : value g with _ | c
  · rw [hv] at hcell
    refine ⟨by rw [stateAt, hcell]; rfl, ?_⟩
    rintro d ⟨bytes, hbytes, -⟩
    rw [hcell] at hbytes
    cases hbytes
  · obtain ⟨bytes, hencode⟩ := Intermediate.exists_encode_iff.mpr (hfits c hv)
    have hdecode := Intermediate.decode_eq_ok_iff_encode.mpr hencode
    have hstate : stateBytes (value g) = some bytes := by
      rw [hv, stateBytes, Option.bind_some, hencode]
      rfl
    rw [hstate] at hcell
    refine ⟨by rw [stateAt, hcell, Option.bind_some, hdecode]; rfl, ?_⟩
    rintro d ⟨b, hb, hd⟩
    rw [hcell] at hb
    cases hb
    rw [hdecode] at hd
    cases hd

/-- The column that an accumulator evaluates to can be taken in under any group ids, and its rows
offer what the groups hold. -/
theorem addIntermediate_intermediates {ids : List Nat} (ho : other.Sound)
    (hother : n ≤ other.groupCount) (hcolumn : other.intermediates n = .ok column) (ha : a.Sound)
    (hlen : ids.length = n) (hids : ∀ g ∈ ids, g < a.groupCount) :
    a.addIntermediate ids column = (.ok (), a.offerAll (offersFrom other.view 0 ids)) := by
  have hfits := fitsState_of_intermediates ho hother hcolumn
  obtain ⟨column', hcolumn', hw, htype, hcells⟩ := exists_intermediates ho hother hfits
  cases hcolumn.symm.trans hcolumn'
  have htakes : a.TakesStates ids column := ⟨htype, (len_of_cells_eq hcells).trans hlen.symm, hids⟩
  have hread : ∀ g < n, stateAt k column g = other.view g ∧ ∀ d, ¬ Malformed k column g d := by
    intro g hg
    exact stateAt_eq hg hcells (hfits g hg)
  have hoffers : statesOf k ids column = offersFrom other.view 0 ids := by
    apply offersFrom_congr
    intro i hi
    rw [Nat.zero_add]
    exact (hread i (hlen ▸ hi)).1
  rw [← hoffers]
  apply addIntermediate_eq ha htakes hw
  intro i hi
  exact (hread i (hlen ▸ hi)).2

/-- Merging succeeds, and each group is offered what the other accumulator's group holds. -/
theorem exists_merged (ha : a.Sound) (hn : n ≤ a.groupCount) (ho : other.Sound)
    (hother : n ≤ other.groupCount)
    (hfits : ∀ g < n, ∀ c, other.view g = some c → Intermediate.FitsState c) :
    ∃ column offers, other.intermediates n = .ok column ∧ a.Announces offers ∧
      a.addIntermediate (List.range n) column = (.ok (), a.offerAll offers) ∧
      ∀ g < n, offeredTo g offers = (other.view g).toList := by
  obtain ⟨column, hcolumn, -⟩ := exists_intermediates ho hother hfits
  have hids : ∀ g ∈ List.range n, g < a.groupCount :=
    fun g hg => (List.mem_range.mp hg).trans_le hn
  refine ⟨column, offersFrom other.view 0 (List.range n), hcolumn,
    announces_offersFrom hids 0, ?_, ?_⟩
  · exact addIntermediate_intermediates ho hother hcolumn ha List.length_range hids
  · intro g hg
    exact offeredTo_offersFrom_range hg

end Accumulator

namespace Plan

open Accumulator

variable {k : Kind} {n : Nat} {xType yType : DataType} {p q : Plan} {a a' b : Accumulator k}
  {rows more : List (Row k)}

/-! ## Filling an accumulator -/

/-- An accumulator that has taken rows in: its first groups hold the earliest of what they held
and the rows. -/
structure Filled (n : Nat) (rows : List (Row k)) (a a' : Accumulator k) : Prop where
  sound : a'.Sound
  groups : n ≤ a'.groupCount
  xType : a'.xType = a.xType
  view : ∀ g < n, a'.view g = (candidatesOf g rows).foldl Candidate.keep (a.view g)

theorem Filled.after (h : Filled n more b a') (hx : b.xType = a.xType)
    (hview : ∀ g < n, b.view g = (candidatesOf g rows).foldl Candidate.keep (a.view g)) :
    Filled n (rows ++ more) a a' where
  sound := h.sound
  groups := h.groups
  xType := h.xType.trans hx
  view g hg := by rw [h.view g hg, hview g hg, candidatesOf_append, List.foldl_append]

theorem Filled.view_new {minCapacity : Nat}
    (h : Filled n rows (new k xType yType minCapacity) a') {g : Nat} (hg : g < n) :
    a'.view g = Candidate.earliest (candidatesOf g rows) := by
  rw [h.view g hg, Accumulator.view_new, Candidate.earliest]

/-- A plan whose parts belong together fails only when memory is refused. -/
theorem load_cases (ha : a.Sound) (hp : p.WellFormed k n a.groupCount)
    (hrows : ∀ r ∈ p.rows k, r.Fits) :
    (∃ f, p.load xType yType n a = .error (.refused f)) ∨
    ∃ a', p.load xType yType n a = .ok a' ∧ Filled n (p.rows k) a a' := by
  induction p generalizing a with
  | done => exact .inr ⟨a, rfl, ha, hp, rfl, fun g _ => rfl⟩
  | announce s count next ih =>
    rcases hset : a.setGroupCount s.alloc count s.manager with ⟨f | _, b, m⟩
    · exact .inl ⟨f, by simp only [load, hset]⟩
    · have hannounced := setGroupCount_announced hset
      have hgroups : b.groupCount = max a.groupCount count := hannounced.accepted rfl
      simp only [load, hset]
      rcases ih (hannounced.sound ha) (hgroups ▸ hp) hrows with hrefused | ⟨a', hload, hfilled⟩
      · exact .inl hrefused
      · have hview : ∀ g < n, b.view g =
            (candidatesOf g ([] : List (Row k))).foldl Candidate.keep (a.view g) := by
          intro g _
          exact hannounced.view_eq ha g
        exact .inr ⟨a', hload, hfilled.after hannounced.types.1 hview⟩
  | add ids x y time next ih =>
    obtain ⟨⟨hx, hy, ht⟩, htakes, hnext⟩ := hp
    have hadd := addInput_eq ha htakes hx.wellFormed hy.wellFormed ht.wellFormed
    have hannounces := htakes.announces
    simp only [load, hadd]
    rcases ih (ha.offerAll hannounces) (by rwa [groupCount_offerAll])
      (fun r hr => hrows r (List.mem_append_right _ hr)) with hrefused | ⟨a', hload, hfilled⟩
    · exact .inl hrefused
    · have hview : ∀ g < n, (a.offerAll (offersOf (rowsOf k ids x y time))).view g =
          (candidatesOf g (rowsOf k ids x y time)).foldl Candidate.keep (a.view g) := by
        intro g _
        exact view_offerAll ha hannounces g
      exact .inr ⟨a', hload, hfilled.after (xType_offerAll a _) hview⟩
  | merge minCapacity part next ihPart ihNext =>
    obtain ⟨hn, hpart, hnext⟩ := hp
    have hpartRows : ∀ r ∈ part.rows k, r.Fits := by
      intro r hr
      exact hrows r (List.mem_append_left _ hr)
    rcases ihPart (sound_new k xType yType minCapacity) hpart hpartRows with
      ⟨f, hrefused⟩ | ⟨other, hother, hfilled⟩
    · exact .inl ⟨f, by simp only [load, hrefused]⟩
    · have hfits : ∀ g < n, ∀ c, other.view g = some c → Intermediate.FitsState c := by
        intro g hg c hc
        exact fitsState_of_earliest hpartRows (hfilled.view_new hg ▸ hc)
      obtain ⟨column, offers, hcolumn, hannounces, hadd, hoffers⟩ :=
        exists_merged ha hn hfilled.sound hfilled.groups hfits
      simp only [load, hother, hcolumn, hadd]
      rcases ihNext (ha.offerAll hannounces) (by rwa [groupCount_offerAll])
        (fun r hr => hrows r (List.mem_append_right _ hr)) with hrefused | ⟨a', hload, hnextFilled⟩
      · exact .inl hrefused
      · have hview : ∀ g < n, (a.offerAll offers).view g =
            (candidatesOf g (part.rows k)).foldl Candidate.keep (a.view g) := by
          intro g hg
          -- the earliest candidate of the part stands for all of the part's rows
          rw [view_offerAll ha hannounces, hoffers g hg, hfilled.view_new hg,
            ← Candidate.foldl_keep]
        exact .inr ⟨a', hload, hnextFilled.after (xType_offerAll a _) hview⟩

/-! ## Plans with the same rows -/

theorem exists_filled {minCapacity : Nat} (hp : p.WellFormed k n 0)
    (hfits : ∀ r ∈ p.rows k, r.Fits)
    (hgranted : ∀ f, p.load xType yType n (new k xType yType minCapacity) ≠ .error (.refused f)) :
    ∃ a, p.load xType yType n (new k xType yType minCapacity) = .ok a ∧
      Filled n (p.rows k) (new k xType yType minCapacity) a := by
  rcases load_cases (sound_new k xType yType minCapacity) hp hfits with ⟨f, hf⟩ | ha
  · exact absurd hf (hgranted f)
  · exact ha

/-- Two plans that take in the same rows in the same order give the same column of states and
the same column of values, however the rows are cut into batches and parts and however deep the
parts are merged. One of the two may merge nothing: a single accumulator that takes all rows. -/
theorem evaluations_eq_of_rows_eq {c d : Nat} (hx : xType.physical = k.physical)
    (hp : p.WellFormed k n 0) (hq : q.WellFormed k n 0) (hrows : p.rows k = q.rows k)
    (hfits : ∀ r ∈ p.rows k, r.Fits)
    (hpGranted : ∀ f, p.load xType yType n (new k xType yType c) ≠ .error (.refused f))
    (hqGranted : ∀ f, q.load xType yType n (new k xType yType d) ≠ .error (.refused f)) :
    ∃ a b states values, p.load xType yType n (new k xType yType c) = .ok a ∧
      q.load xType yType n (new k xType yType d) = .ok b ∧
      a.intermediates n = .ok states ∧ b.intermediates n = .ok states ∧
      a.finals n = .ok values ∧ b.finals n = .ok values := by
  obtain ⟨a, ha, hpFilled⟩ := exists_filled hp hfits hpGranted
  obtain ⟨b, hb, hqFilled⟩ := exists_filled hq (hrows ▸ hfits) hqGranted
  have hheld : ∀ g < n, a.held g = b.held g := by
    intro g hg
    rw [hpFilled.sound.held_eq (hg.trans_le hpFilled.groups), hpFilled.view_new hg, hrows,
      hqFilled.sound.held_eq (hg.trans_le hqFilled.groups), hqFilled.view_new hg]
  have hagrees : Agrees n a b := ⟨hpFilled.xType.trans hqFilled.xType.symm, hheld⟩
  have hstateFits : ∀ g < n, ∀ c, a.view g = some c → Intermediate.FitsState c := by
    intro g hg c hc
    exact fitsState_of_earliest hfits (hpFilled.view_new hg ▸ hc)
  obtain ⟨states, hstates, -⟩ := exists_intermediates hpFilled.sound hpFilled.groups hstateFits
  obtain ⟨values, hvalues, -⟩ := exists_finals hpFilled.sound hpFilled.groups
    ((congrArg DataType.physical hpFilled.xType).trans hx)
  exact ⟨a, b, states, values, ha, hb, hstates, hagrees.intermediates_eq ▸ hstates, hvalues,
    hagrees.finals_eq ▸ hvalues⟩

/-- Announces one group. -/
def announceOne (next : Plan) : Plan := .announce ⟨.standard, .untracked⟩ 1 next

/-- Adds one row of group 0. -/
def addOne (x : Int32) (time : Int64) (next : Plan) : Plan :=
  .add [0] (.flat .int32 (.allValid 1) (.ofList .int32 [x]))
    (.flat .int64 (.allValid 1) (.ofList .int64 [time]))
    (.flat .int64 (.allValid 1) (.ofList .int64 [time])) next

theorem wellFormed_addOne {x : Int32} {time : Int64} (hp : p.WellFormed .int32 1 1) :
    (addOne x time p).WellFormed .int32 1 1 := by
  have hx : (Column.flat .int32 (.allValid 1) (.ofList .int32 [x])).Built :=
    Column.built_flat (.allValid 1) trivial rfl rfl
  have htime : (Column.flat .int64 (.allValid 1) (.ofList .int64 [time])).Built :=
    Column.built_flat (.allValid 1) trivial rfl rfl
  exact ⟨⟨hx, htime, htime⟩, ⟨rfl, rfl, rfl, rfl, rfl, by simp⟩, hp⟩

/-- Two rows in one accumulator, the second one earlier. -/
def single : Plan := announceOne (addOne 7 5 (addOne 8 3 .done))

/-- The same rows in two accumulators, whose states are merged in a third. -/
def merged : Plan :=
  announceOne (.merge 0 (announceOne (addOne 7 5 .done))
    (.merge 0 (announceOne (addOne 8 3 .done)) .done))

theorem evaluations_eq_merged_single :
    ∃ a b states values, merged.load .int32 .int64 1 (new .int32 .int32 .int64 0) = .ok a ∧
      single.load .int32 .int64 1 (new .int32 .int32 .int64 0) = .ok b ∧
      a.intermediates 1 = .ok states ∧ b.intermediates 1 = .ok states ∧
      a.finals 1 = .ok values ∧ b.finals 1 = .ok values := by
  have hdone : done.WellFormed .int32 1 1 := le_rfl
  have hsingle : single.WellFormed .int32 1 0 := wellFormed_addOne (wellFormed_addOne hdone)
  have hmerged : merged.WellFormed .int32 1 0 :=
    ⟨le_rfl, wellFormed_addOne hdone, le_rfl, wellFormed_addOne hdone, hdone⟩
  refine evaluations_eq_of_rows_eq rfl hmerged hsingle rfl (fun r _ v _ => trivial) ?_ ?_
  · intro f hf
    have hok : (merged.load .int32 .int64 1 (new .int32 .int32 .int64 0)).isOk = true := by
      decide +kernel
    rw [hf] at hok
    cases hok
  · intro f hf
    have hok : (single.load .int32 .int64 1 (new .int32 .int32 .int64 0)).isOk = true := by
      decide +kernel
    rw [hf] at hok
    cases hok

end Plan

end Earliest
