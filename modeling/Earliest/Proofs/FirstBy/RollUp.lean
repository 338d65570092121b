import Earliest.Proofs.FirstBy.Merge
import Earliest.Proofs.FirstBy.Order
import Earliest.Proofs.FirstBy.Replay

/-! Rolling groups up into coarser ones. The states of an accumulator can be taken in under coarser
group ids, and the accumulator's own inputs can be too. Both ways give a coarse group the same
timestamp. They break ties differently: the states come in the order of the groups they stand for,
the inputs in the order in which they came. -/

namespace Earliest

variable {k : Kind} {f : Nat → Nat} {g h n : Nat} {c : Candidate k}
  {l l' : List (Nat × Candidate k)}

/-- The call for the groups that `f` makes of its own. -/
def Call.rekey (f : Nat → Nat) : Call → Call
  | .setGroupCount count => .setGroupCount count
  | .addInput ids inputs => .addInput (ids.map f) inputs
  | .addIntermediate ids input => .addIntermediate (ids.map f) input

/-- The batches that were taken in, failed and other calls left out. -/
def takenBatches (trace : List (Call × Except Fault Unit)) : List (Call × Except Fault Unit) :=
  trace.filter fun t => t.1.taken t.2

/-- The candidates offered to the groups that `f` makes of theirs. -/
def regroup (f : Nat → Nat) (offers : List (Nat × Candidate k)) : List (Nat × Candidate k) :=
  offers.map (Prod.map f id)

namespace Accumulator

variable {a b : Accumulator k} {call : Call} {outcome : Except Fault Unit}

/-! ## Coarser offers -/

theorem offersFrom_map (f : Nat → Nat) (found : Nat → Option (Candidate k)) (first : Nat)
    (ids : List Nat) :
    offersFrom found first (ids.map f) = regroup f (offersFrom found first ids) := by
  induction ids generalizing first with
  | nil => rfl
  | cons group ids ih =>
    rw [List.map_cons, offersFrom_cons, offersFrom_cons, ih, regroup, regroup, List.map_append]
    cases found first <;> rfl

theorem mem_offeredTo_regroup :
    c ∈ offeredTo h (regroup f l) ↔ ∃ g, f g = h ∧ c ∈ offeredTo g l := by
  simp only [mem_offeredTo_iff, regroup, List.mem_map, Prod.exists, Prod.map, id, Prod.mk.injEq]
  constructor
  · rintro ⟨g, c', hmem, hg, rfl⟩
    exact ⟨g, hg, hmem⟩
  · rintro ⟨g, hg, hmem⟩
    exact ⟨g, c, hmem, hg, rfl⟩

theorem offeredTo_regroup (f : Nat → Nat) (h : Nat) (l : List (Nat × Candidate k)) :
    offeredTo h (regroup f l) = (l.filter fun offer => f offer.1 = h).map Prod.snd := by
  rw [offeredTo, regroup, List.filter_map, List.map_map]
  rfl

theorem offeredTo_eq_of_coarse (hg : f g = h) (l : List (Nat × Candidate k)) :
    offeredTo g l = offeredTo g (l.filter fun offer => f offer.1 = h) := by
  rw [offeredTo, offeredTo, List.filter_filter]
  congr 2
  funext offer
  by_cases ho : offer.1 = g
  · simp [ho, hg]
  · simp [ho]

/-- The earliest candidate of a coarse group is the earliest of one of its groups. -/
theorem exists_earliest_of_regroup
    (hc : Candidate.earliest (offeredTo h (regroup f l)) = some c) :
    ∃ g, f g = h ∧ Candidate.earliest (offeredTo g l) = some c := by
  obtain ⟨before, after, hsplit, hbefore, hafter⟩ := Candidate.earliest_eq_some_iff.mp hc
  rw [offeredTo_regroup, List.map_eq_append_iff] at hsplit
  obtain ⟨s, t, hl, rfl, ht⟩ := hsplit
  obtain ⟨⟨g, c'⟩, rest, rfl, hc', rfl⟩ := List.map_eq_cons_iff.mp ht
  cases hc'
  have hg : f g = h := by
    have hmem : (g, c') ∈ l.filter fun offer => f offer.1 = h := by simp [hl]
    exact of_decide_eq_true (List.mem_filter.mp hmem).2
  refine ⟨g, hg, Candidate.earliest_eq_some_iff.mpr ⟨offeredTo g s, offeredTo g rest, ?_, ?_, ?_⟩⟩
  · rw [offeredTo_eq_of_coarse hg, hl, offeredTo_append, offeredTo_cons_self]
  · intro d hd
    exact hbefore d (List.mem_map.mpr ⟨(g, d), mem_offeredTo_iff.mp hd, rfl⟩)
  · intro d hd
    exact hafter d (List.mem_map.mpr ⟨(g, d), mem_offeredTo_iff.mp hd, rfl⟩)

/-- Each group holds the earliest of its offers. -/
def HoldsEarliest (a : Accumulator k) (l : List (Nat × Candidate k)) : Prop :=
  ∀ g, a.view g = Candidate.earliest (offeredTo g l)

/-- Offers that leave every group with the same agree on the time of every coarse one. -/
theorem timestamp_regroup_eq (hl : a.HoldsEarliest l) (hl' : a.HoldsEarliest l') (h : Nat) :
    (Candidate.earliest (offeredTo h (regroup f l))).map Candidate.timestamp =
      (Candidate.earliest (offeredTo h (regroup f l'))).map Candidate.timestamp := by
  have hmatch {l l' : List (Nat × Candidate k)} (hl : a.HoldsEarliest l)
      (hl' : a.HoldsEarliest l') :
      ∀ c ∈ offeredTo h (regroup f l), ∃ d ∈ offeredTo h (regroup f l'),
        d.timestamp ≤ c.timestamp := by
    intro c hc
    obtain ⟨g, hg, hcg⟩ := mem_offeredTo_regroup.mp hc
    obtain ⟨d, hd, hle⟩ := Candidate.exists_isEarliest hcg
    rw [← Candidate.earliest_eq_some_iff, ← hl, hl', Candidate.earliest_eq_some_iff] at hd
    exact ⟨d, mem_offeredTo_regroup.mpr ⟨g, hg, hd.mem⟩, hle⟩
  exact Candidate.timestamp_earliest_eq (hmatch hl hl') (hmatch hl' hl)

/-! ## Coarser batches -/

theorem Accepts.rekey (ha : a.Accepts call outcome)
    (hf : ∀ g < a.groupCount, f g < b.groupCount) : b.Accepts (call.rekey f) outcome := by
  have hids {ids : List Nat} (hids : ∀ g ∈ ids, g < a.groupCount) :
      ∀ g ∈ ids.map f, g < b.groupCount := by
    intro h hh
    obtain ⟨g, hg, rfl⟩ := List.mem_map.mp hh
    exact hf g (hids g hg)
  cases ha with
  | @input ids x y time htakes hx hy ht =>
    have hlen : (ids.map f).length = ids.length := List.length_map f
    exact .input ⟨hlen ▸ htakes.xLen, hlen ▸ htakes.yLen, hlen ▸ htakes.timeLen, htakes.timeType,
      htakes.xType, hids htakes.ids⟩ hx hy ht
  | @states ids input htakes hinput hall =>
    have hlen : (ids.map f).length = ids.length := List.length_map f
    exact .states ⟨htakes.type, hlen ▸ htakes.len, hids htakes.ids⟩ hinput (hlen ▸ hall)
  | @malformed ids input row d htakes hinput hrow hd hbefore =>
    have hlen : (ids.map f).length = ids.length := List.length_map f
    exact .malformed ⟨htakes.type, hlen ▸ htakes.len, hids htakes.ids⟩ hinput (hlen ▸ hrow) hd
      hbefore

theorem Accepts.offers_rekey (f : Nat → Nat) (ha : a.Accepts call outcome) :
    (call.rekey f).offers k outcome = regroup f (call.offers k outcome) := by
  cases ha with
  | @input ids x y time =>
    show offersOf (rowsOf k (ids.map f) x y time) = regroup f (offersOf (rowsOf k ids x y time))
    rw [offersOf_rowsOf, offersOf_rowsOf, offersFrom_map]
  | @states ids input => exact offersFrom_map f (stateAt k input) 0 ids
  | @malformed ids input row =>
    show statesOf k ((ids.map f).take row) input = regroup f (statesOf k (ids.take row) input)
    rw [← List.map_take]
    exact offersFrom_map f (stateAt k input) 0 (ids.take row)

/-- Batches that are all accepted are offered one after another. -/
theorem run_batches {batches : List (Call × Except Fault Unit)}
    {calls : List (Surroundings × Call)} (hb : b.Sound)
    (haccepts : ∀ t ∈ batches, b.Accepts t.1 t.2)
    (hcalls : calls.map Prod.snd = batches.map Prod.fst) :
    b.run calls = (batches, b.offerAll (batches.flatMap fun t => t.1.offers k t.2)) := by
  induction batches generalizing b calls with
  | nil =>
    rw [List.map_nil, List.map_eq_nil_iff] at hcalls
    rw [hcalls]
    rfl
  | cons t batches ih =>
    obtain ⟨⟨s, call⟩, calls, rfl, hcall, hrest⟩ := List.map_eq_cons_iff.mp hcalls
    obtain ⟨batch, outcome⟩ := t
    cases hcall
    have hfirst := haccepts (call, outcome) List.mem_cons_self
    have hlater : ∀ t ∈ batches, (b.offerAll (call.offers k outcome)).Accepts t.1 t.2 := by
      intro t ht
      exact (haccepts t (List.mem_cons_of_mem _ ht)).mono (groupCount_offerAll b _).ge
    simp only [run, hfirst.respond_eq hb, ih (hb.offerAll hfirst.announces) hlater hrest,
      List.flatMap_cons, offerAll_append]

/-- Calls that were not taken in offer nothing. -/
theorem flatMap_offers_takenBatches (k : Kind) (trace : List (Call × Except Fault Unit)) :
    ((takenBatches trace).flatMap fun t => t.1.offers k t.2) =
      trace.flatMap fun t => t.1.offers k t.2 :=
  flatMap_offers_filter k (fun _ => Call.offers_of_not_taken) trace

theorem Announces.regroup (hl : a.Announces l) (hf : ∀ g < a.groupCount, f g < b.groupCount) :
    b.Announces (regroup f l) := by
  intro offer hoffer
  obtain ⟨⟨g, c⟩, hmem, rfl⟩ := List.mem_map.mp hoffer
  exact hf g (hl (g, c) hmem)

section Run

variable {xType yType : DataType} {minCapacity : Nat} {calls direct : List (Surroundings × Call)}
  {trace : List (Call × Except Fault Unit)}

theorem accepts_of_mem_takenBatches
    (hcalls : ∀ call ∈ calls, ∀ column ∈ call.2.columns, column.Built)
    (hrun : (new k xType yType minCapacity).run calls = (trace, a))
    {t : Call × Except Fault Unit} (ht : t ∈ takenBatches trace) : a.Accepts t.1 t.2 := by
  obtain ⟨hmem, htaken⟩ := List.mem_filter.mp ht
  have hnew := sound_new k xType yType minCapacity
  exact (absorbed_of_mem_trace hnew hcalls hrun hmem htaken).accepts

theorem announces_of_run
    (hcalls : ∀ call ∈ calls, ∀ column ∈ call.2.columns, column.Built)
    (hrun : (new k xType yType minCapacity).run calls = (trace, a)) :
    a.Announces (trace.flatMap fun t => t.1.offers k t.2) := by
  rw [← flatMap_offers_takenBatches]
  intro offer hoffer
  obtain ⟨t, ht, hmem⟩ := List.mem_flatMap.mp hoffer
  exact (accepts_of_mem_takenBatches hcalls hrun ht).announces offer hmem

/-- The batches of a run, for coarser groups: all are accepted, and end as they did in the run. -/
theorem run_rekeyed (hcalls : ∀ call ∈ calls, ∀ column ∈ call.2.columns, column.Built)
    (hrun : (new k xType yType minCapacity).run calls = (trace, a)) (hb : b.Sound)
    (hf : ∀ g < a.groupCount, f g < b.groupCount)
    (hdirect : direct.map Prod.snd = (takenBatches trace).map fun t => t.1.rekey f) :
    b.run direct = ((takenBatches trace).map fun t => (t.1.rekey f, t.2),
      b.offerAll (regroup f (trace.flatMap fun t => t.1.offers k t.2))) := by
  have haccepts {t : Call × Except Fault Unit} (ht : t ∈ takenBatches trace) :
      a.Accepts t.1 t.2 := accepts_of_mem_takenBatches hcalls hrun ht
  have hrekeyed : ∀ t ∈ (takenBatches trace).map fun t => (t.1.rekey f, t.2),
      b.Accepts t.1 t.2 := by
    intro t ht
    obtain ⟨batch, hbatch, rfl⟩ := List.mem_map.mp ht
    exact (haccepts hbatch).rekey hf
  have hoffers : (((takenBatches trace).map fun t => (t.1.rekey f, t.2)).flatMap fun t =>
      t.1.offers k t.2) = regroup f (trace.flatMap fun t => t.1.offers k t.2) := by
    rw [← flatMap_offers_takenBatches k trace, List.flatMap_map, regroup, List.map_flatMap]
    apply List.flatMap_congr
    intro t ht
    exact (haccepts ht).offers_rekey f
  rw [run_batches hb hrekeyed (by rw [hdirect, List.map_map]; rfl), hoffers]

end Run

/-! ## Opened groups -/

/-- A new accumulator that was given groups, and nothing else yet. -/
def Opened (m : Nat) (a : Accumulator k) : Prop :=
  ∃ xType yType minCapacity alloc manager manager',
    (new k xType yType minCapacity).setGroupCount alloc m manager = (.ok (), a, manager')

theorem Opened.spec (ha : Opened n a) : a.Sound ∧ a.groupCount = n ∧ ∀ g, a.view g = none := by
  obtain ⟨xType, yType, minCapacity, alloc, manager, manager', hset⟩ := ha
  have hnew := sound_new k xType yType minCapacity
  have hannounced := setGroupCount_announced hset
  refine ⟨hannounced.sound hnew, ?_, ?_⟩
  · rw [hannounced.accepted rfl]
    exact Nat.zero_max n
  · intro g
    rw [hannounced.view_eq hnew, view_new]

/-- Offers to opened groups leave each with the earliest of its own. -/
theorem Opened.held_offerAll (ha : Opened n a) (hl : a.Announces l) (hh : h < n) :
    (a.offerAll l).held h = .ok (Candidate.earliest (offeredTo h l)) := by
  obtain ⟨hsound, hcount, hview⟩ := ha.spec
  have hgroup : h < (a.offerAll l).groupCount := by rwa [groupCount_offerAll, hcount]
  rw [(hsound.offerAll hl).held_eq hgroup, view_offerAll hsound hl, hview, Candidate.earliest]

/-! ## Fine groups -/

/-- A group of `h` that holds something, and nothing later than the other groups of `h` do. -/
def Leads (f : Nat → Nat) (h : Nat) (a : Accumulator k) (g : Nat) : Prop :=
  f g = h ∧ ∃ c, a.held g = .ok (some c) ∧
    ∀ g' c', f g' = h → a.held g' = .ok (some c') → c.timestamp ≤ c'.timestamp

/-- The earliest candidate of a coarse group stands in a group of it that leads. -/
theorem exists_leads (ha : a.Sound) (hl : a.HoldsEarliest l)
    (hc : Candidate.earliest (offeredTo h (regroup f l)) = some c) :
    ∃ g, Leads f h a g ∧ a.view g = some c := by
  obtain ⟨g, hg, hcg⟩ := exists_earliest_of_regroup hc
  rw [← hl] at hcg
  refine ⟨g, ⟨hg, c, ha.held_eq_ok_some_iff.mpr hcg, ?_⟩, hcg⟩
  intro g' c' hg' hc'
  rw [ha.held_eq_ok_some_iff, hl, Candidate.earliest_eq_some_iff] at hc'
  have hmem := mem_offeredTo_regroup.mpr ⟨g', hg', hc'.mem⟩
  exact (Candidate.earliest_eq_some_iff.mp hc).le hmem

/-- Where one group leads, offers that agree on every group agree on the coarse one. -/
theorem earliest_regroup_eq (ha : a.Sound) (hl : a.HoldsEarliest l) (hl' : a.HoldsEarliest l')
    (hone : ∀ g g', Leads f h a g → Leads f h a g' → g = g') :
    Candidate.earliest (offeredTo h (regroup f l)) =
      Candidate.earliest (offeredTo h (regroup f l')) := by
  apply Candidate.earliest_eq_of_timestamp
  · exact timestamp_regroup_eq hl hl' h
  · intro c c' hc hc'
    obtain ⟨g, hg, hview⟩ := exists_leads ha hl (Candidate.earliest_eq_some_iff.mpr hc)
    obtain ⟨g', hg', hview'⟩ := exists_leads ha hl' (Candidate.earliest_eq_some_iff.mpr hc')
    rw [hone g g' hg hg', hview'] at hview
    cases hview
    rfl

/-- The offers of a column of states come in the order of the groups they are of. -/
theorem offersFrom_range (found : Nat → Option (Candidate k)) (n : Nat) :
    offersFrom found 0 (List.range n) =
      (List.range n).filterMap fun g => (found g).map (g, ·) := by
  induction n with
  | zero => rfl
  | succ n ih =>
    rw [List.range_succ, offersFrom_append, List.filterMap_append, ih, List.length_range,
      Nat.zero_add]
    rfl

theorem pairwise_offersFrom_range (found : Nat → Option (Candidate k)) (n : Nat) :
    (offersFrom found 0 (List.range n)).Pairwise fun offer offer' => offer.1 < offer'.1 := by
  rw [offersFrom_range]
  refine List.Pairwise.filterMap _ ?_ List.pairwise_lt_range
  intro g g' hlt offer hoffer offer' hoffer'
  obtain ⟨c, -, rfl⟩ := Option.map_eq_some_iff.mp hoffer
  obtain ⟨c', -, rfl⟩ := Option.map_eq_some_iff.mp hoffer'
  exact hlt

theorem holdsEarliest_offersFrom_range (ha : a.Sound) :
    a.HoldsEarliest (offersFrom a.view 0 (List.range a.groupCount)) := by
  intro g
  by_cases hg : g < a.groupCount
  · rw [offeredTo_offersFrom_range hg]
    cases a.view g <;> rfl
  · have hmem : g ∉ List.range a.groupCount := by simpa using hg
    rw [offeredTo_offersFrom_of_not_mem hmem, ha.view_eq_none (not_lt.mp hg)]
    rfl

theorem mem_offersFrom_range {found : Nat → Option (Candidate k)} :
    (g, c) ∈ offersFrom found 0 (List.range n) ↔ g < n ∧ found g = some c := by
  simp [offersFrom_range]

/-- States in the order of their groups give a coarse group the first of its groups that leads. -/
theorem held_of_first_leads (ha : a.Sound) (hg : Leads f h a g)
    (hfirst : ∀ g' < g, ¬ Leads f h a g') :
    a.held g = .ok (Candidate.earliest
      (offeredTo h (regroup f (offersFrom a.view 0 (List.range a.groupCount))))) := by
  obtain ⟨hgh, c, hheld, hle⟩ := hg
  have hview := ha.held_eq_ok_some_iff.mp hheld
  have hmem := mem_offersFrom_range.mpr ⟨ha.lt_groupCount_of_view hview, hview⟩
  obtain ⟨s, t, hsplit⟩ := List.append_of_mem hmem
  have hholds {offer : Nat × Candidate k} (h : offer ∈ s ++ (g, c) :: t) :
      a.view offer.1 = some offer.2 := by
    rw [← hsplit] at h
    exact (mem_offersFrom_range.mp h).2
  have hsorted := pairwise_offersFrom_range a.view a.groupCount
  rw [hsplit, List.pairwise_append] at hsorted
  rw [hheld, hsplit, Except.ok.injEq, eq_comm, Candidate.earliest_eq_some_iff]
  refine ⟨offeredTo h (regroup f s), offeredTo h (regroup f t), ?_, ?_, ?_⟩
  · rw [regroup, List.map_append, List.map_cons, offeredTo_append, Prod.map, hgh, id,
      offeredTo_cons_self]
    rfl
  · -- a group before `g` that is no later would lead as well
    intro d hd
    obtain ⟨g', hg', hd⟩ := mem_offeredTo_regroup.mp hd
    have hd := mem_offeredTo_iff.mp hd
    have hview' := hholds (List.mem_append_left _ hd)
    by_contra hnot
    refine hfirst g' (hsorted.2.2 _ hd _ List.mem_cons_self) ⟨hg', d,
      ha.held_eq_ok_some_iff.mpr hview', ?_⟩
    intro g'' c'' hg'' hc''
    exact Int64.le_trans (Int64.not_lt.mp hnot) (hle g'' c'' hg'' hc'')
  · intro d hd
    obtain ⟨g', hg', hd⟩ := mem_offeredTo_regroup.mp hd
    have hd := List.mem_cons_of_mem (g, c) (mem_offeredTo_iff.mp hd)
    have hview' := hholds (List.mem_append_right s hd)
    exact hle g' d hg' (ha.held_eq_ok_some_iff.mpr hview')

/-- The states of all groups are written unless one of them is too large. -/
theorem exists_intermediates_iff (ha : a.Sound) :
    (∃ states, a.intermediates a.groupCount = .ok states) ↔
      ∀ g c, a.held g = .ok (some c) → Intermediate.FitsState c := by
  constructor
  · rintro ⟨states, hstates⟩ g c hc
    have hview := ha.held_eq_ok_some_iff.mp hc
    exact fitsState_of_intermediates ha le_rfl hstates g (ha.lt_groupCount_of_view hview) c hview
  · intro hfits
    obtain ⟨states, hstates, -⟩ := exists_intermediates ha le_rfl
      fun g _ c hc => hfits g c (ha.held_eq_ok_some_iff.mpr hc)
    exact ⟨states, hstates⟩

/-- Opened groups that take in the states of all groups, each for the group that `f` makes of it. -/
theorem Opened.exists_loaded {r₀ : Accumulator k} {states : Column} (hr₀ : Opened n r₀)
    (ha : a.Sound) (hf : ∀ g < a.groupCount, f g < n)
    (hstates : a.intermediates a.groupCount = .ok states) :
    ∃ r, r₀.addIntermediate ((List.range a.groupCount).map f) states = (.ok (), r) ∧
      ∀ h < n, r.held h = .ok (Candidate.earliest
        (offeredTo h (regroup f (offersFrom a.view 0 (List.range a.groupCount))))) := by
  obtain ⟨hsound, hcount, -⟩ := hr₀.spec
  have hids : ∀ h ∈ (List.range a.groupCount).map f, h < r₀.groupCount := by
    intro h hh
    obtain ⟨g, hg, rfl⟩ := List.mem_map.mp hh
    exact hcount ▸ hf g (List.mem_range.mp hg)
  have hlen : ((List.range a.groupCount).map f).length = a.groupCount := by
    rw [List.length_map, List.length_range]
  have hadd := addIntermediate_intermediates ha le_rfl hstates hsound hlen hids
  have hannounces : r₀.Announces (offersFrom a.view 0 ((List.range a.groupCount).map f)) :=
    announces_offersFrom hids 0
  rw [offersFrom_map] at hadd hannounces
  exact ⟨_, hadd, fun h hh => hr₀.held_offerAll hannounces hh⟩

/-- Groups are rolled up through their states: each of a run's groups `g` becomes part of a coarse
group `f g`. Against the run's own batches under the coarse ids, each coarse group holds something
when it does there, at the same timestamp, and the same value when only one of its groups leads.
When several do, it holds what the first of them does. -/
theorem run_rolledUp {xType yType : DataType} {minCapacity m : Nat} {r₀ b₀ : Accumulator k}
    {calls direct : List (Surroundings × Call)} {trace : List (Call × Except Fault Unit)}
    (hcalls : ∀ call ∈ calls, ∀ column ∈ call.2.columns, column.Built)
    (hrun : (new k xType yType minCapacity).run calls = (trace, a))
    (hf : ∀ g < a.groupCount, f g < m) (hr₀ : Opened m r₀) (hb₀ : Opened m b₀)
    (hdirect : direct.map Prod.snd = (takenBatches trace).map fun t => t.1.rekey f) :
    ((∃ states, a.intermediates a.groupCount = .ok states) ↔
        ∀ g c, a.held g = .ok (some c) → Intermediate.FitsState c) ∧
      (b₀.run direct).1 = (takenBatches trace).map (fun t => (t.1.rekey f, t.2)) ∧
      ∀ states, a.intermediates a.groupCount = .ok states →
        ∃ r, r₀.addIntermediate ((List.range a.groupCount).map f) states = (.ok (), r) ∧
          ∀ h < m, SameTime h r (b₀.run direct).2 ∧
            ((∀ g g', Leads f h a g → Leads f h a g' → g = g') →
              r.held h = (b₀.run direct).2.held h) ∧
            ∀ g, Leads f h a g → (∀ g' < g, ¬ Leads f h a g') → r.held h = a.held g := by
  obtain ⟨ha, -⟩ := run_view (sound_new k xType yType minCapacity) hcalls hrun
  obtain ⟨hbSound, hbCount, -⟩ := hb₀.spec
  have hfb : ∀ g < a.groupCount, f g < b₀.groupCount := hbCount.symm ▸ hf
  have hannounces := (announces_of_run hcalls hrun).regroup hfb
  have hfine := holdsEarliest_offersFrom_range ha
  have hall := view_of_run hcalls hrun
  rw [run_rekeyed hcalls hrun hbSound hfb hdirect]
  refine ⟨exists_intermediates_iff ha, rfl, ?_⟩
  intro states hstates
  obtain ⟨r, hadd, hheld⟩ := hr₀.exists_loaded ha hf hstates
  refine ⟨r, hadd, ?_⟩
  intro h hh
  have hr := hheld h hh
  have hb := hb₀.held_offerAll hannounces hh
  refine ⟨⟨_, _, hr, hb, timestamp_regroup_eq hfine hall h⟩, ?_, ?_⟩
  · intro hone
    rw [hr, hb, earliest_regroup_eq ha hfine hall hone]
  · intro g hg hfirst
    rw [hr, held_of_first_leads ha hg hfirst]

/-- A batch of two rows at one time. -/
def tiedBatch (ids : List Nat) : Surroundings × Call :=
  let x := Column.flat .int32 (.allValid 2) (.ofList .int32 [7, 8])
  let time := Column.flat .int64 (.allValid 2) (.ofList .int64 [3, 3])
  (⟨.standard, .untracked⟩, .addInput ids [x, time, time])

/-- Two groups are announced, and the later one gets the first row. -/
def tiedRows : List (Surroundings × Call) :=
  [(⟨.standard, .untracked⟩, .setGroupCount 2), tiedBatch [1, 0]]

theorem built_tiedRows : ∀ call ∈ tiedRows, ∀ column ∈ call.2.columns, column.Built := by
  have hx : (Column.flat .int32 (.allValid 2) (.ofList .int32 [7, 8])).Built :=
    Column.built_flat (.allValid 2) trivial rfl rfl
  have htime : (Column.flat .int64 (.allValid 2) (.ofList .int64 [3, 3])).Built :=
    Column.built_flat (.allValid 2) trivial rfl rfl
  simp [tiedRows, tiedBatch, Call.columns, hx, htime]

/-- Rolled up, the first group's value stands, though the other one's came first. -/
theorem run_rolledUp_tied :
    let a := ((new .int32 .int32 .int64 0).run tiedRows).2
    let one := ((new .int32 .int32 .int64 0).setGroupCount .standard 1 .untracked).2.1
    ∃ states r, a.intermediates 2 = .ok states ∧
      one.addIntermediate [0, 0] states = (.ok (), r) ∧
      SameTime 0 r (one.run [tiedBatch [0, 0]]).2 ∧
      r.held 0 = .ok (some ⟨3, some (8 : Int32)⟩) := by
  intro a one
  have hone : Opened 1 one := ⟨.int32, .int64, 0, .standard, .untracked, .untracked, rfl⟩
  have hheld : a.held 0 = .ok (some ⟨3, some (8 : Int32)⟩) := rfl
  have hfits : ∀ g c, a.held g = .ok (some c) → Intermediate.FitsState c := by
    intro g c _
    unfold Intermediate.FitsState
    cases c.value <;> trivial
  have hleads : Leads (fun _ => 0) 0 a 0 := by
    refine ⟨rfl, _, hheld, ?_⟩
    intro g c _ hc
    obtain ⟨ha, -⟩ := run_view (sound_new _ _ _ _) built_tiedRows Prod.mk.eta.symm
    rw [ha.held_eq_ok_some_iff, view_of_run built_tiedRows Prod.mk.eta.symm,
      Candidate.earliest_eq_some_iff] at hc
    have hmem : (g, c) ∈ [(1, ⟨3, some (7 : Int32)⟩), (0, ⟨3, some (8 : Int32)⟩)] :=
      mem_offeredTo_iff.mp hc.mem
    rcases List.mem_pair.mp hmem with h | h
    · cases h
      exact Int64.le_refl _
    · cases h
      exact Int64.le_refl _
  have hdirect : [tiedBatch [0, 0]].map Prod.snd =
      (takenBatches ((new .int32 .int32 .int64 0).run tiedRows).1).map
        fun t => t.1.rekey fun _ => 0 := rfl
  obtain ⟨hwritten, -, hrolled⟩ := run_rolledUp (m := 1) built_tiedRows Prod.mk.eta.symm
    (fun _ _ => Nat.one_pos) hone hone hdirect
  obtain ⟨states, hstates⟩ := hwritten.mpr hfits
  obtain ⟨r, hr, hgroup⟩ := hrolled states hstates
  obtain ⟨htime, -, hfirst⟩ := hgroup 0 Nat.one_pos
  refine ⟨states, r, hstates, hr, htime, ?_⟩
  exact (hfirst 0 hleads fun g hg => absurd hg (Nat.not_lt_zero g)).trans hheld

end Accumulator

end Earliest
