import Earliest.Proofs.FirstBy.SameBatches

/-! Accumulators that calls do not tell apart. What an accumulator answers follows from what its
groups hold, from how many of them were announced and from the type of `x`; of the arrays behind
that nothing shows. An announcement that fails changes none of the three. -/

namespace Earliest

variable {k : Kind}

namespace Call

variable {c : Call} {outcome : Except Fault Unit} {n : Nat}

theorem announced_of_isBatch (h : c.isBatch = true) : c.announced n outcome = n := by
  cases c with
  | setGroupCount => cases h
  | _ => rfl

end Call

/-- Traces of the same calls, apart from announcements that failed. Batches may end in any way. -/
inductive SameCalls : (trace trace' : List (Call × Except Fault Unit)) → Prop
  | nil : SameCalls [] []
  | batch {c : Call} {trace trace' : List (Call × Except Fault Unit)} (hc : c.isBatch = true)
      (outcome outcome' : Except Fault Unit) (h : SameCalls trace trace') :
      SameCalls ((c, outcome) :: trace) ((c, outcome') :: trace')
  | announced {trace trace' : List (Call × Except Fault Unit)} (n : Nat)
      (h : SameCalls trace trace') :
      SameCalls ((.setGroupCount n, .ok ()) :: trace) ((.setGroupCount n, .ok ()) :: trace')
  | failedFirst {trace trace' : List (Call × Except Fault Unit)} (n : Nat) (f : Fault)
      (h : SameCalls trace trace') : SameCalls ((.setGroupCount n, .error f) :: trace) trace'
  | failedSecond {trace trace' : List (Call × Except Fault Unit)} (n : Nat) (f : Fault)
      (h : SameCalls trace trace') : SameCalls trace ((.setGroupCount n, .error f) :: trace')

namespace Accumulator

variable {a a' b b' : Accumulator k} {c : Call} {outcome outcome' : Except Fault Unit}
  {s s' : Surroundings} {ids : List Nat} {count count' g : Nat}
  {calls calls' : List (Surroundings × Call)} {trace trace' : List (Call × Except Fault Unit)}

theorem checkGroups_congr_groupCount (h : a.groupCount = b.groupCount) (ids : List Nat) :
    a.checkGroups ids = b.checkGroups ids := by
  rw [checkGroups, checkGroups, h]

theorem held_congr (ha : a.Sound) (hb : b.Sound) (hcount : a.groupCount = b.groupCount)
    (hview : a.view g = b.view g) : a.held g = b.held g := by
  by_cases hg : g < a.groupCount
  · rw [ha.held_eq hg, hb.held_eq (hcount ▸ hg), hview]
  · rw [held, held, checkGroup, checkGroup, if_neg hg, if_neg (hcount ▸ hg), hcount]

theorem Accepts.isBatch (h : a.Accepts c outcome) : c.isBatch = true := by
  cases h <;> rfl

theorem Responds.groupCount_eq (h : Responds a c outcome a') :
    a'.groupCount = c.announced a.groupCount outcome := by
  cases h with
  | announced h =>
    rcases outcome with f | _
    · exact h.refused f rfl
    · exact h.accepted rfl
  | accepted h => rw [groupCount_offerAll, Call.announced_of_isBatch h.isBatch]
  | refused => cases c <;> rfl

theorem responds_setGroupCount {n : Nat} (ha : a.Sound)
    (h : a.respond s (.setGroupCount n) = (outcome, a')) :
    Responds a (.setGroupCount n) outcome a' :=
  responds_of_respond ha (fun _ hcolumn => absurd hcolumn List.not_mem_nil) h

/-! ## One call -/

/-- The groups hold the same, however many of them there are. -/
structure HoldsAlike (a b : Accumulator k) : Prop where
  sound : a.Sound ∧ b.Sound
  xType : a.xType = b.xType
  view : ∀ g, a.view g = b.view g

namespace HoldsAlike

theorem refl (ha : a.Sound) : HoldsAlike a a := ⟨⟨ha, ha⟩, rfl, fun _ => rfl⟩

theorem symm (h : HoldsAlike a b) : HoldsAlike b a :=
  ⟨h.sound.symm, h.xType.symm, fun g => (h.view g).symm⟩

/-- An announcement moves the number of groups and nothing else, however it ends. -/
theorem left (h : HoldsAlike a b) (hstep : Responds a c outcome a') (hc : c.isBatch = false) :
    HoldsAlike a' b := by
  have heffect := hstep.effect h.sound.1
  refine ⟨⟨heffect.sound, h.sound.2⟩, hstep.xType_eq.trans h.xType, ?_⟩
  intro g
  rw [heffect.view, Call.offers_of_not_isBatch hc]
  exact h.view g

theorem right (h : HoldsAlike a b) (hstep : Responds b c outcome b') (hc : c.isBatch = false) :
    HoldsAlike a b' := (h.symm.left hstep hc).symm

theorem batch (h : HoldsAlike a b) (hstep : Responds a c outcome a')
    (hstep' : Responds b c outcome b') : HoldsAlike a' b' := by
  have heffect := hstep.effect h.sound.1
  have heffect' := hstep'.effect h.sound.2
  refine ⟨⟨heffect.sound, heffect'.sound⟩, ?_, ?_⟩
  · rw [hstep.xType_eq, hstep'.xType_eq, h.xType]
  · intro g
    rw [heffect.view, heffect'.view, h.view]

end HoldsAlike

/-- The second accumulator may have groups up to `count` that the first one lacks. They hold
nothing. -/
structure Trails (count : Nat) (a b : Accumulator k) : Prop extends HoldsAlike a b where
  groupCount : b.groupCount = max a.groupCount count

namespace Trails

theorem groupCount_eq (h : Trails count a b) (hle : count ≤ a.groupCount) :
    a.groupCount = b.groupCount := by
  rw [h.groupCount, Nat.max_eq_left hle]

theorem groupCount_le (h : Trails count a b) : a.groupCount ≤ b.groupCount :=
  h.groupCount ▸ le_max_left _ _

/-- None of the groups that a batch names is one that the first accumulator lacks. -/
theorem checkGroups_eq (h : Trails count a b)
    (hnames : count ≤ a.groupCount ∨ ∀ g ∈ ids, g < a.groupCount) :
    a.checkGroups ids = b.checkGroups ids := by
  rcases hnames with hle | hids
  · exact checkGroups_congr_groupCount (h.groupCount_eq hle) ids
  · exact checkGroups_congr hids fun g hg => (hids g hg).trans_le h.groupCount_le

theorem batch (h : Trails count a b) (hc : c.isBatch = true)
    (hbuilt : ∀ column ∈ c.columns, column.Built)
    (hnames : count ≤ a.groupCount ∨ ∀ g ∈ c.ids, g < a.groupCount)
    (hstep : a.respond s c = (outcome, a')) (hstep' : b.respond s' c = (outcome', b')) :
    outcome = outcome' ∧ Trails count a' b' := by
  have hend : (a.respond s c).1 = (b.respond s' c).1 :=
    respond_congr h.sound.1 h.sound.2 h.xType (h.checkGroups_eq hnames) hc
  rw [hstep, hstep'] at hend
  obtain rfl : outcome = outcome' := hend
  have hresponds := responds_of_respond h.sound.1 hbuilt hstep
  have hresponds' := responds_of_respond h.sound.2 hbuilt hstep'
  refine ⟨rfl, h.toHoldsAlike.batch hresponds hresponds', ?_⟩
  rw [hresponds.groupCount_eq, hresponds'.groupCount_eq, Call.announced_of_isBatch hc,
    Call.announced_of_isBatch hc, h.groupCount]

end Trails

/-! ## Runs -/

theorem batchOutcomes_cons (h : c.isBatch = true) :
    batchOutcomes ((c, outcome) :: trace) = (c, outcome) :: batchOutcomes trace :=
  List.filter_cons_of_pos h

theorem eq_of_run_nil (h : a.run calls = ([], a')) : a' = a := by
  cases calls with
  | nil =>
    cases h
    rfl
  | cons call calls => simp [run] at h

theorem exists_of_run_cons (h : a.run calls = ((c, outcome) :: trace, a')) :
    ∃ s later first, calls = (s, c) :: later ∧ a.respond s c = (outcome, first) ∧
      first.run later = (trace, a') := by
  cases calls with
  | nil => cases h
  | cons call later =>
    simp only [run, Prod.mk.injEq, List.cons.injEq] at h
    obtain ⟨⟨⟨rfl, rfl⟩, rfl⟩, rfl⟩ := h
    exact ⟨call.1, later, _, rfl, rfl, rfl⟩

/-- Runs of the same calls, apart from announcements that failed, in which a batch names no group
that one accumulator has and the other lacks. -/
theorem Trails.run (h : Trails count a b) (hsame : SameCalls trace trace')
    (hcalls : ∀ call ∈ calls, ∀ column ∈ call.2.columns, column.Built)
    (hrun : a.run calls = (trace, a')) (hrun' : b.run calls' = (trace', b'))
    (hnames : count ≤ a.groupCount ∨ AnnouncedFirst a.groupCount trace) :
    batchOutcomes trace = batchOutcomes trace' ∧ Trails count a' b' := by
  -- on how the traces match, since an announcement that failed has no partner to step with
  induction hsame generalizing a b calls calls' with
  | nil =>
    rw [eq_of_run_nil hrun, eq_of_run_nil hrun']
    exact ⟨rfl, h⟩
  | @batch c _ _ hc outcome outcome' _ ih =>
    obtain ⟨s, later, first, rfl, hstep, hrest⟩ := exists_of_run_cons hrun
    obtain ⟨s', later', first', rfl, hstep', hrest'⟩ := exists_of_run_cons hrun'
    obtain ⟨hbuilt, hlater⟩ := List.forall_mem_cons.mp hcalls
    have hcount := (responds_of_respond h.sound.1 hbuilt hstep).groupCount_eq
    rw [Call.announced_of_isBatch hc] at hcount
    obtain ⟨rfl, hfirst⟩ := h.batch hc hbuilt (hnames.imp_right And.left) hstep hstep'
    have hnames' := hnames.imp_right And.right
    rw [Call.announced_of_isBatch hc, ← hcount] at hnames'
    obtain ⟨houtcomes, hlast⟩ := ih hfirst hlater hrest hrest' hnames'
    refine ⟨?_, hlast⟩
    rw [batchOutcomes_cons hc, batchOutcomes_cons hc, houtcomes]
  | @announced trace _ n _ ih =>
    obtain ⟨s, later, first, rfl, hstep, hrest⟩ := exists_of_run_cons hrun
    obtain ⟨s', later', first', rfl, hstep', hrest'⟩ := exists_of_run_cons hrun'
    have hresponds := responds_setGroupCount h.sound.1 hstep
    have hresponds' := responds_setGroupCount h.sound.2 hstep'
    have hcount : first.groupCount = max a.groupCount n := hresponds.groupCount_eq
    have hcount' : first'.groupCount = max b.groupCount n := hresponds'.groupCount_eq
    have hfirst : Trails count first first' := by
      refine ⟨(h.toHoldsAlike.left hresponds rfl).right hresponds' rfl, ?_⟩
      rw [hcount, hcount', h.groupCount, max_right_comm]
    have hnames' : count ≤ first.groupCount ∨ AnnouncedFirst first.groupCount trace := by
      rw [hcount]
      exact hnames.imp (le_max_of_le_left ·) And.right
    exact ih hfirst (List.forall_mem_cons.mp hcalls).2 hrest hrest' hnames'
  | failedFirst n f _ ih =>
    obtain ⟨s, later, first, rfl, hstep, hrest⟩ := exists_of_run_cons hrun
    have hresponds := responds_setGroupCount h.sound.1 hstep
    have hcount : first.groupCount = a.groupCount := hresponds.groupCount_eq
    have hfirst : Trails count first b :=
      ⟨h.toHoldsAlike.left hresponds rfl, hcount ▸ h.groupCount⟩
    exact ih hfirst (List.forall_mem_cons.mp hcalls).2 hrest hrun'
      (hcount ▸ hnames.imp_right And.right)
  | failedSecond n f _ ih =>
    obtain ⟨s', later', first', rfl, hstep', hrest'⟩ := exists_of_run_cons hrun'
    have hresponds := responds_setGroupCount h.sound.2 hstep'
    have hcount : first'.groupCount = b.groupCount := hresponds.groupCount_eq
    have hfirst : Trails count a first' :=
      ⟨h.toHoldsAlike.right hresponds rfl, hcount.trans h.groupCount⟩
    exact ih hfirst hcalls hrun hrest' hnames

/-- Whatever calls follow, and however many announcements fail on either side: each batch ends with
the same outcome, and each group is evaluated to the same. -/
def Indistinguishable (a b : Accumulator k) : Prop :=
  ∀ calls calls' : List (Surroundings × Call),
    (∀ call ∈ calls, ∀ column ∈ call.2.columns, column.Built) →
    SameCalls (a.run calls).1 (b.run calls').1 →
    batchOutcomes (a.run calls).1 = batchOutcomes (b.run calls').1 ∧
      (a.run calls).2.groupCount = (b.run calls').2.groupCount ∧
      ∀ g, EvaluatesAlike g (a.run calls).2 (b.run calls').2

theorem Trails.indistinguishable (h : Trails 0 a b) : Indistinguishable a b := by
  intro calls calls' hcalls hsame
  obtain ⟨houtcomes, hlast⟩ :=
    h.run hsame hcalls Prod.mk.eta.symm Prod.mk.eta.symm (.inl (Nat.zero_le _))
  have hcount := hlast.groupCount_eq (Nat.zero_le _)
  refine ⟨houtcomes, hcount, ?_⟩
  intro g output
  have hheld := held_congr hlast.sound.1 hlast.sound.2 hcount (hlast.view g)
  exact ⟨evaluateIntermediate_congr hheld output, evaluateFinal_congr hlast.xType hheld output⟩

end Accumulator

end Earliest
