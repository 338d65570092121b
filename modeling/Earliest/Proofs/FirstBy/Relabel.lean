import Earliest.Proofs.FirstBy.Merge
import Earliest.Proofs.FirstBy.Run

/-! Types that are stored alike. An accumulator asks how its columns are stored and never what their
values mean. So a run goes the same way on an accumulator that was opened for another type and whose
columns are relabelled: each call ends alike, the states are the same bytes and fit either of the
two, and the values are the same under their own type. -/

namespace Earliest

/-! ## Ending alike -/

/-- The same fault, but for the types that it names. These are stored alike. -/
inductive Fault.Alike : Fault → Fault → Prop
  | refl (f : Fault) : Alike f f
  | timeType {t t' : DataType} (h : t'.physical = t.physical) : Alike (.timeType t) (.timeType t')
  | inputType {t t' got got' : DataType} (h : t'.physical = t.physical)
      (hgot : got'.physical = got.physical) : Alike (.inputType t got) (.inputType t' got')
  | intermediateInput {t t' : DataType} (h : t'.physical = t.physical) :
      Alike (.intermediateInput t) (.intermediateInput t')
  | intermediateOutput {t t' : DataType} (h : t'.physical = t.physical) :
      Alike (.intermediateOutput t) (.intermediateOutput t')
  | outputType {t t' got got' : DataType} (h : t'.physical = t.physical)
      (hgot : got'.physical = got.physical) : Alike (.outputType t got) (.outputType t' got')

/-- Two ends of a call: it succeeds both times, or the faults are alike. -/
inductive EndAlike : Except Fault Unit → Except Fault Unit → Prop
  | ok : EndAlike (.ok ()) (.ok ())
  | error {f f' : Fault} (h : f.Alike f') : EndAlike (.error f) (.error f')

namespace EndAlike

variable {r r' s s' : Except Fault Unit}

theorem refl : (r : Except Fault Unit) → EndAlike r r
  | .ok () => .ok
  | .error f => .error (.refl f)

theorem eq_ok (h : EndAlike r r') (hr : r = .ok ()) : r' = .ok () := by
  cases h with
  | ok => rfl
  | error => cases hr

/-- A check that both pass or both fail. -/
theorem ite {p p' : Prop} [Decidable p] [Decidable p'] (hp : p ↔ p') (h : EndAlike r r')
    (hs : EndAlike s s') : EndAlike (if p then r else s) (if p' then r' else s') := by
  by_cases hyes : p
  · rwa [if_pos hyes, if_pos (hp.mp hyes)]
  · rwa [if_neg hyes, if_neg (mt hp.mpr hyes)]

end EndAlike

/-! ## Relabelling -/

/-- The same column under another type, or under its own. -/
def Column.Relabelled (c c' : Column) : Prop := ∃ t, c.withDataType t = .ok c'

/-- The builder, under another type. -/
def Builder.labelled (t : DataType) (b : Builder) : Builder := { b with dataType := t }

/-- The same builder under another type that stores its values alike, or under its own. -/
def Builder.Relabelled (b b' : Builder) : Prop := ∃ t, t.physical = b.physical ∧ b' = b.labelled t

/-- The same call, with columns that may be relabelled. -/
inductive Call.Relabelled : Call → Call → Prop
  | setGroupCount (count : Nat) : Relabelled (.setGroupCount count) (.setGroupCount count)
  | addInput {inputs inputs' : List Column} (ids : List Nat)
      (h : List.Forall₂ Column.Relabelled inputs inputs') :
      Relabelled (.addInput ids inputs) (.addInput ids inputs')
  | addIntermediate {input input' : Column} (ids : List Nat) (h : input.Relabelled input') :
      Relabelled (.addIntermediate ids input) (.addIntermediate ids input')

/-- The same call, as above, where it meets the same memory. -/
def SameCall (call call' : Surroundings × Call) : Prop :=
  call'.1 = call.1 ∧ call.2.Relabelled call'.2

theorem Column.Relabelled.refl (c : Column) : c.Relabelled c :=
  ⟨c.dataType, withDataType_eq_ok_iff.mpr ⟨rfl, rfl⟩⟩

theorem Call.Relabelled.refl : (c : Call) → c.Relabelled c
  | .setGroupCount count => .setGroupCount count
  | .addInput ids _ => .addInput ids (List.forall₂_same.mpr fun c _ => Column.Relabelled.refl c)
  | .addIntermediate ids input => .addIntermediate ids (Column.Relabelled.refl input)

theorem Builder.appendStored_labelled (t : DataType) (p : Physical) (v : Option p.Value)
    (b : Builder) :
    (b.labelled t).appendStored p v =
      ((b.appendStored p v).1, (b.appendStored p v).2.labelled t) := by
  cases v with
  | none => rfl
  | some v =>
    have hdata : (b.labelled t).data = b.data := rfl
    simp only [appendStored, append, hdata]
    rcases b.data.push p v with ⟨_ | _, data⟩ <;> rfl

namespace Accumulator

variable {k : Kind} {a b : Accumulator k} {c c' : Call} {xType yType t : DataType}
  {alloc : Allocator} {m : Manager} {s : Surroundings} {ids : List Nat} {g n : Nat}
  {calls calls' : List (Surroundings × Call)}

/-- The accumulator as it is, but opened for other types. -/
def openedFor (xType yType : DataType) (a : Accumulator k) : Accumulator k :=
  { a with xType, yType }

/-! ## One call -/

/-- Attempts that end alike, the second one on the accumulator that was opened for other types. -/
structure GoAlike (xType yType : DataType) (r r' : Attempt (Accumulator k)) : Prop where
  outcome : EndAlike r.1 r'.1
  state : r'.2 = r.2.openedFor xType yType

theorem setGroupCount_openedFor (count : Nat) :
    (a.openedFor xType yType).setGroupCount alloc count m =
      ((a.setGroupCount alloc count m).1,
        (a.setGroupCount alloc count m).2.1.openedFor xType yType,
        (a.setGroupCount alloc count m).2.2) := by
  unfold setGroupCount openedFor
  dsimp only
  split
  · rfl
  · rcases a.timestamps.ensure alloc count m with ⟨_ | _, timestamps, m₁⟩
    · rfl
    · dsimp only
      -- an array that cannot grow ends the call, with those before it grown
      rcases a.initialized.ensure alloc.next count m₁ with ⟨_ | _, initialized, m₂⟩
      · rfl
      · dsimp only
        rcases a.nulls.ensure alloc.next.next count m₂ with ⟨_ | _, nulls, m₃⟩
        · rfl
        · dsimp only
          rcases a.values.ensure alloc.next.next.next count m₃ with ⟨_ | _, values, m₄⟩ <;> rfl

theorem offer_openedFor (candidate : Candidate k) :
    (a.openedFor xType yType).offer g candidate =
      (a.offer g candidate).openedFor xType yType := by
  show (if a.keeps g candidate.timestamp then _ else _) = _
  unfold offer
  split <;> rfl

theorem absorb_openedFor (read : Nat → Except Fault (Option (Candidate k))) (row : Nat) :
    GoAlike xType yType (a.absorb read row ids)
      ((a.openedFor xType yType).absorb read row ids) := by
  induction ids generalizing a row with
  | nil => exact ⟨.ok, rfl⟩
  | cons group ids ih =>
    unfold absorb
    rcases read row with f | _ | candidate
    · exact ⟨.error (.refl f), rfl⟩
    · exact ih (row + 1)
    · dsimp only
      rw [offer_openedFor]
      show GoAlike xType yType _ (if a.covers group then _ else _)
      split
      · exact ih (row + 1)
      · exact ⟨.error (.refl _), rfl⟩

/-- A batch that is checked and then read. -/
theorem GoAlike.of_check (read : Nat → Except Fault (Option (Candidate k))) :
    ∀ {check check' : Except Fault Unit}, EndAlike check check' →
      GoAlike xType yType
        (match check with
          | .error f => (.error f, a)
          | .ok () => a.absorb read 0 ids)
        (match check' with
          | .error f => (.error f, a.openedFor xType yType)
          | .ok () => (a.openedFor xType yType).absorb read 0 ids) := by
  intro check check' h
  cases h with
  | ok => exact absorb_openedFor read 0
  | error h => exact ⟨.error h, rfl⟩

theorem addInput_openedFor {inputs inputs' : List Column} (hx : xType.physical = a.xType.physical)
    (h : List.Forall₂ Column.Relabelled inputs inputs') :
    GoAlike xType yType (a.addInput ids inputs)
      ((a.openedFor xType yType).addInput ids inputs') := by
  have hcount := h.length_eq
  have hwrong : EndAlike (.error (.inputCount inputs.length))
      (.error (.inputCount inputs'.length)) := .error (hcount ▸ .refl _)
  -- by the number of columns: there have to be three of them
  rcases h with _ | ⟨⟨t₁, h₁⟩, _ | ⟨⟨t₂, h₂⟩, _ | ⟨⟨t₃, h₃⟩, _ | ⟨h₄, hmore⟩⟩⟩⟩
  · exact ⟨hwrong, rfl⟩
  · exact ⟨hwrong, rfl⟩
  · exact ⟨hwrong, rfl⟩
  · rename_i x _ y _ time _
    obtain ⟨hx', rfl⟩ := Column.withDataType_eq_ok_iff.mp h₁
    obtain ⟨-, rfl⟩ := Column.withDataType_eq_ok_iff.mp h₂
    obtain ⟨ht', rfl⟩ := Column.withDataType_eq_ok_iff.mp h₃
    have hcheck : EndAlike (a.checkInput ids x y time)
        ((a.openedFor xType yType).checkInput ids { x with dataType := t₁ }
          { y with dataType := t₂ } { time with dataType := t₃ }) := by
      apply EndAlike.ite Iff.rfl (.error (.refl _))
      apply EndAlike.ite Iff.rfl (.error (.refl _))
      apply EndAlike.ite Iff.rfl (.error (.refl _))
      apply EndAlike.ite (not_congr (Eq.congr_left ht').symm) (.error (.timeType ht'))
      apply EndAlike.ite (not_congr (Eq.congr_left hx').symm) (.error (.inputType hx hx'))
      exact .refl _
    exact .of_check (inputCandidate k x y time) hcheck
  · exact ⟨hwrong, rfl⟩

theorem addIntermediate_openedFor {input input' : Column} (h : input.Relabelled input') :
    GoAlike xType yType (a.addIntermediate ids input)
      ((a.openedFor xType yType).addIntermediate ids input') := by
  obtain ⟨t, ht⟩ := h
  obtain ⟨hphysical, rfl⟩ := Column.withDataType_eq_ok_iff.mp ht
  have hcheck : EndAlike (a.checkIntermediate ids input)
      ((a.openedFor xType yType).checkIntermediate ids { input with dataType := t }) := by
    apply EndAlike.ite (not_congr (Eq.congr_left hphysical).symm)
      (.error (.intermediateInput hphysical))
    exact .ite Iff.rfl (.error (.refl _)) (.refl _)
  exact .of_check (intermediateCandidate k input) hcheck

/-- A call ends alike, and leaves the memory as it would leave it otherwise. -/
theorem call_openedFor (hx : xType.physical = a.xType.physical) (h : c.Relabelled c')
    (alloc : Allocator) (m : Manager) :
    GoAlike xType yType ((a.call alloc c m).1, (a.call alloc c m).2.1)
        (((a.openedFor xType yType).call alloc c' m).1,
          ((a.openedFor xType yType).call alloc c' m).2.1) ∧
      ((a.openedFor xType yType).call alloc c' m).2.2 = (a.call alloc c m).2.2 := by
  cases h with
  | setGroupCount count =>
    rw [call, call, setGroupCount_openedFor]
    exact ⟨⟨.refl _, rfl⟩, rfl⟩
  | addInput ids h => exact ⟨addInput_openedFor hx h, rfl⟩
  | addIntermediate ids h => exact ⟨addIntermediate_openedFor h, rfl⟩

theorem respond_openedFor (hx : xType.physical = a.xType.physical) (h : c.Relabelled c')
    (s : Surroundings) :
    GoAlike xType yType (a.respond s c) ((a.openedFor xType yType).respond s c') :=
  (call_openedFor hx h s.alloc s.manager).1

/-- What is opened for its own types is what it is, so calls keep the type. -/
theorem GoAlike.xType_eq {r : Attempt (Accumulator k)} (h : GoAlike xType yType r r) :
    r.2.xType = xType := by
  rw [h.state]
  rfl

theorem xType_respond (s : Surroundings) (c : Call) (a : Accumulator k) :
    (a.respond s c).2.xType = a.xType := by
  have hsame : GoAlike a.xType a.yType (a.respond s c) (a.respond s c) :=
    respond_openedFor rfl (.refl c) s
  exact hsame.xType_eq

theorem xType_addIntermediate (ids : List Nat) (input : Column) (a : Accumulator k) :
    (a.addIntermediate ids input).2.xType = a.xType := by
  have hsame : GoAlike a.xType a.yType (a.addIntermediate ids input)
      (a.addIntermediate ids input) := addIntermediate_openedFor (.refl input)
  exact hsame.xType_eq

/-! ## Runs -/

theorem run_openedFor (hx : xType.physical = a.xType.physical)
    (h : List.Forall₂ SameCall calls calls') :
    List.Forall₂ (fun t t' => EndAlike t.2 t'.2) (a.run calls).1
        ((a.openedFor xType yType).run calls').1 ∧
      ((a.openedFor xType yType).run calls').2 = (a.run calls).2.openedFor xType yType ∧
      (a.run calls).2.xType = a.xType := by
  -- on the calls; that each of them keeps the type of `x` lets the next one be compared
  induction h generalizing a with
  | nil => exact ⟨.nil, rfl, rfl⟩
  | @cons call call' calls calls' hcall _ ih =>
    obtain ⟨s, c⟩ := call
    obtain ⟨s', c'⟩ := call'
    obtain ⟨rfl, hc⟩ : s' = s ∧ c.Relabelled c' := hcall
    have hsame := xType_respond s' c a
    have hfirst : GoAlike xType yType (a.respond s' c)
        ((a.openedFor xType yType).respond s' c') := respond_openedFor hx hc s'
    obtain ⟨htrace, hlast, htype⟩ := ih (hx.trans (congrArg DataType.physical hsame).symm)
    rw [← hfirst.state] at htrace hlast
    exact ⟨.cons hfirst.outcome htrace, hlast, htype.trans hsame⟩

/-! ## Evaluating -/

/-- Attempts that end alike, with the builder of the second one relabelled. -/
structure BuildAlike (r r' : Attempt Builder) : Prop where
  outcome : EndAlike r.1 r'.1
  output : r.2.Relabelled r'.2

section Appending

variable {p : Physical} {found : Nat → Except Fault (Option p.Value)}
  {evaluate evaluate' : Nat → Builder → Attempt Builder} {b : Builder}

/-- Appends what was found, if it was. -/
def appendFound (b : Builder) : Except Fault (Option p.Value) → Attempt Builder
  | .ok v => b.appendStored p v
  | .error f => (.error f, b)

/-- An evaluation that appends what it finds for a group, to any builder of type `p`. -/
def Appending (p : Physical) (found : Nat → Except Fault (Option p.Value))
    (evaluate : Nat → Builder → Attempt Builder) : Prop :=
  ∀ g b, b.physical = p → evaluate g b = appendFound b (found g)

/-- The group's encoded state, or none for a group that holds nothing. -/
def encodedState (a : Accumulator k) (group : Nat) : Except Fault (Option Bytes) :=
  match a.held group with
  | .error f => .error f
  | .ok none => .ok none
  | .ok (some c) => (encodeGroup group c).map some

theorem appending_intermediate (a : Accumulator k) :
    Appending .binary a.encodedState a.evaluateIntermediate := by
  intro g b hb
  rw [evaluateIntermediate, if_neg (not_not.mpr hb), encodedState]
  rcases a.held g with f | _ | candidate
  · rfl
  · rfl
  · dsimp only
    cases encodeGroup g candidate <;> rfl

/-- The group's value, or none for a null and for a group that holds nothing. -/
def heldValue (a : Accumulator k) (group : Nat) : Except Fault (Option k.Value) :=
  (a.held group).map (·.bind Candidate.value)

theorem appending_final (a : Accumulator k) :
    Appending k.physical a.heldValue a.evaluateFinal := by
  intro g b hb
  rw [evaluateFinal, if_neg (not_not.mpr hb), heldValue]
  cases a.held g <;> rfl

namespace Appending

theorem dataType_eq (h : Appending p found evaluate) (hb : b.physical = p) (g : Nat) :
    (evaluate g b).2.dataType = b.dataType := by
  rw [h g b hb]
  rcases found g with f | v
  · rfl
  · exact Builder.dataType_appendStored rfl

/-- What the values of the builder mean makes no difference. -/
theorem labelled (h : Appending p found evaluate) (h' : Appending p found evaluate')
    (hb : b.physical = p) (ht : t.physical = p) (g : Nat) :
    evaluate' g (b.labelled t) = ((evaluate g b).1, (evaluate g b).2.labelled t) := by
  rw [h g b hb, h' g (b.labelled t) ht]
  rcases found g with f | v
  · rfl
  · exact Builder.appendStored_labelled t p v b

theorem buildAlike (h : Appending p found evaluate) (h' : Appending p found evaluate')
    (hb : b.physical = p) (ht : t.physical = p) (g : Nat) :
    BuildAlike (evaluate g b) (evaluate' g (b.labelled t)) := by
  rw [h.labelled h' hb ht]
  have hsame := congrArg DataType.physical (h.dataType_eq hb g)
  exact ⟨.refl _, t, ht.trans (hb.symm.trans hsame.symm), rfl⟩

theorem each_labelled (h : Appending p found evaluate) (h' : Appending p found evaluate')
    (hb : b.physical = p) (ht : t.physical = p) (groups : List Nat) :
    Builder.each evaluate' groups (b.labelled t) =
      ((Builder.each evaluate groups b).1, (Builder.each evaluate groups b).2.labelled t) := by
  induction groups generalizing b with
  | nil => rfl
  | cons g groups ih =>
    have hsame := congrArg DataType.physical (h.dataType_eq hb g)
    rw [Builder.each, Builder.each, h.labelled h' hb ht]
    rcases hfirst : evaluate g b with ⟨f | _, b'⟩
    · rfl
    · rw [hfirst] at hsame
      exact ih (hsame.trans hb)

end Appending

end Appending

/-- What the second accumulator answers is what the first one does, its values under the type
`t`. -/
structure AnswersAlike (t : DataType) (a a' : Accumulator k) : Prop where
  /-- One group, into any builder, which may be relabelled. -/
  state : ∀ g b b', b.Relabelled b' →
    BuildAlike (a.evaluateIntermediate g b) (a'.evaluateIntermediate g b')
  value : ∀ g b b', b.Relabelled b' → BuildAlike (a.evaluateFinal g b) (a'.evaluateFinal g b')
  states : ∀ n, a'.intermediates n = a.intermediates n
  values : ∀ n, a'.finals n = (a.finals n).bind (·.withDataType t)

theorem finals_openedFor (ha : a.xType.physical = k.physical) (hx : xType.physical = k.physical)
    (n : Nat) :
    (a.openedFor xType yType).finals n = (a.finals n).bind (·.withDataType xType) := by
  have hbuilder : (Builder.new a.xType).physical = k.physical := ha
  have hnew : Builder.new xType = (Builder.new a.xType).labelled xType := by
    rw [Builder.new, hx, ← ha]
    rfl
  have hkeeps : ∀ g b b', b.dataType = a.xType → a.evaluateFinal g b = (.ok (), b') →
      b'.dataType = a.xType := by
    intro g b b' hb hok
    have htype := (appending_final a).dataType_eq ((congrArg DataType.physical hb).trans ha) g
    rw [hok] at htype
    exact htype.trans hb
  show Builder.column (Builder.each _ (List.range n) (.new xType)) =
    (Builder.column (Builder.each a.evaluateFinal (List.range n) (.new a.xType))).bind _
  rw [hnew, (appending_final a).each_labelled (appending_final (a.openedFor xType yType)) hbuilder
    hx]
  rcases hrun : Builder.each a.evaluateFinal (List.range n) (.new a.xType) with ⟨f | _, b⟩
  · rfl
  · have htype : b.dataType = a.xType := Builder.each_keeps hkeeps rfl hrun
    have hphysical : xType.physical = b.finish.physical :=
      hx.trans (ha.symm.trans (congrArg DataType.physical htype).symm)
    exact (Column.withDataType_eq_ok_iff.mpr ⟨hphysical, rfl⟩).symm

theorem answersAlike_openedFor (ha : a.xType.physical = k.physical)
    (hx : xType.physical = k.physical) :
    AnswersAlike xType a (a.openedFor xType yType) where
  state := by
    rintro g b _ ⟨t, ht, rfl⟩
    by_cases hb : b.physical = .binary
    · exact (appending_intermediate a).buildAlike (appending_intermediate a) hb (ht.trans hb) g
    · have hb' : (b.labelled t).physical ≠ .binary := fun h => hb (ht.symm.trans h)
      rw [evaluateIntermediate, evaluateIntermediate, if_pos hb, if_pos hb']
      exact ⟨.error (.intermediateOutput ht), t, ht, rfl⟩
  value := by
    rintro g b _ ⟨t, ht, rfl⟩
    by_cases hb : b.physical = k.physical
    · exact (appending_final a).buildAlike (appending_final (a.openedFor xType yType)) hb
        (ht.trans hb) g
    · have hb' : (b.labelled t).physical ≠ k.physical := fun h => hb (ht.symm.trans h)
      rw [evaluateFinal, evaluateFinal, if_pos hb, if_pos hb']
      exact ⟨.error (.outputType (hx.trans ha.symm) ht), t, ht, rfl⟩
  states _ := rfl
  values := finals_openedFor ha hx

/-! ## Merging -/

/-- States of other groups, relabelled or not, are taken in or refused by both of two accumulators,
and what these answer after that is alike. -/
structure MergesAlike (t : DataType) (ids : List Nat) (states states' : Column)
    (a a' : Accumulator k) : Prop where
  outcome : EndAlike (a.addIntermediate ids states).1 (a'.addIntermediate ids states').1
  answers : AnswersAlike t (a.addIntermediate ids states).2 (a'.addIntermediate ids states').2

theorem mergesAlike_openedFor {states states' : Column} (ha : a.xType.physical = k.physical)
    (hx : xType.physical = k.physical) (h : states.Relabelled states') :
    MergesAlike xType ids states states' a (a.openedFor xType yType) := by
  have hgo : GoAlike xType yType (a.addIntermediate ids states)
      ((a.openedFor xType yType).addIntermediate ids states') := addIntermediate_openedFor h
  refine ⟨hgo.outcome, ?_⟩
  rw [hgo.state]
  exact answersAlike_openedFor (by rw [xType_addIntermediate, ha]) hx

/-- The states that an accumulator evaluates to are accepted wherever each is for a group that was
announced. -/
theorem addIntermediate_of_intermediates {states : Column} (ha : a.Sound) (hb : b.Sound)
    (hstates : a.intermediates n = .ok states) (hlen : ids.length = n)
    (hids : ∀ g ∈ ids, g < b.groupCount) : (b.addIntermediate ids states).1 = .ok () :=
  congrArg Prod.fst (addIntermediate_intermediates ha (le_groupCount_of_intermediates hstates)
    hstates hb hlen hids)

/-- Let two types be stored alike, and let an accumulator be opened for the first one. Then one can
be opened for the second one too, and any run goes on both in the same way, with its columns
relabelled for one of them: each call ends alike and leaves the memory alike, the states are the
same columns, and the values are the same but for the type that they are under. What one of the two
evaluates its states to can be merged in either of them, after any other run and relabelled or not:
it is accepted wherever each state is for a group that was announced, and both go on alike. -/
theorem run_relabelled {D E yType : DataType} {minCapacity : Nat} {start : Accumulator k}
    (hnew : Aggregate.new D yType minCapacity = .ok ⟨k, start⟩) (hstored : E.physical = D.physical)
    (yType' : DataType) :
    ∃ start' : Accumulator k, Aggregate.new E yType' minCapacity = .ok ⟨k, start'⟩ ∧
      ∀ calls calls', List.Forall₂ SameCall calls calls' →
        let a := (start.run calls).2
        let a' := (start'.run calls').2
        List.Forall₂ (fun t t' => EndAlike t.2 t'.2) (start.run calls).1
            (start'.run calls').1 ∧
          (∀ alloc m c c', c.Relabelled c' →
            (a'.call alloc c' m).2.2 = (a.call alloc c m).2.2) ∧
          AnswersAlike E a a' ∧
          ∀ n states states', a.intermediates n = .ok states → states.Relabelled states' →
            ∀ more more' ids, List.Forall₂ SameCall more more' →
              let b := (start.run more).2
              let b' := (start'.run more').2
              MergesAlike E ids states states' b b' ∧
                ((∀ call ∈ calls ++ more, ∀ column ∈ call.2.columns, column.Built) →
                  ids.length = n → (∀ g ∈ ids, g < b.groupCount) →
                    (b.addIntermediate ids states).1 = .ok () ∧
                      (b'.addIntermediate ids states').1 = .ok ()) := by
  have hD : D.physical = k.physical := Aggregate.physical_of_new hnew
  have hE : E.physical = k.physical := hstored.trans hD
  cases eq_new_of_aggregate hnew
  have hrun : ∀ calls calls', List.Forall₂ SameCall calls calls' →
      List.Forall₂ (fun t t' => EndAlike t.2 t'.2) ((new k D yType minCapacity).run calls).1
          ((new k E yType' minCapacity).run calls').1 ∧
        ((new k E yType' minCapacity).run calls').2 =
          ((new k D yType minCapacity).run calls).2.openedFor E yType' ∧
        ((new k D yType minCapacity).run calls).2.xType = D := by
    intro calls calls' hcalls
    exact run_openedFor (a := new k D yType minCapacity) hstored hcalls
  refine ⟨new k E yType' minCapacity, ?_, ?_⟩
  · simp only [Aggregate.new, Kind.ofPhysical?_eq_some_iff.mpr hE]
  · intro calls calls' hcalls a a'
    obtain ⟨htrace, hlast, hax⟩ := hrun calls calls' hcalls
    have ha : a' = a.openedFor E yType' := hlast
    rw [ha]
    refine ⟨htrace, ?_, answersAlike_openedFor (by rw [hax, hD]) hE, ?_⟩
    · intro alloc m c c' hc
      exact (call_openedFor (by rw [hax, hstored]) hc alloc m).2
    · intro n states states' hstates hrelabelled more more' ids hmore b b'
      obtain ⟨-, hlast, hbx⟩ := hrun more more' hmore
      have hb : b' = b.openedFor E yType' := hlast
      have hmerges : MergesAlike E ids states states' b b' :=
        hb ▸ mergesAlike_openedFor (by rw [hbx, hD]) hE hrelabelled
      refine ⟨hmerges, ?_⟩
      intro hbuilt hlen hids
      obtain ⟨hcalls, hmore⟩ := List.forall_mem_append.mp hbuilt
      have hsound := (run_view (sound_new k D yType minCapacity) hcalls Prod.mk.eta.symm).1
      have hsound' := (run_view (sound_new k D yType minCapacity) hmore Prod.mk.eta.symm).1
      have haccepted := addIntermediate_of_intermediates hsound hsound' hstates hlen hids
      exact ⟨haccepted, hmerges.outcome.eq_ok haccepted⟩

/-- The calls of `twoRows`, with dates for the numbers and timestamps for the times. -/
def datedRows : List (Surroundings × Call) :=
  let surroundings : Surroundings := ⟨.standard, .untracked⟩
  let x := Column.flat .date32 (.allValid 2) (.ofList .int32 [7, 8])
  let y := Column.flat .int64 (.allValid 2) (.ofList .int64 [5, 3])
  let time := Column.flat (.timestamp .second) (.allValid 2) (.ofList .int64 [5, 3])
  [(surroundings, .setGroupCount 1), (surroundings, .addInput [0, 0] [x, y, time])]

theorem sameCall_datedRows : List.Forall₂ SameCall twoRows datedRows := by
  refine .cons ⟨rfl, .setGroupCount 1⟩ (.cons ⟨rfl, .addInput [0, 0] ?_⟩ .nil)
  exact .cons ⟨.date32, rfl⟩ (.cons ⟨.int64, rfl⟩ (.cons ⟨.timestamp .second, rfl⟩ .nil))

theorem run_relabelled_datedRows :
    let a := ((new .int32 .int32 .int64 0).run twoRows).2
    let a' := ((new .int32 .date32 .utf8 0).run datedRows).2
    (a'.finals 1).bind (·.value 0) = .ok (.date32 8) ∧
      a'.finals 1 = (a.finals 1).bind (·.withDataType .date32) ∧
      ∃ states, a.intermediates 1 = .ok states ∧ a'.intermediates 1 = .ok states ∧
        (a.addIntermediate [0] states).1 = .ok () ∧ (a'.addIntermediate [0] states).1 = .ok () := by
  intro a a'
  have hnew : Aggregate.new .int32 .int64 0 = .ok ⟨.int32, new .int32 .int32 .int64 0⟩ := rfl
  have hstored : DataType.date32.physical = DataType.int32.physical := rfl
  obtain ⟨start', hnew', hrun⟩ := run_relabelled hnew hstored .utf8
  cases eq_new_of_aggregate hnew'
  obtain ⟨-, -, hanswers, hmerges⟩ := hrun twoRows datedRows sameCall_datedRows
  obtain ⟨states, hstates⟩ : ∃ states, a.intermediates 1 = .ok states := ⟨_, rfl⟩
  obtain ⟨-, haccepted⟩ := hmerges 1 states states hstates (.refl states) twoRows datedRows [0]
    sameCall_datedRows
  have hbuilt : ∀ call ∈ twoRows ++ twoRows, ∀ column ∈ call.2.columns, column.Built :=
    List.forall_mem_append.mpr ⟨built_twoRows, built_twoRows⟩
  have hvalue : (a'.finals 1).bind (·.value 0) = .ok (.date32 8) := by decide +kernel
  exact ⟨hvalue, hanswers.values 1, states, hstates, (hanswers.states 1).trans hstates,
    haccepted hbuilt rfl (by decide)⟩

end Accumulator

end Earliest
