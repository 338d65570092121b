import Earliest.Proofs.FirstBy.Refusal
import Earliest.Proofs.Memory.Conservation
import Earliest.Proofs.Memory.Run

/-! What an accumulator uses. Its footprint is the slots that the four arrays have memory for and
the room of the values in them, of which the manager knows the slots alone. A byte string that
takes the place of another leaves the slot's room as it is where it fits, so the footprint never
shrinks, and the room of a slot follows from the values that it held. -/

namespace Earliest

/-! ## Room -/

namespace Kind

/-- Bytes that a value owns outside its slot: only byte strings do. -/
def room : (k : Kind) → k.Cell → Nat
  | .binary, cell => Buffer.capacity cell
  | _, _ => 0

/-- The room of a slot once a value has taken the place of another. A byte string that is too long
for it makes it at least twice as much, and never less than eight. -/
def roomWith : (k : Kind) → Nat → k.Value → Nat
  | .binary, room, value =>
    if List.length value ≤ room then room else max (max (2 * room) (List.length value)) 8
  | _, room, _ => room

theorem heap_eq_room (k : Kind) (cell : k.Cell) : Slot.heap cell = k.room cell := by
  cases k <;> rfl

theorem room_blank (k : Kind) : k.room k.blank = 0 := by
  cases k <;> rfl

theorem room_write (k : Kind) (v : k.Value) (cell : k.Cell) :
    k.room (k.write v cell) = k.roomWith (k.room cell) v := by
  cases k with
  | binary => simp [room, roomWith, write, Buffer.write, Buffer.clear, Buffer.append]
  | _ => rfl

theorem le_roomWith (k : Kind) (room : Nat) (v : k.Value) : room ≤ k.roomWith room v := by
  cases k with
  | binary =>
    unfold roomWith
    dsimp only
    split <;> omega
  | _ => exact le_rfl

theorem heap_le_write (k : Kind) (v : k.Value) (cell : k.Cell) :
    Slot.heap cell ≤ Slot.heap (k.write v cell) := by
  rw [heap_eq_room, heap_eq_room, room_write]
  exact k.le_roomWith _ v

end Kind

/-! ## Values that take the place of others -/

namespace Candidate

variable {k : Kind}

/-- The candidates of a list that take the place of the one held, in turn: each is strictly earlier
than the one before. -/
def replacing : Option (Candidate k) → List (Candidate k) → List (Candidate k)
  | _, [] => []
  | held, c :: rest =>
    if held.any (·.timestamp ≤ c.timestamp) then replacing held rest
    else c :: replacing (some c) rest

/-- Their values. A null writes nothing. -/
def replacements (held : Option (Candidate k)) (l : List (Candidate k)) : List k.Value :=
  (replacing held l).filterMap value

theorem keep_eq (held : Option (Candidate k)) (c : Candidate k) :
    keep held c = if held.any (·.timestamp ≤ c.timestamp) then held else some c := by
  rcases held with _ | b
  · rfl
  · by_cases h : b.timestamp ≤ c.timestamp <;> simp [keep, h]

theorem replacing_append (held : Option (Candidate k)) (l l' : List (Candidate k)) :
    replacing held (l ++ l') = replacing held l ++ replacing (l.foldl keep held) l' := by
  induction l generalizing held with
  | nil => rfl
  | cons c l ih =>
    rw [List.cons_append, List.foldl_cons, keep_eq, replacing, replacing]
    split
    · exact ih held
    · rw [ih, List.cons_append]

theorem replacements_append (held : Option (Candidate k)) (l l' : List (Candidate k)) :
    replacements held (l ++ l') =
      replacements held l ++ replacements (l.foldl keep held) l' := by
  rw [replacements, replacing_append, List.filterMap_append, replacements, replacements]

end Candidate

namespace Accumulator

variable {k : Kind} {a a' : Accumulator k} {c : Call} {outcome : Except Fault Unit} {g : Nat}

/-! ## The cell of a group -/

/-- The values written to a cell, in turn. -/
def writeAll (values : List k.Value) (cell : k.Cell) : k.Cell :=
  values.foldl (fun cell v => k.write v cell) cell

theorem room_writeAll (values : List k.Value) (cell : k.Cell) :
    k.room (writeAll values cell) = values.foldl k.roomWith (k.room cell) := by
  induction values generalizing cell with
  | nil => rfl
  | cons v values ih => rw [writeAll, List.foldl_cons, List.foldl_cons, ← k.room_write, ← ih]; rfl

theorem slot_record_self (hg : g < a.values.size) (c : Candidate k) :
    (a.record g c).values.slot g = writeAll c.value.toList (a.values.slot g) := by
  obtain ⟨timestamp, _ | v⟩ := c
  · rfl
  · exact GroupArray.slot_update_self _ hg

theorem slot_record_of_ne {group : Nat} (c : Candidate k) (h : g ≠ group) :
    (a.record group c).values.slot g = a.values.slot g := by
  obtain ⟨timestamp, _ | v⟩ := c
  · rfl
  · exact GroupArray.slot_update_of_ne _ h

/-- Each value that takes the place of another in its group is written over it. -/
theorem slot_offerAll {l : List (Nat × Candidate k)} (ha : a.Sound) (hl : a.Announces l)
    (g : Nat) : (a.offerAll l).values.slot g =
      writeAll (Candidate.replacements (a.view g) (offeredTo g l)) (a.values.slot g) := by
  induction l generalizing a with
  | nil => rfl
  | cons offer l ih =>
    obtain ⟨group, c⟩ := offer
    have hg : group < a.groupCount := hl (group, c) List.mem_cons_self
    rw [offerAll_cons, ih (ha.offer hg c) hl.tail]
    by_cases h : g = group
    · subst h
      rw [offeredTo_cons_self, view_offer_self ha hg, Candidate.keep_eq, offer, ha.keeps_eq hg,
        Candidate.replacements, Candidate.replacements, Candidate.replacing]
      split
      · rfl
      · rw [slot_record_self (hg.trans_le ha.values)]
        cases hvalue : c.value with
        | none => simp [hvalue, writeAll]
        | some v => simp [hvalue, writeAll]
    · have hslot : (a.offer group c).values.slot g = a.values.slot g := by
        unfold offer
        split
        · rfl
        · exact slot_record_of_ne c h
      rw [offeredTo_cons_of_ne h, view_offer_of_ne c h, hslot]

theorem Responds.slot_eq (ha : a.Sound) (h : Responds a c outcome a') (g : Nat) :
    a'.values.slot g =
      writeAll (Candidate.replacements (a.view g) (offeredTo g (c.offers k outcome)))
        (a.values.slot g) := by
  cases h with
  | announced h => exact h.grows.2.2.2.slot_eq g
  | accepted h => exact slot_offerAll ha h.announces g
  | refused h =>
    rw [Call.offers_of_not_taken h]
    rfl

/-- After a run each cell has been written to by the values that took their places in turn. -/
theorem slot_of_run {calls : List (Surroundings × Call)} {trace : List (Call × Except Fault Unit)}
    (ha : a.Sound) (hcalls : ∀ call ∈ calls, ∀ column ∈ call.2.columns, column.Built)
    (hrun : a.run calls = (trace, a')) (g : Nat) :
    a'.values.slot g =
      writeAll (Candidate.replacements (a.view g) (candidatesFor k g trace))
        (a.values.slot g) := by
  induction calls generalizing a trace with
  | nil =>
    cases hrun
    rfl
  | cons call calls ih =>
    obtain ⟨s, c⟩ := call
    obtain ⟨outcome, b, rest, hstep, hrest, rfl⟩ := exists_respond_of_run_cons hrun
    have hfirst := responds_of_respond ha (hcalls (s, c) List.mem_cons_self) hstep
    have heffect := hfirst.effect ha
    rw [ih heffect.sound (fun call hmem => hcalls call (List.mem_cons_of_mem _ hmem)) hrest,
      hfirst.slot_eq ha, heffect.view, candidatesFor, candidatesFor, List.flatMap_cons,
      offeredTo_append, Candidate.replacements_append, writeAll, writeAll, writeAll,
      List.foldl_append]

/-! ## What is accounted for -/

/-- The reservations are those of the capacities, and what the values own is counted to the
byte. -/
structure Accounted (a : Accumulator k) : Prop where
  intact : a.Intact
  backed : a.Backed
  weighed : ∀ q, (a.lane q).Weighed

theorem accounted_new (k : Kind) (xType yType : DataType) (minCapacity : Nat) :
    (new k xType yType minCapacity).Accounted where
  intact := intact_new k xType yType minCapacity
  backed := backed_new k xType yType minCapacity
  weighed q := by cases q <;> exact GroupArray.weighed_new _ _

theorem weighed_record (ha : ∀ q, (a.lane q).Weighed) (group : Nat) (c : Candidate k) (q : Lane) :
    ((a.record group c).lane q).Weighed := by
  cases q with
  | timestamps => exact (ha .timestamps).set group _
  | initialized => exact (ha .initialized).set group _
  | nulls => exact (ha .nulls).set group _
  | values =>
    obtain ⟨timestamp, _ | v⟩ := c
    · exact ha .values
    · exact (ha .values).update group _

theorem weighed_offerAll (ha : ∀ q, (a.lane q).Weighed) (l : List (Nat × Candidate k)) (q : Lane) :
    ((a.offerAll l).lane q).Weighed := by
  induction l generalizing a with
  | nil => exact ha q
  | cons o l ih =>
    apply ih
    intro q
    show ((a.offer o.1 o.2).lane q).Weighed
    unfold offer
    split
    · exact ha q
    · exact weighed_record ha o.1 o.2 q

theorem Intact.copy_fill (ha : a.Intact) (q : Lane) :
    Slot.copy (a.lane q).fill = (a.lane q).fill := by
  rw [ha.fill_lane, q.copy_blank]

theorem Responds.accounted (ha : a.Accounted) (h : Responds a c outcome a') : a'.Accounted := by
  have hintact := h.intact ha.intact
  cases h with
  | announced h =>
    refine ⟨hintact, h.backed ha.backed, fun q => ?_⟩
    obtain ⟨_, _, hcalled⟩ := h.called_lane q
    exact hcalled.weighed (ha.intact.copy_fill q) (ha.weighed q)
  | accepted => exact ⟨hintact, (sameMemory_offerAll a _).backed ha.backed,
      weighed_offerAll ha.weighed _⟩
  | refused => exact ha

theorem Accounted.footprint_eq (ha : a.Accounted) :
    a.footprint = a.slotBytes + (a.values.toList.map k.room).sum := by
  have ht : a.timestamps.heapBytes = 0 := (ha.weighed .timestamps).heapBytes_eq_zero fun _ => rfl
  have hi : a.initialized.heapBytes = 0 := (ha.weighed .initialized).heapBytes_eq_zero fun _ => rfl
  have hn : a.nulls.heapBytes = 0 := (ha.weighed .nulls).heapBytes_eq_zero fun _ => rfl
  have hroom : (Slot.heap : k.Cell → Nat) = k.room := funext k.heap_eq_room
  have hv : a.values.heapBytes = ((a.values.toList.map k.room).sum : Nat) :=
    hroom ▸ ha.weighed .values
  have ht8 : Slot.width Int64 = 8 := rfl
  have hb1 : Slot.width Bool = 1 := rfl
  simp only [footprint, GroupArray.footprint, slotBytes, ht, hi, hn, hv, k.width_cell, ht8, hb1]
  omega

/-! ## Nothing is given up -/

theorem footprint_le_of_lanes (h : ∀ q, (a.lane q).footprint ≤ (a'.lane q).footprint) :
    a.footprint ≤ a'.footprint :=
  Int.add_le_add (Int.add_le_add (Int.add_le_add (h .timestamps) (h .initialized)) (h .nulls))
    (h .values)

theorem footprint_le_offer (a : Accumulator k) (group : Nat) (c : Candidate k) :
    a.footprint ≤ (a.offer group c).footprint := by
  unfold offer
  split
  · exact le_rfl
  · apply footprint_le_of_lanes
    intro q
    cases q with
    | values =>
      obtain ⟨timestamp, _ | v⟩ := c
      · exact le_rfl
      · exact GroupArray.footprint_le_update (k.heap_le_write v)
    | _ => exact GroupArray.footprint_le_set fun _ _ => le_rfl

theorem footprint_le_absorb (read : Nat → Except Fault (Option (Candidate k)))
    (a : Accumulator k) (row : Nat) (ids : List Nat) :
    a.footprint ≤ (a.absorb read row ids).2.footprint := by
  induction ids generalizing a row with
  | nil => exact le_rfl
  | cons group rest ih =>
    unfold absorb
    split
    · exact le_rfl
    · exact ih a (row + 1)
    · split
      · exact (footprint_le_offer a group _).trans (ih _ (row + 1))
      · exact le_rfl

/-- No call gives memory back, whatever it brings and however it ends. -/
theorem footprint_le_call (alloc : Allocator) (c : Call) (a : Accumulator k) (m : Manager) :
    a.footprint ≤ (a.call alloc c m).2.1.footprint := by
  cases c with
  | setGroupCount count =>
    rcases h : a.setGroupCount alloc count m with ⟨outcome, a', m'⟩
    rw [call, h]
    apply footprint_le_of_lanes
    intro q
    obtain ⟨_, _, hcalled⟩ := (setGroupCount_announced h).called_lane q
    exact hcalled.footprint_le
  | addInput ids inputs =>
    show a.footprint ≤ (a.addInput ids inputs).2.footprint
    unfold addInput
    split
    · split
      · exact le_rfl
      · exact footprint_le_absorb _ a 0 ids
    · exact le_rfl
  | addIntermediate ids input =>
    show a.footprint ≤ (a.addIntermediate ids input).2.footprint
    unfold addIntermediate
    split
    · exact le_rfl
    · exact footprint_le_absorb _ a 0 ids

end Accumulator

namespace Session

variable {k : Kind} {s : Session} {a : Accumulator k} {index : Nat}

/-- The accumulator of that number is there, and uses no less than before. -/
def Retains (s : Session) (index : Nat) (a : Accumulator k) : Prop :=
  ∃ a' : Accumulator k, s.aggregate? index = some ⟨k, a'⟩ ∧ a.footprint ≤ a'.footprint

theorem retains_of_aggregates {s' : Session} (h : s.aggregate? index = some ⟨k, a⟩)
    (hsame : s'.aggregates[index]? = s.aggregates[index]?) : s'.Retains index a :=
  ⟨a, by rw [aggregate?, hsame]; exact h, le_rfl⟩

theorem retains_add (h : s.aggregate? index = some ⟨k, a⟩) (b : Aggregate) :
    (s.add b).Retains index a :=
  retains_of_aggregates h
    (List.getElem?_append_left (List.getElem?_eq_some_iff.mp (mem_of_aggregate? h)).1)

theorem retains_call (h : s.aggregate? index = some ⟨k, a⟩) (alloc : Allocator) (i : Nat)
    (c : Call) : (s.call alloc i c).2.Retains index a := by
  by_cases hi : i = index
  · subst hi
    have hfind : s.find i = .ok ⟨k, a⟩ := by rw [find, h]
    have hlt := (List.getElem?_eq_some_iff.mp (mem_of_aggregate? h)).1
    refine ⟨(a.call alloc c s.manager).2.1, ?_, Accumulator.footprint_le_call alloc c a s.manager⟩
    simp only [Session.call, hfind, Aggregate.call]
    rw [aggregate?, List.getElem?_set_self hlt, Option.join_some]
  · unfold Session.call
    split
    · exact retains_of_aggregates h rfl
    · exact retains_of_aggregates h (List.getElem?_set_ne hi)

/-- Whatever is done with a session, an accumulator that is not dropped uses no less than before. -/
theorem retains_apply (h : s.aggregate? index = some ⟨k, a⟩) (alloc : Allocator) {op : Op}
    (hop : op ≠ .drop index) : (s.apply alloc op).2.Retains index a := by
  cases op with
  | create xType yType minCapacity =>
    unfold Session.apply
    dsimp only
    split
    · exact retains_of_aggregates h rfl
    · exact retains_add h _
  | createAs kind xType yType minCapacity => exact retains_add h _
  | call i c => exact retains_call h alloc i c
  | mergeKept i ids column =>
    unfold Session.apply
    dsimp only
    split
    · exact retains_of_aggregates h rfl
    · exact retains_call h alloc i _
  | evaluate stage i group output => exact retains_of_aggregates h rfl
  | keep i count =>
    unfold Session.apply Session.keep
    dsimp only
    split
    · exact retains_of_aggregates h rfl
    · split
      · exact retains_of_aggregates h rfl
      · exact retains_of_aggregates h rfl
      · exact retains_of_aggregates h rfl
  | drop i =>
    have hi : i ≠ index := by
      rintro rfl
      exact hop rfl
    refine retains_of_aggregates h ?_
    show (s.drop i).aggregates[index]? = s.aggregates[index]?
    rw [aggregates_drop, List.getElem?_set_ne hi]

end Session

namespace Accumulator

variable {k : Kind} {a : Accumulator k}

/-- After any run, failed calls included, the footprint is what it was at first and exactly the
slots that the four arrays have memory for, with the room of the values in them; of that the
manager has granted the slots. The room of each slot is what the values that took their places in
it, one after the other, have made of none. Nothing that is done with a session, short of dropping
the accumulator, makes it use less. -/
theorem run_footprint {xType yType : DataType} {minCapacity : Nat}
    {calls : List (Surroundings × Call)} {trace : List (Call × Except Fault Unit)}
    (hcalls : ∀ call ∈ calls, ∀ column ∈ call.2.columns, column.Built)
    (hrun : (new k xType yType minCapacity).run calls = (trace, a)) :
    let slots := 8 * a.timestamps.capacity + a.initialized.capacity + a.nulls.capacity +
      k.slotSize * a.values.capacity
    a.footprint = (new k xType yType minCapacity).footprint +
      (slots + (a.values.toList.map k.room).sum) ∧
    a.reserved = slots ∧
    (∀ g < a.values.size, ∃ cell, a.values.get? g = some cell ∧
      k.room cell = (Candidate.replacements none (candidatesFor k g trace)).foldl k.roomWith 0) ∧
    ∀ (s : Session) (alloc : Allocator) (index : Nat) (op : Session.Op),
      s.aggregate? index = some ⟨k, a⟩ → op ≠ .drop index →
        ∃ a' : Accumulator k, (s.apply alloc op).2.aggregate? index = some ⟨k, a'⟩ ∧
          a.footprint ≤ a'.footprint := by
  intro slots
  have hnew := accounted_new k xType yType minCapacity
  have ha : a.Accounted := by
    refine run_induction (P := Accounted) ?_ hnew.intact.sound hcalls hrun hnew
    intro c outcome a a' _ hresponds haccounted
    exact hresponds.accounted haccounted
  have hslots : a.slotBytes = slots := by
    unfold slotBytes slots
    rw [Nat.mul_comm 8, Nat.mul_comm k.slotSize, Nat.mul_one, Nat.mul_one]
  have hempty : (new k xType yType minCapacity).footprint = 0 := by
    simp [new, footprint, GroupArray.new, GroupArray.footprint]
  refine ⟨?_, ha.backed.reserved_eq.trans hslots, ?_, ?_⟩
  · rw [hempty, Int.zero_add, ha.footprint_eq, hslots]
  · intro g hg
    refine ⟨a.values.slot g, GroupArray.get?_eq_slot hg, ?_⟩
    have hblank : (new k xType yType minCapacity).values.slot g = k.blank :=
      (GroupArray.slot_new k.blank minCapacity g).trans k.copy_blank
    rw [slot_of_run hnew.intact.sound hcalls hrun g, room_writeAll, view_new, hblank, k.room_blank]
  · intro s alloc index op h hop
    exact Session.retains_apply h alloc hop

/-- One group, and three byte strings for it, each at an earlier time: the second one is shorter
than the first one, and the third one longer than the room for it. -/
def threeLengths : List (Surroundings × Call) :=
  let surroundings : Surroundings := ⟨.standard, .untracked⟩
  let x := Column.flat .binary (.allValid 3)
    (.ofList .binary [[1, 2, 3], [4], [1, 2, 3, 4, 5, 6, 7, 8, 9]])
  let time := Column.flat .int64 (.allValid 3) (.ofList .int64 [5, 4, 3])
  [(surroundings, .setGroupCount 1), (surroundings, .addInput [0, 0, 0] [x, time, time])]

theorem built_threeLengths : ∀ call ∈ threeLengths, ∀ column ∈ call.2.columns, column.Built := by
  have hstore : ColumnData.Built
      (.ofList .binary [[1, 2, 3], [4], [1, 2, 3, 4, 5, 6, 7, 8, 9]]) :=
    ByteStrings.Built.push (.push (.push .empty _) _) _
  have hx : (Column.flat .binary (.allValid 3)
      (.ofList .binary [[1, 2, 3], [4], [1, 2, 3, 4, 5, 6, 7, 8, 9]])).Built :=
    Column.built_flat (.allValid 3) hstore rfl rfl
  have htime : (Column.flat .int64 (.allValid 3) (.ofList .int64 [5, 4, 3])).Built :=
    Column.built_flat (.allValid 3) trivial rfl rfl
  simp [threeLengths, Call.columns, hx, htime]

/-- The first one takes eight bytes of room, and the third one twice as many. -/
theorem run_footprint_threeLengths :
    let a := ((new .binary .binary .int64 0).run threeLengths).2
    let s : Session := ⟨.untracked, [some ⟨.binary, a⟩], []⟩
    a.footprint = 8 + 1 + 1 + 24 + 16 ∧ a.reserved = 8 + 1 + 1 + 24 ∧
      (∃ cell, a.values.get? 0 = some cell ∧ Kind.room .binary cell = 16) ∧
      ∃ a' : Accumulator .binary,
        (s.apply .standard (.evaluate .final 0 0 (.new .binary))).2.aggregate? 0 =
          some ⟨.binary, a'⟩ ∧ a.footprint ≤ a'.footprint := by
  intro a s
  have hrun : (new .binary .binary .int64 0).run threeLengths = (_, a) := Prod.mk.eta.symm
  obtain ⟨hfootprint, hreserved, hroom, hkept⟩ := run_footprint built_threeLengths hrun
  obtain ⟨cell, hcell, hsixteen⟩ := hroom 0 (by decide)
  refine ⟨hfootprint.trans (by decide), hreserved.trans (by decide),
    ⟨cell, hcell, hsixteen.trans (by decide)⟩, hkept s .standard 0 _ rfl nofun⟩

end Accumulator

end Earliest
