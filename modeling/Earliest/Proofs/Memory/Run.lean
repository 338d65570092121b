import Earliest.Proofs.Memory.Ensure

/-! Runs of calls on a group array. The array stands for a value at every index: a copy of the fill
value, changed by the writes that found their slot, in order. Growth only shows more of it, and a
call that is refused or finds no slot changes nothing. What the values own outside their slots is
counted as they change, and each slot is charged the fill value's own bytes when it is added. A
function that unwinds leaves its slot changed and the count as it was. -/

namespace Earliest.GroupArray

variable {α : Type} [Slot α] {a a' : GroupArray α} {m m' : Manager} {i j n : Nat} {v : α}
  {f : α → α} {s : Surroundings} {outcome : Except Fault Unit}

/-! ## Calls -/

/-- The calls that can change an array. -/
inductive Op (α : Type) where
  | ensure (n : Nat)
  | set (i : Nat) (v : α)
  /-- `.error` where the function unwinds. -/
  | update (i : Nat) (f : α → Except α α)

/-- What a function has made of its slot when it returns or unwinds. -/
def made : Except α α → α
  | .ok v => v
  | .error v => v

/-- The slot that a call writes to, and what it makes of the value there. -/
def Op.write? : Op α → Option (Nat × (α → α))
  | .ensure _ => none
  | .set i v => some (i, fun _ => v)
  | .update i f => some (i, fun v => made (f v))

/-- The call's outcome and the array after it. -/
def apply (s : Surroundings) (op : Op α) (a : GroupArray α) : Attempt (GroupArray α) :=
  match op with
  | .ensure n =>
    let (outcome, a, _) := a.ensure s.alloc n s.manager
    (outcome, a)
  | .set i v => a.trySet i v
  | .update i f => a.tryUpdate i f

/-- The calls in turn, each with its outcome, and the array after them. -/
def run : List (Surroundings × Op α) → GroupArray α →
    List (Op α × Except Fault Unit) × GroupArray α
  | [], a => ([], a)
  | (s, op) :: rest, a =>
    let (outcome, a) := a.apply s op
    let (trace, a) := run rest a
    ((op, outcome) :: trace, a)

/-- A run is its first call and then the others. -/
theorem exists_apply_of_run_cons {op : Op α} {steps : List (Surroundings × Op α)}
    {trace : List (Op α × Except Fault Unit)} (h : a.run ((s, op) :: steps) = (trace, a')) :
    ∃ outcome b rest, a.apply s op = (outcome, b) ∧ b.run steps = (rest, a') ∧
      trace = (op, outcome) :: rest := by
  simp only [run, Prod.mk.injEq] at h
  obtain ⟨rfl, rfl⟩ := h
  exact ⟨_, _, _, rfl, rfl, rfl⟩

/-- The four things that a call can do. -/
inductive Ends (a : GroupArray α) : Op α → Except Fault Unit → GroupArray α → Prop
  | ensured {s : Surroundings} {n : Nat} {outcome : Except Fault Unit} {a' : GroupArray α}
      {m' : Manager} (h : a.ensure s.alloc n s.manager = (outcome, a', m')) :
      Ends a (.ensure n) outcome a'
  | written {op : Op α} {i : Nat} {f : α → α} (hop : op.write? = some (i, f)) (hi : i < a.size) :
      Ends a op (.ok ()) (a.update i f)
  | unwound {op : Op α} {i : Nat} {f : α → α} {v : α} (hop : op.write? = some (i, f))
      (hget : a.get? i = some v) : Ends a op (.error .unwound) (a.leave i (f v))
  | missed {op : Op α} {i : Nat} {f : α → α} (hop : op.write? = some (i, f)) (hi : a.size ≤ i) :
      Ends a op (.error (.slotRange i a.size)) a

theorem trySet_eq (a : GroupArray α) (i : Nat) (v : α) : a.trySet i v =
    if i < a.size then (.ok (), a.update i fun _ => v) else (.error (.slotRange i a.size), a) := by
  rw [trySet, set_eq_update]

theorem tryUpdate_of_le (h : a.size ≤ i) (f : α → Except α α) :
    a.tryUpdate i f = (.error (.slotRange i a.size), a) := by
  rw [tryUpdate, get?_eq_none h]

theorem tryUpdate_of_ok {f : α → Except α α} {w : α} (h : a.get? i = some v) (hf : f v = .ok w) :
    a.tryUpdate i f = (.ok (), a.update i fun v => made (f v)) := by
  simp only [tryUpdate, update, h, hf, made]

theorem tryUpdate_of_error {f : α → Except α α} {w : α} (h : a.get? i = some v)
    (hf : f v = .error w) : a.tryUpdate i f = (.error .unwound, a.leave i (made (f v))) := by
  simp only [tryUpdate, h, hf, made]

theorem ends_of_apply {op : Op α} (h : a.apply s op = (outcome, a')) : Ends a op outcome a' := by
  cases op with
  | ensure n =>
    rcases hensure : a.ensure s.alloc n s.manager with ⟨o, b, m⟩
    simp only [apply, hensure, Prod.mk.injEq] at h
    obtain ⟨rfl, rfl⟩ := h
    exact .ensured hensure
  | set i v =>
    rw [apply, trySet_eq] at h
    by_cases hi : i < a.size
    · rw [if_pos hi] at h
      cases h
      exact .written rfl hi
    · rw [if_neg hi] at h
      cases h
      exact .missed rfl (not_lt.mp hi)
  | update i f =>
    rw [apply] at h
    by_cases hi : i < a.size
    · obtain ⟨v, hv⟩ := exists_get? hi
      rcases hf : f v with w | w
      · rw [tryUpdate_of_error hv hf] at h
        cases h
        exact .unwound (f := fun v => made (f v)) rfl hv
      · rw [tryUpdate_of_ok hv hf] at h
        cases h
        exact .written rfl hi
    · rw [tryUpdate_of_le (not_lt.mp hi)] at h
      cases h
      exact .missed rfl (not_lt.mp hi)

/-- What the slot holds, or will hold once it is there. -/
def slot (a : GroupArray α) (i : Nat) : α := (a.get? i).getD (Slot.copy a.fill)

theorem get?_eq_slot (h : i < a.size) : a.get? i = some (a.slot i) := by
  obtain ⟨v, hv⟩ := exists_get? h
  rw [slot, hv, Option.getD_some]

theorem slot_new (fill : α) (minCapacity i : Nat) :
    (new fill minCapacity).slot i = Slot.copy fill := by
  simp [slot, new, get?]

theorem slot_update_self (f : α → α) (h : i < a.size) :
    (a.update i f).slot i = f (a.slot i) := by
  rw [slot, get?_update_self f (get?_eq_slot h), Option.getD_some]

theorem slot_update_of_ne (f : α → α) (h : j ≠ i) : (a.update i f).slot j = a.slot j := by
  rw [slot, slot, get?_update_of_ne f h, fill_update]

theorem slot_leave_self (w : α) (h : i < a.size) : (a.leave i w).slot i = w := by
  rw [slot, get?_leave_self w h, Option.getD_some]

omit [Slot α] in
theorem fill_leave (a : GroupArray α) (i : Nat) (w : α) : (a.leave i w).fill = a.fill := rfl

theorem slot_leave_of_ne (w : α) (h : j ≠ i) : (a.leave i w).slot j = a.slot j := by
  rw [slot, slot, get?_leave_of_ne w h, fill_leave]

/-- Growth changes no slot, neither those there are nor those to come. -/
theorem Grows.slot_eq (h : Grows a a') (i : Nat) : a'.slot i = a.slot i := by
  rw [slot, slot, h.fill]
  by_cases hold : i < a.size
  · rw [h.kept i hold]
  · by_cases hnew : i < a'.size
    · rw [h.added i (not_lt.mp hold) hnew, get?_eq_none (not_lt.mp hold), Option.getD_some,
        Option.getD_none]
    · rw [get?_eq_none (not_lt.mp hold), get?_eq_none (not_lt.mp hnew)]

/-- The numbers of slots that were asked for and granted. -/
def granted (trace : List (Op α × Except Fault Unit)) : List Nat :=
  trace.filterMap fun
    | (.ensure n, .ok ()) => some n
    | _ => none

/-- Whether a write that ended so has found its slot. -/
def found : Except Fault Unit → Bool
  | .ok () => true
  | .error fault => fault = .unwound

/-- What the writes that found the slot made of its value, in order. -/
def writesTo (i : Nat) (trace : List (Op α × Except Fault Unit)) : List (α → α) :=
  trace.filterMap fun (op, outcome) =>
    if found outcome then op.write?.bind fun (j, f) => if j = i then some f else none else none

omit [Slot α] in
theorem granted_of_write? {op : Op α} (hop : op.write? = some (i, f))
    (outcome : Except Fault Unit) : granted [(op, outcome)] = [] := by
  cases op with
  | ensure n => cases hop
  | set j v => rfl
  | update j g => rfl

/-- What a call does to the array, as it shows in the call's outcome. -/
structure Effect (op : Op α) (outcome : Except Fault Unit) (a a' : GroupArray α) : Prop where
  fill : a'.fill = a.fill
  size : a'.size = (granted [(op, outcome)]).foldl max a.size
  slot : ∀ i, a'.slot i = (writesTo i [(op, outcome)]).foldl (fun v f => f v) (a.slot i)

omit [Slot α] in
/-- A write that found its slot shows in that slot alone. -/
theorem writesTo_of_write? {op : Op α} (hop : op.write? = some (i, f)) (hfound : found outcome)
    (j : Nat) : writesTo j [(op, outcome)] = if i = j then [f] else [] := by
  by_cases h : i = j <;> simp [writesTo, hop, hfound, h]

omit [Slot α] in
/-- What a write that found its slot makes of all slots. -/
theorem slot_of_write? {slots slots' : Nat → α} {op : Op α} (hop : op.write? = some (i, f))
    (hfound : found outcome) (hself : slots' i = f (slots i))
    (hother : ∀ j, j ≠ i → slots' j = slots j) (j : Nat) :
    slots' j = (writesTo j [(op, outcome)]).foldl (fun v f => f v) (slots j) := by
  rw [writesTo_of_write? hop hfound]
  by_cases hj : i = j
  · subst hj
    rw [if_pos rfl]
    exact hself
  · rw [if_neg hj]
    exact hother j (Ne.symm hj)

theorem Ends.effect {op : Op α} (h : Ends a op outcome a') : Effect op outcome a a' := by
  cases h with
  | @ensured s n _ _ m' h =>
    have hgrows := (Called.once h).grows
    refine ⟨hgrows.fill, ?_, fun i => ?_⟩
    · cases outcome with
      | error fault => rw [eq_of_ensure_error h]; rfl
      | ok => rw [(ensure_ok h).1, size_ensured]; rfl
    · have hnone : writesTo i [((.ensure n : Op α), outcome)] = [] := by simp [writesTo, Op.write?]
      rw [hgrows.slot_eq i, hnone, List.foldl_nil]
  | @written _ i f hop hi =>
    refine ⟨fill_update _ _ _, ?_, slot_of_write? hop rfl (slot_update_self f hi) ?_⟩
    · rw [size_update, granted_of_write? hop, List.foldl_nil]
    · exact fun j hj => slot_update_of_ne f hj
  | @unwound _ i f v hop hget =>
    have hslot : a.slot i = v := by rw [slot, hget, Option.getD_some]
    have hself := (slot_leave_self (f v) (lt_size_of_get? hget)).trans (congrArg f hslot.symm)
    refine ⟨rfl, ?_, slot_of_write? hop rfl hself ?_⟩
    · rw [size_leave, granted_of_write? hop, List.foldl_nil]
    · exact fun j hj => slot_leave_of_ne (f v) hj
  | @missed _ i f hop hi =>
    have hnone (j : Nat) : writesTo j [(op, .error (.slotRange i a.size))] = [] := by
      simp [writesTo, found]
    exact ⟨rfl, by rw [granted_of_write? hop, List.foldl_nil], fun j => by rw [hnone]; rfl⟩

/-- What every call keeps, a run keeps. A write that finds no slot leaves the array. -/
theorem run_induction {P : GroupArray α → Prop} {steps : List (Surroundings × Op α)}
    {trace : List (Op α × Except Fault Unit)}
    (hensure : ∀ {n : Nat} {a a' : GroupArray α} {m m' : Manager}, Called n a m a' m' → P a → P a')
    (hupdate : ∀ {a : GroupArray α} (i : Nat) (f : α → α), P a → P (a.update i f))
    (hleave : ∀ {a : GroupArray α} (i : Nat) (v : α), P a → P (a.leave i v))
    (hrun : a.run steps = (trace, a')) (h : P a) : P a' := by
  induction steps generalizing a trace with
  | nil =>
    cases hrun
    exact h
  | cons step steps ih =>
    obtain ⟨s, op⟩ := step
    obtain ⟨outcome, b, rest, hstep, hrest, rfl⟩ := exists_apply_of_run_cons hrun
    refine ih hrest ?_
    cases ends_of_apply hstep with
    | ensured he => exact hensure (.once he) h
    | written => exact hupdate _ _ h
    | unwound => exact hleave _ _ h
    | missed => exact h

/-- What a call leaves uncounted: what a function that unwound has made its slot own. -/
def Op.uncounted (a : GroupArray α) : Op α → Int
  | .update i f =>
    match a.get? i with
    | none => 0
    | some v =>
      match f v with
      | .ok _ => 0
      | .error w => Slot.heap w - Slot.heap v
  | _ => 0

/-- What the calls of a run leave uncounted. -/
def uncounted : List (Surroundings × Op α) → GroupArray α → Int
  | [], _ => 0
  | (s, op) :: rest, a => op.uncounted a + uncounted rest (a.apply s op).2

theorem Op.uncounted_eq_zero {op : Op α} (h : (a.apply s op).1 ≠ .error .unwound) :
    op.uncounted a = 0 := by
  cases op with
  | ensure n | set i v => rfl
  | update i f =>
    rcases hv : a.get? i with _ | v
    · simp only [Op.uncounted, hv]
    · rcases hf : f v with w | w
      · rw [apply, tryUpdate_of_error hv hf] at h
        exact absurd rfl h
      · simp only [Op.uncounted, hv, hf]

/-- Where no function unwinds, nothing is left uncounted. -/
theorem uncounted_eq_zero {steps : List (Surroundings × Op α)}
    {trace : List (Op α × Except Fault Unit)} (hrun : a.run steps = (trace, a'))
    (h : ∀ entry ∈ trace, entry.2 ≠ .error .unwound) : uncounted steps a = 0 := by
  induction steps generalizing a trace with
  | nil => rfl
  | cons step steps ih =>
    obtain ⟨s, op⟩ := step
    obtain ⟨outcome, b, rest, hstep, hrest, rfl⟩ := exists_apply_of_run_cons hrun
    have hop : op.uncounted a = 0 := by
      apply Op.uncounted_eq_zero (s := s)
      rw [hstep]
      exact h (op, outcome) List.mem_cons_self
    simp only [uncounted, hop, hstep, Int.zero_add]
    exact ih hrest fun entry hmem => h entry (List.mem_cons_of_mem _ hmem)

/-- A call keeps the charge for the slots, and lacks what it leaves uncounted. -/
theorem charged_apply {rest : Int} (op : Op α) (ha : a.Charged (a.size * spare a.fill + rest)) :
    let b := (a.apply s op).2
    b.Charged (b.size * spare b.fill + (rest - op.uncounted a)) := by
  cases op with
  | ensure n =>
    have hcalled : Called n a s.manager (a.ensure s.alloc n s.manager).2.1 _ := .once rfl
    have hzero : (Op.ensure n).uncounted a = 0 := rfl
    rw [hzero, Int.sub_zero]
    exact hcalled.charged ha
  | set i v =>
    have hzero : (Op.set i v).uncounted a = 0 := rfl
    rw [hzero, Int.sub_zero, apply, trySet]
    split
    · dsimp only
      rw [size_set, fill_set]
      exact ha.set i v
    · exact ha
  | update i f =>
    rcases hv : a.get? i with _ | v
    · simp only [apply, tryUpdate, Op.uncounted, hv, Int.sub_zero]
      exact ha
    · rcases hf : f v with w | w
      · simp only [apply, tryUpdate, Op.uncounted, hv, hf, size_leave, fill_leave]
        refine (ha.leave hv w).congr ?_
        ring
      · simp only [apply, tryUpdate, Op.uncounted, hv, hf, size_set, fill_set, Int.sub_zero]
        exact ha.set i w

/-- However slots were added and written, the count stands above what the values own by what each
slot was charged beyond that when it was added, less what functions that unwound left uncounted. -/
theorem charged_run {rest : Int} {steps : List (Surroundings × Op α)}
    {trace : List (Op α × Except Fault Unit)} (ha : a.Charged (a.size * spare a.fill + rest))
    (hrun : a.run steps = (trace, a')) :
    a'.Charged (a'.size * spare a'.fill + (rest - uncounted steps a)) := by
  induction steps generalizing a trace rest with
  | nil =>
    cases hrun
    rwa [uncounted, Int.sub_zero]
  | cons step steps ih =>
    obtain ⟨s, op⟩ := step
    obtain ⟨outcome, b, rest, hstep, hrest, rfl⟩ := exists_apply_of_run_cons hrun
    have hb := charged_apply (s := s) op ha
    simp only [hstep] at hb
    have hlast := ih hb hrest
    rwa [uncounted, hstep, ← Int.sub_sub]

theorem fill_run {steps : List (Surroundings × Op α)} {trace : List (Op α × Except Fault Unit)}
    (hrun : a.run steps = (trace, a')) : a'.fill = a.fill := by
  refine run_induction (P := fun b => b.fill = a.fill) ?_ ?_ ?_ hrun rfl
  · intro n b b' m m' hcalled hb
    exact hcalled.grows.fill.trans hb
  · intro b i f hb
    exact (fill_update b i f).trans hb
  · intro b i v hb
    exact hb

/-- The count of an array of byte buffers. -/
theorem heapBytes_of_run {fill : Buffer} {minCapacity : Nat} {a : GroupArray Buffer}
    {steps : List (Surroundings × Op Buffer)} {trace : List (Op Buffer × Except Fault Unit)}
    (hfill : fill.bytes.length ≤ fill.capacity)
    (hrun : (new fill minCapacity).run steps = (trace, a)) :
    a.heapBytes =
      ((a.toList.map Buffer.capacity).sum + a.size * (fill.capacity - fill.bytes.length) : Nat) -
        uncounted steps (new fill minCapacity) := by
  have hnew : (new fill minCapacity).Charged ((new fill minCapacity).size * spare fill + 0) :=
    (charged_new fill minCapacity).congr (by simp [new, size])
  have hspare : spare fill = ((fill.capacity - fill.bytes.length : Nat) : Int) :=
    (Nat.cast_sub hfill).symm
  have hsame : a.fill = fill := fill_run hrun
  have hcharged := charged_run hnew hrun
  rw [Charged, hsame, hspare] at hcharged
  rw [hcharged, Nat.cast_add, Nat.cast_mul]
  show (a.heapTotal : Int) + _ = a.heapTotal + _ - _
  ring

/-- After any run of an array of byte buffers, whatever the writes do to them and whatever failed,
the count is the room of all buffers and, for each, what the fill buffer has room for beyond its
bytes, less what functions that unwound left uncounted; and the word is the count modulo 2^64, from
which a write subtracts the room of the buffer that it replaces. As long as none unwound and 64 bits
hold the count, the word is the count. No buffer then has more room than the word says, so nothing
is subtracted from less, and with a fill buffer that has no room to spare the array uses its slots
and exactly that room. -/
theorem run_heapBytes (fill : Buffer) (minCapacity : Nat)
    (hfill : fill.bytes.length ≤ fill.capacity) (steps : List (Surroundings × Op Buffer)) :
    let trace := ((new fill minCapacity).run steps).1
    let a := ((new fill minCapacity).run steps).2
    let room := (a.toList.map Buffer.capacity).sum
    let count := room + a.size * (fill.capacity - fill.bytes.length)
    let missing := uncounted steps (new fill minCapacity)
    a.heapBytes = count - missing ∧
    a.heapWord = .ofNat count - .ofInt missing ∧
    UInt64.ofInt a.footprint = .ofNat (a.capacity * 24) + a.heapWord ∧
    (∀ i s v, a.get? i = some s →
      (a.set i v).heapWord = a.heapWord - .ofNat s.capacity + .ofNat v.capacity) ∧
    ((∀ entry ∈ trace, entry.2 ≠ .error .unwound) →
      missing = 0 ∧
      (fill.capacity = fill.bytes.length →
        a.footprint = (new fill minCapacity).footprint + (a.capacity * 24 + room)) ∧
      (count < 2 ^ 64 → a.heapWord.toNat = count ∧
        ∀ i s, a.get? i = some s → s.capacity ≤ a.heapWord.toNat)) := by
  intro trace a room count missing
  have hrun : (new fill minCapacity).run steps = (trace, a) := rfl
  have hcount : a.heapBytes = count - missing := heapBytes_of_run hfill hrun
  refine ⟨hcount, ?_, ofInt_footprint a, fun i s v h => heapWord_set h v, ?_⟩
  · rw [heapWord, hcount, ofInt_sub, ofInt_natCast]
  · intro hreturned
    have hmissing : missing = 0 := uncounted_eq_zero hrun hreturned
    have hexact : a.heapBytes = count := by rw [hcount, hmissing, Int.sub_zero]
    refine ⟨hmissing, ?_, ?_⟩
    · intro hfull
      have hroom : a.heapBytes = room := by
        rw [hexact]
        show ((room + a.size * (fill.capacity - fill.bytes.length) : Nat) : Int) = room
        rw [hfull, Nat.sub_self, Nat.mul_zero, Nat.add_zero]
      have hempty : (new fill minCapacity).footprint = 0 := by simp [new, footprint]
      rw [hempty, Int.zero_add, footprint, hroom]
      rfl
    · intro hlt
      have hword : a.heapWord.toNat = count := by
        have h := toNat_heapWord_of_lt (a := a) (by omega) (by omega)
        omega
      refine ⟨hword, fun i s h => ?_⟩
      have hle : s.capacity ≤ room := heap_le_heapTotal h
      rw [hword]
      exact hle.trans (Nat.le_add_right _ _)

/-- Two copies of two bytes; the first one gets four more and the second one a single one in their
place. A third write finds no slot, and two slots more are refused. -/
def appendAndWrite : List (Surroundings × Op Buffer) :=
  [(⟨.standard, .untracked⟩, .ensure 2),
    (⟨.standard, .untracked⟩, .update 0 fun b => .ok (b.append [3, 4, 5, 6])),
    (⟨.standard, .untracked⟩, .update 1 fun b => .ok (b.write [7])),
    (⟨.standard, .untracked⟩, .set 2 .empty),
    (⟨.standard, .new (some 47)⟩, .ensure 4)]

theorem run_heapBytes_appendAndWrite :
    ((new ⟨[1, 2], 5⟩ 0).run appendAndWrite).2.heapWord.toNat = (8 + 2) + 2 * (5 - 2) ∧
      ((new (.ofBytes [1, 2]) 0).run appendAndWrite).2.footprint = 2 * 24 + (8 + 2) := by
  obtain ⟨-, -, -, -, hroomy⟩ := run_heapBytes ⟨[1, 2], 5⟩ 0 (by decide) appendAndWrite
  obtain ⟨-, -, hword⟩ := hroomy (by decide)
  obtain ⟨-, -, -, -, hfull⟩ := run_heapBytes (.ofBytes [1, 2]) 0 (by decide) appendAndWrite
  obtain ⟨-, hfootprint, -⟩ := hfull (by decide)
  exact ⟨(hword (by decide)).1.trans (by decide), (hfootprint rfl).trans (by decide)⟩

/-- One empty buffer, a function that appends a byte to it and unwinds, and an empty buffer in its
place. -/
def appendAndUnwind : List (Surroundings × Op Buffer) :=
  [(⟨.standard, .untracked⟩, .ensure 1),
    (⟨.standard, .untracked⟩, .update 0 fun b => .error (b.append [7])),
    (⟨.standard, .untracked⟩, .set 0 .empty)]

/-- After the function has unwound the buffer has room for eight bytes, and the word says nothing;
the write then subtracts eight from that. And with copies of a fill buffer that has room to spare
the word is nothing where it would have to be 2^64. -/
theorem heapWord_appendAndUnwind :
    let unwound := ((new Buffer.empty 0).run (appendAndUnwind.take 2)).2
    let written := ((new Buffer.empty 0).run appendAndUnwind).2
    let filled := (roomyFill.run [(⟨.standard, .new none⟩, .ensure (2 ^ 28))]).2
    (unwound.heapWord = 0 ∧ (unwound.toList.map Buffer.capacity).sum = 8) ∧
    (written.heapWord = 0 - 8 ∧ (written.toList.map Buffer.capacity).sum = 0) ∧
    filled.heapWord = 0 ∧
      filled.size * (roomyFill.fill.capacity - roomyFill.fill.bytes.length) = 2 ^ 64 := by
  intro unwound written filled
  have hfilled : filled = (roomyFill.withCapacity (2 ^ 28)).extend (2 ^ 28) := by
    simp only [filled, run, apply, ensure_roomyFill]
  refine ⟨by decide, by decide, ?_⟩
  rw [hfilled, size_extend (show (roomyFill.withCapacity (2 ^ 28)).size ≤ 2 ^ 28 by decide)]
  exact ⟨heapWord_roomyFill, rfl⟩

end Earliest.GroupArray
