import Earliest.Memory.Pool
import Earliest.Proofs.Memory.Growth

/-! Reservations of tracked managers. Whatever is reserved, merged and dropped, through a manager
or through handles that share it, its counter is the sum of the reservations that are still held
with it. So a reservation is granted exactly when that sum leaves room for it, and nothing is left
once all are dropped. -/

namespace Earliest

/-- Whether a counter has room for so many bytes more; for none it always has. -/
def Manager.Room (limit : Option Nat) (total bytes : Nat) : Prop :=
  bytes = 0 ∨ total + bytes < 2 ^ 64 ∧ limit.all (total + bytes ≤ ·)

theorem Ledger.fits_iff (l : Ledger) (bytes : Nat) :
    l.fits bytes = true ↔
      l.reserved + bytes < 2 ^ 64 ∧ l.limit.all (l.reserved + bytes ≤ ·) := by
  simp only [fits, Bool.and_eq_true, decide_eq_true_eq]
  rfl

/-- Bytes are granted where there is room for them, and refused where there is not. -/
theorem Manager.Counts.reserve_cases {m : Manager} {limit : Option Nat} {total : Nat}
    (hm : m.Counts limit total) (bytes : Nat) :
    Room limit total bytes ∧ (∃ m', m.reserve bytes = .ok m') ∨
      ¬ Room limit total bytes ∧ m.reserve bytes = .error (.memoryLimit bytes total limit) := by
  rw [hm.eq, Manager.reserve, Ledger.reserve]
  by_cases h0 : bytes = 0
  · exact .inl ⟨.inl h0, _, by rw [if_pos h0]; rfl⟩
  · have hfits := Ledger.fits_iff ⟨total, limit⟩ bytes
    rw [if_neg h0]
    by_cases hf : Ledger.fits ⟨total, limit⟩ bytes = true
    · exact .inl ⟨.inr (hfits.mp hf), _, by rw [if_pos hf]; rfl⟩
    · refine .inr ⟨?_, by rw [if_neg hf]; rfl⟩
      rintro (h | h)
      · exact h0 h
      · exact hf (hfits.mpr h)

/-- The bytes of a reservation that a manager counts: all of them or none. -/
def Reservation.sizeWith (owner : Nat) (r : Reservation) : Nat :=
  if r.owner = owner then r.size else 0

namespace Reservation

variable {r : Reservation} {owner : Nat}

theorem sizeWith_self (r : Reservation) : r.sizeWith r.owner = r.size := if_pos rfl

theorem sizeWith_of_ne (h : owner ≠ r.owner) : r.sizeWith owner = 0 := if_neg h.symm

end Reservation

namespace Pool

variable {p q : Pool} {limits : List (Option Nat)} {managers : List Manager}
  {totals totals' : Nat → Nat} {name other : String} {n owner handle bytes : Nat}
  {r s : Reservation} {limit : Option Nat}

/-! ## Names -/

/-- Every name stands for one reservation, and every reservation and handle for one of `n`
managers. -/
structure Named (n : Nat) (p : Pool) : Prop where
  names : (p.held.map Prod.fst).Nodup
  owners : ∀ entry ∈ p.held, entry.2.owner < n
  handles : ∀ owner ∈ p.handles, owner < n

theorem ne_of_mem_remove {entry : String × Reservation} (h : entry ∈ (p.remove name).held) :
    entry.1 ≠ name := by
  have hne := (List.mem_filter.mp h).2
  rwa [bne_iff_ne] at hne

theorem lookup_remove_self (p : Pool) (name : String) :
    (p.remove name).held.lookup name = none := by
  rw [List.lookup_eq_none_iff]
  intro entry hentry
  simpa using (ne_of_mem_remove hentry).symm

theorem lookup_remove_of_ne (p : Pool) (h : name ≠ other) :
    (p.remove other).held.lookup name = p.held.lookup name := by
  rw [remove]
  induction p.held with
  | nil => rfl
  | cons entry held ih =>
    obtain ⟨key, r⟩ := entry
    by_cases hkey : key = other
    · have hname : (name == key) = false := by rw [hkey]; exact beq_false_of_ne h
      rw [List.filter_cons_of_neg (by simp [hkey]), ih, List.lookup_cons, hname]
    · rw [List.filter_cons_of_pos (by simp [hkey]), List.lookup_cons, List.lookup_cons, ih]

namespace Named

theorem congr (hp : p.Named n) (hheld : q.held = p.held) (hhandles : q.handles = p.handles) :
    q.Named n := by
  obtain ⟨hnames, howners, hhandles'⟩ := hp
  exact ⟨hheld ▸ hnames, hheld ▸ howners, hhandles ▸ hhandles'⟩

theorem remove (hp : p.Named n) (name : String) : (p.remove name).Named n where
  names := hp.names.sublist (List.filter_sublist.map Prod.fst)
  owners entry hentry := hp.owners entry (List.mem_of_mem_filter hentry)
  handles := hp.handles

/-- A name that stands for another reservation now. -/
theorem bind (hp : p.Named n) (name : String) (hr : r.owner < n) :
    { p with held := (name, r) :: (p.remove name).held }.Named n where
  names := by
    rw [List.map_cons, List.nodup_cons]
    refine ⟨?_, (hp.remove name).names⟩
    intro hmem
    obtain ⟨entry, hentry, hname⟩ := List.mem_map.mp hmem
    exact ne_of_mem_remove hentry hname
  owners entry hentry := by
    rcases List.mem_cons.mp hentry with rfl | hentry
    · exact hr
    · exact (hp.remove name).owners entry hentry
  handles := hp.handles

theorem owner_lt (hp : p.Named n) (h : p.handles[handle]? = some owner) : owner < n :=
  hp.handles owner (List.mem_of_getElem? h)

/-- A held reservation, taken out of the others. -/
theorem exists_remove_eq (hp : p.Named n) (h : p.held.lookup name = some r) :
    ∃ before after, p.held = before ++ (name, r) :: after ∧
      (p.remove name).held = before ++ after := by
  obtain ⟨before, after, hheld, -⟩ := List.lookup_eq_some_iff.mp h
  have hnames := hp.names
  rw [hheld, List.map_append, List.map_cons, List.nodup_middle, List.nodup_cons,
    ← List.map_append] at hnames
  have hrest : ∀ entry ∈ before ++ after, (entry.1 != name) = true := by
    intro entry hentry
    rw [bne_iff_ne]
    intro hname
    exact hnames.1 (List.mem_map.mpr ⟨entry, hentry, hname⟩)
  refine ⟨before, after, hheld, ?_⟩
  rw [← List.filter_eq_self.mpr hrest, Pool.remove, hheld]
  simp

end Named

/-! ## What is held -/

/-- Bytes of the reservations that are held with a manager. -/
def live (p : Pool) (owner : Nat) : Nat := (p.held.map fun entry => entry.2.sizeWith owner).sum

theorem live_congr (h : p.held = q.held) (owner : Nat) : p.live owner = q.live owner := by
  rw [live, h, live]

theorem Named.live_eq (hp : p.Named n) (h : p.held.lookup name = some r) (owner : Nat) :
    p.live owner = (p.remove name).live owner + r.sizeWith owner := by
  obtain ⟨before, after, hheld, hremove⟩ := hp.exists_remove_eq h
  simp only [live, hheld, hremove, List.map_append, List.map_cons, List.sum_append, List.sum_cons]
  omega

/-- Each manager counts its total, within its limit and the counter's range. -/
structure Counted (limits : List (Option Nat)) (managers : List Manager) (totals : Nat → Nat) :
    Prop where
  length : managers.length = limits.length
  counts : ∀ (owner : Nat) (m : Manager) (limit : Option Nat), managers[owner]? = some m →
    limits[owner]? = some limit → m.Counts limit (totals owner)

namespace Counted

theorem congr (h : Counted limits managers totals) (heq : ∀ owner, totals owner = totals' owner) :
    Counted limits managers totals' :=
  funext heq ▸ h

/-- What a manager grants is counted by that manager alone. -/
theorem reserve (h : Counted limits managers totals) {m m' : Manager}
    (hm : managers[owner]? = some m) (hgrant : m.reserve bytes = .ok m') :
    Counted limits (managers.set owner m')
      fun o => totals o + Reservation.sizeWith o ⟨owner, bytes⟩ := by
  refine ⟨by rw [List.length_set, h.length], ?_⟩
  intro o mo limit hmo hlimit
  by_cases ho : o = owner
  · subst ho
    have hlt := (List.getElem?_eq_some_iff.mp hm).1
    rw [List.getElem?_set_self hlt, Option.some.injEq] at hmo
    subst hmo
    have hsize : Reservation.sizeWith o ⟨o, bytes⟩ = bytes := if_pos rfl
    rw [hsize]
    exact (h.counts o m limit hm hlimit).reserve hgrant
  · rw [List.getElem?_set_ne (Ne.symm ho)] at hmo
    rw [Reservation.sizeWith_of_ne ho]
    exact h.counts o mo limit hmo hlimit

/-- What is given back was counted by its owner alone. -/
theorem giveBack (p : Pool) (r : Reservation)
    (h : Counted limits p.managers fun o => totals o + r.sizeWith o) :
    Counted limits (p.giveBack r).managers totals := by
  refine ⟨by rw [Pool.giveBack, List.length_modify, h.length], ?_⟩
  intro o mo limit hmo hlimit
  simp only [Pool.giveBack] at hmo
  by_cases ho : o = r.owner
  · subst ho
    rw [List.getElem?_modify_eq] at hmo
    obtain ⟨m, hm, rfl⟩ := Option.map_eq_some_iff.mp hmo
    have hcounts := h.counts _ m limit hm hlimit
    rw [r.sizeWith_self] at hcounts
    exact hcounts.release
  · rw [List.getElem?_modify_ne _ _ (Ne.symm ho)] at hmo
    have hcounts := h.counts o mo limit hmo hlimit
    rwa [Reservation.sizeWith_of_ne ho] at hcounts

end Counted

/-- Every counter is the sum of the reservations that are held with it. -/
structure Balanced (limits : List (Option Nat)) (p : Pool) : Prop where
  named : p.Named limits.length
  counted : Counted limits p.managers p.live

theorem balanced_new (limits : List (Option Nat)) :
    (new (limits.map Manager.new)).Balanced limits where
  named := by
    refine ⟨List.nodup_nil, nofun, ?_⟩
    intro owner howner
    have hlt := List.mem_range.mp howner
    rwa [List.length_map] at hlt
  counted := by
    refine ⟨List.length_map _, ?_⟩
    intro owner m limit hm hlimit
    rw [new, List.getElem?_map, hlimit, Option.map_some, Option.some.injEq] at hm
    subst hm
    exact .new limit

/-- The manager behind a number, with what it counts. -/
theorem Balanced.exists_manager (hp : p.Balanced limits) (hlimit : limits[owner]? = some limit) :
    ∃ m, p.managers[owner]? = some m ∧ m.Counts limit (p.live owner) := by
  obtain ⟨hlength, hcounts⟩ := hp.counted
  have hlt : owner < p.managers.length := hlength ▸ (List.getElem?_eq_some_iff.mp hlimit).1
  have hm := List.getElem?_eq_getElem hlt
  exact ⟨_, hm, hcounts owner _ limit hm hlimit⟩

/-- No sum of reservations that are held with one manager passes the counter's range. -/
theorem Balanced.live_lt (hp : p.Balanced limits) (h : owner < limits.length) :
    p.live owner < sizeRange := by
  obtain ⟨m, -, hcounts⟩ := hp.exists_manager (List.getElem?_eq_getElem h)
  exact hcounts.range

/-! ## Dropping and holding -/

theorem held_drop (p : Pool) (name : String) : (p.drop name).held = (p.remove name).held := by
  unfold drop
  split
  · rename_i h
    symm
    apply List.filter_eq_self.mpr
    intro entry hentry
    have hne := List.lookup_eq_none_iff.mp h entry hentry
    rw [bne_iff_ne]
    rintro rfl
    simp at hne
  · rfl

theorem handles_drop (p : Pool) (name : String) : (p.drop name).handles = p.handles := by
  unfold drop
  split <;> rfl

theorem Named.drop (hp : p.Named n) (name : String) : (p.drop name).Named n :=
  (hp.remove name).congr (held_drop p name) (handles_drop p name)

/-- A drop gives back what the name held, whatever else is counted. -/
theorem Counted.drop (extra : Nat → Nat) (hp : p.Named n) (name : String)
    (h : Counted limits p.managers fun o => p.live o + extra o) :
    Counted limits (p.drop name).managers fun o => (p.drop name).live o + extra o := by
  have hlive (o : Nat) : (p.drop name).live o = (p.remove name).live o :=
    live_congr (held_drop p name) o
  rcases hlookup : p.held.lookup name with _ | r
  · have hdrop : p.drop name = p := by rw [Pool.drop, hlookup]
    rwa [hdrop]
  · have hdrop : p.drop name = (p.remove name).giveBack r := by rw [Pool.drop, hlookup]
    simp only [hlive]
    rw [hdrop]
    apply Counted.giveBack (p.remove name) r
    apply h.congr
    intro o
    rw [hp.live_eq hlookup]
    omega

theorem Balanced.drop (hp : p.Balanced limits) (name : String) : (p.drop name).Balanced limits where
  named := hp.named.drop name
  counted := Counted.drop (fun _ => 0) hp.named name hp.counted

/-- A reservation that is counted already is held in place of what the name stood for. -/
theorem Named.balanced_hold (hp : p.Named limits.length) (name : String)
    (hr : r.owner < limits.length)
    (h : Counted limits p.managers fun o => p.live o + r.sizeWith o) :
    (p.hold name r).Balanced limits where
  named := (hp.bind name hr).congr (congrArg ((name, r) :: ·) (held_drop p name))
    (handles_drop p name)
  counted := by
    apply (Counted.drop r.sizeWith hp name h).congr
    intro o
    exact Nat.add_comm _ _

/-! ## One operation -/

/-- A reservation is granted where its manager has room, and is then held under its name. Where
there is no room nothing changes. -/
theorem Balanced.reserve_cases (hp : p.Balanced limits) (howner : p.handles[handle]? = some owner)
    (hlimit : limits[owner]? = some limit) (bytes : Nat) (name : String) :
    (Manager.Room limit (p.live owner) bytes ∧ ∃ m m', p.managers[owner]? = some m ∧
      m.reserve bytes = .ok m' ∧ p.reserve handle bytes name = (.ok (some bytes),
        { p with managers := p.managers.set owner m' }.hold name ⟨owner, bytes⟩)) ∨
      (¬ Manager.Room limit (p.live owner) bytes ∧
        p.reserve handle bytes name = (.error (.memoryLimit bytes (p.live owner) limit), p)) := by
  obtain ⟨m, hm, hcounts⟩ := hp.exists_manager hlimit
  rcases hcounts.reserve_cases bytes with ⟨hroom, m', hgrant⟩ | ⟨hroom, hrefused⟩
  · exact .inl ⟨hroom, m, m', hm, hgrant, by simp only [reserve, howner, hm, hgrant]⟩
  · exact .inr ⟨hroom, by simp only [reserve, howner, hm, hrefused]⟩

theorem Balanced.reserve (hp : p.Balanced limits) (handle bytes : Nat) (name : String) :
    (p.reserve handle bytes name).2.Balanced limits := by
  rcases howner : p.handles[handle]? with _ | owner
  · simpa only [Pool.reserve, howner] using hp
  · have hlt := hp.named.owner_lt howner
    have hlimit := List.getElem?_eq_getElem hlt
    rcases hp.reserve_cases howner hlimit bytes name with ⟨-, m, m', hm, hgrant, h⟩ | ⟨-, h⟩
    · rw [h]
      have hnamed : { p with managers := p.managers.set owner m' }.Named limits.length :=
        hp.named.congr rfl rfl
      exact hnamed.balanced_hold name hlt (hp.counted.reserve hm hgrant)
    · rwa [h]

theorem Balanced.empty (hp : p.Balanced limits) (handle : Nat) (name : String) :
    (p.empty handle name).2.Balanced limits := by
  unfold Pool.empty
  split
  · exact hp
  · rename_i owner howner
    apply hp.named.balanced_hold name (hp.named.owner_lt howner)
    apply hp.counted.congr
    intro o
    simp [Reservation.sizeWith]

theorem Balanced.share (hp : p.Balanced limits) (handle : Nat) :
    (p.share handle).2.Balanced limits := by
  unfold Pool.share
  split
  · exact hp
  · rename_i owner howner
    refine ⟨⟨hp.named.names, hp.named.owners, ?_⟩, hp.counted⟩
    intro o ho
    rcases List.mem_append.mp ho with ho | ho
    · exact hp.named.handles o ho
    · cases List.mem_singleton.mp ho
      exact hp.named.owner_lt howner

/-- The pool after a merge: no counter has moved. -/
def merged (p : Pool) (name other : String) (r : Reservation) : Pool :=
  { p with held := (name, r) :: ((p.remove other).remove name).held }

/-- Two reservations of one manager are merged into one of exactly their sum. -/
theorem Balanced.merge_eq (hp : p.Balanced limits) (hne : name ≠ other)
    (hr : p.held.lookup name = some r) (hs : p.held.lookup other = some s)
    (howner : r.owner = s.owner) :
    r.size + s.size < sizeRange ∧
      p.merge name other =
        (.ok (some (r.size + s.size)), p.merged name other ⟨r.owner, r.size + s.size⟩) ∧
      (p.merged name other ⟨r.owner, r.size + s.size⟩).Balanced limits := by
  have hr' := (lookup_remove_of_ne p hne).trans hr
  have hlt : r.owner < limits.length := by
    obtain ⟨before, after, hheld, -⟩ := hp.named.exists_remove_eq hr
    exact hp.named.owners (name, r) (by simp [hheld])
  -- both are taken out of the sum and their sizes put in again, under one owner
  have hlive (o : Nat) : p.live o = (p.merged name other ⟨r.owner, r.size + s.size⟩).live o := by
    show _ = Reservation.sizeWith o _ + ((p.remove other).remove name).live o
    rw [hp.named.live_eq hs, (hp.named.remove other).live_eq hr']
    simp only [Reservation.sizeWith, ← howner]
    split <;> omega
  have hsize : r.size + s.size < sizeRange := by
    have hrange := hp.live_lt hlt
    rw [hp.named.live_eq hs, (hp.named.remove other).live_eq hr', r.sizeWith_self, howner,
      s.sizeWith_self] at hrange
    omega
  have hnamed := (hp.named.remove other).bind (r := ⟨r.owner, r.size + s.size⟩) name hlt
  refine ⟨hsize, ?_, hnamed.congr rfl rfl, hp.counted.congr hlive⟩
  simp only [merge, hs, hr', Nat.mod_eq_of_lt hsize]
  rfl

/-! ## Any operations -/

/-- Bytes are given back with their reservation only, and only reservations with one manager are
merged. -/
def Admits (p : Pool) : Op → Prop
  | .release _ => False
  | .merge name other => ∀ r s, p.held.lookup name = some r → p.held.lookup other = some s →
    r.owner = s.owner
  | _ => True

theorem Balanced.merge (hp : p.Balanced limits) (h : p.Admits (.merge name other)) :
    (p.merge name other).2.Balanced limits := by
  rcases hs : p.held.lookup other with _ | s
  · simpa only [Pool.merge, hs] using hp
  · rcases hr : (p.remove other).held.lookup name with _ | r
    · simpa only [Pool.merge, hs, hr] using hp
    · have hne : name ≠ other := by
        rintro rfl
        rw [lookup_remove_self] at hr
        cases hr
      have hr' := (lookup_remove_of_ne p hne).symm.trans hr
      obtain ⟨-, hmerge, hmerged⟩ := hp.merge_eq hne hr' hs (h r s hr' hs)
      rwa [hmerge]

theorem Balanced.apply (hp : p.Balanced limits) (op : Op) (h : p.Admits op) :
    (p.apply op).2.Balanced limits := by
  cases op with
  | reserve handle bytes name => exact hp.reserve handle bytes name
  | empty handle name => exact hp.empty handle name
  | merge name other => exact hp.merge h
  | drop name => exact hp.drop name
  | release name => exact h.elim
  | share handle => exact hp.share handle

/-- The pools that operations lead to, from one handle for each of the managers. -/
inductive Reached (limits : List (Option Nat)) : Pool → Prop
  | new : Reached limits (new (limits.map Manager.new))
  | apply {p : Pool} (hp : Reached limits p) (op : Op) (h : p.Admits op) :
    Reached limits (p.apply op).2

theorem Reached.balanced (hp : Reached limits p) : p.Balanced limits := by
  induction hp with
  | new => exact balanced_new limits
  | apply _ op h ih => exact ih.apply op h

/-! ## Dropping everything -/

theorem mem_held_dropEach (entries : List (String × Reservation)) (p : Pool)
    {entry : String × Reservation} (h : entry ∈ (entries.foldl (fun p h => p.drop h.1) p).held) :
    entry ∈ p.held ∧ ∀ dropped ∈ entries, entry.1 ≠ dropped.1 := by
  induction entries generalizing p with
  | nil => exact ⟨h, nofun⟩
  | cons dropped entries ih =>
    obtain ⟨hmem, hrest⟩ := ih (p.drop dropped.1) h
    rw [held_drop] at hmem
    refine ⟨List.mem_of_mem_filter hmem, ?_⟩
    intro d hd
    rcases List.mem_cons.mp hd with rfl | hd
    · exact ne_of_mem_remove hmem
    · exact hrest d hd

theorem held_dropAll (p : Pool) : p.dropAll.held = [] := by
  rw [List.eq_nil_iff_forall_not_mem]
  intro entry hentry
  obtain ⟨hmem, hdropped⟩ := mem_held_dropEach p.held p hentry
  exact hdropped entry hmem rfl

theorem Balanced.dropAll (hp : p.Balanced limits) : p.dropAll.Balanced limits := by
  suffices heach : ∀ (entries : List (String × Reservation)) (p : Pool), p.Balanced limits →
      (entries.foldl (fun p h => p.drop h.1) p).Balanced limits from heach p.held p hp
  intro entries
  induction entries with
  | nil => exact fun _ hp => hp
  | cons dropped entries ih => exact fun p hp => ih (p.drop dropped.1) (hp.drop dropped.1)

/-- Where nothing is held no counter stands above zero. -/
theorem Balanced.reserved_eq_zero (hp : p.Balanced limits) (h : p.held = []) {m : Manager}
    (hm : m ∈ p.managers) : m.reserved = 0 := by
  obtain ⟨owner, howner⟩ := List.getElem?_of_mem hm
  have hlt : owner < limits.length :=
    hp.counted.length ▸ (List.getElem?_eq_some_iff.mp howner).1
  have hcounts := hp.counted.counts owner m _ howner (List.getElem?_eq_getElem hlt)
  rw [hcounts.eq]
  show p.live owner = 0
  rw [live, h]
  rfl

/-- After any operations, every counter is exactly the sum of the reservations held with its
manager, within the limit and the counter's range. So bytes are granted exactly where that sum
leaves room for them, and a refusal changes nothing; a merge holds the sum of both sizes and moves
no counter; and once all reservations are dropped every counter is zero. -/
theorem Reached.conserved (hp : Reached limits p) :
    (∀ owner limit, limits[owner]? = some limit → ∃ m, p.managers[owner]? = some m ∧
      m.reserved = p.live owner ∧ m.limit? = limit ∧ p.live owner < 2 ^ 64 ∧
      limit.all (p.live owner ≤ ·)) ∧
    (∀ handle owner bytes name, p.handles[handle]? = some owner →
      ∃ limit, limits[owner]? = some limit ∧
        (Manager.Room limit (p.live owner) bytes ∧
            (p.apply (.reserve handle bytes name)).1 = .ok (some bytes) ∧
            (p.apply (.reserve handle bytes name)).2.held.lookup name = some ⟨owner, bytes⟩ ∨
          ¬ Manager.Room limit (p.live owner) bytes ∧
            ∃ f : Fault, f.kind = .resourceExhausted ∧
              p.apply (.reserve handle bytes name) = (.error f, p))) ∧
    (∀ name other r s, name ≠ other → p.held.lookup name = some r →
      p.held.lookup other = some s → r.owner = s.owner →
        (p.apply (.merge name other)).1 = .ok (some (r.size + s.size)) ∧
          r.size + s.size < 2 ^ 64 ∧ (p.apply (.merge name other)).2.managers = p.managers) ∧
    p.dropAll.held = [] ∧ (∀ m ∈ p.dropAll.managers, m.reserved = 0) ∧
    (p.held = [] → ∀ m ∈ p.managers, m.reserved = 0) := by
  have hb := hp.balanced
  refine ⟨?_, ?_, ?_, held_dropAll p, ?_, ?_⟩
  · intro owner limit hlimit
    obtain ⟨m, hm, hcounts⟩ := hb.exists_manager hlimit
    exact ⟨m, hm, by rw [hcounts.eq]; rfl, by rw [hcounts.eq]; rfl, hcounts.range, hcounts.within⟩
  · intro handle owner bytes name howner
    have hlimit := List.getElem?_eq_getElem (hb.named.owner_lt howner)
    refine ⟨_, hlimit, ?_⟩
    rw [Pool.apply]
    rcases hb.reserve_cases howner hlimit bytes name with ⟨hroom, m, m', -, -, h⟩ | ⟨hroom, h⟩
    · exact .inl ⟨hroom, by rw [h], by rw [h]; exact List.lookup_cons_self⟩
    · exact .inr ⟨hroom, _, rfl, h⟩
  · intro name other r s hne hr hs howner
    obtain ⟨hsize, hmerge, -⟩ := hb.merge_eq hne hr hs howner
    rw [Pool.apply, hmerge]
    exact ⟨rfl, hsize, rfl⟩
  · intro m hm
    exact hb.dropAll.reserved_eq_zero (held_dropAll p) hm
  · intro h m hm
    exact hb.reserved_eq_zero h hm

/-- Two handles of a manager with a limit, and a manager without one. -/
def pooled : Pool :=
  [.reserve 0 30 "a", .share 0, .reserve 2 2 "b", .merge "a" "b",
    .reserve 1 0xFFFFFFFFFFFFFFFF "c"].foldl (fun p op => (p.apply op).2)
      (new [.new (some 32), .new none])

theorem reached_pooled : Reached [some 32, none] pooled := by
  have ha : Reached [some 32, none] _ := Reached.new.apply (.reserve 0 30 "a") trivial
  have hb := (ha.apply (.share 0) trivial).apply (.reserve 2 2 "b") trivial
  refine (hb.apply (.merge "a" "b") ?_).apply (.reserve 1 0xFFFFFFFFFFFFFFFF "c") trivial
  intro r s hr hs
  cases hr
  cases hs
  rfl

theorem conserved_pooled :
    (pooled.held.map fun entry => entry.2.size) = [0xFFFFFFFFFFFFFFFF, 32] ∧
      pooled.managers.map Manager.reserved = [32, 0xFFFFFFFFFFFFFFFF] ∧
      (pooled.apply (.reserve 2 1 "d")).2 = pooled ∧
      (pooled.apply (.reserve 1 1 "e")).2 = pooled ∧
      (pooled.apply (.reserve 1 0 "e")).1 = .ok (some 0) ∧
      ∀ m ∈ pooled.dropAll.managers, m.reserved = 0 := by
  obtain ⟨-, hreserve, -, -, hdropped, -⟩ := reached_pooled.conserved
  have hrefused (handle owner : Nat) (name : String) (h : pooled.handles[handle]? = some owner)
      (hroom : ∀ limit, [some 32, none][owner]? = some limit →
        ¬ Manager.Room limit (pooled.live owner) 1) :
      (pooled.apply (.reserve handle 1 name)).2 = pooled := by
    obtain ⟨limit, hlimit, ⟨hroom', -⟩ | ⟨-, f, -, heq⟩⟩ := hreserve handle owner 1 name h
    · exact absurd hroom' (hroom limit hlimit)
    · rw [heq]
  refine ⟨by decide +kernel, by decide +kernel, ?_, ?_, ?_, hdropped⟩
  · apply hrefused 2 0 "d" (by decide +kernel)
    intro limit hlimit
    cases hlimit
    have hlive : pooled.live 0 = 32 := by decide +kernel
    simp [Manager.Room, hlive]
  · apply hrefused 1 1 "e" (by decide +kernel)
    intro limit hlimit
    cases hlimit
    have hlive : pooled.live 1 = 0xFFFFFFFFFFFFFFFF := by decide +kernel
    simp [Manager.Room, hlive]
  · obtain ⟨limit, hlimit, ⟨-, hok, -⟩ | ⟨hroom, -⟩⟩ := hreserve 1 1 0 "e" (by decide +kernel)
    · exact hok
    · exact absurd (.inl rfl) hroom

end Pool
end Earliest
