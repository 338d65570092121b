import Earliest.Config.Document
import Earliest.Proofs.Memory.Reservations

/-! Calls on a configuration. A number can enter as a scalar of four widths or from a document, and
leaves as a scalar of one width, which a large limit does not fit. Every way in keeps the bound on
the minimum capacity, a call that fails changes nothing, and one that succeeds changes the setting
that it names and no other. What documents look like, and which of them can be read, does not
matter: a reader may give any two numbers of 64 bits. -/

namespace Earliest

/-! ## Scalars as numbers -/

namespace Scalar

/-- The scalar is this number, in one of the four integer types. -/
inductive Counts : Scalar → Nat → Prop
  | int8 {v : Int8} {n : Nat} (h : v.toInt = n) : Counts (.int8 v) n
  | int16 {v : Int16} {n : Nat} (h : v.toInt = n) : Counts (.int16 v) n
  | int32 {v : Int32} {n : Nat} (h : v.toInt = n) : Counts (.int32 v) n
  | int64 {v : Int64} {n : Nat} (h : v.toInt = n) : Counts (.int64 v) n

variable {v : Scalar} {n : Nat}

theorem toInt?_eq_some_iff : v.toInt? = some (n : Int) ↔ v.Counts n := by
  constructor
  · intro h
    cases v with
    | int8 v => exact .int8 (Option.some.inj h)
    | int16 v => exact .int16 (Option.some.inj h)
    | int32 v => exact .int32 (Option.some.inj h)
    | int64 v => exact .int64 (Option.some.inj h)
    | _ => cases h
  · rintro (h | h | h | h) <;> exact congrArg some h

theorem toNat_eq_ok_iff : v.toNat = .ok n ↔ v.Counts n := by
  rw [← toInt?_eq_some_iff, toNat, toInt]
  rcases v.toInt? with _ | ⟨m | m⟩
  · exact iff_of_false nofun nofun
  · simp
  · exact iff_of_false nofun (by simp)

/-- A scalar is at most one number. -/
theorem Counts.unique {n' : Nat} (h : v.Counts n) (h' : v.Counts n') : n = n' := by
  rw [← toNat_eq_ok_iff] at h h'
  exact Except.ok.inj (h.symm.trans h')

/-- None of the four types goes beyond 64 bits. -/
theorem Counts.lt (h : v.Counts n) : n < 2 ^ 63 := by
  rcases h with @⟨v, n, h⟩ | @⟨v, n, h⟩ | @⟨v, n, h⟩ | @⟨v, n, h⟩
  · have := v.toInt_lt
    omega
  · have := v.toInt_lt
    omega
  · have := v.toInt_lt
    omega
  · have := v.toInt_lt
    omega

theorem counts_int64 (h : n < 2 ^ 63) : (Scalar.int64 (Int64.ofNat n)).Counts n :=
  .int64 (Int64.toInt_ofNat_of_lt h)

end Scalar

/-! ## One setting -/

namespace Setting

variable {s s' : Setting} {c c' : Config} {v : Scalar} {n : Nat} {name : String}

/-- The configuration with another number for the setting. -/
def write (s : Setting) (n : Nat) (c : Config) : Config :=
  match s with
  | groupArrayMinCapacity => { c with minCapacity := n }
  | memoryLimit => { c with memoryLimit := n }

/-- The numbers that the setting can be written as. -/
def Admits : Setting → Nat → Prop
  | groupArrayMinCapacity, n => n ≤ 2 ^ 24
  | memoryLimit, _ => True

@[simp] theorem value_write_self (s : Setting) (n : Nat) (c : Config) :
    s.value (s.write n c) = n := by
  cases s <;> rfl

theorem value_write_of_ne (h : s ≠ s') (n : Nat) (c : Config) :
    s'.value (s.write n c) = s'.value c := by
  cases s <;> cases s' <;> first | rfl | exact absurd rfl h

@[simp] theorem write_value (s : Setting) (c : Config) : s.write (s.value c) c = c := by
  cases s <;> rfl

/-- The two settings are all that there is to a configuration. -/
theorem write_write_default (h : s ≠ s') (c : Config) :
    s'.write (s'.value .default) (s.write (s.value .default) c) = .default := by
  cases s <;> cases s' <;> first | rfl | exact absurd rfl h

theorem admits_default (s : Setting) :
    s.Admits (s.value .default) ∧ s.value .default < 2 ^ 63 := by
  cases s with
  | groupArrayMinCapacity => exact ⟨show 1024 ≤ 2 ^ 24 by decide, show 1024 < 2 ^ 63 by decide⟩
  | memoryLimit => exact ⟨trivial, show 0 < 2 ^ 63 by decide⟩

theorem checkMinCapacity_eq_ok_iff : Config.checkMinCapacity n = .ok () ↔ n ≤ 2 ^ 24 := by
  unfold Config.checkMinCapacity Config.maxMinCapacity
  split
  · exact iff_of_false nofun (by omega)
  · exact iff_of_true rfl (by omega)

/-- A write puts a number in place that the setting can be. What is no such number leaves the
configuration as it was. -/
theorem set_cases (s : Setting) (v : Scalar) (c : Config) :
    (∃ n, v.Counts n ∧ s.Admits n ∧ s.set v c = (.ok (), s.write n c)) ∨
    ((∀ n, v.Counts n → ¬ s.Admits n) ∧ ∃ f, s.set v c = (.error f, c)) := by
  unfold set
  rcases hv : v.toNat with f | n
  · refine .inr ⟨fun n hn => ?_, f, rfl⟩
    cases hv.symm.trans (Scalar.toNat_eq_ok_iff.mpr hn)
  · have hn := Scalar.toNat_eq_ok_iff.mp hv
    cases s with
    | memoryLimit => exact .inl ⟨n, hn, trivial, rfl⟩
    | groupArrayMinCapacity =>
      dsimp only
      rcases hcheck : Config.checkMinCapacity n with f | _
      · refine .inr ⟨fun n' hn' hle => ?_, f, rfl⟩
        cases hn.unique hn'
        cases hcheck.symm.trans (checkMinCapacity_eq_ok_iff.mpr hle)
      · exact .inl ⟨n, hn, checkMinCapacity_eq_ok_iff.mp hcheck, rfl⟩

theorem set_of_counts (hn : v.Counts n) (hadmits : s.Admits n) (c : Config) :
    s.set v c = (.ok (), s.write n c) := by
  obtain ⟨n', hn', -, hset⟩ | ⟨hnone, -⟩ := s.set_cases v c
  · cases hn.unique hn'
    exact hset
  · exact absurd hadmits (hnone n hn)

/-- A setting is read as its number, or as the largest one that a scalar can be. -/
theorem counts_get (s : Setting) (c : Config) : (s.get c).Counts (min (s.value c) (2 ^ 63 - 1)) :=
  Scalar.counts_int64 (by omega)

theorem ofName?_eq_some_iff : ofName? name = some s ↔ s.name = name := by
  unfold ofName? all
  by_cases hfirst : groupArrayMinCapacity.name = name
  · rw [List.find?_cons_of_pos (by simpa using hfirst)]
    subst hfirst
    cases s <;> simp [Setting.name]
  · rw [List.find?_cons_of_neg (by simpa using hfirst)]
    by_cases hsecond : memoryLimit.name = name
    · rw [List.find?_cons_of_pos (by simpa using hsecond)]
      subst hsecond
      cases s <;> simp [Setting.name]
    · rw [List.find?_cons_of_neg (by simpa using hsecond), List.find?_nil]
      refine iff_of_false nofun ?_
      cases s
      · exact hfirst
      · exact hsecond

end Setting

namespace Config

variable {c c' start : Config} {s : Setting} {v : Scalar} {name : String} {op : Op}

/-! ## Calls by name -/

theorem find_eq_ok_iff : find name = .ok s ↔ s.name = name := by
  rw [← Setting.ofName?_eq_some_iff, find]
  rcases Setting.ofName? name with _ | s' <;> simp

theorem find_name (s : Setting) : find s.name = .ok s := find_eq_ok_iff.mpr rfl

/-- A name is that of a setting, or it is refused. -/
theorem find_cases (name : String) : (∃ s : Setting, s.name = name) ∨
    ((∀ s : Setting, s.name ≠ name) ∧ ∃ f, find name = .error f) := by
  rcases hfind : find name with f | s
  · refine .inr ⟨fun s hs => ?_, f, rfl⟩
    cases hfind.symm.trans (find_eq_ok_iff.mpr hs)
  · exact .inl ⟨s, find_eq_ok_iff.mp hfind⟩

theorem set_name (s : Setting) (v : Scalar) (c : Config) : c.set s.name v = s.set v c := by
  rw [set, find_name]

theorem get_name (s : Setting) (c : Config) : c.get s.name = .ok (s.get c) := by
  rw [get, find_name]
  rfl

/-- What is read can be written back, cut down to what a scalar can be. -/
theorem set_get (s : Setting) (hc : s.Admits (s.value c)) :
    c.set s.name (s.get c) = (.ok (), s.write (min (s.value c) (2 ^ 63 - 1)) c) := by
  rw [set_name]
  refine Setting.set_of_counts (s.counts_get c) ?_ c
  cases s with
  | groupArrayMinCapacity => exact (Nat.min_le_left _ _).trans hc
  | memoryLimit => trivial

/-- A write is taken for a known name and a number that the setting can be. -/
theorem set_eq_ok_iff : (c.set name v).1 = .ok () ↔
    ∃ s n, Setting.name s = name ∧ v.Counts n ∧ s.Admits n := by
  obtain ⟨s, rfl⟩ | ⟨hnone, f, hfind⟩ := find_cases name
  · rw [set_name]
    obtain ⟨n, hn, hadmits, hset⟩ | ⟨hnot, f, hset⟩ := s.set_cases v c
    · rw [hset]
      exact iff_of_true rfl ⟨s, n, rfl, hn, hadmits⟩
    · rw [hset]
      refine iff_of_false nofun ?_
      rintro ⟨s', n, hname, hn, hadmits⟩
      cases (find_name s).symm.trans (find_eq_ok_iff.mpr hname)
      exact hnot n hn hadmits
  · rw [set, hfind]
    refine iff_of_false nofun ?_
    rintro ⟨s, n, hname, -⟩
    exact hnone s hname

/-- The default goes through the scalar as it is. -/
theorem reset_name (s : Setting) (c : Config) :
    c.reset s.name = (.ok (), s.write (s.value default) c) := by
  obtain ⟨hadmits, hlt⟩ := s.admits_default
  have hcounts := s.counts_get default
  rw [Nat.min_eq_left (Nat.le_sub_one_of_lt hlt)] at hcounts
  rw [reset, find_name]
  exact Setting.set_of_counts hcounts hadmits c

/-! ## Runs -/

/-- The configuration after the calls. -/
def run (c : Config) (ops : List Op) : Config := ops.foldl (fun c op => (c.apply op).2) c

/-- The configurations that there are before any call: the default, and what any reader makes of
any text. -/
def Loaded (c : Config) : Prop := c = default ∨ ∃ read text, ofText read text = .ok c

namespace Op

/-- Whether the call is about the setting. -/
def Names : Op → Setting → Prop
  | .set name _, s => s.name = name
  | .reset name, s => s.name = name
  | .resetAll, _ => True

end Op

/-- The two things that a successful call can do. -/
inductive Changes (c : Config) : Op → Config → Prop
  | written {op : Op} {s : Setting} {n : Nat} (hop : op.Names s) (hadmits : s.Admits n)
      (hlt : n < 2 ^ 63) : Changes c op (s.write n c)
  | cleared : Changes c .resetAll default

/-- A call that succeeds changes the configuration, and one that fails leaves it. -/
theorem apply_cases (c : Config) (op : Op) :
    (∃ c', Changes c op c' ∧ c.apply op = (.ok (), c')) ∨ ∃ f, c.apply op = (.error f, c) := by
  cases op with
  | set name v =>
    obtain ⟨s, rfl⟩ | ⟨-, f, hfind⟩ := find_cases name
    · rw [apply, set_name]
      obtain ⟨n, hn, hadmits, hset⟩ | ⟨-, f, hset⟩ := s.set_cases v c
      · exact .inl ⟨_, .written rfl hadmits hn.lt, hset⟩
      · exact .inr ⟨f, hset⟩
    · exact .inr ⟨f, by rw [apply, set, hfind]⟩
  | reset name =>
    obtain ⟨s, rfl⟩ | ⟨-, f, hfind⟩ := find_cases name
    · exact .inl ⟨_, .written rfl s.admits_default.1 s.admits_default.2, reset_name s c⟩
    · exact .inr ⟨f, by rw [apply, reset, hfind]⟩
  | resetAll => exact .inl ⟨_, .cleared, rfl⟩

/-- A limit that no scalar can be comes from the start. -/
structure Kept (start c : Config) : Prop where
  minCapacity : c.minCapacity ≤ 2 ^ 24
  memoryLimit : c.memoryLimit < 2 ^ 63 ∨ c.memoryLimit = start.memoryLimit

theorem Changes.kept (h : Kept start c) (hchange : Changes c op c') : Kept start c' := by
  cases hchange with
  | @written _ s n hop hadmits hlt =>
    cases s with
    | groupArrayMinCapacity => exact ⟨hadmits, h.memoryLimit⟩
    | memoryLimit => exact ⟨h.minCapacity, .inl hlt⟩
  | cleared => exact ⟨by decide, .inl (by decide)⟩

theorem Kept.apply (h : Kept start c) (op : Op) : Kept start (c.apply op).2 := by
  obtain ⟨c', hchange, happly⟩ | ⟨f, happly⟩ := apply_cases c op
  · rw [happly]
    exact hchange.kept h
  · rw [happly]
    exact h

theorem Kept.run (h : Kept start c) (ops : List Op) : Kept start (c.run ops) := by
  induction ops generalizing c with
  | nil => exact h
  | cons op ops ih => exact ih (h.apply op)

/-! ## Documents -/

/-- The minimum capacity of a document is checked, and its numbers have 64 bits. -/
theorem ofText_eq_ok {read : String → Option Document} {text : String}
    (h : ofText read text = .ok c) : c.minCapacity ≤ 2 ^ 24 ∧ c.memoryLimit < 2 ^ 64 := by
  unfold ofText at h
  rcases hread : read text with _ | d
  · rw [hread] at h
    cases h
  · rw [hread] at h
    dsimp only at h
    rcases hcheck : checkMinCapacity d.minCapacity.toNat with f | _
    · rw [hcheck] at h
      cases h
    · rw [hcheck] at h
      cases h
      exact ⟨Setting.checkMinCapacity_eq_ok_iff.mp hcheck, d.memoryLimit.toNat_lt⟩

theorem Loaded.kept (h : start.Loaded) : Kept start start ∧ start.memoryLimit < 2 ^ 64 := by
  obtain rfl | ⟨read, text, htext⟩ := h
  · exact ⟨⟨by decide, .inl (by decide)⟩, by decide⟩
  · obtain ⟨hcapacity, hlimit⟩ := ofText_eq_ok htext
    exact ⟨⟨hcapacity, .inr rfl⟩, hlimit⟩

/-! ## Configurations after calls -/

/-- What holds of a configuration that calls led to from `start`. -/
structure Settled (start c : Config) : Prop where
  bound : c.minCapacity ≤ 2 ^ 24
  refused : ∀ op f, (c.apply op).1 = .error f → (c.apply op).2 = c
  spared : ∀ (op : Op) (s : Setting), ¬ op.Names s → s.value (c.apply op).2 = s.value c
  accepts : ∀ name v, (c.apply (.set name v)).1 = .ok () ↔
    ∃ s n, Setting.name s = name ∧ v.Counts n ∧ s.Admits n
  shows : ∀ (s : Setting) (v : Scalar) (n : Nat), v.Counts n → s.Admits n →
    ∃ w : Int64, (c.apply (.set s.name v)).2.get s.name = .ok (.int64 w) ∧ w.toInt = n
  writtenBack : ∀ s : Setting, ∃ v, c.get s.name = .ok v ∧
    c.apply (.set s.name v) = (.ok (), s.write (min (s.value c) (2 ^ 63 - 1)) c)
  /-- Only a document can bring a limit that no scalar can be. -/
  readBack : ∀ (s : Setting) (v : Scalar), c.get s.name = .ok v →
    ¬ (s = .memoryLimit ∧ 2 ^ 63 ≤ start.memoryLimit ∧
      ∃ read text, ofText read text = .ok start) →
      c.apply (.set s.name v) = (.ok (), c)
  reset : ∀ s : Setting, c.apply (.reset s.name) = (.ok (), s.write (s.value default) c)
  resetAll : c.apply .resetAll = (.ok (), default)
  resetEach : ∀ s s' : Setting, s ≠ s' →
    c.run [.reset s.name, .reset s'.name] = c.run [.resetAll]
  unlimited : c.manager.limit? = none ↔ c.memoryLimit = 0
  limited : c.memoryLimit ≠ 0 → c.manager.limit? = some c.memoryLimit
  grants : ∀ bytes, (∃ m, c.manager.reserve bytes = .ok m) ↔
    bytes < 2 ^ 64 ∧ (c.memoryLimit = 0 ∨ bytes ≤ c.memoryLimit)

theorem Kept.admits (h : Kept start c) (s : Setting) : s.Admits (s.value c) := by
  cases s with
  | groupArrayMinCapacity => exact h.minCapacity
  | memoryLimit => trivial

/-- A scalar can be the number, unless it is a limit that a document brought. -/
theorem Kept.value_lt (h : Kept start c) (hstart : start.Loaded)
    (hdocument : ¬ (s = .memoryLimit ∧ 2 ^ 63 ≤ start.memoryLimit ∧
      ∃ read text, ofText read text = .ok start)) : s.value c < 2 ^ 63 := by
  cases s with
  | groupArrayMinCapacity => exact h.minCapacity.trans_lt (by decide)
  | memoryLimit =>
    obtain hlt | heq := h.memoryLimit
    · exact hlt
    · obtain rfl | htext := hstart
      · exact heq.trans_lt (by decide)
      · by_contra hle
        exact hdocument ⟨rfl, heq ▸ not_lt.mp hle, htext⟩

theorem Changes.value_eq (h : Changes c op c') (hs : ¬ op.Names s) : s.value c' = s.value c := by
  cases h with
  | @written _ s' n hop hadmits hlt =>
    apply Setting.value_write_of_ne
    rintro rfl
    exact hs hop
  | cleared => exact absurd trivial hs

/-- A scalar of one width is large enough for a number of any. -/
theorem get_write (s : Setting) {n : Nat} (hn : n < 2 ^ 63) (c : Config) :
    ∃ w : Int64, (s.write n c).get s.name = .ok (.int64 w) ∧ w.toInt = n := by
  have hcounts := s.counts_get (s.write n c)
  rw [s.value_write_self, Nat.min_eq_left (Nat.le_sub_one_of_lt hn)] at hcounts
  rcases hcounts with h | h | h | h
  exact ⟨_, get_name s _, h⟩

theorem grants_iff (hlimit : c.memoryLimit < 2 ^ 64) (bytes : Nat) :
    (∃ m, c.manager.reserve bytes = .ok m) ↔
      bytes < 2 ^ 64 ∧ (c.memoryLimit = 0 ∨ bytes ≤ c.memoryLimit) := by
  have hcounts := Manager.Counts.new (if c.memoryLimit = 0 then none else some c.memoryLimit)
  have hroom : Manager.Room (if c.memoryLimit = 0 then none else some c.memoryLimit) 0 bytes ↔
      bytes < 2 ^ 64 ∧ (c.memoryLimit = 0 ∨ bytes ≤ c.memoryLimit) := by
    unfold Manager.Room
    split <;> simp <;> omega
  rw [← hroom]
  obtain ⟨h, hgrant⟩ | ⟨h, hrefused⟩ := hcounts.reserve_cases bytes
  · exact iff_of_true hgrant h
  · refine iff_of_false ?_ h
    rintro ⟨m, hm⟩
    cases hrefused.symm.trans hm

theorem Kept.settled (h : Kept start c) (hstart : start.Loaded) : Settled start c where
  bound := h.minCapacity
  refused op f hf := by
    obtain ⟨c', -, happly⟩ | ⟨f', happly⟩ := apply_cases c op
    · rw [happly] at hf
      cases hf
    · rw [happly]
  spared op s hs := by
    obtain ⟨c', hchange, happly⟩ | ⟨f, happly⟩ := apply_cases c op
    · rw [happly]
      exact hchange.value_eq hs
    · rw [happly]
  accepts name v := set_eq_ok_iff
  shows s v n hn hadmits := by
    rw [Config.apply, set_name, Setting.set_of_counts hn hadmits c]
    exact get_write s hn.lt c
  writtenBack s := ⟨s.get c, get_name s c, set_get s (h.admits s)⟩
  readBack s v hget hdocument := by
    obtain rfl : s.get c = v := Except.ok.inj ((get_name s c).symm.trans hget)
    have hset := set_get s (h.admits s)
    have hlt := h.value_lt hstart hdocument
    rwa [Nat.min_eq_left (Nat.le_sub_one_of_lt hlt), s.write_value] at hset
  reset s := reset_name s c
  resetAll := rfl
  resetEach s s' hne := by
    simp only [Config.run, List.foldl_cons, List.foldl_nil, Config.apply, reset_name]
    exact Setting.write_write_default hne c
  unlimited := by
    unfold manager
    split <;> simp_all [Manager.new, Manager.limit?, Manager.ledger?]
  limited hne := by
    rw [manager, if_neg hne]
    rfl
  grants := by
    apply grants_iff
    obtain hlt | heq := h.memoryLimit
    · exact hlt.trans (by decide)
    · exact heq.trans_lt hstart.kept.2

/-- Whatever calls are made on the default configuration, or on one from a document: the minimum
capacity stays within its bound, calls that fail leave no trace, and others change what they name. A
write is taken for a known name and a number the setting can be. What is read can be written back,
and only a limit from a document is cut down by that. Resetting each setting is resetting all, and
the manager has the limit that is set. -/
theorem run_settled {start : Config} (hstart : start.Loaded) (ops : List Op) :
    Settled start (start.run ops) :=
  (hstart.kept.1.run ops).settled hstart

/-- A document with the largest limit there is. -/
def largestLimit : String := "\x7b\"memory_limit\": 18446744073709551615\x7d"

/-- Reading the limit and writing it back halves it, and a reset brings the default. -/
theorem run_settled_largestLimit :
    ofText readJson largestLimit = .ok ⟨18446744073709551615, 1024⟩ ∧
      (∃ v, (run ⟨18446744073709551615, 1024⟩ [.set "group_array_min_capacity" (.int8 7)]).get
          "memory_limit" = .ok v ∧
        (run ⟨18446744073709551615, 1024⟩ [.set "group_array_min_capacity" (.int8 7)]).apply
          (.set "memory_limit" v) = (.ok (), ⟨9223372036854775807, 7⟩)) := by
  have htext : ofText readJson largestLimit = .ok ⟨18446744073709551615, 1024⟩ := by
    decide +kernel
  have hsettled := run_settled (.inr ⟨_, _, htext⟩) [.set "group_array_min_capacity" (.int8 7)]
  obtain ⟨v, hget, hset⟩ := hsettled.writtenBack .memoryLimit
  exact ⟨htext, v, hget, hset⟩

end Config

end Earliest
