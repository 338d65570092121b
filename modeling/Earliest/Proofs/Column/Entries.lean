import Earliest.Proofs.Column.Reads
import Earliest.Proofs.Text.Utf8

/-! A column reads back what its builder took. Whatever is offered to a builder, an accepted entry
adds one row at the end and a refused one adds none. So the rows of the finished column are the
accepted entries in order, each seen through the type of the column. -/

namespace Earliest

namespace Scalar

theorem seen_stored (s : Scalar) : s.dataType.seen s.stored = .ok s := by
  cases s with
  | utf8 text =>
    show ((Utf8.decode (Utf8.encode text)).map Scalar.utf8).mapError Fault.notUtf8 = _
    rw [Utf8.decode_encode]
    rfl
  | _ => rfl

theorem isNone_stored (s : Scalar) : s.stored.isNone = s.isNull := by
  cases s <;> rfl

theorem dataType_ofItem (t : DataType) (v : t.Item) : (ofItem t v).dataType = t := by
  cases t with
  | null => exact nomatch v
  | _ => rfl

theorem isNull_ofItem (t : DataType) (v : t.Item) : (ofItem t v).isNull = false := by
  cases t with
  | null => exact nomatch v
  | _ => rfl

end Scalar

namespace Builder

variable {b b' : Builder} {p : Physical} {t : DataType}

/-! ## Entries -/

/-- What can be offered to a builder. -/
inductive Entry where
  | null
  /-- A stored value, whose physical type the caller picks. -/
  | stored (p : Physical) (v : p.Value)
  | scalar (s : Scalar)

namespace Entry

/-- Whether a builder of the type takes the entry. -/
def Suits (t : DataType) : Entry → Prop
  | null => True
  | stored p _ => p = t.physical
  | scalar s => s = .null ∨ s.dataType = t

def isNull : Entry → Bool
  | null => true
  | stored _ _ => false
  | scalar s => s.isNull

/-- What a column of the type reads for an entry. A stored value is read as the scalar of that
type that stores just it; bytes that no text is written as are refused as a text. -/
inductive Reads (t : DataType) : Entry → Except Fault Scalar → Prop
  | null : Reads t .null (.ok .null)
  | scalar (s : Scalar) : Reads t (.scalar s) (.ok s)
  | stored {s : Scalar} {v : s.dataType.physical.Value} (ht : s.dataType = t)
      (hv : s.stored = some v) : Reads t (.stored s.dataType.physical v) (.ok s)
  | notText {bytes : Bytes} (ht : t = .utf8) (h : ∀ text, Utf8.encode text ≠ bytes)
      (d : Utf8.Defect) : Reads t (.stored .binary bytes) (.error (.notUtf8 d))

theorem Reads.eq_ok {t : DataType} {s : Scalar} {r : Except Fault Scalar}
    (h : Reads t (Entry.scalar s) r) : r = .ok s := by
  cases h
  rfl

/-- The entry comes to that stored value, or to none. -/
structure Stores (t : DataType) (e : Entry) (v : Option t.physical.Value) : Prop where
  isNull : e.isNull = v.isNone
  reads : e.Reads t (t.seen v)

theorem Stores.null (t : DataType) : Stores t .null none := ⟨rfl, .null⟩

theorem Stores.stored (t : DataType) (v : t.physical.Value) :
    Stores t (.stored t.physical v) (some v) := by
  refine ⟨rfl, ?_⟩
  cases t with
  | null => exact nomatch v
  | boolean => exact .stored (s := .boolean v) rfl rfl
  | int8 => exact .stored (s := .int8 v) rfl rfl
  | int16 => exact .stored (s := .int16 v) rfl rfl
  | int32 => exact .stored (s := .int32 v) rfl rfl
  | int64 => exact .stored (s := .int64 v) rfl rfl
  | float16 => exact .stored (s := .float16 v) rfl rfl
  | float32 => exact .stored (s := .float32 v) rfl rfl
  | float64 => exact .stored (s := .float64 v) rfl rfl
  | date32 => exact .stored (s := .date32 v) rfl rfl
  | timestamp unit => exact .stored (s := .timestamp unit v) rfl rfl
  | binary => exact .stored (s := .binary v) rfl rfl
  | utf8 =>
    show Reads .utf8 _ (((Utf8.decode v).map Scalar.utf8).mapError Fault.notUtf8)
    rcases hdecode : Utf8.decode v with d | text
    · refine .notText rfl ?_ d
      rintro text rfl
      rw [Utf8.decode_encode] at hdecode
      cases hdecode
    · cases Utf8.decode_eq_ok_iff.mp hdecode
      exact .stored (s := .utf8 text) rfl rfl

theorem Stores.scalar (s : Scalar) : Stores s.dataType (.scalar s) s.stored :=
  ⟨(Scalar.isNone_stored s).symm, Scalar.seen_stored s ▸ .scalar s⟩

end Entry

/-- Offers an entry to the builder. -/
def enter (e : Entry) (b : Builder) : Attempt Builder :=
  match e with
  | .null => (.ok (), b.appendNull)
  | .stored p v => b.append p v
  | .scalar s => b.appendScalar s

/-- Offers the entries in turn, each with its outcome. -/
def run : List Entry → Builder → List (Entry × Except Fault Unit) × Builder
  | [], b => ([], b)
  | e :: rest, b =>
    let (outcome, b) := b.enter e
    let (trace, b) := run rest b
    ((e, outcome) :: trace, b)

/-- The entries that were taken, in order. -/
def accepted (trace : List (Entry × Except Fault Unit)) : List Entry :=
  (trace.filter fun offer => offer.2.isOk).map Prod.fst

/-! ## One entry -/

theorem enter_of_suits {e : Entry} (ht : b.dataType = t) (h : e.Suits t) :
    ∃ v, e.Stores t v ∧ b.enter e = b.appendStored t.physical v := by
  cases e with
  | null => exact ⟨none, .null t, rfl⟩
  | stored p v =>
    cases h
    exact ⟨some v, .stored t v, rfl⟩
  | scalar s =>
    by_cases hs : s = .null
    · subst hs
      exact ⟨none, ⟨rfl, .scalar .null⟩, rfl⟩
    · cases h.resolve_left hs
      exact ⟨s.stored, .scalar s, appendScalar_eq ht⟩

/-- A refused entry leaves the builder as it was. -/
theorem enter_of_not_suits {e : Entry} (hb : b.WellFormed) (ht : b.dataType = t)
    (h : ¬ e.Suits t) : ∃ f, b.enter e = (.error f, b) ∧ f.kind = .invalidArgument := by
  cases e with
  | null => exact absurd trivial h
  | stored p v =>
    have hp : b.data.physical ≠ p := by
      rintro rfl
      exact h (hb.physical.trans (congrArg DataType.physical ht))
    exact ⟨_, append_of_data_ne hp v, rfl⟩
  | scalar s =>
    obtain ⟨hnull, htype⟩ := not_or.mp h
    obtain ⟨v, hv⟩ : ∃ v, s.stored = some v := by
      cases s with
      | null => exact absurd rfl hnull
      | _ => exact ⟨_, rfl⟩
    refine ⟨.appended b.dataType s.dataType, ?_, rfl⟩
    simp only [enter, appendScalar, hv, if_neg (ht ▸ htype)]

/-- The outcome that an entry meets at a builder of the type. -/
structure Entry.Answered (t : DataType) (e : Entry) (outcome : Except Fault Unit) : Prop where
  accepted : outcome = .ok () ↔ e.Suits t
  refused : ∀ f, outcome = .error f → f.kind = .invalidArgument

/-- An entry that suits adds one row, and any other one is refused. -/
theorem enter_cases {rows : List (Option t.physical.Value)} (hb : Holds t.physical rows b)
    (ht : b.dataType = t) (e : Entry) :
    (∃ b' v, b.enter e = (.ok (), b') ∧ e.Answered t (.ok ()) ∧ e.Stores t v ∧
        Holds t.physical (rows ++ [v]) b' ∧ b'.dataType = t) ∨
      ∃ f, b.enter e = (.error f, b) ∧ e.Answered t (.error f) := by
  by_cases h : e.Suits t
  · obtain ⟨v, hv, henter⟩ := enter_of_suits ht h
    obtain ⟨b', happend⟩ := exists_appendStored hb.wellFormed hb.physical v
    exact .inl ⟨b', v, henter.trans happend, ⟨iff_of_true rfl h, nofun⟩, hv,
      hb.appendStored happend, (dataType_appendStored happend).trans ht⟩
  · obtain ⟨f, henter, hf⟩ := enter_of_not_suits hb.wellFormed ht h
    refine .inr ⟨f, henter, iff_of_false nofun h, ?_⟩
    rintro _ ⟨⟩
    exact hf

theorem eq_of_refused {rows : List (Option t.physical.Value)} {e : Entry} {f : Fault}
    (hb : Holds t.physical rows b) (ht : b.dataType = t) (h : b.enter e = (.error f, b')) :
    b' = b := by
  obtain ⟨_, _, henter, -⟩ | ⟨_, henter, -⟩ := enter_cases hb ht e
  · cases henter.symm.trans h
  · exact (congrArg Prod.snd (henter.symm.trans h)).symm

/-! ## Whole runs -/

variable {e : Entry} {rest entries : List Entry} {f : Fault}
  {trace : List (Entry × Except Fault Unit)} {outcome : Except Fault Unit}

theorem run_cons (h : b.enter e = (outcome, b')) :
    b.run (e :: rest) = ((e, outcome) :: (b'.run rest).1, (b'.run rest).2) := by
  rw [run, h]

@[simp] theorem accepted_cons_ok :
    accepted ((e, .ok ()) :: trace) = e :: accepted trace := rfl

@[simp] theorem accepted_cons_error : accepted ((e, .error f) :: trace) = accepted trace := rfl

/-- Every entry has its answer, and those that were taken are the new rows. -/
theorem holds_run {rows : List (Option t.physical.Value)} (hb : Holds t.physical rows b)
    (ht : b.dataType = t) (entries : List Entry) :
    (b.run entries).1.map Prod.fst = entries ∧
      (∀ offer ∈ (b.run entries).1, offer.1.Answered t offer.2) ∧
      (b.run entries).2.dataType = t ∧
      ∃ new, List.Forall₂ (Entry.Stores t) (accepted (b.run entries).1) new ∧
        Holds t.physical (rows ++ new) (b.run entries).2 := by
  induction entries generalizing b rows with
  | nil =>
    rw [← List.append_nil rows] at hb
    exact ⟨rfl, List.forall_mem_nil _, ht, [], .nil, hb⟩
  | cons e rest ih =>
    obtain ⟨b₁, v, hfirst, hanswer, hv, hb₁, ht₁⟩ | ⟨f, hfirst, hanswer⟩ := enter_cases hb ht e
    · obtain ⟨hmap, hanswers, ht', new, hnew, hb'⟩ := ih hb₁ ht₁
      rw [List.append_assoc] at hb'
      rw [run_cons hfirst, List.map_cons, hmap, accepted_cons_ok]
      exact ⟨rfl, List.forall_mem_cons.mpr ⟨hanswer, hanswers⟩, ht', v :: new, .cons hv hnew, hb'⟩
    · obtain ⟨hmap, hanswers, hrows⟩ := ih hb ht
      rw [run_cons hfirst, List.map_cons, hmap]
      exact ⟨rfl, List.forall_mem_cons.mpr ⟨hanswer, hanswers⟩, hrows⟩

/-- A refused entry leaves no trace: the entries that were taken give the same builder alone. -/
theorem run_accepted {rows : List (Option t.physical.Value)} (hb : Holds t.physical rows b)
    (ht : b.dataType = t) (entries : List Entry) :
    b.run (accepted (b.run entries).1) =
      ((accepted (b.run entries).1).map (·, .ok ()), (b.run entries).2) := by
  induction entries generalizing b rows with
  | nil => rfl
  | cons e rest ih =>
    obtain ⟨b₁, v, hfirst, -, -, hb₁, ht₁⟩ | ⟨f, hfirst, -⟩ := enter_cases hb ht e
    · rw [run_cons hfirst, accepted_cons_ok, run_cons hfirst, ih hb₁ ht₁, List.map_cons]
    · rw [run_cons hfirst, accepted_cons_error]
      exact ih hb ht

/-- Where every entry suits, every entry is taken. -/
theorem run_of_suits (h : ∀ e ∈ entries, e.Suits t) :
    (∀ offer ∈ ((new t).run entries).1, offer.2 = .ok ()) ∧
      accepted ((new t).run entries).1 = entries := by
  obtain ⟨hmap, hanswers, -⟩ := holds_run (holds_new t) rfl entries
  have hok : ∀ offer ∈ ((new t).run entries).1, offer.2 = .ok () := by
    intro offer hoffer
    have hmem : offer.1 ∈ entries := hmap ▸ List.mem_map_of_mem hoffer
    exact (hanswers offer hoffer).accepted.mpr (h offer.1 hmem)
  refine ⟨hok, ?_⟩
  rw [accepted, List.filter_eq_self.mpr, hmap]
  intro offer hoffer
  rw [hok offer hoffer]
  rfl

/-- Appending scalars until one is refused is a run in which none is. -/
theorem each_appendScalar {scalars : List Scalar}
    (h : ∀ offer ∈ (b.run (scalars.map .scalar)).1, offer.2 = .ok ()) :
    each appendScalar scalars b = (.ok (), (b.run (scalars.map .scalar)).2) := by
  induction scalars generalizing b with
  | nil => rfl
  | cons s scalars ih =>
    rw [List.map_cons] at h ⊢
    rcases hfirst : b.enter (.scalar s) with ⟨f | _, b₁⟩
    · rw [run_cons hfirst] at h
      cases h _ List.mem_cons_self
    · have happend : b.appendScalar s = (.ok (), b₁) := hfirst
      rw [run_cons hfirst] at h ⊢
      rw [each_cons_ok happend]
      exact ih (List.forall_mem_cons.mp h).2

end Builder

namespace Column

open Builder

variable {c : Column} {t : DataType}

/-- The rows of a flat column of the type are these entries, in order. -/
structure ReadsBack (t : DataType) (entries : List Entry) (c : Column) : Prop where
  layout : c.layout = .flat
  dataType : c.dataType = t
  len : c.len = entries.length
  isNull : ∀ (i : Nat) (e : Entry), entries[i]? = some e → c.isNull? i = some e.isNull
  value : ∀ (i : Nat) (e : Entry), entries[i]? = some e → e.Reads t (c.value i)

/-- The column that a run finishes as reads back the entries that were taken. -/
theorem readsBack_run (t : DataType) (entries : List Entry) :
    ReadsBack t (accepted ((new t).run entries).1) ((new t).run entries).2.finish := by
  obtain ⟨-, -, ht, rows, hstores, hb⟩ := holds_run (holds_new t) rfl entries
  rw [List.nil_append] at hb
  generalize accepted ((new t).run entries).1 = taken at hstores
  generalize ((new t).run entries).2 = b at ht hb
  have hrow : ∀ (i : Nat) (e : Entry), taken[i]? = some e → ∃ v, rows[i]? = some v ∧
      e.Stores t v := by
    intro i e he
    obtain ⟨hi, rfl⟩ := List.getElem?_eq_some_iff.mp he
    have hi' : i < rows.length := hstores.length_eq ▸ hi
    exact ⟨_, List.getElem?_eq_getElem hi', hstores.get hi hi'⟩
  have hlists := ht ▸ lists_finish hb
  refine ⟨rfl, ht, hlists.len.trans hstores.length_eq.symm, ?_, ?_⟩
  · intro i e he
    obtain ⟨v, hv, hstored⟩ := hrow i e he
    rw [hlists.isNull i v hv, hstored.isNull]
  · intro i e he
    obtain ⟨v, hv, hstored⟩ := hrow i e he
    rw [hlists.value i v hv]
    exact hstored.reads

/-! ## Columns of items -/

theorem ReadsBack.rows_eq {scalars : List Scalar} (h : ReadsBack t (scalars.map .scalar) c) :
    c.rows = scalars.map .ok := by
  have hlen : c.len = scalars.length := h.len.trans (List.length_map _)
  apply List.ext_getElem
  · simp [rows, hlen]
  · intro i _ hi
    rw [List.length_map] at hi
    have hread : (Entry.scalar scalars[i]).Reads t (c.value i) := by
      apply h.value
      rw [List.getElem?_map, List.getElem?_eq_getElem hi, Option.map_some]
    simp only [rows, List.getElem_map, List.getElem_range]
    exact hread.eq_ok

theorem exists_ofScalars {scalars : List Scalar}
    (h : ∀ s ∈ scalars, s = .null ∨ s.dataType = t) :
    ∃ c, ofScalars t scalars = .ok c ∧ ReadsBack t (scalars.map .scalar) c := by
  have hsuits : ∀ e ∈ scalars.map Entry.scalar, e.Suits t := List.forall_mem_map.mpr h
  obtain ⟨hok, haccepted⟩ := run_of_suits hsuits
  have hreads := readsBack_run t (scalars.map .scalar)
  rw [haccepted] at hreads
  refine ⟨_, ?_, hreads⟩
  rw [ofScalars, each_appendScalar hok]
  rfl

/-- What an item is appended as. -/
def scalarOf (t : DataType) (item : Option t.Item) : Scalar := item.elim .null (Scalar.ofItem t)

/-- A column of items is always had, and reads back the items. -/
theorem exists_ofItems (t : DataType) (items : List (Option t.Item)) :
    ∃ c, ofItems t items = .ok c ∧ ReadsBack t ((items.map (scalarOf t)).map .scalar) c := by
  have hitem : (fun item : Option t.Item => (item.map (Scalar.ofItem t)).getD .null) =
      scalarOf t := by
    funext item
    cases item <;> rfl
  rw [ofItems, hitem]
  refine exists_ofScalars (List.forall_mem_map.mpr fun item _ => ?_)
  cases item with
  | none => exact .inl rfl
  | some v => exact .inr (Scalar.dataType_ofItem t v)

/-- Whatever is offered to a new builder, just the entries that suit its type are taken. The others
are refused as invalid arguments, at any time without a trace, so that the builder is the one that
the taken entries alone give. Its mask and its data have a row for each of them, and the finished
column reads them back in order. A column of items is always had, and its rows are the items. -/
theorem run_reads_back :
    (∀ (t : DataType) (entries : List Entry) (trace : List (Entry × Except Fault Unit))
        (b : Builder), (new t).run entries = (trace, b) →
      trace.map Prod.fst = entries ∧
      (∀ offer ∈ trace, offer.1.Answered t offer.2) ∧
      (∀ e f b', b.enter e = (.error f, b') → b' = b) ∧
      (new t).run (accepted trace) = ((accepted trace).map (·, .ok ()), b) ∧
      (b.len = (accepted trace).length ∧ b.validity.len = (accepted trace).length ∧
        b.data.size = (accepted trace).length) ∧
      ReadsBack t (accepted trace) b.finish) ∧
    ∀ (t : DataType) (items : List (Option t.Item)), ∃ c, ofItems t items = .ok c ∧
      c.layout = .flat ∧ c.dataType = t ∧
      c.rows = items.map (fun item => .ok (item.elim .null (Scalar.ofItem t))) ∧
      ∀ i item, items[i]? = some item → c.isNull? i = some item.isNone := by
  constructor
  · intro t entries trace b hrun
    obtain ⟨rfl, rfl⟩ := Prod.ext_iff.mp hrun
    obtain ⟨hmap, hanswers, ht, rows, hstores, hb⟩ := holds_run (holds_new t) rfl entries
    rw [List.nil_append] at hb
    have hlen := hstores.length_eq
    exact ⟨hmap, hanswers, fun e f b' h => eq_of_refused hb ht h,
      run_accepted (holds_new t) rfl entries,
      ⟨hb.len.trans hlen.symm, hb.len.trans hlen.symm, hb.size.trans hlen.symm⟩,
      readsBack_run t entries⟩
  · intro t items
    obtain ⟨c, hc, hreads⟩ := exists_ofItems t items
    refine ⟨c, hc, hreads.layout, hreads.dataType, ?_, ?_⟩
    · rw [hreads.rows_eq, List.map_map]
      rfl
    · intro i item hi
      have hnull : c.isNull? i = some (scalarOf t item).isNull := by
        apply hreads.isNull i (.scalar (scalarOf t item))
        rw [List.getElem?_map, List.getElem?_map, hi, Option.map_some, Option.map_some]
      rw [hnull]
      cases item with
      | none => rfl
      | some v => exact congrArg some (Scalar.isNull_ofItem t v)

/-- Among them are a scalar of another unit and a stored value of another type. -/
def fiveEntries : List Entry :=
  [.stored .int64 (5 : Int64), .scalar (.timestamp .millisecond 6), .null,
    .stored .int32 (8 : Int32), .scalar (.timestamp .second 7)]

theorem run_reads_back_fiveEntries :
    ∃ trace b, (new (.timestamp .second)).run fiveEntries = (trace, b) ∧ b.len = 3 ∧
      (Entry.stored .int64 (5 : Int64)).Reads (.timestamp .second) (b.finish.value 0) ∧
      b.finish.isNull? 1 = some true ∧ b.finish.value 2 = .ok (.timestamp .second 7) := by
  obtain ⟨hruns, -⟩ := run_reads_back
  obtain ⟨-, -, -, -, ⟨hlen, -, -⟩, hreads⟩ :=
    hruns (.timestamp .second) fiveEntries _ _ Prod.mk.eta.symm
  exact ⟨_, _, rfl, hlen, hreads.value 0 _ rfl, hreads.isNull 1 .null rfl,
    (hreads.value 2 (.scalar (.timestamp .second 7)) rfl).eq_ok⟩

end Column

end Earliest
