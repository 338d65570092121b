import Earliest.Proofs.Bitmap.Run
import Earliest.Validity

/-! Calls on a validity. A validity stands for a list of marks, one for each row, and its form is a
matter of storage: marks that are all alike need no mask, and a call that makes one of them differ
puts a full mask in their place first. No reader within the length can tell the forms apart. They
differ for rows past the length alone, which a uniform form answers and a mask may not. -/

namespace Earliest.Validity

variable {v v' : Validity} {l : List Bool} {m : Bitmap} {i : Nat}

/-! ## Calls -/

/-- The ways to make a validity. A bitmap may be one that any calls lead to. -/
inductive Start where
  | allValid (n : Nat)
  | allInvalid (n : Nat)
  | ofBitmap (start : Bitmap.Start) (ops : List Bitmap.Op)

def Start.validity : Start → Validity
  | allValid n => .allValid n
  | allInvalid n => .allInvalid n
  | ofBitmap start ops => .ofBitmap (start.bitmap.run ops)

def Start.marks : Start → List Bool
  | allValid n => List.replicate n true
  | allInvalid n => List.replicate n false
  | ofBitmap start ops => Bitmap.bitsAfter start.bits ops

/-- The calls that change a validity. -/
inductive Op where
  | setValid (row : Nat)
  | setInvalid (row : Nat)

namespace Op

def row : Op → Nat
  | setValid row => row
  | setInvalid row => row

def mark : Op → Bool
  | setValid _ => true
  | setInvalid _ => false

end Op

def call? (v : Validity) : Op → Option Validity
  | .setValid row => v.setValid? row
  | .setInvalid row => v.setInvalid? row

/-- The validity after the call. One that finds no byte leaves it as it was. -/
def apply (v : Validity) (op : Op) : Validity := (v.call? op).getD v

def run (v : Validity) (ops : List Op) : Validity := ops.foldl apply v

/-- The list after the calls. A call past its end does nothing. -/
def marksAfter (l : List Bool) (ops : List Op) : List Bool :=
  ops.foldl (fun l op => l.set op.row op.mark) l

def isMask : Validity → Bool
  | mask _ => true
  | _ => false

/-- Whether the call has to write a bit: to the mask, or to one that it makes. -/
def writes : Validity → Op → Bool
  | allValid _, op => !op.mark
  | allInvalid _, op => op.mark
  | mask _, _ => true

/-! ## What a validity holds -/

/-- The marks of a validity in each of its forms. -/
def Holds : Validity → List Bool → Prop
  | allValid n, l => l = List.replicate n true
  | allInvalid n, l => l = List.replicate n false
  | mask m, l => m.Holds l

/-- A mask is dropped only where it says nothing. -/
theorem holds_ofBitmap (h : m.Holds l) : (ofBitmap m).Holds l := by
  unfold ofBitmap
  split
  · rename_i hall
    rw [Bitmap.isAllTrue_iff h.full, h.toList] at hall
    exact List.eq_replicate_iff.mpr ⟨h.len_eq.symm, hall⟩
  · exact h

theorem holds_start (start : Start) : start.validity.Holds start.marks := by
  cases start with
  | allValid n => rfl
  | allInvalid n => rfl
  | ofBitmap start ops => exact holds_ofBitmap ((Bitmap.holds_start start).run ops)

namespace Holds

theorem len_eq (h : v.Holds l) : v.len = l.length := by
  cases v with
  | allValid n | allInvalid n =>
    cases h
    exact List.length_replicate.symm
  | mask m => exact Bitmap.Holds.len_eq h

theorem get?_eq (h : v.Holds l) (hi : i < l.length) : v.get? i = l[i]? := by
  cases v with
  | allValid n | allInvalid n =>
    cases h
    rw [List.length_replicate] at hi
    rw [List.getElem?_replicate_of_lt hi]
    rfl
  | mask m => exact Bitmap.Holds.get?_eq h hi

theorem toList (h : v.Holds l) : v.toList = l := by
  apply List.ext_getElem?
  intro i
  rw [Validity.toList, h.len_eq, List.getElem?_map]
  rcases Nat.lt_or_ge i l.length with hi | hi
  · rw [List.getElem?_range hi, Option.map_some, h.get?_eq hi, List.getElem?_eq_getElem hi,
      Option.getD_some]
  · rw [List.getElem?_eq_none (by simpa using hi), List.getElem?_eq_none hi, Option.map_none]

theorem isAllValid_iff (h : v.Holds l) : v.isAllValid = true ↔ ∀ b ∈ l, b = true := by
  cases v with
  | allValid n =>
    cases h
    exact iff_of_true rfl fun b hb => List.eq_of_mem_replicate hb
  | allInvalid n =>
    cases h
    cases n <;> simp [isAllValid]
  | mask m =>
    rw [isAllValid, Bitmap.isAllTrue_iff (Bitmap.Holds.full h), Bitmap.Holds.toList h]

/-- A call that needs no bit written leaves the marks as they are, since they agree already. -/
theorem call? (h : v.Holds l) {op : Op} (hcall : v.call? op = some v') :
    v'.Holds (l.set op.row op.mark) := by
  have hmask : ∀ {m : Bitmap} {b : Bool}, m.Holds l → (m.set? op.row b).map mask = some v' →
      v'.Holds (l.set op.row b) := by
    intro m b hm hset
    obtain ⟨m', hm', rfl⟩ := Option.map_eq_some_iff.mp hset
    exact Bitmap.Op.onBits_set l op.row b ▸ hm.set? hm'
  cases v with
  | mask m => cases op <;> exact hmask h hcall
  | allValid n =>
    cases h
    cases op with
    | setValid row =>
      cases hcall
      exact List.set_replicate_self
    | setInvalid row => exact hmask (Bitmap.holds_allTrue n) hcall
  | allInvalid n =>
    cases h
    cases op with
    | setValid row => exact hmask (Bitmap.holds_allFalse n) hcall
    | setInvalid row =>
      cases hcall
      exact List.set_replicate_self

/-- A call finds no byte only where it has one to write. -/
theorem call?_eq_none_iff (h : v.Holds l) (op : Op) :
    v.call? op = none ↔ v.writes op = true ∧ Bitmap.byteCount v.len ≤ op.row / 8 := by
  have hmask : ∀ {m : Bitmap} {b : Bool}, m.Full → ((m.set? op.row b).map mask = none ↔
      Bitmap.byteCount m.len ≤ op.row / 8) := by
    intro m b hm
    rw [Option.map_eq_none_iff, Bitmap.set?_eq_none_iff, hm]
  cases v with
  | mask m => cases op <;> exact (hmask (Bitmap.Holds.full h)).trans (and_iff_right rfl).symm
  | allValid n =>
    cases op with
    | setValid row => exact iff_of_false nofun nofun
    | setInvalid row => exact (hmask (Bitmap.full_allTrue n)).trans (and_iff_right rfl).symm
  | allInvalid n =>
    cases op with
    | setValid row => exact (hmask (Bitmap.full_allFalse n)).trans (and_iff_right rfl).symm
    | setInvalid row => exact iff_of_false nofun nofun

theorem get?_eq_none_iff (h : v.Holds l) (i : Nat) :
    v.get? i = none ↔ v.isMask = true ∧ Bitmap.byteCount v.len ≤ i / 8 := by
  cases v with
  | allValid n | allInvalid n => exact iff_of_false nofun nofun
  | mask m =>
    rw [get?, Bitmap.get?_eq_none_iff, Bitmap.Holds.full h]
    exact (and_iff_right rfl).symm

theorem apply (h : v.Holds l) (op : Op) : (v.apply op).Holds (l.set op.row op.mark) := by
  rcases hcall : v.call? op with _ | v'
  · have hpast : l.length ≤ op.row := by
      have hbyte := ((h.call?_eq_none_iff op).mp hcall).2
      rw [h.len_eq, Bitmap.byteCount] at hbyte
      omega
    rw [Validity.apply, hcall, Option.getD_none, List.set_eq_of_length_le hpast]
    exact h
  · rw [Validity.apply, hcall, Option.getD_some]
    exact h.call? hcall

theorem run (h : v.Holds l) (ops : List Op) : (v.run ops).Holds (marksAfter l ops) := by
  induction ops generalizing v l with
  | nil => exact h
  | cons op ops ih => exact ih (h.apply op)

end Holds

theorem length_marksAfter (l : List Bool) (ops : List Op) :
    (marksAfter l ops).length = l.length := by
  induction ops generalizing l with
  | nil => rfl
  | cons op ops ih => exact (ih _).trans List.length_set

/-! ## What is seen -/

/-- What can be seen of a validity with these marks. Its form shows in nothing within the length. -/
structure Marks (v : Validity) (l : List Bool) : Prop where
  len : v.len = l.length
  toList : v.toList = l
  get : ∀ i < l.length, v.get? i = l[i]?
  isAllValid : v.isAllValid = true ↔ ∀ b ∈ l, b = true
  written : ∀ op : Op, op.row < l.length → ∃ v', v.call? op = some v'
  unread : ∀ i, v.get? i = none ↔ v.isMask = true ∧ Bitmap.byteCount l.length ≤ i / 8
  unwritten : ∀ op, v.call? op = none ↔
    v.writes op = true ∧ Bitmap.byteCount l.length ≤ op.row / 8
  kept : ∀ op, v.call? op = none → v.apply op = v

theorem Holds.marks (h : v.Holds l) : v.Marks l where
  len := h.len_eq
  toList := h.toList
  get _ hi := h.get?_eq hi
  isAllValid := h.isAllValid_iff
  written op hrow := by
    refine Option.ne_none_iff_exists'.mp ?_
    intro hcall
    have hbyte := ((h.call?_eq_none_iff op).mp hcall).2
    rw [h.len_eq, Bitmap.byteCount] at hbyte
    omega
  unread i := h.len_eq ▸ h.get?_eq_none_iff i
  unwritten op := h.len_eq ▸ h.call?_eq_none_iff op
  kept op hcall := by rw [Validity.apply, hcall, Option.getD_none]

/-- After any calls a validity has just the marks that they made of those at the start, and as many
of them. Two that have the same marks are seen alike after the same further calls, whatever forms
they are in and however they came about. -/
theorem run_marks :
    (∀ (start : Start) (ops : List Op),
      (start.validity.run ops).Marks (marksAfter start.marks ops) ∧
        (start.validity.run ops).len = start.validity.len) ∧
    ∀ (start start' : Start) (ops ops' later : List Op),
      (start.validity.run ops).toList = (start'.validity.run ops').toList →
        ∃ l, (start.validity.run (ops ++ later)).Marks l ∧
          (start'.validity.run (ops' ++ later)).Marks l := by
  have hholds : ∀ (start : Start) (ops : List Op),
      (start.validity.run ops).Holds (marksAfter start.marks ops) :=
    fun start ops => (holds_start start).run ops
  constructor
  · intro start ops
    refine ⟨(hholds start ops).marks, ?_⟩
    rw [(hholds start ops).len_eq, (holds_start start).len_eq, length_marksAfter]
  · intro start start' ops ops' later hsame
    rw [(hholds start ops).toList, (hholds start' ops').toList] at hsame
    refine ⟨marksAfter (marksAfter start.marks ops) later, ?_, ?_⟩
    · rw [run, List.foldl_append]
      exact ((hholds start ops).run later).marks
    · rw [run, List.foldl_append, hsame]
      exact ((hholds start' ops').run later).marks

/-- A mask that was made of all-true bits, with stray ones in its padding, beside a uniform form. -/
theorem run_marks_regained :
    let turned := (Validity.allValid 3).run [.setInvalid 1, .setValid 1]
    turned.isAllValid = true ∧ turned.isMask = true ∧ turned.call? (.setValid 8) = none ∧
      ∃ l, ((Validity.allValid 3).run [.setInvalid 2]).Marks l ∧
        (turned.run [.setInvalid 2]).Marks l := by
  intro turned
  obtain ⟨hruns, hsame⟩ := run_marks
  obtain ⟨hturned, -⟩ := hruns (.allValid 3) [.setInvalid 1, .setValid 1]
  refine ⟨hturned.isAllValid.mpr (by decide), rfl, (hturned.unwritten (.setValid 8)).mpr ?_, ?_⟩
  · decide
  · exact hsame (.allValid 3) (.allValid 3) [] [.setInvalid 1, .setValid 1] [.setInvalid 2]
      (by decide)

end Earliest.Validity
