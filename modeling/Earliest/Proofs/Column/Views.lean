import Earliest.Proofs.Column.Entries
import Earliest.Proofs.Text.WellFormed

/-! Bytes as text. A column of byte strings can be relabelled as text and back, and nothing but its
label changes. As bytes a row is read as it is stored. As text it is read if its own bytes are well
formed, and refused if they are not; what lies next to it in the store plays no part. -/

namespace Earliest

/-- The texts of a defect behind that many good bytes. -/
def Utf8.Tells (n : Nat) (text : String) : Prop :=
  text = "incomplete utf-8 byte sequence from index " ++ toString n ∨
    ∃ k : Nat, text = "invalid utf-8 sequence of " ++ toString k ++ " bytes from index " ++ toString n

theorem Utf8.tells_text (d : Utf8.Defect) : Tells d.valid d.text := by
  obtain ⟨valid, _ | k⟩ := d
  · exact .inl rfl
  · exact .inr ⟨k, rfl⟩

namespace Column

variable {c c' : Column} {t : DataType} {types : List DataType} {bytes : Bytes} {i : Nat}

/-! ## Relabelling -/

/-- Relabels the column as each of the types in turn. -/
def relabel (types : List DataType) (c : Column) : Except Fault Column :=
  types.foldlM withDataType c

theorem relabel_eq (h : ∀ t ∈ types, t.physical = c.physical) :
    c.relabel types = .ok { c with dataType := types.getLastD c.dataType } := by
  induction types generalizing c with
  | nil => rfl
  | cons t types ih =>
    obtain ⟨ht, htypes⟩ := List.forall_mem_cons.mp h
    have hfirst : c.withDataType t = .ok { c with dataType := t } :=
      withDataType_eq_ok_iff.mpr ⟨ht, rfl⟩
    rw [relabel, List.foldlM_cons, hfirst]
    refine (ih ?_).trans ?_
    · intro t' ht'
      exact (htypes t' ht').trans ht.symm
    · rw [List.getLastD_cons]

theorem Built.relabel (hc : c.Built) (h : c.relabel types = .ok c') : c'.Built := by
  induction types generalizing c with
  | nil =>
    cases h
    exact hc
  | cons t types ih =>
    rw [Column.relabel, List.foldlM_cons] at h
    rcases hfirst : c.withDataType t with f | c₁
    · rw [hfirst] at h
      cases h
    · rw [hfirst] at h
      exact ih (.withDataType hc hfirst) h

/-! ## One row -/

/-- How a row that stores the bytes is read as text. -/
structure ReadsAsText (bytes : Bytes) (r : Except Fault Scalar) : Prop where
  accepts : (∃ text, r = .ok (.utf8 text)) ↔ Utf8.WellFormed bytes
  text : ∀ s, r = .ok s → ∃ text, s = .utf8 text ∧ Utf8.encode text = bytes
  refuses : ∀ f, r = .error f → f.report.message = "binary data not valid utf8" ∧
    ∃ n text, Utf8.LongestPrefix n bytes ∧ f.report.sourceText? = some text ∧ Utf8.Tells n text

theorem readsAsText (bytes : Bytes) :
    ReadsAsText bytes ((Scalar.ofValue .utf8 bytes).mapError .notUtf8) := by
  have haccepts : (∃ text, Utf8.decode bytes = .ok text) ↔ Utf8.WellFormed bytes :=
    Utf8.exists_decode_iff
  show ReadsAsText bytes (((Utf8.decode bytes).map Scalar.utf8).mapError Fault.notUtf8)
  rcases hread : Utf8.decode bytes with d | text
  · refine ⟨?_, nofun, ?_⟩
    · rw [← haccepts, hread]
      exact iff_of_false nofun nofun
    · rintro _ ⟨⟩
      exact ⟨rfl, d.valid, d.text, Utf8.longestPrefix_of_decode hread, rfl, Utf8.tells_text d⟩
  · refine ⟨iff_of_true ⟨text, rfl⟩ (haccepts.mp ⟨text, hread⟩), ?_, nofun⟩
    rintro _ ⟨⟩
    exact ⟨text, rfl, (Utf8.decode_eq_ok_iff.mp hread).symm⟩

theorem get?_ofList (strings : List Bytes) (row : Nat) :
    (ColumnData.ofList .binary strings).get? .binary row = strings[row]? :=
  (ColumnData.get?_mk .binary _ row).trans ((ByteStrings.holds_ofList strings).get?_eq row)

/-- Whatever strings are stored, each row that is not null is read from its own one. -/
theorem value_of_strings {strings : List Bytes} (hc : c.WellFormed)
    (hdata : c.data = .ofList .binary strings) (hi : i < c.len) (hshows : c.shows i = true) :
    ∃ bytes, strings[c.selection.row i]? = some bytes ∧
      (c.dataType = .binary → c.value i = .ok (.binary bytes)) ∧
      (c.dataType = .utf8 → ReadsAsText bytes (c.value i)) := by
  have hstored : ∀ {bytes}, c.cell .binary i = some bytes →
      strings[c.selection.row i]? = some bytes := by
    intro bytes hcell
    rwa [cell, if_pos hshows, hdata, get?_ofList] at hcell
  have hphysical : c.dataType.physical = .binary := by rw [← hc.physical, hdata, ColumnData.ofList]
  have hread := value_of_shows hc hi hshows
  cases ht : c.dataType with
  | utf8 =>
    rw [ht] at hread
    obtain ⟨bytes, hcell, hvalue⟩ := hread (by decide)
    exact ⟨bytes, hstored hcell, by rintro ⟨⟩, fun _ => hvalue ▸ readsAsText bytes⟩
  | binary =>
    rw [ht] at hread
    obtain ⟨bytes, hcell, hvalue⟩ := hread (by decide)
    exact ⟨bytes, hstored hcell, fun _ => hvalue, by rintro ⟨⟩⟩
  | _ =>
    rw [ht] at hphysical
    cases hphysical

/-! ## Whole columns -/

/-- The strings that were pushed are all that a store of byte strings is. -/
theorem exists_strings (hc : c.Built) (hp : c.physical = .binary) :
    ∃ strings, c.data = .ofList .binary strings := by
  have hw := hc.wellFormed
  obtain ⟨t, len, layout, validity, physical, store⟩ := c
  obtain rfl : physical = .binary := hw.physical.trans hp
  obtain ⟨strings, rfl⟩ := ByteStrings.Built.exists_eq_ofList hw.data
  exact ⟨strings, rfl⟩

/-- A text that a builder takes is read back, whatever the builder held and takes later. -/
theorem value_of_text {b : Builder} (hb : b.Built) (ht : b.dataType = .utf8) (text : String) :
    ∃ b', b.appendScalar (.utf8 text) = (.ok (), b') ∧
      ∀ later, (b'.run later).2.finish.value b.len = .ok (.utf8 text) := by
  obtain ⟨t, validity, data⟩ := b
  obtain rfl : t = .utf8 := ht
  obtain ⟨rows, hrows⟩ : ∃ rows : List (Option DataType.utf8.physical.Value),
      Builder.Holds DataType.utf8.physical rows ⟨.utf8, validity, data⟩ := hb.exists_holds
  obtain ⟨b', happend⟩ :=
    Builder.exists_appendStored hb.wellFormed hrows.physical (Scalar.utf8 text).stored
  have ht' : b'.dataType = .utf8 := Builder.dataType_appendStored happend
  have hheld : b'.Holds DataType.utf8.physical (rows ++ [(Scalar.utf8 text).stored]) :=
    hrows.appendStored happend
  refine ⟨b', (Builder.appendScalar_eq rfl).trans happend, ?_⟩
  intro later
  obtain ⟨-, -, htype, new, -, hlast⟩ := Builder.holds_run hheld ht' later
  have hlists := htype ▸ lists_finish hlast
  rw [hrows.len, ← Scalar.seen_stored (.utf8 text)]
  apply hlists.value rows.length
  rw [List.append_assoc, List.getElem?_append_right le_rfl, Nat.sub_self]
  rfl

/-- A column of byte strings is relabelled as bytes or as text, any number of times, and stays the
same but for its label. A null is read as a null. Any other row has one string of its own: as bytes
it is read as just that, and as text if the string is well formed, and otherwise the error tells how
far it is. And a text is always read back from a column that it was put into. -/
theorem views_of_bytes :
    (∀ c : Column, c.Built → c.physical = .binary → ∃ strings : List Bytes,
      c.data = .ofList .binary strings ∧
      ∀ types : List DataType, (∀ t ∈ types, t.physical = .binary) →
        ∃ c', c.relabel types = .ok c' ∧ c' = { c with dataType := types.getLastD c.dataType } ∧
        ∀ i < c.len,
          (c.isNull? i = some true ∧ c'.value i = .ok .null) ∨
          c.isNull? i = some false ∧ ∃ bytes, strings[c.selection.row i]? = some bytes ∧
            (c'.dataType = .binary → c'.value i = .ok (.binary bytes)) ∧
            (c'.dataType = .utf8 → ReadsAsText bytes (c'.value i))) ∧
    ∀ b : Builder, b.Built → b.dataType = .utf8 → ∀ text, ∃ b',
      b.appendScalar (.utf8 text) = (.ok (), b') ∧
        ∀ later, (b'.run later).2.finish.value b.len = .ok (.utf8 text) := by
  refine ⟨?_, fun b hb ht text => value_of_text hb ht text⟩
  intro c hc hp
  obtain ⟨strings, hdata⟩ := exists_strings hc hp
  refine ⟨strings, hdata, ?_⟩
  intro types htypes
  have hrelabel : c.relabel types = .ok { c with dataType := types.getLastD c.dataType } :=
    relabel_eq fun t ht => (htypes t ht).trans hp.symm
  have hw := (hc.relabel hrelabel).wellFormed
  refine ⟨_, hrelabel, rfl, ?_⟩
  intro i hi
  obtain ⟨hvalid, hvalue⟩ := value_of_lt hw hi
  have hnull : c.isNull? i = some !(c.shows i) := congrArg (Option.map (!·)) hvalid
  cases hshows : c.shows i with
  | false =>
    refine .inl ⟨by rw [hnull, hshows]; rfl, hvalue.trans (if_neg ?_)⟩
    exact Bool.eq_false_iff.mp hshows
  | true => exact .inr ⟨by rw [hnull, hshows]; rfl, value_of_strings hw hdata hi hshows⟩

/-- The two halves of a letter in rows of their own, a null, and the letter as a whole. -/
def halves : Except Fault Column :=
  ofScalars .binary [.binary [0xC3], .binary [0xA9], .null, .binary [0xC3, 0xA9]]

/-- Side by side the halves are a letter, but neither of them is a text. -/
theorem views_of_bytes_halves :
    ∃ c c', halves = .ok c ∧ c.relabel [.utf8, .binary, .utf8] = .ok c' ∧ c'.data = c.data ∧
      ReadsAsText [0xC3] (c'.value 0) ∧ ReadsAsText [0xA9] (c'.value 1) ∧
      (c'.value 0).isOk = false ∧ c'.value 2 = .ok .null ∧
      ReadsAsText [0xC3, 0xA9] (c'.value 3) := by
  obtain ⟨hviews, -⟩ := views_of_bytes
  obtain ⟨c, hc⟩ : ∃ c, halves = .ok c := ⟨_, rfl⟩
  have hrefused : (((halves.bind (relabel [.utf8, .binary, .utf8])).bind (·.value 0))).isOk =
      false := by decide +kernel
  obtain ⟨strings, hdata, hviews⟩ := hviews c (built_ofScalars hc) (by cases hc; rfl)
  obtain ⟨c', hrelabel, rfl, hrows⟩ := hviews [.utf8, .binary, .utf8] (by simp)
  rw [hc, Except.bind, hrelabel, Except.bind] at hrefused
  have hlen : c.len = 4 := by
    cases hc
    rfl
  have hrow : ∀ (i : Nat) (bytes : Bytes), c.data.get? .binary i = some bytes → i < 4 →
      c.selection.row i = i → c.isNull? i = some false →
      ReadsAsText bytes (value { c with dataType := .utf8 } i) := by
    intro i bytes hget hi hsame hnull
    obtain ⟨hnull', -⟩ | ⟨-, bytes', hbytes, -, htext⟩ := hrows i (hlen ▸ hi)
    · cases hnull.symm.trans hnull'
    · rw [hsame, ← get?_ofList, ← hdata, hget] at hbytes
      cases hbytes
      exact htext rfl
  refine ⟨c, _, hc, hrelabel, rfl, ?_, ?_, hrefused, ?_, ?_⟩
  · cases hc
    exact hrow 0 _ rfl (by decide) rfl rfl
  · cases hc
    exact hrow 1 _ rfl (by decide) rfl rfl
  · obtain ⟨-, hnull⟩ | ⟨hnull, -⟩ := hrows 2 (hlen ▸ by decide)
    · exact hnull
    · cases hc
      cases hnull
  · cases hc
    exact hrow 3 _ rfl (by decide) rfl rfl

end Column

end Earliest
