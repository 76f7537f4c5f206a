import TemporalMonitor.Csv.Writer
import TemporalMonitor.Proofs.Text

/-!
# Written records can be read

The reader of comma-separated values finds in what the writer has written the same records, and the
sheet that it delivers has the texts of their fields, trimmed (`Sheet.ofStream_written`).

The reader takes one byte at a time. As long as no record ends, all that counts is the scanner it
arrives at (`Scanner.afterAll?`), so a field is followed on its own: quoted or not, the scanner has
read its bytes and stands in front of what separates it from the next one (`HasRead`,
`exists_hasRead`). From there the fields of a record follow each other, and the records.

A line that is empty is no record. The only record that is written as one is that of a single empty
field, which is excluded; so is a first field that starts with a byte order mark.
-/

namespace TemporalMonitor.Csv

/-! ### Fields -/

namespace Scanner

/-- The scanner behind bytes, if no record ends in them. -/
def afterAll? (s : Scanner) : List UInt8 → Option Scanner
  | [] => some s
  | b :: bytes =>
    match s.step b with
    | (t, none) => t.afterAll? bytes
    | (_, some _) => none

theorem afterAll?_cons {s t : Scanner} {b : UInt8} (h : s.step b = (t, none))
    (bytes : List UInt8) : s.afterAll? (b :: bytes) = t.afterAll? bytes := by
  rw [afterAll?, h]

theorem afterAll?_append {s t : Scanner} {bytes : List UInt8} (h : s.afterAll? bytes = some t)
    (rest : List UInt8) : s.afterAll? (bytes ++ rest) = t.afterAll? rest := by
  induction bytes generalizing s with
  | nil =>
    cases h
    rfl
  | cons b bytes ih =>
    rw [List.cons_append]
    rcases hstep : s.step b with ⟨u, _ | fields⟩
    · rw [afterAll?_cons hstep] at h ⊢
      exact ih h
    · rw [afterAll?, hstep] at h
      cases h

end Scanner

/-- A byte that may stand in a field without quotes. -/
def isPlain (b : UInt8) : Bool := !(b == comma || b == quote || endsRecord b)

theorem isPlain_iff {b : UInt8} : isPlain b = true ↔
    b ≠ comma ∧ b ≠ quote ∧ b ≠ lineFeed ∧ b ≠ carriageReturn := by
  simp [isPlain, endsRecord, and_assoc]

theorem isPlain_of_mem {f : Field} (hf : needsQuotes f = false) : ∀ b ∈ f, isPlain b = true := by
  intro b hb
  rw [isPlain, Bool.eq_false_iff.2 (List.any_eq_false.1 hf b hb)]
  rfl

namespace Scanner

/-- A scanner in front of a field. -/
structure Starts (s : Scanner) : Prop where
  /-- It stands in front of a record, or behind a comma. -/
  place : s.place = .recordStart ∨ s.place = .fieldStart
  /-- Nothing of the field has been read. -/
  field : s.field = []

/-- A scanner that is in front of a field, and as `t` behind it. -/
structure HasRead (s : Scanner) (f : Field) (t : Scanner) : Prop where
  /-- The field has been read. -/
  field : t.field = f.reverse
  /-- The fields before it are kept. -/
  fields : t.fields = s.fields
  /-- The scanner has not moved, or stands behind a byte of the field or behind its quotes. -/
  place : (f = [] ∧ t.place = s.place) ∨ t.place = .unquoted ∨ t.place = .afterQuote

theorem plainByte_of_isPlain (s : Scanner) {b : UInt8} (hb : isPlain b = true) :
    s.plainByte b = (⟨.unquoted, b :: s.field, s.fields⟩, none) := by
  obtain ⟨hcomma, -, hline, hreturn⟩ := isPlain_iff.1 hb
  rw [plainByte, if_neg hcomma, if_neg hreturn, if_neg hline]
  rfl

theorem Starts.step_eq_firstByte {s : Scanner} (hs : s.Starts) {b : UInt8}
    (hb : s.place = .fieldStart ∨ endsRecord b = false) : s.step b = s.firstByte b := by
  rw [step]
  rcases hs.place with h | h
  · rcases hb with hb | hb
    · rw [hb] at h
      cases h
    · simp [h, hb]
  · simp [h]

theorem afterAll?_unquoted {f : Field} (hf : ∀ b ∈ f, isPlain b = true) (read : List UInt8)
    (fields : List Field) :
    (⟨.unquoted, read, fields⟩ : Scanner).afterAll? f =
      some ⟨.unquoted, f.reverse ++ read, fields⟩ := by
  induction f generalizing read with
  | nil => rfl
  | cons b f ih =>
    rw [List.forall_mem_cons] at hf
    have hstep : (⟨.unquoted, read, fields⟩ : Scanner).step b =
        (⟨.unquoted, b :: read, fields⟩, none) := plainByte_of_isPlain _ hf.1
    rw [afterAll?_cons hstep, ih hf.2, List.reverse_cons, List.append_assoc]
    rfl

theorem afterAll?_doubleQuotes (f : Field) (read : List UInt8) (fields : List Field) :
    (⟨.quoted, read, fields⟩ : Scanner).afterAll? (doubleQuotes f) =
      some ⟨.quoted, f.reverse ++ read, fields⟩ := by
  induction f generalizing read with
  | nil => rfl
  | cons b f ih =>
    rw [doubleQuotes, List.reverse_cons, List.append_assoc]
    by_cases hb : b = quote
    · subst hb
      exact ih (quote :: read)
    · have hstep : (⟨.quoted, read, fields⟩ : Scanner).step b =
          (⟨.quoted, b :: read, fields⟩, none) := if_neg hb
      rw [if_neg hb, afterAll?_cons hstep]
      exact ih (b :: read)

/-- **A written field is read as it is**, in quotes or not. -/
theorem Starts.exists_hasRead {s : Scanner} (hs : s.Starts) (f : Field) :
    ∃ t, s.afterAll? (closedField f) = some t ∧ s.HasRead f t := by
  rw [closedField]
  cases hf : needsQuotes f with
  | true =>
    have hopen : s.step quote = (⟨.quoted, [], s.fields⟩, none) := by
      rw [hs.step_eq_firstByte (.inr rfl), firstByte, if_pos rfl, hs.field]
    refine ⟨⟨.afterQuote, f.reverse, s.fields⟩, ?_, rfl, rfl, .inr (.inr rfl)⟩
    rw [if_pos rfl, List.cons_append, afterAll?_cons hopen,
      afterAll?_append (afterAll?_doubleQuotes f [] s.fields), List.append_nil]
    rfl
  | false =>
    have hplain := isPlain_of_mem hf
    rw [if_neg Bool.false_ne_true]
    cases f with
    | nil => exact ⟨s, rfl, hs.field, rfl, .inl ⟨rfl, rfl⟩⟩
    | cons b f =>
      rw [List.forall_mem_cons] at hplain
      obtain ⟨-, hquote, hline, hreturn⟩ := isPlain_iff.1 hplain.1
      have hends : endsRecord b = false := by simp [endsRecord, hline, hreturn]
      have hstep : s.step b = (⟨.unquoted, [b], s.fields⟩, none) := by
        rw [hs.step_eq_firstByte (.inr hends), firstByte, if_neg hquote,
          plainByte_of_isPlain s hplain.1, hs.field]
      refine ⟨⟨.unquoted, (b :: f).reverse, s.fields⟩, ?_, rfl, rfl, .inr (.inl rfl)⟩
      rw [afterAll?_cons hstep, afterAll?_unquoted hplain.2, List.reverse_cons]

/-- What separates fields and records is not part of the field before it. -/
theorem HasRead.step_eq_plainByte {s t : Scanner} {f : Field} (h : s.HasRead f t) (hs : s.Starts)
    {b : UInt8} (hquote : b ≠ quote) (hb : s.place = .fieldStart ∨ f ≠ [] ∨ endsRecord b = false) :
    t.step b = t.plainByte b := by
  rcases h.place with ⟨hnil, hplace⟩ | hplace | hplace
  · have ht : t.Starts := ⟨hplace ▸ hs.place, h.field.trans (by rw [hnil, List.reverse_nil])⟩
    rw [ht.step_eq_firstByte, firstByte, if_neg hquote]
    rcases hb with hb | hb | hb
    · exact .inl (hplace.trans hb)
    · exact absurd hnil hb
    · exact .inr hb
  · rw [step, hplace]
  · rw [step, hplace]
    exact if_neg hquote

theorem HasRead.step_comma {s t : Scanner} {f : Field} (h : s.HasRead f t) (hs : s.Starts) :
    t.step comma = (⟨.fieldStart, [], f :: s.fields⟩, none) := by
  rw [h.step_eq_plainByte hs (by decide) (.inr (.inr rfl)), plainByte, if_pos rfl, h.field,
    h.fields, List.reverse_reverse]

theorem HasRead.step_lineFeed {s t : Scanner} {f : Field} (h : s.HasRead f t) (hs : s.Starts)
    (hf : s.place = .fieldStart ∨ f ≠ []) :
    t.step lineFeed = ({}, some (s.fields.reverse ++ [f])) := by
  rw [h.step_eq_plainByte hs (by decide) (hf.imp_right .inl), plainByte, if_neg (by decide),
    if_neg (by decide), if_pos rfl, record, h.field, h.fields, List.reverse_reverse,
    List.reverse_cons]

end Scanner

/-! ### Records -/

/-- A record that is not written as an empty line. -/
def IsVisible (fields : List Field) : Prop := fields ≠ [] ∧ fields ≠ [[]]

theorem scan_of_afterAll? {s t : Scanner} {bytes : List UInt8} (h : s.afterAll? bytes = some t)
    (ended : Bool) (start here : Position) (rest : List UInt8) :
    ∃ there, scan ended start here s (bytes ++ rest) = scan ended start there t rest := by
  induction bytes generalizing s here with
  | nil =>
    cases h
    exact ⟨here, rfl⟩
  | cons b bytes ih =>
    rcases hstep : s.step b with ⟨u, _ | fields⟩
    · rw [Scanner.afterAll?_cons hstep] at h
      obtain ⟨there, hthere⟩ := ih h (here.afterByte b)
      refine ⟨there, ?_⟩
      rw [List.cons_append, scan, hstep]
      exact hthere
    · rw [Scanner.afterAll?, hstep] at h
      cases h

/-- The fields of a record from one of them on, followed by anything. -/
theorem scan_closedRecord_append {s : Scanner} (hs : s.Starts) {fields : List Field}
    (hne : fields ≠ []) (hfields : s.place = .fieldStart ∨ fields ≠ [[]]) (ended : Bool)
    (start here : Position) (rest : List UInt8) :
    ∃ next, scan ended start here s (closedRecord fields ++ rest) =
      ⟨start, s.fields.reverse ++ fields⟩ :: scan ended next next {} rest := by
  induction fields generalizing s here with
  | nil => exact absurd rfl hne
  | cons f fields ih =>
    obtain ⟨t, hafter, hread⟩ := hs.exists_hasRead f
    cases fields with
    | nil =>
      have hstep := hread.step_lineFeed hs (hfields.imp_right fun h hf ↦ h (hf ▸ rfl))
      obtain ⟨there, hscan⟩ := scan_of_afterAll? hafter ended start here (lineFeed :: rest)
      refine ⟨(there.afterByte lineFeed).afterRecord, ?_⟩
      rw [closedRecord, List.append_assoc, List.singleton_append, hscan, scan, hstep]
    | cons g fields =>
      have hstep := hread.step_comma hs
      obtain ⟨there, hscan⟩ := scan_of_afterAll? hafter ended start here
        (comma :: closedRecord (g :: fields) ++ rest)
      obtain ⟨next, hnext⟩ := ih (s := ⟨.fieldStart, [], f :: s.fields⟩) ⟨.inr rfl, rfl⟩
        (List.cons_ne_nil g fields) (.inl rfl) (there.afterByte comma)
      refine ⟨next, ?_⟩
      rw [closedRecord.eq_3 f (g :: fields) (List.cons_ne_nil g fields), List.append_assoc, hscan,
        List.cons_append, scan, hstep]
      simpa using hnext

/-- **Written records are found again**, and nothing else is. -/
theorem map_fields_scan (records : List (List Field)) (h : ∀ r ∈ records, IsVisible r)
    (ended : Bool) (start here : Position) :
    (scan ended start here {} (records.flatMap closedRecord)).map (·.fields) = records := by
  induction records generalizing start here with
  | nil => cases ended <;> rfl
  | cons r records ih =>
    rw [List.forall_mem_cons] at h
    obtain ⟨next, hscan⟩ := scan_closedRecord_append (s := {}) ⟨.inl rfl, rfl⟩ h.1.1 (.inr h.1.2)
      ended start here (records.flatMap closedRecord)
    rw [List.flatMap_cons, hscan, List.map_cons, ih h.2]
    rfl

/-! ### Sheets -/

theorem texts_map_encode (start : Position) (i : Nat) (cells : List (List Char)) :
    texts start i (cells.map Text.Utf8.encode) = .ok (cells.map String.ofList) := by
  induction cells generalizing i with
  | nil => rfl
  | cons cell cells ih =>
    rw [List.map_cons, texts, Text.Utf8.decode_encode]
    simp only [ih, List.map_cons]
    rfl

theorem texts_map_ofString (start : Position) (cells : List String) :
    texts start 0 (cells.map Text.Utf8.ofString) = .ok cells := by
  have h := texts_map_encode start 0 (cells.map String.toList)
  rw [List.map_map, List.map_map] at h
  exact h.trans (by simp [Function.comp_def])

theorem texts_map_trimBytes (start : Position) (cells : List String) :
    texts start 0 ((cells.map Text.Utf8.ofString).map trimBytes) =
      .ok (cells.map fun cell ↦ String.ofList (Text.trimBy isBlankAscii cell.toList)) := by
  have h := texts_map_encode start 0 (cells.map fun cell ↦ Text.trimBy isBlankAscii cell.toList)
  simpa [Function.comp_def, trimBytes_ofString] using h

/-- A record of texts names columns by the texts, trimmed. -/
theorem RawRecord.names_of_fields {r : RawRecord} {cells : List String}
    (h : r.fields = cells.map Text.Utf8.ofString) : r.names = .ok (cells.map Text.trim) := by
  rw [names, h, texts_map_ofString]
  rfl

/-- A record of texts is a row of the texts, trimmed. -/
theorem RawRecord.row_of_fields {r : RawRecord} {cells : List String}
    (h : r.fields = cells.map Text.Utf8.ofString) :
    r.row cells.length = .ok (cells.map Text.trim) := by
  rw [row, h, if_pos (List.length_map _), texts_map_trimBytes]
  simp [Except.map, Function.comp_def, trim_trimBy]

theorem map_row_of_map_fields {records : List RawRecord} {rows : List (List String)} {width : Nat}
    (h : records.map (·.fields) = rows.map (·.map Text.Utf8.ofString))
    (hlength : ∀ row ∈ rows, row.length = width) :
    records.map (·.row width) = rows.map fun row ↦ .ok (row.map Text.trim) := by
  induction rows generalizing records with
  | nil => rw [List.map_eq_nil_iff.1 h, List.map_nil, List.map_nil]
  | cons row rows ih =>
    obtain ⟨r, records, rfl, hr, hrecords⟩ := List.map_eq_cons_iff.1 h
    rw [List.forall_mem_cons] at hlength
    rw [List.map_cons, List.map_cons, ih hrecords hlength.2, ← hlength.1,
      RawRecord.row_of_fields hr]

/-- **Cells that are written are read again, trimmed.** -/
theorem Sheet.ofStream_written {header : List String} {rows : List (List String)}
    (hlength : ∀ row ∈ rows, row.length = header.length)
    (hvisible : ∀ row ∈ header :: rows, IsVisible (row.map Text.Utf8.ofString)) {bytes : List UInt8}
    (hbytes : bytes = (header :: rows).flatMap fun row ↦ closedRecord (row.map Text.Utf8.ofString))
    (hmark : byteOrderMark.isPrefixOf bytes = false) :
    ofStream ⟨bytes, none⟩ =
      .ok ⟨header.map Text.trim, rows.map fun row ↦ .ok (row.map Text.trim)⟩ := by
  have hscan := map_fields_scan ((header :: rows).map (·.map Text.Utf8.ofString))
    (by simpa using hvisible) true {} {}
  rw [List.flatMap_map, ← hbytes] at hscan
  obtain ⟨first, rest, hrecords, hfirst, hrest⟩ := List.map_eq_cons_iff.1 hscan
  have hraw : rawRecords ⟨bytes, none⟩ = first :: rest := by
    rw [rawRecords, ← hrecords]
    simp [hmark]
  have hwidth : first.fields.length = header.length := by rw [hfirst, List.length_map]
  rw [ofStream, hraw]
  simp only [RawRecord.names_of_fields hfirst, Except.map, hwidth,
    map_row_of_map_fields hrest hlength]
  simp

end TemporalMonitor.Csv
