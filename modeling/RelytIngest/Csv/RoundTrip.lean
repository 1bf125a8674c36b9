import RelytIngest.Csv.Formatter
import RelytIngest.Csv.Reader
import Mathlib.Data.List.Forall2

/-!
# The CSV round trip

What the formatter writes, the reference reader reads back: `readCsv_writeBody` says that the body
of a file reads as its header record and one record for each selected row, in order, with one field
for each column. A NULL cell reads as NULL, a text cell as its value without NUL characters, any
other cell as the text its formatter wrote (`cellField`).

The induction is over characters inside a field (`readAll_quoteInto`), over the fields of a line
(`readAll_line`) and over the lines. It needs a line to have a field: a header of no columns reads
as a record of one NULL (`readCsv_header_no_columns`).
-/

set_option autoImplicit false
set_option relaxedAutoImplicit false

namespace RelytIngest

open Foundations

/-- A text without its NUL characters. -/
def stripNul (value : Text) : Text := value.filter fun c ↦ c != '\x00'

/-- The field a cell is read back as. -/
def cellField : Cell → Option Text
  | ⟨_, none⟩ => none
  | ⟨.utf8, some (value : Text)⟩ => some (stripNul value)
  | ⟨.largeUtf8, some (value : Text)⟩ => some (stripNul value)
  | ⟨dataType, some value⟩ => formattedText dataType value

/-! ### No formatted text contains a quote -/

theorem quote_not_mem_floatText (value : FloatDisplay) : '"' ∉ value.text := by
  cases value with
  | nan => decide
  | infinite negative => cases negative <;> decide
  | finite negative whole fraction =>
    simp only [FloatDisplay.text, List.mem_append, not_or]
    refine ⟨⟨by split_ifs <;> simp, not_mem_decimal (by decide)⟩, ?_⟩
    split_ifs
    · simp
    · simp

/-- A date is written with digits and minus signs only. -/
theorem not_mem_date32Text {c : Char} (hc : c.isDigit = false) (hminus : c ≠ '-') (days : Int) :
    c ∉ date32Text days := by
  simp [date32Text, not_mem_paddedSigned hc hminus, not_mem_paddedDecimal hc, hminus]

theorem quote_not_mem_timestampText (micros : Int) (withOffset : Bool) :
    '"' ∉ timestampText micros withOffset := by
  simp only [timestampText, List.mem_append, List.mem_cons, not_or]
  refine ⟨⟨⟨⟨⟨not_mem_date32Text (by decide) (by decide) _, by decide, ?_⟩, by decide, ?_⟩,
    by decide, ?_⟩, ?_⟩, ?_⟩
  · exact not_mem_paddedDecimal (by decide)
  · exact not_mem_paddedDecimal (by decide)
  · exact not_mem_paddedDecimal (by decide)
  · unfold fractionText
    split_ifs <;> simp [not_mem_paddedDecimal]
  · split_ifs <;> simp

theorem quote_not_mem_decimal128Text (raw scale : Int) : '"' ∉ decimal128Text raw scale := by
  have hdigits : '"' ∉ decimal raw.natAbs := not_mem_decimal (by decide)
  have htake := fun count ↦ mt (List.mem_of_mem_take (i := count)) hdigits
  have hdrop := fun count ↦ mt (List.mem_of_mem_drop (i := count)) hdigits
  have hpoint : '"' ∉ placePoint (decimal raw.natAbs) scale.toNat := by
    unfold placePoint
    split_ifs <;> simp [hdigits, htake, hdrop]
  unfold decimal128Text
  split_ifs <;> simp [not_mem_signedDecimal, hpoint]

theorem quote_not_mem_hexText (bytes : List UInt8) : '"' ∉ hexText bytes := by
  simp [hexText, hexByte, hexDigit]

theorem quote_not_mem_formattedText {dataType : DataType} {value : dataType.Value} {text : Text}
    (hformat : formattedText dataType value = some text) : '"' ∉ text := by
  cases dataType with
  | boolean =>
    obtain rfl := Option.some.inj hformat
    split_ifs <;> decide
  | int8 | int16 | int32 | int64 =>
    exact Option.some.inj hformat ▸ not_mem_signedDecimal (by decide) (by decide)
  | float32 | float64 => exact Option.some.inj hformat ▸ quote_not_mem_floatText _
  | date32 => exact Option.some.inj hformat ▸ not_mem_date32Text (by decide) (by decide) _
  | timestamp unit timezone =>
    cases unit with
    | millisecond | microsecond =>
      exact Option.some.inj hformat ▸ quote_not_mem_timestampText _ _
    | second | nanosecond => simp [formattedText] at hformat
  | decimal128 precision scale => exact Option.some.inj hformat ▸ quote_not_mem_decimal128Text _ _
  | binary | largeBinary => exact Option.some.inj hformat ▸ quote_not_mem_hexText _
  | utf8 | largeUtf8 | other => simp [formattedText] at hformat

/-! ### One field -/

variable {delimiter : Char}

/-- From the start of a field the text is read up to a place whose field is `field`. -/
def ReadsAs (delimiter : Char) (text : Text) (field : Option Text) : Prop :=
  ∀ reader : Reader, reader.place = .fieldStart → ∃ place : Place, place.field = some field ∧
    reader.readAll delimiter text = some { reader with place := place }

/-- Inside quotes the escaped characters read as the text without NULs. -/
theorem readAll_escaped (reader : Reader) {text : Text} (hdelimiter : delimiter ≠ '"')
    (hplace : reader.place = .quoted text) (value : Text) :
    reader.readAll delimiter (value.flatMap quoteChar) =
      some { reader with place := .quoted (text ++ stripNul value) } := by
  induction value generalizing reader text with
  | nil =>
    rw [stripNul, List.filter_nil, List.append_nil, ← hplace]
    rfl
  | cons c rest ih =>
    by_cases hnul : c = '\x00'
    · have hstrip : stripNul (c :: rest) = stripNul rest := by simp [stripNul, hnul]
      rw [List.flatMap_cons, quoteChar, if_pos hnul, List.nil_append, hstrip]
      exact ih reader hplace
    have hstrip : stripNul (c :: rest) = c :: stripNul rest := by simp [stripNul, hnul]
    have hchar : reader.readAll delimiter (quoteChar c) =
        some { reader with place := .quoted (text ++ [c]) } := by
      by_cases hquote : c = '"'
      · rw [quoteChar, if_neg hnul, if_pos hquote, hquote]
        exact Reader.readAll_quoted_double hdelimiter hplace
      · rw [quoteChar, if_neg hnul, if_neg hquote]
        exact Reader.readAll_quoted_plain _ _ hplace (by simpa using Ne.symm hquote)
    rw [List.flatMap_cons, Reader.readAll_append hchar, hstrip]
    refine (ih { reader with place := .quoted (text ++ [c]) } rfl).trans ?_
    simp

/-- A text between quotes is read when its inside is. -/
theorem readsAs_quoted {inside value : Text} (hdelimiter : delimiter ≠ '"')
    (hinside : ∀ reader : Reader, reader.place = .quoted [] →
      reader.readAll delimiter inside = some { reader with place := .quoted value }) :
    ReadsAs delimiter ('"' :: inside ++ ['"']) (some value) := by
  intro reader hplace
  have hopen : reader.readAll delimiter ['"'] = some { reader with place := .quoted [] } := by
    rw [Reader.readAll_singleton, Reader.read_openQuote hdelimiter hplace]
  refine ⟨.afterQuote value, rfl, ?_⟩
  rw [List.cons_append, ← List.singleton_append, Reader.readAll_append hopen,
    Reader.readAll_append (hinside _ rfl), Reader.readAll_singleton, Reader.read_closeQuote rfl]

theorem readsAs_quoteInto (hdelimiter : delimiter ≠ '"') (value : Text) :
    ReadsAs delimiter (quoteInto value) (some (stripNul value)) := by
  rw [quoteInto_eq]
  refine readsAs_quoted hdelimiter fun reader hplace ↦ ?_
  have hread := readAll_escaped reader hdelimiter hplace value
  rwa [List.nil_append] at hread

theorem readsAs_formatted (hdelimiter : delimiter ≠ '"') {text : Text} (hplain : '"' ∉ text) :
    ReadsAs delimiter ('"' :: text ++ ['"']) (some text) := by
  refine readsAs_quoted hdelimiter fun reader hplace ↦ ?_
  have hread := Reader.readAll_quoted_plain delimiter reader hplace hplain
  rwa [List.nil_append] at hread

/-- A written value of a type with a formatter is its text between quotes. -/
theorem writeCell_formatted {dataType : DataType} {value : dataType.Value} {text : Text}
    (hformat : formattedText dataType value = some text) :
    writeCell ⟨dataType, some value⟩ = '"' :: text ++ ['"'] ∧
      cellField ⟨dataType, some value⟩ = some text := by
  cases dataType <;> simp_all [writeCell, cellField, formattedText]

/-- A supported type has a formatter or is a text type. -/
theorem formattedText_of_supported {dataType : DataType} (hsupported : isSupportedType dataType)
    (value : dataType.Value) :
    (∃ text, formattedText dataType value = some text) ∨
      ∃ text : Text, writeCell ⟨dataType, some value⟩ = quoteInto text ∧
        cellField ⟨dataType, some value⟩ = some (stripNul text) := by
  cases dataType with
  | utf8 | largeUtf8 => exact Or.inr ⟨value, rfl, rfl⟩
  | timestamp unit timezone =>
    cases unit with
    | millisecond | microsecond => exact Or.inl ⟨_, rfl⟩
    | second | nanosecond => exact Bool.noConfusion hsupported
  | other debug => exact Bool.noConfusion hsupported
  | _ => exact Or.inl ⟨_, rfl⟩

/-- The field written for a cell is read back as the cell's field. -/
theorem readsAs_writeCell (hdelimiter : delimiter ≠ '"') {cell : Cell}
    (hsupported : isSupportedType cell.1) :
    ReadsAs delimiter (writeCell cell) (cellField cell) := by
  obtain ⟨dataType, value⟩ := cell
  cases value with
  | none =>
    have hnull : cellField ⟨dataType, none⟩ = none := by cases dataType <;> rfl
    have hempty : writeCell ⟨dataType, none⟩ = [] := by cases dataType <;> rfl
    rw [hnull, hempty]
    intro reader hplace
    exact ⟨.fieldStart, rfl, by rw [← hplace]; rfl⟩
  | some value =>
    rcases formattedText_of_supported hsupported value with ⟨text, hformat⟩ | ⟨text, hwrite, hread⟩
    · obtain ⟨hwrite, hread⟩ := writeCell_formatted hformat
      rw [hwrite, hread]
      exact readsAs_formatted hdelimiter (quote_not_mem_formattedText hformat)
    · rw [hwrite, hread]
      exact readsAs_quoteInto hdelimiter text

/-! ### Lines and files -/

theorem joinFields_cons_cons (first second : Text) (rest : List Text) :
    joinFields delimiter (first :: second :: rest) =
      first ++ delimiter :: joinFields delimiter (second :: rest) := by
  simp [joinFields, List.intercalate]

/-- A line of at least one field reads as the record of its fields. -/
theorem readAll_line (hdelimiter : delimiter ≠ '\n') {texts : List Text}
    {fields : List (Option Text)} (hreads : List.Forall₂ (ReadsAs delimiter) texts fields)
    (hne : texts ≠ []) (reader : Reader) (hplace : reader.place = .fieldStart) :
    reader.readAll delimiter (joinFields delimiter texts ++ ['\n']) =
      some (Reader.atRecord (reader.records ++ [reader.fields ++ fields])) := by
  induction hreads generalizing reader with
  | nil => exact absurd rfl hne
  | @cons text field restTexts restFields hfirst hrest ih =>
    obtain ⟨place, hfield, hread⟩ := hfirst reader hplace
    cases hrest with
    | nil =>
      rw [joinFields, List.intercalate_singleton, Reader.readAll_append hread,
        Reader.readAll_singleton, Reader.read_lineEnd hdelimiter hfield]
      rfl
    | @cons text' field' restTexts' restFields' hsecond hrest' =>
      have hdelim : Reader.readAll delimiter { reader with place := place } [delimiter] =
          some (Reader.endField { reader with place := place } field) := by
        rw [Reader.readAll_singleton, Reader.read_delimiter hfield]
      rw [joinFields_cons_cons, List.append_assoc, Reader.readAll_append hread,
        List.cons_append, ← List.singleton_append, Reader.readAll_append hdelim,
        ih (List.cons_ne_nil _ _) _ rfl]
      simp [Reader.endField]

/-- Lines read one after the other, each as one record. -/
theorem readAll_lines (hdelimiter : delimiter ≠ '\n') {α : Type} (texts : α → List Text)
    (fields : α → List (Option Text)) (items : List α)
    (hreads : ∀ item ∈ items, List.Forall₂ (ReadsAs delimiter) (texts item) (fields item))
    (hne : ∀ item ∈ items, texts item ≠ []) (records : List (List (Option Text))) :
    (Reader.atRecord records).readAll delimiter
        (items.flatMap fun item ↦ joinFields delimiter (texts item) ++ ['\n']) =
      some (Reader.atRecord (records ++ items.map fields)) := by
  induction items generalizing records with
  | nil =>
    rw [List.map_nil, List.append_nil]
    rfl
  | cons item rest ih =>
    rw [List.forall_mem_cons] at hreads hne
    have hline := readAll_line hdelimiter hreads.1 hne.1 (Reader.atRecord records) rfl
    rw [List.flatMap_cons, Reader.readAll_append hline, ih hreads.2 hne.2]
    simp [Reader.atRecord]

theorem forall₂_map_map {α : Type} {R : Text → Option Text → Prop} (write : α → Text)
    (field : α → Option Text) (items : List α) (hR : ∀ item ∈ items, R (write item) (field item)) :
    List.Forall₂ R (items.map write) (items.map field) := by
  simp only [List.forall₂_map_left_iff, List.forall₂_map_right_iff, List.forall₂_same]
  exact hR

theorem validDelimiter_iff (delimiter : Char) :
    validDelimiter delimiter ↔ delimiter ≠ '"' ∧ delimiter ≠ '\n' ∧ delimiter ≠ '\r' := by
  unfold validDelimiter
  split <;> simp_all

/-- Reading back a body: one header record, then one record for each selected row, in order, with
one field for each column. -/
theorem readCsv_writeBody (delimiter : Char) (columnNames : List Text)
    (parts : List (RecordBatch × List Nat)) (body : Text) (hdelimiter : validDelimiter delimiter)
    (hnames : columnNames ≠ []) (hcolumns : ∀ part ∈ parts, part.1.columns ≠ [])
    (hbody : writeBody delimiter columnNames parts = .ok body) :
    readCsv delimiter body =
      some ((columnNames.map fun name ↦ some (stripNul name)) ::
        parts.flatMap fun part ↦ part.2.map fun row ↦ (part.1.row row).map cellField) := by
  obtain ⟨hquote, hline, -⟩ := (validDelimiter_iff delimiter).mp hdelimiter
  obtain ⟨hsupported, rfl⟩ := (writeBody_eq_ok_iff _ _ _ _).mp hbody
  have hheader : (Reader.atRecord []).readAll delimiter (header delimiter columnNames) =
      some (Reader.atRecord [columnNames.map fun name ↦ some (stripNul name)]) := by
    refine readAll_line hline (forall₂_map_map _ _ _ fun name _ ↦ readsAs_quoteInto hquote name)
      (by simpa using hnames) _ rfl
  have hrows : ∀ row ∈ parts.flatMap fun part ↦ part.2.map part.1.row,
      row ≠ [] ∧ ∀ cell ∈ row, isSupportedType cell.1 := by
    intro row hrow
    obtain ⟨part, hpart, hselected⟩ := List.mem_flatMap.mp hrow
    obtain ⟨index, -, rfl⟩ := List.mem_map.mp hselected
    refine ⟨by simpa [RecordBatch.row] using hcolumns part hpart, fun cell hcell ↦ ?_⟩
    obtain ⟨column, hcolumn, rfl⟩ := List.mem_map.mp hcell
    exact hsupported part hpart column hcolumn
  have hlines := readAll_lines hline (fun row ↦ row.map writeCell) (fun row ↦ row.map cellField) _
    (fun row hrow ↦ forall₂_map_map _ _ _ fun cell hcell ↦
      readsAs_writeCell hquote ((hrows row hrow).2 cell hcell))
    (fun row hrow ↦ by simpa using (hrows row hrow).1)
    [columnNames.map fun name ↦ some (stripNul name)]
  rw [readCsv, Reader.readAll_append hheader, hlines, Option.bind_some]
  simp [Reader.finish, Reader.atRecord, List.map_flatMap, Function.comp_def]

/-- A batch of one text column with a NULL, a quote and a line end in its values. -/
def sampleTextBatch : RecordBatch where
  schema := [⟨"s".toList, .utf8⟩]
  columns := [⟨.utf8, [some "a\"b".toList, none, some "x\n\x00y".toList]⟩]
  numRows := 3
  types := rfl
  lengths := by simp

/-- The rows of such a batch read back in the selected order. -/
theorem readCsv_writeBody_sample :
    readCsv ',' "\"s\"\n\n\"a\"\"b\"\n\"x\ny\"\n".toList =
      some [[some "s".toList], [none], [some "a\"b".toList], [some "x\ny".toList]] :=
  readCsv_writeBody ',' ["s".toList] [(sampleTextBatch, [1, 0]), (sampleTextBatch, [2])] _
    (by decide) (by decide) (by simp [sampleTextBatch]) (by decide)

/-- A header of no columns is an empty line, which reads as a record of one NULL: there is one field
although there is no column. -/
theorem readCsv_header_no_columns :
    ¬ ∀ (delimiter : Char) (columnNames : List Text) (parts : List (RecordBatch × List Nat))
      (body : Text), validDelimiter delimiter → writeBody delimiter columnNames parts = .ok body →
        readCsv delimiter body =
          some ((columnNames.map fun name ↦ some (stripNul name)) ::
            parts.flatMap fun part ↦ part.2.map fun row ↦ (part.1.row row).map cellField) := by
  intro hclaim
  have hempty := hclaim ',' [] [] ['\n'] (by decide) (by decide)
  revert hempty
  decide

end RelytIngest
