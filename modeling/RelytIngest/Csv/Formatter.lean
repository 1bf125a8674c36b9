import RelytIngest.Arrow.RecordBatch
import RelytIngest.Foundations.MachineInteger

/-!
# The CSV formatter

The dialect the loader reads: every non-NULL value is quoted, NULL is a bare empty field, embedded
quotes are doubled and NUL characters dropped. `formattedText` is the text of a value between its
quotes for every type whose text needs no escaping, `writeCell` the field of a cell, `header` and
`formatRows` the lines of a file.

The date is computed by the civil-from-days algorithm with the truncating division of the source,
and the milliseconds of a timestamp are multiplied by 1000 in 64-bit arithmetic.
-/

set_option autoImplicit false
set_option relaxedAutoImplicit false

namespace RelytIngest

open Foundations

def TimeUnit.debug : TimeUnit → String
  | .second => "Second"
  | .millisecond => "Millisecond"
  | .microsecond => "Microsecond"
  | .nanosecond => "Nanosecond"

/-- The debug text of a data type. -/
def DataType.debug : DataType → String
  | .boolean => "Boolean"
  | .int8 => "Int8"
  | .int16 => "Int16"
  | .int32 => "Int32"
  | .int64 => "Int64"
  | .float32 => "Float32"
  | .float64 => "Float64"
  | .utf8 => "Utf8"
  | .largeUtf8 => "LargeUtf8"
  | .date32 => "Date32"
  | .timestamp unit none => "Timestamp(" ++ unit.debug ++ ", None)"
  | .timestamp unit (some timezone) =>
    "Timestamp(" ++ unit.debug ++ ", Some(\"" ++ String.ofList timezone ++ "\"))"
  | .decimal128 precision scale =>
    "Decimal128(" ++ toString precision ++ ", " ++ toString scale.value ++ ")"
  | .binary => "Binary"
  | .largeBinary => "LargeBinary"
  | .other debug => debug

/-! ### The text of one value -/

/-- The display text of a float. -/
def FloatDisplay.text : FloatDisplay → Text
  | .nan => "NaN".toList
  | .infinite negative => (if negative then ['-'] else []) ++ "inf".toList
  | .finite negative whole fraction =>
    (if negative then ['-'] else []) ++ decimal whole ++
      (if fraction = [] then [] else '.' :: fraction.map fun digit ↦ Nat.digitChar digit)

/-- A day of the proleptic Gregorian calendar. -/
structure CivilDate where
  year : Int
  month : Nat
  day : Nat
  deriving DecidableEq, Repr

/-- The civil-from-days algorithm of `write_date32`. -/
def civilFromDays (days : Int) : CivilDate :=
  let z := days + 719468
  let era := (if 0 ≤ z then z else z - 146096).tdiv 146097
  let doe := (z - era * 146097).toNat
  let yoe := (doe - doe / 1460 + doe / 36524 - doe / 146096) / 365
  let y := (yoe : Int) + era * 400
  let doy := doe - (365 * yoe + yoe / 4 - yoe / 100)
  let mp := (5 * doy + 2) / 153
  let d := doy - (153 * mp + 2) / 5 + 1
  let m := if mp < 10 then mp + 3 else mp - 9
  { year := if m ≤ 2 then y + 1 else y
    month := m
    day := d }

/-- `write_date32`. -/
def date32Text (days : Int) : Text :=
  let date := civilFromDays days
  paddedSigned 4 date.year ++ '-' :: paddedDecimal 2 date.month ++ '-' :: paddedDecimal 2 date.day

/-- The loop that drops the trailing zeros of a fraction and narrows its width. -/
def trimFraction : Nat → Nat → Nat × Nat
  | 0, frac => (frac, 0)
  | width + 1, frac => if frac % 10 = 0 then trimFraction width (frac / 10) else (frac, width + 1)

/-- The fraction of a second: nothing when it is zero, else its digits without trailing zeros. -/
def fractionText (frac : Nat) : Text :=
  if frac = 0 then []
  else '.' :: paddedDecimal (trimFraction 6 frac).2 (trimFraction 6 frac).1

/-- `write_timestamp_micros`. -/
def timestampText (micros : Int) (withOffset : Bool) : Text :=
  let days := micros / 86400000000
  let inDay := (micros % 86400000000).toNat
  let secs := inDay / 1000000
  let frac := inDay % 1000000
  date32Text (days.bmod (2 ^ 32)) ++ ' ' :: paddedDecimal 2 (secs / 3600) ++
    ':' :: paddedDecimal 2 (secs % 3600 / 60) ++ ':' :: paddedDecimal 2 (secs % 60) ++
    fractionText frac ++ (if withOffset then "+00".toList else [])

/-- The decimal point before the last `places` digits, with zeros in front where digits are
missing. -/
def placePoint (digits : Text) (places : Nat) : Text :=
  if places < digits.length then
    digits.take (digits.length - places) ++ '.' :: digits.drop (digits.length - places)
  else
    "0.".toList ++ List.replicate (places - digits.length) '0' ++ digits

/-- `write_decimal128`: a scale that is not positive appends zeros, the others place the point. -/
def decimal128Text (raw scale : Int) : Text :=
  if scale ≤ 0 then
    signedDecimal raw ++ List.replicate ((-scale).bmod (2 ^ 8)).toNat '0'
  else
    (if raw < 0 then ['-'] else []) ++ placePoint (decimal raw.natAbs) scale.toNat

/-- A hexadecimal digit from the nibble table. -/
def hexDigit (nibble : UInt8) : Char := Nat.digitChar nibble.toNat

def hexByte (byte : UInt8) : Text := [hexDigit (byte >>> 4), hexDigit (byte &&& 0x0f)]

/-- `write_hex_bytea`. -/
def hexText (bytes : List UInt8) : Text :=
  "\\x".toList ++ bytes.flatMap hexByte

/-- Milliseconds as the microseconds that are written, in 64-bit arithmetic. -/
def microsOfMillis (millis : Int) : Int := wrapI64 (millis * 1000)

/-- The text of a value for the types that are written between two quotes directly; text columns and
types outside the whitelist have none. -/
def formattedText : (dataType : DataType) → dataType.Value → Option Text
  | .boolean, value => some (if (show Bool from value) then ['t'] else ['f'])
  | .int8, (value : Signed 8) => some (signedDecimal value.value)
  | .int16, (value : Signed 16) => some (signedDecimal value.value)
  | .int32, (value : Signed 32) => some (signedDecimal value.value)
  | .int64, (value : Signed 64) => some (signedDecimal value.value)
  | .float32, (value : FloatDisplay) => some value.text
  | .float64, (value : FloatDisplay) => some value.text
  | .utf8, _ => none
  | .largeUtf8, _ => none
  | .date32, (value : Signed 32) => some (date32Text value.value)
  | .timestamp .microsecond timezone, (value : Signed 64) =>
    some (timestampText value.value timezone.isSome)
  | .timestamp .millisecond timezone, (value : Signed 64) =>
    some (timestampText (microsOfMillis value.value) timezone.isSome)
  | .timestamp .second _, _ => none
  | .timestamp .nanosecond _, _ => none
  | .decimal128 _ scale, (value : Signed 128) => some (decimal128Text value.value scale.value)
  | .binary, (value : List UInt8) => some (hexText value)
  | .largeBinary, (value : List UInt8) => some (hexText value)
  | .other _, _ => none

/-! ### Fields and lines -/

/-- The characters one character of a text is written as. -/
def quoteChar (c : Char) : Text :=
  if c = '\x00' then [] else if c = '"' then ['"', '"'] else [c]

/-- `quote_into`: a text without quotes and NULs is copied, any other goes through character by
character. -/
def quoteInto (value : Text) : Text :=
  '"' :: (if value.all fun c ↦ !(c == '"' || c == '\x00') then value
    else value.flatMap quoteChar) ++ ['"']

/-- `Col::write_cell`. -/
def writeCell : Cell → Text
  | ⟨_, none⟩ => []
  | ⟨.utf8, some (value : Text)⟩ => quoteInto value
  | ⟨.largeUtf8, some (value : Text)⟩ => quoteInto value
  | ⟨dataType, some value⟩ => '"' :: (formattedText dataType value).getD [] ++ ['"']

/-- The delimiter between the fields of a line. -/
def joinFields (delimiter : Char) (fields : List Text) : Text :=
  List.intercalate [delimiter] fields

/-- `CsvFormatter::header`. -/
def header (delimiter : Char) (columnNames : List Text) : Text :=
  joinFields delimiter (columnNames.map quoteInto) ++ ['\n']

/-- `Col::bind`: a column outside the whitelist cannot be written. -/
def bindColumn (column : Column) (name : Text) : Except Error Column :=
  if isSupportedType column.dataType then .ok column
  else .error (.unsupportedType (String.ofList name) column.dataType.debug)

/-- The columns of a batch, each bound in turn. -/
def bindColumns : List (Column × Field) → Except Error (List Column)
  | [] => .ok []
  | (column, field) :: rest => do
    let col ← bindColumn column field.name
    let cols ← bindColumns rest
    return col :: cols

/-- The line of one row. -/
def formatRow (delimiter : Char) (columns : List Column) (row : Nat) : Text :=
  joinFields delimiter (columns.map fun column ↦ writeCell (column.cell row)) ++ ['\n']

/-- `CsvFormatter::format_rows`: what is appended to the output. -/
def formatRows (delimiter : Char) (batch : RecordBatch) (rows : List Nat) : Except Error Text := do
  let columns ← bindColumns (batch.columns.zip batch.schema)
  return rows.flatMap (formatRow delimiter columns)

/-- The lines of the selected rows of each batch, in order. -/
def formatParts (delimiter : Char) : List (RecordBatch × List Nat) → Except Error Text
  | [] => .ok []
  | (batch, rows) :: rest => do
    let lines ← formatRows delimiter batch rows
    let later ← formatParts delimiter rest
    return lines ++ later

/-- The body of a file: the header, then the selected rows of each batch. -/
def writeBody (delimiter : Char) (columnNames : List Text)
    (parts : List (RecordBatch × List Nat)) : Except Error Text := do
  let lines ← formatParts delimiter parts
  return header delimiter columnNames ++ lines

/-- The check of `ClientConfig::validate` on the delimiter. -/
def validDelimiter (delimiter : Char) : Bool :=
  !(delimiter matches '"' | '\n' | '\r')

/-! ### The fast path of quoting -/

/-- The fast path writes what the slow one would. -/
theorem quoteInto_eq (value : Text) :
    quoteInto value = '"' :: value.flatMap quoteChar ++ ['"'] := by
  unfold quoteInto
  split_ifs with hplain
  · have hcopy : value.flatMap quoteChar = value := by
      induction value with
      | nil => rfl
      | cons c rest ih =>
        simp only [List.all_cons, Bool.and_eq_true, Bool.not_eq_true', Bool.or_eq_false_iff,
          beq_eq_false_iff_ne] at hplain
        rw [List.flatMap_cons, ih hplain.2, quoteChar, if_neg hplain.1.2, if_neg hplain.1.1]
        rfl
    rw [hcopy]
  · rfl

theorem bindColumns_eq_ok_iff (pairs : List (Column × Field)) (columns : List Column) :
    bindColumns pairs = .ok columns ↔
      (∀ pair ∈ pairs, isSupportedType pair.1.dataType) ∧ columns = pairs.map Prod.fst := by
  induction pairs generalizing columns with
  | nil => exact ⟨fun h ↦ ⟨by simp, (Except.ok.inj h).symm⟩, fun h ↦ h.2 ▸ rfl⟩
  | cons pair rest ih =>
    simp only [bindColumns, except_bind_eq_ok_iff, ih, List.forall_mem_cons, List.map_cons]
    constructor
    · rintro ⟨column, hbind, later, ⟨hrest, rfl⟩, hresult⟩
      unfold bindColumn at hbind
      split_ifs at hbind with hsupported
      obtain rfl := Except.ok.inj hbind
      exact ⟨⟨hsupported, hrest⟩, (Except.ok.inj hresult).symm⟩
    · rintro ⟨⟨hsupported, hrest⟩, rfl⟩
      exact ⟨pair.1, if_pos hsupported, _, ⟨hrest, rfl⟩, rfl⟩

/-- A batch is written when its columns are supported, and then row by row. -/
theorem formatRows_eq_ok_iff (delimiter : Char) (batch : RecordBatch) (rows : List Nat)
    (lines : Text) :
    formatRows delimiter batch rows = .ok lines ↔
      (∀ column ∈ batch.columns, isSupportedType column.dataType) ∧
        lines = rows.flatMap fun row ↦
          joinFields delimiter ((batch.row row).map writeCell) ++ ['\n'] := by
  have hzip : (batch.columns.zip batch.schema).map Prod.fst = batch.columns :=
    List.map_fst_zip (le_of_eq batch.length_columns)
  have hall : (∀ pair ∈ batch.columns.zip batch.schema, isSupportedType pair.1.dataType) ↔
      ∀ column ∈ batch.columns, isSupportedType column.dataType := by
    conv_rhs => rw [← hzip]
    rw [List.forall_mem_map]
  have hrow : formatRow delimiter batch.columns =
      fun row ↦ joinFields delimiter ((batch.row row).map writeCell) ++ ['\n'] := by
    funext row
    rw [formatRow, RecordBatch.row, List.map_map]
    rfl
  simp only [formatRows, except_bind_eq_ok_iff, bindColumns_eq_ok_iff, hall, hzip]
  constructor
  · rintro ⟨columns, ⟨hsupported, rfl⟩, hresult⟩
    obtain rfl := Except.ok.inj hresult
    exact ⟨hsupported, by rw [hrow]⟩
  · rintro ⟨hsupported, rfl⟩
    exact ⟨_, ⟨hsupported, rfl⟩, by rw [hrow]; rfl⟩

/-- The lines of all parts, when every column is supported. -/
theorem formatParts_eq_ok_iff (delimiter : Char) (parts : List (RecordBatch × List Nat))
    (lines : Text) :
    formatParts delimiter parts = .ok lines ↔
      (∀ part ∈ parts, ∀ column ∈ part.1.columns, isSupportedType column.dataType) ∧
        lines = (parts.flatMap fun part ↦ part.2.map part.1.row).flatMap fun row ↦
          joinFields delimiter (row.map writeCell) ++ ['\n'] := by
  induction parts generalizing lines with
  | nil => exact ⟨fun h ↦ ⟨by simp, (Except.ok.inj h).symm⟩, fun h ↦ h.2 ▸ rfl⟩
  | cons part rest ih =>
    simp only [formatParts, except_bind_eq_ok_iff, formatRows_eq_ok_iff, ih, List.forall_mem_cons,
      List.flatMap_cons, List.flatMap_append, List.flatMap_map]
    constructor
    · rintro ⟨front, ⟨hpart, rfl⟩, back, ⟨hrest, rfl⟩, hresult⟩
      exact ⟨⟨hpart, hrest⟩, (Except.ok.inj hresult).symm⟩
    · rintro ⟨⟨hpart, hrest⟩, rfl⟩
      exact ⟨_, ⟨hpart, rfl⟩, _, ⟨hrest, rfl⟩, rfl⟩

/-- A body is the header and the lines of its rows. -/
theorem writeBody_eq_ok_iff (delimiter : Char) (columnNames : List Text)
    (parts : List (RecordBatch × List Nat)) (body : Text) :
    writeBody delimiter columnNames parts = .ok body ↔
      (∀ part ∈ parts, ∀ column ∈ part.1.columns, isSupportedType column.dataType) ∧
        body = header delimiter columnNames ++
          (parts.flatMap fun part ↦ part.2.map part.1.row).flatMap fun row ↦
            joinFields delimiter (row.map writeCell) ++ ['\n'] := by
  simp only [writeBody, except_bind_eq_ok_iff, formatParts_eq_ok_iff]
  constructor
  · rintro ⟨lines, ⟨hall, rfl⟩, hresult⟩
    exact ⟨hall, (Except.ok.inj hresult).symm⟩
  · rintro ⟨hall, rfl⟩
    exact ⟨_, ⟨hall, rfl⟩, rfl⟩

end RelytIngest
