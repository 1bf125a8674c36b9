import RelytIngest.Arrow.RecordBatch
import RelytIngest.Csv.Formatter
import RelytIngest.Foundations.PrefixCode

/-!
# Key bytes

The byte key the dedup pass compares rows by: for each key column a tag, and for a value its bytes,
fixed-width or length-prefixed, and a separator. `keyBytes_injective` says that rows with keys of
the same types have the same bytes exactly when they have the same key values, as long as no
variable-length value is 2^32 bytes or longer, where the 32-bit length prefix would wrap.
-/

set_option autoImplicit false
set_option relaxedAutoImplicit false

namespace RelytIngest

open Foundations

/-- The UTF-8 bytes of a text. -/
def textBytes (value : Text) : List UInt8 := value.flatMap String.utf8EncodeChar

/-- Bytes behind their length as a 32-bit number. -/
def withLength (bytes : List UInt8) : List UInt8 := bigEndian 4 bytes.length ++ bytes

/-- The bytes `append_value_bytes` appends for a value, for the types that can be part of a key. -/
def valueBytes : (dataType : DataType) → dataType.Value → Option (List UInt8)
  | .boolean, value => some [if (show Bool from value) then 1 else 0]
  | .int8, (value : Signed 8) => some (bigEndianSigned 8 value.value)
  | .int16, (value : Signed 16) => some (bigEndianSigned 8 value.value)
  | .int32, (value : Signed 32) => some (bigEndianSigned 8 value.value)
  | .int64, (value : Signed 64) => some (bigEndianSigned 8 value.value)
  | .date32, (value : Signed 32) => some (bigEndianSigned 8 value.value)
  | .timestamp .microsecond _, (value : Signed 64) => some (bigEndianSigned 8 value.value)
  | .timestamp .millisecond _, (value : Signed 64) => some (bigEndianSigned 8 value.value)
  | .decimal128 _ _, (value : Signed 128) => some (bigEndianSigned 16 value.value)
  | .utf8, (value : Text) => some (withLength (textBytes value))
  | .largeUtf8, (value : Text) => some (withLength (textBytes value))
  | .binary, (value : List UInt8) => some (withLength value)
  | .largeBinary, (value : List UInt8) => some (withLength value)
  | .timestamp .second _, _ => none
  | .timestamp .nanosecond _, _ => none
  | .float32, _ => none
  | .float64, _ => none
  | .other _, _ => none

/-- `append_value_bytes`. -/
def appendValueBytes (dataType : DataType) (value : dataType.Value) : Except Error (List UInt8) :=
  match valueBytes dataType value with
  | some bytes => .ok bytes
  | none =>
    .error (.schema ("column type " ++ dataType.debug ++ " cannot be part of a primary key"))

/-- The part of the key of one column. -/
def keyPart (col : Nat) (cell : Cell) : Except Error (List UInt8) :=
  match cell with
  | ⟨_, none⟩ => .ok [0]
  | ⟨dataType, some value⟩ =>
    match appendValueBytes dataType value with
    | .ok bytes => .ok ([1] ++ bytes ++ [0xff])
    | .error _ =>
      .error (.schema ("unsupported PK column type " ++ dataType.debug ++ " (column #" ++
        toString col ++ ")"))

/-- A cell of a batch; an index past the columns, which panics in the source, reads as a NULL of no
type. -/
def RecordBatch.cell (batch : RecordBatch) (col row : Nat) : Cell :=
  ((batch.row row)[col]?).getD ⟨.other "", none⟩

/-- `pk_key`. -/
def pkKey (batch : RecordBatch) (row : Nat) : List Nat → Except Error (List UInt8)
  | [] => .ok []
  | col :: rest => do
    let part ← keyPart col (batch.cell col row)
    let later ← pkKey batch row rest
    return part ++ later

/-- The part of the key of a cell whose type is supported. -/
def partBytes : Cell → List UInt8
  | ⟨_, none⟩ => [0]
  | ⟨dataType, some value⟩ => [1] ++ (valueBytes dataType value).getD [] ++ [0xff]

/-- The key cells of a row. -/
def keyCells (batch : RecordBatch) (pkColumns : List Nat) (row : Nat) : List Cell :=
  pkColumns.map fun col ↦ batch.cell col row

/-- The key bytes of key cells. -/
def keyBytes (cells : List Cell) : List UInt8 := cells.flatMap partBytes

/-- Every supported key type is encoded. -/
theorem valueBytes_of_supported {dataType : DataType} (hsupported : isSupportedPkType dataType)
    (value : dataType.Value) : ∃ bytes, valueBytes dataType value = some bytes := by
  cases dataType with
  | float32 | float64 | other => exact Bool.noConfusion hsupported
  | timestamp unit timezone =>
    cases unit with
    | millisecond | microsecond => exact ⟨_, rfl⟩
    | second | nanosecond => exact Bool.noConfusion hsupported
  | _ => exact ⟨_, rfl⟩

theorem keyPart_of_supported (col : Nat) {cell : Cell} (hsupported : isSupportedPkType cell.1) :
    keyPart col cell = .ok (partBytes cell) := by
  obtain ⟨dataType, value⟩ := cell
  cases value with
  | none => rfl
  | some value =>
    obtain ⟨bytes, hbytes⟩ := valueBytes_of_supported hsupported value
    simp [keyPart, appendValueBytes, partBytes, hbytes]

/-- A row whose key columns have supported types has a key. -/
theorem pkKey_of_supported {batch : RecordBatch} {row : Nat} {pkColumns : List Nat}
    (hsupported : ∀ cell ∈ keyCells batch pkColumns row, isSupportedPkType cell.1) :
    pkKey batch row pkColumns = .ok (keyBytes (keyCells batch pkColumns row)) := by
  induction pkColumns with
  | nil => rfl
  | cons col rest ih =>
    rw [keyCells, List.map_cons, List.forall_mem_cons] at hsupported
    simp only [pkKey, keyPart_of_supported col hsupported.1, ih hsupported.2, bind, Except.bind,
      pure, Except.pure]
    rfl

/-! ### The encoding tells keys apart -/

/-- A value whose variable-length bytes are shorter than 2^32. -/
def ShortValue : (dataType : DataType) → dataType.Value → Prop
  | .utf8, (value : Text) | .largeUtf8, (value : Text) => (textBytes value).length < 2 ^ 32
  | .binary, (value : List UInt8) | .largeBinary, (value : List UInt8) => value.length < 2 ^ 32
  | _, _ => True

/-- A cell that is NULL or holds such a value. -/
def ShortCell (cell : Cell) : Prop := ∀ value, cell.2 = some value → ShortValue cell.1 value

instance : (dataType : DataType) → (value : dataType.Value) → Decidable (ShortValue dataType value)
  | .utf8, value | .largeUtf8, value =>
    inferInstanceAs (Decidable ((textBytes value).length < 2 ^ 32))
  | .binary, (value : List UInt8) | .largeBinary, (value : List UInt8) =>
    inferInstanceAs (Decidable (value.length < 2 ^ 32))
  | .boolean, _ | .int8, _ | .int16, _ | .int32, _ | .int64, _ | .float32, _ | .float64, _
  | .date32, _ | .timestamp _ _, _ | .decimal128 _ _, _ | .other _, _ => .isTrue trivial

instance : (cell : Cell) → Decidable (ShortCell cell)
  | ⟨_, none⟩ => .isTrue nofun
  | ⟨dataType, some value⟩ =>
    decidable_of_iff (ShortValue dataType value)
      ⟨fun hshort _ heq ↦ Option.some.inj heq ▸ hshort, fun hshort ↦ hshort value rfl⟩

/-- Two cells of one supported key type, both short. -/
def SameKeyColumn (first second : Cell) : Prop :=
  first.1 = second.1 ∧ isSupportedPkType first.1 ∧ ShortCell first ∧ ShortCell second

theorem textBytes_injective : Function.Injective textBytes := by
  intro first second heq
  have hencode : first.utf8Encode = second.utf8Encode := congrArg List.toByteArray heq
  have hdecode := congrArg ByteArray.utf8Decode? hencode
  simpa [List.utf8Decode?_utf8Encode] using hdecode

/-- A number of few enough bits lies in the range of its bytes. -/
theorem Signed.mem_bytes {bits count : Nat} (hbits : bits ≤ 8 * count) (hcount : 0 < count)
    (number : Signed bits) :
    -256 ^ count ≤ 2 * number.value ∧ 2 * number.value < 256 ^ count := by
  have hpow : (2 : Int) ^ (bits - 1) ≤ 2 ^ (8 * count - 1) :=
    pow_le_pow_right₀ (by norm_num) (by omega)
  have hdouble : (256 : Int) ^ count = 2 * 2 ^ (8 * count - 1) := by
    rw [← pow_succ', Nat.sub_add_cancel (by omega), pow_mul]
    norm_num
  have hlower := number.lower
  have hupper := number.upper
  omega

/-- Numbers written in the same count of bytes are told apart. -/
theorem selfDelimiting_signed (bits count : Nat) (hbits : bits ≤ 8 * count) (hcount : 0 < count)
    (related : Signed bits → Signed bits → Prop) :
    SelfDelimiting (fun number : Signed bits ↦ bigEndianSigned count number.value) related := by
  refine selfDelimiting_of_length (fun _ _ _ ↦ by simp) fun first second _ heq ↦ ?_
  exact Signed.value_injective
    (bigEndianSigned_inj (first.mem_bytes hbits hcount) (second.mem_bytes hbits hcount) heq)

/-- Values written behind their length are told apart while the length fits the prefix. -/
theorem selfDelimiting_withLength {α : Type} {body : α → List UInt8}
    (hbody : Function.Injective body) :
    SelfDelimiting (fun value ↦ withLength (body value))
      fun first second ↦ (body first).length < 2 ^ 32 ∧ (body second).length < 2 ^ 32 := by
  refine selfDelimiting_lengthPrefixed (length_bigEndian 4) (fun n m hn hm heq ↦ ?_)
    (fun _ _ hshort ↦ hshort) fun _ _ _ heq ↦ hbody heq
  exact bigEndian_inj (by omega) (by omega) heq

/-- The bytes of the values of one key type are self-delimiting. -/
theorem selfDelimiting_valueBytes {dataType : DataType} (hsupported : isSupportedPkType dataType) :
    SelfDelimiting (fun value : dataType.Value ↦ (valueBytes dataType value).getD [])
      fun first second ↦ ShortValue dataType first ∧ ShortValue dataType second := by
  cases dataType with
  | float32 | float64 | other => exact Bool.noConfusion hsupported
  | boolean =>
    refine selfDelimiting_of_length (fun _ _ _ ↦ rfl) fun (first second : Bool) _ heq ↦ ?_
    cases first <;> cases second
    · rfl
    · exact absurd heq (by decide)
    · exact absurd heq (by decide)
    · rfl
  | int8 => exact selfDelimiting_signed 8 8 (by decide) (by decide) _
  | int16 => exact selfDelimiting_signed 16 8 (by decide) (by decide) _
  | int32 | date32 => exact selfDelimiting_signed 32 8 (by decide) (by decide) _
  | int64 => exact selfDelimiting_signed 64 8 (by decide) (by decide) _
  | timestamp unit timezone =>
    cases unit with
    | millisecond | microsecond =>
      exact selfDelimiting_signed 64 8 (by decide) (by decide) _
    | second | nanosecond => exact Bool.noConfusion hsupported
  | decimal128 => exact selfDelimiting_signed 128 16 (by decide) (by decide) _
  | utf8 | largeUtf8 => exact selfDelimiting_withLength textBytes_injective
  | binary | largeBinary => exact selfDelimiting_withLength Function.injective_id

/-- The key parts of one column are self-delimiting, the NULL tag among them. -/
theorem selfDelimiting_partBytes : SelfDelimiting partBytes SameKeyColumn := by
  rintro ⟨dataType, first⟩ ⟨dataType', second⟩ ⟨htype, hsupported, hfirst, hsecond⟩ x y heq
  obtain rfl : dataType = dataType' := htype
  cases first with
  | none =>
    cases second with
    | none => exact ⟨rfl, List.tail_eq_of_cons_eq heq⟩
    | some value => simp [partBytes] at heq
  | some value =>
    cases second with
    | none => simp [partBytes] at heq
    | some value' =>
      obtain ⟨rfl, hrest⟩ := (selfDelimiting_valueBytes hsupported).framed [1] [0xff]
        ⟨hfirst value rfl, hsecond value' rfl⟩ x y heq
      exact ⟨rfl, hrest⟩

/-- Keys of the same supported column types have the same bytes only when they are equal. -/
theorem keyBytes_injective {first second : List Cell}
    (hrelated : List.Forall₂ SameKeyColumn first second)
    (heq : keyBytes first = keyBytes second) : first = second :=
  selfDelimiting_partBytes.flatMap_injective hrelated heq

end RelytIngest
