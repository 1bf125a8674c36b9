import RelytIngest.Error
import RelytIngest.Foundations.DecimalText
import Mathlib.Algebra.Group.Int.Defs
import Mathlib.Data.List.Basic
import Mathlib.Data.Int.Basic

/-!
# Record batches

The part of the columnar format the crate reads: data types, columns of nullable values of one
type, and batches whose columns agree with a schema in types and lengths. `isSupportedType` is the
column whitelist and `isSupportedPkType` the one for primary keys.

An integer of a fixed width is a `Signed`, a number with the bounds of its width. A float is
represented by what its display text consists of (`FloatDisplay`), which is all the crate does with
one. A `Cell` is a value together with the type of its column, so that rows of batches with equal
schemas can be compared.
-/

set_option autoImplicit false
set_option relaxedAutoImplicit false

namespace RelytIngest

open Foundations

/-- A signed integer of a fixed width. -/
structure Signed (bits : Nat) where
  value : Int
  lower : -2 ^ (bits - 1) ≤ value
  upper : value < 2 ^ (bits - 1)
  deriving DecidableEq, Repr

theorem Signed.value_injective {bits : Nat} :
    Function.Injective (Signed.value : Signed bits → Int) := by
  rintro ⟨first, _, _⟩ ⟨second, _, _⟩ heq
  cases heq
  rfl

/-- What the display text of a float consists of. -/
inductive FloatDisplay
  | nan
  | infinite (negative : Bool)
  | finite (negative : Bool) (whole : Nat) (fraction : List (Fin 10))
  deriving DecidableEq, Repr

inductive TimeUnit
  | second
  | millisecond
  | microsecond
  | nanosecond
  deriving DecidableEq, Repr

/-- The column types: those the crate names, and any other by its debug text. -/
inductive DataType
  | boolean
  | int8
  | int16
  | int32
  | int64
  | float32
  | float64
  | utf8
  | largeUtf8
  | date32
  | timestamp (unit : TimeUnit) (timezone : Option Text)
  | decimal128 (precision : Nat) (scale : Signed 8)
  | binary
  | largeBinary
  | other (debug : String)
  deriving DecidableEq, Repr

/-- The values of a column type. -/
def DataType.Value : DataType → Type
  | .boolean => Bool
  | .int8 => Signed 8
  | .int16 => Signed 16
  | .int32 => Signed 32
  | .int64 => Signed 64
  | .float32 | .float64 => FloatDisplay
  | .utf8 | .largeUtf8 => Text
  | .date32 => Signed 32
  | .timestamp _ _ => Signed 64
  | .decimal128 _ _ => Signed 128
  | .binary | .largeBinary => List UInt8
  | .other _ => Unit

instance : (dataType : DataType) → DecidableEq dataType.Value
  | .boolean => inferInstanceAs (DecidableEq Bool)
  | .int8 => inferInstanceAs (DecidableEq (Signed 8))
  | .int16 => inferInstanceAs (DecidableEq (Signed 16))
  | .int32 | .date32 => inferInstanceAs (DecidableEq (Signed 32))
  | .int64 | .timestamp _ _ => inferInstanceAs (DecidableEq (Signed 64))
  | .float32 | .float64 => inferInstanceAs (DecidableEq FloatDisplay)
  | .utf8 | .largeUtf8 => inferInstanceAs (DecidableEq Text)
  | .decimal128 _ _ => inferInstanceAs (DecidableEq (Signed 128))
  | .binary | .largeBinary => inferInstanceAs (DecidableEq (List UInt8))
  | .other _ => inferInstanceAs (DecidableEq Unit)

/-- `is_supported_type`: the column types the crate accepts. -/
def isSupportedType : DataType → Bool
  | .boolean | .int8 | .int16 | .int32 | .int64 | .float32 | .float64 | .utf8 | .largeUtf8
  | .date32 | .timestamp .microsecond _ | .timestamp .millisecond _ | .decimal128 _ _ | .binary
  | .largeBinary => true
  | .timestamp .second _ | .timestamp .nanosecond _ | .other _ => false

/-- `is_supported_pk_type`: every supported type but the floats. -/
def isSupportedPkType (dataType : DataType) : Bool :=
  !(dataType matches .float32 | .float64) && isSupportedType dataType

/-- A nullable value with the type of its column. -/
abbrev Cell := Σ dataType : DataType, Option dataType.Value

/-- A column: values of one type. -/
structure Column where
  dataType : DataType
  values : List (Option dataType.Value)

/-- The cell of a row. An index past the end, which the source never asks for, reads as NULL. -/
def Column.cell (column : Column) (row : Nat) : Cell :=
  ⟨column.dataType, (column.values[row]?).join⟩

@[simp] theorem Column.cell_fst (column : Column) (row : Nat) :
    (column.cell row).1 = column.dataType := rfl

structure Field where
  name : Text
  dataType : DataType
  deriving DecidableEq, Repr

/-- A batch of rows: one column for each field of the schema, of the field's type, all of the
batch's length. -/
structure RecordBatch where
  schema : List Field
  columns : List Column
  numRows : Nat
  types : columns.map Column.dataType = schema.map Field.dataType
  lengths : ∀ column ∈ columns, column.values.length = numRows

namespace RecordBatch

/-- One row of the batch as cells. -/
def row (batch : RecordBatch) (index : Nat) : List Cell :=
  batch.columns.map fun column ↦ column.cell index

@[simp] theorem length_row (batch : RecordBatch) (index : Nat) :
    (batch.row index).length = batch.columns.length :=
  List.length_map _

theorem length_columns (batch : RecordBatch) : batch.columns.length = batch.schema.length := by
  simpa using congrArg List.length batch.types

/-- The types of a row's cells are those of the schema. -/
theorem row_types (batch : RecordBatch) (index : Nat) :
    (batch.row index).map Sigma.fst = batch.schema.map Field.dataType := by
  rw [← batch.types, row, List.map_map]
  rfl

end RecordBatch

end RelytIngest
