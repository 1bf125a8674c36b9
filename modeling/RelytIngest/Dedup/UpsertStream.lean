import RelytIngest.Dedup.Selection
import RelytIngest.TableSchema

/-!
# Rotation and dedup preserve the upsert stream

A table is a map from primary-key values to rows, and a file is applied to it by upserting the rows
dedup keeps, in order (`applyFile`). `applyFiles_eq_applyRows` says that however the rows of a
stream are divided into batches and the batches into files, applying file after file gives the table
that applying row after row gives.

The argument is `foldl_upsert_lastWins` for the key values. Dedup compares key bytes instead, which
keep the same rows (`survivors_eq`) because the key columns of a checked schema can be part of a key
(`UpsertSchema.keyColumns`).
-/

set_option autoImplicit false
set_option relaxedAutoImplicit false

namespace RelytIngest

open Foundations

/-- The table an upsert stream maintains: the row of every primary key. -/
abbrev Table := List Cell → Option (List Cell)

/-- The key values of a row. -/
def rowKey (pkColumns : List Nat) (row : List Cell) : List Cell :=
  pkColumns.map fun col ↦ (row[col]?).getD ⟨.other "", none⟩

/-- Rows applied one by one as upserts. -/
def applyRows (pkColumns : List Nat) (table : Table) (rows : List (List Cell)) : Table :=
  rows.foldl (upsert (rowKey pkColumns) id) table

/-- The rows a batch contributes to a file, and those of every batch. -/
def selectedRows (parts : List (RecordBatch × List Nat)) : List (List Cell) :=
  parts.flatMap fun part ↦ part.2.map part.1.row

/-- A file applied to a table: the rows dedup keeps of its batches, in output order. -/
def applyFile (pkColumns : List Nat) (table : Table) (file : List RecordBatch) :
    Except Error Table := do
  let keep ← dedupLastWins file pkColumns
  return applyRows pkColumns table (selectedRows (file.zip keep))

/-- File after file. -/
def applyFiles (pkColumns : List Nat) : Table → List (List RecordBatch) → Except Error Table
  | table, [] => .ok table
  | table, file :: rest => do
    let next ← applyFile pkColumns table file
    applyFiles pkColumns next rest

/-- All rows of the batches of a file, in order. -/
def batchRows (file : List RecordBatch) : List (List Cell) :=
  file.flatMap fun batch ↦ (List.range batch.numRows).map batch.row

/-! ### Key values and key bytes -/

theorem map_cells_rowPositions (batchIndex : Nat) (file : List RecordBatch) :
    (rowPositions batchIndex file).map Position.cells = batchRows file := by
  induction file generalizing batchIndex with
  | nil => rfl
  | cons batch rest ih =>
    rw [rowPositions, List.map_append, ih, List.map_map]
    rfl

/-- The key columns of a checked schema can be part of a key. -/
theorem UpsertSchema.keyColumns (schema : UpsertSchema) :
    KeyColumns schema.arrow schema.indices := by
  intro index hindex
  have hfield := List.getElem?_eq_getElem (schema.lt_of_mem_indices hindex)
  exact ⟨_, hfield, schema.supported hindex hfield⟩

/-! ### Files and rows -/

/-- Applying the kept rows of a file is applying all of its rows. -/
theorem applyFile_eq {schema : UpsertSchema} {file : List RecordBatch}
    (hschema : ∀ batch ∈ file, batch.schema = schema.arrow)
    (hshort : ShortKeys schema.indices file) (table : Table) :
    applyFile schema.indices table file =
      .ok (applyRows schema.indices table (batchRows file)) := by
  obtain ⟨keep, hkeep, -, hrows⟩ := dedupLastWins_eq_ok file schema.indices
    fun position hposition ↦
      schema.keyColumns.supported (hschema _ (mem_rowPositions hposition).1) position.row
  have happlied : applyRows schema.indices table (selectedRows (file.zip keep)) =
      applyRows schema.indices table (batchRows file) := by
    rw [selectedRows, hrows, survivors_eq schema.keyColumns hschema hshort,
      ← map_cells_rowPositions 0 file, applyRows, applyRows, List.foldl_map, List.foldl_map]
    exact foldl_upsert_lastWins (fun position ↦ rowKey schema.indices position.cells)
      Position.cells (rowPositions 0 file) table
  simp only [applyFile, hkeep, bind, Except.bind, pure, Except.pure, happlied]

/-- However a stream of rows is cut into batches and the batches into files, applying the rows that
dedup keeps, file after file, gives the table of applying every row in order. -/
theorem applyFiles_eq_applyRows (schema : UpsertSchema) (files : List (List RecordBatch))
    (hschema : ∀ file ∈ files, ∀ batch ∈ file, batch.schema = schema.arrow)
    (hshort : ∀ file ∈ files, ShortKeys schema.indices file) (table : Table) :
    applyFiles schema.indices table files =
      .ok (applyRows schema.indices table (files.flatMap batchRows)) := by
  induction files generalizing table with
  | nil => rfl
  | cons file rest ih =>
    rw [List.forall_mem_cons] at hschema hshort
    simp only [applyFiles, applyFile_eq hschema.1 hshort.1, bind, Except.bind,
      ih hschema.2 hshort.2, List.flatMap_cons, applyRows, List.foldl_append]

/-- An upsert table keyed by a number. -/
def sampleNumberKey : UpsertSchema where
  arrow := [⟨"id".toList, .int64⟩, ⟨"v".toList, .boolean⟩]
  pk := ["id".toList]
  accepted := by decide

/-- A batch of one row of that table. -/
def sampleRow (id : Signed 64) (value : Bool) : RecordBatch where
  schema := sampleNumberKey.arrow
  columns := [⟨.int64, [some id]⟩, ⟨.boolean, [some value]⟩]
  numRows := 1
  types := rfl
  lengths := by simp

/-- Numbers are short keys. -/
theorem shortKeys_sample {file : List RecordBatch}
    (hfile : ∀ batch ∈ file, batch.schema = sampleNumberKey.arrow) :
    ShortKeys sampleNumberKey.indices file := by
  intro position hposition cell hcell value _
  obtain ⟨index, hindex, rfl⟩ := List.mem_map.mp hcell
  have hindices : sampleNumberKey.indices = [0] := by decide
  rw [hindices, List.mem_singleton] at hindex
  subst hindex
  have hfield : position.batch.schema[0]? = some ⟨"id".toList, .int64⟩ := by
    rw [hfile _ (mem_rowPositions hposition).1]
    rfl
  have htype := RecordBatch.cell_type hfield position.row
  have hshort : ∀ (dataType : DataType) (number : dataType.Value), dataType = .int64 →
      ShortValue dataType number := by
    rintro _ number rfl
    trivial
  exact hshort _ value htype

/-- Two files with a key written three times: the last value stays. -/
theorem applyFiles_eq_applyRows_sample :
    applyFiles sampleNumberKey.indices (fun _ ↦ none)
        [[sampleRow ⟨7, by decide, by decide⟩ true, sampleRow ⟨7, by decide, by decide⟩ false],
          [sampleRow ⟨7, by decide, by decide⟩ true]] =
      .ok (applyRows sampleNumberKey.indices (fun _ ↦ none)
        ([[sampleRow ⟨7, by decide, by decide⟩ true, sampleRow ⟨7, by decide, by decide⟩ false],
          [sampleRow ⟨7, by decide, by decide⟩ true]].flatMap batchRows)) := by
  have hschema : ∀ file ∈ [[sampleRow ⟨7, by decide, by decide⟩ true,
      sampleRow ⟨7, by decide, by decide⟩ false], [sampleRow ⟨7, by decide, by decide⟩ true]],
      ∀ batch ∈ file, batch.schema = sampleNumberKey.arrow := by
    simp [sampleRow]
  exact applyFiles_eq_applyRows sampleNumberKey _ hschema
    (fun file hfile ↦ shortKeys_sample (hschema file hfile)) _

end RelytIngest
