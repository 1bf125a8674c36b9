import RelytIngest.Csv.TypedReader
import RelytIngest.TableSchema.Opened

/-!
# Loading a rendered file

What the body of a rendered file is to a reader that knows the columns of the table: the rows of its
batches, or in upsert mode the last row of each key, exactly when nothing of a value is lost in its
field (`readRows_renderOnce_iff`). No two of these rows have one key, so they can be loaded as
upserts, and a table they are loaded into is the one that every row of the batches is applied to
(`loadRows_fileRows`).
-/

set_option autoImplicit false
set_option relaxedAutoImplicit false

namespace RelytIngest

open Foundations

/-! ### Tables -/

/-- The rows of a table. -/
abbrev TableRows := List (List Cell)

/-- One row applied to a table: added, or in place of the row of its key. -/
def applyRow (key : Option (List Nat)) (table : TableRows) (row : List Cell) : TableRows :=
  match key with
  | none => table ++ [row]
  | some pkColumns => replace (rowKey pkColumns) table row

/-- Rows applied one after the other. -/
def applyAll (key : Option (List Nat)) (table rows : TableRows) : TableRows :=
  rows.foldl (applyRow key) table

/-- No two rows have one key. -/
def DistinctKeys (key : Option (List Nat)) (rows : TableRows) : Prop :=
  match key with
  | none => True
  | some pkColumns => (rows.map (rowKey pkColumns)).Nodup

instance (key : Option (List Nat)) (rows : TableRows) : Decidable (DistinctKeys key rows) :=
  match key with
  | none => inferInstanceAs (Decidable True)
  | some pkColumns => inferInstanceAs (Decidable (rows.map (rowKey pkColumns)).Nodup)

/-- The rows of a file loaded as one statement. Two upserts of one key make it fail. -/
def loadRows (key : Option (List Nat)) (table rows : TableRows) : Option TableRows :=
  if DistinctKeys key rows then some (applyAll key table rows) else none

/-- The rows that a file of batches contributes. -/
def fileRows (key : Option (List Nat)) (batches : List RecordBatch) : TableRows :=
  match key with
  | none => batchRows batches
  | some pkColumns => lastWins (rowKey pkColumns) (batchRows batches)

theorem applyAll_append (key : Option (List Nat)) (table rows more : TableRows) :
    applyAll key table (rows ++ more) = applyAll key (applyAll key table rows) more :=
  List.foldl_append

theorem distinctKeys_fileRows (key : Option (List Nat)) (batches : List RecordBatch) :
    DistinctKeys key (fileRows key batches) := by
  cases key with
  | none => trivial
  | some pkColumns => exact List.pairwise_map.mpr (pairwise_lastWins _ _)

/-- Loading what a file contributes is applying every row of its batches. -/
theorem loadRows_fileRows (key : Option (List Nat)) (table : TableRows)
    (batches : List RecordBatch) :
    loadRows key table (fileRows key batches) = some (applyAll key table (batchRows batches)) := by
  rw [loadRows, if_pos (distinctKeys_fileRows key batches)]
  cases key with
  | none => rfl
  | some pkColumns => exact congrArg some (foldl_replace_lastWins _ _ _)

/-! ### The rows of a body -/

/-- The rows of batches that are written without dedup. -/
theorem selectedRows_all (batches : List RecordBatch) :
    selectedRows (batches.zip (batches.map fun batch ↦ List.range batch.numRows)) =
      batchRows batches := by
  induction batches with
  | nil => rfl
  | cons batch rest ih =>
    rw [List.map_cons, List.zip_cons_cons, selectedRows, List.flatMap_cons, batchRows,
      List.flatMap_cons]
    exact congrArg _ ih

section Opened

variable {schema : OpenedSchema} {batches : List RecordBatch}

/-- The keys of the batches are short enough for their encoding, in the mode that encodes them. -/
def ShortLoadKeys (schema : OpenedSchema) (batches : List RecordBatch) : Prop :=
  ∀ pkColumns, schema.loadKey = some pkColumns → ShortKeys pkColumns batches

/-- The rows that are rendered. -/
theorem selectedRows_kept (hschema : ∀ batch ∈ batches, batch.schema = schema.arrow)
    (hshort : ShortLoadKeys schema batches) {keep : List (List Nat)}
    (hkeep : keptRows batches schema.loadKey = .ok keep) :
    selectedRows (batches.zip keep) = fileRows schema.loadKey batches := by
  cases hkey : schema.loadKey with
  | none =>
    rw [hkey] at hkeep
    obtain rfl := Except.ok.inj hkeep
    exact selectedRows_all batches
  | some pkColumns =>
    rw [hkey] at hkeep
    have hcolumns := schema.keyColumns hkey
    obtain ⟨keep', hkeep', -, hrows⟩ := dedupLastWins_eq_ok batches pkColumns
      fun position hposition ↦
        hcolumns.supported (hschema _ (mem_rowPositions hposition).1) position.row
    obtain rfl : keep' = keep := Except.ok.inj (hkeep'.symm.trans hkeep)
    have hcells : selectedRows (batches.zip keep') =
        (survivors batches pkColumns).map Position.cells := hrows
    rw [hcells, survivors_eq hcolumns hschema (hshort pkColumns hkey), fileRows,
      ← map_cells_rowPositions 0 batches, lastWins_map]
    rfl

theorem mem_fileRows {key : Option (List Nat)} {row : List Cell}
    (hrow : row ∈ fileRows key batches) : row ∈ batchRows batches := by
  cases key with
  | none => exact hrow
  | some pkColumns => exact (lastWins_sublist _ _).subset hrow

/-- The rows of batches of the schema have cells of its types. -/
theorem types_of_mem_batchRows (hschema : ∀ batch ∈ batches, batch.schema = schema.arrow)
    {row : List Cell} (hrow : row ∈ batchRows batches) :
    row.map Sigma.fst = schema.arrow.map Field.dataType := by
  obtain ⟨batch, hbatch, hindex⟩ := List.mem_flatMap.mp hrow
  obtain ⟨index, -, rfl⟩ := List.mem_map.mp hindex
  rw [batch.row_types, hschema batch hbatch]

/-- A rendered file is read back as the rows it contributes, exactly when nothing of them is lost in
their fields. -/
theorem readRows_renderOnce_iff (schema : OpenedSchema) (batches : List RecordBatch)
    (delimiter : Char) (body : Text) (count : Nat)
    (hschema : ∀ batch ∈ batches, batch.schema = schema.arrow)
    (hshort : ShortLoadKeys schema batches) (hdelimiter : validDelimiter delimiter)
    (hrender :
      renderOnce schema.toTableSchema schema.upsert delimiter batches = .ok (body, count)) :
    count = (fileRows schema.loadKey batches).length ∧
      (readRows delimiter (schema.arrow.map Field.dataType) body =
          some (fileRows schema.loadKey batches) ↔
        ∀ row ∈ fileRows schema.loadKey batches, ∀ cell ∈ row, Exact cell) := by
  simp only [schema.renderOnce_eq, render, except_bind_eq_ok_iff] at hrender
  obtain ⟨keep, hkeep, text, hbody, hresult⟩ := hrender
  obtain ⟨rfl, rfl⟩ := Prod.mk.inj (Except.ok.inj hresult)
  have hrows := selectedRows_kept hschema hshort hkeep
  have hcolumns : ∀ part ∈ batches.zip keep, part.1.columns ≠ [] := by
    intro part hpart hnil
    have hlength := part.1.length_columns
    rw [hnil, hschema _ (List.of_mem_zip hpart).1] at hlength
    exact schema.columns (List.length_eq_zero_iff.mp hlength.symm)
  have hread := readCsv_writeBody delimiter _ _ _ hdelimiter (by simpa using schema.columns)
    hcolumns hbody
  have hfields : (batches.zip keep).flatMap
      (fun part ↦ part.2.map fun row ↦ (part.1.row row).map cellField) =
        (fileRows schema.loadKey batches).map fun row ↦ row.map cellField := by
    rw [← hrows, selectedRows, List.map_flatMap]
    simp only [List.map_map, Function.comp_def]
  refine ⟨?_, ?_⟩
  · rw [← hrows, selectedRows, List.length_flatMap]
    simp
  · rw [readRows, hread, hfields]
    dsimp only
    rw [mapM_map_eq_some_iff]
    refine forall_congr' fun row ↦ forall_congr' fun hrow ↦ ?_
    have htypes := types_of_mem_batchRows hschema (mem_fileRows hrow)
    rw [← htypes]
    refine readRow_map_iff fun cell hcell ↦ ?_
    have hmem : cell.1 ∈ schema.arrow.map Field.dataType := htypes ▸ List.mem_map_of_mem hcell
    obtain ⟨field, hfield, heq⟩ := List.mem_map.mp hmem
    exact heq ▸ schema.supportedType hfield

end Opened

/-- An upsert table keyed by a number, opened. -/
def sampleOpened : OpenedSchema where
  toTableSchema := sampleNumberKey.toTableSchema
  upsert := true
  columns := List.cons_ne_nil _ _
  opened := by decide

def sampleSeven : Signed 64 := ⟨7, by decide, by decide⟩

def sampleEight : Signed 64 := ⟨8, by decide, by decide⟩

/-- Three rows, two of them of one key. -/
def sampleRows : List RecordBatch :=
  [sampleRow sampleSeven true, sampleRow sampleSeven false, sampleRow sampleEight true]

theorem sampleRows_schema : ∀ batch ∈ sampleRows, batch.schema = sampleOpened.arrow := by
  simp [sampleRows, sampleRow, sampleOpened]

theorem shortLoadKeys_sample {batches : List RecordBatch}
    (hschema : ∀ batch ∈ batches, batch.schema = sampleOpened.arrow) :
    ShortLoadKeys sampleOpened batches := by
  intro pkColumns hkey
  obtain ⟨-, rfl⟩ := sampleOpened.loadKey_eq_some hkey
  exact shortKeys_sample hschema

theorem readRows_renderOnce_sample :
    2 = (fileRows sampleOpened.loadKey sampleRows).length ∧
      (readRows ',' (sampleOpened.arrow.map Field.dataType)
          "\"id\",\"v\"\n\"7\",\"f\"\n\"8\",\"t\"\n".toList =
          some (fileRows sampleOpened.loadKey sampleRows) ↔
        ∀ row ∈ fileRows sampleOpened.loadKey sampleRows, ∀ cell ∈ row, Exact cell) :=
  readRows_renderOnce_iff sampleOpened sampleRows ',' _ 2 sampleRows_schema
    (shortLoadKeys_sample sampleRows_schema) (by decide) (by decide)

end RelytIngest
