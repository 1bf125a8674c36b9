import RelytIngest.Csv.CellText
import RelytIngest.Dedup.UpsertStream

/-!
# Rendering a file

`render` dedups the batches of a sealed file in upsert mode and writes the CSV body. A file with two
rows whose primary-key fields have the same text is rejected by the server as a whole: it poisons
the stream. `noPoison_iff` says exactly when a rendered file is none: when no two rows of different
key bytes, each the last of its key, show the same key (`KeysShowApart`).

Key bytes and fields differ on two kinds of values: texts that differ in NUL characters, which the
formatter drops, and millisecond timestamps whose products by 1000 agree in 64-bit arithmetic.
`poison_file_of_nul` is a file of the first kind.
-/

set_option autoImplicit false
set_option relaxedAutoImplicit false

namespace RelytIngest

open Foundations

/-- The rows of each batch that go into the file: the survivors of dedup in upsert mode, every row
otherwise. -/
def keptRows (batches : List RecordBatch) : Option (List Nat) → Except Error (List (List Nat))
  | some pkColumns => dedupLastWins batches pkColumns
  | none => .ok (batches.map fun batch ↦ List.range batch.numRows)

/-- `render`: the body and the number of rows in it. The average row size, which only sizes the
output buffer, is left out. -/
def render (batches : List RecordBatch) (pk : Option (List Nat)) (names : List Text)
    (delimiter : Char) : Except Error (Text × Nat) := do
  let keep ← keptRows batches pk
  let body ← writeBody delimiter names (batches.zip keep)
  return (body, ((batches.zip keep).map fun part ↦ part.2.length).sum)

/-- `render_once`: the key indices and the column names come from the table's schema. -/
def renderOnce (schema : TableSchema) (upsert : Bool) (delimiter : Char)
    (batches : List RecordBatch) : Except Error (Text × Nat) := do
  let pk ← if upsert then schema.pkIndices.map some else .ok none
  render batches pk (schema.arrow.map Field.name) delimiter

/-- The fields of a record at the primary-key columns. -/
def keyFields (pkColumns : List Nat) (record : List (Option Text)) : List (Option (Option Text)) :=
  pkColumns.map fun col ↦ record[col]?

/-- No two data rows of the body have the same text in every primary-key field. -/
def NoPoison (pkColumns : List Nat) (delimiter : Char) (body : Text) : Prop :=
  ∃ headerRecord rows, readCsv delimiter body = some (headerRecord :: rows) ∧
    rows.Pairwise fun first second ↦ keyFields pkColumns first ≠ keyFields pkColumns second

/-- The row is the last one of its key bytes. -/
def LastOfItsKey (pkColumns : List Nat) (batches : List RecordBatch) (position : Position) : Prop :=
  ∃ earlier later, rowPositions 0 batches = earlier ++ position :: later ∧
    ∀ other ∈ later,
      pkKey other.batch other.row pkColumns ≠ pkKey position.batch position.row pkColumns

/-- No two rows of different key bytes, each the last of its key, show the same key. -/
def KeysShowApart (pkColumns : List Nat) (batches : List RecordBatch) : Prop :=
  ∀ first second, LastOfItsKey pkColumns batches first → LastOfItsKey pkColumns batches second →
    pkKey first.batch first.row pkColumns ≠ pkKey second.batch second.row pkColumns →
      (first.key pkColumns).map shownCell ≠ (second.key pkColumns).map shownCell

section Upsert

variable {schema : UpsertSchema} {batches : List RecordBatch} {delimiter : Char} {body : Text}
  {count : Nat}

/-- What a rendered upsert file reads as: the header and the surviving rows. -/
theorem readCsv_renderOnce (hschema : ∀ batch ∈ batches, batch.schema = schema.arrow)
    (hdelimiter : validDelimiter delimiter)
    (hrender : renderOnce schema.toTableSchema true delimiter batches = .ok (body, count)) :
    readCsv delimiter body =
      some ((schema.arrow.map fun field ↦ some (stripNul field.name)) ::
        (survivors batches schema.indices).map fun position ↦ position.cells.map cellField) := by
  obtain ⟨keep, hkeep, -, hrows⟩ := dedupLastWins_eq_ok batches schema.indices
    fun position hposition ↦
      schema.keyColumns.supported (hschema _ (mem_rowPositions hposition).1) position.row
  simp only [renderOnce, if_true, schema.pkIndices_eq, Except.map, render, except_bind_eq_ok_iff,
    Except.ok.injEq] at hrender
  obtain ⟨_, rfl, keep', hkeep', text, hbody, hresult⟩ := hrender
  obtain rfl : keep = keep' := Except.ok.inj (hkeep.symm.trans hkeep')
  obtain rfl : text = body := congrArg Prod.fst (Except.ok.inj hresult)
  have hcolumns : ∀ part ∈ batches.zip keep, part.1.columns ≠ [] := by
    intro part hpart hnil
    have hlength := part.1.length_columns
    rw [hnil, hschema _ (List.of_mem_zip hpart).1] at hlength
    exact schema.arrow_ne_nil (List.length_eq_zero_iff.mp hlength.symm)
  have hread := readCsv_writeBody delimiter _ _ _ hdelimiter
    (by simpa using schema.arrow_ne_nil) hcolumns hbody
  have hfields : (batches.zip keep).flatMap
      (fun part ↦ part.2.map fun row ↦ (part.1.row row).map cellField) =
        (survivors batches schema.indices).map fun position ↦ position.cells.map cellField := by
    have := congrArg (List.map (List.map cellField)) hrows
    simpa [List.map_flatMap, Function.comp_def] using this
  rw [hread, hfields, List.map_map]
  rfl

/-- The key fields of a row are those of its key cells. -/
theorem keyFields_cells {position : Position} (hschema : position.batch.schema = schema.arrow) :
    keyFields schema.indices (position.cells.map cellField) =
      (position.key schema.indices).map fun cell ↦ some (cellField cell) := by
  rw [keyFields, Position.key, keyCells, List.map_map]
  refine List.map_congr_left fun index hindex ↦ ?_
  have hlt : index < position.cells.length := by
    rw [Position.cells, RecordBatch.length_row, RecordBatch.length_columns, hschema]
    exact schema.lt_of_mem_indices hindex
  rw [List.getElem?_map, List.getElem?_eq_getElem hlt, Function.comp_apply, RecordBatch.cell]
  have hcell : (position.batch.row position.row)[index]? = some position.cells[index] :=
    List.getElem?_eq_getElem hlt
  rw [hcell]
  rfl

/-- Key cells of the same types have the same fields exactly when they show the same. -/
theorem map_cellField_eq_iff {first second : List Cell}
    (htypes : List.Forall₂ (fun a b : Cell ↦ a.1 = b.1 ∧ isSupportedPkType a.1) first second) :
    (first.map fun cell ↦ some (cellField cell)) = (second.map fun cell ↦ some (cellField cell)) ↔
      first.map shownCell = second.map shownCell := by
  induction htypes with
  | nil => simp
  | @cons a b _ _ hhead _ ih =>
    obtain ⟨dataType, value⟩ := a
    obtain ⟨dataType', value'⟩ := b
    obtain ⟨htype, hsupported⟩ := hhead
    obtain rfl : dataType = dataType' := htype
    rw [List.map_cons, List.map_cons, List.map_cons, List.map_cons, List.cons.injEq,
      List.cons.injEq, ih, Option.some.injEq, cellField_eq_iff hsupported]

theorem keyFields_eq_iff {first second : Position} (hfirst : first.batch.schema = schema.arrow)
    (hsecond : second.batch.schema = schema.arrow) :
    keyFields schema.indices (first.cells.map cellField) =
        keyFields schema.indices (second.cells.map cellField) ↔
      (first.key schema.indices).map shownCell = (second.key schema.indices).map shownCell := by
  rw [keyFields_cells hfirst, keyFields_cells hsecond]
  refine map_cellField_eq_iff ?_
  simp only [Position.key, keyCells]
  rw [List.forall₂_map_left_iff, List.forall₂_map_right_iff, List.forall₂_same]
  exact fun index hindex ↦ schema.keyColumns.cell_types hfirst hsecond hindex

theorem schema_of_mem_survivors (hschema : ∀ batch ∈ batches, batch.schema = schema.arrow)
    (position : Position) (hposition : position ∈ survivors batches schema.indices) :
    position.batch.schema = schema.arrow :=
  hschema _ (mem_rowPositions ((lastWins_sublist _ _).subset hposition)).1

/-- The rows that are the last of their key are the survivors of dedup. -/
theorem lastOfItsKey_iff (hschema : ∀ batch ∈ batches, batch.schema = schema.arrow)
    (position : Position) :
    LastOfItsKey schema.indices batches position ↔
      position ∈ survivors batches schema.indices := by
  rw [survivors, mem_lastWins_iff]
  refine exists_congr fun earlier ↦ exists_congr fun later ↦ and_congr_right fun hsplit ↦ ?_
  have hmem : ∀ other ∈ position :: later, other.batch.schema = schema.arrow := by
    intro other hother
    have hall : other ∈ rowPositions 0 batches := by
      rw [hsplit]
      exact List.mem_append_right _ hother
    exact hschema _ (mem_rowPositions hall).1
  rw [List.forall_mem_cons] at hmem
  refine forall_congr' fun other ↦ forall_congr' fun hother ↦ ?_
  exact (schema.keyColumns.pkKey_eq_iff (hmem.2 other hother) hmem.1).not

/-- A rendered upsert file has no two data rows with the same key text exactly when no two rows of
different keys, each the last of its key, show the same key. -/
theorem noPoison_iff (schema : UpsertSchema) (batches : List RecordBatch) (delimiter : Char)
    (body : Text) (count : Nat) (hschema : ∀ batch ∈ batches, batch.schema = schema.arrow)
    (hdelimiter : validDelimiter delimiter)
    (hrender : renderOnce schema.toTableSchema true delimiter batches = .ok (body, count)) :
    NoPoison schema.indices delimiter body ↔ KeysShowApart schema.indices batches := by
  have hread := readCsv_renderOnce hschema hdelimiter hrender
  have hrows : NoPoison schema.indices delimiter body ↔
      (survivors batches schema.indices).Pairwise fun first second ↦
        keyFields schema.indices (first.cells.map cellField) ≠
          keyFields schema.indices (second.cells.map cellField) := by
    simp only [NoPoison, hread, Option.some.injEq, List.cons.injEq]
    constructor
    · rintro ⟨_, _, ⟨-, rfl⟩, hpairwise⟩
      rwa [List.pairwise_map] at hpairwise
    · intro hpairwise
      refine ⟨_, _, ⟨rfl, rfl⟩, ?_⟩
      rwa [List.pairwise_map]
  have hbatch := schema_of_mem_survivors hschema
  rw [hrows]
  constructor
  · intro hpairwise first second hfirst hsecond hkeys
    rw [lastOfItsKey_iff hschema] at hfirst hsecond
    have hsymmetric : Std.Symm fun first second : Position ↦
        keyFields schema.indices (first.cells.map cellField) ≠
          keyFields schema.indices (second.cells.map cellField) :=
      ⟨fun _ _ hne ↦ hne.symm⟩
    have hne : first ≠ second := fun heq ↦ hkeys (by rw [heq])
    exact (keyFields_eq_iff (hbatch first hfirst) (hbatch second hsecond)).not.mp
      (hpairwise.forall hfirst hsecond hne)
  · intro happart
    refine (pairwise_lastWins _ _).imp_of_mem fun {first second} hfirst hsecond hkeys ↦ ?_
    have hfirst' := hbatch first hfirst
    have hsecond' := hbatch second hsecond
    refine (keyFields_eq_iff hfirst' hsecond').not.mpr ?_
    exact happart first second ((lastOfItsKey_iff hschema _).mpr hfirst)
      ((lastOfItsKey_iff hschema _).mpr hsecond)
      ((schema.keyColumns.pkKey_eq_iff hfirst' hsecond').not.mpr hkeys)

end Upsert

/-- An upsert table of one text column, its key. -/
def sampleTextKey : UpsertSchema where
  arrow := [⟨"k".toList, .utf8⟩]
  pk := ["k".toList]
  accepted := by decide

/-- A batch of that table with the given keys. -/
def sampleTextKeyBatch (keys : List Text) : RecordBatch where
  schema := sampleTextKey.arrow
  columns := [⟨.utf8, keys.map some⟩]
  numRows := keys.length
  types := rfl
  lengths column hcolumn := by
    obtain rfl := List.mem_singleton.mp hcolumn
    exact List.length_map some

/-- The equivalence at a file with a repeated key. -/
theorem noPoison_iff_sample :
    NoPoison sampleTextKey.indices ',' "\"k\"\n\"b\"\n\"a\"\n".toList ↔
      KeysShowApart sampleTextKey.indices
        [sampleTextKeyBatch ["a".toList, "b".toList], sampleTextKeyBatch ["a".toList]] :=
  noPoison_iff sampleTextKey _ ',' _ 2 (by simp [sampleTextKeyBatch]) (by decide) (by decide)

/-- Two keys that differ in a NUL character are two rows with the same key text. -/
theorem poison_file_of_nul :
    ¬ ∀ (schema : UpsertSchema) (batches : List RecordBatch) (delimiter : Char) (body : Text)
      (count : Nat), (∀ batch ∈ batches, batch.schema = schema.arrow) →
        validDelimiter delimiter →
          renderOnce schema.toTableSchema true delimiter batches = .ok (body, count) →
            NoPoison schema.indices delimiter body := by
  intro hclaim
  obtain ⟨headerRecord, rows, hread, hpairwise⟩ := hclaim sampleTextKey
    [sampleTextKeyBatch ["a\x00b".toList, "ab".toList]] ','
    "\"k\"\n\"ab\"\n\"ab\"\n".toList 2 (by simp [sampleTextKeyBatch]) (by decide) (by decide)
  have hrecords : readCsv ',' "\"k\"\n\"ab\"\n\"ab\"\n".toList =
      some [[some "k".toList], [some "ab".toList], [some "ab".toList]] := by decide
  rw [hrecords, Option.some.injEq, List.cons.injEq] at hread
  obtain ⟨-, rfl⟩ := hread
  revert hpairwise
  decide

end RelytIngest
