import RelytIngest.Render

/-!
# The schemas of opened tables

`validate` is the column check of a fetched schema, and `checkOpen` what `open_table` asks of it in
the mode of the stream. An `OpenedSchema` is one that passed. Its batches are the ones `append`
takes, and they render whatever they hold (`OpenedSchema.renderOnce_ok`): the check of a column's
type when its rows are written, and of the key's when they are deduplicated, never fails behind
those that the caller has seen.
-/

set_option autoImplicit false
set_option relaxedAutoImplicit false

namespace RelytIngest

open Foundations

namespace TableSchema

/-- The whitelist loop of `validate`. -/
def checkColumns : List Field → Except Error Unit
  | [] => .ok ()
  | field :: rest =>
    if isSupportedType field.dataType then checkColumns rest
    else .error (.unsupportedType (String.ofList field.name) field.dataType.debug)

/-- `validate`: the key does not have to be there, but it has to be in the schema. -/
def validate (schema : TableSchema) : Except Error Unit := do
  checkColumns schema.arrow
  if schema.pk = [] then .ok () else schema.pkIndices.map fun _ ↦ ()

/-- What a schema has to pass in `open_table`. -/
def checkOpen (schema : TableSchema) (upsert : Bool) : Except Error Unit := do
  schema.validate
  if upsert then schema.checkUpsert else .ok ()

theorem checkColumns_eq_ok_iff {fields : List Field} :
    checkColumns fields = .ok () ↔ ∀ field ∈ fields, isSupportedType field.dataType := by
  induction fields with
  | nil => simp [checkColumns]
  | cons field rest ih =>
    rw [checkColumns, List.forall_mem_cons]
    by_cases hsupported : isSupportedType field.dataType = true
    · rw [if_pos hsupported, ih]
      exact ⟨fun h ↦ ⟨hsupported, h⟩, fun h ↦ h.2⟩
    · rw [if_neg hsupported]
      simp [hsupported]

theorem checkOpen_eq_ok_iff {schema : TableSchema} {upsert : Bool} :
    schema.checkOpen upsert = .ok () ↔
      (∀ field ∈ schema.arrow, isSupportedType field.dataType) ∧
        (schema.pk ≠ [] → ∃ indices, schema.pkIndices = .ok indices) ∧
        (upsert = true → schema.checkUpsert = .ok ()) := by
  have hkey : (if schema.pk = [] then Except.ok () else schema.pkIndices.map fun _ ↦ ()) =
      (.ok () : Except Error Unit) ↔
        (schema.pk ≠ [] → ∃ indices, schema.pkIndices = .ok indices) := by
    by_cases hpk : schema.pk = []
    · simp [hpk]
    · cases hindices : schema.pkIndices <;> simp [hpk, Except.map]
  have hcolumns (result : Unit) : checkColumns schema.arrow = .ok result ↔
      ∀ field ∈ schema.arrow, isSupportedType field.dataType := checkColumns_eq_ok_iff
  simp only [checkOpen, validate, except_bind_eq_ok_iff, hcolumns, hkey, exists_const]
  cases upsert <;> simp [and_assoc]

end TableSchema

/-- A schema that `open_table` accepted for a stream of a mode. A table has a column. -/
structure OpenedSchema extends TableSchema where
  upsert : Bool
  columns : arrow ≠ []
  opened : toTableSchema.checkOpen upsert = .ok ()

namespace OpenedSchema

variable (schema : OpenedSchema)

theorem supportedType {field : Field} (hfield : field ∈ schema.arrow) :
    isSupportedType field.dataType :=
  (TableSchema.checkOpen_eq_ok_iff.mp schema.opened).1 field hfield

/-- The schema of an upsert stream. -/
def toUpsert (hupsert : schema.upsert = true) : UpsertSchema where
  toTableSchema := schema.toTableSchema
  accepted := (TableSchema.checkOpen_eq_ok_iff.mp schema.opened).2.2 hupsert

/-- The key columns that files are deduplicated and loaded on, none where rows are only added. -/
def loadKey : Option (List Nat) :=
  if hupsert : schema.upsert = true then some (schema.toUpsert hupsert).indices else none

theorem loadKey_eq_some {pkColumns : List Nat} (hkey : schema.loadKey = some pkColumns) :
    ∃ hupsert : schema.upsert = true, pkColumns = (schema.toUpsert hupsert).indices := by
  unfold loadKey at hkey
  split_ifs at hkey with hupsert
  exact ⟨hupsert, (Option.some.inj hkey).symm⟩

theorem keyColumns {pkColumns : List Nat} (hkey : schema.loadKey = some pkColumns) :
    KeyColumns schema.arrow pkColumns := by
  obtain ⟨hupsert, rfl⟩ := schema.loadKey_eq_some hkey
  exact (schema.toUpsert hupsert).keyColumns

/-- `render_once` resolves the key that files are loaded on. -/
theorem renderOnce_eq (delimiter : Char) (batches : List RecordBatch) :
    renderOnce schema.toTableSchema schema.upsert delimiter batches =
      render batches schema.loadKey (schema.arrow.map Field.name) delimiter := by
  unfold renderOnce loadKey
  by_cases hupsert : schema.upsert = true
  · have hindices : schema.pkIndices = .ok (schema.toUpsert hupsert).indices :=
      (schema.toUpsert hupsert).pkIndices_eq
    rw [if_pos hupsert, dif_pos hupsert, hindices]
    rfl
  · rw [if_neg hupsert, dif_neg hupsert]
    rfl

variable {schema} {batches : List RecordBatch}

/-- The columns of a batch of the schema can be written. -/
theorem supported_columns {batch : RecordBatch} (hschema : batch.schema = schema.arrow)
    {column : Column} (hcolumn : column ∈ batch.columns) : isSupportedType column.dataType := by
  have hmem : column.dataType ∈ batch.schema.map Field.dataType :=
    batch.types ▸ List.mem_map_of_mem hcolumn
  rw [hschema] at hmem
  obtain ⟨field, hfield, heq⟩ := List.mem_map.mp hmem
  exact heq ▸ schema.supportedType hfield

theorem keptRows_ok (hschema : ∀ batch ∈ batches, batch.schema = schema.arrow) :
    ∃ keep, keptRows batches schema.loadKey = .ok keep := by
  cases hkey : schema.loadKey with
  | none => exact ⟨_, rfl⟩
  | some pkColumns =>
    obtain ⟨keep, hkeep, -⟩ := dedupLastWins_eq_ok batches pkColumns fun position hposition ↦
      (schema.keyColumns hkey).supported (hschema _ (mem_rowPositions hposition).1) position.row
    exact ⟨keep, hkeep⟩

/-- Batches of the schema render. -/
theorem renderOnce_ok (hschema : ∀ batch ∈ batches, batch.schema = schema.arrow)
    (delimiter : Char) :
    ∃ body count, renderOnce schema.toTableSchema schema.upsert delimiter batches =
      .ok (body, count) := by
  obtain ⟨keep, hkeep⟩ := keptRows_ok hschema
  obtain ⟨body, hbody⟩ : ∃ body,
      writeBody delimiter (schema.arrow.map Field.name) (batches.zip keep) = .ok body :=
    ⟨_, (writeBody_eq_ok_iff _ _ _ _).mpr ⟨fun part hpart column hcolumn ↦
      supported_columns (hschema _ (List.of_mem_zip hpart).1) hcolumn, rfl⟩⟩
  refine ⟨body, ((batches.zip keep).map fun part ↦ part.2.length).sum, ?_⟩
  simp only [renderOnce_eq, render, bind, Except.bind, hkeep, hbody]
  rfl

end OpenedSchema

end RelytIngest
