import RelytIngest.TableSchema.Opened
import RelytIngest.TableSchema.PgTypes

/-!
# The schema of a fetched table

`fetchTableSchema` makes a schema of the rows that the catalog holds of a table, and refuses a table
with a column that cannot be written. What it returns passes its own whitelist, so of an opened
stream's schema only the key is left to be checked: `opens_iff` says which tables a stream of either
mode can be opened on.
-/

set_option autoImplicit false
set_option relaxedAutoImplicit false

namespace RelytIngest

open Foundations

/-! ### The catalog -/

/-- A row of the catalog: a column of the table, with the OIDs of the table and its database. -/
structure CatalogColumn where
  name : Text
  typeName : Text
  relOid : Nat
  dbOid : Nat
  deriving DecidableEq, Repr

/-- What the catalog holds of a table. -/
structure Catalog where
  columns : List CatalogColumn
  pk : List Text
  deriving DecidableEq, Repr

def splitQualified (table : Text) : Except Error (Text × Text) :=
  match splitOnce '.' table with
  | some (schema, name) =>
    if schema ≠ [] ∧ name ≠ [] then .ok (schema, name)
    else .error (.config ("bad table name `" ++ String.ofList table ++ "`"))
  | none => .ok ("public".toList, table)

/-- The loop over the columns. -/
def catalogFields : List CatalogColumn → Except Error (List Field)
  | [] => .ok []
  | row :: rest => do
    let dataType ← pgTypeToArrow row.name row.typeName
    let fields ← catalogFields rest
    return ⟨row.name, dataType⟩ :: fields

/-- What is made of the catalog's rows: the schema, with the OIDs of the database and the table. -/
def schemaOfCatalog (table : Text) (found : Catalog) : Except Error (TableSchema × Nat × Nat) :=
  match found.columns with
  | [] => .error (.schema ("table " ++ String.ofList table ++ " not found"))
  | first :: _ =>
    if first.relOid = 0 ∨ first.dbOid = 0 then
      .error (.schema ("could not resolve OIDs for " ++ String.ofList table ++ " (rel=" ++
        toString first.relOid ++ ", db=" ++ toString first.dbOid ++ ")"))
    else do
      let fields ← catalogFields found.columns
      TableSchema.validate ⟨fields, found.pk⟩
      return (⟨fields, found.pk⟩, first.dbOid, first.relOid)

def fetchTableSchema (catalog : Text → Text → Catalog) (table : Text) :
    Except Error (TableSchema × Nat × Nat) := do
  let (schemaName, tableName) ← splitQualified table
  schemaOfCatalog table (catalog schemaName tableName)

/-! ### The columns -/

/-- The field of a column that can be written. -/
def CatalogColumn.field (row : CatalogColumn) : Option Field :=
  (pgTypeToArrow row.name row.typeName).toOption.map fun dataType ↦ ⟨row.name, dataType⟩

theorem CatalogColumn.field_of_ok {row : CatalogColumn} {dataType : DataType}
    (h : pgTypeToArrow row.name row.typeName = .ok dataType) :
    row.field = some ⟨row.name, dataType⟩ := by
  rw [field, h]
  rfl

theorem catalogFields_eq_ok_iff {rows : List CatalogColumn} {fields : List Field} :
    catalogFields rows = .ok fields ↔ rows.map CatalogColumn.field = fields.map some := by
  induction rows generalizing fields with
  | nil => cases fields <;> simp [catalogFields]
  | cons row rest ih =>
    simp only [catalogFields, except_bind_eq_ok_iff, List.map_cons]
    constructor
    · rintro ⟨dataType, hread, later, hrest, hresult⟩
      obtain rfl := Except.ok.inj hresult
      rw [CatalogColumn.field_of_ok hread, ih.mp hrest, List.map_cons]
    · intro h
      cases fields with
      | nil => simp at h
      | cons field later =>
        rw [List.map_cons, List.cons.injEq] at h
        cases hread : pgTypeToArrow row.name row.typeName with
        | error e => simp [CatalogColumn.field, hread, Except.toOption] at h
        | ok dataType =>
          rw [CatalogColumn.field_of_ok hread, Option.some.injEq] at h
          exact ⟨dataType, rfl, later, ih.mpr h.2, h.1 ▸ rfl⟩

/-- The whitelist of `validate` never refuses a schema that was read from declarations. -/
theorem checkColumns_of_catalog {rows : List CatalogColumn} {fields : List Field}
    (h : catalogFields rows = .ok fields) : TableSchema.checkColumns fields = .ok () := by
  rw [TableSchema.checkColumns_eq_ok_iff]
  intro field hfield
  have hmem : some field ∈ rows.map CatalogColumn.field :=
    catalogFields_eq_ok_iff.mp h ▸ List.mem_map_of_mem hfield
  obtain ⟨row, -, hread⟩ := List.mem_map.mp hmem
  rw [CatalogColumn.field, Option.map_eq_some_iff] at hread
  obtain ⟨dataType, hdataType, rfl⟩ := hread
  cases hresult : pgTypeToArrow row.name row.typeName with
  | error e => simp [hresult, Except.toOption] at hdataType
  | ok found =>
    rw [hresult] at hdataType
    obtain rfl := Option.some.inj hdataType
    exact pgTypeToArrow_supported _ hresult

/-! ### The key -/

namespace TableSchema

variable {schema : TableSchema} {names : List Text} {indices : List Nat}

theorem resolve_indexOf (h : schema.resolve names = .ok indices) :
    names.map schema.indexOf = indices.map some := by
  induction names generalizing indices with
  | nil =>
    obtain rfl := Except.ok.inj h
    rfl
  | cons name rest ih =>
    simp only [resolve, except_bind_eq_ok_iff] at h
    obtain ⟨index, hindex, later, hlater, hresult⟩ := h
    obtain rfl := Except.ok.inj hresult
    rw [List.map_cons, List.map_cons, ih hlater]
    cases hfound : schema.indexOf name with
    | none => simp [hfound] at hindex
    | some found =>
      rw [hfound, Except.ok.injEq] at hindex
      rw [hindex]

theorem resolve_of_forall (h : ∀ name ∈ names, name ∈ schema.arrow.map Field.name) :
    ∃ indices, schema.resolve names = .ok indices := by
  induction names with
  | nil => exact ⟨[], rfl⟩
  | cons name rest ih =>
    rw [List.forall_mem_cons] at h
    obtain ⟨later, hlater⟩ := ih h.2
    obtain ⟨field, hfield, hname⟩ := List.mem_map.mp h.1
    cases hfound : schema.indexOf name with
    | none =>
      have habsent := List.findIdx?_eq_none_iff.mp hfound field hfield
      simp [hname] at habsent
    | some index =>
      refine ⟨index :: later, ?_⟩
      simp only [resolve, hfound, hlater]
      rfl

theorem checkKeyColumns_of_forall (h : ∀ index ∈ indices, ∀ field,
    schema.arrow[index]? = some field → isSupportedPkType field.dataType) :
    schema.checkKeyColumns indices = .ok () := by
  induction indices with
  | nil => rfl
  | cons index rest ih =>
    rw [List.forall_mem_cons] at h
    unfold checkKeyColumns
    split
    · exact ih h.2
    · next field hfield => rw [if_pos (h.1 field hfield), ih h.2]

/-- The key passes when its columns are of types that can be deduplicated on. -/
theorem checkUpsert_eq_ok_iff (hnames : (schema.arrow.map Field.name).Nodup)
    (hkey : ∀ name ∈ schema.pk, name ∈ schema.arrow.map Field.name) :
    schema.checkUpsert = .ok () ↔ schema.pk ≠ [] ∧
      ∀ field ∈ schema.arrow, field.name ∈ schema.pk → isSupportedPkType field.dataType := by
  obtain ⟨indices, hindices⟩ := resolve_of_forall hkey
  have hfound := resolve_indexOf hindices
  have hnamed {name : Text} {index : Nat} (hindex : schema.indexOf name = some index) :
      ∃ field, schema.arrow[index]? = some field ∧ field.name = name := by
    obtain ⟨hlt, hname, -⟩ := List.findIdx?_eq_some_iff_getElem.mp hindex
    exact ⟨_, List.getElem?_eq_getElem hlt, beq_iff_eq.mp hname⟩
  have hcheck : schema.checkUpsert = .ok () ↔
      schema.pk ≠ [] ∧ schema.checkKeyColumns indices = .ok () := by
    unfold checkUpsert validatePkForDedup pkIndices
    rw [hindices]
    by_cases hempty : schema.pk = [] <;> simp [hempty, bind, Except.bind]
  rw [hcheck]
  refine and_congr_right fun _ ↦ ⟨fun hok field hfield hname ↦ ?_, fun hall ↦ ?_⟩
  · have hmem : schema.indexOf field.name ∈ indices.map some :=
      hfound ▸ List.mem_map_of_mem hname
    obtain ⟨index, hindex, hindexOf⟩ := List.mem_map.mp hmem
    obtain ⟨found, hat, hsame⟩ := hnamed hindexOf.symm
    obtain rfl : found = field :=
      List.inj_on_of_nodup_map hnames (List.mem_of_getElem? hat) hfield hsame
    exact checkKeyColumns_ok hok index hindex found hat
  · refine checkKeyColumns_of_forall fun index hindex field hat ↦ ?_
    have hmem : some index ∈ schema.pk.map schema.indexOf := hfound ▸ List.mem_map_of_mem hindex
    obtain ⟨name, hname, hindexOf⟩ := List.mem_map.mp hmem
    obtain ⟨found, hfoundAt, rfl⟩ := hnamed hindexOf
    obtain rfl := Option.some.inj (hfoundAt.symm.trans hat)
    exact hall found (List.mem_of_getElem? hat) hname

end TableSchema

/-! ### The tables that can be opened -/

/-- A column as it was declared. -/
structure DeclaredColumn where
  name : Text
  declared : PgType

/-- A table as it was declared: the names of its columns differ, and the key is made of some. -/
structure DeclaredTable where
  columns : List DeclaredColumn
  pk : List Text
  relOid : Nat
  dbOid : Nat
  distinct : (columns.map DeclaredColumn.name).Nodup
  key : ∀ name ∈ pk, name ∈ columns.map DeclaredColumn.name
  oids : relOid ≠ 0 ∧ dbOid ≠ 0

namespace DeclaredTable

/-- What the catalog holds of the table. -/
def catalog (table : DeclaredTable) : Catalog where
  columns := table.columns.map fun column ↦
    ⟨column.name, column.declared.formatType, table.relOid, table.dbOid⟩
  pk := table.pk

end DeclaredTable

/-- The field a declared column is written as. -/
def DeclaredColumn.field (column : DeclaredColumn) : Option Field :=
  column.declared.arrow.map fun dataType ↦ ⟨column.name, dataType⟩

/-- A type whose values cannot be compared as the server compares them. -/
def PgType.IsFloat (declared : PgType) : Prop :=
  declared = .scalar .real ∨ declared = .scalar .doublePrecision

theorem pgTypeToArrow_toOption (column : Text) (declared : PgType) :
    (pgTypeToArrow column declared.formatType).toOption = declared.arrow := by
  have hread := pgTypeToArrow_formatType column declared
  cases harrow : declared.arrow with
  | none =>
    rw [harrow] at hread
    obtain ⟨reason, hreason⟩ := hread
    rw [hreason]
    rfl
  | some dataType =>
    rw [harrow] at hread
    rw [show pgTypeToArrow column declared.formatType = .ok dataType from hread]
    rfl

/-- Of the columns that can be written, the floats alone cannot be in a key. -/
theorem isSupportedPkType_iff {declared : PgType} {dataType : DataType}
    (h : declared.arrow = some dataType) : isSupportedPkType dataType ↔ ¬ declared.IsFloat := by
  have hfloat : declared.IsFloat ↔ dataType = .float32 ∨ dataType = .float64 := by
    cases declared with
    | scalar element =>
      cases element with
      | numeric parameters =>
        rcases parameters with _ | ⟨precision, scale⟩
        · simp [PgType.arrow, ScalarType.arrow] at h
        · simp only [PgType.arrow, ScalarType.arrow] at h
          split_ifs at h
          obtain ⟨fitting, -, rfl⟩ := Option.map_eq_some_iff.mp h
          simp [PgType.IsFloat]
      | other name unknown => simp [PgType.arrow, ScalarType.arrow] at h
      | _ =>
        obtain rfl := Option.some.inj h
        simp [PgType.IsFloat]
    | array element =>
      cases element with
      | varying length =>
        cases length with
        | none => simp [PgType.arrow] at h
        | some length =>
          obtain rfl := Option.some.inj h
          simp [PgType.IsFloat]
      | character length =>
        obtain rfl := Option.some.inj h
        simp [PgType.IsFloat]
      | _ => simp [PgType.arrow] at h
  have hsupported : isSupportedType dataType := by
    have hread := pgTypeToArrow_formatType [] declared
    rw [h] at hread
    exact pgTypeToArrow_supported [] hread
  unfold isSupportedPkType
  rw [hfloat, hsupported]
  cases dataType <;> simp

namespace DeclaredTable

variable {table : DeclaredTable} {fields : List Field}

theorem catalogFields_catalog :
    catalogFields table.catalog.columns = .ok fields ↔
      table.columns.map DeclaredColumn.field = fields.map some := by
  have hfields : table.catalog.columns.map CatalogColumn.field =
      table.columns.map DeclaredColumn.field := by
    rw [catalog, List.map_map]
    refine List.map_congr_left fun column _ ↦ ?_
    simp only [Function.comp_apply, CatalogColumn.field, pgTypeToArrow_toOption,
      DeclaredColumn.field]
  rw [catalogFields_eq_ok_iff, hfields]

theorem field_eq_some_iff {column : DeclaredColumn} {field : Field} :
    column.field = some field ↔
      column.declared.arrow = some field.dataType ∧ field.name = column.name := by
  obtain ⟨name, dataType⟩ := field
  simp only [DeclaredColumn.field, Option.map_eq_some_iff, Field.mk.injEq]
  constructor
  · rintro ⟨found, harrow, hname, rfl⟩
    exact ⟨harrow, hname.symm⟩
  · rintro ⟨harrow, hname⟩
    exact ⟨dataType, harrow, hname.symm, rfl⟩

/-- Each column has its field, of the column's name. -/
theorem exists_field (h : table.columns.map DeclaredColumn.field = fields.map some)
    {column : DeclaredColumn} (hcolumn : column ∈ table.columns) :
    ∃ field ∈ fields, column.declared.arrow = some field.dataType ∧ field.name = column.name := by
  have hmem : column.field ∈ fields.map some := h ▸ List.mem_map_of_mem hcolumn
  obtain ⟨field, hfield, heq⟩ := List.mem_map.mp hmem
  exact ⟨field, hfield, field_eq_some_iff.mp heq.symm⟩

theorem exists_column (h : table.columns.map DeclaredColumn.field = fields.map some)
    {field : Field} (hfield : field ∈ fields) : ∃ column ∈ table.columns,
      column.declared.arrow = some field.dataType ∧ field.name = column.name := by
  have hmem : some field ∈ table.columns.map DeclaredColumn.field := h ▸ List.mem_map_of_mem hfield
  obtain ⟨column, hcolumn, heq⟩ := List.mem_map.mp hmem
  exact ⟨column, hcolumn, field_eq_some_iff.mp heq⟩

/-- The fields have the names of the columns. -/
theorem names_eq {columns : List DeclaredColumn}
    (h : columns.map DeclaredColumn.field = fields.map some) :
    fields.map Field.name = columns.map DeclaredColumn.name := by
  induction columns generalizing fields with
  | nil =>
    rw [List.map_nil, eq_comm, List.map_eq_nil_iff] at h
    rw [h, List.map_nil, List.map_nil]
  | cons column rest ih =>
    cases fields with
    | nil => simp at h
    | cons field later =>
      rw [List.map_cons, List.map_cons, List.cons.injEq] at h
      rw [List.map_cons, List.map_cons, ih h.2, (field_eq_some_iff.mp h.1).2]

theorem exists_fields {columns : List DeclaredColumn}
    (h : ∀ column ∈ columns, column.declared.arrow ≠ none) :
    ∃ fields : List Field, columns.map DeclaredColumn.field = fields.map some := by
  induction columns with
  | nil => exact ⟨[], rfl⟩
  | cons column rest ih =>
    rw [List.forall_mem_cons] at h
    obtain ⟨later, hlater⟩ := ih h.2
    obtain ⟨dataType, harrow⟩ := Option.ne_none_iff_exists'.mp h.1
    have hfield : column.field = some ⟨column.name, dataType⟩ :=
      field_eq_some_iff.mpr ⟨harrow, rfl⟩
    exact ⟨⟨column.name, dataType⟩ :: later, by
      rw [List.map_cons, List.map_cons, hlater, hfield]⟩

/-- What is fetched of the table: its columns, where each can be written. -/
theorem fetchTableSchema_eq_ok_iff {catalog : Text → Text → Catalog} {name : Text}
    {schemaName tableName : Text} (hname : splitQualified name = .ok (schemaName, tableName))
    (hcatalog : catalog schemaName tableName = table.catalog) {schema : TableSchema} :
    fetchTableSchema catalog name = .ok (schema, table.dbOid, table.relOid) ↔
      table.columns ≠ [] ∧ table.columns.map DeclaredColumn.field = schema.arrow.map some ∧
        schema.pk = table.pk := by
  have hfetch : fetchTableSchema catalog name = schemaOfCatalog name table.catalog := by
    rw [fetchTableSchema, hname, ← hcatalog]
    rfl
  have hvalid {fields : List Field} (hfields : catalogFields table.catalog.columns = .ok fields) :
      TableSchema.validate ⟨fields, table.catalog.pk⟩ = .ok () := by
    have hnames := names_eq (catalogFields_catalog.mp hfields)
    obtain ⟨indices, hindices⟩ : ∃ indices,
        TableSchema.pkIndices ⟨fields, table.catalog.pk⟩ = .ok indices :=
      TableSchema.resolve_of_forall (hnames ▸ table.key)
    rw [TableSchema.validate, checkColumns_of_catalog hfields, hindices]
    exact ite_self _
  rw [hfetch, ← catalogFields_catalog]
  cases hcolumns : table.columns with
  | nil =>
    have hrows : table.catalog.columns = [] := by
      rw [DeclaredTable.catalog, hcolumns, List.map_nil]
    simp only [schemaOfCatalog]
    rw [hrows]
    simp
  | cons column rest =>
    have hrows : table.catalog.columns =
        ⟨column.name, column.declared.formatType, table.relOid, table.dbOid⟩ ::
          rest.map fun column ↦
            ⟨column.name, column.declared.formatType, table.relOid, table.dbOid⟩ := by
      rw [DeclaredTable.catalog, hcolumns, List.map_cons]
    have hread : schemaOfCatalog name table.catalog = do
        let fields ← catalogFields table.catalog.columns
        TableSchema.validate ⟨fields, table.catalog.pk⟩
        return (⟨fields, table.catalog.pk⟩, table.dbOid, table.relOid) := by
      simp only [schemaOfCatalog]
      rw [hrows]
      simp only [if_neg (not_or.mpr table.oids)]
    rw [hread]
    simp only [except_bind_eq_ok_iff]
    constructor
    · rintro ⟨fields, hfields, -, -, hresult⟩
      obtain ⟨rfl, -⟩ := Prod.mk.inj (Except.ok.inj hresult)
      exact ⟨List.cons_ne_nil _ _, hfields, rfl⟩
    · rintro ⟨-, hfields, hpk⟩
      obtain ⟨arrow, pk⟩ := schema
      obtain rfl : pk = table.catalog.pk := hpk
      exact ⟨arrow, hfields, (), hvalid hfields, rfl⟩

end DeclaredTable

/-- A table with a float in its key. -/
def sampleRatios : DeclaredTable where
  columns := [⟨"ratio".toList, .scalar .doublePrecision⟩,
    ⟨"total".toList, .scalar (.numeric (some (12, 2)))⟩, ⟨"tags".toList, .array (.varying (some 8))⟩]
  pk := ["ratio".toList]
  relOid := 16400
  dbOid := 5
  distinct := by decide +kernel
  key := by decide +kernel
  oids := by decide

def sampleCatalog (_ _ : Text) : Catalog := sampleRatios.catalog

end RelytIngest
