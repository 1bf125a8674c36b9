import RelytIngest.Arrow.RecordBatch
import RelytIngest.Csv.Formatter

/-!
# Table schemas

The target table as the crate sees it: its columns and the names of its primary-key columns.
`pkIndices` resolves the names, `validatePkForDedup` accepts the key types the dedup pass can
encode, and `checkUpsert` is what `open_table` asks of the schema of an upsert stream. An
`UpsertSchema` is a schema that passed it, so its key is not empty, lies inside the schema and has
encodable types (`UpsertSchema.indices_ne_nil`, `UpsertSchema.supported`).
-/

set_option autoImplicit false
set_option relaxedAutoImplicit false

namespace RelytIngest

open Foundations

/-- The columns and the primary key of the target table. -/
structure TableSchema where
  arrow : List Field
  pk : List Text
  deriving DecidableEq, Repr

/-- `schema_compatible`: column order, names and types. -/
def schemaCompatible (a b : List Field) : Bool :=
  a.length == b.length &&
    (a.zip b).all fun (x, y) ↦ x.name == y.name && decide (x.dataType = y.dataType)

theorem schemaCompatible_iff (a b : List Field) : schemaCompatible a b ↔ a = b := by
  induction a generalizing b with
  | nil => cases b <;> simp [schemaCompatible]
  | cons x rest ih =>
    cases b with
    | nil => simp [schemaCompatible]
    | cons y rest' =>
      have hrest := ih rest'
      obtain ⟨name, dataType⟩ := x
      obtain ⟨name', dataType'⟩ := y
      simp only [schemaCompatible, List.length_cons, List.zip_cons_cons, List.all_cons,
        Bool.and_eq_true, beq_iff_eq, decide_eq_true_eq, List.cons.injEq, Field.mk.injEq,
        add_left_inj] at hrest ⊢
      tauto

namespace TableSchema

/-- The index of a column name, as in `Schema::index_of`. -/
def indexOf (schema : TableSchema) (name : Text) : Option Nat :=
  schema.arrow.findIdx? fun field ↦ field.name == name

/-- The indices of the named columns; a name that is not a column ends the search. -/
def resolve (schema : TableSchema) : List Text → Except Error (List Nat)
  | [] => .ok []
  | name :: rest => do
    let index ← (match schema.indexOf name with
      | some index => Except.ok index
      | none => .error (.schema ("primary key column `" ++ String.ofList name ++ "` not in schema")))
    let later ← schema.resolve rest
    return index :: later

/-- `pk_indices`. -/
def pkIndices (schema : TableSchema) : Except Error (List Nat) := schema.resolve schema.pk

/-- The loop of `validate_pk_for_dedup` over the key columns. -/
def checkKeyColumns (schema : TableSchema) : List Nat → Except Error Unit
  | [] => .ok ()
  | index :: rest =>
    match schema.arrow[index]? with
    | none => schema.checkKeyColumns rest
    | some field =>
      if isSupportedPkType field.dataType then schema.checkKeyColumns rest
      else .error (.unsupportedType (String.ofList field.name)
        (field.dataType.debug ++ " (primary key column of an upsert stream: floating-point keys " ++
          "cannot be deduplicated, because equality on NaN and ±0.0 differs between the client " ++
          "and the server)"))

/-- `validate_pk_for_dedup`. -/
def validatePkForDedup (schema : TableSchema) : Except Error Unit := do
  let indices ← schema.pkIndices
  schema.checkKeyColumns indices

/-- What `open_table` asks of the schema of an upsert stream. -/
def checkUpsert (schema : TableSchema) : Except Error Unit :=
  if schema.pk = [] then
    .error (.schema ("upsert mode requires the target table to have a primary key " ++
      "(use StreamMode::InsertOnly for tables without one)"))
  else
    schema.validatePkForDedup

theorem resolve_ok {schema : TableSchema} {names : List Text} {indices : List Nat}
    (hresolve : schema.resolve names = .ok indices) :
    indices.length = names.length ∧ ∀ index ∈ indices, index < schema.arrow.length := by
  induction names generalizing indices with
  | nil =>
    obtain rfl := Except.ok.inj hresolve
    simp
  | cons name rest ih =>
    simp only [resolve, except_bind_eq_ok_iff] at hresolve
    obtain ⟨index, hindex, later, hlater, hresult⟩ := hresolve
    obtain rfl := Except.ok.inj hresult
    obtain ⟨hlength, hrange⟩ := ih hlater
    refine ⟨by rw [List.length_cons, List.length_cons, hlength], ?_⟩
    rw [List.forall_mem_cons]
    refine ⟨?_, hrange⟩
    cases hfound : schema.indexOf name with
    | none => simp [hfound] at hindex
    | some found =>
      rw [hfound, Except.ok.injEq] at hindex
      subst hindex
      exact (List.findIdx?_eq_some_iff_findIdx_eq.mp hfound).1

theorem checkKeyColumns_ok {schema : TableSchema} {indices : List Nat}
    (hcheck : schema.checkKeyColumns indices = .ok ()) :
    ∀ index ∈ indices, ∀ field, schema.arrow[index]? = some field →
      isSupportedPkType field.dataType := by
  induction indices with
  | nil => simp
  | cons index rest ih =>
    intro other hother field hfield
    unfold checkKeyColumns at hcheck
    split at hcheck
    · next hnone =>
      rcases List.mem_cons.mp hother with rfl | hrest
      · simp [hnone] at hfield
      · exact ih hcheck other hrest field hfield
    · next found hfound =>
      split_ifs at hcheck with hsupported
      rcases List.mem_cons.mp hother with rfl | hrest
      · rw [hfound, Option.some.injEq] at hfield
        exact hfield ▸ hsupported
      · exact ih hcheck other hrest field hfield

end TableSchema

/-- The schema of an upsert stream: one `open_table` accepts. -/
structure UpsertSchema extends TableSchema where
  accepted : toTableSchema.checkUpsert = .ok ()

namespace UpsertSchema

/-- The indices of the primary-key columns. -/
def indices (schema : UpsertSchema) : List Nat :=
  match schema.pkIndices with
  | .ok found => found
  | .error _ => []

variable (schema : UpsertSchema)

theorem accepted_parts :
    schema.pk ≠ [] ∧ schema.pkIndices = .ok schema.indices ∧
      schema.checkKeyColumns schema.indices = .ok () := by
  have haccepted := schema.accepted
  unfold TableSchema.checkUpsert at haccepted
  split_ifs at haccepted with hempty
  simp only [TableSchema.validatePkForDedup, except_bind_eq_ok_iff] at haccepted
  obtain ⟨found, hfound, hcheck⟩ := haccepted
  have hindices : schema.indices = found := by simp [indices, hfound]
  exact ⟨hempty, by rw [hindices, hfound], by rw [hindices, hcheck]⟩

theorem pkIndices_eq : schema.pkIndices = .ok schema.indices := schema.accepted_parts.2.1

theorem indices_ne_nil : schema.indices ≠ [] := by
  obtain ⟨hempty, hindices, -⟩ := schema.accepted_parts
  have hlength := (TableSchema.resolve_ok hindices).1
  intro hnil
  rw [hnil, List.length_nil] at hlength
  exact hempty (List.length_eq_zero_iff.mp hlength.symm)

theorem lt_of_mem_indices {index : Nat} (hindex : index ∈ schema.indices) :
    index < schema.arrow.length :=
  (TableSchema.resolve_ok schema.accepted_parts.2.1).2 index hindex

theorem arrow_ne_nil : schema.arrow ≠ [] := by
  obtain ⟨index, hindex⟩ := List.exists_mem_of_ne_nil _ schema.indices_ne_nil
  exact List.ne_nil_of_length_pos (Nat.zero_lt_of_lt (schema.lt_of_mem_indices hindex))

/-- Every key column has a type the dedup pass encodes. -/
theorem supported {index : Nat} (hindex : index ∈ schema.indices) {field : Field}
    (hfield : schema.arrow[index]? = some field) : isSupportedPkType field.dataType :=
  TableSchema.checkKeyColumns_ok schema.accepted_parts.2.2 index hindex field hfield

end UpsertSchema

end RelytIngest
