import RelytIngest.Dedup.LastRows

/-!
# Dedup selects last occurrences

`KeyColumns schema pkColumns` says that the key columns lie in the schema and have types that can be
part of a key. For batches of one schema the key bytes of two rows agree exactly when their key
values do, column by column (`pkKey_eq_iff`), so comparing bytes keeps the rows that comparing
values keeps (`survivors_eq`). `dedupLastWins_selects` is the specification of dedup that follows: a
row is kept when no later one has its key.
-/

set_option autoImplicit false
set_option relaxedAutoImplicit false

namespace RelytIngest

open Foundations

/-- The key columns are columns of the schema, of types that can be part of a key. -/
def KeyColumns (schema : List Field) (pkColumns : List Nat) : Prop :=
  ∀ col ∈ pkColumns, ∃ field, schema[col]? = some field ∧ isSupportedPkType field.dataType

/-- Every value of the primary key in the file is shorter than 2^32 bytes. -/
def ShortKeys (pkColumns : List Nat) (file : List RecordBatch) : Prop :=
  ∀ position ∈ rowPositions 0 file, ∀ cell ∈ position.key pkColumns, ShortCell cell

instance (pkColumns : List Nat) (file : List RecordBatch) : Decidable (ShortKeys pkColumns file) :=
  inferInstanceAs (Decidable (∀ position ∈ rowPositions 0 file, ∀ cell ∈ _, ShortCell cell))

/-! ### Key values and key bytes -/

section Keys

variable {schema : List Field} {pkColumns : List Nat} {batch : RecordBatch}
  {file : List RecordBatch}

/-- The type of a cell is the one the schema gives its column. -/
theorem RecordBatch.cell_type {col : Nat} {field : Field} (hfield : batch.schema[col]? = some field)
    (row : Nat) : (batch.cell col row).1 = field.dataType := by
  have hget := congrArg (fun types ↦ types[col]?) (batch.row_types row)
  simp only [List.getElem?_map, hfield, Option.map_some] at hget
  obtain ⟨cell, hcell, htype⟩ := Option.map_eq_some_iff.mp hget
  rw [RecordBatch.cell, hcell]
  exact htype

theorem KeyColumns.supported (hkeys : KeyColumns schema pkColumns) (hschema : batch.schema = schema)
    (row : Nat) : ∀ cell ∈ keyCells batch pkColumns row, isSupportedPkType cell.1 := by
  intro cell hcell
  obtain ⟨col, hcol, rfl⟩ := List.mem_map.mp hcell
  obtain ⟨field, hfield, hsupported⟩ := hkeys col hcol
  rwa [RecordBatch.cell_type (hschema ▸ hfield)]

/-- The cells of two rows of one schema in a key column have one type, which can be part of a key.
-/
theorem KeyColumns.cell_types (hkeys : KeyColumns schema pkColumns) {first second : Position}
    (hfirst : first.batch.schema = schema) (hsecond : second.batch.schema = schema) {col : Nat}
    (hcol : col ∈ pkColumns) :
    (first.batch.cell col first.row).1 = (second.batch.cell col second.row).1 ∧
      isSupportedPkType (first.batch.cell col first.row).1 := by
  obtain ⟨field, hfield, hsupported⟩ := hkeys col hcol
  have htype := RecordBatch.cell_type (hfirst ▸ hfield) first.row
  have htype' := RecordBatch.cell_type (hsecond ▸ hfield) second.row
  refine ⟨htype.trans htype'.symm, ?_⟩
  rwa [htype]

/-- Key cells of two rows of one schema, all short, are comparable column by column. -/
theorem KeyColumns.sameKeyColumns (hkeys : KeyColumns schema pkColumns) {first second : Position}
    (hfirst : first.batch.schema = schema) (hsecond : second.batch.schema = schema)
    (hshort : ∀ cell ∈ first.key pkColumns, ShortCell cell)
    (hshort' : ∀ cell ∈ second.key pkColumns, ShortCell cell) :
    List.Forall₂ SameKeyColumn (first.key pkColumns) (second.key pkColumns) := by
  simp only [Position.key, keyCells] at hshort hshort' ⊢
  rw [List.forall₂_map_left_iff, List.forall₂_map_right_iff, List.forall₂_same]
  intro col hcol
  rw [List.forall_mem_map] at hshort hshort'
  obtain ⟨htype, hsupported⟩ := hkeys.cell_types hfirst hsecond hcol
  exact ⟨htype, hsupported, hshort col hcol, hshort' col hcol⟩

/-- Equal keys of rows of one schema are equal key bytes. -/
theorem KeyColumns.pkKey_eq_iff (hkeys : KeyColumns schema pkColumns) {first second : Position}
    (hfirst : first.batch.schema = schema) (hsecond : second.batch.schema = schema) :
    pkKey first.batch first.row pkColumns = pkKey second.batch second.row pkColumns ↔
      keyBytes (first.key pkColumns) = keyBytes (second.key pkColumns) := by
  rw [pkKey_of_supported (hkeys.supported hfirst first.row),
    pkKey_of_supported (hkeys.supported hsecond second.row), Except.ok.injEq]
  rfl

/-- Rows of the file have the same key bytes exactly when they have the same key values. -/
theorem keyBytes_eq_iff (hkeys : KeyColumns schema pkColumns)
    (hschema : ∀ batch ∈ file, batch.schema = schema) (hshort : ShortKeys pkColumns file)
    {first second : Position} (hfirst : first ∈ rowPositions 0 file)
    (hsecond : second ∈ rowPositions 0 file) :
    keyBytes (first.key pkColumns) = keyBytes (second.key pkColumns) ↔
      first.key pkColumns = second.key pkColumns := by
  constructor
  · intro heq
    have hcomparable := hkeys.sameKeyColumns (hschema _ (mem_rowPositions hfirst).1)
      (hschema _ (mem_rowPositions hsecond).1) (hshort first hfirst) (hshort second hsecond)
    exact keyBytes_injective hcomparable heq
  · intro heq
    rw [heq]

/-- Comparing key bytes keeps the rows that comparing key values keeps. -/
theorem survivors_eq (hkeys : KeyColumns schema pkColumns)
    (hschema : ∀ batch ∈ file, batch.schema = schema) (hshort : ShortKeys pkColumns file) :
    survivors file pkColumns =
      lastWins (fun position ↦ position.key pkColumns) (rowPositions 0 file) :=
  lastWins_congr fun _ hfirst _ hsecond ↦ keyBytes_eq_iff hkeys hschema hshort hfirst hsecond

end Keys

/-! ### The rows kept -/

/-- Two rows have the same key values: NULL is equal to NULL and to nothing else. -/
def SameKey (pkColumns : List Nat) (batch : RecordBatch) (row : Nat) (other : RecordBatch)
    (otherRow : Nat) : Prop :=
  ∀ col ∈ pkColumns, batch.cell col row = other.cell col otherRow

/-- A row comes after another one: in a later batch, or later in the same one. -/
def After (index row otherIndex otherRow : Nat) : Prop :=
  index < otherIndex ∨ index = otherIndex ∧ row < otherRow

/-- The lists of row numbers `keep` select, batch by batch, the last row of every key. -/
structure SelectsLast (pkColumns : List Nat) (batches : List RecordBatch) (keep : List (List Nat)) :
    Prop where
  /-- There is one list for each batch. -/
  length : keep.length = batches.length
  increasing : ∀ rows ∈ keep, rows.Pairwise (· < ·)
  kept_iff : ∀ (index row : Nat), (∃ rows, keep[index]? = some rows ∧ row ∈ rows) ↔
    ∃ batch, batches[index]? = some batch ∧ row < batch.numRows ∧
      ∀ (otherIndex otherRow : Nat) (other : RecordBatch), batches[otherIndex]? = some other →
        otherRow < other.numRows → After index row otherIndex otherRow →
          ¬ SameKey pkColumns batch row other otherRow

theorem mem_rowPositions_iff {batchIndex : Nat} {batches : List RecordBatch} {position : Position} :
    position ∈ rowPositions batchIndex batches ↔
      batchIndex ≤ position.batchIndex ∧
        batches[position.batchIndex - batchIndex]? = some position.batch ∧
        position.row < position.batch.numRows := by
  induction batches generalizing batchIndex with
  | nil => simp [rowPositions]
  | cons batch rest ih =>
    obtain ⟨other, index, row⟩ := position
    rw [rowPositions, List.mem_append, ih, List.mem_map]
    simp only [List.mem_range, Position.mk.injEq]
    constructor
    · rintro (⟨found, hrow, rfl, rfl, rfl⟩ | ⟨hindex, hget, hrow⟩)
      · simp [hrow]
      · obtain ⟨offset, rfl⟩ := Nat.exists_eq_add_of_le hindex
        have hoffset : batchIndex + 1 + offset - batchIndex = offset + 1 := by omega
        have hrest : batchIndex + 1 + offset - (batchIndex + 1) = offset := by omega
        rw [hrest] at hget
        refine ⟨by omega, ?_, hrow⟩
        rwa [hoffset, List.getElem?_cons_succ]
    · rintro ⟨hindex, hget, hrow⟩
      obtain ⟨offset, rfl⟩ := Nat.exists_eq_add_of_le hindex
      rw [Nat.add_sub_cancel_left] at hget
      cases offset with
      | zero =>
        obtain rfl : batch = other := by simpa using hget
        exact .inl ⟨row, hrow, rfl, rfl, rfl⟩
      | succ offset =>
        have hrest : batchIndex + (offset + 1) - (batchIndex + 1) = offset := by omega
        refine .inr ⟨by omega, ?_, hrow⟩
        rwa [hrest, ← List.getElem?_cons_succ]

theorem mem_rowPositions_zero_iff {batches : List RecordBatch} {position : Position} :
    position ∈ rowPositions 0 batches ↔
      batches[position.batchIndex]? = some position.batch ∧
        position.row < position.batch.numRows := by
  simp [mem_rowPositions_iff]

/-- The rows of the winners of a batch. -/
theorem mem_keepRows_iff {batches index row : Nat} {winners : List (Nat × Nat)}
    (hwinners : ∀ winner ∈ winners, winner.1 < batches) :
    (∃ rows, (keepRows batches winners)[index]? = some rows ∧ row ∈ rows) ↔
      (index, row) ∈ winners := by
  rw [keepRows_eq]
  simp only [List.getElem?_map, Option.map_eq_some_iff]
  constructor
  · rintro ⟨rows, ⟨found, hfound, rfl⟩, hrow⟩
    obtain ⟨hlt, hget⟩ := List.getElem?_eq_some_iff.mp hfound
    rw [List.getElem_range] at hget
    subst hget
    obtain ⟨winner, hwinner, rfl⟩ := List.mem_map.mp hrow
    obtain ⟨hmem, hindex⟩ := List.mem_filter.mp hwinner
    rw [← of_decide_eq_true hindex]
    exact hmem
  · intro hmem
    have hlt : index < batches := hwinners _ hmem
    refine ⟨_, ⟨index, by simp [hlt], rfl⟩, List.mem_map.mpr ⟨(index, row), ?_, rfl⟩⟩
    exact List.mem_filter.mpr ⟨hmem, decide_eq_true rfl⟩

theorem increasing_keepRows {batches : Nat} {winners : List (Nat × Nat)}
    (hwinners : winners.Pairwise fun first second ↦ After first.1 first.2 second.1 second.2) :
    ∀ rows ∈ keepRows batches winners, rows.Pairwise (· < ·) := by
  rw [keepRows_eq]
  intro rows hrows
  obtain ⟨index, -, rfl⟩ := List.mem_map.mp hrows
  rw [List.pairwise_map]
  refine (hwinners.filter _).imp_of_mem fun {first second} hfirst hsecond hafter ↦ ?_
  have hfirstIndex := of_decide_eq_true (List.mem_filter.mp hfirst).2
  have hsecondIndex := of_decide_eq_true (List.mem_filter.mp hsecond).2
  simp only [After] at hafter
  omega

section Selection

variable {schema : List Field} {pkColumns : List Nat} {batches : List RecordBatch}

/-- The survivors are the rows whose key no later row has. -/
theorem mem_survivors_iff (hkeys : KeyColumns schema pkColumns)
    (hschema : ∀ batch ∈ batches, batch.schema = schema) (hshort : ShortKeys pkColumns batches)
    (position : Position) :
    position ∈ survivors batches pkColumns ↔
      position ∈ rowPositions 0 batches ∧ ∀ other ∈ rowPositions 0 batches,
        After position.batchIndex position.row other.batchIndex other.row →
          ¬ SameKey pkColumns position.batch position.row other.batch other.row := by
  rw [survivors_eq hkeys hschema hshort, mem_lastWins_iff_of_pairwise _
    (pairwise_rowPositions 0 batches) fun first second ↦ by omega]
  refine and_congr_right fun _ ↦ forall₂_congr fun other _ ↦ forall_congr' fun _ ↦ not_congr ?_
  simp only [Position.key, keyCells, SameKey, List.map_inj_left]
  exact forall₂_congr fun _ _ ↦ eq_comm

/-- Dedup keeps, of every key, the last row. -/
theorem dedupLastWins_selects (hkeys : KeyColumns schema pkColumns)
    (hschema : ∀ batch ∈ batches, batch.schema = schema) (hshort : ShortKeys pkColumns batches) :
    ∃ keep, dedupLastWins batches pkColumns = .ok keep ∧ SelectsLast pkColumns batches keep := by
  have hsurvivors := survivors_sublist batches pkColumns
  refine ⟨_, dedupLastWins_eq_keepRows batches pkColumns fun position hposition ↦
    hkeys.supported (hschema _ (mem_rowPositions hposition).1) position.row, ?_, ?_, ?_⟩
  · rw [keepRows_eq, List.length_map, List.length_range]
  · refine increasing_keepRows ?_
    rw [List.pairwise_map]
    exact (pairwise_rowPositions 0 batches).sublist hsurvivors
  · intro index row
    rw [mem_keepRows_iff fun winner hwinner ↦ ?_, List.mem_map]
    · constructor
      · rintro ⟨position, hposition, hslot⟩
        obtain ⟨rfl, rfl⟩ := Prod.mk.inj hslot
        obtain ⟨hmem, hlast⟩ := (mem_survivors_iff hkeys hschema hshort position).mp hposition
        obtain ⟨hget, hrow⟩ := mem_rowPositions_zero_iff.mp hmem
        refine ⟨position.batch, hget, hrow, fun otherIndex otherRow other hother hotherRow ↦ ?_⟩
        exact hlast ⟨other, otherIndex, otherRow⟩
          (mem_rowPositions_zero_iff.mpr ⟨hother, hotherRow⟩)
      · rintro ⟨batch, hget, hrow, hlast⟩
        refine ⟨⟨batch, index, row⟩, (mem_survivors_iff hkeys hschema hshort _).mpr
          ⟨mem_rowPositions_zero_iff.mpr ⟨hget, hrow⟩, fun other hother hafter ↦ ?_⟩, rfl⟩
        obtain ⟨hotherGet, hotherRow⟩ := mem_rowPositions_zero_iff.mp hother
        exact hlast _ _ _ hotherGet hotherRow hafter
    · obtain ⟨position, hposition, rfl⟩ := List.mem_map.mp hwinner
      have hget := (mem_rowPositions_zero_iff.mp (hsurvivors.subset hposition)).1
      exact (List.getElem?_eq_some_iff.mp hget).1

/-- The key bytes of two rows agree exactly when their key values do. -/
theorem pkKey_eq_iff (hkeys : KeyColumns schema pkColumns)
    (hschema : ∀ batch ∈ batches, batch.schema = schema) (hshort : ShortKeys pkColumns batches)
    {first second : Position} (hfirst : first ∈ rowPositions 0 batches)
    (hsecond : second ∈ rowPositions 0 batches) :
    pkKey first.batch first.row pkColumns = pkKey second.batch second.row pkColumns ↔
      SameKey pkColumns first.batch first.row second.batch second.row := by
  rw [hkeys.pkKey_eq_iff (hschema _ (mem_rowPositions hfirst).1)
    (hschema _ (mem_rowPositions hsecond).1), keyBytes_eq_iff hkeys hschema hshort hfirst hsecond]
  simp only [Position.key, keyCells, SameKey, List.map_inj_left]

end Selection

/-- Dedup selects exactly the last occurrence of every key value, and never takes two different keys
for one. -/
theorem dedup_last_occurrence (schema : List Field) (pkColumns : List Nat)
    (batches : List RecordBatch) (hkeys : KeyColumns schema pkColumns)
    (hschema : ∀ batch ∈ batches, batch.schema = schema) (hshort : ShortKeys pkColumns batches) :
    (∃ keep, dedupLastWins batches pkColumns = .ok keep ∧ SelectsLast pkColumns batches keep) ∧
      ∀ first ∈ rowPositions 0 batches, ∀ second ∈ rowPositions 0 batches,
        pkKey first.batch first.row pkColumns = pkKey second.batch second.row pkColumns ↔
          SameKey pkColumns first.batch first.row second.batch second.row :=
  ⟨dedupLastWins_selects hkeys hschema hshort, fun _ hfirst _ hsecond ↦
    pkKey_eq_iff hkeys hschema hshort hfirst hsecond⟩

/-- Rows of two binary key columns. -/
def sampleBinaryKeys (rows : List (Option (List UInt8) × Option (List UInt8))) : RecordBatch where
  schema := [⟨"a".toList, .binary⟩, ⟨"b".toList, .binary⟩]
  columns := [⟨.binary, rows.map Prod.fst⟩, ⟨.binary, rows.map Prod.snd⟩]
  numRows := rows.length
  types := rfl
  lengths := List.forall_mem_cons.mpr
    ⟨List.length_map _, List.forall_mem_singleton.mpr (List.length_map _)⟩

/-- Keys whose bytes move between the two columns, and NULLs beside empty values. -/
def sampleBinaryFile : List RecordBatch :=
  [sampleBinaryKeys [(some [97], some [98, 99]), (some [97, 98], some [99]), (none, some [])],
    sampleBinaryKeys [(some [97], some [98, 99]), (some [], none)]]

example : dedupLastWins sampleBinaryFile [0, 1] = .ok [[1, 2], [0, 1]] := by decide

theorem dedup_last_occurrence_binary :
    (∃ keep, dedupLastWins sampleBinaryFile [0, 1] = .ok keep ∧
        SelectsLast [0, 1] sampleBinaryFile keep) ∧
      ∀ first ∈ rowPositions 0 sampleBinaryFile, ∀ second ∈ rowPositions 0 sampleBinaryFile,
        pkKey first.batch first.row [0, 1] = pkKey second.batch second.row [0, 1] ↔
          SameKey [0, 1] first.batch first.row second.batch second.row := by
  have hkeys : KeyColumns [⟨"a".toList, .binary⟩, ⟨"b".toList, .binary⟩] [0, 1] :=
    List.forall_mem_cons.mpr ⟨⟨_, rfl, rfl⟩, List.forall_mem_singleton.mpr ⟨_, rfl, rfl⟩⟩
  exact dedup_last_occurrence _ [0, 1] sampleBinaryFile hkeys
    (by simp [sampleBinaryFile, sampleBinaryKeys]) (by decide)

end RelytIngest
