import RelytIngest.Dedup.KeyEncoding
import RelytIngest.Foundations.LastWins

/-!
# Intra-file dedup

`dedupLastWins` selects, of the rows of a file's batches, the last one of every primary key, in the
order of the rows: a map from key bytes to the latest position, its values sorted and grouped by
batch. `dedupLastWins_eq_ok` says that the rows selected batch by batch are the last occurrences of
their key bytes (`lastWins`) among all rows of the file.
-/

set_option autoImplicit false
set_option relaxedAutoImplicit false

namespace RelytIngest

open Foundations

/-- A row of a file: its batch, the batch's index, and the row's. -/
structure Position where
  batch : RecordBatch
  batchIndex : Nat
  row : Nat

namespace Position

def slot (position : Position) : Nat × Nat := (position.batchIndex, position.row)

def cells (position : Position) : List Cell := position.batch.row position.row

/-- The key cells of the row. -/
def key (pkColumns : List Nat) (position : Position) : List Cell :=
  keyCells position.batch pkColumns position.row

end Position

/-- The rows of the batches in the order of the two loops, counting batches from `batchIndex`. -/
def rowPositions (batchIndex : Nat) : List RecordBatch → List Position
  | [] => []
  | batch :: rest =>
    ((List.range batch.numRows).map fun row ↦ ⟨batch, batchIndex, row⟩) ++
      rowPositions (batchIndex + 1) rest

/-- The loop that records the latest position of every key. -/
def latestRows (pkColumns : List Nat) :
    (AList fun _ : List UInt8 ↦ Nat × Nat) → List Position →
      Except Error (AList fun _ : List UInt8 ↦ Nat × Nat)
  | map, [] => .ok map
  | map, position :: rest => do
    let key ← pkKey position.batch position.row pkColumns
    latestRows pkColumns (map.insert key position.slot) rest

/-- The order of the positions: by batch, then by row. -/
def SlotNotAfter (first second : Nat × Nat) : Prop :=
  first.1 < second.1 ∨ first.1 = second.1 ∧ first.2 ≤ second.2

instance : DecidableRel SlotNotAfter := fun _ _ ↦ inferInstanceAs (Decidable (_ ∨ _))

instance : Std.Total SlotNotAfter where
  total first second := by
    simp only [SlotNotAfter]
    omega

instance : IsTrans (Nat × Nat) SlotNotAfter where
  trans first second third := by
    simp only [SlotNotAfter]
    omega

instance : Std.Antisymm SlotNotAfter where
  antisymm first second hle hge := by
    simp only [SlotNotAfter] at hle hge
    refine Prod.ext ?_ ?_ <;> omega

/-- The loop that hands every winner to its batch. -/
def keepRows (batches : Nat) (winners : List (Nat × Nat)) : List (List Nat) :=
  winners.foldl (fun keep winner ↦ keep.modify winner.1 fun rows ↦ rows ++ [winner.2])
    (List.replicate batches [])

/-- `dedup_last_wins`. -/
def dedupLastWins (batches : List RecordBatch) (pkColumns : List Nat) :
    Except Error (List (List Nat)) := do
  let latest ← latestRows pkColumns ∅ (rowPositions 0 batches)
  let winners := (latest.entries.map Sigma.snd).insertionSort SlotNotAfter
  return keepRows batches.length winners

/-! ### Positions -/

theorem mem_rowPositions {batchIndex : Nat} {batches : List RecordBatch} {position : Position}
    (hposition : position ∈ rowPositions batchIndex batches) :
    position.batch ∈ batches ∧ batchIndex ≤ position.batchIndex := by
  induction batches generalizing batchIndex with
  | nil => exact absurd hposition List.not_mem_nil
  | cons batch rest ih =>
    rcases List.mem_append.mp hposition with hfirst | hrest
    · obtain ⟨row, -, rfl⟩ := List.mem_map.mp hfirst
      exact ⟨List.mem_cons_self, le_rfl⟩
    · obtain ⟨hbatch, hindex⟩ := ih hrest
      exact ⟨List.mem_cons_of_mem _ hbatch, Nat.le_of_succ_le hindex⟩

/-- Positions come in increasing order. -/
theorem pairwise_rowPositions (batchIndex : Nat) (batches : List RecordBatch) :
    (rowPositions batchIndex batches).Pairwise fun first second ↦
      first.batchIndex < second.batchIndex ∨
        first.batchIndex = second.batchIndex ∧ first.row < second.row := by
  induction batches generalizing batchIndex with
  | nil => exact List.Pairwise.nil
  | cons batch rest ih =>
    rw [rowPositions, List.pairwise_append]
    refine ⟨?_, ih _, fun first hfirst second hsecond ↦ ?_⟩
    · rw [List.pairwise_map]
      exact List.pairwise_lt_range.imp fun hlt ↦ Or.inr ⟨rfl, hlt⟩
    · obtain ⟨row, -, rfl⟩ := List.mem_map.mp hfirst
      exact Or.inl (mem_rowPositions hsecond).2

/-! ### Grouping the winners -/

theorem keepRows_eq (batches : Nat) (winners : List (Nat × Nat)) :
    keepRows batches winners = (List.range batches).map fun index ↦
      (winners.filter fun winner ↦ winner.1 = index).map Prod.snd := by
  induction winners using List.reverseRecOn with
  | nil => simp [keepRows, List.map_const']
  | append_singleton winners winner ih =>
    have hstep : keepRows batches (winners ++ [winner]) =
        (keepRows batches winners).modify winner.1 fun rows ↦ rows ++ [winner.2] := by
      simp [keepRows, List.foldl_append]
    rw [hstep, ih]
    refine List.ext_getElem? fun index ↦ ?_
    rw [List.getElem?_modify]
    simp only [List.getElem?_map, List.filter_append, List.map_append]
    cases hindex : (List.range batches)[index]? with
    | none => simp
    | some found =>
      obtain ⟨hlt, hfound⟩ := List.getElem?_eq_some_iff.mp hindex
      obtain rfl : index = found := by rwa [List.getElem_range] at hfound
      by_cases hwinner : winner.1 = index
      · simp [hwinner]
      · simp [hwinner]

/-- Kept positions grouped by batch are the kept rows in order. -/
theorem flatMap_groups {batchIndex : Nat} {batches : List RecordBatch} {kept : List Position}
    (hkept : kept.Sublist (rowPositions batchIndex batches)) :
    (batches.zip ((List.range' batchIndex batches.length).map fun index ↦
        ((kept.map Position.slot).filter fun winner ↦ winner.1 = index).map Prod.snd)).flatMap
      (fun part ↦ part.2.map part.1.row) = kept.map Position.cells := by
  induction batches generalizing batchIndex kept with
  | nil =>
    rw [rowPositions, List.sublist_nil] at hkept
    simp [hkept]
  | cons batch rest ih =>
    rw [rowPositions] at hkept
    obtain ⟨here, later, rfl, hhere, hlater⟩ := List.sublist_append_iff.mp hkept
    have hsame : ∀ position ∈ here, position.batch = batch ∧ position.batchIndex = batchIndex := by
      intro position hposition
      obtain ⟨row, -, rfl⟩ := List.mem_map.mp (hhere.subset hposition)
      exact ⟨rfl, rfl⟩
    have habove : ∀ position ∈ later, batchIndex < position.batchIndex :=
      fun position hposition ↦ (mem_rowPositions (hlater.subset hposition)).2
    have hfirst : (((here ++ later).map Position.slot).filter fun winner ↦
        winner.1 = batchIndex) = here.map Position.slot := by
      rw [List.map_append, List.filter_append, List.filter_eq_self.mpr, List.filter_eq_nil_iff.mpr,
        List.append_nil]
      · intro winner hwinner
        obtain ⟨position, hposition, rfl⟩ := List.mem_map.mp hwinner
        exact decide_eq_false (habove position hposition).ne' ▸ Bool.false_ne_true
      · intro winner hwinner
        obtain ⟨position, hposition, rfl⟩ := List.mem_map.mp hwinner
        exact decide_eq_true (hsame position hposition).2
    have hothers : ∀ index ∈ List.range' (batchIndex + 1) rest.length,
        (((here ++ later).map Position.slot).filter fun winner ↦ winner.1 = index).map Prod.snd =
          ((later.map Position.slot).filter fun winner ↦ winner.1 = index).map Prod.snd := by
      intro index hindex
      rw [List.map_append, List.filter_append, List.filter_eq_nil_iff.mpr, List.nil_append]
      intro winner hwinner
      obtain ⟨position, hposition, rfl⟩ := List.mem_map.mp hwinner
      have hbatch := (hsame position hposition).2
      have hindex' := (List.mem_range'_1.mp hindex).1
      have hne : position.batchIndex ≠ index := by omega
      exact decide_eq_false hne ▸ Bool.false_ne_true
    rw [List.length_cons, List.range'_succ, List.map_cons, List.zip_cons_cons, List.flatMap_cons,
      hfirst, List.map_congr_left hothers, ih hlater, List.map_append]
    congr 1
    rw [List.map_map, List.map_map]
    refine List.map_congr_left fun position hposition ↦ ?_
    simp only [Function.comp_def, Position.slot, Position.cells, (hsame position hposition).1]

/-! ### What dedup selects -/

theorem latestRows_eq_ok {pkColumns : List Nat} {positions : List Position}
    (hsupported : ∀ position ∈ positions, ∀ cell ∈ position.key pkColumns,
      isSupportedPkType cell.1)
    (map : AList fun _ : List UInt8 ↦ Nat × Nat) :
    latestRows pkColumns map positions =
      .ok (positions.foldl (fun map position ↦
        map.insert (keyBytes (position.key pkColumns)) position.slot) map) := by
  induction positions generalizing map with
  | nil => rfl
  | cons position rest ih =>
    rw [List.forall_mem_cons] at hsupported
    have hkey : pkKey position.batch position.row pkColumns =
        .ok (keyBytes (position.key pkColumns)) := pkKey_of_supported hsupported.1
    simp only [latestRows, hkey, bind, Except.bind, ih hsupported.2, List.foldl_cons]

/-- The rows that survive dedup: of every key, the last position. -/
def survivors (batches : List RecordBatch) (pkColumns : List Nat) : List Position :=
  lastWins (fun position ↦ keyBytes (position.key pkColumns)) (rowPositions 0 batches)

theorem survivors_sublist (batches : List RecordBatch) (pkColumns : List Nat) :
    (survivors batches pkColumns).Sublist (rowPositions 0 batches) :=
  lastWins_sublist _ _

/-- Dedup hands the survivors to their batches. -/
theorem dedupLastWins_eq_keepRows (batches : List RecordBatch) (pkColumns : List Nat)
    (hsupported : ∀ position ∈ rowPositions 0 batches, ∀ cell ∈ position.key pkColumns,
      isSupportedPkType cell.1) :
    dedupLastWins batches pkColumns =
      .ok (keepRows batches.length ((survivors batches pkColumns).map Position.slot)) := by
  have hsorted : ((survivors batches pkColumns).map Position.slot).Pairwise SlotNotAfter := by
    rw [List.pairwise_map]
    refine ((pairwise_rowPositions 0 batches).sublist (survivors_sublist batches pkColumns)).imp
      fun {first second} hlt ↦ ?_
    simp only [SlotNotAfter, Position.slot]
    omega
  have hperm := latest_entries_perm (fun position : Position ↦ keyBytes (position.key pkColumns))
    Position.slot (rowPositions 0 batches)
  have hvalues := hperm.map Sigma.snd
  rw [List.map_map] at hvalues
  have hwinners : ((latest (fun position : Position ↦ keyBytes (position.key pkColumns))
      Position.slot (rowPositions 0 batches)).entries.map Sigma.snd).insertionSort SlotNotAfter =
        (survivors batches pkColumns).map Position.slot :=
    ((List.perm_insertionSort _ _).trans hvalues).eq_of_pairwise'
      (List.pairwise_insertionSort _ _) hsorted
  simp only [dedupLastWins, latestRows_eq_ok hsupported, bind, Except.bind, pure, Except.pure]
  rw [← hwinners]
  rfl

/-- Dedup selects the survivors, in the order of the rows. -/
theorem dedupLastWins_eq_ok (batches : List RecordBatch) (pkColumns : List Nat)
    (hsupported : ∀ position ∈ rowPositions 0 batches, ∀ cell ∈ position.key pkColumns,
      isSupportedPkType cell.1) :
    ∃ keep, dedupLastWins batches pkColumns = .ok keep ∧ keep.length = batches.length ∧
      (batches.zip keep).flatMap (fun part ↦ part.2.map part.1.row) =
        (survivors batches pkColumns).map Position.cells := by
  refine ⟨_, dedupLastWins_eq_keepRows batches pkColumns hsupported, ?_, ?_⟩
  · rw [keepRows_eq, List.length_map, List.length_range]
  · rw [keepRows_eq, List.range_eq_range']
    exact flatMap_groups (survivors_sublist batches pkColumns)

end RelytIngest
