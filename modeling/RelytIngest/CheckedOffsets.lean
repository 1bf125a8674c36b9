import RelytIngest.Recovery
import RelytIngest.Writer.OrderTripwire

/-!
# Checked offset arithmetic

Where arithmetic leaves its type a release build wraps and a debug build panics. `planRecovery`,
`resumeWith`, `recoveredOffset` and `checkOrder` are the computations of a release build. The
definitions here are those of a debug build, `none` being the panic.

They agree with the release build while every offset that they read has a successor
(`planRecoveryChecked_eq`, `openDecisionsChecked_eq`, `recoveredOffsetChecked_eq`,
`checkOrderChecked_eq`), and a listing panics exactly where a staged file ends at the largest offset
(`planRecoveryChecked_eq_none_iff`).
-/

set_option autoImplicit false
set_option relaxedAutoImplicit false

namespace RelytIngest

open Foundations

/-- `plan_recovery`. The successors are computed before the backfill is collected. -/
def planRecoveryChecked (staged : List StagedFile) (watermark : Option Int) :
    Option (Except Error RecoveryPlan) := do
  let sorted := sortStaged staged
  let successors ← sorted.mapM fun file ↦ checkedI64 (file.endOffset + 1)
  return do
    let backfill ← collectBackfill watermark sorted
    return {
      kafkaResumeOffset := successors.max?
      backfill := backfill
      maxStaged := sorted.getLast?.map fun file ↦ (file.epochMs, file.seq) }

/-- The resume offset after the recorded one is taken into account. -/
def resumeWithChecked (planned : Option Int) (state : Option StateFile) : Option (Option Int) :=
  match state.bind StateFile.resumeOffset with
  | none => some planned
  | some recorded => do
    let next ← checkedI64 (recorded + 1)
    return some (match planned with
      | some value => max value next
      | none => next)

/-- The decisions of `open_table`. -/
def openDecisionsChecked (nowMs : Nat) (state : Option StateFile) (watermark : Option Int)
    (staged : List StagedFile) : Option (Except Error Opening) := do
  match ← planRecoveryChecked staged watermark with
  | .error err => return .error err
  | .ok plan =>
    let resume ← resumeWithChecked plan.kafkaResumeOffset state
    return do
      let epoch ← sessionEpoch nowMs (epochAnchor plan.maxStaged watermark state)
      return {
        plan := { plan with kafkaResumeOffset := resume }
        epoch := epoch
        newState := openState state epoch }

/-- The staged offset a writer starts from. -/
def recoveredOffsetChecked : Option Int → Option (Option Int)
  | none => some none
  | some offset => (checkedI64 (offset - 1)).map some

/-- `check_order`. The text of a violation is that of `checkOrder`, made of the values computed
here. -/
def checkOrderChecked (prev : Option (Nat × Nat × Int)) (next : StagedFile) :
    Option (Except String Unit) :=
  match prev with
  | none => some (.ok ())
  | some (epoch, seq, endOffset) =>
    match checkOrder (some (epoch, seq, endOffset)) next with
    | .ok () => some (.ok ())
    | .error detail => do
      let nextSeq ← checkedU32 (seq + 1 : Nat)
      if next.epochMs = epoch ∧ nextSeq < next.seq then
        let _ ← checkedU32 ((next.seq : Int) - 1)
      let gapStart ← checkedI64 (endOffset + 1)
      if gapStart < next.startOffset then
        let _ ← checkedI64 (next.startOffset - 1)
      return .error detail

/-! ### Where they agree with the release build -/

/-- An offset of a range that `append` accepts, below a bound. -/
def OffsetBelow (bound offset : Int) : Prop := 0 ≤ offset ∧ offset < bound

theorem OffsetBelow.checked_succ {offset : Int} (h : OffsetBelow i64Max offset) :
    checkedI64 (offset + 1) = some (nextOffset offset) := by
  obtain ⟨hmin, hmax⟩ := h
  exact checkedI64_eq_wrapI64 (by simp only [i64Min]; omega) hmax

theorem mapM_checked_succ {files : List StagedFile}
    (hends : ∀ file ∈ files, OffsetBelow i64Max file.endOffset) :
    (files.mapM fun file ↦ checkedI64 (file.endOffset + 1)) =
      some (files.map fun file ↦ nextOffset file.endOffset) := by
  induction files with
  | nil => rfl
  | cons file rest ih =>
    rw [List.forall_mem_cons] at hends
    rw [List.mapM_cons, hends.1.checked_succ, ih hends.2]
    rfl

theorem planRecoveryChecked_eq {staged : List StagedFile} (watermark : Option Int)
    (hends : ∀ file ∈ staged, OffsetBelow i64Max file.endOffset) :
    planRecoveryChecked staged watermark = some (planRecovery staged watermark) := by
  have hsorted := mapM_checked_succ fun file hfile ↦ hends file (mem_sortStaged.mp hfile)
  simp only [planRecoveryChecked, hsorted]
  rfl

theorem resumeWithChecked_eq (planned : Option Int) {state : Option StateFile}
    (hrecorded : ∀ recorded, state.bind StateFile.resumeOffset = some recorded →
      OffsetBelow i64Max recorded) :
    resumeWithChecked planned state = some (resumeWith planned state) := by
  unfold resumeWithChecked resumeWith
  cases hstate : state.bind StateFile.resumeOffset with
  | none => rfl
  | some recorded =>
    simp only [(hrecorded recorded hstate).checked_succ]
    rfl

theorem openDecisionsChecked_eq (nowMs : Nat) {state : Option StateFile} (watermark : Option Int)
    {staged : List StagedFile} (hends : ∀ file ∈ staged, OffsetBelow i64Max file.endOffset)
    (hrecorded : ∀ recorded, state.bind StateFile.resumeOffset = some recorded →
      OffsetBelow i64Max recorded) :
    openDecisionsChecked nowMs state watermark staged =
      some (openDecisions nowMs state watermark staged) := by
  simp only [openDecisionsChecked, openDecisions, planRecoveryChecked_eq watermark hends]
  cases planRecovery staged watermark with
  | error err => rfl
  | ok plan =>
    simp only [resumeWithChecked_eq plan.kafkaResumeOffset hrecorded, bind, Option.bind,
      Except.bind]
    rfl

theorem recoveredOffsetChecked_eq {resume : Option Int}
    (hresume : ∀ offset, resume = some offset → i64Min < offset ∧ offset ≤ i64Max) :
    recoveredOffsetChecked resume = some (recoveredOffset resume) := by
  cases resume with
  | none => rfl
  | some offset =>
    obtain ⟨hmin, hmax⟩ := hresume offset rfl
    have hchecked : checkedI64 (offset - 1) = some (wrapI64 (offset - 1)) :=
      checkedI64_eq_wrapI64 (by omega) (by omega)
    simp only [recoveredOffsetChecked, hchecked, recoveredOffset, Option.map_some]

/-- The tripwire overflows on no file with a number that encodes, whichever arrives after which. -/
theorem checkOrderChecked_eq {file next : StagedFile} (hfile : file.seq ≤ MAX_SEQ)
    (hnext : next.seq ≤ MAX_SEQ) (hend : OffsetBelow i64Max file.endOffset)
    (hstart : OffsetBelow i64Max next.startOffset) :
    checkOrderChecked (some file.place) next = some (checkOrder (some file.place) next) := by
  have hmax := maxSeq_eq
  simp only [checkOrderChecked, StagedFile.place]
  cases checkOrder (some (file.epochMs, file.seq, file.endOffset)) next with
  | ok => rfl
  | error detail =>
    have hseq : checkedU32 (file.seq + 1 : Nat) = some (file.seq + 1) :=
      checkedU32_of_mem _ rfl (by omega)
    have hearlier (hgap : file.seq + 1 < next.seq) :
        checkedU32 ((next.seq : Int) - 1) = some (next.seq - 1) :=
      checkedU32_of_mem _ (by omega) (by omega)
    have hbefore : checkedI64 (next.startOffset - 1) = some (wrapI64 (next.startOffset - 1)) := by
      obtain ⟨hmin, hlt⟩ := hstart
      exact checkedI64_eq_wrapI64 (by simp only [i64Min]; omega) (by omega)
    have hafter := hend.checked_succ
    generalize checkedU32 (file.seq + 1 : Nat) = first at hseq ⊢
    generalize checkedU32 ((next.seq : Int) - 1) = final at hearlier ⊢
    generalize checkedI64 (file.endOffset + 1) = gapStart at hafter ⊢
    generalize checkedI64 (next.startOffset - 1) = gapEnd at hbefore ⊢
    subst hseq hafter hbefore
    by_cases hgap : next.epochMs = file.epochMs ∧ file.seq + 1 < next.seq
    · simp [hgap, hearlier hgap.2]
    · simp [hgap]

/-! ### Where a listing panics -/

theorem mapM_checked_succ_eq_none_iff {files : List StagedFile}
    (hends : ∀ file ∈ files, 0 ≤ file.endOffset ∧ file.endOffset ≤ i64Max) :
    (files.mapM fun file ↦ checkedI64 (file.endOffset + 1)) = none ↔
      ∃ file ∈ files, file.endOffset = i64Max := by
  induction files with
  | nil => simp
  | cons file rest ih =>
    rw [List.forall_mem_cons] at hends
    obtain ⟨hmin, hmax⟩ := hends.1
    rw [List.mapM_cons, List.exists_mem_cons_iff, ← ih hends.2]
    by_cases hlargest : file.endOffset = i64Max
    · have hpanics : checkedI64 (file.endOffset + 1) = none :=
        checkedI64_eq_none_iff.mpr (Or.inr (by omega))
      rw [hpanics]
      exact iff_of_true rfl (Or.inl hlargest)
    · have hbelow : OffsetBelow i64Max file.endOffset := ⟨hmin, by omega⟩
      rw [hbelow.checked_succ, or_iff_right hlargest]
      cases rest.mapM fun file ↦ checkedI64 (file.endOffset + 1) <;> simp

/-- A listing panics exactly where a staged file ends at the largest offset. -/
theorem planRecoveryChecked_eq_none_iff {staged : List StagedFile} {watermark : Option Int}
    (hends : ∀ file ∈ staged, 0 ≤ file.endOffset ∧ file.endOffset ≤ i64Max) :
    planRecoveryChecked staged watermark = none ↔ ∃ file ∈ staged, file.endOffset = i64Max := by
  have hsorted :=
    mapM_checked_succ_eq_none_iff fun file hfile ↦ hends file (mem_sortStaged.mp hfile)
  simp only [mem_sortStaged] at hsorted
  rw [← hsorted, planRecoveryChecked]
  cases (sortStaged staged).mapM fun file ↦ checkedI64 (file.endOffset + 1) <;> simp

end RelytIngest
