import RelytIngest.Naming
import RelytIngest.StateFile
import RelytIngest.Foundations.MachineInteger
import Mathlib.Data.List.Sort
import Mathlib.Data.Option.Basic

/-!
# Recovery

`planRecovery` computes what a reopened stream resumes from: the resume offset over all staged
files, the backfill above the server's watermark, and the highest staged `(epoch, seq)`. The rest of
`open_table`'s decisions follow it: the resume offset recorded in the state file (`resumeWith`),
the anchors of the session epoch (`epochAnchor`, `nextEpoch`) and the state written before the first
object (`openState`).

An offset's successor is 64-bit arithmetic and wraps at the largest offset. `planRecovery_ok` is the
one fact later modules use: with every name encodable, the plan is the maximum of the successors,
the files above the watermark in `(epoch, seq)` order, and the last staged file's name.
-/

set_option autoImplicit false
set_option relaxedAutoImplicit false

namespace RelytIngest

open Foundations

/-- `offset + 1` on 64-bit offsets. -/
def nextOffset (offset : Int) : Int := wrapI64 (offset + 1)

/-- What recovery decides from the staged files and the watermark. -/
structure RecoveryPlan where
  /-- The next Kafka offset to consume. -/
  kafkaResumeOffset : Option Int
  /-- Files that may not have reached the server, oldest first. -/
  backfill : List StagedFile
  /-- Highest (epoch, seq) seen in staging. -/
  maxStaged : Option (Nat × Nat)
  deriving DecidableEq, Repr

/-- The order of the staged files: by epoch, then by seq. -/
def StagedFile.NotAfter (first second : StagedFile) : Prop :=
  first.epochMs < second.epochMs ∨ first.epochMs = second.epochMs ∧ first.seq ≤ second.seq

instance : DecidableRel StagedFile.NotAfter := fun _ _ ↦ inferInstanceAs (Decidable (_ ∨ _))

instance : Std.Total StagedFile.NotAfter where
  total first second := by
    simp only [StagedFile.NotAfter]
    omega

instance : IsTrans StagedFile StagedFile.NotAfter where
  trans first second third := by
    simp only [StagedFile.NotAfter]
    omega

/-- `staged.sort_unstable_by_key(|f| (f.epoch_ms, f.seq))`. -/
def sortStaged (staged : List StagedFile) : List StagedFile :=
  staged.insertionSort StagedFile.NotAfter

/-- `watermark.is_none_or(|w| seq > w)`. -/
def aboveWatermark (watermark : Option Int) (serialSeq : Int) : Bool :=
  watermark.all fun w ↦ decide (w < serialSeq)

/-- The loop over the sorted files that collects the backfill; a name that does not encode ends
it. -/
def collectBackfill (watermark : Option Int) : List StagedFile → Except Error (List StagedFile)
  | [] => .ok []
  | file :: rest => do
    let serialSeq ← file.serialSeq
    let later ← collectBackfill watermark rest
    if aboveWatermark watermark serialSeq then
      return file :: later
    else
      return later

/-- `plan_recovery`. -/
def planRecovery (staged : List StagedFile) (watermark : Option Int) :
    Except Error RecoveryPlan := do
  let sorted := sortStaged staged
  let backfill ← collectBackfill watermark sorted
  return {
    kafkaResumeOffset := (sorted.map fun file ↦ nextOffset file.endOffset).max?
    backfill := backfill
    maxStaged := sorted.getLast?.map fun file ↦ (file.epochMs, file.seq) }

/-- `next_epoch`. The anchors of an open are epochs that encode (`epochAnchor_encodes`), so their
successors are 64-bit numbers. -/
def nextEpoch (nowMs : Nat) (maxStaged : Option (Nat × Nat)) : Nat :=
  match maxStaged with
  | some (maxEpoch, _) => if nowMs ≤ maxEpoch then maxEpoch + 1 else nowMs
  | none => nowMs

/-- The resume offset after the recorded server-confirmed offset is taken into account. -/
def resumeWith (planned : Option Int) (state : Option StateFile) : Option Int :=
  match state.bind StateFile.resumeOffset with
  | none => planned
  | some recorded =>
    some (match planned with
      | some value => max value (nextOffset recorded)
      | none => nextOffset recorded)

/-- The staged offset a writer starts from: `kafka_resume_offset.map(|o| o - 1)`. -/
def recoveredOffset (resume : Option Int) : Option Int := resume.map fun o ↦ wrapI64 (o - 1)

/-- The anchor after the watermark: `anchor.is_none_or(|(e, s)| (wm_epoch, wm_seq) > (e, s))`. -/
def anchorAboveWatermark (anchor : Option (Nat × Nat)) (watermark : Option Int) :
    Option (Nat × Nat) :=
  match watermark with
  | none => anchor
  | some w =>
    let (wmEpoch, wmSeq) := decodeSerialSeq w
    if anchor.all fun (e, s) ↦ decide (e < wmEpoch ∨ e = wmEpoch ∧ s < wmSeq) then
      some (wmEpoch, wmSeq)
    else
      anchor

/-- Everything the session epoch has to lie above: the staged files, the watermark, and the epoch
recorded in the state file. -/
def epochAnchor (maxStaged : Option (Nat × Nat)) (watermark : Option Int)
    (state : Option StateFile) : Option (Nat × Nat) :=
  let anchor := anchorAboveWatermark maxStaged watermark
  match state with
  | none => anchor
  | some st =>
    if anchor.all fun (e, _) ↦ decide (e < st.maxEpochUsed) then some (st.maxEpochUsed, 0)
    else anchor

/-- The session epoch, with its encoding checked. -/
def sessionEpoch (nowMs : Nat) (anchor : Option (Nat × Nat)) : Except Error Nat := do
  let epoch := nextEpoch nowMs anchor
  let _ ← encodeSerialSeq epoch 0
  return epoch

/-- The state written before the first object of the session. -/
def openState (state : Option StateFile) (epoch : Nat) : StateFile where
  resumeOffset := state.bind StateFile.resumeOffset
  maxEpochUsed := epoch

/-- What `open_table` decided. -/
structure Opening where
  plan : RecoveryPlan
  epoch : Nat
  newState : StateFile
  deriving DecidableEq, Repr

/-- The decisions of `open_table` once state.json, the watermark and the staging directory are
read. -/
def openDecisions (nowMs : Nat) (state : Option StateFile) (watermark : Option Int)
    (staged : List StagedFile) : Except Error Opening := do
  let plan ← planRecovery staged watermark
  let epoch ← sessionEpoch nowMs (epochAnchor plan.maxStaged watermark state)
  return {
    plan := { plan with kafkaResumeOffset := resumeWith plan.kafkaResumeOffset state }
    epoch := epoch
    newState := openState state epoch }

/-! ### What the plan contains -/

theorem mem_sortStaged {staged : List StagedFile} {file : StagedFile} :
    file ∈ sortStaged staged ↔ file ∈ staged :=
  List.mem_insertionSort _

theorem sortStaged_of_pairwise {staged : List StagedFile}
    (hsorted : staged.Pairwise StagedFile.NotAfter) : sortStaged staged = staged :=
  hsorted.insertionSort_eq

theorem collectBackfill_eq_ok_iff (watermark : Option Int) (files backfill : List StagedFile) :
    collectBackfill watermark files = .ok backfill ↔
      (∀ file ∈ files, file.epochMs ≤ MAX_EPOCH_MS ∧ file.seq ≤ MAX_SEQ) ∧
        backfill = files.filter fun file ↦ aboveWatermark watermark file.packed := by
  induction files generalizing backfill with
  | nil => simp [collectBackfill, eq_comm]
  | cons file rest ih =>
    simp only [collectBackfill, except_bind_eq_ok_iff, StagedFile.serialSeq_eq_ok_iff, ih,
      List.forall_mem_cons, List.filter_cons]
    constructor
    · rintro ⟨serialSeq, ⟨hepoch, hfit, rfl⟩, later, ⟨hrest, rfl⟩, hresult⟩
      refine ⟨⟨⟨hepoch, hfit⟩, hrest⟩, ?_⟩
      split_ifs at hresult ⊢ <;> exact (Except.ok.inj hresult).symm
    · rintro ⟨⟨⟨hepoch, hfit⟩, hrest⟩, rfl⟩
      refine ⟨file.packed, ⟨hepoch, hfit, rfl⟩, _, ⟨hrest, rfl⟩, ?_⟩
      split_ifs <;> rfl

/-- A plan that is returned: every name encoded, the resume offset is the largest successor of an
end offset, the backfill is what lies above the watermark. -/
theorem planRecovery_ok {staged : List StagedFile} {watermark : Option Int} {plan : RecoveryPlan}
    (hplan : planRecovery staged watermark = .ok plan) :
    (∀ file ∈ staged, file.epochMs ≤ MAX_EPOCH_MS ∧ file.seq ≤ MAX_SEQ) ∧
      plan.kafkaResumeOffset =
        ((sortStaged staged).map fun file ↦ nextOffset file.endOffset).max? ∧
      plan.backfill = (sortStaged staged).filter
        (fun file ↦ aboveWatermark watermark file.packed) ∧
      plan.maxStaged = (sortStaged staged).getLast?.map fun file ↦ (file.epochMs, file.seq) := by
  simp only [planRecovery, except_bind_eq_ok_iff, collectBackfill_eq_ok_iff] at hplan
  obtain ⟨backfill, ⟨hall, rfl⟩, hresult⟩ := hplan
  obtain rfl := Except.ok.inj hresult
  exact ⟨fun file hfile ↦ hall file (mem_sortStaged.mpr hfile), rfl, rfl, rfl⟩

/-- With every name encodable a plan is returned. -/
theorem planRecovery_exists {staged : List StagedFile} (watermark : Option Int)
    (hall : ∀ file ∈ staged, file.epochMs ≤ MAX_EPOCH_MS ∧ file.seq ≤ MAX_SEQ) :
    ∃ plan, planRecovery staged watermark = .ok plan := by
  have hfill := (collectBackfill_eq_ok_iff watermark (sortStaged staged) _).mpr
    ⟨fun file hfile ↦ hall file (mem_sortStaged.mp hfile), rfl⟩
  simp only [planRecovery, hfill, bind, Except.bind, pure, Except.pure]
  exact ⟨_, rfl⟩

/-- The resume offset is the successor of some staged file's end. -/
theorem planRecovery_resume_mem {staged : List StagedFile} {watermark : Option Int}
    {plan : RecoveryPlan} {resume : Int} (hplan : planRecovery staged watermark = .ok plan)
    (hresume : plan.kafkaResumeOffset = some resume) :
    ∃ file ∈ staged, resume = nextOffset file.endOffset := by
  obtain ⟨-, hvalue, -, -⟩ := planRecovery_ok hplan
  rw [hvalue] at hresume
  obtain ⟨file, hfile, heq⟩ := List.mem_map.mp (List.max?_mem hresume)
  exact ⟨file, mem_sortStaged.mp hfile, heq.symm⟩

/-- The resume offset is the largest successor. -/
theorem planRecovery_resume_max {staged : List StagedFile} {watermark : Option Int}
    {plan : RecoveryPlan} {file : StagedFile} {resume : Int}
    (hplan : planRecovery staged watermark = .ok plan) (hfile : file ∈ staged)
    (hresume : resume = nextOffset file.endOffset)
    (hmax : ∀ other ∈ staged, nextOffset other.endOffset ≤ resume) :
    plan.kafkaResumeOffset = some resume := by
  obtain ⟨-, hvalue, -, -⟩ := planRecovery_ok hplan
  rw [hvalue, List.max?_eq_some_iff]
  refine ⟨List.mem_map.mpr ⟨file, mem_sortStaged.mpr hfile, hresume.symm⟩, fun value hother ↦ ?_⟩
  obtain ⟨other, hmem, rfl⟩ := List.mem_map.mp hother
  exact hmax other (mem_sortStaged.mp hmem)

theorem planRecovery_backfill_subset {staged : List StagedFile} {watermark : Option Int}
    {plan : RecoveryPlan} (hplan : planRecovery staged watermark = .ok plan) :
    plan.backfill ⊆ staged := by
  rw [(planRecovery_ok hplan).2.2.1]
  exact fun file hfile ↦ mem_sortStaged.mp (List.mem_of_mem_filter hfile)

/-! ### The session epoch -/

theorem nextEpoch_gt {nowMs epoch seq : Nat} :
    epoch < nextEpoch nowMs (some (epoch, seq)) := by
  simp only [nextEpoch]
  split_ifs <;> omega

theorem sessionEpoch_eq_ok_iff (nowMs : Nat) (anchor : Option (Nat × Nat)) (epoch : Nat) :
    sessionEpoch nowMs anchor = .ok epoch ↔
      epoch = nextEpoch nowMs anchor ∧ epoch ≤ MAX_EPOCH_MS := by
  simp only [sessionEpoch, except_bind_eq_ok_iff, encodeSerialSeq_eq_ok_iff]
  constructor
  · rintro ⟨value, ⟨hle, -, -⟩, hresult⟩
    obtain rfl := Except.ok.inj hresult
    exact ⟨rfl, hle⟩
  · rintro ⟨rfl, hle⟩
    exact ⟨_, ⟨hle, Nat.zero_le _, rfl⟩, rfl⟩

/-- The anchor's epoch is at least that of the staged files. -/
theorem le_epochAnchor_of_maxStaged {epoch seq : Nat} (watermark : Option Int)
    (state : Option StateFile) :
    ∃ anchor, epochAnchor (some (epoch, seq)) watermark state = some anchor ∧
      epoch ≤ anchor.1 := by
  have hwatermark : ∃ anchor, anchorAboveWatermark (some (epoch, seq)) watermark = some anchor ∧
      epoch ≤ anchor.1 := by
    cases watermark with
    | none => exact ⟨_, rfl, le_rfl⟩
    | some w =>
      simp only [anchorAboveWatermark, Option.all_some]
      split_ifs with habove
      · refine ⟨_, rfl, ?_⟩
        rw [decide_eq_true_eq] at habove
        omega
      · exact ⟨_, rfl, le_rfl⟩
  obtain ⟨anchor, hanchor, hle⟩ := hwatermark
  cases state with
  | none => exact ⟨anchor, hanchor, hle⟩
  | some st =>
    simp only [epochAnchor, hanchor, Option.all_some]
    split_ifs with habove
    · refine ⟨_, rfl, ?_⟩
      rw [decide_eq_true_eq] at habove
      omega
    · exact ⟨anchor, rfl, hle⟩

/-- The anchor's epoch is at least that of the watermark. -/
theorem le_epochAnchor_of_watermark (maxStaged : Option (Nat × Nat)) (watermark : Int)
    (state : Option StateFile) :
    ∃ anchor, epochAnchor maxStaged (some watermark) state = some anchor ∧
      (decodeSerialSeq watermark).1 ≤ anchor.1 := by
  have hwatermark : ∃ anchor, anchorAboveWatermark maxStaged (some watermark) = some anchor ∧
      (decodeSerialSeq watermark).1 ≤ anchor.1 := by
    cases maxStaged with
    | none => exact ⟨_, rfl, le_rfl⟩
    | some pair =>
      simp only [anchorAboveWatermark, Option.all_some]
      split_ifs with habove
      · exact ⟨_, rfl, le_rfl⟩
      · refine ⟨pair, rfl, ?_⟩
        rw [decide_eq_true_eq] at habove
        omega
  obtain ⟨anchor, hanchor, hle⟩ := hwatermark
  cases state with
  | none => exact ⟨anchor, hanchor, hle⟩
  | some st =>
    simp only [epochAnchor, hanchor, Option.all_some]
    split_ifs with habove
    · refine ⟨_, rfl, ?_⟩
      rw [decide_eq_true_eq] at habove
      omega
    · exact ⟨anchor, rfl, hle⟩

/-- The anchor's epoch is at least the one recorded in the state file. -/
theorem le_epochAnchor_of_state (maxStaged : Option (Nat × Nat)) (watermark : Option Int)
    (st : StateFile) :
    ∃ anchor, epochAnchor maxStaged watermark (some st) = some anchor ∧
      st.maxEpochUsed ≤ anchor.1 := by
  simp only [epochAnchor]
  cases anchorAboveWatermark maxStaged watermark with
  | none => exact ⟨_, rfl, le_rfl⟩
  | some anchor =>
    simp only [Option.all_some]
    split_ifs with habove
    · exact ⟨_, rfl, le_rfl⟩
    · refine ⟨anchor, rfl, ?_⟩
      rw [decide_eq_true_eq] at habove
      omega

/-- No anchor is of an epoch above all that is staged, marked and recorded. -/
theorem epochAnchor_le {maxStaged : Option (Nat × Nat)} {watermark : Option Int}
    {state : Option StateFile} {bound : Nat}
    (hstaged : ∀ pair, maxStaged = some pair → pair.1 ≤ bound)
    (hmark : ∀ w, watermark = some w → (decodeSerialSeq w).1 ≤ bound)
    (hstate : ∀ st, state = some st → st.maxEpochUsed ≤ bound) {anchor : Nat × Nat}
    (hanchor : epochAnchor maxStaged watermark state = some anchor) : anchor.1 ≤ bound := by
  have hwatermark : ∀ pair, anchorAboveWatermark maxStaged watermark = some pair →
      pair.1 ≤ bound := by
    intro pair hpair
    cases watermark with
    | none => exact hstaged pair hpair
    | some w =>
      simp only [anchorAboveWatermark] at hpair
      split_ifs at hpair
      · exact Option.some.inj hpair ▸ hmark w rfl
      · exact hstaged pair hpair
  cases state with
  | none => exact hwatermark anchor hanchor
  | some st =>
    simp only [epochAnchor] at hanchor
    split_ifs at hanchor
    · exact Option.some.inj hanchor ▸ hstate st rfl
    · exact hwatermark anchor hanchor

/-- Every staged file is of an epoch at or below the plan's highest. -/
theorem planRecovery_maxStaged {staged : List StagedFile} {watermark : Option Int}
    {plan : RecoveryPlan} (hplan : planRecovery staged watermark = .ok plan) {file : StagedFile}
    (hfile : file ∈ staged) :
    ∃ epoch seq, plan.maxStaged = some (epoch, seq) ∧ file.epochMs ≤ epoch := by
  obtain ⟨-, -, -, hmax⟩ := planRecovery_ok hplan
  have hsorted : (sortStaged staged).Pairwise StagedFile.NotAfter :=
    List.pairwise_insertionSort StagedFile.NotAfter staged
  have hmem := mem_sortStaged.mpr hfile
  obtain ⟨earlier, last, hlast⟩ : ∃ earlier last, sortStaged staged = earlier ++ [last] :=
    ⟨_, _, (List.dropLast_append_getLast (List.ne_nil_of_mem hmem)).symm⟩
  refine ⟨last.epochMs, last.seq, by rw [hmax, hlast, List.getLast?_concat]; rfl, ?_⟩
  rw [hlast, List.pairwise_append] at hsorted
  rw [hlast, List.mem_append, List.mem_singleton] at hmem
  rcases hmem with hearlier | rfl
  · rcases hsorted.2.2 file hearlier last (List.mem_singleton_self last) with hlt | ⟨heq, -⟩
    · exact hlt.le
    · exact heq.le
  · exact le_rfl

/-- The decisions that are returned: the plan, the epoch and the state that follow from it. -/
theorem openDecisions_eq_ok_iff {nowMs : Nat} {state : Option StateFile} {watermark : Option Int}
    {staged : List StagedFile} {opening : Opening} :
    openDecisions nowMs state watermark staged = .ok opening ↔
      ∃ plan, planRecovery staged watermark = .ok plan ∧
        opening.plan =
          { plan with kafkaResumeOffset := resumeWith plan.kafkaResumeOffset state } ∧
        sessionEpoch nowMs (epochAnchor plan.maxStaged watermark state) = .ok opening.epoch ∧
        opening.newState = openState state opening.epoch := by
  simp only [openDecisions, except_bind_eq_ok_iff]
  constructor
  · rintro ⟨plan, hplan, epoch, hepoch, hresult⟩
    obtain rfl := Except.ok.inj hresult
    exact ⟨plan, hplan, rfl, hepoch, rfl⟩
  · rintro ⟨plan, hplan, hresult, hepoch, hstate⟩
    refine ⟨plan, hplan, opening.epoch, hepoch, ?_⟩
    rw [← hresult, ← hstate]
    rfl

/-- An open backfills what is staged. -/
theorem openDecisions_backfill {nowMs : Nat} {state : Option StateFile} {watermark : Option Int}
    {staged : List StagedFile} {opening : Opening}
    (hopen : openDecisions nowMs state watermark staged = .ok opening) {file : StagedFile}
    (hfile : file ∈ opening.plan.backfill) : file ∈ staged := by
  obtain ⟨plan, hplan, heq, -⟩ := openDecisions_eq_ok_iff.mp hopen
  rw [heq] at hfile
  exact planRecovery_backfill_subset hplan hfile

/-- The session epoch is above the epoch of every anchor. -/
theorem sessionEpoch_gt {nowMs epoch : Nat} {anchor : Nat × Nat}
    (hepoch : sessionEpoch nowMs (some anchor) = .ok epoch) : anchor.1 < epoch := by
  obtain ⟨rfl, -⟩ := (sessionEpoch_eq_ok_iff ..).mp hepoch
  exact nextEpoch_gt

end RelytIngest
