import RelytIngest.Writer.SealedFiles

/-!
# The session epoch never rolls back

`epoch_anti_rollback` says of an open that returns: its epoch is above that of every staged file, of
the watermark and of the state file, whatever the clock read; and every file sealed in the session,
however often its epoch rolls over, has a serial seq above all of theirs.
-/

set_option autoImplicit false
set_option relaxedAutoImplicit false

namespace RelytIngest

open Foundations

/-- The epoch an open decides on is above each of the anchors. -/
theorem openDecisions_epoch {nowMs : Nat} {state : Option StateFile} {watermark : Option Int}
    {staged : List StagedFile} {opening : Opening}
    (hopen : openDecisions nowMs state watermark staged = .ok opening) :
    (∀ file ∈ staged, file.epochMs < opening.epoch) ∧
      (∀ w, watermark = some w → (decodeSerialSeq w).1 < opening.epoch) ∧
      ∀ st, state = some st → st.maxEpochUsed < opening.epoch := by
  obtain ⟨plan, hplan, -, hepoch, -⟩ := openDecisions_eq_ok_iff.mp hopen
  refine ⟨fun file hfile ↦ ?_, ?_, ?_⟩
  · obtain ⟨epoch, seq, hmax, hle⟩ := planRecovery_maxStaged hplan hfile
    obtain ⟨anchor, hanchor, hepochLe⟩ : ∃ anchor, epochAnchor (some (epoch, seq)) watermark state =
        some anchor ∧ epoch ≤ anchor.1 := le_epochAnchor_of_maxStaged watermark state
    rw [hmax, hanchor] at hepoch
    exact (hle.trans hepochLe).trans_lt (sessionEpoch_gt hepoch)
  · rintro w rfl
    obtain ⟨anchor, hanchor, hle⟩ := le_epochAnchor_of_watermark plan.maxStaged w state
    rw [hanchor] at hepoch
    exact hle.trans_lt (sessionEpoch_gt hepoch)
  · rintro st rfl
    obtain ⟨anchor, hanchor, hle⟩ := le_epochAnchor_of_state plan.maxStaged watermark st
    rw [hanchor] at hepoch
    exact hle.trans_lt (sessionEpoch_gt hepoch)

/-- A number of an earlier epoch is below every packed value of the session. -/
theorem packed_gt_of_epoch {epoch seq : Nat} {file : StagedFile} (hepoch : epoch < file.epochMs)
    (hseq : seq ≤ MAX_SEQ) : (epoch : Int) * 2 ^ 20 + seq < file.packed := by
  have := maxSeq_eq
  simp only [StagedFile.packed]
  omega

/-- The anchors of an open are epochs that encode. -/
theorem epochAnchor_encodes {state : Option StateFile} {watermark : Option Int}
    {staged : List StagedFile} {plan : RecoveryPlan}
    (hwatermark : ∀ w, watermark = some w → 0 ≤ w ∧ w ≤ i64Max)
    (hstate : ∀ st, state = some st → st.maxEpochUsed ≤ MAX_EPOCH_MS)
    (hplan : planRecovery staged watermark = .ok plan) {anchor : Nat × Nat}
    (hanchor : epochAnchor plan.maxStaged watermark state = some anchor) :
    anchor.1 ≤ MAX_EPOCH_MS := by
  refine epochAnchor_le (fun pair hpair ↦ ?_) (fun w hw ↦ ?_) hstate hanchor
  · obtain ⟨hall, -, -, hmax⟩ := planRecovery_ok hplan
    rw [hmax, Option.map_eq_some_iff] at hpair
    obtain ⟨last, hlast, rfl⟩ := hpair
    exact (hall last (mem_sortStaged.mp (List.mem_of_getLast? hlast))).1
  · obtain ⟨hnonneg, hmax⟩ := hwatermark w hw
    obtain ⟨hdecoded, -⟩ := decodeSerialSeq_spec hnonneg hmax
    have := maxEpochMs_eq
    simp only [i64Max] at hmax
    omega

/-- The epoch of an open, and every serial seq of its session, is above all that came before; and
the successor it may be chosen as stays within 64 bits. -/
theorem epoch_anti_rollback {β : Type} (cfg : WriterConfig β) (nowMs : Nat)
    (state : Option StateFile) (watermark : Option Int) (staged : List StagedFile)
    (opening : Opening) (hwatermark : ∀ w, watermark = some w → 0 ≤ w ∧ w ≤ i64Max)
    (hencodes : ∀ st, state = some st → st.maxEpochUsed ≤ MAX_EPOCH_MS)
    (hopen : openDecisions nowMs state watermark staged = .ok opening) :
    (∀ plan anchor, planRecovery staged watermark = .ok plan →
        epochAnchor plan.maxStaged watermark state = some anchor → anchor.1 + 1 < 2 ^ 64) ∧
      (∀ file ∈ staged, file.epochMs < opening.epoch) ∧
      (∀ w, watermark = some w → (decodeSerialSeq w).1 < opening.epoch) ∧
      (∀ st, state = some st → st.maxEpochUsed < opening.epoch) ∧
      ∀ (stagedOffset resumePersisted : Option Int) (w : Writer β),
        w.ReachableFrom cfg opening.epoch stagedOffset resumePersisted → ∀ cut ∈ w.trace.cuts,
          (∀ file ∈ staged, ∃ serialSeq, file.serialSeq = .ok serialSeq ∧
            serialSeq < cut.fileMeta.serialSeq) ∧
          ∀ wm, watermark = some wm → wm < cut.fileMeta.serialSeq := by
  obtain ⟨hstaged, hmark, hstate⟩ := openDecisions_epoch hopen
  obtain ⟨plan, hplan, -⟩ := openDecisions_eq_ok_iff.mp hopen
  refine ⟨fun plan anchor hplan hanchor ↦ ?_, hstaged, hmark, hstate,
    fun stagedOffset resumePersisted w hreach cut hcut ↦ ?_⟩
  · have hanchorLe := epochAnchor_encodes hwatermark hencodes hplan hanchor
    have := maxEpochMs_eq
    omega
  obtain ⟨-, hnamed⟩ := hreach.rows
  have hserial := (hnamed.wellFormed cut hcut).serialSeq
  have hepoch := hnamed.epochs cut hcut
  refine ⟨fun file hfile ↦ ?_, ?_⟩
  · obtain ⟨hfit, hseq⟩ := (planRecovery_ok hplan).1 file hfile
    refine ⟨file.packed, (file.serialSeq_eq_ok_iff _).mpr ⟨hfit, hseq, rfl⟩, ?_⟩
    rw [hserial]
    exact packed_gt_of_epoch ((hstaged file hfile).trans_le hepoch) hseq
  · rintro wm rfl
    obtain ⟨hnonneg, hmax⟩ := hwatermark wm rfl
    obtain ⟨hdecoded, hseq⟩ := decodeSerialSeq_spec hnonneg hmax
    rw [hserial, hdecoded]
    exact packed_gt_of_epoch ((hmark wm rfl).trans_le hepoch) hseq

/-- An open behind the clock: the staged file, the watermark and the state are of epochs 7, 5 and 8,
and the clock reads 3. -/
theorem epoch_anti_rollback_behind_clock :
    (∀ plan anchor,
        planRecovery [(⟨7, 0, 0, 9, false⟩ : StagedFile)] (some (5 * 2 ^ 20)) = .ok plan →
          epochAnchor plan.maxStaged (some (5 * 2 ^ 20)) (some ⟨none, 8⟩) = some anchor →
            anchor.1 + 1 < 2 ^ 64) ∧
      (∀ file ∈ [(⟨7, 0, 0, 9, false⟩ : StagedFile)], file.epochMs < 9) ∧
      (∀ w, some (5 * 2 ^ 20 : Int) = some w → (decodeSerialSeq w).1 < 9) ∧
      (∀ st, some (⟨none, 8⟩ : StateFile) = some st → st.maxEpochUsed < 9) ∧
      ∀ (stagedOffset resumePersisted : Option Int) (w : Writer RecordBatch),
        w.ReachableFrom sampleConfig 9 stagedOffset resumePersisted → ∀ cut ∈ w.trace.cuts,
          (∀ file ∈ [(⟨7, 0, 0, 9, false⟩ : StagedFile)], ∃ serialSeq,
            file.serialSeq = .ok serialSeq ∧ serialSeq < cut.fileMeta.serialSeq) ∧
          ∀ wm, some (5 * 2 ^ 20 : Int) = some wm → wm < cut.fileMeta.serialSeq :=
  epoch_anti_rollback sampleConfig 3 (some ⟨none, 8⟩) (some (5 * 2 ^ 20)) [⟨7, 0, 0, 9, false⟩]
    ⟨⟨some 10, [⟨7, 0, 0, 9, false⟩], some (7, 0)⟩, 9, ⟨none, 9⟩⟩
    (by rintro w ⟨rfl⟩; decide) (by rintro st ⟨rfl⟩; decide) (by decide)

end RelytIngest
