import RelytIngest.Writer.OrderTripwire
import RelytIngest.Recovery

/-!
# A tripped stream resumes at its gap

Once the tripwire has fired, the last file put is the one with the highest offsets on staging, so
recovery resumes right behind it: at or before the offsets the violation names as missing
(`missingOffsets`). The successor of an offset is 64-bit arithmetic, and `tripped_resume_iff` says
that this is the one exception: the stream resumes at its gap exactly when the last file put ends
below the largest offset.
-/

set_option autoImplicit false
set_option relaxedAutoImplicit false

namespace RelytIngest

open Foundations

/-- The Kafka offsets a violation names as missing between the last durable file and the next. -/
def missingOffsets (endOffset : Int) (next : StagedFile) : Option (Int × Int) :=
  if nextOffset endOffset < next.startOffset then
    some (nextOffset endOffset, wrapI64 (next.startOffset - 1))
  else none

/-- The missing offsets are in the text of the violation. -/
theorem checkOrder_names_missing {file next : StagedFile} {detail : String} {first final : Int}
    (herror : checkOrder (some file.place) next = .error detail)
    (hmissing : missingOffsets file.endOffset next = some (first, final)) :
    ∃ before after, detail = before ++ ("; Kafka offsets " ++ toString first ++ "..=" ++
      toString final ++ " are not in staging") ++ after := by
  unfold missingOffsets at hmissing
  split_ifs at hmissing with hgap
  obtain ⟨rfl, rfl⟩ := Prod.mk.injEq .. ▸ Option.some.inj hmissing
  have hassoc (before gap a b c : String) :
      before ++ gap ++ a ++ b ++ c = before ++ gap ++ (a ++ b ++ c) := by
    simp only [String.append_assoc]
  simp only [checkOrder, StagedFile.place, hgap, if_true] at herror
  by_cases hepoch : next.epochMs = file.epochMs
  all_goals
    simp only [hepoch, if_true, if_false] at herror
    split at herror
    · simp at herror
    · obtain rfl := Except.error.inj herror
      exact ⟨_, _, hassoc ..⟩

/-- Recovery resumes a tripped stream right behind the last file put, and not after the offsets the
violation names as missing. -/
structure ResumesAtGap (plan : RecoveryPlan) (last stopped : StagedFile) : Prop where
  resume : plan.kafkaResumeOffset = some (last.endOffset + 1)
  missing : ∀ first final, missingOffsets last.endOffset stopped = some (first, final) →
    last.endOffset + 1 ≤ first

/-- A file that continues another has the higher packed value. -/
theorem StagedFile.Continues.packed_lt {file next : StagedFile} (hseq : file.seq ≤ MAX_SEQ)
    (h : file.Continues next) : file.packed < next.packed := by
  have hmax := maxSeq_eq
  rcases h with hnext | ⟨hepoch, -⟩
  · omega
  · simp only [packed]
    omega

/-- The last of the files put has the highest packed value. -/
theorem packed_le_last {puts : List StagedFile} {file last : StagedFile}
    (hseq : ∀ f ∈ puts, f.seq ≤ MAX_SEQ) (hchain : puts.IsChain StagedFile.Continues)
    (hlast : puts.getLast? = some last) (hfile : file ∈ puts) :
    file = last ∨ file.packed < last.packed := by
  have hkeys : (puts.map StagedFile.packed).IsChain (· < ·) := by
    rw [List.isChain_map]
    refine hchain.imp_of_mem_imp fun first second hfirst _ hcontinues ↦ ?_
    exact hcontinues.packed_lt (hseq first hfirst)
  have hpairwise := List.pairwise_map.mp hkeys.pairwise
  obtain ⟨earlier, rfl⟩ := List.getLast?_eq_some_iff.mp hlast
  rcases List.mem_append.mp hfile with hearlier | hsame
  · exact Or.inr ((List.pairwise_append.mp hpairwise).2.2 file hearlier last
      (List.mem_singleton_self last))
  · exact Or.inl (List.mem_singleton.mp hsame)

namespace Writer

variable {β : Type} {cfg : WriterConfig β} {epochMs : Nat}
  {stagedOffset resumePersisted : Option Int} {w : Writer β}

/-- After a violation the stream resumes at its gap exactly when the last file put ends below the
largest offset. -/
theorem tripped_resume_iff (cfg : WriterConfig β) (epochMs : Nat)
    (stagedOffset resumePersisted : Option Int) (base arrivals staged : List StagedFile)
    (watermark : Option Int) (plan : RecoveryPlan) (last stopped : StagedFile)
    (later : List StagedFile)
    (hreach : ReachableFrom cfg epochMs stagedOffset resumePersisted w)
    (hoffsets : ∀ e ∈ w.trace.pushed, e.endOffset ≤ i64Max)
    (hbase : ∀ file ∈ base, i64Min ≤ file.endOffset ∧
      ∀ e ∈ w.trace.pushed, file.endOffset < e.startOffset)
    (harrivals : ∀ file ∈ arrivals, file ∈ w.sealedFiles)
    (htripped : arrivals = (putArrivals none arrivals).1 ++ stopped :: later)
    (hlast : (putArrivals none arrivals).1.getLast? = some last)
    (hstaged : ∀ file, file ∈ staged ↔ file ∈ base ∨ file ∈ (putArrivals none arrivals).1)
    (hplan : planRecovery staged watermark = .ok plan) :
    ∃ detail, (putArrivals none arrivals).2 = some detail ∧
      checkOrder (some last.place) stopped = .error detail ∧
      (ResumesAtGap plan last stopped ↔ last.endOffset < i64Max) := by
  have hseq : ∀ file ∈ arrivals, file.seq ≤ MAX_SEQ := fun file hfile ↦
    hreach.sealed_seq_le (harrivals file hfile)
  obtain ⟨file, hfile, -, detail, hdetail, herror⟩ := putArrivals_stopped hseq htripped
  obtain rfl : last = file := Option.some.inj (hlast.symm.trans hfile)
  refine ⟨detail, hdetail, herror, ?_⟩
  have hputs := putArrivals_prefix none arrivals
  have hsealed : ∀ file ∈ (putArrivals none arrivals).1, file ∈ w.sealedFiles := fun file hfile ↦
    harrivals file (hputs.subset hfile)
  have hlastPut : last ∈ (putArrivals none arrivals).1 := List.mem_of_getLast? hlast
  obtain ⟨⟨first, hfirst, hstart⟩, ⟨final, hfinal, hend⟩, hrange⟩ :=
    hreach.sealed_range (hsealed last hlastPut)
  have hlastMax : last.endOffset ≤ i64Max := hend ▸ hoffsets final hfinal
  constructor
  · intro hresumes
    by_contra hmax
    obtain ⟨file, -, hresume⟩ := planRecovery_resume_mem hplan hresumes.resume
    have hwrapped : nextOffset file.endOffset ≤ i64Max := (wrapI64_mem _).2
    omega
  · intro hmax
    have hnonneg := hreach.sealed_nonneg (hsealed last hlastPut)
    -- nothing on staging ends after the last file put
    have hbound : ∀ file ∈ staged, i64Min ≤ file.endOffset ∧ file.endOffset ≤ last.endOffset := by
      intro file hfile
      rcases (hstaged file).mp hfile with hold | hput
      · have hbefore := (hbase file hold).2 first hfirst
        exact ⟨(hbase file hold).1, by omega⟩
      · have hmin := hreach.sealed_nonneg (hsealed file hput)
        have hfileRange := (hreach.sealed_range (hsealed file hput)).2.2
        rcases packed_le_last (fun f hf ↦ hseq f (hputs.subset hf)) (putArrivals_contiguous hseq)
          hlast hput with rfl | hless
        · exact ⟨by simp only [i64Min]; omega, le_rfl⟩
        · have hbefore := hreach.sealed_before (hsealed file hput) (hsealed last hlastPut) hless
          exact ⟨by simp only [i64Min]; omega, by omega⟩
    have hnext : ∀ file ∈ staged, nextOffset file.endOffset = file.endOffset + 1 :=
      fun file hfile ↦ wrapI64_of_mem (by have := (hbound file hfile).1; omega)
        (by have := (hbound file hfile).2; omega)
    have hlastStaged : last ∈ staged := (hstaged last).mpr (Or.inr hlastPut)
    refine ⟨planRecovery_resume_max hplan hlastStaged (hnext last hlastStaged).symm ?_, ?_⟩
    · intro file hfile
      rw [hnext file hfile]
      have := (hbound file hfile).2
      omega
    · intro start final hmissing
      unfold missingOffsets at hmissing
      split_ifs at hmissing
      obtain ⟨rfl, -⟩ := Prod.mk.injEq .. ▸ Option.some.inj hmissing
      exact (hnext last hlastStaged).ge

/-- A writer that put `[0, 9]` and `[10, 19]` and got the second file once more. -/
theorem tripped_resume_iff_twice :
    ∃ detail, (putArrivals none
          [⟨1, 0, 0, 9, false⟩, ⟨1, 1, 10, 19, false⟩, ⟨1, 1, 10, 19, false⟩]).2 = some detail ∧
      checkOrder (some (⟨1, 1, 10, 19, false⟩ : StagedFile).place) ⟨1, 1, 10, 19, false⟩ =
        .error detail ∧
      (ResumesAtGap ⟨some 20, [⟨1, 0, 0, 9, false⟩, ⟨1, 1, 10, 19, false⟩], some (1, 1)⟩
        ⟨1, 1, 10, 19, false⟩ ⟨1, 1, 10, 19, false⟩ ↔ (19 : Int) < i64Max) := by
  refine tripped_resume_iff sampleConfig 1 none none []
    [⟨1, 0, 0, 9, false⟩, ⟨1, 1, 10, 19, false⟩, ⟨1, 1, 10, 19, false⟩]
    [⟨1, 0, 0, 9, false⟩, ⟨1, 1, 10, 19, false⟩] none _ ⟨1, 1, 10, 19, false⟩
    ⟨1, 1, 10, 19, false⟩ [] sealedTwice_reachable ?_ (by simp) ?_ (by decide) (by decide) ?_
    (by decide)
  · decide +kernel
  · rw [sealedTwice_files]
    decide
  · intro file
    have hputs : (putArrivals none [⟨1, 0, 0, 9, false⟩, ⟨1, 1, 10, 19, false⟩,
        ⟨1, 1, 10, 19, false⟩]).1 = [⟨1, 0, 0, 9, false⟩, ⟨1, 1, 10, 19, false⟩] := by decide
    simp [hputs]

/-- A writer that sealed `[0, 9]` and `[10, 2 ^ 63 - 1]`. -/
def sealedToMax : Writer RecordBatch :=
  (run (step sampleConfig) (new 1 none none)
    (sampleAppend 0 9 ++ sampleFlush ++ sampleAppend 10 i64Max ++
      [.flushCall 1 false, .tryLock (.flush 1) false] ++ List.replicate 5 (.handOver 0))).getD
    flushed

theorem sealedToMax_reachable : ReachableFrom sampleConfig 1 none none sealedToMax :=
  reachable_getD_of_run .refl (by decide +kernel)

theorem sealedToMax_files :
    sealedToMax.sealedFiles = [⟨1, 0, 0, 9, false⟩, ⟨1, 1, 10, i64Max, false⟩] := by
  decide +kernel

/-- When the last file put ends at the largest offset, its successor wraps, and recovery resumes
behind the first file. -/
theorem tripped_resume_wraps :
    ¬ ∀ (w : Writer RecordBatch) (arrivals : List StagedFile) (plan : RecoveryPlan)
      (last stopped : StagedFile) (later : List StagedFile),
      ReachableFrom sampleConfig 1 none none w → (∀ e ∈ w.trace.pushed, e.endOffset ≤ i64Max) →
        (∀ file ∈ arrivals, file ∈ w.sealedFiles) →
        arrivals = (putArrivals none arrivals).1 ++ stopped :: later →
        (putArrivals none arrivals).1.getLast? = some last →
        planRecovery (putArrivals none arrivals).1 none = .ok plan →
          ResumesAtGap plan last stopped := by
  intro hclaim
  have hresumes := hclaim sealedToMax
    [⟨1, 0, 0, 9, false⟩, ⟨1, 1, 10, i64Max, false⟩, ⟨1, 1, 10, i64Max, false⟩]
    ⟨some 10, [⟨1, 0, 0, 9, false⟩, ⟨1, 1, 10, i64Max, false⟩], some (1, 1)⟩
    ⟨1, 1, 10, i64Max, false⟩ ⟨1, 1, 10, i64Max, false⟩ [] sealedToMax_reachable
    (by decide +kernel) (by rw [sealedToMax_files]; decide) (by decide) (by decide) (by decide)
  exact absurd hresumes.resume (by decide)

end Writer

end RelytIngest
