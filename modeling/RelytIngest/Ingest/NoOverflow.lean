import RelytIngest.CheckedOffsets
import RelytIngest.Ingest.ExactlyOnce
import RelytIngest.Writer.CommitGate

/-!
# Offset arithmetic over a run

`append` bounds the ranges that it accepts from below only. Over a run in which each batch that is
buffered ends below some bound (`EndsBelow`), so does whatever is made of the batches: the staged
files, the requests of the notify loops, their boards, the state file and what an open resumes at
(`Bounded`).

With the largest offset as the bound nothing that an open or a put stage computes leaves its type,
and what is staged can be recovered from (`offsets_never_overflow`). A batch that ends at the
largest offset is accepted all the same, and the open that lists its file overflows
(`largest_offset_overflows`).
-/

set_option autoImplicit false
set_option relaxedAutoImplicit false

namespace RelytIngest

open Foundations Relation

/-- The batch that `append` is about to buffer. -/
def StreamSession.accepting {β : Type} (session : StreamSession β) : Option (Entry β) :=
  match session.phase with
  | .running _ w =>
    match w.append with
    | .checked entry =>
      match w.st.checkForward entry.startOffset entry.endOffset with
      | .ok () => some entry
      | .error _ => none
    | _ => none
  | _ => none

namespace Ingest

variable {β σ : Type} {cfg : Nat → WriterConfig β} {master : Master σ} {s s' : Ingest β σ} {m : σ}
  {bound : Int}

/-- The batch that an action buffers. -/
def buffers (s : Ingest β σ) : IngestAction β → Option (Entry β)
  | .stream (.writer id (.appendPush _)) => (s.session id).accepting
  | _ => none

/-- A batch that is buffered ends below the bound. -/
def EndsBelow (bound : Int) (s : Ingest β σ) (action : IngestAction β) : Prop :=
  ∀ entry ∈ s.buffers action, entry.endOffset < bound

instance (bound : Int) (s : Ingest β σ) (action : IngestAction β) :
    Decidable (EndsBelow bound s action) :=
  inferInstanceAs (Decidable (∀ entry ∈ s.buffers action, entry.endOffset < bound))

/-! ### The files -/

theorem pushed_below (hreach : ReachableUnder (step cfg master) (EndsBelow bound) (start m) s)
    {id : Nat} {opening : Opening} {w : Writer β}
    (hphase : (s.session id).phase = .running opening w) :
    ∀ e ∈ w.trace.pushed, e.endOffset < bound := by
  refine running_invariant (fun _ _ w ↦ ∀ e ∈ w.trace.pushed, e.endOffset < bound) ?_ ?_ hreach id
    opening w hphase
  · intro id opening e he
    simp [Writer.new] at he
  · intro s id opening w action w' _ hphase hallowed hbelow hstep
    rcases Writer.pushed_step hstep with hsame | ⟨now, entry, rfl, happend, hcheck, hpushed⟩
    · rw [hsame]
      exact hbelow
    · rw [hpushed, List.forall_mem_append, List.forall_mem_singleton]
      refine ⟨hbelow, hallowed entry ?_⟩
      simp [buffers, StreamSession.accepting, hphase, happend, hcheck]

/-- The offsets of a file are those of a batch, and its names encode. -/
structure FileBelow (bound : Int) (file : StagedFile) : Prop where
  start : OffsetBelow bound file.startOffset
  last : OffsetBelow bound file.endOffset
  epoch : file.epochMs ≤ MAX_EPOCH_MS
  seq : file.seq ≤ MAX_SEQ

theorem sealed_below (hreach : ReachableUnder (step cfg master) (EndsBelow bound) (start m) s)
    {id : Nat} {opening : Opening} {w : Writer β}
    (hphase : (s.session id).phase = .running opening w) {file : StagedFile}
    (hfile : file ∈ w.sealedFiles) : FileBelow bound file := by
  have hwriter := writer_of_reachable hreach hphase
  have hmin := hwriter.sealed_nonneg hfile
  obtain ⟨-, ⟨e, he, hend⟩, hrange⟩ := hwriter.sealed_range hfile
  have hmax : file.endOffset < bound := hend ▸ pushed_below hreach hphase e he
  obtain ⟨⟨n, hn⟩, -⟩ := hwriter.sealed_meta hfile
  obtain ⟨-, hepoch, hseq, -⟩ := WriterState.sealMeta_ok hn
  exact ⟨⟨hmin, by omega⟩, ⟨by omega, hmax⟩, hepoch, hseq⟩

theorem staged_below (hreach : ReachableUnder (step cfg master) (EndsBelow bound) (start m) s)
    {file : StagedFile} (hfile : file ∈ s.staged) : FileBelow bound file := by
  obtain ⟨id, hlanded⟩ := mem_staged.mp hfile
  have hputs := puts_of_reachable hreach
  obtain ⟨opening, w, hphase, hmaybe⟩ := hputs.issued id file (hputs.landed _ hlanded)
  exact sealed_below hreach hphase (Writer.mem_sealedFiles_of_maybePut hmaybe)

/-! ### What is made of the files -/

/-- The offsets that the sessions and the notify loops carry are those of batches. -/
structure Bounded (bound : Int) (s : Ingest β σ) : Prop where
  backfill : ∀ id opening, (s.session id).opened = some opening →
    ∀ file ∈ opening.plan.backfill, OffsetBelow bound file.endOffset
  resume : ∀ id opening, (s.session id).opened = some opening →
    ∀ offset, opening.plan.kafkaResumeOffset = some offset →
      ∃ last, OffsetBelow bound last ∧ offset = nextOffset last
  pending : ∀ id, ∀ req ∈ (s.loops id).pending, OffsetBelow bound req.endOffset
  board : ∀ id group entry, (s.loops id).board.confirmed group = some entry →
    OffsetBelow bound entry.2
  records : s.stream.Records (OffsetBelow bound)

namespace Bounded

theorem start : (start m : Ingest β σ).Bounded bound where
  backfill id opening hopened := by
    simp [Ingest.start, session, Stream.start, StreamSession.opened] at hopened
  resume id opening hopened := by
    simp [Ingest.start, session, Stream.start, StreamSession.opened] at hopened
  pending id req hreq := by
    simp [Ingest.start, NotifyLoop.spawn, NotifyLoop.pending] at hreq
  board id group entry hentry := by
    simp [Ingest.start, NotifyLoop.spawn, NotifyState.empty] at hentry
  records := Stream.records_start

theorem step (h : s.Bounded bound)
    (hreach : ReachableUnder (Ingest.step cfg master) (EndsBelow bound) (Ingest.start m) s)
    {action : IngestAction β} (hstep : s.step cfg master action = some s') :
    s'.Bounded bound := by
  constructor
  case backfill =>
    intro id opening hopened file hfile
    rcases opened_step hstep hopened with hold | ⟨_, _, staged, _, -, -, -, hlisted, hopen⟩
    · exact h.backfill id opening hold file hfile
    · exact (staged_below hreach (hlisted.mem_iff.mp (openDecisions_backfill hopen hfile))).last
  case resume =>
    intro id opening hopened offset hoffset
    rcases opened_step hstep hopened with hold | ⟨_, _, staged, state, -, hphase, -, hlisted, hopen⟩
    · exact h.resume id opening hold offset hoffset
    · rcases openDecisions_resume hopen hoffset with ⟨file, hfile, heq⟩ | ⟨recorded, hread, heq⟩
      · exact ⟨file.endOffset, (staged_below hreach (hlisted.mem_iff.mp hfile)).last, heq⟩
      · cases state with
        | none => simp at hread
        | some read => exact ⟨recorded, (h.records.sessions id).reading read hphase _ hread, heq⟩
  case pending =>
    intro id req hreq
    rcases mem_pending_step hreach hstep hreq with hold |
      ⟨opening, w, hphase, n, hn, hannounces⟩ | ⟨opening, hopened, file, hfile, hannounces⟩
    · exact h.pending id req hold
    · have hwriter := writer_of_reachable hreach hphase
      have hput : n ∈ w.trace.putReturned := hwriter.files.cleared_prefix.subset hn
      rw [hannounces.endOffset]
      exact (sealed_below hreach hphase (hwriter.cleared_meta hput).1).last
    · rw [hannounces.endOffset]
      exact h.backfill id opening hopened file hfile
  case board =>
    intro id group entry hentry
    rcases Offsets.board_step hstep hentry with hold | ⟨req, hreq, rfl⟩
    · exact h.board id group entry hold
    · exact h.pending id req hreq
  case records => exact stream_records_step h.records h.board hstep

end Bounded

theorem bounded_of_reachable
    (hreach : ReachableUnder (step cfg master) (EndsBelow bound) (start m) s) : s.Bounded bound :=
  hreach.strengthened (Bounded bound) .start fun _ _ _ hbefore h _ hstep ↦ h.step hbefore hstep

/-! ### What is computed -/

/-- Nothing that recovery, an open or a put stage computes leaves its type, and from what is staged
a stream recovers behind the staged files. -/
structure NoOverflow (s : Ingest β σ) : Prop where
  recovers : ∀ staged watermark, staged ⊆ s.staged → ∃ plan,
    planRecoveryChecked staged watermark = some (.ok plan) ∧
      planRecovery staged watermark = .ok plan ∧
      ∀ file ∈ staged, ∃ offset, plan.kafkaResumeOffset = some offset ∧ file.endOffset < offset
  opens : ∀ id state, (s.session id).phase = .reading state →
    ∀ nowMs watermark staged, staged ⊆ s.staged →
      openDecisionsChecked nowMs state watermark staged =
        some (openDecisions nowMs state watermark staged)
  starts : ∀ id opening, (s.session id).opened = some opening →
    recoveredOffsetChecked opening.plan.kafkaResumeOffset =
      some (recoveredOffset opening.plan.kafkaResumeOffset)
  /-- The put stage checks the file in its hands. -/
  puts : ∀ id opening w file, (s.session id).phase = .running opening w →
    w.pipe.put = .between (.ordering file) →
      checkOrderChecked w.pipe.prev file.fileMeta.file =
        some (checkOrder w.pipe.prev file.fileMeta.file)
  /-- So it does for any two sealed files, in whichever order they reach the put stage. -/
  orders : ∀ id opening w, (s.session id).phase = .running opening w →
    ∀ file ∈ w.sealedFiles, ∀ next ∈ w.sealedFiles,
      checkOrderChecked (some file.place) next = some (checkOrder (some file.place) next)

theorem FileBelow.checkOrder_eq {file next : StagedFile} (hfile : FileBelow i64Max file)
    (hnext : FileBelow i64Max next) :
    checkOrderChecked (some file.place) next = some (checkOrder (some file.place) next) :=
  checkOrderChecked_eq hfile.seq hnext.seq hfile.last hnext.start

/-- What is staged can be recovered from. -/
theorem recovers_of_below {staged : List StagedFile}
    (hbelow : ∀ file ∈ staged, FileBelow i64Max file) (watermark : Option Int) :
    ∃ plan, planRecoveryChecked staged watermark = some (.ok plan) ∧
      planRecovery staged watermark = .ok plan ∧
      ∀ file ∈ staged, ∃ offset, plan.kafkaResumeOffset = some offset ∧
        file.endOffset < offset := by
  obtain ⟨plan, hplan⟩ := planRecovery_exists watermark fun file hfile ↦
    ⟨(hbelow file hfile).epoch, (hbelow file hfile).seq⟩
  refine ⟨plan, ?_, hplan, fun file hfile ↦ ?_⟩
  · rw [planRecoveryChecked_eq watermark fun file hfile ↦ (hbelow file hfile).last, hplan]
  · obtain ⟨offset, hoffset, hge⟩ := planRecovery_resume_ge hplan hfile
    obtain ⟨hmin, hmax⟩ := (hbelow file hfile).last
    rw [nextOffset_of_lt (by simp only [i64Min]; omega) hmax] at hge
    exact ⟨offset, hoffset, by omega⟩

/-- While each batch that is buffered ends below the largest offset, no computation on offsets or
seqs overflows, and an accepted range can be recovered from. -/
theorem offsets_never_overflow
    (hreach : ReachableUnder (step cfg master) (EndsBelow i64Max) (start m) s) :
    s.NoOverflow := by
  have hbounded := bounded_of_reachable hreach
  constructor
  case recovers =>
    intro staged watermark hstaged
    exact recovers_of_below (fun file hfile ↦ staged_below hreach (hstaged hfile)) watermark
  case opens =>
    intro id state hphase nowMs watermark staged hstaged
    refine openDecisionsChecked_eq nowMs watermark
      (fun file hfile ↦ (staged_below hreach (hstaged hfile)).last) fun recorded hrecorded ↦ ?_
    cases state with
    | none => simp at hrecorded
    | some read => exact (hbounded.records.sessions id).reading read hphase recorded hrecorded
  case starts =>
    intro id opening hopened
    refine recoveredOffsetChecked_eq fun offset hoffset ↦ ?_
    obtain ⟨last, ⟨hmin, hmax⟩, rfl⟩ := hbounded.resume id opening hopened offset hoffset
    rw [nextOffset_of_lt (by simp only [i64Min]; omega) hmax]
    simp only [i64Min]
    omega
  case puts =>
    intro id opening w file hphase hput
    have hwriter := writer_of_reachable hreach hphase
    cases hprev : w.pipe.prev with
    | none => rfl
    | some place =>
      obtain ⟨last, hlast, rfl⟩ := hwriter.prev_sealed hprev
      exact (sealed_below hreach hphase hlast).checkOrder_eq
        (sealed_below hreach hphase (hwriter.ordering_sealed hput))
  case orders =>
    intro id opening w hphase file hfile next hnext
    exact (sealed_below hreach hphase hfile).checkOrder_eq (sealed_below hreach hphase hnext)

/-- A session stages `[0, 9]` and `[10, 19]` and dies, and the next one resumes at 20. -/
def reopened : Ingest RecordBatch (List NotifyRequest × List NotifyRequest) :=
  (run (restrict (step (fun _ ↦ sampleConfig) jobMaster) (EndsBelow i64Max)) (start ([], []))
    (sampleDeath ++ [.objectLands 0 sampleSecond] ++
      sampleSession 1 5 none [sampleFirst, sampleSecond] 2)).getD (start ([], []))

theorem offsets_never_overflow_sample : reopened.NoOverflow :=
  offsets_never_overflow (reachableUnder_getD_of_restrict .refl (by decide +kernel))

/-- A session stages `[0, 9]` and a range to the largest offset, and dies. -/
def stagedToLargest : Ingest RecordBatch (List NotifyRequest × List NotifyRequest) :=
  (run (restrict (step (fun _ ↦ sampleConfig) jobMaster) (EndsBelow (i64Max + 1))) (start ([], []))
    (sampleSession 0 1 none [] 0 ++ samplePut 0 0 0 9 ++ sampleStage 0 sampleFirst ++
      samplePut 0 1 10 9223372036854775807 ++ sampleStage 0 sampleLast ++
      [.stream (.crash 0)])).getD (start ([], []))

/-- The next open computes the successor of the largest offset. -/
theorem largest_offset_overflows :
    ¬ ∀ s : Ingest RecordBatch (List NotifyRequest × List NotifyRequest),
      ReachableUnder (step (fun _ ↦ sampleConfig) jobMaster) (EndsBelow (i64Max + 1))
        (start ([], [])) s → s.NoOverflow := by
  intro hclaim
  have hreach : ReachableUnder (step (fun _ ↦ sampleConfig) jobMaster) (EndsBelow (i64Max + 1))
      (start ([], [])) stagedToLargest :=
    reachableUnder_getD_of_restrict .refl (by decide +kernel)
  have hstaged : stagedToLargest.staged = [sampleFirst, sampleLast] := by decide +kernel
  obtain ⟨plan, hplan, -⟩ := (hclaim stagedToLargest hreach).recovers _ none (List.Subset.refl _)
  have hpanics : planRecoveryChecked stagedToLargest.staged none = none := by
    rw [hstaged, planRecoveryChecked_eq_none_iff (by decide)]
    exact ⟨sampleLast, by decide, rfl⟩
  rw [hpanics] at hplan
  exact absurd hplan nofun

end Ingest

end RelytIngest
