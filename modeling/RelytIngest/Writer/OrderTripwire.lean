import RelytIngest.Writer.DenseSeqs
import RelytIngest.Writer.Files
import RelytIngest.Writer.Pipeline
import RelytIngest.Foundations.Consecutive

/-!
# The order tripwire

`putArrivals` is the put stage as far as the tripwire is concerned: it takes the files in the order
they arrive, puts those `checkOrder` lets through, and stops at the first violation. A file
continues another when it is the next one sealed or the first of a later epoch
(`StagedFile.Continues`), and that is what `checkOrder` decides (`checkOrder_eq_ok_iff`). What the
put stage of a writer remembers and what it checks are two files that the writer has sealed
(`ReachableFrom.prev_sealed`, `ReachableFrom.ordering_sealed`).

`tripwire_contiguous` says what the files put out of any arrival sequence have in common with the
sealed sequence. `tripped_resume_iff` is about a stream that tripped: the resume offset recovery
computes from the listing is right behind the last file put, unless that offset leaves 64 bits.
-/

set_option autoImplicit false
set_option relaxedAutoImplicit false

namespace RelytIngest

open Foundations

/-- What the put stage remembers of the last file it made durable. -/
def StagedFile.place (file : StagedFile) : Nat × Nat × Int :=
  (file.epochMs, file.seq, file.endOffset)

/-- The files the put stage puts of those that arrive, and the violation it stops with. -/
def putArrivals (prev : Option (Nat × Nat × Int)) :
    List StagedFile → List StagedFile × Option String
  | [] => ([], none)
  | file :: later =>
    match checkOrder prev file with
    | .error detail => ([], some detail)
    | .ok () =>
      let rest := putArrivals (some file.place) later
      (file :: rest.1, rest.2)

/-- `next` is the next file sealed after `file`, or the first one of a later epoch. -/
def StagedFile.Continues (file next : StagedFile) : Prop :=
  next.packed = file.packed + 1 ∨ file.epochMs < next.epochMs ∧ next.seq = 0

instance : DecidableRel StagedFile.Continues := fun _ _ ↦ inferInstanceAs (Decidable (_ ∨ _))

/-- The tripwire lets through exactly the files that continue the last durable one. -/
theorem checkOrder_eq_ok_iff {file next : StagedFile} (hfile : file.seq ≤ MAX_SEQ)
    (hnext : next.seq ≤ MAX_SEQ) :
    checkOrder (some file.place) next = .ok () ↔ file.Continues next := by
  have hmax := maxSeq_eq
  simp only [checkOrder, StagedFile.place, StagedFile.Continues, StagedFile.packed]
  by_cases hepoch : next.epochMs = file.epochMs
  · simp only [hepoch, if_true]
    by_cases hseq : next.seq = (file.seq + 1) % 2 ^ 32
    · simp only [hseq, if_true, true_iff]
      left
      push_cast
      omega
    · simp only [hseq, if_false, reduceCtorEq, false_iff]
      omega
  · simp only [hepoch, if_false]
    by_cases hlater : file.epochMs < next.epochMs ∧ next.seq = 0
    · simp [hlater]
    · simp only [hlater, if_false, reduceCtorEq, false_iff, or_false]
      omega

section Arrivals

variable {prev : Option (Nat × Nat × Int)} {arrivals : List StagedFile}

theorem putArrivals_prefix (prev : Option (Nat × Nat × Int)) (arrivals : List StagedFile) :
    (putArrivals prev arrivals).1 <+: arrivals := by
  induction arrivals generalizing prev with
  | nil => exact List.prefix_rfl
  | cons file later ih =>
    simp only [putArrivals]
    split
    · exact List.nil_prefix
    · exact List.cons_prefix_cons.mpr ⟨rfl, ih (some file.place)⟩

/-- Each file put continues the one put before it. -/
theorem putArrivals_isChain {file : StagedFile}
    (hseq : ∀ f ∈ file :: arrivals, f.seq ≤ MAX_SEQ) :
    (file :: (putArrivals (some file.place) arrivals).1).IsChain StagedFile.Continues := by
  induction arrivals generalizing file with
  | nil => exact List.isChain_singleton file
  | cons next later ih =>
    simp only [putArrivals]
    split
    · exact List.isChain_singleton file
    · next hok =>
      have hcontinues := (checkOrder_eq_ok_iff (hseq file List.mem_cons_self)
        (hseq next (List.mem_cons_of_mem _ List.mem_cons_self))).mp hok
      exact List.isChain_cons_cons.mpr
        ⟨hcontinues, ih fun f hf ↦ hseq f (List.mem_cons_of_mem file hf)⟩

/-- The first file not put trips the wire: it does not continue the last one put. -/
theorem putArrivals_trips {file stopped : StagedFile} {later : List StagedFile}
    (hseq : ∀ f ∈ file :: arrivals, f.seq ≤ MAX_SEQ)
    (hstop : arrivals = (putArrivals (some file.place) arrivals).1 ++ stopped :: later) :
    ∃ last, (file :: (putArrivals (some file.place) arrivals).1).getLast? = some last ∧
      ¬ last.Continues stopped ∧
      ∃ detail, (putArrivals (some file.place) arrivals).2 = some detail ∧
        checkOrder (some last.place) stopped = .error detail := by
  induction arrivals generalizing file with
  | nil => simp [putArrivals] at hstop
  | cons next rest ih =>
    have hnext := hseq next (List.mem_cons_of_mem _ List.mem_cons_self)
    simp only [putArrivals] at hstop ⊢
    split at hstop
    · next detail herror =>
      obtain ⟨rfl, rfl⟩ := List.cons_eq_cons.mp hstop
      refine ⟨file, rfl, fun hcontinues ↦ ?_, detail, rfl, herror⟩
      rw [(checkOrder_eq_ok_iff (hseq file List.mem_cons_self) hnext).mpr hcontinues] at herror
      simp at herror
    · next hok =>
      simp only [List.getLast?_cons_cons]
      exact ih (fun f hf ↦ hseq f (List.mem_cons_of_mem file hf)) (List.cons_eq_cons.mp hstop).2

/-- The first file that arrives is put, whatever it is. -/
theorem putArrivals_head? (arrivals : List StagedFile) :
    (putArrivals none arrivals).1.head? = arrivals.head? := by
  cases arrivals <;> rfl

theorem putArrivals_contiguous (hseq : ∀ file ∈ arrivals, file.seq ≤ MAX_SEQ) :
    (putArrivals none arrivals).1.IsChain StagedFile.Continues := by
  cases arrivals with
  | nil => exact List.isChain_nil
  | cons first later => exact putArrivals_isChain hseq

/-- The first file of the session not put trips the wire. -/
theorem putArrivals_stopped {stopped : StagedFile} {later : List StagedFile}
    (hseq : ∀ file ∈ arrivals, file.seq ≤ MAX_SEQ)
    (hstop : arrivals = (putArrivals none arrivals).1 ++ stopped :: later) :
    ∃ last, (putArrivals none arrivals).1.getLast? = some last ∧ ¬ last.Continues stopped ∧
      ∃ detail, (putArrivals none arrivals).2 = some detail ∧
        checkOrder (some last.place) stopped = .error detail := by
  cases arrivals with
  | nil => simp at hstop
  | cons first rest =>
    have hrest : rest = (putArrivals (some first.place) rest).1 ++ stopped :: later :=
      (List.cons_eq_cons.mp hstop).2
    exact putArrivals_trips hseq hrest

end Arrivals

/-! ### What the put stage compares -/

namespace Writer

section Remembered

variable {β : Type} {cfg : WriterConfig β} {w w' : Writer β}

theorem prev_handOver {now : Nat} (hstep : w.handOver cfg now = some w') :
    w'.pipe.prev = w.pipe.prev := by
  have hfinish (v : Writer β) (holder : Sealer) (result : Except Error (Option Int)) :
      (v.finish holder result).pipe.prev = v.pipe.prev :=
    congrArg Pipeline.prev (SamePipeline.finish holder result).pipe
  cases holder_cases hstep with
  | reserve | await | permit | close | lose | proceed => rfl
  | skip | yield | fail | report | send => exact hfinish _ _ _
  | cut =>
    unfold Writer.cut
    split <;> first | rfl | exact hfinish _ _ _

/-- What the put stage remembers changes when a file lands. -/
theorem prev_stage {action : Action β} (hstep : w.step cfg action = some w')
    (hstage : action matches .receive _ | .attempt _ | .renderEnds _ | .gzipEnds _ | .putEnds _ |
      .giveUp _ | .calibrate | .send _ | .order | .confirm | .record | .announce | .land) :
    w'.pipe.prev = w.pipe.prev ∨
      ∃ m, w.pipe.put = .between (.landing m) ∧ w'.pipe.prev = some m.file.place := by
  rcases stage_cases hstep hstage with hmove | hmove | hmove
  · exact Or.inl (by cases hmove <;> rfl)
  · exact Or.inl (by cases hmove <;> rfl)
  · cases hmove with
    | land m hput => exact Or.inr ⟨m, hput, rfl⟩
    | _ => exact Or.inl rfl

/-- A step leaves what the put stage remembers, unless a file lands. -/
theorem prev_step {action : Action β} (hstep : w.step cfg action = some w') :
    w'.pipe.prev = w.pipe.prev ∨
      ∃ m, w.pipe.put = .between (.landing m) ∧ w'.pipe.prev = some m.file.place := by
  cases action with
  | appendCall | appendPush | appendUnbuffer | flushCall | flushLookup | flushAwait | flushRead
  | tick | tickerCheck | persistBegin | persistRecheck | persistWrite =>
    exact Or.inl (congrArg Pipeline.prev (caller_frame hstep rfl).1.pipe)
  | tryLock | acquire | stall => exact Or.inl (congrArg Pipeline.prev (locker_frame hstep rfl).pipe)
  | handOver => exact Or.inl (prev_handOver hstep)
  | receive | attempt | renderEnds | gzipEnds | putEnds | giveUp | calibrate | send | order
  | confirm | record | announce | land => exact prev_stage hstep rfl
  | fence | serialViolation | notifierStops => exact Or.inl (Option.some.inj hstep ▸ rfl)

variable {epochMs : Nat} {stagedOffset resumePersisted : Option Int}

/-- The put stage remembers a file that was sealed. -/
theorem ReachableFrom.prev_sealed
    (hreach : ReachableFrom cfg epochMs stagedOffset resumePersisted w)
    {place : Nat × Nat × Int} (hprev : w.pipe.prev = some place) :
    ∃ file ∈ w.sealedFiles, place = file.place := by
  refine hreach.strengthened (fun w ↦ ∀ place, w.pipe.prev = some place →
    ∃ file ∈ w.sealedFiles, place = file.place) ?_ ?_ place hprev
  · intro place hplace
    simp [new, Pipeline.initial] at hplace
  · intro before action after hbefore hremembered _ hstep place hplace
    have hgrow := (files_grow hstep).1.subset
    rcases prev_step hstep with hsame | ⟨m, hput, hlanded⟩
    · obtain ⟨file, hfile, heq⟩ := hremembered place (hsame ▸ hplace)
      exact ⟨file, hgrow hfile, heq⟩
    · have hfiles := ReachableFrom.files hbefore
      have hvalid : before.files.recorded = before.files.putReturned ∧ m ∈ before.files.recorded ∧
          before.files.Announced (notifyRequest cfg) before.files.recorded := by
        have hplaceValid := hfiles.place
        rwa [Files.PlaceValid, show before.files.place = .landing m from congrArg PutPlace.of hput]
          at hplaceValid
      have hcut : m ∈ before.files.cuts := by
        rw [hfiles.conserved, List.append_assoc]
        exact List.mem_append_left _ (hvalid.1 ▸ hvalid.2.1)
      refine ⟨m.file, hgrow ?_, Option.some.inj (hplace.symm.trans hlanded)⟩
      rw [sealedFiles_eq]
      exact List.mem_map_of_mem hcut

/-- The file that it checks is a sealed one. -/
theorem ReachableFrom.ordering_sealed
    (hreach : ReachableFrom cfg epochMs stagedOffset resumePersisted w) {file : Compressed}
    (hput : w.pipe.put = .between (.ordering file)) : file.fileMeta.file ∈ w.sealedFiles := by
  have hline : file.fileMeta ∈ w.files.line := by
    simp [Writer.files, Pipeline.line, hput, Stage.inHand, PutPhase.files]
  rw [sealedFiles_eq]
  refine List.mem_map_of_mem ?_
  rw [hreach.files.conserved]
  exact List.mem_append_left _ (List.mem_append_right _ hline)

end Remembered

end Writer

/-! ### The files put and the files sealed -/

/-- What the put stage has done with the files that arrived, of those sealed in the session. -/
structure PutInOrder (sealedFiles arrivals : List StagedFile) : Prop where
  arrived : (putArrivals none arrivals).1 <+: arrivals
  contiguous : (putArrivals none arrivals).1.IsChain StagedFile.Continues
  /-- The first file not put trips the wire, and it does not continue the last one put. -/
  trips : ∀ stopped later, arrivals = (putArrivals none arrivals).1 ++ stopped :: later →
    ∃ last, (putArrivals none arrivals).1.getLast? = some last ∧ ¬ last.Continues stopped ∧
      ∃ detail, (putArrivals none arrivals).2 = some detail ∧
        checkOrder (some last.place) stopped = .error detail
  /-- The files put are the first ones sealed, unless the first arrival is not the first file, or a
  file opens a later epoch too early. -/
  sealedPrefix : (putArrivals none arrivals).1 <+: sealedFiles ↔
    (∀ file ∈ arrivals.head?, file ∈ sealedFiles.head?) ∧
      Consecutive StagedFile.packed (putArrivals none arrivals).1

namespace Writer

variable {β : Type} {cfg : WriterConfig β} {epochMs : Nat}
  {stagedOffset resumePersisted : Option Int} {w : Writer β}

/-- The sealed files are numbered without a gap. -/
theorem ReachableFrom.sealed_consecutive
    (hreach : ReachableFrom cfg epochMs stagedOffset resumePersisted w) :
    Consecutive StagedFile.packed w.sealedFiles :=
  consecutive_of_keys hreach.sealed_packed

/-- Of two sealed files, the one with the lower packed value ends before the other starts. -/
theorem ReachableFrom.sealed_before
    (hreach : ReachableFrom cfg epochMs stagedOffset resumePersisted w) {first second : StagedFile}
    (hfirst : first ∈ w.sealedFiles) (hsecond : second ∈ w.sealedFiles)
    (hlt : first.packed < second.packed) : first.endOffset < second.startOffset := by
  have hordered := hreach.sealed_consecutive.pairwise.and hreach.sealed_ranges
  obtain ⟨i, hi, rfl⟩ := List.getElem_of_mem hfirst
  obtain ⟨j, hj, rfl⟩ := List.getElem_of_mem hsecond
  rw [List.pairwise_iff_getElem] at hordered
  rcases Nat.lt_trichotomy i j with hless | rfl | hmore
  · exact (hordered i j hi hj hless).2
  · exact absurd hlt (Int.lt_irrefl _)
  · have := (hordered j i hj hi hmore).1
    omega

/-- Of the sealed files, lost, duplicated and reordered in any way, the put stage puts a contiguous
run from the first to arrive, and trips before the first that breaks it. -/
theorem tripwire_contiguous (cfg : WriterConfig β) (epochMs : Nat)
    (stagedOffset resumePersisted : Option Int) (arrivals : List StagedFile)
    (hreach : ReachableFrom cfg epochMs stagedOffset resumePersisted w)
    (harrivals : ∀ file ∈ arrivals, file ∈ w.sealedFiles) :
    PutInOrder w.sealedFiles arrivals := by
  have hseq : ∀ file ∈ arrivals, file.seq ≤ MAX_SEQ := fun file hfile ↦
    hreach.sealed_seq_le (harrivals file hfile)
  have hputs := putArrivals_prefix none arrivals
  refine ⟨hputs, putArrivals_contiguous hseq,
    fun stopped later hstop ↦ putArrivals_stopped hseq hstop, ?_, ?_⟩
  · intro hleading
    refine ⟨fun file hfile ↦ ?_, hreach.sealed_consecutive.prefix hleading⟩
    rw [← putArrivals_head? arrivals] at hfile
    obtain ⟨later, hlater⟩ := hleading
    rw [← hlater, List.head?_append, Option.mem_def.mp hfile]
    rfl
  · rintro ⟨hhead, hconsecutive⟩
    refine hreach.sealed_consecutive.prefix_of_subset hconsecutive
      (fun file hfile ↦ harrivals file (hputs.subset hfile)) fun first hfirst ↦ hhead first ?_
    rwa [← putArrivals_head? arrivals]

/-- A writer that sealed `[0, 9]` and `[10, 19]`. -/
def sealedTwice : Writer RecordBatch :=
  (run (step sampleConfig) flushed
    ([.flushCall 1 false, .tryLock (.flush 1) false] ++ List.replicate 5 (.handOver 0))).getD flushed

theorem sealedTwice_reachable : ReachableFrom sampleConfig 1 none none sealedTwice :=
  reachable_getD_of_run flushed_reachable (by decide +kernel)

theorem sealedTwice_files :
    sealedTwice.sealedFiles = [⟨1, 0, 0, 9, false⟩, ⟨1, 1, 10, 19, false⟩] := by
  decide +kernel

/-- The second of its files arrives twice, after the first. -/
theorem tripwire_contiguous_twice :
    PutInOrder sealedTwice.sealedFiles
      [⟨1, 0, 0, 9, false⟩, ⟨1, 1, 10, 19, false⟩, ⟨1, 1, 10, 19, false⟩] := by
  refine tripwire_contiguous sampleConfig 1 none none _ sealedTwice_reachable ?_
  rw [sealedTwice_files]
  decide

/-- The first of its files is lost: the second is put all the same. -/
theorem first_file_lost :
    ¬ ∀ (w : Writer RecordBatch) (arrivals : List StagedFile),
      ReachableFrom sampleConfig 1 none none w → (∀ file ∈ arrivals, file ∈ w.sealedFiles) →
        (putArrivals none arrivals).1 <+: w.sealedFiles := by
  intro hclaim
  have hleading := hclaim sealedTwice [⟨1, 1, 10, 19, false⟩] sealedTwice_reachable (by
    rw [sealedTwice_files]
    decide)
  rw [sealedTwice_files] at hleading
  revert hleading
  decide

end Writer

end RelytIngest
