import RelytIngest.Writer.Files

/-!
# What stops a writer

`Watch` is a writer seen through its failures: the progress channel, the stopped states, how each
stage task stands (`StageStatus`), whether the holder of the seal lock has found the seal channel
closed, and whether the put stage is about to record a file. `watch_step` says once what a step can
do to it; the moves carry what a caller of the move knows about the files in the stages, which are
in the order they were sealed (`LineOrdered`).
-/

set_option autoImplicit false
set_option relaxedAutoImplicit false

namespace RelytIngest

open Foundations Relation

/-- How a stage task stands. -/
inductive StageStatus
  | working
  /-- A permanent failure of the file with this serial seq is reported and not yet published. -/
  | rejected (seq : Int)
  | ended
  deriving DecidableEq

/-- A stage stands as its state says. -/
def Stage.status {ι φ : Type} (metaOf : ι → FileMeta) : Stage ι φ → StageStatus
  | .rejected file _ => .rejected (metaOf file).serialSeq
  | .exited _ => .ended
  | _ => .working

/-- The put stage has checked the fence and not yet announced the file. -/
def PutPlace.atRecord : PutPlace → Bool
  | .recording _ | .announcing _ => true
  | _ => false

/-- A writer seen through its failures. -/
@[ext]
structure Watch where
  progress : Progress
  fenced : Bool
  outOfOrder : Bool
  inViolation : Bool
  stages : StageName → StageStatus
  /-- The holder of the seal lock has found the seal channel closed. -/
  closed : Bool
  atRecord : Bool

namespace Watch

/-- Some stage task has ended. -/
def Ended (v : Watch) : Prop := ∃ stage, v.stages stage = .ended

/-- The moves of a watch; `failure` is the file and the error of an attempt that fails in the step,
and `fence` says that the step is a fence. -/
inductive Move (failure : Option (Int × Error)) (fence : Bool) : Watch → Watch → Prop
  | fence (v : Watch) (hfence : fence = true) : Move failure fence v { v with fenced := true }
  | violate (v : Watch) : Move failure fence v { v with inViolation := true }
  | pass (v : Watch) (seq : Int) (hseq : 0 ≤ seq) (hother : ∀ s, v.stages s ≠ .rejected seq) :
      Move failure fence v { v with progress := v.progress.clearFailure seq }
  | fail (v : Watch) (stage : StageName) (attempt : Nat) (seq : Int) (err : Error)
      (hfailure : failure = some (seq, err)) (hseq : 0 ≤ seq ∧ seq ≤ i64Max)
      (hworking : v.stages stage = .working) :
      Move failure fence v { v with
        progress := v.progress.reportFailure seq stage.label attempt err.isPermanent err
        stages := if err.isPermanent then Function.update v.stages stage (.rejected seq)
          else v.stages }
  | giveUp (v : Watch) (stage : StageName) (seq : Int) (cause : Error) (last : String)
      (hrejected : v.stages stage = .rejected seq) :
      Move failure fence v { v with
        progress := v.progress.publishTerminal .rotation stage.label (some cause) last
        stages := Function.update v.stages stage .ended }
  | drop (v : Watch) (stage : StageName) (reason : String) (hfenced : v.fenced = true) :
      Move failure fence v { v with
        progress := v.progress.publishTerminal .fenced "pipeline" none reason
        stages := Function.update v.stages stage .ended }
  | trip (v : Watch) (stage : StageName) (detail : String) :
      Move failure fence v { v with
        outOfOrder := true
        progress := v.progress.publishTerminal .orderViolation "pipeline" none detail
        stages := Function.update v.stages stage .ended }
  | follow (v : Watch) (stage : StageName) (hended : v.Ended) :
      Move failure fence v { v with stages := Function.update v.stages stage .ended }
  | confirm (v : Watch) (hfenced : v.fenced = false) :
      Move failure fence v { v with atRecord := true }
  | announce (v : Watch) : Move failure fence v { v with atRecord := false }
  | land (v : Watch) (seq : Int) (hlater : ∀ s later, v.stages s = .rejected later → seq < later) :
      Move failure fence v { v with progress := v.progress.land seq }
  | close (v : Watch) (hended : v.Ended) : Move failure fence v { v with closed := true }
  | leave (v : Watch) : Move failure fence v { v with closed := false }
  | gone (v : Watch) (hclosed : v.closed = true) :
      Move failure fence v { v with progress := v.progress.pipelineGone.2, closed := false }

end Watch

namespace Pipeline

variable {β : Type}

/-- How the stage tasks stand. -/
def statuses (pipe : Pipeline β) : StageName → StageStatus
  | .render => pipe.render.status Sealed.fileMeta
  | .gzip => pipe.gzip.status Rendered.fileMeta
  | .put => pipe.put.status Compressed.fileMeta

/-- The file in the hands of a stage, as long as its put has not returned. -/
def inHand (pipe : Pipeline β) : StageName → List FileMeta
  | .render => pipe.render.inHand Sealed.fileMeta RenderPhase.files
  | .gzip => pipe.gzip.inHand Rendered.fileMeta fun out ↦ [out.fileMeta]
  | .put => pipe.put.inHand Compressed.fileMeta PutPhase.files

/-- A rejected file is in the hands of its stage. -/
theorem mem_inHand_of_rejected {pipe : Pipeline β} {stage : StageName} {seq : Int}
    (hrejected : pipe.statuses stage = .rejected seq) :
    ∃ m ∈ pipe.inHand stage, m.serialSeq = seq := by
  have hstage {ι φ : Type} {metaOf : ι → FileMeta} {phaseMeta : φ → List FileMeta}
      {task : Stage ι φ} (hstatus : task.status metaOf = .rejected seq) :
      ∃ m ∈ task.inHand metaOf phaseMeta, m.serialSeq = seq := by
    cases task with
    | rejected file err =>
      exact ⟨metaOf file, List.mem_singleton_self _, StageStatus.rejected.inj hstatus⟩
    | receiving | attempt | running | between | exited => simp [Stage.status] at hstatus
  cases stage <;> exact hstage hrejected

end Pipeline

namespace Writer

variable {β : Type} {cfg : WriterConfig β} {w w' : Writer β}

/-- The watch of a writer. -/
def watch (w : Writer β) : Watch where
  progress := w.progress
  fenced := w.health.fenced.isSome
  outOfOrder := w.health.orderFatal.isSome
  inViolation := w.health.serialFatal.isSome
  stages := w.pipe.statuses
  closed := w.lock.any fun holding ↦ holding.phase matches .closed | .gone
  atRecord := (PutPlace.of w.pipe.put).atRecord

/-- The file and the error of an attempt that fails in a step. -/
def failure (cfg : WriterConfig β) (w : Writer β) : Action β → Option (Int × Error)
  | .renderEnds joinError =>
    match w.pipe.render with
    | .running file _ =>
      match joined joinError "render" (cfg.render file.batches) with
      | .error err => some (file.fileMeta.serialSeq, err)
      | .ok _ => none
    | _ => none
  | .gzipEnds joinError =>
    match w.pipe.gzip with
    | .running file _ =>
      match joined joinError "gzip" (cfg.gzip file.body) with
      | .error err => some (file.fileMeta.serialSeq, err)
      | .ok _ => none
    | _ => none
  | .putEnds trial =>
    match w.pipe.put with
    | .running file _ =>
      match trial.result with
      | .error err => some (file.fileMeta.serialSeq, err)
      | .ok () => none
    | _ => none
  | _ => none

/-- A step is a fence. -/
def isFence : Action β → Bool
  | .fence _ => true
  | _ => false

/-! ### The files in the stages are in the order they were sealed -/

/-- The files whose put has not returned are in order, and behind the one that lands. -/
structure LineOrdered (w : Writer β) : Prop where
  serial : ∀ m ∈ w.pipe.line, 0 ≤ m.serialSeq ∧ m.serialSeq ≤ i64Max
  ordered : w.pipe.line.Pairwise fun first second ↦ first.serialSeq < second.serialSeq
  landing : ∀ m, w.pipe.put = .between (.landing m) → ∀ later ∈ w.pipe.line,
    m.serialSeq < later.serialSeq

theorem ReachableFrom.lineOrdered {epochMs : Nat} {stagedOffset resumePersisted : Option Int}
    (hreach : ReachableFrom cfg epochMs stagedOffset resumePersisted w) : w.LineOrdered := by
  obtain ⟨-, hnamed⟩ := hreach.rows
  have hfiles := hreach.files
  have hsplit : w.trace.cuts.map Cut.fileMeta = w.trace.putReturned ++ w.pipe.line ++ w.handover :=
    hfiles.conserved
  have hincreasing : (w.trace.cuts.map Cut.fileMeta).Pairwise fun a b ↦ a.serialSeq < b.serialSeq :=
    List.pairwise_map.mpr hnamed.increasing
  rw [hsplit, List.pairwise_append, List.pairwise_append] at hincreasing
  refine ⟨fun m hm ↦ ?_, hincreasing.1.2.1, fun m hput later hlater ↦ ?_⟩
  · have hmember : m ∈ w.trace.cuts.map Cut.fileMeta := by
      rw [hsplit]
      exact List.mem_append_left _ (List.mem_append_right _ hm)
    obtain ⟨cut, hcut, rfl⟩ := List.mem_map.mp hmember
    have hwell := hnamed.wellFormed cut hcut
    have hencodes := hwell.encodes
    have hepochs := maxEpochMs_eq
    have hseqs := maxSeq_eq
    rw [hwell.serialSeq, StagedFile.packed]
    simp only [i64Max]
    omega
  · have hplace : w.files.place = .landing m := by simp [Writer.files, hput, PutPlace.of]
    have hvalid := hfiles.place
    simp only [Files.PlaceValid, hplace] at hvalid
    have hlanded : m ∈ w.trace.putReturned := by
      have hrecorded : w.trace.recorded = w.trace.putReturned := hvalid.1
      exact hrecorded ▸ hvalid.2.1
    exact hincreasing.1.2.2 m hlanded later hlater

theorem mem_line_of_inHand {stage : StageName} {m : FileMeta} (hm : m ∈ w.pipe.inHand stage) :
    m ∈ w.pipe.line := by
  simp only [Pipeline.line, List.mem_append]
  cases stage with
  | put => exact Or.inl (Or.inl (Or.inl (Or.inl (Or.inl hm))))
  | gzip => exact Or.inl (Or.inl (Or.inl (Or.inr hm)))
  | render => exact Or.inl (Or.inr hm)

section Line

variable (h : w.LineOrdered)
include h

/-- A file in the hands of a stage comes before those of the stages behind it. -/
theorem LineOrdered.inHand :
    (∀ m ∈ w.pipe.inHand .put, ∀ later ∈ w.pipe.inHand .gzip, m.serialSeq < later.serialSeq) ∧
      (∀ m ∈ w.pipe.inHand .put, ∀ later ∈ w.pipe.inHand .render, m.serialSeq < later.serialSeq) ∧
      ∀ m ∈ w.pipe.inHand .gzip, ∀ later ∈ w.pipe.inHand .render,
        m.serialSeq < later.serialSeq := by
  have hordered := h.ordered
  simp only [Pipeline.line, List.pairwise_append, List.mem_append] at hordered
  obtain ⟨⟨⟨⟨⟨-, -, -⟩, -, hgzip⟩, -, -⟩, -, hrender⟩, -, -⟩ := hordered
  exact ⟨fun m hm later hlater ↦ hgzip m (Or.inl hm) later hlater,
    fun m hm later hlater ↦ hrender m (Or.inl (Or.inl (Or.inl hm))) later hlater,
    fun m hm later hlater ↦ hrender m (Or.inl (Or.inr hm)) later hlater⟩

/-- No two stages have files of one serial seq in hand. -/
theorem LineOrdered.serialSeq_ne {stage other : StageName} {m n : FileMeta} (hother : other ≠ stage)
    (hm : m ∈ w.pipe.inHand stage) (hn : n ∈ w.pipe.inHand other) : n.serialSeq ≠ m.serialSeq := by
  intro hseq
  obtain ⟨hputGzip, hputRender, hgzipRender⟩ := h.inHand
  cases other <;> cases stage
  case render.render | gzip.gzip | put.put => exact hother rfl
  case render.gzip => have := hgzipRender m hm n hn; omega
  case render.put => have := hputRender m hm n hn; omega
  case gzip.render => have := hgzipRender n hn m hm; omega
  case gzip.put => have := hputGzip m hm n hn; omega
  case put.render => have := hputRender n hn m hm; omega
  case put.gzip => have := hputGzip n hn m hm; omega

/-- A file that a working stage has in hand is not one that another stage rejected. -/
theorem LineOrdered.not_rejected {stage : StageName} {m : FileMeta}
    (hworking : w.pipe.statuses stage = .working) (hm : m ∈ w.pipe.inHand stage) (s : StageName) :
    w.pipe.statuses s ≠ .rejected m.serialSeq := by
  intro hrejected
  obtain ⟨other, hother, hseq⟩ := Pipeline.mem_inHand_of_rejected hrejected
  by_cases hs : s = stage
  · rw [hs, hworking] at hrejected
    exact StageStatus.noConfusion hrejected
  · exact h.serialSeq_ne hs hm hother hseq

end Line

/-! ### The writer makes moves of the watch -/

section Moves

variable {failure : Option (Int × Error)} {fence : Bool}

theorem SamePipeline.watch (h : SamePipeline w w') (hlock : w'.lock = w.lock) :
    w'.watch = w.watch := by
  simp only [Writer.watch, h.pipe, h.progress, h.health, hlock]

theorem watch_quiet (hsame : w'.watch = w.watch) :
    ReflGen (Watch.Move failure fence) w.watch w'.watch :=
  hsame ▸ .refl

/-- The watch once the holder of the seal lock does not find the channel closed. -/
theorem watch_eq_leave (hpipe : w'.pipe.statuses = w.pipe.statuses)
    (hput : w'.pipe.put = w.pipe.put) (hhealth : w'.health = w.health)
    (hopen : w'.watch.closed = false) :
    w'.watch = { w.watch with progress := w'.progress, closed := false } := by
  ext1
  · rfl
  · exact congrArg (Option.isSome ∘ Health.fenced) hhealth
  · exact congrArg (Option.isSome ∘ Health.orderFatal) hhealth
  · exact congrArg (Option.isSome ∘ Health.serialFatal) hhealth
  · exact hpipe
  · exact hopen
  · exact congrArg (PutPlace.atRecord ∘ PutPlace.of) hput

theorem watch_leave (hpipe : w'.pipe.statuses = w.pipe.statuses)
    (hput : w'.pipe.put = w.pipe.put) (hprogress : w'.progress = w.progress)
    (hhealth : w'.health = w.health) (hopen : w'.watch.closed = false) :
    ReflGen (Watch.Move failure fence) w.watch w'.watch := by
  rw [watch_eq_leave hpipe hput hhealth hopen, hprogress]
  exact .single (.leave w.watch)

theorem SamePipeline.leave (h : SamePipeline w w') (hopen : w'.watch.closed = false) :
    ReflGen (Watch.Move failure fence) w.watch w'.watch :=
  watch_leave (congrArg Pipeline.statuses h.pipe) (congrArg Pipeline.put h.pipe) h.progress h.health
    hopen

theorem closed_finish (holder : Sealer) (result : Except Error (Option Int)) :
    (w.finish holder result).watch.closed = false := by
  simp [Writer.watch, finish]

theorem watch_locker {action : Action β} (hstep : w.step cfg action = some w')
    (hlocker : action matches .tryLock _ _ | .acquire _ | .stall _) :
    ReflGen (Watch.Move failure fence) w.watch w'.watch := by
  have hframe := locker_frame hstep hlocker
  cases sealer_cases hstep hlocker with
  | skip | giveUp => exact watch_quiet (hframe.watch (lock_sealReturns _ _))
  | park => exact watch_quiet (hframe.watch (lock_setWait _ _))
  | take sealer =>
    refine hframe.leave ?_
    by_cases hticker : sealer = .ticker <;> simp [Writer.watch, grant, hticker]
  | letGo => exact hframe.leave (closed_finish _ _)

theorem watch_cut (holder : Sealer) (now : Nat) :
    ReflGen (Watch.Move failure fence) w.watch (w.cut cfg holder now).watch := by
  have hfinish (st : WriterState β) (result : Except Error (Option Int)) :
      ReflGen (Watch.Move failure fence) w.watch
        (({ w with st := st } : Writer β).finish holder result).watch := by
    have h := SamePipeline.finish (w := { w with st := st }) holder result
    exact watch_leave (congrArg Pipeline.statuses h.pipe) (congrArg Pipeline.put h.pipe) h.progress
      h.health (closed_finish _ _)
  unfold cut
  split
  · exact hfinish _ _
  · exact hfinish _ _
  · exact watch_leave rfl rfl rfl rfl (by simp [Writer.watch, setPhase])

theorem status_of_hasExited {ι φ : Type} {metaOf : ι → FileMeta} {task : Stage ι φ}
    (hexited : task.hasExited) : task.status metaOf = .ended := by
  cases task with
  | exited => rfl
  | receiving | attempt | running | rejected | between => simp [Stage.hasExited] at hexited

theorem ended_of_render (hexited : w.pipe.render.hasExited) : w.watch.Ended :=
  ⟨.render, status_of_hasExited hexited⟩

theorem ended_of_gzip (hexited : w.pipe.gzip.hasExited) : w.watch.Ended :=
  ⟨.gzip, status_of_hasExited hexited⟩

theorem ended_of_put (hexited : w.pipe.put.hasExited) : w.watch.Ended :=
  ⟨.put, status_of_hasExited hexited⟩

theorem watch_handOver {now : Nat} (hstep : w.handOver cfg now = some w') :
    ReflGen (Watch.Move failure fence) w.watch w'.watch := by
  have hopen (holder : Sealer) (phase : SealPhase β)
      (hphase : (phase matches .closed | .gone) = false) :
      ReflGen (Watch.Move failure fence) w.watch (w.setPhase holder phase).watch :=
    (SamePipeline.setPhase holder phase).leave (by simp [Writer.watch, setPhase, hphase])
  cases holder_cases hstep with
  | reserve | await | proceed => exact hopen _ _ rfl
  | permit holder phase next hlock hphase hnext =>
    rcases hnext with rfl | rfl <;> exact hopen _ _ rfl
  | skip | yield | fail => exact (SamePipeline.finish _ _).leave (closed_finish _ _)
  | close holder phase hlock hphase hrender =>
    exact .single (.close w.watch (ended_of_render hrender))
  | lose holder hlock =>
    refine watch_quiet ?_
    simp only [Writer.watch, setPhase, hlock, Option.any_some]
  | report holder hlock =>
    have h := SamePipeline.finish (w := { w with progress := w.progress.pipelineGone.2 }) holder
      (.error w.progress.pipelineGone.1)
    rw [watch_eq_leave (w := w) (congrArg Pipeline.statuses h.pipe) (congrArg Pipeline.put h.pipe)
      h.health (closed_finish _ _), h.progress]
    exact .single (.gone w.watch (by simp [Writer.watch, hlock]))
  | cut holder => exact watch_cut holder now
  | send holder sealed =>
    have h := SamePipeline.finish (w := { w with
      pipe := { w.pipe with queue := w.pipe.queue ++ [sealed] }
      trace := { w.trace with sent := w.trace.sent ++ [sealed.fileMeta] } }) holder
      (.ok (some sealed.fileMeta.serialSeq))
    exact watch_leave ((congrArg Pipeline.statuses h.pipe).trans rfl)
      ((congrArg Pipeline.put h.pipe).trans rfl) h.progress h.health (closed_finish _ _)

/-! #### The stages -/

section Others

theorem others_render (hgzip : w'.pipe.gzip = w.pipe.gzip) (hput : w'.pipe.put = w.pipe.put) :
    ∀ s, s ≠ .render → w'.pipe.statuses s = w.pipe.statuses s := by
  intro s hs
  cases s with
  | render => exact absurd rfl hs
  | gzip => simp only [Pipeline.statuses, hgzip]
  | put => simp only [Pipeline.statuses, hput]

theorem others_gzip (hrender : w'.pipe.render = w.pipe.render) (hput : w'.pipe.put = w.pipe.put) :
    ∀ s, s ≠ .gzip → w'.pipe.statuses s = w.pipe.statuses s := by
  intro s hs
  cases s with
  | render => simp only [Pipeline.statuses, hrender]
  | gzip => exact absurd rfl hs
  | put => simp only [Pipeline.statuses, hput]

theorem others_put (hrender : w'.pipe.render = w.pipe.render) (hgzip : w'.pipe.gzip = w.pipe.gzip) :
    ∀ s, s ≠ .put → w'.pipe.statuses s = w.pipe.statuses s := by
  intro s hs
  cases s with
  | render => simp only [Pipeline.statuses, hrender]
  | gzip => simp only [Pipeline.statuses, hgzip]
  | put => exact absurd rfl hs

end Others

/-- The watch after a step of one stage task. -/
theorem watch_eq_stage (stage : StageName) (hlock : w'.lock = w.lock)
    (hhealth : w'.health = w.health)
    (hothers : ∀ s, s ≠ stage → w'.pipe.statuses s = w.pipe.statuses s)
    (hrecord : (PutPlace.of w'.pipe.put).atRecord = (PutPlace.of w.pipe.put).atRecord) :
    w'.watch = { w.watch with
      progress := w'.progress
      stages := Function.update w.watch.stages stage (w'.pipe.statuses stage) } := by
  ext1
  · rfl
  · exact congrArg (Option.isSome ∘ Health.fenced) hhealth
  · exact congrArg (Option.isSome ∘ Health.orderFatal) hhealth
  · exact congrArg (Option.isSome ∘ Health.serialFatal) hhealth
  · funext s
    by_cases hs : s = stage
    · subst hs
      simp [Writer.watch]
    · simp [Writer.watch, hs, hothers s hs]
  · simp only [Writer.watch, hlock]
  · exact hrecord

theorem watch_stage_move (stage : StageName) (hlock : w'.lock = w.lock)
    (hhealth : w'.health = w.health)
    (hothers : ∀ s, s ≠ stage → w'.pipe.statuses s = w.pipe.statuses s)
    (hrecord : (PutPlace.of w'.pipe.put).atRecord = (PutPlace.of w.pipe.put).atRecord)
    (hmove : Watch.Move failure fence w.watch { w.watch with
      progress := w'.progress
      stages := Function.update w.watch.stages stage (w'.pipe.statuses stage) }) :
    ReflGen (Watch.Move failure fence) w.watch w'.watch := by
  rw [watch_eq_stage stage hlock hhealth hothers hrecord]
  exact .single hmove

/-- The watch after a step of a stage task that stands as before. -/
theorem watch_eq_progress (stage : StageName) (hlock : w'.lock = w.lock)
    (hhealth : w'.health = w.health)
    (hothers : ∀ s, s ≠ stage → w'.pipe.statuses s = w.pipe.statuses s)
    (hrecord : (PutPlace.of w'.pipe.put).atRecord = (PutPlace.of w.pipe.put).atRecord)
    (hsame : w'.pipe.statuses stage = w.pipe.statuses stage) :
    w'.watch = { w.watch with progress := w'.progress } := by
  rw [watch_eq_stage stage hlock hhealth hothers hrecord, hsame]
  exact congrArg (fun stages ↦ { w.watch with progress := w'.progress, stages := stages })
    (Function.update_eq_self stage w.watch.stages)

theorem watch_stage_quiet (stage : StageName) (hlock : w'.lock = w.lock)
    (hhealth : w'.health = w.health) (hprogress : w'.progress = w.progress)
    (hothers : ∀ s, s ≠ stage → w'.pipe.statuses s = w.pipe.statuses s)
    (hrecord : (PutPlace.of w'.pipe.put).atRecord = (PutPlace.of w.pipe.put).atRecord)
    (hsame : w'.pipe.statuses stage = w.pipe.statuses stage) :
    ReflGen (Watch.Move failure fence) w.watch w'.watch := by
  refine watch_quiet ?_
  rw [watch_eq_progress stage hlock hhealth hothers hrecord hsame, hprogress]
  rfl

/-- A file gets past its stage. -/
theorem watch_passed (stage : StageName) {failures : Nat} {m : FileMeta} (hline : w.LineOrdered)
    (hworking : w.pipe.statuses stage = .working) (hm : m ∈ w.pipe.inHand stage)
    (hlock : w'.lock = w.lock) (hhealth : w'.health = w.health)
    (hprogress : w'.progress = w.passed failures m)
    (hothers : ∀ s, s ≠ stage → w'.pipe.statuses s = w.pipe.statuses s)
    (hrecord : (PutPlace.of w'.pipe.put).atRecord = (PutPlace.of w.pipe.put).atRecord)
    (hsame : w'.pipe.statuses stage = w.pipe.statuses stage) :
    ReflGen (Watch.Move failure fence) w.watch w'.watch := by
  rw [watch_eq_progress stage hlock hhealth hothers hrecord hsame, hprogress, passed]
  split_ifs
  · exact .single (.pass w.watch m.serialSeq (hline.serial m (mem_line_of_inHand hm)).1
      (hline.not_rejected hworking hm))
  · exact .refl

theorem status_failed {ι φ : Type} (metaOf : ι → FileMeta) (file : ι) (failures : Nat)
    (err : Error) : (Stage.failed (φ := φ) file failures err).status metaOf =
      if err.isPermanent then .rejected (metaOf file).serialSeq else .working := by
  unfold Stage.failed
  split_ifs <;> rfl

/-- An attempt of a stage at a file fails. -/
theorem watch_failed (stage : StageName) {attempt : Nat} {m : FileMeta} {err : Error}
    (hline : w.LineOrdered) (hfailure : failure = some (m.serialSeq, err))
    (hworking : w.pipe.statuses stage = .working) (hm : m ∈ w.pipe.inHand stage)
    (hlock : w'.lock = w.lock) (hhealth : w'.health = w.health)
    (hprogress : w'.progress =
      w.progress.reportFailure m.serialSeq stage.label attempt err.isPermanent err)
    (hothers : ∀ s, s ≠ stage → w'.pipe.statuses s = w.pipe.statuses s)
    (hrecord : (PutPlace.of w'.pipe.put).atRecord = (PutPlace.of w.pipe.put).atRecord)
    (hstatus : w'.pipe.statuses stage =
      if err.isPermanent then .rejected m.serialSeq else .working) :
    ReflGen (Watch.Move failure fence) w.watch w'.watch := by
  have hfail : Watch.Move failure fence w.watch _ :=
    .fail w.watch stage attempt m.serialSeq err hfailure
      (hline.serial m (mem_line_of_inHand hm)) hworking
  refine .single ?_
  by_cases hpermanent : err.isPermanent = true
  · rw [if_pos hpermanent] at hstatus hfail
    rw [watch_eq_stage stage hlock hhealth hothers hrecord, hprogress, hstatus]
    exact hfail
  · rw [if_neg hpermanent] at hstatus hfail
    rw [watch_eq_progress stage hlock hhealth hothers hrecord (hstatus.trans hworking.symm),
      hprogress]
    exact hfail

/-- A stage that finds the writer fenced publishes it and ends. -/
theorem watch_dropped (stage : StageName) {progress : Progress}
    (hfenced : w.fencedExit = some progress) (hlock : w'.lock = w.lock)
    (hhealth : w'.health = w.health) (hprogress : w'.progress = progress)
    (hothers : ∀ s, s ≠ stage → w'.pipe.statuses s = w.pipe.statuses s)
    (hrecord : (PutPlace.of w'.pipe.put).atRecord = (PutPlace.of w.pipe.put).atRecord)
    (hended : w'.pipe.statuses stage = .ended) :
    ReflGen (Watch.Move failure fence) w.watch w'.watch := by
  obtain ⟨reason, hreason, rfl⟩ := Option.map_eq_some_iff.mp hfenced
  refine watch_stage_move stage hlock hhealth hothers hrecord ?_
  rw [hprogress, hended]
  exact .drop w.watch stage reason (by simp [Writer.watch, hreason])

section Working

variable {failures : Nat}

theorem render_working {file : Sealed β} (hrender : w.pipe.render = .running file failures) :
    w.pipe.statuses .render = .working ∧ file.fileMeta ∈ w.pipe.inHand .render := by
  simp [Pipeline.statuses, Stage.status, Pipeline.inHand, Stage.inHand, hrender]

theorem gzip_working {file : Rendered} (hgzip : w.pipe.gzip = .running file failures) :
    w.pipe.statuses .gzip = .working ∧ file.fileMeta ∈ w.pipe.inHand .gzip := by
  simp [Pipeline.statuses, Stage.status, Pipeline.inHand, Stage.inHand, hgzip]

theorem put_working {file : Compressed} (hput : w.pipe.put = .running file failures) :
    w.pipe.statuses .put = .working ∧ file.fileMeta ∈ w.pipe.inHand .put := by
  simp [Pipeline.statuses, Stage.status, Pipeline.inHand, Stage.inHand, hput]

end Working

theorem watch_render {action : Action β} (hline : w.LineOrdered)
    (hmove : RenderStep cfg w action w') :
    ReflGen (Watch.Move (w.failure cfg action) fence) w.watch w'.watch := by
  cases hmove with
  | take file rest hrender =>
    refine watch_stage_quiet .render rfl rfl rfl (others_render rfl rfl) rfl ?_
    simp [Pipeline.statuses, Stage.status, hrender]
  | drop file failures progress hrender hfenced =>
    exact watch_dropped .render hfenced rfl rfl rfl (others_render rfl rfl) rfl rfl
  | run file failures hrender =>
    refine watch_stage_quiet .render rfl rfl rfl (others_render rfl rfl) rfl ?_
    simp [setRender, Pipeline.statuses, Stage.status, hrender]
  | pass joinError file failures out hrender =>
    obtain ⟨hworking, hm⟩ := render_working hrender
    exact watch_passed .render hline hworking hm rfl rfl rfl (others_render rfl rfl) rfl
      hworking.symm
  | fail joinError file failures err hrender hresult =>
    obtain ⟨hworking, hm⟩ := render_working hrender
    exact watch_failed .render hline (by simp [failure, hrender, hresult]) hworking hm rfl rfl rfl
      (others_render rfl rfl) rfl (status_failed _ _ _ _)
  | giveUp file err hrender =>
    exact watch_stage_move .render rfl rfl (others_render rfl rfl) rfl
      (.giveUp w.watch .render file.fileMeta.serialSeq _ _
        (by simp [Writer.watch, Pipeline.statuses, Stage.status, hrender]))
  | calibrate out hrender =>
    refine watch_stage_quiet .render rfl rfl rfl (others_render rfl rfl) rfl ?_
    simp [setRender, Pipeline.statuses, Stage.status, hrender]
  | lose out hrender hgzip =>
    exact watch_stage_move .render rfl rfl (others_render rfl rfl) rfl
      (.follow w.watch .render (ended_of_gzip hgzip))
  | send out hrender =>
    refine watch_stage_quiet .render rfl rfl rfl (others_render rfl rfl) rfl ?_
    simp [Pipeline.statuses, Stage.status, hrender]

theorem watch_gzip {action : Action β} (hline : w.LineOrdered)
    (hmove : GzipStep cfg w action w') :
    ReflGen (Watch.Move (w.failure cfg action) fence) w.watch w'.watch := by
  cases hmove with
  | take file rest hgzip | skip file rest hgzip =>
    refine watch_stage_quiet .gzip rfl rfl rfl (others_gzip rfl rfl) rfl ?_
    simp [Pipeline.statuses, Stage.status, hgzip]
  | close hgzip hqueue hrender =>
    exact watch_stage_move .gzip rfl rfl (others_gzip rfl rfl) rfl
      (.follow w.watch .gzip (ended_of_render hrender))
  | drop file failures progress hgzip hfenced =>
    exact watch_dropped .gzip hfenced rfl rfl rfl (others_gzip rfl rfl) rfl rfl
  | run file failures hgzip =>
    refine watch_stage_quiet .gzip rfl rfl rfl (others_gzip rfl rfl) rfl ?_
    simp [setGzip, Pipeline.statuses, Stage.status, hgzip]
  | pass joinError file failures payload hgzip =>
    obtain ⟨hworking, hm⟩ := gzip_working hgzip
    exact watch_passed .gzip hline hworking hm rfl rfl rfl (others_gzip rfl rfl) rfl hworking.symm
  | fail joinError file failures err hgzip hresult =>
    obtain ⟨hworking, hm⟩ := gzip_working hgzip
    exact watch_failed .gzip hline (by simp [failure, hgzip, hresult]) hworking hm rfl rfl rfl
      (others_gzip rfl rfl) rfl (status_failed _ _ _ _)
  | giveUp file err hgzip =>
    exact watch_stage_move .gzip rfl rfl (others_gzip rfl rfl) rfl
      (.giveUp w.watch .gzip file.fileMeta.serialSeq _ _
        (by simp [Writer.watch, Pipeline.statuses, Stage.status, hgzip]))
  | lose out hgzip hput =>
    exact watch_stage_move .gzip rfl rfl (others_gzip rfl rfl) rfl
      (.follow w.watch .gzip (ended_of_put hput))
  | send out hgzip =>
    refine watch_stage_quiet .gzip rfl rfl rfl (others_gzip rfl rfl) rfl ?_
    simp [Pipeline.statuses, Stage.status, hgzip]

theorem watch_put {action : Action β} (hline : w.LineOrdered) (hmove : PutStep cfg w action w') :
    ReflGen (Watch.Move (w.failure cfg action) fence) w.watch w'.watch := by
  cases hmove with
  | take file rest hput =>
    refine watch_stage_quiet .put rfl rfl rfl (others_put rfl rfl) ?_ ?_
    · simp [PutPlace.of, PutPlace.atRecord, hput]
    · simp [Pipeline.statuses, Stage.status, hput]
  | close hput hqueue hgzip =>
    exact watch_stage_move .put rfl rfl (others_put rfl rfl)
      (by simp [setPut, PutPlace.of, PutPlace.atRecord, hput])
      (.follow w.watch .put (ended_of_gzip hgzip))
  | dropUnordered file progress hput hfenced | drop file failures progress hput hfenced
  | dropReturned m progress hput hfenced =>
    exact watch_dropped .put hfenced rfl rfl rfl (others_put rfl rfl)
      (by simp [setPut, PutPlace.of, PutPlace.atRecord, hput]) rfl
  | order file hput | run file failures hput | record m hput =>
    refine watch_stage_quiet .put rfl rfl rfl (others_put rfl rfl) ?_ ?_
    · simp [setPut, PutPlace.of, PutPlace.atRecord, hput]
    · simp [setPut, Pipeline.statuses, Stage.status, hput]
  | trip file detail hput =>
    have htrip : Watch.Move (w.failure cfg .order) fence w.watch _ := .trip w.watch .put detail
    refine .single ?_
    convert htrip using 1
    ext1
    · rfl
    · rfl
    · simp [Writer.watch, setPut]
    · rfl
    · funext s
      cases s <;> simp [Writer.watch, Pipeline.statuses, setPut, Stage.status]
    · rfl
    · simp [Writer.watch, setPut, PutPlace.of, PutPlace.atRecord, hput]
  | pass trial file failures hput =>
    obtain ⟨hworking, hm⟩ := put_working hput
    exact watch_passed .put hline hworking hm rfl rfl rfl (others_put rfl rfl)
      (by simp [setPut, PutPlace.of, PutPlace.atRecord, hput]) hworking.symm
  | fail trial file failures err hput hresult =>
    obtain ⟨hworking, hm⟩ := put_working hput
    refine watch_failed .put hline (by simp [failure, hput, hresult]) hworking hm rfl rfl rfl
      (others_put rfl rfl) ?_ (status_failed _ _ _ _)
    rw [hput, setPut, Stage.failed]
    split <;> rfl
  | giveUp file err hput =>
    exact watch_stage_move .put rfl rfl (others_put rfl rfl)
      (by simp [setPut, PutPlace.of, PutPlace.atRecord, hput])
      (.giveUp w.watch .put file.fileMeta.serialSeq _ _
        (by simp [Writer.watch, Pipeline.statuses, Stage.status, hput]))
  | confirm m hput hfenced =>
    have hconfirm : Watch.Move (w.failure cfg .confirm) fence w.watch _ :=
      .confirm w.watch (by simpa [fencedExit, Writer.watch] using hfenced)
    refine .single ?_
    convert hconfirm using 1
    ext s
    all_goals try rfl
    cases s <;> simp [Writer.watch, Pipeline.statuses, setPut, Stage.status, hput]
  | announce m hput =>
    have hannounce : Watch.Move (w.failure cfg .announce) fence w.watch _ := .announce w.watch
    refine .single ?_
    convert hannounce using 1
    ext s
    all_goals try rfl
    cases s <;> simp [Writer.watch, Pipeline.statuses, setPut, Stage.status, hput]
  | land m hput =>
    have hland : Watch.Move (w.failure cfg .land) fence w.watch _ :=
      .land w.watch m.serialSeq fun s later hrejected ↦ by
        obtain ⟨file, hfile, rfl⟩ := Pipeline.mem_inHand_of_rejected hrejected
        exact hline.landing m hput file (mem_line_of_inHand hfile)
    refine .single ?_
    convert hland using 1
    refine watch_eq_progress .put rfl rfl (others_put rfl rfl) ?_ ?_
    · simp [PutPlace.of, PutPlace.atRecord, hput]
    · simp [Pipeline.statuses, Stage.status, hput]

/-- A step makes one move of the watch, or none. -/
theorem watch_step {action : Action β} (hline : w.LineOrdered)
    (hstep : w.step cfg action = some w') :
    ReflGen (Watch.Move (w.failure cfg action) (isFence action)) w.watch w'.watch := by
  cases action with
  | appendCall | appendPush | appendUnbuffer | flushCall | flushLookup | flushAwait | flushRead
  | tick | tickerCheck | persistBegin | persistRecheck | persistWrite =>
    obtain ⟨hsame, hlock⟩ := caller_frame hstep rfl
    exact watch_quiet (hsame.watch hlock)
  | tryLock | acquire | stall => exact watch_locker hstep rfl
  | handOver => exact watch_handOver hstep
  | receive | attempt | renderEnds | gzipEnds | putEnds | giveUp | calibrate | send | order
  | confirm | record | announce | land =>
    rcases stage_cases hstep rfl with hmove | hmove | hmove
    · exact watch_render hline hmove
    · exact watch_gzip hline hmove
    · exact watch_put hline hmove
  | notifierStops => exact watch_quiet (Option.some.inj hstep ▸ rfl)
  | fence reason =>
    obtain rfl := Option.some.inj hstep
    have hfence : Watch.Move (w.failure cfg (.fence reason)) (isFence (.fence reason : Action β))
        w.watch _ := .fence w.watch rfl
    refine .single ?_
    convert hfence using 1
    simp [Writer.watch]
  | serialViolation message =>
    obtain rfl := Option.some.inj hstep
    have hviolate : Watch.Move (w.failure cfg (.serialViolation message))
        (isFence (.serialViolation message : Action β)) w.watch _ := .violate w.watch
    refine .single ?_
    convert hviolate using 1
    simp [Writer.watch]

end Moves

/-- A property of the watch that every permitted move preserves holds in every reachable state. -/
theorem watch_invariant {allowed : Writer β → Action β → Prop} (property : Watch → Prop)
    {epochMs : Nat} {stagedOffset resumePersisted : Option Int}
    (hstart : property (new epochMs stagedOffset resumePersisted : Writer β).watch)
    (hpreserved : ∀ (w : Writer β) action v, property w.watch → allowed w action →
      Watch.Move (w.failure cfg action) (isFence action) w.watch v → property v)
    (hreach : ReachableUnder (step cfg) allowed (new epochMs stagedOffset resumePersisted) w) :
    property w.watch := by
  refine hreach.strengthened (fun w ↦ property w.watch) hstart ?_
  intro before action after hbefore hproperty hallowed hstep
  have hrun : ReachableFrom cfg epochMs stagedOffset resumePersisted before := hbefore.reachable
  rcases (reflGen_iff ..).mp (watch_step hrun.lineOrdered hstep) with hsame | hmove
  · exact hsame ▸ hproperty
  · exact hpreserved before action _ hproperty hallowed hmove

end Writer

end RelytIngest
