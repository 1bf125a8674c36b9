import RelytIngest.Writer.Watch

/-!
# The failing slot names the file that is stuck

The three stage tasks share one failing slot. `Attempt` is an attempt of a stage at a file that has
ended, and a run of `attemptStep` keeps the attempts so far, newest first, beside the writer:
`consecutiveFailures` and `latestAttempt` read off them how often a stage has failed on a file since
it last got past one, and what was last heard of a file. The writer itself never reads them.

`Retries` is a writer seen through its retry loops, and `Retries.Move` what a step can do to it, by
the attempt that ends in the step. `Retries.Faithful` is the invariant: the attempt counters of the
stages are the consecutive failures, and an entry that is not terminal names the file of a stage
that is still at it (`Retries.Names`).

`failing_slot_faithful` is the statement about every run: the entry is current, a file that got past
its stage is not named until it fails again, and the oldest file that is not durable takes the slot
when it fails and keeps it against all others.
-/

set_option autoImplicit false
set_option relaxedAutoImplicit false

namespace RelytIngest

open Foundations

/-- An attempt of a stage at a file that has ended. -/
structure Attempt where
  stage : StageName
  /-- serial_seq of the file. -/
  seq : Int
  ok : Bool
  deriving DecidableEq, Repr

/-- How often a stage has failed on a file in a row, by the attempts so far, newest first. -/
def consecutiveFailures (stage : StageName) (seq : Int) : List Attempt → Nat
  | [] => 0
  | last :: earlier =>
    if last.stage = stage then
      if last.seq = seq ∧ last.ok = false then consecutiveFailures stage seq earlier + 1 else 0
    else consecutiveFailures stage seq earlier

/-- The last attempt of any stage at a file. -/
def latestAttempt (seq : Int) (attempts : List Attempt) : Option Attempt :=
  attempts.find? fun attempt ↦ decide (attempt.seq = seq)

section Attempts

variable {stage other : StageName} {seq : Int} {ok : Bool} {attempts : List Attempt}

theorem consecutiveFailures_fail :
    consecutiveFailures stage seq (⟨stage, seq, false⟩ :: attempts) =
      consecutiveFailures stage seq attempts + 1 := by
  simp [consecutiveFailures]

theorem consecutiveFailures_pass (file : Int) :
    consecutiveFailures stage file (⟨stage, seq, true⟩ :: attempts) = 0 := by
  simp [consecutiveFailures]

theorem consecutiveFailures_other (hother : other ≠ stage) (file : Int) :
    consecutiveFailures other file (⟨stage, seq, ok⟩ :: attempts) =
      consecutiveFailures other file attempts := by
  simp [consecutiveFailures, hother.symm]

theorem latestAttempt_same :
    latestAttempt seq (⟨stage, seq, ok⟩ :: attempts) = some ⟨stage, seq, ok⟩ := by
  simp [latestAttempt]

theorem latestAttempt_other {file : Int} (hother : file ≠ seq) :
    latestAttempt file (⟨stage, seq, ok⟩ :: attempts) = latestAttempt file attempts := by
  simp [latestAttempt, hother.symm]

end Attempts

/-! ### The retry loops -/

/-- What a stage task is at. -/
inductive StageTask
  /-- Waiting for a file, or through with its attempts at one. -/
  | idle
  /-- In the retry loop of a file, after so many failed attempts. -/
  | trying (seq : Int) (failures : Nat)
  | rejected (seq : Int)
  | ended
  deriving DecidableEq

namespace StageTask

/-- The file whose retry loop the task is in. -/
def file : StageTask → Option Int
  | trying seq _ | rejected seq => some seq
  | idle | ended => none

/-- The counter of the retry loop is the number of consecutive failures. -/
def Counted (failures : Int → Nat) : StageTask → Prop
  | idle => ∀ seq, failures seq = 0
  | trying seq count => failures seq = count
  | rejected _ | ended => True

end StageTask

/-- A stage is at what its state says. -/
def Stage.task {ι φ : Type} (metaOf : ι → FileMeta) : Stage ι φ → StageTask
  | .receiving | .between _ => .idle
  | .attempt file failures | .running file failures => .trying (metaOf file).serialSeq failures
  | .rejected file _ => .rejected (metaOf file).serialSeq
  | .exited _ => .ended

/-- What the stage tasks are at. -/
def Pipeline.tasks {β : Type} (pipe : Pipeline β) : StageName → StageTask
  | .render => pipe.render.task Sealed.fileMeta
  | .gzip => pipe.gzip.task Rendered.fileMeta
  | .put => pipe.put.task Compressed.fileMeta

/-- A writer seen through its retry loops. -/
@[ext]
structure Retries where
  progress : Progress
  tasks : StageName → StageTask

namespace Retries

/-- The moves of the retry loops, by the attempt that ends in the step. -/
inductive Move (v : Retries) : Option Attempt → Retries → Prop
  | still : Move v none v
  | receive (stage : StageName) (seq : Int) (hidle : v.tasks stage = .idle) :
      Move v none { v with tasks := Function.update v.tasks stage (.trying seq 0) }
  | fail (stage : StageName) (seq : Int) (failures : Nat) (err : Error)
      (htrying : v.tasks stage = .trying seq failures) :
      Move v (some ⟨stage, seq, false⟩) {
        progress := v.progress.reportFailure seq stage.label (failures + 1) err.isPermanent err
        tasks := Function.update v.tasks stage
          (if err.isPermanent then .rejected seq else .trying seq (failures + 1)) }
  | pass (stage : StageName) (seq : Int) (failures : Nat)
      (htrying : v.tasks stage = .trying seq failures)
      (hothers : ∀ s, s ≠ stage → (v.tasks s).file ≠ some seq) :
      Move v (some ⟨stage, seq, true⟩) {
        progress := if 0 < failures then v.progress.clearFailure seq else v.progress
        tasks := Function.update v.tasks stage .idle }
  | stop (stage : StageName) (progress : Progress) (hterminal : progress.terminal) :
      Move v none ⟨progress, Function.update v.tasks stage .ended⟩
  | follow (stage : StageName) (hidle : v.tasks stage = .idle) :
      Move v none { v with tasks := Function.update v.tasks stage .ended }
  | land (seq : Int) (hlater : ∀ s later, (v.tasks s).file = some later → seq < later) :
      Move v none { v with progress := v.progress.land seq }
  | gone : Move v none { v with progress := v.progress.pipelineGone.2 }

/-- An entry of the failing slot names the file of a stage that is still at it, with the failures in
a row of that stage on that file; nothing else was heard of the file since. -/
structure Names (v : Retries) (attempts : List Attempt) (f : Failing) (stage : StageName) :
    Prop where
  file : (v.tasks stage).file = some f.seq
  label : f.stage = stage.label
  count : f.attempts = consecutiveFailures stage f.seq attempts
  failed : 0 < f.attempts
  latest : latestAttempt f.seq attempts = some ⟨stage, f.seq, false⟩

/-- The counters count, and an entry that is not terminal names a file that is stuck. -/
structure Faithful (v : Retries) (attempts : List Attempt) : Prop where
  counted : ∀ stage, (v.tasks stage).Counted fun seq ↦ consecutiveFailures stage seq attempts
  slot : ∀ f, v.progress.failing = some f → f.kind.isTerminal = false →
    ∃ stage, v.Names attempts f stage

/-! ### Every move keeps the slot faithful -/

section Faithful

variable {v v' : Retries} {attempts : List Attempt}

/-- A move that leaves the stage of an entry and its attempts alone leaves the entry current. -/
theorem Names.move {f : Failing} {stage : StageName} {attempts' : List Attempt}
    (h : v.Names attempts f stage) (htask : v'.tasks stage = v.tasks stage)
    (hcount : consecutiveFailures stage f.seq attempts' = consecutiveFailures stage f.seq attempts)
    (hlatest : latestAttempt f.seq attempts' = latestAttempt f.seq attempts) :
    v'.Names attempts' f stage where
  file := htask ▸ h.file
  label := h.label
  count := h.count.trans hcount.symm
  failed := h.failed
  latest := hlatest.trans h.latest

/-- A stage that is not in a retry loop is not the stage of an entry. -/
theorem Names.stage_ne {f : Failing} {stage idle : StageName} (h : v.Names attempts f stage)
    (hidle : v.tasks idle = .idle) : stage ≠ idle := by
  rintro rfl
  simpa [hidle, StageTask.file] using h.file

theorem Faithful.counted_update (h : v.Faithful attempts) (stage : StageName) {task : StageTask}
    {attempts' : List Attempt}
    (hothers : ∀ s seq, s ≠ stage →
      consecutiveFailures s seq attempts' = consecutiveFailures s seq attempts)
    (htask : task.Counted fun seq ↦ consecutiveFailures stage seq attempts') (s : StageName) :
    (Function.update v.tasks stage task s).Counted fun seq ↦
      consecutiveFailures s seq attempts' := by
  by_cases hs : s = stage
  · subst hs
    rwa [Function.update_self]
  · have hsame : (fun seq ↦ consecutiveFailures s seq attempts') =
        fun seq ↦ consecutiveFailures s seq attempts := by
      ext seq
      exact hothers s seq hs
    rw [Function.update_of_ne hs, hsame]
    exact h.counted s

theorem Faithful.fail (h : v.Faithful attempts) {stage : StageName} {seq : Int} {failures : Nat}
    (err : Error) (htrying : v.tasks stage = .trying seq failures) :
    Faithful ⟨v.progress.reportFailure seq stage.label (failures + 1) err.isPermanent err,
      Function.update v.tasks stage
        (if err.isPermanent then .rejected seq else .trying seq (failures + 1))⟩
      (⟨stage, seq, false⟩ :: attempts) := by
  have hcounted : consecutiveFailures stage seq attempts = failures := by
    have := h.counted stage
    rwa [htrying] at this
  have hcount : consecutiveFailures stage seq (⟨stage, seq, false⟩ :: attempts) = failures + 1 := by
    rw [consecutiveFailures_fail, hcounted]
  refine ⟨h.counted_update stage (fun s file hs ↦ consecutiveFailures_other hs file) ?_, ?_⟩
  · by_cases hpermanent : err.isPermanent = true
    · simp [hpermanent, StageTask.Counted]
    · simpa [hpermanent, StageTask.Counted] using hcount
  · intro f hf hstage
    unfold Progress.reportFailure at hf
    by_cases hhides : v.progress.hides seq = true
    · have hf : v.progress.failing = some f := by rwa [if_pos hhides] at hf
      have hearlier : f.seq < seq := by
        simpa [Progress.hides, hf, hstage] using hhides
      obtain ⟨other, hnames⟩ := h.slot f hf hstage
      have hother : other ≠ stage := by
        rintro rfl
        have hfile := hnames.file
        simp only [htrying, StageTask.file, Option.some.injEq] at hfile
        omega
      exact ⟨other, hnames.move (Function.update_of_ne hother _ _)
        (consecutiveFailures_other hother _) (latestAttempt_other (by omega))⟩
    · rw [if_neg hhides] at hf
      obtain rfl := Option.some.inj hf
      refine ⟨stage, ?_, rfl, hcount.symm, Nat.succ_pos _, latestAttempt_same⟩
      by_cases hpermanent : err.isPermanent = true <;> simp [hpermanent, StageTask.file]

theorem Faithful.pass (h : v.Faithful attempts) {stage : StageName} {seq : Int} {failures : Nat}
    (htrying : v.tasks stage = .trying seq failures)
    (hothers : ∀ s, s ≠ stage → (v.tasks s).file ≠ some seq) :
    Faithful ⟨if 0 < failures then v.progress.clearFailure seq else v.progress,
      Function.update v.tasks stage .idle⟩ (⟨stage, seq, true⟩ :: attempts) := by
  refine ⟨h.counted_update stage (fun s file hs ↦ consecutiveFailures_other hs file)
    consecutiveFailures_pass, ?_⟩
  intro f hf hstage
  -- The entry was there before, and is not about this file: else the stage, which has failed on it,
  -- has cleared it.
  have hbefore : v.progress.failing = some f ∧ (0 < failures → f.seq ≠ seq) := by
    by_cases hfailures : 0 < failures
    · rw [if_pos hfailures, Progress.clearFailure] at hf
      split_ifs at hf with hcleared
      have hf : v.progress.failing = some f := hf
      exact ⟨hf, fun _ ↦ by simpa [hf] using hcleared⟩
    · rw [if_neg hfailures] at hf
      exact ⟨hf, fun hpositive ↦ absurd hpositive hfailures⟩
  obtain ⟨other, hnames⟩ := h.slot f hbefore.1 hstage
  have hother : other ≠ stage := by
    rintro rfl
    have hfile := hnames.file
    simp only [htrying, StageTask.file, Option.some.injEq] at hfile
    have hcounted : consecutiveFailures other seq attempts = failures := by
      have := h.counted other
      rwa [htrying] at this
    have hcount := hnames.count
    have hfailed := hnames.failed
    rw [← hfile, hcounted] at hcount
    exact hbefore.2 (hcount ▸ hfailed) hfile.symm
  have hseq : f.seq ≠ seq := by
    intro heq
    exact hothers other hother (heq ▸ hnames.file)
  exact ⟨other, hnames.move (Function.update_of_ne hother _ _)
    (consecutiveFailures_other hother _) (latestAttempt_other hseq)⟩

/-- An entry is not touched while a stage takes a file or ends. -/
theorem Faithful.update_idle (h : v.Faithful attempts) {stage : StageName} {task : StageTask}
    (hidle : v.tasks stage = .idle)
    (htask : task.Counted fun seq ↦ consecutiveFailures stage seq attempts) :
    Faithful { v with tasks := Function.update v.tasks stage task } attempts := by
  refine ⟨h.counted_update stage (fun _ _ _ ↦ rfl) htask, fun f hf hstage ↦ ?_⟩
  obtain ⟨other, hnames⟩ := h.slot f hf hstage
  exact ⟨other, hnames.move (Function.update_of_ne (hnames.stage_ne hidle) _ _) rfl rfl⟩

/-- A terminal entry names no file. -/
theorem not_terminal_of_failing {p : Progress} {f : Failing} (hf : p.failing = some f)
    (hstage : f.kind.isTerminal = false) : ¬p.terminal := by
  simp [Progress.terminal, hf, hstage]

theorem Faithful.move {attempt : Option Attempt} (h : v.Faithful attempts)
    (hmove : v.Move attempt v') : v'.Faithful (attempt.toList ++ attempts) := by
  cases hmove with
  | still => exact h
  | receive stage seq hidle =>
    have hcounted := h.counted stage
    rw [hidle] at hcounted
    exact h.update_idle hidle (hcounted seq)
  | fail stage seq failures err htrying => exact h.fail err htrying
  | pass stage seq failures htrying hothers => exact h.pass htrying hothers
  | stop stage progress hterminal =>
    exact ⟨h.counted_update stage (fun _ _ _ ↦ rfl) trivial, fun f hf hstage ↦
      absurd hterminal (not_terminal_of_failing hf hstage)⟩
  | follow stage hidle => exact h.update_idle hidle trivial
  | land seq hlater =>
    refine ⟨h.counted, fun f hf hstage ↦ ?_⟩
    have hbefore : v.progress.failing = some f := by
      simp only [Progress.land] at hf
      split_ifs at hf
      exact hf
    obtain ⟨stage, hnames⟩ := h.slot f hbefore hstage
    exact ⟨stage, hnames.move rfl rfl rfl⟩
  | gone =>
    exact ⟨h.counted, fun f hf hstage ↦
      absurd v.progress.pipelineGone_terminal (not_terminal_of_failing hf hstage)⟩

/-- The report of a file that no stage is behind takes the slot. -/
theorem Faithful.head (h : v.Faithful attempts) {stage : StageName} {seq : Int}
    (hmove : v.Move (some ⟨stage, seq, false⟩) v')
    (hhead : ∀ s other, (v.tasks s).file = some other → seq ≤ other)
    (hrunning : ¬v'.progress.terminal) :
    ∃ f, v'.progress.failing = some f ∧ f.seq = seq ∧ f.stage = stage.label ∧
      f.attempts = consecutiveFailures stage seq (⟨stage, seq, false⟩ :: attempts) := by
  cases hmove with
  | fail _ _ failures err htrying =>
    have hcounted : consecutiveFailures stage seq attempts = failures := by
      have := h.counted stage
      rwa [htrying] at this
    have hhides : v.progress.hides seq = false := by
      by_contra hhides
      rw [Bool.not_eq_false] at hhides
      obtain ⟨f, hf, hbefore⟩ := (Option.any_eq_true _ _).mp hhides
      rw [Progress.reportFailure, if_pos hhides] at hrunning
      have hstage : f.kind.isTerminal = false := by
        simpa [Progress.terminal, hf] using hrunning
      have hearlier : f.seq < seq := by simpa [hstage] using hbefore
      obtain ⟨other, hnames⟩ := h.slot f hf hstage
      exact absurd (hhead other f.seq hnames.file) (not_le.mpr hearlier)
    refine ⟨_, congrArg Progress.failing (if_neg (by simp [hhides])), rfl, rfl, ?_⟩
    rw [consecutiveFailures_fail, hcounted]

/-- The report of a later file is not taken. -/
theorem Move.keeps {later : Attempt} {f : Failing} (hmove : v.Move (some later) v')
    (hfailed : later.ok = false) (hf : v.progress.failing = some f) (hseq : f.seq < later.seq) :
    v'.progress.failing = some f := by
  cases hmove with
  | fail stage seq failures err htrying =>
    have hhides : v.progress.hides seq = true := by
      simp only [Progress.hides, hf, Option.any_some, Bool.or_eq_true, decide_eq_true_eq]
      exact .inr hseq
    rw [Progress.reportFailure, if_pos hhides]
    exact hf
  | pass => simp at hfailed

/-- The entry of a file that no stage is behind stays while no attempt at the file ends. -/
theorem Faithful.stays {attempt : Option Attempt} {f : Failing} (h : v.Faithful attempts)
    (hmove : v.Move attempt v') (hf : v.progress.failing = some f)
    (hhead : ∀ s other, (v.tasks s).file = some other → f.seq ≤ other)
    (hothers : ∀ last, attempt = some last → last.seq ≠ f.seq) :
    v'.progress.failing = some f ∨ v'.progress.terminal := by
  cases hmove with
  | still | receive | follow => exact .inl hf
  | fail stage seq failures err htrying =>
    have hseq : f.seq < seq := by
      have hle := hhead stage seq (by rw [htrying, StageTask.file])
      have hne := hothers _ rfl
      simp only at hne
      omega
    exact .inl ((Move.fail stage seq failures err htrying).keeps rfl hf hseq)
  | pass stage seq failures htrying =>
    have hne : ¬f.seq = seq := fun heq ↦ hothers _ rfl heq.symm
    refine .inl ?_
    by_cases hfailures : 0 < failures
    · simp [hfailures, Progress.clearFailure, hf, hne]
    · simpa [hfailures] using hf
  | stop stage progress hterminal => exact .inr hterminal
  | land seq hlater =>
    refine .inl ?_
    by_cases hstage : f.kind.isTerminal = true
    · simp [Progress.land, hf, hstage]
    · obtain ⟨other, hnames⟩ := h.slot f hf (by simpa using hstage)
      have := hlater other f.seq hnames.file
      simp [Progress.land, hf, this]
  | gone => exact .inr v.progress.pipelineGone_terminal

end Faithful

end Retries

/-! ### The writer makes moves of its retry loops -/

namespace Writer

variable {β : Type} {cfg : WriterConfig β} {w w' : Writer β}

/-- The retry loops of a writer. -/
def retries (w : Writer β) : Retries := ⟨w.progress, w.pipe.tasks⟩

/-- The attempt that ends in a step. -/
def attempted (cfg : WriterConfig β) (w : Writer β) : Action β → Option Attempt
  | .renderEnds joinError =>
    match w.pipe.render with
    | .running file _ =>
      some ⟨.render, file.fileMeta.serialSeq,
        (joined joinError "render" (cfg.render file.batches)).isOk⟩
    | _ => none
  | .gzipEnds joinError =>
    match w.pipe.gzip with
    | .running file _ =>
      some ⟨.gzip, file.fileMeta.serialSeq, (joined joinError "gzip" (cfg.gzip file.body)).isOk⟩
    | _ => none
  | .putEnds trial =>
    match w.pipe.put with
    | .running file _ => some ⟨.put, file.fileMeta.serialSeq, trial.result.isOk⟩
    | _ => none
  | _ => none

theorem file_mem_inHand {stage : StageName} {seq : Int}
    (hfile : (w.pipe.tasks stage).file = some seq) :
    ∃ m ∈ w.pipe.inHand stage, m.serialSeq = seq := by
  have hstage {ι φ : Type} {metaOf : ι → FileMeta} {phaseMeta : φ → List FileMeta}
      {task : Stage ι φ} (htask : (task.task metaOf).file = some seq) :
      ∃ m ∈ task.inHand metaOf phaseMeta, m.serialSeq = seq := by
    cases task with
    | attempt file _ | running file _ | rejected file _ =>
      exact ⟨metaOf file, List.mem_singleton_self _, Option.some.inj htask⟩
    | receiving | between | exited => simp [Stage.task, StageTask.file] at htask
  cases stage <;> exact hstage hfile

/-- Two stages are never in the retry loops of one file. -/
theorem LineOrdered.file_ne (h : w.LineOrdered) {stage other : StageName} {seq : Int}
    (hfile : (w.pipe.tasks stage).file = some seq) (hother : other ≠ stage) :
    (w.pipe.tasks other).file ≠ some seq := by
  intro hsame
  obtain ⟨m, hm, rfl⟩ := file_mem_inHand hfile
  obtain ⟨n, hn, hseq⟩ := file_mem_inHand hsame
  exact h.serialSeq_ne hother hm hn hseq

/-! #### What the steps set -/

theorem retries_setRender (stage : Stage (Sealed β) RenderPhase) :
    (w.setRender stage).retries =
      ⟨w.progress, Function.update w.pipe.tasks .render (stage.task Sealed.fileMeta)⟩ := by
  ext1
  · rfl
  · funext s
    cases s <;> rfl

theorem retries_setGzip (stage : Stage Rendered Compressed) :
    (w.setGzip stage).retries =
      ⟨w.progress, Function.update w.pipe.tasks .gzip (stage.task Rendered.fileMeta)⟩ := by
  ext1
  · rfl
  · funext s
    cases s <;> rfl

theorem retries_setPut (stage : Stage Compressed PutPhase) :
    (w.setPut stage).retries =
      ⟨w.progress, Function.update w.pipe.tasks .put (stage.task Compressed.fileMeta)⟩ := by
  ext1
  · rfl
  · funext s
    cases s <;> rfl

/-- A step after which the task of a stage is at what it was at before. -/
theorem retries_still (stage : StageName) {task : StageTask} (htask : w.pipe.tasks stage = task) :
    w.retries.Move none ⟨w.progress, Function.update w.pipe.tasks stage task⟩ := by
  rw [← htask, Function.update_eq_self]
  exact .still

theorem fencedExit_terminal {progress : Progress} (hfenced : w.fencedExit = some progress) :
    progress.terminal := by
  obtain ⟨reason, -, rfl⟩ := Option.map_eq_some_iff.mp hfenced
  exact w.progress.publishTerminal_terminal rfl _ _ _

theorem task_failed {ι φ : Type} (metaOf : ι → FileMeta) (file : ι) (failures : Nat) (err : Error) :
    (Stage.failed (φ := φ) file failures err).task metaOf =
      if err.isPermanent then .rejected (metaOf file).serialSeq
      else .trying (metaOf file).serialSeq (failures + 1) := by
  unfold Stage.failed
  split_ifs <;> rfl

/-- A stage gets past its file. -/
theorem retries_passed (hline : w.LineOrdered) (stage : StageName) {m : FileMeta} {failures : Nat}
    (htrying : w.pipe.tasks stage = .trying m.serialSeq failures) :
    w.retries.Move (some ⟨stage, m.serialSeq, true⟩)
      ⟨w.passed failures m, Function.update w.pipe.tasks stage .idle⟩ :=
  .pass stage m.serialSeq failures htrying fun _ hother ↦
    hline.file_ne (by rw [htrying, StageTask.file]) hother

/-- A stage fails on its file. -/
theorem retries_failed (stage : StageName) {m : FileMeta} {failures : Nat} (err : Error)
    (htrying : w.pipe.tasks stage = .trying m.serialSeq failures) :
    w.retries.Move (some ⟨stage, m.serialSeq, false⟩)
      ⟨w.failing stage failures m err, Function.update w.pipe.tasks stage
        (if err.isPermanent then .rejected m.serialSeq else .trying m.serialSeq (failures + 1))⟩ :=
  .fail stage m.serialSeq failures err htrying

theorem rejection_terminal (stage : StageName) (err : Error) : (w.rejection stage err).terminal :=
  w.progress.publishTerminal_terminal rfl _ _ _

theorem retries_render {action : Action β} (hline : w.LineOrdered)
    (hmove : RenderStep cfg w action w') :
    w.retries.Move (w.attempted cfg action) w'.retries := by
  cases hmove with
  | take file rest hrender =>
    show w.retries.Move none (w.setRender (.attempt file 0)).retries
    rw [retries_setRender]
    exact .receive .render _ (by simp [retries, Pipeline.tasks, Stage.task, hrender])
  | drop file failures progress hrender hfenced =>
    rw [retries_setRender]
    exact .stop .render progress (fencedExit_terminal hfenced)
  | run file failures hrender | calibrate out hrender =>
    rw [retries_setRender]
    exact retries_still .render (by simp [Pipeline.tasks, Stage.task, hrender])
  | pass joinError file failures out hrender hmeta hresult =>
    rw [retries_setRender]
    simp only [attempted, hrender, hresult]
    exact retries_passed hline .render (by simp [Pipeline.tasks, Stage.task, hrender])
  | fail joinError file failures err hrender hresult =>
    rw [retries_setRender, task_failed]
    simp only [attempted, hrender, hresult]
    exact retries_failed .render err (by simp [Pipeline.tasks, Stage.task, hrender])
  | giveUp =>
    rw [retries_setRender]
    exact .stop .render _ (rejection_terminal _ _)
  | lose out hrender =>
    rw [retries_setRender]
    exact .follow .render (by simp [retries, Pipeline.tasks, Stage.task, hrender])
  | send out hrender =>
    show w.retries.Move none (w.setRender .receiving).retries
    rw [retries_setRender]
    exact retries_still .render (by simp [Pipeline.tasks, Stage.task, hrender])

theorem retries_gzip {action : Action β} (hline : w.LineOrdered)
    (hmove : GzipStep cfg w action w') :
    w.retries.Move (w.attempted cfg action) w'.retries := by
  cases hmove with
  | take file rest hgzip =>
    show w.retries.Move none (w.setGzip (.attempt file 0)).retries
    rw [retries_setGzip]
    exact .receive .gzip _ (by simp [retries, Pipeline.tasks, Stage.task, hgzip])
  | skip file rest hgzip =>
    show w.retries.Move none (w.setGzip (.between ⟨file.fileMeta, bodyBytes file.body⟩)).retries
    rw [retries_setGzip]
    exact retries_still .gzip (by simp [Pipeline.tasks, Stage.task, hgzip])
  | close hgzip | lose out hgzip =>
    rw [retries_setGzip]
    exact .follow .gzip (by simp [retries, Pipeline.tasks, Stage.task, hgzip])
  | drop file failures progress hgzip hfenced =>
    rw [retries_setGzip]
    exact .stop .gzip progress (fencedExit_terminal hfenced)
  | run file failures hgzip =>
    rw [retries_setGzip]
    exact retries_still .gzip (by simp [Pipeline.tasks, Stage.task, hgzip])
  | pass joinError file failures payload hgzip hresult =>
    rw [retries_setGzip]
    simp only [attempted, hgzip, hresult]
    exact retries_passed hline .gzip (by simp [Pipeline.tasks, Stage.task, hgzip])
  | fail joinError file failures err hgzip hresult =>
    rw [retries_setGzip, task_failed]
    simp only [attempted, hgzip, hresult]
    exact retries_failed .gzip err (by simp [Pipeline.tasks, Stage.task, hgzip])
  | giveUp =>
    rw [retries_setGzip]
    exact .stop .gzip _ (rejection_terminal _ _)
  | send out hgzip =>
    show w.retries.Move none (w.setGzip .receiving).retries
    rw [retries_setGzip]
    exact retries_still .gzip (by simp [Pipeline.tasks, Stage.task, hgzip])

theorem retries_put {action : Action β} (hline : w.LineOrdered) (hmove : PutStep cfg w action w') :
    w.retries.Move (w.attempted cfg action) w'.retries := by
  cases hmove with
  | take file rest hput =>
    show w.retries.Move none (w.setPut (.between (.ordering file))).retries
    rw [retries_setPut]
    exact retries_still .put (by simp [Pipeline.tasks, Stage.task, hput])
  | close hput =>
    rw [retries_setPut]
    exact .follow .put (by simp [retries, Pipeline.tasks, Stage.task, hput])
  | dropUnordered file progress hput hfenced | drop file failures progress hput hfenced
  | dropReturned m progress hput hfenced =>
    rw [retries_setPut]
    exact .stop .put progress (fencedExit_terminal hfenced)
  | order file hput =>
    rw [retries_setPut]
    exact .receive .put _ (by simp [retries, Pipeline.tasks, Stage.task, hput])
  | trip =>
    rw [retries_setPut]
    exact .stop .put _ (w.progress.publishTerminal_terminal rfl _ _ _)
  | run file failures hput | confirm m hput | record m hput | announce m hput =>
    rw [retries_setPut]
    exact retries_still .put (by simp [Pipeline.tasks, Stage.task, hput])
  | pass trial file failures hput hresult =>
    rw [retries_setPut]
    simp only [attempted, hput, hresult]
    exact retries_passed hline .put (by simp [Pipeline.tasks, Stage.task, hput])
  | fail trial file failures err hput hresult =>
    rw [retries_setPut, task_failed]
    simp only [attempted, hput, hresult]
    exact retries_failed .put err (by simp [Pipeline.tasks, Stage.task, hput])
  | giveUp =>
    rw [retries_setPut]
    exact .stop .put _ (rejection_terminal _ _)
  | land m hput =>
    have hland : w.retries.Move none ⟨w.progress.land m.serialSeq, w.pipe.tasks⟩ :=
      .land m.serialSeq fun s later hfile ↦ by
        obtain ⟨file, hhand, rfl⟩ := file_mem_inHand hfile
        exact hline.landing m hput file (mem_line_of_inHand hhand)
    show w.retries.Move none _
    convert hland using 1
    ext1
    · rfl
    · funext s
      cases s <;> simp [retries, Pipeline.tasks, Stage.task, hput]

theorem retries_of_tasks (htasks : w'.pipe.tasks = w.pipe.tasks)
    (hprogress : w'.progress = w.progress) : w.retries.Move none w'.retries := by
  have hsame : w'.retries = w.retries := Retries.ext hprogress htasks
  rw [hsame]
  exact .still

theorem SamePipeline.retries (h : SamePipeline w w') : w.retries.Move none w'.retries :=
  retries_of_tasks (congrArg Pipeline.tasks h.pipe) h.progress

theorem retries_handOver {now : Nat} (hstep : w.handOver cfg now = some w') :
    w.retries.Move none w'.retries := by
  cases holder_cases hstep with
  | reserve | await | permit | close | lose | proceed =>
    exact SamePipeline.retries (.setPhase _ _)
  | skip | yield | fail => exact SamePipeline.retries (.finish _ _)
  | report holder =>
    have h := SamePipeline.finish (w := { w with progress := w.progress.pipelineGone.2 }) holder
      (.error w.progress.pipelineGone.1)
    have hgone : (({ w with progress := w.progress.pipelineGone.2 } : Writer β).finish holder
        (.error w.progress.pipelineGone.1)).retries =
          { w.retries with progress := w.retries.progress.pipelineGone.2 } :=
      Retries.ext h.progress (congrArg Pipeline.tasks h.pipe)
    rw [hgone]
    exact .gone
  | cut =>
    have hfinish (st : WriterState β) (holder : Sealer) (result : Except Error (Option Int)) :
        w.retries.Move none (({ w with st := st } : Writer β).finish holder result).retries := by
      have h := SamePipeline.finish (w := { w with st := st }) holder result
      exact retries_of_tasks (congrArg Pipeline.tasks h.pipe) h.progress
    unfold Writer.cut
    split
    · exact hfinish _ _ _
    · exact hfinish _ _ _
    · exact .still
  | send holder sealed =>
    have h := SamePipeline.finish (w := { w with
      pipe := { w.pipe with queue := w.pipe.queue ++ [sealed] }
      trace := { w.trace with sent := w.trace.sent ++ [sealed.fileMeta] } }) holder
      (.ok (some sealed.fileMeta.serialSeq))
    exact retries_of_tasks ((congrArg Pipeline.tasks h.pipe).trans rfl) h.progress

/-- A step makes one move of the retry loops. -/
theorem retries_step {action : Action β} (hline : w.LineOrdered)
    (hstep : w.step cfg action = some w') :
    w.retries.Move (w.attempted cfg action) w'.retries := by
  cases action with
  | appendCall | appendPush | appendUnbuffer | flushCall | flushLookup | flushAwait | flushRead
  | tick | tickerCheck | persistBegin | persistRecheck | persistWrite =>
    exact (caller_frame hstep rfl).1.retries
  | tryLock | acquire | stall => exact (locker_frame hstep rfl).retries
  | handOver => exact retries_handOver hstep
  | receive | attempt | renderEnds | gzipEnds | putEnds | giveUp | calibrate | send | order
  | confirm | record | announce | land =>
    rcases stage_cases hstep rfl with hmove | hmove | hmove
    · exact retries_render hline hmove
    · exact retries_gzip hline hmove
    · exact retries_put hline hmove
  | fence | serialViolation | notifierStops => exact Option.some.inj hstep ▸ .still

/-! ### The slot in every run -/

/-- A writer's step with the attempts so far kept beside it, newest first. -/
def attemptStep (cfg : WriterConfig β) (run : Writer β × List Attempt) (action : Action β) :
    Option (Writer β × List Attempt) :=
  (run.1.step cfg action).map fun w' ↦ (w', (run.1.attempted cfg action).toList ++ run.2)

/-- The file is sealed and not durable yet. -/
def Pending (w : Writer β) (seq : Int) : Prop :=
  (∃ cut ∈ w.trace.cuts, cut.fileMeta.serialSeq = seq) ∧
    ∀ durable, w.progress.durableSeq = some durable → durable < seq

/-- The oldest file that is not durable yet. -/
def IsHead (w : Writer β) (seq : Int) : Prop :=
  w.Pending seq ∧ ∀ later, w.Pending later → seq ≤ later

section Run

variable {epochMs : Nat} {stagedOffset resumePersisted : Option Int} {attempts : List Attempt}

/-- The attempts are kept beside a run, which they do not influence. -/
theorem reachable_fst
    (hreach : Reachable (attemptStep cfg) (new epochMs stagedOffset resumePersisted, [])
      (w, attempts)) : ReachableFrom cfg epochMs stagedOffset resumePersisted w := by
  have hstart : ReachableFrom cfg epochMs stagedOffset resumePersisted
      (new epochMs stagedOffset resumePersisted : Writer β) := .refl
  refine hreach.strengthened
    (fun run ↦ ReachableFrom cfg epochMs stagedOffset resumePersisted run.1) hstart ?_
  intro before action after _ hbefore _ hstep
  obtain ⟨w', hw', rfl⟩ := Option.map_eq_some_iff.mp hstep
  exact hbefore.snoc hw'

/-- The entry of the slot is faithful in every run. -/
theorem retries_faithful
    (hreach : Reachable (attemptStep cfg) (new epochMs stagedOffset resumePersisted, [])
      (w, attempts)) : w.retries.Faithful attempts := by
  refine hreach.strengthened (fun run ↦ run.1.retries.Faithful run.2) ?_ ?_
  · refine ⟨fun stage ↦ ?_, fun f hf ↦ ?_⟩
    · cases stage <;> exact fun _ ↦ rfl
    · simp [retries, new, Progress.initial] at hf
  · intro before action after hbefore hfaithful _ hstep
    obtain ⟨w', hw', rfl⟩ := Option.map_eq_some_iff.mp hstep
    have hline : before.1.LineOrdered := (reachable_fst hbefore).lineOrdered
    exact hfaithful.move (retries_step hline hw')

/-- A file whose put has not returned is not durable yet. -/
theorem ReachableFrom.pending_of_line
    (hreach : ReachableFrom cfg epochMs stagedOffset resumePersisted w) {m : FileMeta}
    (hm : m ∈ w.pipe.line) : w.Pending m.serialSeq := by
  have hfiles := hreach.files
  have hsplit : w.trace.cuts.map Cut.fileMeta = w.trace.putReturned ++ w.pipe.line ++ w.handover :=
    hfiles.conserved
  have hincreasing : (w.trace.cuts.map Cut.fileMeta).Pairwise fun a b ↦ a.serialSeq < b.serialSeq :=
    List.pairwise_map.mpr hreach.rows.2.increasing
  rw [hsplit, List.pairwise_append, List.pairwise_append] at hincreasing
  have hsealed : m ∈ w.trace.cuts.map Cut.fileMeta := by
    rw [hsplit]
    exact List.mem_append_left _ (List.mem_append_right _ hm)
  obtain ⟨cut, hcut, rfl⟩ := List.mem_map.mp hsealed
  refine ⟨⟨cut, hcut, rfl⟩, fun durable hdurable ↦ ?_⟩
  obtain ⟨landed, hlanded, rfl⟩ := hfiles.durable durable hdurable
  exact hincreasing.1.2.2 landed (hfiles.prefixes.1.subset hlanded) _ hm

/-- The failing slot is never stale and never hides the oldest file that is not durable. -/
structure SlotFaithful (cfg : WriterConfig β) (w : Writer β) (attempts : List Attempt) : Prop where
  /-- An entry that is not terminal names a file whose stage is at it, and has failed on it so often
  in a row. -/
  current : ∀ f, w.progress.failing = some f → f.kind.isTerminal = false →
    ∃ stage, w.retries.Names attempts f stage
  /-- A file that got past its stage is not named until it fails again. -/
  cleared : ∀ last, latestAttempt last.seq attempts = some last → last.ok = true →
    ∀ f, w.progress.failing = some f → f.kind.isTerminal = false → f.seq ≠ last.seq
  /-- The oldest file that is not durable takes the slot when it fails. -/
  head : ∀ (action : Action β) (w' : Writer β) (stage : StageName) (seq : Int),
    w.step cfg action = some w' → w.attempted cfg action = some ⟨stage, seq, false⟩ → w.IsHead seq →
      ¬w'.progress.terminal → ∃ f, w'.progress.failing = some f ∧ f.seq = seq ∧
        f.stage = stage.label ∧
        f.attempts = consecutiveFailures stage seq (⟨stage, seq, false⟩ :: attempts)
  /-- No report for a later file replaces an entry. -/
  keeps : ∀ (action : Action β) (w' : Writer β) (f : Failing) (later : Attempt),
    w.step cfg action = some w' → w.attempted cfg action = some later → later.ok = false →
      w.progress.failing = some f → f.seq < later.seq → w'.progress.failing = some f
  /-- The entry of the oldest file that is not durable stays until an attempt at that file ends or
  the writer stops. -/
  stays : ∀ (action : Action β) (w' : Writer β) (f : Failing),
    w.step cfg action = some w' → w.progress.failing = some f → w.IsHead f.seq →
      (∀ attempt, w.attempted cfg action = some attempt → attempt.seq ≠ f.seq) →
      w'.progress.failing = some f ∨ w'.progress.terminal

/-- The file of a retry loop is not durable yet. -/
theorem ReachableFrom.pending_of_file
    (hreach : ReachableFrom cfg epochMs stagedOffset resumePersisted w) {stage : StageName}
    {seq : Int} (hfile : (w.pipe.tasks stage).file = some seq) : w.Pending seq := by
  obtain ⟨m, hm, rfl⟩ := file_mem_inHand hfile
  exact hreach.pending_of_line (mem_line_of_inHand hm)

/-- However failures, retries and successes of the three stages interleave, the failing slot is
never stale and never hides the oldest file that is not durable. -/
theorem failing_slot_faithful
    (hreach : Reachable (attemptStep cfg) (new epochMs stagedOffset resumePersisted, [])
      (w, attempts)) : w.SlotFaithful cfg attempts := by
  have hrun := reachable_fst hreach
  have hline := hrun.lineOrdered
  have hfaithful := retries_faithful hreach
  refine ⟨hfaithful.slot, ?_, ?_, ?_, ?_⟩
  · rintro last hlast hok f hf hstage hseq
    obtain ⟨stage, hnames⟩ := hfaithful.slot f hf hstage
    have hlatest := hnames.latest
    rw [hseq, hlast, Option.some.injEq] at hlatest
    rw [hlatest] at hok
    exact Bool.false_ne_true hok
  · intro action w' stage seq hstep hattempted hhead hrunning
    have hmove := retries_step hline hstep
    rw [hattempted] at hmove
    exact hfaithful.head hmove (fun _ _ hfile ↦ hhead.2 _ (hrun.pending_of_file hfile)) hrunning
  · intro action w' f later hstep hattempted hfailed hf hseq
    have hmove := retries_step hline hstep
    rw [hattempted] at hmove
    exact hmove.keeps hfailed hf hseq
  · intro action w' f hstep hf hhead hothers
    exact hfaithful.stays (retries_step hline hstep) hf
      (fun _ _ hfile ↦ hhead.2 _ (hrun.pending_of_file hfile)) hothers

end Run

/-- The first file of a writer, on which the render stage has failed twice. -/
def failingRender : Writer RecordBatch × List Attempt :=
  (run (attemptStep sampleConfig) (new 1 none none, [])
    (sampleAppend 0 9 ++ [.flushCall 0 false, .tryLock (.flush 0) false] ++
      List.replicate 5 (.handOver 0) ++ [.receive .render, .attempt .render,
        .renderEnds (some "cancelled"), .attempt .render, .renderEnds (some "cancelled")])).getD
    (new 1 none none, [])

theorem failingRender_reachable :
    Reachable (attemptStep sampleConfig) (new 1 none none, [])
      failingRender :=
  reachable_getD_of_run .refl (by decide +kernel)

theorem failing_slot_faithful_render :
    failingRender.1.SlotFaithful sampleConfig failingRender.2 ∧
      failingRender.1.progress.failing.map (fun f ↦ (f.seq, f.stage, f.attempts)) =
        some (2 ^ 20, "render", 2) :=
  ⟨failing_slot_faithful failingRender_reachable, by decide +kernel⟩

end Writer

end RelytIngest
