import RelytIngest.Stream.EpochAnchor
import RelytIngest.Stream.LagSampler

/-!
# What the lag samples report

`known_files` is pruned at every sample. It stays as good as all the entries that were ever in it
(`Tracked.pruned`), since the watermarks of the samples only rise, so every sample counts each file
of its writer above the watermark (`LagSample.Complete`), in every run (`every_sample_complete`).

The age is another matter: a recovered file is stamped with the epoch in its name, which may lie
ahead of when it was sealed. `lag_never_under_reports` is for the runs in which it does not, and
`lag_under_reported` one in which it does.
-/

set_option autoImplicit false
set_option relaxedAutoImplicit false

namespace RelytIngest

open Foundations

variable {β : Type} {cfg : Nat → WriterConfig β} {clock : Nat → Nat → Nat}

/-- A file that the writer of the sample sealed or recovered. -/
def LagSample.Concerns (sample : LagSample) (sealing : Sealing) : Prop :=
  sealing.session = sample.session ∨ sealing.file ∈ sample.recovered

/-- The sample counts every file recovered or sealed that is above its watermark. Each of them was
sealed some time. -/
structure LagSample.Complete (sealings : List Sealing) (sample : LagSample) : Prop where
  sealed : ∀ file ∈ sample.recovered ++ sample.sealed,
    ∃ sealing ∈ sealings, sealing.file = file ∧ sample.Concerns sealing
  count : sample.lagFiles = ((sample.recovered ++ sample.sealed).filter fun file ↦
    aboveWatermark sample.watermark file.packed).length

/-- No such file is older, in whole seconds, than the sample reports. -/
def LagSample.OldEnough (sealings : List Sealing) (sample : LagSample) : Prop :=
  ∀ sealing ∈ sealings, sample.Concerns sealing →
    aboveWatermark sample.watermark sealing.file.packed = true →
      (sample.nowMs - sealing.atMs) / 1000 ≤ sample.lagSeconds

instance (sample : LagSample) (sealing : Sealing) : Decidable (sample.Concerns sealing) :=
  inferInstanceAs (Decidable (_ ∨ _))

instance (sealings : List Sealing) (sample : LagSample) : Decidable (sample.OldEnough sealings) :=
  inferInstanceAs (Decidable (∀ sealing ∈ sealings, _ → _ → _))

/-! ### The files of a session -/

namespace StreamSession

variable {session : StreamSession β}

theorem mem_recovered {file : StagedFile} (hfile : file ∈ session.recovered) :
    ∃ opening, session.opened = some opening ∧ file ∈ opening.plan.backfill := by
  unfold recovered at hfile
  split at hfile
  · next opening w hphase => exact ⟨opening, by simp [opened, hphase], hfile⟩
  · simp at hfile

/-- The files of a writer that a session made are named by their serial seqs. -/
theorem Made.serialSeq {cfg : WriterConfig β} (h : session.Made cfg) {m : FileMeta}
    (hm : m ∈ session.metas) : m.serialSeq = m.file.packed := by
  unfold metas at hm
  split at hm
  · next opening w hphase =>
    obtain ⟨cut, hcut, rfl⟩ := List.mem_map.mp hm
    exact ((h opening w hphase).2.rows.2.wellFormed cut hcut).serialSeq
  · simp at hm

end StreamSession

namespace Stream

variable {s s' : Stream β} {action : StreamAction β}

/-- Only a step of its writer seals files. -/
theorem metas_step (hstep : step cfg s action = some s') (id : Nat) :
    (s'.sessions id).metas = (s.sessions id).metas ∨
      ∃ writerAction, action = .writer id writerAction ∧
        (s.sessions id).metas <+: (s'.sessions id).metas := by
  have hchange := phase_step hstep id
  unfold StreamSession.metas
  generalize (s.sessions id).phase = before, (s'.sessions id).phase = after at hchange
  cases hchange with
  | same | read | decided | refused | failed | returned => exact Or.inl rfl
  | stepped writerAction opening w w' hnext =>
    refine Or.inr ⟨writerAction, rfl, ?_⟩
    exact (Writer.cuts_grow hnext).1

/-- What a session recovered is settled when its open returns. -/
theorem recovered_step (hstep : step cfg s action = some s') (id : Nat) :
    (s'.sessions id).recovered = (s.sessions id).recovered ∨
      ∃ result, action = .openReturns id result := by
  have hchange := phase_step hstep id
  unfold StreamSession.recovered
  generalize (s.sessions id).phase = before, (s'.sessions id).phase = after at hchange
  cases hchange with
  | same | read | decided | refused | failed | stepped => exact Or.inl rfl
  | returned => exact Or.inr ⟨_, rfl⟩

end Stream

/-! ### What is known is pruned, not lost -/

theorem seeds_eq {recovered : List StagedFile}
    (hencodes : ∀ file ∈ recovered, file.epochMs ≤ MAX_EPOCH_MS ∧ file.seq ≤ MAX_SEQ) :
    Lag.seeds recovered = recovered.map fun file ↦ (file.packed, file.epochMs) := by
  rw [Lag.seeds, ← List.filterMap_eq_map]
  refine List.filterMap_congr fun file hfile ↦ ?_
  obtain ⟨hepoch, hseq⟩ := hencodes file hfile
  rw [(file.serialSeq_eq_ok_iff file.packed).mpr ⟨hepoch, hseq, rfl⟩]
  rfl

namespace Lag

variable {lag lag' : Lag β}

/-- The files that a session sealed. -/
def sealingsOf (lag : Lag β) (id : Nat) : List Sealing :=
  lag.sealings.filter fun sealing ↦ decide (sealing.session = id)

/-- All the entries that `known_files` of a session was given. -/
def entries (clock : Nat → Nat → Nat) (lag : Lag β) (id : Nat) : List (Int × Nat) :=
  (lag.stream.sessions id).recovered.map (fun file ↦ (file.packed, file.epochMs)) ++
    (lag.sealingsOf id).map fun sealing ↦ (sealing.file.packed, clock id sealing.atMs)

/-- The watermark of the round that a sampler is in, of the server between rounds. -/
def pending (lag : Lag β) (id : Nat) : Option Int :=
  match (lag.monitors id).sampling with
  | .idle => lag.watermark
  | .queried watermark | .timed watermark _ => watermark

structure Tracked (clock : Nat → Nat → Nat) (lag : Lag β) (id : Nat) : Prop where
  opened : ∀ opening, (lag.stream.sessions id).opened = some opening →
    ∀ file ∈ opening.plan.backfill, (file.epochMs ≤ MAX_EPOCH_MS ∧ file.seq ≤ MAX_SEQ) ∧
      ∃ sealing ∈ lag.sealings, sealing.file = file
  own : (lag.sealingsOf id).map Sealing.file =
    (lag.stream.sessions id).metas.map FileMeta.file
  pruned : PrunedTo (watermarkBound (lag.pending id)) (lag.entries clock id)
    (lag.monitors id).knownFiles
  pending : watermarkBound (lag.pending id) ≤ watermarkBound lag.watermark

theorem tracked_start (json : Option StateFile) (realMs : Nat) (watermark : Option Int) (id : Nat) :
    (start json realMs watermark : Lag β).Tracked clock id where
  opened opening hopened := by simp [start, Stream.start, StreamSession.opened] at hopened
  own := rfl
  pruned := .refl _ _
  pending := le_rfl

theorem Tracked.recovered {id : Nat} (h : lag.Tracked clock id) {file : StagedFile}
    (hfile : file ∈ (lag.stream.sessions id).recovered) :
    (file.epochMs ≤ MAX_EPOCH_MS ∧ file.seq ≤ MAX_SEQ) ∧
      ∃ sealing ∈ lag.sealings, sealing.file = file := by
  obtain ⟨opening, hopened, hmem⟩ := StreamSession.mem_recovered hfile
  exact h.opened opening hopened file hmem

/-- What an open decides to recover was sealed. -/
theorem sealed_of_decided {id nowMs : Nat} {watermark : Option Int} {staged : List StagedFile}
    {state : Option StateFile} {opening : Opening}
    (hadmits : lag.admits clock (.openDecide id nowMs watermark staged) = true)
    (hopen : openDecisions nowMs state watermark staged = .ok opening) {file : StagedFile}
    (hfile : file ∈ opening.plan.backfill) :
    (file.epochMs ≤ MAX_EPOCH_MS ∧ file.seq ≤ MAX_SEQ) ∧
      ∃ sealing ∈ lag.sealings, sealing.file = file := by
  obtain ⟨plan, hplan, -⟩ := openDecisions_eq_ok_iff.mp hopen
  have hstaged := openDecisions_backfill hopen hfile
  refine ⟨(planRecovery_ok hplan).1 file hstaged, ?_⟩
  simp only [admits, Bool.and_eq_true, List.all_eq_true, List.any_eq_true,
    decide_eq_true_eq] at hadmits
  exact hadmits.2 file hstaged

/-! ### A step of the stream -/

/-- The sealings of a step of the stream. -/
def sealingsBy (lag : Lag β) (after : Stream β) : StreamAction β → List Sealing
  | .writer id _ => (sealedBy (lag.stream.sessions id) (after.sessions id)).map
      fun m ↦ ⟨id, m.file, lag.realMs⟩
  | _ => []

theorem follow_sealings (after : Stream β) (action : StreamAction β) :
    (lag.follow clock after action).sealings = lag.sealings ++ lag.sealingsBy after action := by
  cases action <;> simp [follow, sealingsBy, setMonitor]

@[simp] theorem follow_realMs (after : Stream β) (action : StreamAction β) :
    (lag.follow clock after action).realMs = lag.realMs := by
  cases action <;> rfl

@[simp] theorem follow_watermark (after : Stream β) (action : StreamAction β) :
    (lag.follow clock after action).watermark = lag.watermark := by
  cases action <;> rfl

@[simp] theorem follow_samples (after : Stream β) (action : StreamAction β) :
    (lag.follow clock after action).samples = lag.samples := by
  cases action <;> rfl

theorem follow_sampling (after : Stream β) (action : StreamAction β) (id : Nat) :
    ((lag.follow clock after action).monitors id).sampling = (lag.monitors id).sampling := by
  have hset (other : Nat) (known : List (Int × Nat)) :
      (Function.update lag.monitors other
        { lag.monitors other with knownFiles := known } id).sampling =
          (lag.monitors id).sampling := by
    by_cases hid : id = other
    · subst hid
      simp
    · simp [hid]
  cases action with
  | openReturns other result => exact hset other _
  | writer other writerAction => exact hset other _
  | openRead | openDecide | openLands | persistLands | crash => rfl

@[simp] theorem follow_pending (after : Stream β) (action : StreamAction β) (id : Nat) :
    (lag.follow clock after action).pending id = lag.pending id := by
  simp only [pending, follow_sampling, follow_watermark]

/-- A file sealed in a step is sealed now, by the session that takes the step. -/
theorem mem_sealingsBy {after : Stream β} {action : StreamAction β} {sealing : Sealing}
    (h : sealing ∈ lag.sealingsBy after action) :
    sealing.session = action.session ∧ sealing.atMs = lag.realMs := by
  cases action with
  | writer id writerAction =>
    obtain ⟨m, -, rfl⟩ := List.mem_map.mp h
    exact ⟨rfl, rfl⟩
  | _ => simp [sealingsBy] at h

theorem sealingsOf_follow (after : Stream β) (action : StreamAction β) (id : Nat) :
    (lag.follow clock after action).sealingsOf id = lag.sealingsOf id ++
      (lag.sealingsBy after action).filter fun sealing ↦ decide (sealing.session = id) := by
  rw [sealingsOf, follow_sealings, List.filter_append, sealingsOf]

/-- A session that does not step its writer seals nothing. -/
theorem sealingsOf_follow_of_not_writer {action : StreamAction β} {id : Nat}
    (hwriter : ∀ writerAction, action ≠ .writer id writerAction) (after : Stream β) :
    (lag.follow clock after action).sealingsOf id = lag.sealingsOf id := by
  rw [sealingsOf_follow, List.append_right_eq_self, List.filter_eq_nil_iff]
  intro sealing hsealing
  rw [decide_eq_true_eq]
  intro hsession
  cases action with
  | writer other writerAction =>
    have heq : sealing.session = other := (mem_sealingsBy hsealing).1
    exact hwriter writerAction (by rw [← heq, hsession])
  | _ => simp [sealingsBy] at hsealing

theorem sealingsOf_follow_writer (after : Stream β) (id : Nat) (writerAction : Action β) :
    (lag.follow clock after (.writer id writerAction)).sealingsOf id = lag.sealingsOf id ++
      (sealedBy (lag.stream.sessions id) (after.sessions id)).map
        fun m ↦ ⟨id, m.file, lag.realMs⟩ := by
  rw [sealingsOf_follow, sealingsBy, List.filter_eq_self.mpr]
  intro sealing hsealing
  obtain ⟨m, -, rfl⟩ := List.mem_map.mp hsealing
  simp

/-- The sampler of a session is left alone by the others, and by what neither opens nor seals. -/
theorem follow_knownFiles_of_ne {action : StreamAction β} {id : Nat}
    (hwriter : ∀ writerAction, action ≠ .writer id writerAction)
    (hreturns : ∀ result, action ≠ .openReturns id result) (after : Stream β) :
    ((lag.follow clock after action).monitors id).knownFiles = (lag.monitors id).knownFiles := by
  cases action with
  | openReturns other result =>
    have hid : id ≠ other := fun heq ↦ hreturns result (heq ▸ rfl)
    simp [follow, setMonitor, hid]
  | writer other writerAction =>
    have hid : id ≠ other := fun heq ↦ hwriter writerAction (heq ▸ rfl)
    simp [follow, setMonitor, hid]
  | openRead | openDecide | openLands | persistLands | crash => rfl

/-- Before its open returns a session has neither recovered nor sealed files. -/
theorem metas_of_openReturns {s s' : Stream β} {id : Nat} {result : Except Error Unit}
    (hstep : s.openReturns id result = some s') : (s.sessions id).metas = [] := by
  obtain ⟨opening, hphase, -⟩ := Stream.openReturns_eq_some hstep
  simp [StreamSession.metas, hphase]

/-- What a session may recover was sealed, whatever step is taken. -/
theorem Tracked.opened_follow {id : Nat} (h : lag.Tracked clock id) {action : StreamAction β}
    {after : Stream β} (hadmits : lag.admits clock action = true)
    (hnext : lag.stream.step cfg action = some after) {opening : Opening}
    (hopened : (after.sessions id).opened = some opening) {file : StagedFile}
    (hfile : file ∈ opening.plan.backfill) :
    (file.epochMs ≤ MAX_EPOCH_MS ∧ file.seq ≤ MAX_SEQ) ∧
      ∃ sealing ∈ (lag.follow clock after action).sealings, sealing.file = file := by
  have hbefore : (file.epochMs ≤ MAX_EPOCH_MS ∧ file.seq ≤ MAX_SEQ) ∧
      ∃ sealing ∈ lag.sealings, sealing.file = file := by
    rcases Stream.opened_step hnext hopened with
      hsame | ⟨nowMs, watermark, staged, state, rfl, -, hopen⟩
    · exact h.opened opening hsame file hfile
    · exact sealed_of_decided hadmits hopen hfile
  obtain ⟨hencodes, sealing, hsealing, heq⟩ := hbefore
  rw [follow_sealings]
  exact ⟨hencodes, sealing, List.mem_append_left _ hsealing, heq⟩

/-- A step of the writer adds the files it seals, to what is known and to all the entries. -/
theorem Tracked.follow_writer {id : Nat} (h : lag.Tracked clock id) {writerAction : Action β}
    {after : Stream β} (hmade : (after.sessions id).Made (cfg id))
    (hnext : lag.stream.step cfg (.writer id writerAction) = some after) :
    (lag.follow clock after (.writer id writerAction)).Tracked clock id := by
  have hrecovered : (after.sessions id).recovered = (lag.stream.sessions id).recovered :=
    (Stream.recovered_step hnext id).resolve_right (by simp)
  have hmetas : (lag.stream.sessions id).metas ++
      sealedBy (lag.stream.sessions id) (after.sessions id) = (after.sessions id).metas := by
    refine List.prefix_iff_eq_append.mp ?_
    rcases Stream.metas_step hnext id with hsame | ⟨-, -, hgrow⟩
    · exact hsame ▸ List.prefix_rfl
    · exact hgrow
  have hentries : (lag.follow clock after (.writer id writerAction)).entries clock id =
      lag.entries clock id ++ (sealedBy (lag.stream.sessions id) (after.sessions id)).map
        fun m ↦ (m.serialSeq, clock id lag.realMs) := by
    rw [entries, sealingsOf_follow_writer, follow_stream, hrecovered, List.map_append,
      ← List.append_assoc, List.map_map, entries]
    refine congrArg _ (List.map_congr_left fun m hm ↦ ?_)
    have hmem : m ∈ (after.sessions id).metas := hmetas ▸ List.mem_append_right _ hm
    simp [hmade.serialSeq hmem]
  have hknown : ((lag.follow clock after (.writer id writerAction)).monitors id).knownFiles =
      (lag.monitors id).knownFiles ++
        (sealedBy (lag.stream.sessions id) (after.sessions id)).map
          fun m ↦ (m.serialSeq, clock id lag.realMs) := by
    simp [Lag.follow, setMonitor]
  constructor
  case opened =>
    intro opening hopened file hfile
    rw [follow_stream] at hopened
    exact h.opened_follow rfl hnext hopened hfile
  case own =>
    rw [sealingsOf_follow_writer, List.map_append, h.own, follow_stream, ← hmetas,
      List.map_append, List.map_map]
    rfl
  case pruned =>
    rw [hentries, hknown, follow_pending]
    exact h.pruned.append _
  case pending => simpa using h.pending

/-- A step that is not one of the writer of `id`. -/
theorem Tracked.follow_of_not_writer {id : Nat} (h : lag.Tracked clock id)
    {action : StreamAction β} {after : Stream β} (hadmits : lag.admits clock action = true)
    (hnext : lag.stream.step cfg action = some after)
    (hwriter : ∀ writerAction, action ≠ .writer id writerAction) :
    (lag.follow clock after action).Tracked clock id := by
  have hsealings : (lag.follow clock after action).sealingsOf id = lag.sealingsOf id :=
    sealingsOf_follow_of_not_writer hwriter after
  have hmetas : (after.sessions id).metas = (lag.stream.sessions id).metas :=
    (Stream.metas_step hnext id).resolve_right fun ⟨writerAction, heq, _⟩ ↦ hwriter writerAction heq
  have hopened : ∀ opening, (after.sessions id).opened = some opening →
      ∀ file ∈ opening.plan.backfill, (file.epochMs ≤ MAX_EPOCH_MS ∧ file.seq ≤ MAX_SEQ) ∧
        ∃ sealing ∈ (lag.follow clock after action).sealings, sealing.file = file :=
    fun opening hopening file hfile ↦ h.opened_follow hadmits hnext hopening hfile
  constructor
  case opened => simpa only [follow_stream] using hopened
  case own =>
    rw [hsealings, follow_stream, hmetas]
    exact h.own
  case pending => simpa using h.pending
  case pruned =>
    rw [follow_pending]
    by_cases hreturns : ∃ result, action = .openReturns id result
    · -- the writer is new: all there is to know is what was recovered
      obtain ⟨result, rfl⟩ := hreturns
      have hnone : lag.sealingsOf id = [] := by
        have hown := h.own
        rw [metas_of_openReturns hnext, List.map_nil] at hown
        exact List.map_eq_nil_iff.mp hown
      have hencodes : ∀ file ∈ (after.sessions id).recovered,
          file.epochMs ≤ MAX_EPOCH_MS ∧ file.seq ≤ MAX_SEQ := by
        intro file hfile
        obtain ⟨opening, hopening, hmem⟩ := StreamSession.mem_recovered hfile
        exact (hopened opening hopening file hmem).1
      have hknown : ((lag.follow clock after (.openReturns id result)).monitors id).knownFiles =
          (lag.follow clock after (.openReturns id result)).entries clock id := by
        rw [entries, hsealings, hnone, List.map_nil, List.append_nil, follow_stream,
          ← seeds_eq hencodes]
        simp [Lag.follow, setMonitor]
      rw [hknown]
      exact .refl _ _
    · have hrecovered : (after.sessions id).recovered = (lag.stream.sessions id).recovered :=
        (Stream.recovered_step hnext id).resolve_right hreturns
      rw [entries, hsealings, follow_stream, hrecovered,
        follow_knownFiles_of_ne hwriter fun result heq ↦ hreturns ⟨result, heq⟩]
      exact h.pruned

theorem Tracked.follow {id : Nat} (h : lag.Tracked clock id) {action : StreamAction β}
    {after : Stream β} (hmade : (after.sessions id).Made (cfg id))
    (hadmits : lag.admits clock action = true) (hnext : lag.stream.step cfg action = some after) :
    (lag.follow clock after action).Tracked clock id := by
  by_cases hwriter : ∃ writerAction, action = .writer id writerAction
  · obtain ⟨writerAction, rfl⟩ := hwriter
    exact h.follow_writer hmade hnext
  · exact h.follow_of_not_writer hadmits hnext fun writerAction heq ↦ hwriter ⟨writerAction, heq⟩

/-! ### A step of a sampler -/

/-- Neither the sessions nor their sealings change. -/
theorem Tracked.of_sampler {id : Nat} (h : lag.Tracked clock id)
    (hstream : lag'.stream = lag.stream) (hsealings : lag'.sealings = lag.sealings)
    (hpruned : PrunedTo (watermarkBound (lag'.pending id)) (lag.entries clock id)
      (lag'.monitors id).knownFiles)
    (hpending : watermarkBound (lag'.pending id) ≤ watermarkBound lag'.watermark) :
    lag'.Tracked clock id where
  opened := hstream ▸ hsealings ▸ h.opened
  own := by
    rw [sealingsOf, hsealings, hstream]
    exact h.own
  pruned := by
    rw [entries, sealingsOf, hsealings, hstream]
    exact hpruned
  pending := hpending

/-- A sampler goes on with its round. -/
theorem Tracked.setSampling {id : Nat} (h : lag.Tracked clock id) {other : Nat}
    {sampling : Sampling}
    (hsame : (lag.setMonitor other { lag.monitors other with sampling := sampling }).pending other =
      lag.pending other) :
    (lag.setMonitor other { lag.monitors other with sampling := sampling }).Tracked clock id := by
  have hkept : (lag.setMonitor other { lag.monitors other with sampling := sampling }).pending id =
      lag.pending id ∧ ((lag.setMonitor other { lag.monitors other with
        sampling := sampling }).monitors id).knownFiles = (lag.monitors id).knownFiles := by
    by_cases hid : id = other
    · subst hid
      exact ⟨hsame, by simp [setMonitor]⟩
    · simp [setMonitor, Lag.pending, hid]
  refine h.of_sampler rfl rfl ?_ ?_
  · rw [hkept.1, hkept.2]
    exact h.pruned
  · rw [hkept.1]
    exact h.pending

theorem Tracked.consume {id : Nat} (h : lag.Tracked clock id) {serialSeq : Int}
    (hle : watermarkBound lag.watermark ≤ serialSeq) :
    ({ lag with watermark := some serialSeq } : Lag β).Tracked clock id := by
  by_cases hidle : (lag.monitors id).sampling = .idle
  · have hpending : lag.pending id = lag.watermark := by simp [Lag.pending, hidle]
    have hafter : ({ lag with watermark := some serialSeq } : Lag β).pending id =
        some serialSeq := by
      simp [Lag.pending, hidle]
    refine h.of_sampler rfl rfl ?_ ?_
    · rw [hafter]
      exact (hpending ▸ h.pruned).mono hle
    · rw [hafter]
  · have hafter : ({ lag with watermark := some serialSeq } : Lag β).pending id =
        lag.pending id := by
      cases hsampling : (lag.monitors id).sampling with
      | idle => exact absurd hsampling hidle
      | queried | timed => simp [Lag.pending, hsampling]
    refine h.of_sampler rfl rfl ?_ ?_
    · rw [hafter]
      exact h.pruned
    · rw [hafter]
      exact h.pending.trans hle

theorem Tracked.sample {id : Nat} (h : lag.Tracked clock id) {other : Nat}
    {watermark : Option Int} {nowMs : Nat}
    (htimed : (lag.monitors other).sampling = .timed watermark nowMs)
    (samples : List LagSample) :
    ({ lag.setMonitor other
        ⟨remaining (watermarkBound watermark) (lag.monitors other).knownFiles, .idle⟩ with
      samples := samples } : Lag β).Tracked clock id := by
  by_cases hid : id = other
  · subst hid
    have hpending : lag.pending id = watermark := by simp [Lag.pending, htimed]
    have hle : watermarkBound watermark ≤ watermarkBound lag.watermark := hpending ▸ h.pending
    have hpruned : PrunedTo (watermarkBound watermark) (lag.entries clock id)
        (lag.monitors id).knownFiles := hpending ▸ h.pruned
    refine h.of_sampler rfl rfl ?_ ?_
    · simpa [setMonitor, Lag.pending] using (hpruned.prune le_rfl).mono hle
    · simp [setMonitor, Lag.pending]
  · refine h.of_sampler rfl rfl ?_ ?_
    · simpa [setMonitor, Lag.pending, hid] using h.pruned
    · simpa [setMonitor, Lag.pending, hid] using h.pending

/-- In every run, what is known is as good as all the entries there ever were. -/
theorem tracked_of_reachable {json : Option StateFile} {realMs : Nat} {watermark : Option Int}
    (hreach : Reachable (step cfg clock) (start json realMs watermark) lag) (id : Nat) :
    lag.Tracked clock id := by
  refine hreach.strengthened (fun lag ↦ lag.Tracked clock id) (tracked_start ..) ?_
  intro before action after hbefore h _ hstep
  cases action with
  | stream action =>
    obtain ⟨hadmits, next, hnext, rfl⟩ := streamStep_eq_some hstep
    have hmade := Stream.made_of_reachable ((stream_reachable hbefore).snoc hnext) id
    exact h.follow hmade hadmits hnext
  | wait ms =>
    obtain rfl := Option.some.inj hstep
    exact h.of_sampler rfl rfl h.pruned h.pending
  | consume serialSeq =>
    obtain ⟨hle, rfl⟩ := consume_eq_some hstep
    exact h.consume hle
  | query other =>
    obtain ⟨hidle, rfl⟩ := query_eq_some hstep
    exact h.setSampling (by simp [setMonitor, pending, hidle])
  | readClock other =>
    obtain ⟨asked, hqueried, rfl⟩ := readClock_eq_some hstep
    exact h.setSampling (by simp [setMonitor, pending, hqueried])
  | sample other =>
    obtain ⟨asked, nowMs, htimed, rfl⟩ := sample_eq_some hstep
    exact h.sample htimed _

/-! ### The count -/

/-- The keys of the entries are the serial seqs of the files. -/
theorem Tracked.keys {id : Nat} (h : lag.Tracked clock id) :
    (lag.entries clock id).map Prod.fst = ((lag.stream.sessions id).recovered ++
      (lag.stream.sessions id).metas.map FileMeta.file).map StagedFile.packed := by
  rw [entries, List.map_append, List.map_append, ← h.own, List.map_map, List.map_map, List.map_map]
  rfl

/-- What is left of what is known is what is left of all the entries. -/
theorem Tracked.remaining_eq {id : Nat} (h : lag.Tracked clock id) {watermark : Option Int}
    {nowMs : Nat} (htimed : (lag.monitors id).sampling = .timed watermark nowMs) :
    remaining (watermarkBound watermark) (lag.monitors id).knownFiles =
      remaining (watermarkBound watermark) (lag.entries clock id) := by
  have hpending : lag.pending id = watermark := by simp [Lag.pending, htimed]
  exact h.pruned.remaining_eq (le_of_eq (congrArg watermarkBound hpending))

theorem Tracked.complete {id : Nat} (h : lag.Tracked clock id) {watermark : Option Int}
    {nowMs : Nat} (htimed : (lag.monitors id).sampling = .timed watermark nowMs) :
    (lag.sampleOf id watermark nowMs).Complete lag.sealings := by
  constructor
  case sealed =>
    intro file hfile
    rcases List.mem_append.mp hfile with hrecovered | hsealed
    · obtain ⟨-, sealing, hsealing, rfl⟩ := h.recovered hrecovered
      exact ⟨sealing, hsealing, rfl, Or.inr hrecovered⟩
    · rw [sampleOf, ← h.own] at hsealed
      obtain ⟨sealing, hsealing, rfl⟩ := List.mem_map.mp hsealed
      obtain ⟨hmem, hsession⟩ := List.mem_filter.mp hsealing
      exact ⟨sealing, hmem, rfl, Or.inl (of_decide_eq_true hsession)⟩
  case count =>
    have hcount : (lag.sampleOf id watermark nowMs).lagFiles =
        (remaining (watermarkBound watermark) (lag.entries clock id)).length := by
      rw [← h.remaining_eq htimed, sampleOf, lagOf_eq]
    rw [hcount, length_remaining, h.keys, List.filter_map, List.length_map]
    refine congrArg List.length (List.filter_congr fun file _ ↦ ?_)
    exact (Bool.eq_iff_iff.mpr (by simp [sampleOf, aboveWatermark_iff])).symm

theorem complete_mono {sealings later : List Sealing} {sample : LagSample}
    (h : sample.Complete sealings) : sample.Complete (sealings ++ later) where
  sealed file hfile := by
    obtain ⟨sealing, hsealing, heq⟩ := h.sealed file hfile
    exact ⟨sealing, List.mem_append_left _ hsealing, heq⟩
  count := h.count

/-- Whatever the clocks say, every sample counts each file above its watermark. -/
theorem every_sample_complete {json : Option StateFile} {realMs : Nat} {watermark : Option Int}
    (hreach : Reachable (step cfg clock) (start json realMs watermark) lag) :
    ∀ sample ∈ lag.samples, sample.Complete lag.sealings := by
  refine hreach.strengthened (fun lag ↦ ∀ sample ∈ lag.samples, sample.Complete lag.sealings)
    (fun sample hsample ↦ absurd hsample List.not_mem_nil) ?_
  intro before action after hbefore hall _ hstep sample hsample
  cases action with
  | stream action =>
    obtain ⟨-, next, -, rfl⟩ := streamStep_eq_some hstep
    rw [follow_samples] at hsample
    rw [follow_sealings]
    exact complete_mono (hall sample hsample)
  | wait ms =>
    obtain rfl := Option.some.inj hstep
    exact hall sample hsample
  | consume serialSeq =>
    obtain ⟨-, rfl⟩ := consume_eq_some hstep
    exact hall sample hsample
  | query other =>
    obtain ⟨-, rfl⟩ := query_eq_some hstep
    exact hall sample hsample
  | readClock other =>
    obtain ⟨asked, -, rfl⟩ := readClock_eq_some hstep
    exact hall sample hsample
  | sample other =>
    obtain ⟨asked, nowMs, htimed, rfl⟩ := sample_eq_some hstep
    rcases List.mem_append.mp hsample with hold | hnew
    · exact hall sample hold
    · rw [List.mem_singleton.mp hnew]
      exact (tracked_of_reachable hbefore other).complete htimed

/-! ### The age -/

/-- No file that the open of `cur` recovers bears an epoch after the time it was sealed. -/
def EpochsPast (cur : Nat) (lag : Lag β) : LagAction β → Prop
  | .stream (.openReturns id _) => id = cur →
    ∀ opening ∈ (lag.stream.sessions id).opened, ∀ file ∈ opening.plan.backfill,
      ∀ sealing ∈ lag.sealings, sealing.file = file → file.epochMs ≤ sealing.atMs
  | _ => True

instance (cur : Nat) (lag : Lag β) (action : LagAction β) :
    Decidable (lag.EpochsPast cur action) := by
  unfold EpochsPast
  split <;> infer_instance

structure Stamped (cur : Nat) (lag : Lag β) : Prop where
  past : ∀ sealing ∈ lag.sealings, sealing.atMs ≤ lag.realMs
  timed : ∀ watermark nowMs, (lag.monitors cur).sampling = .timed watermark nowMs →
    nowMs ≤ lag.realMs
  recovered : ∀ file ∈ (lag.stream.sessions cur).recovered, ∀ sealing ∈ lag.sealings,
    sealing.file = file → file.epochMs ≤ sealing.atMs
  samples : ∀ sample ∈ lag.samples, sample.session = cur →
    sample.nowMs ≤ lag.realMs ∧ sample.OldEnough lag.sealings

theorem stamped_start (cur : Nat) (json : Option StateFile) (realMs : Nat)
    (watermark : Option Int) : (start json realMs watermark : Lag β).Stamped cur where
  past _ hsealing := absurd hsealing List.not_mem_nil
  timed _ _ htimed := by simp [start] at htimed
  recovered _ hfile := by simp [start, Stream.start, StreamSession.recovered] at hfile
  samples _ hsample := absurd hsample List.not_mem_nil

/-- The oldest file above the watermark has an entry at least as old. -/
theorem Stamped.oldEnough {cur : Nat} (h : lag.Stamped cur) (htracked : lag.Tracked clock cur)
    (hclock : ∀ ms, clock cur ms = ms) {watermark : Option Int} {nowMs : Nat}
    (htimed : (lag.monitors cur).sampling = .timed watermark nowMs) :
    (lag.sampleOf cur watermark nowMs).OldEnough lag.sealings := by
  intro sealing hsealing hconcerns habove
  have hentry : ∃ stamp ≤ sealing.atMs, (sealing.file.packed, stamp) ∈ lag.entries clock cur := by
    rcases hconcerns with hown | hrecovered
    · refine ⟨sealing.atMs, le_rfl, List.mem_append_right _ ?_⟩
      refine List.mem_map.mpr ⟨sealing, List.mem_filter.mpr ⟨hsealing, decide_eq_true hown⟩, ?_⟩
      rw [hclock]
    · refine ⟨sealing.file.epochMs, h.recovered _ hrecovered sealing hsealing rfl,
        List.mem_append_left _ ?_⟩
      exact List.mem_map.mpr ⟨sealing.file, hrecovered, rfl⟩
  obtain ⟨stamp, hle, hentry⟩ := hentry
  have hleft : (sealing.file.packed, stamp) ∈
      remaining (watermarkBound watermark) (lag.monitors cur).knownFiles := by
    rw [htracked.remaining_eq htimed, mem_remaining]
    exact ⟨hentry, (aboveWatermark_iff _ _).mp habove⟩
  have hstamp : stamp ∈ (remaining (watermarkBound watermark)
      (lag.monitors cur).knownFiles).map Prod.snd := List.mem_map.mpr ⟨_, hleft, rfl⟩
  calc (nowMs - sealing.atMs) / 1000
      ≤ (nowMs - stamp) / 1000 := Nat.div_le_div_right (Nat.sub_le_sub_left hle nowMs)
    _ ≤ (lag.sampleOf cur watermark nowMs).lagSeconds := by
        rw [sampleOf, lagOf_eq]
        exact age_le_oldest hstamp nowMs 1000

/-- A file sealed later is not older than an earlier sample. -/
theorem oldEnough_append {sealings later : List Sealing} {sample : LagSample}
    (h : sample.OldEnough sealings) (hlater : ∀ sealing ∈ later, sample.nowMs ≤ sealing.atMs) :
    sample.OldEnough (sealings ++ later) := by
  intro sealing hsealing hconcerns habove
  rcases List.mem_append.mp hsealing with hold | hnew
  · exact h sealing hold hconcerns habove
  · rw [Nat.sub_eq_zero_of_le (hlater sealing hnew), Nat.zero_div]
    exact Nat.zero_le _

/-- What a session has recovered after a step was sealed before it, at the epoch in its name or
later. -/
theorem Stamped.recovered_follow {cur : Nat} (h : lag.Stamped cur)
    (htracked : lag.Tracked clock cur) {action : StreamAction β} {after : Stream β}
    (hepochs : lag.EpochsPast cur (.stream action))
    (hnext : lag.stream.step cfg action = some after) {file : StagedFile}
    (hfile : file ∈ (after.sessions cur).recovered) :
    (∃ sealing ∈ lag.sealings, sealing.file = file) ∧
      ∀ sealing ∈ lag.sealings, sealing.file = file → file.epochMs ≤ sealing.atMs := by
  rcases Stream.recovered_step hnext cur with hsame | ⟨result, rfl⟩
  · rw [hsame] at hfile
    exact ⟨(htracked.recovered hfile).2, h.recovered file hfile⟩
  · obtain ⟨opening, hopened, hmem⟩ := StreamSession.mem_recovered hfile
    have hbefore : (lag.stream.sessions cur).opened = some opening := by
      rcases Stream.opened_step hnext hopened with hsame | ⟨nowMs, watermark, staged, state, heq, -⟩
      · exact hsame
      · simp at heq
    exact ⟨(htracked.opened opening hbefore file hmem).2, hepochs rfl opening hbefore file hmem⟩

theorem Stamped.follow {cur : Nat} (h : lag.Stamped cur) (htracked : lag.Tracked clock cur)
    {action : StreamAction β} {after : Stream β} (hepochs : lag.EpochsPast cur (.stream action))
    (hnext : lag.stream.step cfg action = some after) :
    (lag.follow clock after action).Stamped cur := by
  constructor
  case past =>
    intro sealing hsealing
    rw [follow_sealings] at hsealing
    rw [follow_realMs]
    rcases List.mem_append.mp hsealing with hold | hnew
    · exact h.past sealing hold
    · exact (mem_sealingsBy hnew).2.le
  case timed =>
    intro watermark nowMs htimed
    rw [follow_sampling] at htimed
    rw [follow_realMs]
    exact h.timed watermark nowMs htimed
  case recovered =>
    intro file hfile sealing hsealing heq
    rw [follow_stream] at hfile
    rw [follow_sealings] at hsealing
    obtain ⟨⟨first, hfirst, hsame⟩, hall⟩ := h.recovered_follow htracked hepochs hnext hfile
    rcases List.mem_append.mp hsealing with hold | hnew
    · exact hall sealing hold heq
    · calc file.epochMs ≤ first.atMs := hall first hfirst hsame
        _ ≤ lag.realMs := h.past first hfirst
        _ = sealing.atMs := (mem_sealingsBy hnew).2.symm
  case samples =>
    intro sample hsample hcur
    rw [follow_samples] at hsample
    rw [follow_realMs, follow_sealings]
    obtain ⟨hnow, hold⟩ := h.samples sample hsample hcur
    exact ⟨hnow, oldEnough_append hold fun sealing hnew ↦ (mem_sealingsBy hnew).2 ▸ hnow⟩

/-- A sampler goes on with its round; what the clock says is not in the future. -/
theorem Stamped.setSampling {cur : Nat} (h : lag.Stamped cur) {other : Nat} {sampling : Sampling}
    (hnow : other = cur → ∀ watermark nowMs, sampling = .timed watermark nowMs →
      nowMs ≤ lag.realMs) :
    (lag.setMonitor other { lag.monitors other with sampling := sampling }).Stamped cur where
  past := h.past
  timed watermark nowMs htimed := by
    by_cases hcur : cur = other
    · subst hcur
      simp only [setMonitor, Function.update_self] at htimed
      exact hnow rfl watermark nowMs htimed
    · simp only [setMonitor, Function.update_of_ne hcur] at htimed
      exact h.timed watermark nowMs htimed
  recovered := h.recovered
  samples := h.samples

theorem Stamped.sample {cur : Nat} (h : lag.Stamped cur) (htracked : lag.Tracked clock cur)
    (hclock : ∀ ms, clock cur ms = ms) {other : Nat} {known : List (Int × Nat)}
    {watermark : Option Int} {nowMs : Nat}
    (htimed : (lag.monitors other).sampling = .timed watermark nowMs) :
    ({ lag.setMonitor other ⟨known, .idle⟩ with
      samples := lag.samples ++ [lag.sampleOf other watermark nowMs] } : Lag β).Stamped cur := by
  constructor
  case past => exact h.past
  case recovered => exact h.recovered
  case timed =>
    intro asked now hasked
    by_cases hcur : cur = other
    · subst hcur
      simp [setMonitor] at hasked
    · simp only [setMonitor, Function.update_of_ne hcur] at hasked
      exact h.timed asked now hasked
  case samples =>
    intro sample hsample hcur
    rcases List.mem_append.mp hsample with hold | hnew
    · exact h.samples sample hold hcur
    · obtain rfl := List.mem_singleton.mp hnew
      obtain rfl : other = cur := hcur
      exact ⟨h.timed watermark nowMs htimed, h.oldEnough htracked hclock htimed⟩

/-- Whatever sessions there have been and however the steps of the samplers, the seals, the uploads
and the consumption interleave: with a correct clock of its own, and no recovered file ahead of its
seal, every sample of a session counts each file above the watermark and reports at least the age of
the oldest. -/
theorem lag_never_under_reports (cfg : Nat → WriterConfig β) (clock : Nat → Nat → Nat)
    (json : Option StateFile) (realMs : Nat) (watermark : Option Int) (cur : Nat) (lag : Lag β)
    (hclock : ∀ ms, clock cur ms = ms)
    (hreach : ReachableUnder (step cfg clock) (EpochsPast cur) (start json realMs watermark) lag) :
    ∀ sample ∈ lag.samples, sample.session = cur →
      sample.Complete lag.sealings ∧ sample.OldEnough lag.sealings := by
  have hstamped : lag.Stamped cur := by
    refine hreach.strengthened (fun lag ↦ lag.Stamped cur) (stamped_start ..) ?_
    intro before action after hbefore h hepochs hstep
    have htracked := tracked_of_reachable hbefore.reachable cur
    cases action with
    | stream action =>
      obtain ⟨-, next, hnext, rfl⟩ := streamStep_eq_some hstep
      exact h.follow htracked hepochs hnext
    | wait ms =>
      obtain rfl := Option.some.inj hstep
      exact ⟨fun sealing hsealing ↦ (h.past sealing hsealing).trans (Nat.le_add_right ..),
        fun asked nowMs htimed ↦ (h.timed asked nowMs htimed).trans (Nat.le_add_right ..),
        h.recovered, fun sample hsample hcur ↦
          ⟨(h.samples sample hsample hcur).1.trans (Nat.le_add_right ..),
            (h.samples sample hsample hcur).2⟩⟩
    | consume serialSeq =>
      obtain ⟨-, rfl⟩ := consume_eq_some hstep
      exact ⟨h.past, h.timed, h.recovered, h.samples⟩
    | query other =>
      obtain ⟨-, rfl⟩ := query_eq_some hstep
      exact h.setSampling (by simp)
    | readClock other =>
      obtain ⟨asked, -, rfl⟩ := readClock_eq_some hstep
      refine h.setSampling fun hcur watermark nowMs htimed ↦ ?_
      rw [← (Sampling.timed.inj htimed).2, hcur, hclock]
    | sample other =>
      obtain ⟨asked, nowMs, htimed, rfl⟩ := sample_eq_some hstep
      exact h.sample htracked hclock htimed
  intro sample hsample hcur
  exact ⟨every_sample_complete hreach.reachable sample hsample,
    (hstamped.samples sample hsample hcur).2⟩

/-- A session opens, finding the files given. -/
def lagOpen (id nowMs : Nat) (staged : List StagedFile) : List (LagAction RecordBatch) :=
  [.stream (.openRead id), .stream (.openDecide id nowMs none staged), .stream (.openLands id),
    .stream (.openReturns id (.ok ()))]

/-- A session stages a file and dies; the next one, whose clock is right, recovers it a second later
and takes a sample after another minute. -/
def lagHandover (aheadMs : Nat) : List (LagAction RecordBatch) :=
  lagOpen 0 (aheadMs + 1000) [] ++
    (sampleAppend 0 9 ++ sampleFlush).map (fun action ↦ .stream (.writer 0 action)) ++
    [.stream (.crash 0), .wait 1000] ++ lagOpen 1 2000 [⟨aheadMs + 1000, 0, 0, 9, false⟩] ++
    [.wait 60000, .query 1, .readClock 1, .sample 1]

/-- The clock of the first session is ahead. -/
def clockAhead (aheadMs id ms : Nat) : Nat := if id = 0 then aheadMs + ms else ms

def sampledInStep : Lag RecordBatch :=
  (run (restrict (step (fun _ ↦ sampleConfig) (clockAhead 0)) (EpochsPast 1))
    (start none 1000 none) (lagHandover 0)).getD (start none 0 none)

theorem lag_never_under_reports_inStep :
    ∃ sample ∈ sampledInStep.samples, sample.session = 1 ∧ sample.lagFiles = 1 ∧
      sample.lagSeconds = 61 ∧ sample.Complete sampledInStep.sealings ∧
        sample.OldEnough sampledInStep.sealings := by
  obtain ⟨sample, hsample, hsession, hfiles, hseconds⟩ : ∃ sample ∈ sampledInStep.samples,
      sample.session = 1 ∧ sample.lagFiles = 1 ∧ sample.lagSeconds = 61 := by decide +kernel
  refine ⟨sample, hsample, hsession, hfiles, hseconds, ?_⟩
  exact lag_never_under_reports (fun _ ↦ sampleConfig) (clockAhead 0) none 1000 none 1
    sampledInStep (fun ms ↦ rfl) (reachableUnder_getD_of_restrict .refl (by decide +kernel))
    sample hsample hsession

/-- The clock of the first session is an hour ahead. -/
def sampledAhead : Lag RecordBatch :=
  (run (step (fun _ ↦ sampleConfig) (clockAhead 3600000)) (start none 1000 none)
    (lagHandover 3600000)).getD (start none 0 none)

/-- The file that was recovered is a minute old, and the sample reports no lag. -/
theorem lag_under_reported :
    ¬ ∀ lag : Lag RecordBatch,
      Reachable (step (fun _ ↦ sampleConfig) (clockAhead 3600000)) (start none 1000 none) lag →
        ∀ sample ∈ lag.samples, sample.session = 1 → sample.OldEnough lag.sealings := by
  intro hclaim
  obtain ⟨sample, hsample, hsession, hyoung⟩ : ∃ sample ∈ sampledAhead.samples,
      sample.session = 1 ∧ ¬sample.OldEnough sampledAhead.sealings := by decide +kernel
  exact hyoung (hclaim sampledAhead (reachable_getD_of_run .refl (by decide +kernel)) sample
    hsample hsession)

end Lag

end RelytIngest
