import RelytIngest.Writer.Frames
import RelytIngest.Writer.StageSteps

/-!
# The occupancy of the pipeline

`Writer.occupancy` counts the sealed files in memory, in the seal channel, in the hands of a stage
or in the slot between two stages, and the queue room the holder of the seal lock has reserved. What
bounds it is what bounds each channel (`Slotted`): a file enters the seal channel through room
reserved for it, and a stage hands a file over only into an empty slot.

`occupancy_bounded` is the bound in every reachable state, and says that the buffer is cut only with
room reserved.
-/

set_option autoImplicit false
set_option relaxedAutoImplicit false

namespace RelytIngest

open Foundations

/-- The number of files the task holds: a task that has ended holds none. -/
def Stage.occupancy {ι φ : Type} : Stage ι φ → Nat
  | .receiving | .exited _ => 0
  | .attempt _ _ | .running _ _ | .rejected _ _ | .between _ => 1

theorem Stage.occupancy_le {ι φ : Type} (stage : Stage ι φ) : stage.occupancy ≤ 1 := by
  cases stage <;> simp [Stage.occupancy]

/-- The queue room reserved in a phase of the hand-over: until the file is sent the permit is there.
-/
def SealPhase.reserved {β : Type} : SealPhase β → Nat
  | .permitted | .cutting | .sending _ => 1
  | .entered | .reserving | .awaitingRoom | .closed | .gone => 0

namespace Writer

variable {β : Type} {cfg : WriterConfig β} {w w' : Writer β}

/-- The queue room reserved and not used. -/
def reserved (w : Writer β) : Nat := w.lock.elim 0 fun holding ↦ holding.phase.reserved

/-- The sealed files in memory, and the room reserved for one more. -/
def occupancy (w : Writer β) : Nat :=
  w.pipe.queue.length + w.reserved + w.pipe.render.occupancy + w.pipe.toGzip.length +
    w.pipe.gzip.occupancy + w.pipe.toPut.length + w.pipe.put.occupancy

/-- No channel holds more than it has room for. -/
structure Slotted (cfg : WriterConfig β) (w : Writer β) : Prop where
  queue : w.pipe.queue.length + w.reserved ≤ cfg.queueDepth
  toGzip : w.pipe.toGzip.length ≤ 1
  toPut : w.pipe.toPut.length ≤ 1

/-! ### What the steps do to the channels -/

/-- The seal lock, the channels and the files cut are the same. -/
structure SameSlots (w w' : Writer β) : Prop where
  lock : w'.lock = w.lock
  cuts : w'.trace.cuts = w.trace.cuts
  queue : w'.pipe.queue = w.pipe.queue
  toGzip : w'.pipe.toGzip = w.pipe.toGzip
  toPut : w'.pipe.toPut = w.pipe.toPut

theorem SamePipeline.sameSlots (h : SamePipeline w w') (hlock : w'.lock = w.lock) :
    SameSlots w w' where
  lock := hlock
  cuts := h.cuts
  queue := congrArg Pipeline.queue h.pipe
  toGzip := congrArg Pipeline.toGzip h.pipe
  toPut := congrArg Pipeline.toPut h.pipe

theorem SameSlots.slotted (h : SameSlots w w') (hslotted : w.Slotted cfg) : w'.Slotted cfg where
  queue := by
    rw [reserved, h.lock, h.queue]
    exact hslotted.queue
  toGzip := h.toGzip ▸ hslotted.toGzip
  toPut := h.toPut ▸ hslotted.toPut

/-- A stage takes a file out of its channel, hands one over into an empty slot, or works on its
own. -/
theorem slotted_stage {action : Action β} (h : w.Slotted cfg)
    (hstep : w.step cfg action = some w')
    (hstage : action matches .receive _ | .attempt _ | .renderEnds _ | .gzipEnds _ | .putEnds _ |
      .giveUp _ | .calibrate | .send _ | .order | .confirm | .record | .announce | .land) :
    w'.Slotted cfg ∧ w'.trace.cuts = w.trace.cuts := by
  have hqueue := h.queue
  have htoGzip := h.toGzip
  have htoPut := h.toPut
  rcases stage_cases hstep hstage with hmove | hmove | hmove
  · cases hmove with
    | take file rest hrender hfiles =>
      rw [hfiles, List.length_cons] at hqueue
      refine ⟨⟨?_, htoGzip, htoPut⟩, rfl⟩
      show rest.length + w.reserved ≤ cfg.queueDepth
      omega
    | send => exact ⟨⟨hqueue, le_rfl, htoPut⟩, rfl⟩
    | drop | run | pass | fail | giveUp | calibrate | lose =>
      exact ⟨⟨hqueue, htoGzip, htoPut⟩, rfl⟩
  · cases hmove with
    | take file rest hgzip hfiles | skip file rest hgzip hfiles =>
      rw [hfiles, List.length_cons] at htoGzip
      exact ⟨⟨hqueue, Nat.le_of_succ_le htoGzip, htoPut⟩, rfl⟩
    | send => exact ⟨⟨hqueue, htoGzip, le_rfl⟩, rfl⟩
    | close | drop | run | pass | fail | giveUp | lose =>
      exact ⟨⟨hqueue, htoGzip, htoPut⟩, rfl⟩
  · cases hmove with
    | take file rest hput hfiles =>
      rw [hfiles, List.length_cons] at htoPut
      exact ⟨⟨hqueue, htoGzip, Nat.le_of_succ_le htoPut⟩, rfl⟩
    | close | dropUnordered | order | trip | drop | run | pass | fail | giveUp | dropReturned
    | confirm | record | announce | land => exact ⟨⟨hqueue, htoGzip, htoPut⟩, rfl⟩

/-! ### Reserved room -/

section Reserved

/-- Whoever takes the seal lock, waits for it or gives it up has reserved nothing. -/
theorem slotted_of_unreserved (h : SamePipeline w w') (hslotted : w.Slotted cfg)
    (hreserved : w'.reserved = 0 ∨ w'.reserved = w.reserved) : w'.Slotted cfg := by
  have hqueue := hslotted.queue
  refine ⟨?_, ?_, ?_⟩
  · rw [h.pipe]
    omega
  · rw [h.pipe]
    exact hslotted.toGzip
  · rw [h.pipe]
    exact hslotted.toPut

theorem reserved_grant (sealer : Sealer) : (w.grant sealer).reserved = 0 := by
  by_cases hticker : sealer = .ticker <;> simp [reserved, grant, hticker, SealPhase.reserved]

theorem reserved_finish (holder : Sealer) (result : Except Error (Option Int)) :
    (w.finish holder result).reserved = 0 := by
  simp [reserved, finish]

theorem slotted_locker {action : Action β} (h : w.Slotted cfg)
    (hstep : w.step cfg action = some w')
    (hlocker : action matches .tryLock _ _ | .acquire _ | .stall _) : w'.Slotted cfg := by
  refine slotted_of_unreserved (locker_frame hstep hlocker) h ?_
  cases sealer_cases hstep hlocker with
  | skip | giveUp => exact .inr (by rw [reserved, lock_sealReturns, reserved])
  | park => exact .inr (by rw [reserved, lock_setWait, reserved])
  | take sealer => exact .inl (reserved_grant sealer)
  | letGo => exact .inl (reserved_finish _ _)

/-- The buffer is cut with room reserved, and the room goes with the file. -/
theorem slotted_cut {holder : Sealer} {now : Nat} (h : w.Slotted cfg)
    (hlock : w.lock = some ⟨holder, .cutting⟩) : (w.cut cfg holder now).Slotted cfg := by
  have hreserved : w.reserved = 1 := by rw [reserved, hlock]; rfl
  have hqueue := h.queue
  rw [hreserved] at hqueue
  have hfinish (st : WriterState β) (result : Except Error (Option Int)) :
      (({ w with st := st } : Writer β).finish holder result).Slotted cfg := by
    have hframe := SamePipeline.finish (w := { w with st := st }) holder result
    refine ⟨?_, ?_, ?_⟩
    · rw [reserved_finish, hframe.pipe]
      show w.pipe.queue.length + 0 ≤ cfg.queueDepth
      omega
    · rw [hframe.pipe]
      exact h.toGzip
    · rw [hframe.pipe]
      exact h.toPut
  unfold cut
  split
  · exact hfinish _ _
  · exact hfinish _ _
  · exact ⟨hqueue, h.toGzip, h.toPut⟩

theorem slotted_handOver {now : Nat} (h : w.Slotted cfg) (hstep : w.handOver cfg now = some w') :
    w'.Slotted cfg ∧
      (w'.trace.cuts = w.trace.cuts ∨ ∃ holder, w.lock = some ⟨holder, .cutting⟩) := by
  have hqueue := h.queue
  have hreturns (holder : Sealer) (result : Except Error (Option Int)) :
      (w.finish holder result).Slotted cfg ∧
        (w.finish holder result).trace.cuts = w.trace.cuts := by
    have hframe := SamePipeline.finish (w := w) holder result
    exact ⟨slotted_of_unreserved hframe h (.inl (reserved_finish _ _)), hframe.cuts⟩
  have hgoes (holder : Sealer) (phase : SealPhase β)
      (hroom : w.pipe.queue.length + phase.reserved ≤ cfg.queueDepth) :
      (w.setPhase holder phase).Slotted cfg ∧
        (w.setPhase holder phase).trace.cuts = w.trace.cuts :=
    ⟨⟨hroom, h.toGzip, h.toPut⟩, rfl⟩
  have hunreserved : w.pipe.queue.length + 0 ≤ cfg.queueDepth := by omega
  cases holder_cases hstep with
  | skip | yield | fail => exact (hreturns _ _).imp_right .inl
  | reserve holder => exact (hgoes holder .reserving hunreserved).imp_right .inl
  | await holder => exact (hgoes holder .awaitingRoom hunreserved).imp_right .inl
  | close holder => exact (hgoes holder .closed hunreserved).imp_right .inl
  | lose holder => exact (hgoes holder .gone hunreserved).imp_right .inl
  | permit holder phase next hlock hphase hnext hrender hroom =>
    rcases hnext with rfl | rfl
    · exact (hgoes holder .permitted hroom).imp_right .inl
    · exact (hgoes holder .cutting hroom).imp_right .inl
  | proceed holder hlock =>
    have hreserved : w.reserved = 1 := by rw [reserved, hlock]; rfl
    rw [hreserved] at hqueue
    exact (hgoes holder .cutting hqueue).imp_right .inl
  | report holder =>
    have hframe := SamePipeline.finish (w := { w with progress := w.progress.pipelineGone.2 })
      holder (.error w.progress.pipelineGone.1)
    refine ⟨⟨?_, ?_, ?_⟩, .inl hframe.cuts⟩
    · rw [reserved_finish, hframe.pipe]
      exact hunreserved
    · rw [hframe.pipe]
      exact h.toGzip
    · rw [hframe.pipe]
      exact h.toPut
  | cut holder hlock => exact ⟨slotted_cut h hlock, .inr ⟨holder, hlock⟩⟩
  | send holder sealed hlock =>
    have hreserved : w.reserved = 1 := by rw [reserved, hlock]; rfl
    have hframe := SamePipeline.finish
      (w := { w with
        pipe := { w.pipe with queue := w.pipe.queue ++ [sealed] }
        trace := { w.trace with sent := w.trace.sent ++ [sealed.fileMeta] } })
      holder (.ok (some sealed.fileMeta.serialSeq))
    refine ⟨⟨?_, ?_, ?_⟩, .inl hframe.cuts⟩
    · rw [reserved_finish, hframe.pipe, List.length_append, List.length_singleton]
      omega
    · rw [hframe.pipe]
      exact h.toGzip
    · rw [hframe.pipe]
      exact h.toPut

end Reserved

/-- A step keeps the channels within their room, and cuts the buffer only with room reserved. -/
theorem slotted_step {action : Action β} (h : w.Slotted cfg)
    (hstep : w.step cfg action = some w') :
    w'.Slotted cfg ∧
      (w'.trace.cuts = w.trace.cuts ∨ ∃ holder, w.lock = some ⟨holder, .cutting⟩) := by
  cases action with
  | appendCall | appendPush | appendUnbuffer | flushCall | flushLookup | flushAwait | flushRead
  | tick | tickerCheck | persistBegin | persistRecheck | persistWrite =>
    obtain ⟨hsame, hlock⟩ := caller_frame hstep rfl
    have hslots := hsame.sameSlots hlock
    exact ⟨hslots.slotted h, .inl hslots.cuts⟩
  | tryLock | acquire | stall =>
    exact ⟨slotted_locker h hstep rfl, .inl (locker_frame hstep rfl).cuts⟩
  | handOver => exact slotted_handOver h hstep
  | receive | attempt | renderEnds | gzipEnds | putEnds | giveUp | calibrate | send | order
  | confirm | record | announce | land => exact (slotted_stage h hstep rfl).imp_right .inl
  | fence | serialViolation | notifierStops =>
    have hslots : SameSlots w w' := Option.some.inj hstep ▸ ⟨rfl, rfl, rfl, rfl, rfl⟩
    exact ⟨hslots.slotted h, .inl hslots.cuts⟩

theorem ReachableFrom.slotted {epochMs : Nat} {stagedOffset resumePersisted : Option Int}
    (hreach : ReachableFrom cfg epochMs stagedOffset resumePersisted w) : w.Slotted cfg := by
  have hstart : (new epochMs stagedOffset resumePersisted : Writer β).Slotted cfg :=
    ⟨Nat.zero_le _, Nat.zero_le _, Nat.zero_le _⟩
  exact hreach.invariant hstart fun _ _ _ h hstep ↦ (slotted_step h hstep).1

/-- The occupancy bound of a pipeline whose queue has room for `depth` files. -/
structure OccupancyBounded (cfg : WriterConfig β) (depth : Nat) (w : Writer β) : Prop where
  pipeline : w.occupancy ≤ depth + 5
  /-- The rows still in the buffer are one file more. -/
  withBuffer : w.occupancy + (if w.st.buffered = [] then 0 else 1) ≤ depth + 6
  /-- The buffer is cut only when there is room reserved in the queue. -/
  reservedFirst : ∀ (action : Action β) (w' : Writer β), w.step cfg action = some w' →
    w'.trace.cuts ≠ w.trace.cuts → w.reserved = 1 ∧ w.pipe.queue.length < depth

/-- However appends, flushes, the ticker and the stages take turns, the pipeline holds at most five
files more than its queue has room for. -/
theorem occupancy_bounded (cfg : WriterConfig β) (hdepth : 1 ≤ cfg.rotationQueueDepth) (epochMs : Nat)
    (stagedOffset resumePersisted : Option Int)
    (hreach : ReachableFrom cfg epochMs stagedOffset resumePersisted w) :
    w.OccupancyBounded cfg cfg.rotationQueueDepth := by
  have hslotted := hreach.slotted
  have hcapacity : cfg.queueDepth = cfg.rotationQueueDepth := max_eq_left hdepth
  have hpipeline : w.occupancy ≤ cfg.rotationQueueDepth + 5 := by
    have hqueue := hslotted.queue
    have hgzip := hslotted.toGzip
    have hput := hslotted.toPut
    have hstages := w.pipe.render.occupancy_le
    have hstages' := w.pipe.gzip.occupancy_le
    have hstages'' := w.pipe.put.occupancy_le
    simp only [occupancy]
    omega
  refine ⟨hpipeline, ?_, fun action w' hstep hcuts ↦ ?_⟩
  · split_ifs <;> omega
  · obtain ⟨holder, hlock⟩ := (slotted_step hslotted hstep).2.resolve_left hcuts
    have hreserved : w.reserved = 1 := by rw [reserved, hlock]; rfl
    have hqueue := hslotted.queue
    exact ⟨hreserved, by omega⟩

/-- A writer with a file in each channel, a file in the hands of each stage, and rows in its
buffer. -/
def crowded : Writer RecordBatch :=
  (run (step sampleConfig) (new 1 none none)
    (sampleSeal 0 0 9 ++ sampleRender ++ [.receive .gzip, .send .gzip, .receive .put] ++
      sampleSeal 1 10 19 ++ sampleRender ++ [.receive .gzip, .send .gzip] ++
      sampleSeal 2 20 29 ++ sampleRender ++ [.receive .gzip] ++
      sampleSeal 3 30 39 ++ sampleRender ++ sampleSeal 4 40 49 ++ [.receive .render] ++
      sampleSeal 5 50 59 ++ sampleAppend 60 69)).getD flushed

/-- It holds as much as any writer may. -/
theorem occupancy_bounded_crowded :
    crowded.occupancy = 6 ∧ crowded.st.buffered ≠ [] ∧ crowded.OccupancyBounded sampleConfig 1 :=
  ⟨by decide +kernel, by decide +kernel,
    occupancy_bounded sampleConfig (by decide) 1 none none
      (reachable_getD_of_run .refl (by decide +kernel))⟩

end Writer

end RelytIngest
