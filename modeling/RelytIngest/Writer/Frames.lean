import RelytIngest.Writer.SealLock

/-!
# What the callers leave alone

Appends, flushes, the ticker and the writes of the state file never touch the pipeline, its
progress, the health of the writer or what has happened to its files (`SamePipeline`), and short of
taking the seal lock or waiting for it they leave the lock as it is (`caller_frame`). What each kind
of caller does change is stated beside it (`appends_frame`, `flush_cases`, `ticker_cases`,
`persist_cases`).
-/

set_option autoImplicit false
set_option relaxedAutoImplicit false

namespace RelytIngest.Writer

variable {β : Type} {cfg : WriterConfig β} {w w' : Writer β}

/-- The pipeline, its progress, the health and what happened to the files are the same. -/
structure SamePipeline (w w' : Writer β) : Prop where
  pipe : w'.pipe = w.pipe
  progress : w'.progress = w.progress
  health : w'.health = w.health
  staged : w'.st.stagedOffset = w.st.stagedOffset
  inFlight : w'.st.inFlight = w.st.inFlight
  cuts : w'.trace.cuts = w.trace.cuts
  sent : w'.trace.sent = w.trace.sent
  putReturned : w'.trace.putReturned = w.trace.putReturned
  recorded : w'.trace.recorded = w.trace.recorded
  notified : w'.trace.notified = w.trace.notified

namespace SamePipeline

theorem trans {v : Writer β} (h : SamePipeline w w') (hnext : SamePipeline w' v) :
    SamePipeline w v where
  pipe := hnext.pipe.trans h.pipe
  progress := hnext.progress.trans h.progress
  health := hnext.health.trans h.health
  staged := hnext.staged.trans h.staged
  inFlight := hnext.inFlight.trans h.inFlight
  cuts := hnext.cuts.trans h.cuts
  sent := hnext.sent.trans h.sent
  putReturned := hnext.putReturned.trans h.putReturned
  recorded := hnext.recorded.trans h.recorded
  notified := hnext.notified.trans h.notified

theorem withLock (lock : Option (Holding β)) : SamePipeline w { w with lock := lock } := by
  constructor <;> rfl

theorem setPersist (next : Option PersistPhase) (persister : Persister) :
    SamePipeline w (w.setPersist next persister) := by
  cases persister with
  | ticker => constructor <;> rfl
  | close id =>
    simp only [Writer.setPersist]
    split <;> constructor <;> rfl

theorem setWait (wait : SealWait) (sealer : Sealer) : SamePipeline w (w.setWait wait sealer) := by
  cases sealer with
  | append | flush =>
    simp only [Writer.setWait]
    split <;> constructor <;> rfl
  | ticker => constructor <;> rfl

theorem grant (sealer : Sealer) : SamePipeline w (w.grant sealer) :=
  (setWait .holding sealer).trans (withLock _)

theorem sealReturns (result : Except Error (Option Int)) (sealer : Sealer) :
    SamePipeline w (w.sealReturns result sealer) := by
  cases sealer with
  | append =>
    simp only [Writer.sealReturns]
    split
    · cases result <;> constructor <;> rfl
    · constructor <;> rfl
  | flush id =>
    simp only [Writer.sealReturns]
    split <;> constructor <;> rfl
  | ticker => constructor <;> rfl

/-- The holder of the seal lock goes on, or returns. -/
theorem setPhase (holder : Sealer) (phase : SealPhase β) :
    SamePipeline w (w.setPhase holder phase) :=
  withLock _

theorem finish (holder : Sealer) (result : Except Error (Option Int)) :
    SamePipeline w (w.finish holder result) :=
  (withLock none).trans (sealReturns _ _)

end SamePipeline

/-! ### The seal lock -/

@[simp] theorem lock_setPersist (next : Option PersistPhase) (persister : Persister) :
    (w.setPersist next persister).lock = w.lock := by
  cases persister with
  | ticker => rfl
  | close id =>
    simp only [setPersist]
    split <;> rfl

@[simp] theorem lock_sealReturns (result : Except Error (Option Int)) (sealer : Sealer) :
    (w.sealReturns result sealer).lock = w.lock := by
  cases sealer with
  | append =>
    simp only [sealReturns]
    split
    · cases result <;> rfl
    · rfl
  | flush id =>
    simp only [sealReturns]
    split <;> rfl
  | ticker => rfl

@[simp] theorem lock_setWait (wait : SealWait) (sealer : Sealer) :
    (w.setWait wait sealer).lock = w.lock := by
  cases sealer with
  | append | flush =>
    simp only [setWait]
    split <;> rfl
  | ticker => rfl

/-! ### The callers' steps -/

/-- Taking a batch back touches neither the staged offset, nor the one in the state file, nor the
files in flight. -/
theorem unbuffer_frame {st st' : WriterState β} {startOffset endOffset : Int}
    {prevMaxEnd : Option Int} {taken : Entry β}
    (hunbuffer : st.unbuffer cfg startOffset endOffset prevMaxEnd = some (taken, st')) :
    st'.stagedOffset = st.stagedOffset ∧ st'.resumePersisted = st.resumePersisted ∧
      st'.inFlight = st.inFlight := by
  unfold WriterState.unbuffer at hunbuffer
  split at hunbuffer
  · simp at hunbuffer
  · split at hunbuffer
    · simp at hunbuffer
    · simp only [Option.some.injEq, Prod.mk.injEq] at hunbuffer
      exact hunbuffer.2 ▸ ⟨rfl, rfl, rfl⟩

/-- A step of `append` itself leaves the other tasks and the state file alone too. -/
theorem appends_frame {action : Action β} (hstep : w.step cfg action = some w')
    (happend : action matches .appendCall .. | .appendPush _ | .appendUnbuffer) :
    SamePipeline w w' ∧ w'.lock = w.lock ∧ w'.flushes = w.flushes ∧ w'.ticker = w.ticker ∧
      w'.st.resumePersisted = w.st.resumePersisted := by
  cases action <;> simp only [reduceCtorEq] at happend <;> simp only [step] at hstep
  case appendCall batch startOffset endOffset =>
    unfold appendCall at hstep
    split at hstep
    · obtain rfl := Option.some.inj hstep
      split
      · exact ⟨by constructor <;> rfl, rfl, rfl, rfl, rfl⟩
      · split_ifs <;> exact ⟨by constructor <;> rfl, rfl, rfl, rfl, rfl⟩
    · simp at hstep
  case appendPush now =>
    unfold appendPush at hstep
    split at hstep
    · obtain rfl := Option.some.inj hstep
      split
      · exact ⟨by constructor <;> rfl, rfl, rfl, rfl, rfl⟩
      · dsimp only
        split_ifs <;> exact ⟨by constructor <;> rfl, rfl, rfl, rfl, rfl⟩
    · simp at hstep
  case appendUnbuffer =>
    unfold appendUnbuffer at hstep
    split at hstep
    · obtain rfl := Option.some.inj hstep
      split
      · next hunbuffer =>
        obtain ⟨hstaged, hresume, hflight⟩ := unbuffer_frame hunbuffer
        exact ⟨⟨rfl, rfl, rfl, hstaged, hflight, rfl, rfl, rfl, rfl, rfl⟩, rfl, rfl, rfl, hresume⟩
      · exact ⟨by constructor <;> rfl, rfl, rfl, rfl, rfl⟩
    · simp at hstep

theorem durable_beginning (call later : FlushCall β) (phase : PersistPhase)
    (hdurable : FlushCall.durable call = .persisting later phase) : phase = .beginning := by
  unfold FlushCall.durable at hdurable
  split at hdurable
  · exact (FlushTask.persisting.inj hdurable).2.symm
  · simp at hdurable

/-- A flush goes on, short of the seal lock and of what it writes to the state file. -/
theorem flush_cases {action : Action β} (hstep : w.step cfg action = some w')
    (hflush : action matches .flushCall .. | .flushLookup _ | .flushAwait _ | .flushRead _) :
    ∃ id task, w' = w.setFlush id task ∧
      ∀ call phase, task = .persisting call phase → phase = .beginning := by
  cases action <;> simp only [reduceCtorEq] at hflush <;> simp only [step] at hstep
  case flushCall id closing =>
    unfold flushCall at hstep
    split at hstep
    · exact ⟨id, _, (Option.some.inj hstep).symm, by split <;> simp⟩
    · simp at hstep
  case flushLookup id =>
    unfold flushLookup at hstep
    split at hstep
    · refine ⟨id, _, (Option.some.inj hstep).symm, ?_⟩
      split
      · simp
      · exact durable_beginning _
    · simp at hstep
  case flushAwait id =>
    unfold flushAwait at hstep
    split at hstep
    · split_ifs at hstep
      · exact ⟨id, _, (Option.some.inj hstep).symm, durable_beginning _⟩
      · obtain ⟨err, -, rfl⟩ := Option.map_eq_some_iff.mp hstep
        exact ⟨id, _, rfl, by simp⟩
    · simp at hstep
  case flushRead id =>
    unfold flushRead at hstep
    split at hstep
    · exact ⟨id, _, (Option.some.inj hstep).symm, by simp⟩
    · simp at hstep

/-- The ticker goes on, short of the seal lock and of what it writes to the state file. -/
theorem ticker_cases {action : Action β} (hstep : w.step cfg action = some w')
    (hticker : action matches .tick | .tickerCheck) :
    ∃ task, w' = { w with ticker := task } ∧
      ∀ phase, task = .persisting phase → phase = .beginning := by
  cases action <;> simp only [reduceCtorEq] at hticker <;> simp only [step] at hstep
  case tick =>
    unfold tick at hstep
    split at hstep
    · split_ifs at hstep <;> exact ⟨_, (Option.some.inj hstep).symm, by simp⟩
    · simp at hstep
  case tickerCheck =>
    unfold tickerCheck at hstep
    split at hstep
    · split at hstep <;> exact ⟨_, (Option.some.inj hstep).symm, by simp⟩
    · simp at hstep

/-- A run of `persist_state_if_due` goes on, and may have written the state file. -/
theorem persist_cases {action : Action β} (hstep : w.step cfg action = some w')
    (hpersist : action matches .persistBegin .. | .persistRecheck _ | .persistWrite ..) :
    ∃ resume next persister,
      w' = Writer.setPersist { w with st := { w.st with resumePersisted := resume } } next
        persister := by
  cases action <;> simp only [reduceCtorEq] at hpersist <;> simp only [step] at hstep
  case persistBegin persister confirmedEnd heartbeat =>
    unfold persistBegin at hstep
    split at hstep
    · exact ⟨w.st.resumePersisted, _, persister, (Option.some.inj hstep).symm⟩
    · simp at hstep
  case persistRecheck persister =>
    unfold persistRecheck at hstep
    split at hstep
    · exact ⟨w.st.resumePersisted, _, persister, (Option.some.inj hstep).symm⟩
    · simp at hstep
  case persistWrite persister result =>
    unfold persistWrite at hstep
    split at hstep
    · next state hphase =>
      obtain rfl := Option.some.inj hstep
      split
      · exact ⟨state.resumeOffset, none, persister, rfl⟩
      · exact ⟨w.st.resumePersisted, none, persister, rfl⟩
    · simp at hstep

/-- A caller's step, short of the seal lock, leaves the lock and the pipeline alone. -/
theorem caller_frame {action : Action β} (hstep : w.step cfg action = some w')
    (hcaller : action matches .appendCall _ _ _ | .appendPush _ | .appendUnbuffer | .flushCall _ _ |
      .flushLookup _ | .flushAwait _ | .flushRead _ | .tick | .tickerCheck | .persistBegin _ _ _ |
      .persistRecheck _ | .persistWrite _ _) :
    SamePipeline w w' ∧ w'.lock = w.lock := by
  cases action with
  | appendCall | appendPush | appendUnbuffer =>
    obtain ⟨hsame, hlock, -⟩ := appends_frame hstep rfl
    exact ⟨hsame, hlock⟩
  | flushCall | flushLookup | flushAwait | flushRead =>
    obtain ⟨id, task, rfl, -⟩ := flush_cases hstep rfl
    exact ⟨by constructor <;> rfl, rfl⟩
  | tick | tickerCheck =>
    obtain ⟨task, rfl, -⟩ := ticker_cases hstep rfl
    exact ⟨by constructor <;> rfl, rfl⟩
  | persistBegin | persistRecheck | persistWrite =>
    obtain ⟨resume, next, persister, rfl⟩ := persist_cases hstep rfl
    exact ⟨.trans (by constructor <;> rfl) (.setPersist _ _), lock_setPersist _ _⟩
  | _ => simp at hcaller

/-- Taking the seal lock, or giving up on it, leaves the pipeline alone. -/
theorem locker_frame {action : Action β} (hstep : w.step cfg action = some w')
    (hlocker : action matches .tryLock _ _ | .acquire _ | .stall _) : SamePipeline w w' := by
  cases sealer_cases hstep hlocker with
  | skip | giveUp => exact .sealReturns _ _
  | park => exact .setWait _ _
  | take sealer => exact .grant sealer
  | letGo => exact .finish _ _

end RelytIngest.Writer
