import RelytIngest.Writer.Frames
import RelytIngest.Writer.SealedFiles

/-!
# What a writer persists

A run of `persist_state_if_due` computes a state file (`pending`) from the in-memory resume offset
and the epoch. No other step touches that offset or computes a state file (`keepsPersists`), and the
epoch only grows (`epoch_le`), so that every state file is of the session's epoch or a later one
(`ReachableFrom.le_pending`).
-/

set_option autoImplicit false
set_option relaxedAutoImplicit false

namespace RelytIngest.Writer

open Foundations Relation

variable {β : Type} {cfg : WriterConfig β} {w w' v : Writer β}

/-- The state file a run of `persist_state_if_due` has computed and not yet done with. -/
def pending (w : Writer β) (persister : Persister) : Option StateFile :=
  match w.persistPhase persister with
  | some (.rechecking state) | some (.writing state) => some state
  | some .beginning | none => none

/-- The step computes no state file and leaves the in-memory resume offset. -/
structure KeepsPersists (w w' : Writer β) : Prop where
  resume : w'.st.resumePersisted = w.st.resumePersisted
  phase : ∀ persister, w'.persistPhase persister = w.persistPhase persister ∨
    w'.pending persister = none ∧ ∀ state, w'.persistPhase persister ≠ some (.writing state)

namespace KeepsPersists

theorem of_tasks (hresume : w'.st.resumePersisted = w.st.resumePersisted)
    (hticker : w'.ticker = w.ticker) (hflushes : w'.flushes = w.flushes) : KeepsPersists w w' where
  resume := hresume
  phase persister := by
    refine Or.inl ?_
    cases persister with
    | ticker => simp only [persistPhase, hticker]
    | close id => simp only [persistPhase, hflushes]

theorem trans (h : KeepsPersists w w') (hnext : KeepsPersists w' v) : KeepsPersists w v where
  resume := hnext.resume.trans h.resume
  phase persister := by
    rcases hnext.phase persister with hsame | hnone
    · rcases h.phase persister with hsame' | ⟨hnone, hphase⟩
      · exact Or.inl (hsame.trans hsame')
      · refine Or.inr ⟨?_, fun state ↦ hsame ▸ hphase state⟩
        simpa only [pending, hsame] using hnone
    · exact Or.inr hnone

/-- The ticker goes on, short of computing a state file. -/
theorem setTicker (task : TickerTask) (htask : ∀ phase, task = .persisting phase →
    phase = .beginning) : KeepsPersists w { w with ticker := task } where
  resume := rfl
  phase persister := by
    cases persister with
    | close id => exact Or.inl rfl
    | ticker =>
      refine Or.inr ?_
      cases task with
      | persisting phase =>
        obtain rfl := htask phase rfl
        exact ⟨rfl, by simp [persistPhase]⟩
      | idle | checking | trying | holding | stopped => exact ⟨rfl, by simp [persistPhase]⟩

/-- A flush goes on, short of computing a state file. -/
theorem setFlush (id : Nat) (task : FlushTask β)
    (htask : ∀ call phase, task = .persisting call phase → phase = .beginning) :
    KeepsPersists w (w.setFlush id task) where
  resume := rfl
  phase persister := by
    cases persister with
    | ticker => exact Or.inl rfl
    | close other =>
      by_cases hid : other = id
      · subst hid
        have hself : (w.setFlush other task).flushes other = task := Function.update_self ..
        refine Or.inr ?_
        simp only [pending, persistPhase, hself]
        cases task with
        | persisting call phase =>
          obtain rfl := htask call phase rfl
          simp
        | idle | sealing | lookup | awaiting | reading | returned => simp
      · refine Or.inl ?_
        have hother : (w.setFlush id task).flushes other = w.flushes other :=
          Function.update_of_ne hid ..
        simp only [persistPhase, hother]

theorem sealReturns (result : Except Error (Option Int)) (sealer : Sealer) :
    KeepsPersists w (w.sealReturns result sealer) := by
  cases sealer with
  | append =>
    simp only [Writer.sealReturns]
    split
    · cases result <;> exact .of_tasks rfl rfl rfl
    · exact .of_tasks rfl rfl rfl
  | flush id =>
    simp only [Writer.sealReturns]
    split
    · exact .setFlush id _ (by split <;> simp)
    · exact .of_tasks rfl rfl rfl
  | ticker => exact .setTicker _ fun phase hphase ↦ (TickerTask.persisting.inj hphase).symm

theorem finish (holder : Sealer) (result : Except Error (Option Int)) :
    KeepsPersists w (w.finish holder result) := by
  refine .trans ?_ (.sealReturns result holder)
  exact .of_tasks rfl rfl rfl

theorem setWait (wait : SealWait) (sealer : Sealer) : KeepsPersists w (w.setWait wait sealer) := by
  cases sealer with
  | append =>
    simp only [Writer.setWait]
    split <;> exact .of_tasks rfl rfl rfl
  | flush id =>
    simp only [Writer.setWait]
    split
    · exact .setFlush id _ (by simp)
    · exact .of_tasks rfl rfl rfl
  | ticker => exact .setTicker _ (by simp)

theorem grant (sealer : Sealer) : KeepsPersists w (w.grant sealer) :=
  (setWait .holding sealer).trans (.of_tasks rfl rfl rfl)

end KeepsPersists

theorem rolled_resumePersisted (st : WriterState β) :
    st.rolled.resumePersisted = st.resumePersisted := by
  rw [WriterState.rolled_eq]

theorem keepsPersists_cut (holder : Sealer) (now : Nat) :
    KeepsPersists w (w.cut cfg holder now) := by
  have hresume (st : WriterState β) (hst : st.resumePersisted = w.st.resumePersisted)
      (result : Except Error (Option Int)) :
      KeepsPersists w (({ w with st := st } : Writer β).finish holder result) := by
    refine .trans ?_ (.finish holder result)
    exact .of_tasks hst rfl rfl
  unfold Writer.cut
  split
  · next hseal =>
    obtain ⟨rfl, -⟩ := WriterState.sealBuffer_error hseal
    exact hresume _ (rolled_resumePersisted _) _
  · next hseal =>
    obtain ⟨-, rfl⟩ := WriterState.sealBuffer_none hseal
    exact hresume _ rfl _
  · next hseal =>
    obtain ⟨first, rest, -, -, -, rfl⟩ := WriterState.sealBuffer_some hseal
    exact .of_tasks (rolled_resumePersisted _) rfl rfl

/-- Only the steps of `persist_state_if_due` concern the state file. -/
theorem keepsPersists {action : Action β} (hstep : w.step cfg action = some w')
    (hother :
      (action matches .persistBegin _ _ _ | .persistRecheck _ | .persistWrite _ _) = false) :
    KeepsPersists w w' := by
  cases action with
  | persistBegin | persistRecheck | persistWrite => simp at hother
  | receive | attempt | renderEnds | gzipEnds | putEnds | giveUp | calibrate | send | order
  | confirm | record | announce | land =>
    obtain ⟨-, -, hflushes, hticker, hresume⟩ := stage_frame hstep rfl
    exact .of_tasks hresume hticker hflushes
  | fence | serialViolation | notifierStops =>
    exact Option.some.inj hstep ▸ .of_tasks rfl rfl rfl
  | appendCall | appendPush | appendUnbuffer =>
    obtain ⟨-, -, hflushes, hticker, hresume⟩ := appends_frame hstep rfl
    exact .of_tasks hresume hticker hflushes
  | flushCall | flushLookup | flushAwait | flushRead =>
    obtain ⟨id, task, rfl, htask⟩ := flush_cases hstep rfl
    exact .setFlush id task htask
  | tick | tickerCheck =>
    obtain ⟨task, rfl, htask⟩ := ticker_cases hstep rfl
    exact .setTicker task htask
  | tryLock | acquire | stall =>
    cases sealer_cases hstep rfl with
    | skip | giveUp => exact .sealReturns _ _
    | park => exact .setWait _ _
    | take sealer => exact .grant sealer
    | letGo => exact .finish _ _
  | handOver now =>
    cases holder_cases hstep with
    | reserve | await | permit | close | lose | proceed => exact .of_tasks rfl rfl rfl
    | skip | yield | fail => exact .finish _ _
    | report | send =>
      refine .trans ?_ (.finish _ _)
      exact .of_tasks rfl rfl rfl
    | cut holder => exact keepsPersists_cut holder now

/-! ### The steps of a persister -/

@[simp] theorem st_setPersist (next : Option PersistPhase) (persister : Persister) :
    (w.setPersist next persister).st = w.st := by
  cases persister with
  | ticker => rfl
  | close id =>
    simp only [setPersist]
    split <;> rfl

theorem persistPhase_setPersist_self {persister : Persister} (next : Option PersistPhase)
    (hphase : (w.persistPhase persister).isSome) :
    (w.setPersist next persister).persistPhase persister = next := by
  cases persister with
  | ticker => cases next <;> rfl
  | close id =>
    simp only [persistPhase] at hphase
    split at hphase
    · next call phase hflush =>
      cases next <;> simp [setPersist, hflush, persistPhase, setFlush]
    · simp at hphase

theorem persistPhase_setPersist_of_ne {persister other : Persister} (next : Option PersistPhase)
    (hne : other ≠ persister) :
    (w.setPersist next persister).persistPhase other = w.persistPhase other := by
  cases persister with
  | ticker =>
    cases other with
    | ticker => exact absurd rfl hne
    | close id => rfl
  | close id =>
    simp only [setPersist]
    split
    · cases other with
      | ticker => rfl
      | close id' =>
        have hid : id' ≠ id := fun heq ↦ hne (congrArg Persister.close heq)
        simp [persistPhase, setFlush, Function.update_of_ne hid]
    · rfl

theorem pending_eq_of_phase {persister : Persister}
    (hphase : w'.persistPhase persister = w.persistPhase persister) :
    w'.pending persister = w.pending persister := by
  simp only [pending, hphase]

theorem persistBegin_eq_some {persister : Persister} {confirmedEnd : Option Int} {heartbeat : Bool}
    (hstep : w.persistBegin persister confirmedEnd heartbeat = some w') :
    w'.st = w.st ∧ (∀ other, other ≠ persister →
        w'.persistPhase other = w.persistPhase other) ∧
      ∀ state, w'.pending persister = some state → state.maxEpochUsed = w.st.epochMs ∧
        persistStateIfDue heartbeat confirmedEnd w.st.resumePersisted =
          some state.resumeOffset := by
  unfold persistBegin at hstep
  split at hstep
  · next hphase =>
    obtain rfl := Option.some.inj hstep
    refine ⟨st_setPersist _ _, fun other hne ↦ persistPhase_setPersist_of_ne _ hne,
      fun state hstate ↦ ?_⟩
    rw [pending, persistPhase_setPersist_self _ (by simp [hphase])] at hstate
    by_cases hfenced : w.health.fenced.isSome
    · simp [hfenced] at hstate
    · cases hdue : persistStateIfDue heartbeat confirmedEnd w.st.resumePersisted with
      | none => simp [hfenced, hdue] at hstate
      | some resume =>
        simp only [hfenced, hdue, if_false, Option.map_some, Option.some.injEq,
          Bool.false_eq_true] at hstate
        exact hstate ▸ ⟨rfl, rfl⟩
  · simp at hstep

theorem persistRecheck_eq_some {persister : Persister}
    (hstep : w.persistRecheck persister = some w') :
    w'.st = w.st ∧ (∀ other, other ≠ persister →
        w'.persistPhase other = w.persistPhase other) ∧
      ∀ state, w'.pending persister = some state → w.pending persister = some state := by
  unfold persistRecheck at hstep
  split at hstep
  · next found hphase =>
    obtain rfl := Option.some.inj hstep
    refine ⟨st_setPersist _ _, fun other hne ↦ persistPhase_setPersist_of_ne _ hne,
      fun state hstate ↦ ?_⟩
    rw [pending, persistPhase_setPersist_self _ (by simp [hphase])] at hstate
    by_cases hfenced : w.health.fenced.isSome
    · simp [hfenced] at hstate
    · simp only [hfenced, if_false, Bool.false_eq_true] at hstate
      simpa [pending, hphase] using hstate
  · simp at hstep

theorem persistWrite_eq_some {persister : Persister} {result : Except Error Unit}
    (hstep : w.persistWrite persister result = some w') :
    ∃ state, w.pending persister = some state ∧ w'.pending persister = none ∧
      w'.st.epochMs = w.st.epochMs ∧ (∀ other, other ≠ persister →
        w'.persistPhase other = w.persistPhase other) ∧
      w'.st.resumePersisted = if result.isOk then state.resumeOffset else w.st.resumePersisted := by
  unfold persistWrite at hstep
  split at hstep
  · next state hphase =>
    obtain rfl := Option.some.inj hstep
    refine ⟨state, by simp [pending, hphase], ?_, ?_, fun other hne ↦ ?_, ?_⟩
    · rw [pending, persistPhase_setPersist_self]
      split <;> exact (congrArg Option.isSome hphase).trans rfl
    · split <;> simp
    · rw [persistPhase_setPersist_of_ne _ hne]
      split <;> rfl
    · split <;> simp
  · simp at hstep

/-! ### The epoch -/

theorem rolled_epochMs_le (st : WriterState β) : st.epochMs ≤ st.rolled.epochMs := by
  unfold WriterState.rolled
  split_ifs
  · exact Nat.le_succ _
  · exact le_rfl

/-- No step takes the epoch back. -/
theorem epoch_le {action : Action β} (hstep : w.step cfg action = some w') :
    w.st.epochMs ≤ w'.st.epochMs := by
  have hmove {r r' : Rows β} (hmove : Rows.Move cfg r r') : r.st.epochMs ≤ r'.st.epochMs := by
    cases hmove with
    | cut now agedOnly sealed st hseal =>
      obtain ⟨first, rest, -, -, -, rfl⟩ := WriterState.sealBuffer_some hseal
      exact rolled_epochMs_le _
    | roll now agedOnly err st hseal =>
      obtain ⟨rfl, -⟩ := WriterState.sealBuffer_error hseal
      exact rolled_epochMs_le _
    | takeBack entry maxEndBefore err taken st hpending hunbuffer =>
      refine le_of_eq ?_
      unfold WriterState.unbuffer at hunbuffer
      split at hunbuffer
      · simp at hunbuffer
      · split at hunbuffer
        · simp at hunbuffer
        · simp only [Option.some.injEq, Prod.mk.injEq] at hunbuffer
          exact hunbuffer.2 ▸ rfl
    | refuse | check | reject | push | accept | fail | keep => exact le_rfl
  have hmoves := refines_rows w action w' trivial hstep
  show w.rows.st.epochMs ≤ w'.rows.st.epochMs
  generalize w'.rows = last at hmoves
  induction hmoves with
  | refl => exact le_rfl
  | tail _ hlast ih => exact ih.trans (hmove hlast)

/-- What is persisted in a session has its epoch at least. -/
theorem ReachableFrom.le_pending {epochMs : Nat} {stagedOffset resumePersisted : Option Int}
    (hreach : ReachableFrom cfg epochMs stagedOffset resumePersisted w) {persister : Persister}
    {state : StateFile} (hpending : w.pending persister = some state) :
    epochMs ≤ state.maxEpochUsed := by
  revert persister state
  refine ReachableUnder.strengthened
    (fun w : Writer β ↦ ∀ {persister state}, w.pending persister = some state →
      epochMs ≤ state.maxEpochUsed) ?_ ?_ hreach
  · intro persister state hpending
    cases persister <;> simp [pending, persistPhase, new] at hpending
  · intro before action after hbefore h _ hstep who state hpending
    have hold (hsame : after.pending who = before.pending who) : epochMs ≤ state.maxEpochUsed :=
      h (hsame ▸ hpending)
    cases action with
    | persistBegin persister confirmedEnd heartbeat =>
      obtain ⟨-, hother, hcomputed⟩ := persistBegin_eq_some hstep
      by_cases hwho : who = persister
      · rw [(hcomputed state (hwho ▸ hpending)).1]
        exact (ReachableFrom.rows hbefore).2.epoch_le
      · exact hold (pending_eq_of_phase (hother who hwho))
    | persistRecheck persister =>
      obtain ⟨-, hother, hsame⟩ := persistRecheck_eq_some hstep
      by_cases hwho : who = persister
      · exact h (hsame state (hwho ▸ hpending))
      · exact hold (pending_eq_of_phase (hother who hwho))
    | persistWrite persister result =>
      obtain ⟨-, -, hdone, -, hother, -⟩ := persistWrite_eq_some hstep
      by_cases hwho : who = persister
      · simp [hwho ▸ hdone] at hpending
      · exact hold (pending_eq_of_phase (hother who hwho))
    | _ =>
      rcases (keepsPersists hstep rfl).phase who with hsame | ⟨hnone, -⟩
      · exact hold (pending_eq_of_phase hsame)
      · simp [hnone] at hpending

end RelytIngest.Writer
