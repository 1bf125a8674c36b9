import RelytIngest.Writer.Frames
import RelytIngest.Writer.StageSteps

/-!
# Where the rows are

`Rows` is a writer seen as a ledger of its entries: the buffer, the files cut from it, and the
running append with the appends that returned. Its moves are a call that is refused or checked, a
push, the end of an append, a batch taken back, and a cut. `refines_rows` connects the writer to
it: whatever the stages, the flushes and the ticker do, the ledger makes a few of these moves or
none.
-/

set_option autoImplicit false
set_option relaxedAutoImplicit false

namespace RelytIngest

open Foundations Relation

/-- The errors of an append that concern its own input. -/
def Error.isRefusal : Error → Bool
  | .config _ | .schema _ => true
  | _ => false

/-- What the ledger knows of the running append. -/
inductive RowsTask (β : Type)
  | idle
  | checked (entry : Entry β)
  /-- The batch is pushed; the failure of the hand-over, once there is one. -/
  | pending (entry : Entry β) (maxEndBefore : Option Int) (failure : Option Error)

/-- A writer as a ledger of entries. -/
structure Rows (β : Type) where
  st : WriterState β
  task : RowsTask β
  calls : Nat
  pushed : List (Entry β)
  takenBack : List Nat
  cuts : List (Cut β)
  returned : List (Returned β)

/-- The part of the state that concerns the rows. -/
def WriterState.core {β : Type} (st : WriterState β) : WriterState β :=
  { st with avgRowBytes := none, inFlight := [], stagedOffset := none, resumePersisted := none }

def AppendTask.rows {β : Type} : AppendTask β → RowsTask β
  | .idle => .idle
  | .checked entry => .checked entry
  | .sealing entry maxEndBefore _ => .pending entry maxEndBefore none
  | .unbuffering entry maxEndBefore err => .pending entry maxEndBefore (some err)

/-- The ledger of a writer. -/
def Writer.rows {β : Type} (w : Writer β) : Rows β where
  st := w.st.core
  task := w.append.rows
  calls := w.trace.calls
  pushed := w.trace.pushed
  takenBack := w.trace.takenBack
  cuts := w.trace.cuts
  returned := w.trace.returned

namespace Rows

variable {β : Type} (cfg : WriterConfig β)

/-- The running append returns. -/
def returns (r : Rows β) (entry : Entry β) (maxEndBefore : Option Int)
    (result : Except Error Unit) : Rows β :=
  { r with task := .idle, returned := r.returned ++ [⟨entry, maxEndBefore, result⟩] }

/-- Everything accepted so far: the entries of the sealed files, then the buffer. -/
def kept (r : Rows β) : List (Entry β) := r.cuts.flatMap Cut.entries ++ r.st.buffered

/-- The moves of the ledger. -/
inductive Move : Rows β → Rows β → Prop
  | refuse (r : Rows β) (entry : Entry β) (err : Error) (hidle : r.task = .idle)
      (hcall : entry.call = r.calls) (herr : err.isStagingStalled = false) :
      Move r ({ r with calls := r.calls + 1 }.returns entry r.st.maxEndOffset (.error err))
  | check (r : Rows β) (entry : Entry β) (hidle : r.task = .idle) (hcall : entry.call = r.calls)
      (hrange : 0 ≤ entry.startOffset ∧ entry.startOffset ≤ entry.endOffset) :
      Move r { r with calls := r.calls + 1, task := .checked entry }
  | reject (r : Rows β) (entry : Entry β) (err : Error) (hchecked : r.task = .checked entry)
      (hcheck : r.st.checkForward entry.startOffset entry.endOffset = .error err) :
      Move r (r.returns entry r.st.maxEndOffset (.error err))
  | push (r : Rows β) (entry : Entry β) (now : Nat) (hchecked : r.task = .checked entry)
      (hcheck : r.st.checkForward entry.startOffset entry.endOffset = .ok ()) :
      Move r { r with
        st := r.st.push cfg now entry
        pushed := r.pushed ++ [entry]
        task := .pending entry r.st.maxEndOffset none }
  | accept (r : Rows β) (entry : Entry β) (maxEndBefore : Option Int)
      (hpending : r.task = .pending entry maxEndBefore none) :
      Move r (r.returns entry maxEndBefore (.ok ()))
  | fail (r : Rows β) (entry : Entry β) (maxEndBefore : Option Int) (err : Error)
      (hpending : r.task = .pending entry maxEndBefore none) (herr : err.isRefusal = false) :
      Move r { r with task := .pending entry maxEndBefore (some err) }
  | takeBack (r : Rows β) (entry : Entry β) (maxEndBefore : Option Int) (err : Error)
      (taken : Entry β) (st : WriterState β)
      (hpending : r.task = .pending entry maxEndBefore (some err))
      (hunbuffer : r.st.unbuffer cfg entry.startOffset entry.endOffset maxEndBefore =
        some (taken, st)) :
      Move r ({ r with st := st, takenBack := r.takenBack ++ [taken.call] }.returns entry
        maxEndBefore (.error err))
  | keep (r : Rows β) (entry : Entry β) (maxEndBefore : Option Int) (err : Error)
      (hpending : r.task = .pending entry maxEndBefore (some err))
      (hunbuffer : r.st.unbuffer cfg entry.startOffset entry.endOffset maxEndBefore = none) :
      Move r (r.returns entry maxEndBefore
        (if err.isStagingStalled then .ok () else .error err))
  | cut (r : Rows β) (now : Nat) (agedOnly : Bool) (sealed : Sealed β) (st : WriterState β)
      (hseal : r.st.sealBuffer cfg now agedOnly = (.ok (some sealed), st)) :
      Move r { r with st := st.core, cuts := r.cuts ++ [⟨sealed, r.st.buffered⟩] }
  | roll (r : Rows β) (now : Nat) (agedOnly : Bool) (err : Error) (st : WriterState β)
      (hseal : r.st.sealBuffer cfg now agedOnly = (.error err, st)) :
      Move r { r with st := st }

/-- The moves that begin no call and push nothing. -/
def Proceeds (r r' : Rows β) : Prop := Move cfg r r' ∧ r'.calls = r.calls ∧ r'.pushed = r.pushed

variable {cfg}

theorem proceeds_moves {r r' : Rows β} (hproceeds : ReflTransGen (Proceeds cfg) r r') :
    ReflTransGen (Move cfg) r r' ∧ r'.calls = r.calls ∧ r'.pushed = r.pushed := by
  induction hproceeds with
  | refl => exact ⟨.refl, rfl, rfl⟩
  | tail _ hlast ih =>
    exact ⟨ih.1.tail hlast.1, hlast.2.1.trans ih.2.1, hlast.2.2.trans ih.2.2⟩

end Rows

/-! ### The functions under the state lock read the core only -/

section Core

variable {β : Type} (cfg : WriterConfig β) (st : WriterState β)

theorem WriterState.unbuffer_core (startOffset endOffset : Int) (prevMaxEnd : Option Int) :
    st.core.unbuffer cfg startOffset endOffset prevMaxEnd =
      (st.unbuffer cfg startOffset endOffset prevMaxEnd).map fun r ↦ (r.1, r.2.core) := by
  simp only [unbuffer, lastOfRange, core]
  split
  · rfl
  · split <;> rfl

theorem WriterState.rolled_core : st.core.rolled = st.rolled.core := by
  by_cases hfull : MAX_SEQ < st.nextSeq <;> simp [rolled, core, hfull]

/-- A seal of the core makes the same file, and a state with the same core. -/
theorem WriterState.sealBuffer_core (now : Nat) (agedOnly : Bool) :
    (st.core.sealBuffer cfg now agedOnly).1 = (st.sealBuffer cfg now agedOnly).1 ∧
      (st.core.sealBuffer cfg now agedOnly).2.core = (st.sealBuffer cfg now agedOnly).2.core := by
  have hsealable : st.core.sealable cfg now agedOnly = st.sealable cfg now agedOnly := rfl
  have hfile (first : Entry β) (rest : List (Entry β)) :
      st.rolled.core.sealFile cfg first rest = st.rolled.sealFile cfg first rest := rfl
  simp only [sealBuffer, rolled_core, hsealable, hfile]
  simp only [core]
  split
  · exact ⟨rfl, rfl⟩
  · split
    · split <;> exact ⟨rfl, rfl⟩
    · exact ⟨rfl, rfl⟩

theorem WriterState.sealBuffer_core_error {now : Nat} {agedOnly : Bool} {err : Error}
    {after : WriterState β} (hseal : st.sealBuffer cfg now agedOnly = (.error err, after)) :
    st.core.sealBuffer cfg now agedOnly = (.error err, after.core) := by
  have herr : (st.core.sealBuffer cfg now agedOnly).1 = .error err := by
    rw [(sealBuffer_core cfg st now agedOnly).1, hseal]
  obtain ⟨hcore, -⟩ := sealBuffer_error (Prod.ext herr rfl)
  obtain ⟨rfl, -⟩ := sealBuffer_error hseal
  exact Prod.ext herr (hcore.trans st.rolled_core)

end Core

/-! ### No failure of a hand-over is a refusal -/

section Failures

theorem terminalError_isRefusal (f : Failing) : (terminalError f).isRefusal = false := by
  obtain ⟨seq, stage, attempts, permanent, cause, kind, last⟩ := f
  cases kind <;> cases cause <;> rfl

theorem Progress.stallError_isRefusal {attempts : Nat} {p : Progress} {target : Int} {err : Error}
    (hstall : p.stallError attempts target = some err) : err.isRefusal = false := by
  unfold stallError at hstall
  split at hstall
  · simp at hstall
  · split at hstall
    · simp at hstall
    · exact Option.some.inj hstall ▸ terminalError_isRefusal _

theorem Progress.pipelineGone_isRefusal (p : Progress) : p.pipelineGone.1.isRefusal = false := by
  unfold pipelineGone
  split
  · split
    · exact terminalError_isRefusal _
    · rfl
  · rfl

/-- What stops a writer is neither a refusal nor a stall. -/
theorem Writer.fatalState_kind {β : Type} {cfg : WriterConfig β} {w : Writer β} {err : Error}
    (hfatal : w.fatalState cfg = some err) :
    err.isRefusal = false ∧ err.isStagingStalled = false := by
  unfold fatalState at hfatal
  split at hfatal
  · exact Option.some.inj hfatal ▸ ⟨rfl, rfl⟩
  · exact Option.some.inj hfatal ▸ ⟨rfl, rfl⟩
  · exact Option.some.inj hfatal ▸ ⟨rfl, rfl⟩
  · split at hfatal
    · exact Option.some.inj hfatal ▸ ⟨rfl, rfl⟩
    · simp at hfatal

theorem WriterState.sealMeta_isRefusal {β : Type} {cfg : WriterConfig β} {file : StagedFile}
    {err : Error} (hmeta : sealMeta cfg file = .error err) : err.isRefusal = false := by
  simp only [sealMeta, StagedFile.serialSeq, encodeSerialSeq, StagedFile.identifier, bind,
    Except.bind] at hmeta
  split_ifs at hmeta <;>
    simp only [pure, Except.pure, reduceCtorEq, Except.error.injEq] at hmeta <;>
    exact hmeta ▸ rfl

theorem WriterState.sealBuffer_isRefusal {β : Type} {cfg : WriterConfig β}
    {st after : WriterState β} {now : Nat} {agedOnly : Bool} {err : Error}
    (hseal : st.sealBuffer cfg now agedOnly = (.error err, after)) : err.isRefusal = false := by
  obtain ⟨-, file, hmeta⟩ := sealBuffer_error hseal
  exact sealMeta_isRefusal hmeta

end Failures

/-! ### The writer makes moves of the ledger -/

namespace Writer

variable {β : Type} {cfg : WriterConfig β} {w w' : Writer β}

@[simp] theorem rows_setFlush (id : Nat) (task : FlushTask β) :
    (w.setFlush id task).rows = w.rows := rfl

@[simp] theorem rows_setPersist (next : Option PersistPhase) (persister : Persister) :
    (w.setPersist next persister).rows = w.rows := by
  cases persister with
  | ticker => rfl
  | close id =>
    simp only [setPersist]
    split <;> rfl

@[simp] theorem rows_setWait (wait : SealWait) (sealer : Sealer) :
    (w.setWait wait sealer).rows = w.rows := by
  cases sealer with
  | append =>
    simp only [setWait]
    split
    · next happend => simp [rows, AppendTask.rows, happend]
    · rfl
  | flush id =>
    simp only [setWait]
    split <;> rfl
  | ticker => rfl

@[simp] theorem rows_grant (sealer : Sealer) : (w.grant sealer).rows = w.rows :=
  rows_setWait .holding sealer

/-- The end of a hand-over ends the append that waits for it, or leaves it to take its batch
back. -/
theorem rows_sealReturns {result : Except Error (Option Int)} (sealer : Sealer)
    (hresult : ∀ err, result = .error err → err.isRefusal = false) :
    ReflTransGen (Rows.Proceeds cfg) w.rows (w.sealReturns result sealer).rows := by
  cases sealer with
  | append =>
    simp only [sealReturns]
    split
    · next entry maxEndBefore wait happend =>
      have hpending : w.rows.task = .pending entry maxEndBefore none := by
        simp [rows, AppendTask.rows, happend]
      cases result with
      | ok seq => exact .single ⟨.accept w.rows entry maxEndBefore hpending, rfl, rfl⟩
      | error err =>
        exact .single ⟨.fail w.rows entry maxEndBefore err hpending (hresult err rfl), rfl, rfl⟩
    · exact .refl
  | flush id =>
    simp only [sealReturns]
    split <;> exact .refl
  | ticker => exact .refl

theorem rows_finish {result : Except Error (Option Int)} (holder : Sealer)
    (hresult : ∀ err, result = .error err → err.isRefusal = false) :
    ReflTransGen (Rows.Proceeds cfg) w.rows (w.finish holder result).rows :=
  rows_sealReturns (w := { w with lock := none }) holder hresult

theorem rows_appendCall {batch : β} {startOffset endOffset : Int}
    (hstep : w.appendCall cfg batch startOffset endOffset = some w') :
    ReflTransGen (Rows.Move cfg) w.rows w'.rows := by
  unfold appendCall at hstep
  split at hstep
  · next happend =>
    have hidle : w.rows.task = .idle := by simp [rows, AppendTask.rows, happend]
    simp only [Option.some.injEq] at hstep
    subst hstep
    refine .single ?_
    split
    · next hfatal =>
      exact .refuse w.rows ⟨w.trace.calls, batch, startOffset, endOffset⟩ _ hidle rfl
        (fatalState_kind hfatal).2
    · split_ifs with hrange
      · exact .refuse w.rows ⟨w.trace.calls, batch, startOffset, endOffset⟩ _ hidle rfl rfl
      · exact .check w.rows ⟨w.trace.calls, batch, startOffset, endOffset⟩ hidle rfl (by
          rw [not_or, not_lt, not_lt] at hrange
          exact hrange)
      · exact .refuse w.rows ⟨w.trace.calls, batch, startOffset, endOffset⟩ _ hidle rfl rfl
  · simp at hstep

theorem rows_appendPush {now : Nat} (hstep : w.appendPush cfg now = some w') :
    ReflTransGen (Rows.Move cfg) w.rows w'.rows := by
  unfold appendPush at hstep
  split at hstep
  · next entry happend =>
    have hchecked : w.rows.task = .checked entry := by simp [rows, AppendTask.rows, happend]
    simp only [Option.some.injEq] at hstep
    subst hstep
    split
    · next err hcheck => exact .single (.reject w.rows entry err hchecked hcheck)
    · next hcheck =>
      have hpush : ReflTransGen (Rows.Move cfg) w.rows _ :=
        .single (.push w.rows entry now hchecked hcheck)
      split_ifs
      · exact hpush
      · exact hpush.tail (.accept _ entry _ rfl)
  · simp at hstep

theorem rows_appendUnbuffer (hstep : w.appendUnbuffer cfg = some w') :
    ReflTransGen (Rows.Move cfg) w.rows w'.rows := by
  unfold appendUnbuffer at hstep
  split at hstep
  · next entry maxEndBefore err happend =>
    have hpending : w.rows.task = .pending entry maxEndBefore (some err) := by
      simp [rows, AppendTask.rows, happend]
    have hcore := w.st.unbuffer_core cfg entry.startOffset entry.endOffset maxEndBefore
    simp only [Option.some.injEq] at hstep
    subst hstep
    refine .single ?_
    split
    · next taken st hunbuffer =>
      rw [hunbuffer] at hcore
      exact .takeBack w.rows entry maxEndBefore err taken st.core hpending hcore
    · next hunbuffer =>
      rw [hunbuffer] at hcore
      exact .keep w.rows entry maxEndBefore err hpending hcore
  · simp at hstep

theorem rows_cut (holder : Sealer) (now : Nat) :
    ReflTransGen (Rows.Proceeds cfg) w.rows (w.cut cfg holder now).rows := by
  unfold cut
  split
  · next err st hseal =>
    have hroll : Rows.Proceeds cfg w.rows { w.rows with st := st.core } :=
      ⟨.roll w.rows now _ err st.core (w.st.sealBuffer_core_error cfg hseal), rfl, rfl⟩
    refine .head hroll (rows_finish (w := { w with st := st }) _ ?_)
    rintro _ ⟨rfl⟩
    exact WriterState.sealBuffer_isRefusal hseal
  · next st hseal =>
    obtain ⟨-, rfl⟩ := WriterState.sealBuffer_none hseal
    exact rows_finish (w := w) _ (by simp)
  · next sealed st hseal =>
    obtain ⟨hsame, hcore⟩ := w.st.sealBuffer_core cfg now (decide (holder = .ticker))
    rw [hseal] at hsame hcore
    generalize hafter : w.st.core.sealBuffer cfg now (decide (holder = .ticker)) = after
      at hsame hcore
    have hcut : Rows.Move cfg w.rows _ :=
      .cut w.rows now _ sealed after.2 (hafter.trans (Prod.ext hsame rfl))
    rw [hcore] at hcut
    exact .single ⟨hcut, rfl, rfl⟩

theorem rows_handOver {now : Nat} (hstep : w.handOver cfg now = some w') :
    ReflTransGen (Rows.Proceeds cfg) w.rows w'.rows := by
  cases holder_cases hstep with
  | reserve | await | permit | close | lose | proceed => exact .refl
  | skip | yield => exact rows_finish _ (by simp)
  | fail holder phase err hlock hphase hfatal =>
    exact rows_finish _ (by rintro _ ⟨rfl⟩; exact (fatalState_kind hfatal).1)
  | report =>
    refine rows_finish (w := { w with progress := w.progress.pipelineGone.2 }) _ ?_
    rintro _ ⟨rfl⟩
    exact w.progress.pipelineGone_isRefusal
  | cut holder => exact rows_cut holder now
  | send holder sealed =>
    exact rows_finish (w := { w with
      pipe := { w.pipe with queue := w.pipe.queue ++ [sealed] }
      trace := { w.trace with sent := w.trace.sent ++ [sealed.fileMeta] } }) _ (by simp)

theorem rows_sealer {action : Action β} (hstep : w.step cfg action = some w')
    (hsealer : action matches .tryLock _ _ | .acquire _ | .stall _) :
    ReflTransGen (Rows.Proceeds cfg) w.rows w'.rows := by
  have hrefused {err : Error} (hstalled : w.stalled cfg = some err) :
      ∀ e, (.error err : Except Error (Option Int)) = .error e → e.isRefusal = false := by
    rintro _ ⟨rfl⟩
    exact Progress.stallError_isRefusal hstalled
  cases sealer_cases hstep hsealer with
  | skip => exact rows_sealReturns _ (by simp)
  | park => rw [rows_setWait]
  | take => rw [rows_grant]
  | giveUp sealer err hstalled => exact rows_sealReturns _ (hrefused hstalled)
  | letGo sealer err hstalled => exact rows_finish _ (hrefused hstalled)

/-- No stage touches the ledger, the seal lock or the flushes. -/
theorem stage_frame {action : Action β} (hstep : w.step cfg action = some w')
    (hstage : action matches .receive _ | .attempt _ | .renderEnds _ | .gzipEnds _ | .putEnds _ |
      .giveUp _ | .calibrate | .send _ | .order | .confirm | .record | .announce | .land) :
    w'.rows = w.rows ∧ w'.lock = w.lock ∧ w'.flushes = w.flushes ∧ w'.ticker = w.ticker ∧
      w'.st.resumePersisted = w.st.resumePersisted := by
  rcases stage_cases hstep hstage with hmove | hmove | hmove <;>
    cases hmove <;> exact ⟨rfl, rfl, rfl, rfl, rfl⟩

/-- The flushes, the ticker, the state file and the stages leave the ledger alone. -/
theorem rows_quiet {action : Action β} (hstep : w.step cfg action = some w')
    (hquiet : action matches .flushCall .. | .flushLookup _ | .flushAwait _ | .flushRead _ | .tick |
      .tickerCheck | .persistBegin .. | .persistRecheck _ | .persistWrite .. | .fence _ |
      .serialViolation _ | .notifierStops | .receive _ | .attempt _ | .renderEnds _ | .gzipEnds _ |
      .putEnds _ | .giveUp _ | .calibrate | .send _ | .order | .confirm | .record | .announce |
      .land) : w'.rows = w.rows := by
  cases action with
  | flushCall | flushLookup | flushAwait | flushRead =>
    obtain ⟨id, task, rfl, -⟩ := flush_cases hstep rfl
    rfl
  | tick | tickerCheck =>
    obtain ⟨task, rfl, -⟩ := ticker_cases hstep rfl
    rfl
  | persistBegin | persistRecheck | persistWrite =>
    obtain ⟨resume, next, persister, rfl⟩ := persist_cases hstep rfl
    exact rows_setPersist _ _
  | fence | serialViolation | notifierStops => exact Option.some.inj hstep ▸ rfl
  | receive | attempt | renderEnds | gzipEnds | putEnds | giveUp | calibrate | send | order
  | confirm | record | announce | land => exact (stage_frame hstep rfl).1
  | _ => simp at hquiet

/-- Whatever is no step of `append` itself lets the append in progress proceed, or leaves it. -/
theorem rows_proceeds {action : Action β} (hstep : w.step cfg action = some w')
    (hother : (action matches .appendCall .. | .appendPush _ | .appendUnbuffer) = false) :
    ReflTransGen (Rows.Proceeds cfg) w.rows w'.rows := by
  cases action with
  | appendCall | appendPush | appendUnbuffer => simp at hother
  | tryLock | acquire | stall => exact rows_sealer hstep rfl
  | handOver => exact rows_handOver hstep
  | _ => rw [rows_quiet hstep rfl]

/-- The writer refines the ledger. -/
theorem refines_rows : Refines (step cfg) (fun _ _ ↦ True) rows (Rows.Move cfg) := by
  intro w action w' _ hstep
  cases action with
  | appendCall => exact rows_appendCall hstep
  | appendPush => exact rows_appendPush hstep
  | appendUnbuffer => exact rows_appendUnbuffer hstep
  | _ => exact (Rows.proceeds_moves (rows_proceeds hstep rfl)).1

end Writer

end RelytIngest
