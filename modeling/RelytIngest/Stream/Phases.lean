import RelytIngest.Stream.StateObject
import RelytIngest.Writer.StoppedForGood

/-!
# The phases of a session

`PhaseChange` is what one step of a stream can make of the phase of a session (`phase_step`), and
`Superseded` what a session is before another one takes over: it has ended or is fenced, and stays
so (`superseded_step`).
-/

set_option autoImplicit false
set_option relaxedAutoImplicit false

namespace RelytIngest

open Foundations Relation

/-- The session has ended, or its writer is fenced. -/
def StreamSession.Superseded {β : Type} (session : StreamSession β) : Prop :=
  session.alive = false ∨ (∃ err, session.phase = .failed err) ∨
    ∃ opening w, session.phase = .running opening w ∧ w.health.fenced.isSome

instance {β : Type} (session : StreamSession β) : Decidable session.Superseded :=
  decidable_of_iff (session.alive = false ∨ (match session.phase with
    | .failed _ => true
    | .running _ w => w.health.fenced.isSome
    | _ => false) = true) (by
    unfold StreamSession.Superseded
    cases session.phase <;> simp)

/-- A fenced writer stays fenced. -/
theorem Writer.fenced_step {β : Type} {cfg : WriterConfig β} {w w' : Writer β} {action : Action β}
    (hline : w.LineOrdered) (hstep : w.step cfg action = some w')
    (hfenced : w.health.fenced.isSome) :
    w'.health.fenced.isSome := by
  rcases (reflGen_iff ..).mp (watch_step hline hstep) with hsame | hmove
  · have : w'.watch.fenced = w.watch.fenced := congrArg Watch.fenced hsame
    exact this.trans hfenced
  · exact hmove.flags.2.1 hfenced

/-- The session that takes the step. -/
def StreamAction.session {β : Type} : StreamAction β → Nat
  | .openRead id | .openDecide id _ _ _ | .openLands id | .openReturns id _ | .writer id _
  | .persistLands id _ | .crash id => id

namespace Stream

variable {β : Type} {cfg : Nat → WriterConfig β} {s s' : Stream β} {json : Option StateFile}

/-- What a step can make of the phase of a session. -/
inductive PhaseChange (cfg : Nat → WriterConfig β) (s : Stream β) (id : Nat) :
    StreamAction β → SessionPhase β → SessionPhase β → Prop
  | same (action : StreamAction β) (phase : SessionPhase β) :
      PhaseChange cfg s id action phase phase
  | read : PhaseChange cfg s id (.openRead id) .unopened (.reading s.json)
  | decided (nowMs : Nat) (watermark : Option Int) (staged : List StagedFile)
      (state : Option StateFile) (opening : Opening)
      (hopen : openDecisions nowMs state watermark staged = .ok opening) :
      PhaseChange cfg s id (.openDecide id nowMs watermark staged) (.reading state)
        (.opening opening)
  | refused (nowMs : Nat) (watermark : Option Int) (staged : List StagedFile)
      (state : Option StateFile) (err : Error) :
      PhaseChange cfg s id (.openDecide id nowMs watermark staged) (.reading state) (.failed err)
  | returned (opening : Opening) :
      PhaseChange cfg s id (.openReturns id (.ok ())) (.opening opening) (.running opening
        (.new opening.epoch (recoveredOffset opening.plan.kafkaResumeOffset)
          opening.newState.resumeOffset))
  | failed (result : Except Error Unit) (opening : Opening) (err : Error) :
      PhaseChange cfg s id (.openReturns id result) (.opening opening) (.failed err)
  | stepped (action : Action β) (opening : Opening) (w w' : Writer β)
      (hnext : w.step (cfg id) action = some w') :
      PhaseChange cfg s id (.writer id action) (.running opening w) (.running opening w')

/-- A session is as it was, or it is the one whose session changed. -/
theorem phase_setSession {action : StreamAction β} {id : Nat} {session : StreamSession β}
    (hchange : PhaseChange cfg s id action (s.sessions id).phase session.phase) (other : Nat) :
    PhaseChange cfg s other action (s.sessions other).phase
      ((s.setSession id session).sessions other).phase := by
  by_cases hother : other = id
  · subst hother
    simpa [setSession] using hchange
  · simpa [setSession, hother] using .same action _

theorem phase_setSession_same {action : StreamAction β} {id : Nat} {session : StreamSession β}
    (hphase : session.phase = (s.sessions id).phase) (other : Nat) :
    PhaseChange cfg s other action (s.sessions other).phase
      ((s.setSession id session).sessions other).phase :=
  phase_setSession (hphase ▸ .same action _) other

theorem phase_step {action : StreamAction β} (hstep : step cfg s action = some s') (id : Nat) :
    PhaseChange cfg s id action (s.sessions id).phase (s'.sessions id).phase := by
  cases action with
  | openRead other =>
    obtain ⟨hphase, rfl⟩ := openRead_eq_some hstep
    exact phase_setSession (hphase ▸ .read) id
  | openDecide other nowMs watermark staged =>
    obtain ⟨state, hphase, ⟨opening, hopen, rfl⟩ | ⟨err, rfl⟩⟩ := openDecide_eq_some hstep
    · exact phase_setSession (hphase ▸ .decided nowMs watermark staged state opening hopen) id
    · exact phase_setSession (hphase ▸ .refused nowMs watermark staged state err) id
  | openLands other =>
    obtain ⟨opening, -, -, rfl⟩ := openLands_eq_some hstep
    exact phase_setSession_same (by rfl) id
  | openReturns other result =>
    cases result with
    | ok =>
      obtain ⟨opening, hphase, ⟨version, -, rfl⟩ | ⟨err, rfl⟩⟩ := openReturns_eq_some hstep
      · exact phase_setSession (hphase ▸ .returned opening) id
      · exact phase_setSession (hphase ▸ .failed _ opening err) id
    | error cause =>
      simp only [step, openReturns] at hstep
      split at hstep
      · next opening hphase =>
        split_ifs at hstep
        obtain rfl := Option.some.inj hstep
        exact phase_setSession (hphase ▸ .failed _ opening cause) id
      · simp at hstep
  | writer other writerAction =>
    obtain ⟨opening, w, next, session, hphase, hnext, hsession, rfl⟩ := writer_eq_some hstep
    refine phase_setSession ?_ id
    rw [hphase, (afterStep_eq_some hsession).1]
    exact .stepped writerAction opening w next hnext
  | persistLands other persister =>
    obtain ⟨opening, w, state, -, -, -, rfl⟩ := persistLands_eq_some hstep
    exact phase_setSession_same (by rfl) id
  | crash other =>
    obtain rfl := Option.some.inj hstep
    exact phase_setSession_same (by rfl) id

/-- What a session has decided to open with it had decided before, or decides now. -/
theorem opened_step {action : StreamAction β} (hstep : step cfg s action = some s') {id : Nat}
    {opening : Opening} (hopened : (s'.sessions id).opened = some opening) :
    (s.sessions id).opened = some opening ∨ ∃ nowMs watermark staged state,
      action = .openDecide id nowMs watermark staged ∧ (s.sessions id).phase = .reading state ∧
        openDecisions nowMs state watermark staged = .ok opening := by
  have hchange := phase_step hstep id
  unfold StreamSession.opened at hopened ⊢
  generalize (s.sessions id).phase = before, (s'.sessions id).phase = after at hchange hopened
  cases hchange with
  | same => exact Or.inl hopened
  | read | refused | failed => simp at hopened
  | decided nowMs watermark staged state other hopen =>
    obtain rfl := Option.some.inj hopened
    exact Or.inr ⟨nowMs, watermark, staged, state, rfl, rfl, hopen⟩
  | returned | stepped => exact Or.inl hopened

/-- A step leaves the sessions that do not take it. -/
theorem sessions_step {action : StreamAction β} (hstep : step cfg s action = some s') {id : Nat}
    (hid : id ≠ action.session) : s'.sessions id = s.sessions id := by
  have hsame (session : StreamSession β) :
      (s.setSession action.session session).sessions id = s.sessions id :=
    Function.update_of_ne hid ..
  cases action with
  | openRead other =>
    obtain ⟨-, rfl⟩ := openRead_eq_some hstep
    exact hsame _
  | openDecide other nowMs watermark staged =>
    obtain ⟨state, -, ⟨opening, -, rfl⟩ | ⟨err, rfl⟩⟩ := openDecide_eq_some hstep <;> exact hsame _
  | openLands other =>
    obtain ⟨opening, -, -, rfl⟩ := openLands_eq_some hstep
    exact hsame _
  | openReturns other result =>
    obtain ⟨opening, -, ⟨version, -, rfl⟩ | ⟨err, rfl⟩⟩ := openReturns_eq_some hstep <;>
      exact hsame _
  | writer other writerAction =>
    obtain ⟨opening, w, next, session, -, -, -, rfl⟩ := writer_eq_some hstep
    exact hsame _
  | persistLands other persister =>
    obtain ⟨opening, w, state, -, -, -, rfl⟩ := persistLands_eq_some hstep
    exact hsame _
  | crash other =>
    obtain rfl := Option.some.inj hstep
    exact hsame _

/-- A session ends by a crash only. -/
theorem alive_step {action : StreamAction β} (hstep : step cfg s action = some s') (id : Nat) :
    (s'.sessions id).alive = (s.sessions id).alive ∨
      action = .crash id ∧ (s'.sessions id).alive = false := by
  have hkeeps {other : Nat} {session : StreamSession β}
      (halive : session.alive = (s.sessions other).alive) :
      ((s.setSession other session).sessions id).alive = (s.sessions id).alive := by
    by_cases hid : id = other
    · subst hid
      simpa [setSession] using halive
    · simp [setSession, hid]
  cases action with
  | openRead other =>
    obtain ⟨-, rfl⟩ := openRead_eq_some hstep
    exact Or.inl (hkeeps rfl)
  | openDecide other nowMs watermark staged =>
    obtain ⟨state, -, ⟨opening, -, rfl⟩ | ⟨err, rfl⟩⟩ := openDecide_eq_some hstep <;>
      exact Or.inl (hkeeps rfl)
  | openLands other =>
    obtain ⟨opening, -, -, rfl⟩ := openLands_eq_some hstep
    exact Or.inl (hkeeps rfl)
  | openReturns other result =>
    obtain ⟨opening, -, ⟨version, -, rfl⟩ | ⟨err, rfl⟩⟩ := openReturns_eq_some hstep <;>
      exact Or.inl (hkeeps rfl)
  | writer other writerAction =>
    obtain ⟨opening, w, next, session, -, -, hsession, rfl⟩ := writer_eq_some hstep
    refine Or.inl (hkeeps ?_)
    unfold afterStep at hsession
    split at hsession
    · exact Option.some.inj hsession ▸ rfl
    · split_ifs at hsession
      · obtain ⟨version, -, rfl⟩ := Option.map_eq_some_iff.mp hsession
        rfl
      · exact Option.some.inj hsession ▸ rfl
    · exact Option.some.inj hsession ▸ rfl
  | persistLands other persister =>
    obtain ⟨opening, w, state, -, -, -, rfl⟩ := persistLands_eq_some hstep
    exact Or.inl (hkeeps rfl)
  | crash other =>
    obtain rfl := Option.some.inj hstep
    by_cases hid : id = other
    · subst hid
      exact Or.inr ⟨rfl, by simp [setSession]⟩
    · exact Or.inl (by simp [setSession, hid])

/-- A step of a writer is one of a session that has not ended. -/
theorem alive_of_writer {id : Nat} {action : Action β}
    (hstep : s.writer cfg id action = some s') : (s.sessions id).alive = true := by
  unfold writer at hstep
  split at hstep
  · by_contra halive
    simp [halive] at hstep
  · simp at hstep

/-- An open that decides has not ended. -/
theorem alive_of_openDecide {id nowMs : Nat} {watermark : Option Int} {staged : List StagedFile}
    (hstep : s.openDecide id nowMs watermark staged = some s') : (s.sessions id).alive = true := by
  unfold openDecide at hstep
  split at hstep
  · by_contra halive
    simp [halive] at hstep
  · simp at hstep

theorem superseded_step (hmade : ∀ id, (s.sessions id).Made (cfg id)) {action : StreamAction β}
    (hstep : step cfg s action = some s') {id : Nat} (h : (s.sessions id).Superseded) :
    (s'.sessions id).Superseded := by
  rcases h with hended | ⟨err, hfailed⟩ | ⟨opening, w, hrunning, hfenced⟩
  · refine Or.inl ?_
    rcases alive_step hstep id with hsame | ⟨-, hcrashed⟩
    · exact hsame.trans hended
    · exact hcrashed
  · have hchange := phase_step hstep id
    rw [hfailed] at hchange
    generalize hphase : (s'.sessions id).phase = phase at hchange
    cases hchange with
    | same => exact Or.inr (Or.inl ⟨err, hphase⟩)
  · have hchange := phase_step hstep id
    rw [hrunning] at hchange
    generalize hphase : (s'.sessions id).phase = phase at hchange
    cases hchange with
    | same => exact Or.inr (Or.inr ⟨opening, w, hphase, hfenced⟩)
    | stepped writerAction opening w next hnext =>
      have hline := (hmade id opening w hrunning).2.lineOrdered
      exact Or.inr (Or.inr ⟨opening, next, hphase, Writer.fenced_step hline hnext hfenced⟩)

end Stream

end RelytIngest
