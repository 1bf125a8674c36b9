import RelytIngest.Stream.Phases

/-!
# The offsets that the sessions of a stream record

An offset that a session has in memory as recorded, or in a state file, was confirmed to some
session of the stream: what holds of the confirmed offsets holds of all of them
(`Stream.Records.step`).
-/

set_option autoImplicit false
set_option relaxedAutoImplicit false

namespace RelytIngest

open Foundations

variable {P Q : Int → Prop}

/-- The offset of the state file has the property. -/
def StateFile.Records (P : Int → Prop) (state : StateFile) : Prop :=
  ∀ offset, state.resumeOffset = some offset → P offset

structure StreamSession.Records {β : Type} (P : Int → Prop) (session : StreamSession β) : Prop where
  reading : ∀ state, session.phase = .reading (some state) → state.Records P
  opened : ∀ opening, session.opened = some opening → opening.newState.Records P
  running : ∀ opening w, session.phase = .running opening w →
    ∀ offset, w.st.resumePersisted = some offset → P offset
  pending : ∀ opening w persister state, session.phase = .running opening w →
    w.pending persister = some state → state.Records P

/-- Every offset on record has the property. -/
structure Stream.Records {β : Type} (P : Int → Prop) (s : Stream β) : Prop where
  json : ∀ state, s.json = some state → state.Records P
  sessions : ∀ id, (s.sessions id).Records P

namespace StateFile.Records

variable {state : StateFile}

theorem mono (h : state.Records P) (himplies : ∀ offset, P offset → Q offset) : state.Records Q :=
  fun offset hoffset ↦ himplies offset (h offset hoffset)

/-- What a run of `persist_state_if_due` computes was recorded before, or confirmed. -/
theorem persist {heartbeat : Bool} {confirmedEnd resumePersisted : Option Int}
    (hdue : persistStateIfDue heartbeat confirmedEnd resumePersisted = some state.resumeOffset)
    (hconfirmed : ∀ offset, confirmedEnd = some offset → P offset)
    (hpersisted : ∀ offset, resumePersisted = some offset → P offset) : state.Records P := by
  unfold persistStateIfDue at hdue
  split_ifs at hdue
  intro offset hoffset
  rcases resumeToPersist_eq confirmedEnd resumePersisted with heq | heq
  · exact hpersisted offset (heq.symm.trans ((Option.some.inj hdue).trans hoffset))
  · exact hconfirmed offset (heq.symm.trans ((Option.some.inj hdue).trans hoffset))

end StateFile.Records

namespace StreamSession.Records

variable {β : Type} {cfg : WriterConfig β} {session session' : StreamSession β}

theorem mono (h : session.Records P) (himplies : ∀ offset, P offset → Q offset) :
    session.Records Q where
  reading state hphase := (h.reading state hphase).mono himplies
  opened opening hopened := (h.opened opening hopened).mono himplies
  running opening w hphase offset hoffset :=
    himplies offset (h.running opening w hphase offset hoffset)
  pending opening w persister state hphase hpending :=
    (h.pending opening w persister state hphase hpending).mono himplies

theorem of_same (h : session.Records P) (hphase : session'.phase = session.phase) :
    session'.Records P := by
  have hopened : session'.opened = session.opened := by
    simp only [StreamSession.opened, hphase]
  constructor
  case reading => exact hphase ▸ h.reading
  case opened => exact hopened ▸ h.opened
  case running => exact hphase ▸ h.running
  case pending => exact hphase ▸ h.pending

/-- A session whose writer has just taken a step. -/
theorem of_writer (h : session.Records P) {opening : Opening} {w w' : Writer β} {action : Action β}
    (hrunning : session.phase = .running opening w) (hstep : w.step cfg action = some w')
    (hrunning' : session'.phase = .running opening w')
    (hconfirmed : ∀ persister confirmedEnd heartbeat,
      action = .persistBegin persister confirmedEnd heartbeat →
        ∀ offset, confirmedEnd = some offset → P offset) : session'.Records P := by
  have hold := h.running opening w hrunning
  -- what the writer has recorded and what its persisters have computed
  have hwriter : (∀ offset, w'.st.resumePersisted = some offset → P offset) ∧
      ∀ persister state, w'.pending persister = some state → state.Records P := by
    have hkept {persister : Persister} (hphases : ∀ other, other ≠ persister →
        w'.persistPhase other = w.persistPhase other) {who : Persister} (hwho : who ≠ persister)
        {state : StateFile} (hpending : w'.pending who = some state) : state.Records P := by
      rw [Writer.pending_eq_of_phase (hphases who hwho)] at hpending
      exact h.pending opening w who state hrunning hpending
    cases action with
    | persistBegin persister confirmedEnd heartbeat =>
      obtain ⟨hst, hphases, hcomputed⟩ := Writer.persistBegin_eq_some hstep
      refine ⟨hst ▸ hold, fun who state hpending ↦ ?_⟩
      by_cases hwho : who = persister
      · subst hwho
        exact .persist (hcomputed state hpending).2
          (hconfirmed who confirmedEnd heartbeat rfl) hold
      · exact hkept hphases hwho hpending
    | persistRecheck persister =>
      obtain ⟨hst, hphases, hsame⟩ := Writer.persistRecheck_eq_some hstep
      refine ⟨hst ▸ hold, fun who state hpending ↦ ?_⟩
      by_cases hwho : who = persister
      · subst hwho
        exact h.pending opening w who state hrunning (hsame state hpending)
      · exact hkept hphases hwho hpending
    | persistWrite persister result =>
      obtain ⟨written, hwritten, hdone, -, hphases, hresume⟩ := Writer.persistWrite_eq_some hstep
      refine ⟨?_, fun who state hpending ↦ ?_⟩
      · rw [hresume]
        split_ifs
        · exact h.pending opening w persister written hrunning hwritten
        · exact hold
      · by_cases hwho : who = persister
        · simp [hwho, hdone] at hpending
        · exact hkept hphases hwho hpending
    | _ =>
      have hkeeps := Writer.keepsPersists hstep rfl
      refine ⟨hkeeps.resume ▸ hold, fun persister state hpending ↦ ?_⟩
      rcases hkeeps.phase persister with hsame | ⟨hnone, -⟩
      · rw [Writer.pending_eq_of_phase hsame] at hpending
        exact h.pending opening w persister state hrunning hpending
      · simp [hnone] at hpending
  constructor
  case reading => exact fun state hphase ↦ by simp [hrunning'] at hphase
  case opened =>
    intro other hopened
    exact h.opened other (by simpa [StreamSession.opened, hrunning, hrunning'] using hopened)
  case running =>
    intro other v hphase
    obtain ⟨rfl, rfl⟩ := SessionPhase.running.inj (hrunning'.symm.trans hphase)
    exact hwriter.1
  case pending =>
    intro other v persister state hphase hpending
    obtain ⟨rfl, rfl⟩ := SessionPhase.running.inj (hrunning'.symm.trans hphase)
    exact hwriter.2 persister state hpending

end StreamSession.Records

namespace Stream

variable {β : Type} {cfg : Nat → WriterConfig β} {s s' : Stream β}

theorem records_start : (start none : Stream β).Records P where
  json state hjson := by simp [start] at hjson
  sessions id := ⟨by simp [start], by simp [start, StreamSession.opened], by simp [start],
    by simp [start]⟩

theorem Records.mono (h : s.Records P) (himplies : ∀ offset, P offset → Q offset) :
    s.Records Q where
  json state hjson := (h.json state hjson).mono himplies
  sessions id := (h.sessions id).mono himplies

theorem Records.setSession (h : s.Records P) {id : Nat} {session : StreamSession β}
    (hsession : session.Records P) : (s.setSession id session).Records P where
  json := h.json
  sessions := forall_setSession (fun _ session ↦ session.Records P) h.sessions hsession

theorem Records.write (h : s.Records P) {state : StateFile} (hstate : state.Records P) :
    (s.write state).Records P where
  json _ hjson := Option.some.inj hjson ▸ hstate
  sessions := h.sessions

theorem Records.step (h : s.Records P) {action : StreamAction β}
    (hstep : Stream.step cfg s action = some s')
    (hconfirmed : ∀ id persister confirmedEnd heartbeat,
      action = .writer id (.persistBegin persister confirmedEnd heartbeat) →
        ∀ offset, confirmedEnd = some offset → P offset) : s'.Records P := by
  cases action with
  | openRead id =>
    obtain ⟨-, rfl⟩ := openRead_eq_some hstep
    refine h.setSession ⟨fun state hphase ↦ ?_, ?_, ?_, ?_⟩
    · exact h.json state (SessionPhase.reading.inj hphase)
    · simp [StreamSession.opened]
    · simp
    · simp
  | openDecide id nowMs watermark staged =>
    obtain ⟨state, hphase, ⟨opening, hopen, rfl⟩ | ⟨err, rfl⟩⟩ := openDecide_eq_some hstep
    · refine h.setSession ⟨by simp, fun other hopened ↦ ?_, by simp, by simp⟩
      obtain rfl := Option.some.inj hopened
      obtain ⟨plan, -, -, -, hnew⟩ := openDecisions_eq_ok_iff.mp hopen
      intro offset hoffset
      rw [hnew] at hoffset
      cases state with
      | none => simp [openState] at hoffset
      | some read => exact (h.sessions id).reading read hphase offset hoffset
    · exact h.setSession ⟨by simp, by simp [StreamSession.opened], by simp, by simp⟩
  | openLands id =>
    obtain ⟨opening, hphase, -, rfl⟩ := openLands_eq_some hstep
    have hopened : (s.sessions id).opened = some opening := by simp [StreamSession.opened, hphase]
    have hsession (session : StreamSession β)
        (hsame : session.phase = (s.sessions id).phase) : (s.setSession id session).Records P :=
      h.setSession ((h.sessions id).of_same hsame)
    have hwritten := (hsession { s.sessions id with openLanded := some (s.version + 1) } rfl).write
      ((h.sessions id).opened opening hopened)
    exact ⟨hwritten.json, hwritten.sessions⟩
  | openReturns id result =>
    obtain ⟨opening, hphase, ⟨version, hlanded, rfl⟩ | ⟨err, rfl⟩⟩ := openReturns_eq_some hstep
    · have hopened : (s.sessions id).opened = some opening := by
        simp [StreamSession.opened, hphase]
      refine h.setSession ⟨by simp, fun other hother ↦ ?_, fun other w hrunning ↦ ?_,
        fun other w persister state hrunning hpending ↦ ?_⟩
      · exact Option.some.inj hother ▸ (h.sessions id).opened opening hopened
      · obtain ⟨rfl, rfl⟩ := SessionPhase.running.inj hrunning
        exact (h.sessions id).opened opening hopened
      · obtain ⟨rfl, rfl⟩ := SessionPhase.running.inj hrunning
        cases persister <;> simp [Writer.pending, Writer.persistPhase, Writer.new] at hpending
    · exact h.setSession ⟨by simp, by simp [StreamSession.opened], by simp, by simp⟩
  | writer id writerAction =>
    obtain ⟨opening, w, next, session, hphase, hnext, hsession, rfl⟩ := writer_eq_some hstep
    refine h.setSession ((h.sessions id).of_writer hphase hnext
      (afterStep_eq_some hsession).1 fun persister confirmedEnd heartbeat heq ↦ ?_)
    exact hconfirmed id persister confirmedEnd heartbeat (heq ▸ rfl)
  | persistLands id persister =>
    obtain ⟨opening, w, state, hphase, hpersist, -, rfl⟩ := persistLands_eq_some hstep
    have hpending : w.pending persister = some state := by simp [Writer.pending, hpersist]
    refine Records.write (h.setSession ((h.sessions id).of_same ?_))
      ((h.sessions id).pending opening w persister state hphase hpending)
    rfl
  | crash id =>
    obtain rfl := Option.some.inj hstep
    exact h.setSession ((h.sessions id).of_same rfl)

end Stream

end RelytIngest
