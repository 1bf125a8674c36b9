import RelytIngest.Writer.Persists
import RelytIngest.Writer.SessionEpoch

/-!
# Sessions that share a state object

The sessions of one stream, overlapping as they may, and the `state.json` they all write: each open
once, and each writer through the runs of `persist_state_if_due` of its ticker and its close. A
write takes effect at one point between its call and its return, and after a crash at any later
point, or never.

What is written is computed from a copy: the object that `open_table` read, the session's own memory
for a writer. The versions of the object are counted, which the source does not do, to say which
version a copy is of.
-/

set_option autoImplicit false
set_option relaxedAutoImplicit false

namespace RelytIngest

open Foundations

/-- Where a session is. -/
inductive SessionPhase (β : Type)
  | unopened
  /-- `open_table` has read the state object. -/
  | reading (state : Option StateFile)
  /-- It has decided, and writes the state object. -/
  | opening (opening : Opening)
  | failed (err : Error)
  | running (opening : Opening) (w : Writer β)

structure StreamSession (β : Type) where
  phase : SessionPhase β
  alive : Bool
  /-- The version of the session's copy: what `open_table` read, then the last of its own writes
  that it knows to have taken effect. -/
  known : Nat
  /-- Whose open had written last when this one read. -/
  seen : Option Nat
  /-- The version that the write of the open made. -/
  openLanded : Option Nat
  /-- The version of the copy that the last state file of a persister was computed from. -/
  base : Persister → Nat
  /-- The version that the last write of a persister made. -/
  landed : Persister → Option Nat

/-- What the open of the session decided. -/
def StreamSession.opened {β : Type} (session : StreamSession β) : Option Opening :=
  match session.phase with
  | .opening opening | .running opening _ => some opening
  | .unopened | .reading _ | .failed _ => none

/-- The open of a running session has written, and its writer is one that the open made. -/
def StreamSession.Made {β : Type} (cfg : WriterConfig β) (session : StreamSession β) : Prop :=
  ∀ opening w, session.phase = .running opening w → session.openLanded.isSome ∧
    w.ReachableFrom cfg opening.epoch (recoveredOffset opening.plan.kafkaResumeOffset)
      opening.newState.resumeOffset

/-- The state object of a stream and its sessions. -/
structure Stream (β : Type) where
  json : Option StateFile
  version : Nat
  /-- Whose open has written last. -/
  lastOpen : Option Nat
  sessions : Nat → StreamSession β

inductive StreamAction (β : Type)
  | openRead (id : Nat)
  /-- `open_table` has read the watermark and the staging directory too, and decides. -/
  | openDecide (id nowMs : Nat) (watermark : Option Int) (staged : List StagedFile)
  | openLands (id : Nat)
  | openReturns (id : Nat) (result : Except Error Unit)
  | writer (id : Nat) (action : Action β)
  | persistLands (id : Nat) (persister : Persister)
  | crash (id : Nat)

namespace Stream

variable {β : Type}

/-- No session has opened; the state object may be left over. -/
def start (json : Option StateFile) : Stream β where
  json := json
  version := 0
  lastOpen := none
  sessions _ := ⟨.unopened, true, 0, none, none, fun _ ↦ 0, fun _ ↦ none⟩

def setSession (s : Stream β) (id : Nat) (session : StreamSession β) : Stream β :=
  { s with sessions := Function.update s.sessions id session }

/-- A write takes effect. -/
def write (s : Stream β) (state : StateFile) : Stream β :=
  { s with json := some state, version := s.version + 1 }

/-- `open_table` reads the state object. -/
def openRead (s : Stream β) (id : Nat) : Option (Stream β) :=
  match (s.sessions id).phase with
  | .unopened =>
    some <| s.setSession id { s.sessions id with
      phase := .reading s.json
      known := s.version
      seen := s.lastOpen }
  | _ => none

def openDecide (s : Stream β) (id nowMs : Nat) (watermark : Option Int)
    (staged : List StagedFile) : Option (Stream β) :=
  match (s.sessions id).phase with
  | .reading state =>
    if (s.sessions id).alive then
      some <|
        match openDecisions nowMs state watermark staged with
        | .ok opening => s.setSession id { s.sessions id with phase := .opening opening }
        | .error err => s.setSession id { s.sessions id with phase := .failed err }
    else none
  | _ => none

/-- The write of `open_table` takes effect. -/
def openLands (s : Stream β) (id : Nat) : Option (Stream β) :=
  match (s.sessions id).phase, (s.sessions id).openLanded with
  | .opening opening, none =>
    let landed := { s.sessions id with openLanded := some (s.version + 1) }
    some { (s.setSession id landed).write opening.newState with lastOpen := some id }
  | _, _ => none

/-- `open_table` returns a writer, or an error that may hide a write that took effect. -/
def openReturns (s : Stream β) (id : Nat) (result : Except Error Unit) : Option (Stream β) :=
  match (s.sessions id).phase with
  | .opening opening =>
    if (s.sessions id).alive then
      match result, (s.sessions id).openLanded with
      | .ok (), some version =>
        some <| s.setSession id { s.sessions id with
          phase := .running opening (.new opening.epoch
            (recoveredOffset opening.plan.kafkaResumeOffset) opening.newState.resumeOffset)
          known := version }
      | .ok (), none => none
      | .error err, _ => some <| s.setSession id { s.sessions id with phase := .failed err }
    else none
  | _ => none

/-- The session after a step of its writer to `w`. A write that returns `Ok` has taken effect. -/
def afterStep (session : StreamSession β) (opening : Opening) (w : Writer β) :
    Action β → Option (StreamSession β)
  | .persistBegin persister _ _ =>
    some { session with
      phase := .running opening w
      base := Function.update session.base persister session.known
      landed := Function.update session.landed persister none }
  | .persistWrite persister result =>
    if result.isOk then
      (session.landed persister).map fun version ↦
        { session with phase := .running opening w, known := version }
    else some { session with phase := .running opening w }
  | _ => some { session with phase := .running opening w }

/-- A step of the writer of a session. -/
def writer (cfg : Nat → WriterConfig β) (s : Stream β) (id : Nat) (action : Action β) :
    Option (Stream β) :=
  match (s.sessions id).phase with
  | .running opening w =>
    if (s.sessions id).alive then do
      let next ← w.step (cfg id) action
      let session ← afterStep (s.sessions id) opening next action
      some (s.setSession id session)
    else none
  | _ => none

/-- The write of a persister takes effect. -/
def persistLands (s : Stream β) (id : Nat) (persister : Persister) : Option (Stream β) :=
  match (s.sessions id).phase with
  | .running _ w =>
    match w.persistPhase persister, (s.sessions id).landed persister with
    | some (.writing state), none =>
      let landed := Function.update (s.sessions id).landed persister (some (s.version + 1))
      some ((s.setSession id { s.sessions id with landed := landed }).write state)
    | _, _ => none
  | _ => none

def step (cfg : Nat → WriterConfig β) (s : Stream β) : StreamAction β → Option (Stream β)
  | .openRead id => s.openRead id
  | .openDecide id nowMs watermark staged => s.openDecide id nowMs watermark staged
  | .openLands id => s.openLands id
  | .openReturns id result => s.openReturns id result
  | .writer id action => s.writer cfg id action
  | .persistLands id persister => s.persistLands id persister
  | .crash id => some (s.setSession id { s.sessions id with alive := false })

/-! ### What a step can do -/

variable {cfg : Nat → WriterConfig β} {s s' : Stream β}

theorem openRead_eq_some {id : Nat} (hstep : s.openRead id = some s') :
    (s.sessions id).phase = .unopened ∧ s' = s.setSession id { s.sessions id with
      phase := .reading s.json, known := s.version, seen := s.lastOpen } := by
  unfold openRead at hstep
  split at hstep
  · next hphase => exact ⟨hphase, (Option.some.inj hstep).symm⟩
  · simp at hstep

theorem openDecide_eq_some {id nowMs : Nat} {watermark : Option Int} {staged : List StagedFile}
    (hstep : s.openDecide id nowMs watermark staged = some s') :
    ∃ state, (s.sessions id).phase = .reading state ∧
      ((∃ opening, openDecisions nowMs state watermark staged = .ok opening ∧
          s' = s.setSession id { s.sessions id with phase := .opening opening }) ∨
        ∃ err, s' = s.setSession id { s.sessions id with phase := .failed err }) := by
  unfold openDecide at hstep
  split at hstep
  · next state hphase =>
    split_ifs at hstep
    refine ⟨state, hphase, ?_⟩
    obtain rfl := Option.some.inj hstep
    split
    · next opening hopen => exact Or.inl ⟨opening, hopen, rfl⟩
    · next err hopen => exact Or.inr ⟨err, rfl⟩
  · simp at hstep

theorem openLands_eq_some {id : Nat} (hstep : s.openLands id = some s') :
    ∃ opening, (s.sessions id).phase = .opening opening ∧ (s.sessions id).openLanded = none ∧
      s' = { (s.setSession id { s.sessions id with openLanded := some (s.version + 1) }).write
        opening.newState with lastOpen := some id } := by
  unfold openLands at hstep
  split at hstep
  · next opening hphase hlanded =>
    exact ⟨opening, hphase, hlanded, (Option.some.inj hstep).symm⟩
  · simp at hstep

theorem openReturns_eq_some {id : Nat} {result : Except Error Unit}
    (hstep : s.openReturns id result = some s') :
    ∃ opening, (s.sessions id).phase = .opening opening ∧
      ((∃ version, (s.sessions id).openLanded = some version ∧
          s' = s.setSession id { s.sessions id with
            phase := .running opening (.new opening.epoch
              (recoveredOffset opening.plan.kafkaResumeOffset) opening.newState.resumeOffset)
            known := version }) ∨
        ∃ err, s' = s.setSession id { s.sessions id with phase := .failed err }) := by
  unfold openReturns at hstep
  split at hstep
  · next opening hphase =>
    refine ⟨opening, hphase, ?_⟩
    split_ifs at hstep
    split at hstep
    · next version hlanded => exact Or.inl ⟨version, hlanded, (Option.some.inj hstep).symm⟩
    · simp at hstep
    · exact Or.inr ⟨_, (Option.some.inj hstep).symm⟩
  · simp at hstep

theorem writer_eq_some {id : Nat} {action : Action β} (hstep : s.writer cfg id action = some s') :
    ∃ opening w next session, (s.sessions id).phase = .running opening w ∧
      w.step (cfg id) action = some next ∧
      afterStep (s.sessions id) opening next action = some session ∧
      s' = s.setSession id session := by
  unfold writer at hstep
  split at hstep
  · next opening w hphase =>
    split_ifs at hstep
    simp only [Option.bind_eq_bind, Option.bind_eq_some_iff, Option.some.injEq] at hstep
    obtain ⟨next, hnext, session, hsession, rfl⟩ := hstep
    exact ⟨opening, w, next, session, hphase, hnext, hsession, rfl⟩
  · simp at hstep

theorem persistLands_eq_some {id : Nat} {persister : Persister}
    (hstep : s.persistLands id persister = some s') :
    ∃ opening w state, (s.sessions id).phase = .running opening w ∧
      w.persistPhase persister = some (.writing state) ∧
      (s.sessions id).landed persister = none ∧
      s' = (s.setSession id { s.sessions id with
        landed := Function.update (s.sessions id).landed persister (some (s.version + 1)) }).write
          state := by
  unfold persistLands at hstep
  split at hstep
  · next opening w hphase =>
    split at hstep
    · next state hpersist hlanded =>
      exact ⟨opening, w, state, hphase, hpersist, hlanded, (Option.some.inj hstep).symm⟩
    · simp at hstep
  · simp at hstep

/-! ### The writers of running sessions -/

/-- A property of every session, after one of them changed. -/
theorem forall_setSession (property : Nat → StreamSession β → Prop)
    (hall : ∀ id, property id (s.sessions id)) {id : Nat} {session : StreamSession β}
    (hsession : property id session) (other : Nat) :
    property other ((s.setSession id session).sessions other) := by
  by_cases hother : other = id
  · subst hother
    simpa [setSession] using hsession
  · simpa [setSession, hother] using hall other

/-- A step of its writer changes neither what the open of a session decided nor that it wrote. -/
theorem afterStep_eq_some {session session' : StreamSession β} {opening : Opening} {w : Writer β}
    {action : Action β} (hafter : afterStep session opening w action = some session') :
    session'.phase = .running opening w ∧ session'.openLanded = session.openLanded ∧
      session'.seen = session.seen := by
  unfold afterStep at hafter
  split at hafter
  · exact Option.some.inj hafter ▸ ⟨rfl, rfl, rfl⟩
  · split_ifs at hafter
    · obtain ⟨version, -, rfl⟩ := Option.map_eq_some_iff.mp hafter
      exact ⟨rfl, rfl, rfl⟩
    · exact Option.some.inj hafter ▸ ⟨rfl, rfl, rfl⟩
  · exact Option.some.inj hafter ▸ ⟨rfl, rfl, rfl⟩

theorem made_of_reachable {json : Option StateFile}
    (hreach : Reachable (step cfg) (start json) s) (id : Nat) :
    (s.sessions id).Made (cfg id) := by
  revert id
  refine hreach.strengthened (fun s ↦ ∀ id, (s.sessions id).Made (cfg id)) ?_ ?_
  · intro id opening w hphase
    simp [start] at hphase
  intro before action after _ hall _ hstep
  cases action with
  | openRead id =>
    obtain ⟨-, rfl⟩ := openRead_eq_some hstep
    exact forall_setSession (fun id session ↦ session.Made (cfg id)) hall
      (by simp [StreamSession.Made])
  | openDecide id nowMs watermark staged =>
    obtain ⟨state, -, ⟨opening, -, rfl⟩ | ⟨err, rfl⟩⟩ := openDecide_eq_some hstep <;>
      exact forall_setSession (fun id session ↦ session.Made (cfg id)) hall
        (by simp [StreamSession.Made])
  | openLands id =>
    obtain ⟨opening, hphase, -, rfl⟩ := openLands_eq_some hstep
    refine forall_setSession (fun id session ↦ session.Made (cfg id)) hall ?_
    intro opening' w hrunning
    simp [hphase] at hrunning
  | openReturns id result =>
    obtain ⟨opening, -, ⟨version, hlanded, rfl⟩ | ⟨err, rfl⟩⟩ := openReturns_eq_some hstep
    · refine forall_setSession (fun id session ↦ session.Made (cfg id)) hall ?_
      intro opening' w hrunning
      obtain ⟨rfl, rfl⟩ := SessionPhase.running.inj hrunning
      exact ⟨Option.isSome_of_eq_some hlanded, .refl⟩
    · exact forall_setSession (fun id session ↦ session.Made (cfg id)) hall
        (by simp [StreamSession.Made])
  | writer id action =>
    obtain ⟨opening, w, next, session, hphase, hnext, hsession, rfl⟩ := writer_eq_some hstep
    obtain ⟨hrunning, hlanded, -⟩ := afterStep_eq_some hsession
    refine forall_setSession (fun id session ↦ session.Made (cfg id)) hall ?_
    intro opening' w' hrunning'
    obtain ⟨rfl, rfl⟩ := SessionPhase.running.inj (hrunning.symm.trans hrunning')
    obtain ⟨hopened, hmade⟩ := hall id opening w hphase
    exact ⟨hlanded ▸ hopened, Reachable.snoc hmade hnext⟩
  | persistLands id persister =>
    obtain ⟨opening, w, state, -, -, -, rfl⟩ := persistLands_eq_some hstep
    exact forall_setSession (fun id session ↦ session.Made (cfg id)) hall (hall id)
  | crash id =>
    obtain rfl := Option.some.inj hstep
    exact forall_setSession (fun id session ↦ session.Made (cfg id)) hall (hall id)

end Stream

end RelytIngest
