import RelytIngest.Stream.StateObject

/-!
# The state object only moves forward

Each write is computed from a copy of the state object and is forward of that copy. While a write
takes effect only on the version it was computed from (`InOrder`), the object itself moves forward
(`state_json_forward`). Nothing in the code sees to that: a write that is late, its own session's or
a predecessor's, takes the object back (`taken_back`).
-/

set_option autoImplicit false
set_option relaxedAutoImplicit false

namespace RelytIngest

open Foundations

/-- The state file is at or past another one, in both of its offsets. -/
structure StateFile.ForwardOf (new old : StateFile) : Prop where
  epoch : old.maxEpochUsed ≤ new.maxEpochUsed
  resume : ∀ offset, old.resumeOffset = some offset →
    ∃ later, new.resumeOffset = some later ∧ offset ≤ later

theorem StateFile.ForwardOf.refl (state : StateFile) : state.ForwardOf state where
  epoch := le_rfl
  resume offset hoffset := ⟨offset, hoffset, le_rfl⟩

/-- The object moves forward: what it holds afterwards is at or past what it held. -/
def Forward (old new : Option StateFile) : Prop :=
  ∀ before, old = some before → ∃ after, new = some after ∧ after.ForwardOf before

theorem Forward.refl (json : Option StateFile) : Forward json json :=
  fun before hbefore ↦ ⟨before, hbefore, .refl before⟩

theorem Forward.trans {first second third : Option StateFile} (h : Forward first second)
    (hnext : Forward second third) : Forward first third := by
  intro before hbefore
  obtain ⟨middle, hmiddle, hforward⟩ := h before hbefore
  obtain ⟨after, hafter, hforward'⟩ := hnext middle hmiddle
  refine ⟨after, hafter, hforward.epoch.trans hforward'.epoch, fun offset hoffset ↦ ?_⟩
  obtain ⟨later, hlater, hle⟩ := hforward.resume offset hoffset
  obtain ⟨last, hlast, hle'⟩ := hforward'.resume later hlater
  exact ⟨last, hlast, hle.trans hle'⟩

/-- What `open_table` writes is forward of what it read. -/
theorem forward_openDecisions {nowMs : Nat} {json : Option StateFile} {watermark : Option Int}
    {staged : List StagedFile} {opening : Opening}
    (hopen : openDecisions nowMs json watermark staged = .ok opening) :
    Forward json (some opening.newState) := by
  rintro before rfl
  have hepoch := (openDecisions_epoch hopen).2.2 before rfl
  obtain ⟨plan, -, -, -, hstate⟩ := openDecisions_eq_ok_iff.mp hopen
  refine ⟨opening.newState, rfl, ?_, fun offset hoffset ↦ ⟨offset, ?_, le_rfl⟩⟩
  · rw [hstate]
    exact hepoch.le
  · rw [hstate]
    exact hoffset

/-- What a run of `persist_state_if_due` computes is forward of its copy. -/
theorem forward_persist {heartbeat : Bool} {confirmedEnd : Option Int} {copy : StateFile}
    {epochMs : Nat} {resume : Option Int} (hepoch : copy.maxEpochUsed ≤ epochMs)
    (hdue : persistStateIfDue heartbeat confirmedEnd copy.resumeOffset = some resume) :
    (⟨resume, epochMs⟩ : StateFile).ForwardOf copy := by
  refine ⟨hepoch, fun offset hoffset ↦ ?_⟩
  unfold persistStateIfDue at hdue
  split_ifs at hdue
  obtain rfl := Option.some.inj hdue
  rw [hoffset]
  exact le_resumeToPersist confirmedEnd offset

/-- What holds of a session and the object at a version. -/
structure StreamSession.Current {β : Type} (json : Option StateFile) (version : Nat)
    (session : StreamSession β) : Prop where
  known_le : session.known ≤ version
  base_le : ∀ persister, session.base persister ≤ version
  landed_le : ∀ persister made, session.landed persister = some made → made ≤ version
  openLanded_le : ∀ made, session.openLanded = some made → made ≤ version
  unopened : session.phase = .unopened → session.openLanded = none
  reading : ∀ state, session.phase = .reading state →
    session.openLanded = none ∧ (session.known = version → json = state)
  opening : ∀ opening, session.phase = .opening opening →
    (session.openLanded = none → session.known = version →
        Forward json (some opening.newState)) ∧
      (session.openLanded = some version → json = some opening.newState)
  epoch : ∀ opening, session.phase = .opening opening →
    opening.newState.maxEpochUsed = opening.epoch
  running : ∀ opening w, session.phase = .running opening w → session.known = version →
    ∃ copy, json = some copy ∧ copy.resumeOffset = w.st.resumePersisted ∧
      copy.maxEpochUsed ≤ w.st.epochMs
  pending : ∀ opening w persister state, session.phase = .running opening w →
    w.pending persister = some state →
      state.maxEpochUsed ≤ w.st.epochMs ∧
        (session.base persister = version → Forward json (some state)) ∧
          (session.landed persister = some version → json = some state)

namespace StreamSession.Current

variable {β : Type} {json json' : Option StateFile} {version : Nat} {session : StreamSession β}

/-- Another session's write makes every copy an old one. -/
theorem bump (h : session.Current json version) : session.Current json' (version + 1) where
  known_le := h.known_le.trans (Nat.le_succ _)
  base_le persister := (h.base_le persister).trans (Nat.le_succ _)
  landed_le persister made hmade := (h.landed_le persister made hmade).trans (Nat.le_succ _)
  openLanded_le made hmade := (h.openLanded_le made hmade).trans (Nat.le_succ _)
  unopened := h.unopened
  reading state hphase :=
    ⟨(h.reading state hphase).1, fun hknown ↦ absurd hknown (Nat.lt_succ_of_le h.known_le).ne⟩
  opening _ _ :=
    ⟨fun _ hknown ↦ absurd hknown (Nat.lt_succ_of_le h.known_le).ne,
      fun hlanded ↦ absurd rfl (Nat.lt_succ_of_le (h.openLanded_le _ hlanded)).ne⟩
  epoch := h.epoch
  running _ _ _ hknown := absurd hknown (Nat.lt_succ_of_le h.known_le).ne
  pending opening w persister state hphase hpending :=
    ⟨(h.pending opening w persister state hphase hpending).1,
      fun hbase ↦ absurd hbase (Nat.lt_succ_of_le (h.base_le persister)).ne,
      fun hlanded ↦ absurd rfl (Nat.lt_succ_of_le (h.landed_le persister _ hlanded)).ne⟩

/-- A session that ends leaves nothing to say about its copy. -/
theorem fail (h : session.Current json version) (err : Error) :
    ({ session with phase := .failed err } : StreamSession β).Current json version where
  known_le := h.known_le
  base_le := h.base_le
  landed_le := h.landed_le
  openLanded_le := h.openLanded_le
  unopened hphase := nomatch hphase
  reading _ hphase := nomatch hphase
  opening _ hphase := nomatch hphase
  epoch _ hphase := nomatch hphase
  running _ _ hphase := nomatch hphase
  pending _ _ _ _ hphase := nomatch hphase

theorem crash (h : session.Current json version) :
    ({ session with alive := false } : StreamSession β).Current json version :=
  ⟨h.known_le, h.base_le, h.landed_le, h.openLanded_le, h.unopened, h.reading, h.opening, h.epoch,
    h.running, h.pending⟩

/-- An open reads the object. -/
theorem openRead (h : session.Current json version) (hunopened : session.phase = .unopened)
    (seen : Option Nat) :
    ({ session with phase := .reading json, known := version, seen := seen } :
      StreamSession β).Current json version where
  known_le := le_rfl
  base_le := h.base_le
  landed_le := h.landed_le
  openLanded_le := h.openLanded_le
  unopened hphase := nomatch hphase
  reading state hphase := by
    obtain rfl := SessionPhase.reading.inj hphase
    exact ⟨h.unopened hunopened, fun _ ↦ rfl⟩
  opening _ hphase := nomatch hphase
  epoch _ hphase := nomatch hphase
  running _ _ hphase := nomatch hphase
  pending _ _ _ _ hphase := nomatch hphase

/-- An open decides by what it read. -/
theorem openDecide (h : session.Current json version) {state : Option StateFile}
    (hreading : session.phase = .reading state) {nowMs : Nat} {watermark : Option Int}
    {staged : List StagedFile} {opening : Opening}
    (hopen : openDecisions nowMs state watermark staged = .ok opening) :
    ({ session with phase := .opening opening } : StreamSession β).Current json version where
  known_le := h.known_le
  base_le := h.base_le
  landed_le := h.landed_le
  openLanded_le := h.openLanded_le
  unopened hphase := nomatch hphase
  reading _ hphase := nomatch hphase
  opening other hphase := by
    obtain rfl := SessionPhase.opening.inj hphase
    obtain ⟨hlanded, hjson⟩ := h.reading state hreading
    refine ⟨fun _ hknown ↦ ?_, fun hnow ↦ by simp [hlanded] at hnow⟩
    rw [hjson hknown]
    exact forward_openDecisions hopen
  epoch other hphase := by
    obtain rfl := SessionPhase.opening.inj hphase
    obtain ⟨plan, -, -, -, hstate⟩ := openDecisions_eq_ok_iff.mp hopen
    rw [hstate]
    rfl
  running _ _ hphase := nomatch hphase
  pending _ _ _ _ hphase := nomatch hphase

/-- An open that returns leaves its writer with a copy of what it wrote. -/
theorem openReturns (h : session.Current json version) {opening : Opening} {made : Nat}
    (hopening : session.phase = .opening opening) (hlanded : session.openLanded = some made) :
    ({ session with
      phase := .running opening (.new opening.epoch
        (recoveredOffset opening.plan.kafkaResumeOffset) opening.newState.resumeOffset)
      known := made } : StreamSession β).Current json version where
  known_le := h.openLanded_le made hlanded
  base_le := h.base_le
  landed_le := h.landed_le
  openLanded_le := h.openLanded_le
  unopened hphase := nomatch hphase
  reading _ hphase := nomatch hphase
  opening _ hphase := nomatch hphase
  epoch _ hphase := nomatch hphase
  running other w hphase hknown := by
    obtain ⟨rfl, rfl⟩ := SessionPhase.running.inj hphase
    have hmade : made = version := hknown
    exact ⟨opening.newState, (h.opening opening hopening).2 (hmade ▸ hlanded), rfl,
      (h.epoch opening hopening).le⟩
  pending other w persister state hphase hpending := by
    obtain ⟨rfl, rfl⟩ := SessionPhase.running.inj hphase
    cases persister <;> simp [Writer.pending, Writer.persistPhase, Writer.new] at hpending

section Step

variable {cfg : WriterConfig β} {opening : Opening} {w next : Writer β}

/-- A step that neither writes nor computes a state file. -/
theorem keep (h : session.Current json version) (hrunning : session.phase = .running opening w)
    (hkeeps : Writer.KeepsPersists w next) (hepoch : w.st.epochMs ≤ next.st.epochMs) :
    ({ session with phase := .running opening next } : StreamSession β).Current json version where
  known_le := h.known_le
  base_le := h.base_le
  landed_le := h.landed_le
  openLanded_le := h.openLanded_le
  unopened hphase := nomatch hphase
  reading _ hphase := nomatch hphase
  opening _ hphase := nomatch hphase
  epoch _ hphase := nomatch hphase
  running other v hphase hknown := by
    obtain ⟨rfl, rfl⟩ := SessionPhase.running.inj hphase
    obtain ⟨copy, hjson, hresume, hcopy⟩ := h.running opening w hrunning hknown
    exact ⟨copy, hjson, hresume.trans hkeeps.resume.symm, hcopy.trans hepoch⟩
  pending other v persister state hphase hpending := by
    obtain ⟨rfl, rfl⟩ := SessionPhase.running.inj hphase
    rcases hkeeps.phase persister with hsame | ⟨hnone, -⟩
    · rw [Writer.pending_eq_of_phase hsame] at hpending
      obtain ⟨hcopy, hrest⟩ := h.pending opening w persister state hrunning hpending
      exact ⟨hcopy.trans hepoch, hrest⟩
    · rw [hnone] at hpending
      exact nomatch hpending

/-- A persister computes a state file from the session's copy. -/
theorem persistBegin (h : session.Current json version)
    (hrunning : session.phase = .running opening w) {persister : Persister}
    {confirmedEnd : Option Int} {heartbeat : Bool}
    (hbegin : w.persistBegin persister confirmedEnd heartbeat = some next) :
    ({ session with
      phase := .running opening next
      base := Function.update session.base persister session.known
      landed := Function.update session.landed persister none } :
        StreamSession β).Current json version := by
  obtain ⟨hst, hother, hcomputed⟩ := Writer.persistBegin_eq_some hbegin
  refine ⟨h.known_le, fun other ↦ ?_, fun other made hmade ↦ ?_, h.openLanded_le, nofun, nofun,
    nofun, nofun, fun other v hphase hknown ↦ ?_, fun other v who state hphase hpending ↦ ?_⟩
  · by_cases heq : other = persister
    · simpa [heq] using h.known_le
    · simpa [heq] using h.base_le other
  · by_cases heq : other = persister
    · simp [heq] at hmade
    · exact h.landed_le other made (by simpa [heq] using hmade)
  · obtain ⟨rfl, rfl⟩ := SessionPhase.running.inj hphase
    rw [hst]
    exact h.running opening w hrunning hknown
  · obtain ⟨rfl, rfl⟩ := SessionPhase.running.inj hphase
    rw [hst]
    by_cases heq : who = persister
    · subst heq
      obtain ⟨hepoch, hdue⟩ := hcomputed state hpending
      refine ⟨hepoch.le, fun hbase ↦ ?_, fun hlanded ↦ by simp at hlanded⟩
      obtain ⟨copy, hjson, hresume, hcopy⟩ := h.running opening w hrunning (by simpa using hbase)
      rintro before hbefore
      obtain rfl : copy = before := Option.some.inj (hjson.symm.trans hbefore)
      rw [← hresume] at hdue
      refine ⟨state, rfl, ?_⟩
      have hforward := forward_persist hcopy hdue
      rwa [← hepoch] at hforward
    · rw [Writer.pending_eq_of_phase (hother who heq)] at hpending
      simpa [heq] using h.pending opening w who state hrunning hpending

/-- A persister looks at the fence once more. -/
theorem persistRecheck (h : session.Current json version)
    (hrunning : session.phase = .running opening w) {persister : Persister}
    (hrecheck : w.persistRecheck persister = some next) :
    ({ session with phase := .running opening next } : StreamSession β).Current json version := by
  obtain ⟨hst, hother, hsame⟩ := Writer.persistRecheck_eq_some hrecheck
  refine ⟨h.known_le, h.base_le, h.landed_le, h.openLanded_le, nofun, nofun, nofun, nofun,
    fun other v hphase hknown ↦ ?_, fun other v who state hphase hpending ↦ ?_⟩
  · obtain ⟨rfl, rfl⟩ := SessionPhase.running.inj hphase
    rw [hst]
    exact h.running opening w hrunning hknown
  · obtain ⟨rfl, rfl⟩ := SessionPhase.running.inj hphase
    rw [hst]
    refine h.pending opening w who state hrunning ?_
    by_cases heq : who = persister
    · exact heq ▸ hsame state (heq ▸ hpending)
    · rwa [Writer.pending_eq_of_phase (hother who heq)] at hpending

/-- The write of a persister returns; with `Ok` the session's copy is what it wrote. -/
theorem persistWrite (h : session.Current json version)
    (hrunning : session.phase = .running opening w) {persister : Persister}
    {result : Except Error Unit} (hwrite : w.persistWrite persister result = some next)
    {known : Nat} (hok : result.isOk = true → session.landed persister = some known)
    (herror : result.isOk = false → known = session.known) :
    ({ session with phase := .running opening next, known := known } :
      StreamSession β).Current json version := by
  obtain ⟨written, hwritten, hdone, hepoch, hother, hresume⟩ := Writer.persistWrite_eq_some hwrite
  have hknown : known ≤ version := by
    cases hresult : result.isOk with
    | true => exact h.landed_le persister known (hok hresult)
    | false => exact herror hresult ▸ h.known_le
  refine ⟨hknown, h.base_le, h.landed_le, h.openLanded_le, nofun, nofun, nofun, nofun,
    fun other v hphase hnow ↦ ?_, fun other v who state hphase hpending ↦ ?_⟩
  · obtain ⟨rfl, rfl⟩ := SessionPhase.running.inj hphase
    rw [hresume, hepoch]
    cases hresult : result.isOk with
    | true =>
      obtain ⟨hcopy, -, hlanded⟩ := h.pending opening w persister written hrunning hwritten
      exact ⟨written, hlanded ((hok hresult).trans (congrArg some hnow)), rfl, hcopy⟩
    | false => exact h.running opening w hrunning ((herror hresult).symm.trans hnow)
  · obtain ⟨rfl, rfl⟩ := SessionPhase.running.inj hphase
    rw [hepoch]
    refine h.pending opening w who state hrunning ?_
    by_cases heq : who = persister
    · subst heq
      simp [hdone] at hpending
    · rwa [Writer.pending_eq_of_phase (hother who heq)] at hpending

end Step

end StreamSession.Current

namespace Stream

variable {β : Type} {cfg : Nat → WriterConfig β} {s s' : Stream β} {json : Option StateFile}

/-- A write takes effect on the version it was computed from: the one that its `open_table` read, or
the last one that its session wrote and knows to have taken effect. -/
def InOrder (s : Stream β) : StreamAction β → Prop
  | .openLands id => (s.sessions id).known = s.version
  | .persistLands id persister => (s.sessions id).base persister = s.version
  | _ => True

instance (s : Stream β) : (action : StreamAction β) → Decidable (s.InOrder action)
  | .openLands id => inferInstanceAs (Decidable ((s.sessions id).known = s.version))
  | .persistLands id persister =>
    inferInstanceAs (Decidable ((s.sessions id).base persister = s.version))
  | .openRead _ | .openDecide .. | .openReturns .. | .writer .. | .crash _ =>
    inferInstanceAs (Decidable True)

/-- Every session is current. -/
def Current (s : Stream β) : Prop := ∀ id, (s.sessions id).Current s.json s.version

theorem current_start (json : Option StateFile) (id : Nat) :
    ((start json : Stream β).sessions id).Current json 0 where
  known_le := le_rfl
  base_le _ := le_rfl
  landed_le _ _ hmade := by simp [start] at hmade
  openLanded_le _ hmade := by simp [start] at hmade
  unopened _ := rfl
  reading _ hphase := by simp [start] at hphase
  opening _ hphase := by simp [start] at hphase
  epoch _ hphase := by simp [start] at hphase
  running _ _ hphase := by simp [start] at hphase
  pending _ _ _ _ hphase := by simp [start] at hphase

/-- The step of one session changes neither the object nor the other sessions. -/
theorem Current.setSession (h : s.Current) {id : Nat} {session : StreamSession β}
    (hsession : session.Current s.json s.version) : (s.setSession id session).Current := by
  intro other
  by_cases hother : other = id
  · subst hother
    simpa [Stream.setSession] using hsession
  · simpa [Stream.setSession, hother] using h other

/-- A write of one session changes the object for all of them. -/
theorem Current.lands (h : s.Current) {id : Nat} {session : StreamSession β} {state : StateFile}
    (hsession : session.Current (some state) (s.version + 1)) (other : Nat) :
    (((s.setSession id session).write state).sessions other).Current (some state)
      (s.version + 1) := by
  by_cases hother : other = id
  · subst hother
    simpa [Stream.setSession, write] using hsession
  · simpa [Stream.setSession, write, hother] using (h other).bump

theorem Current.openLands (h : s.Current) {id : Nat} (hstep : s.openLands id = some s') :
    s'.Current := by
  obtain ⟨opening, hphase, hlanded, rfl⟩ := openLands_eq_some hstep
  refine fun other ↦ h.lands ?_ other
  have hold : (s.sessions id).Current (some opening.newState) (s.version + 1) := (h id).bump
  refine ⟨hold.known_le, hold.base_le, hold.landed_le, fun made hmade ↦ ?_, ?_, ?_,
    fun other hother ↦ ⟨nofun, fun _ ↦ ?_⟩, hold.epoch, hold.running, hold.pending⟩
  · exact (Option.some.inj hmade).ge
  · simp [hphase]
  · simp [hphase]
  · obtain rfl := SessionPhase.opening.inj (hphase.symm.trans hother)
    rfl

theorem Current.persistLands (h : s.Current) {id : Nat} {persister : Persister}
    (hstep : s.persistLands id persister = some s') : s'.Current := by
  obtain ⟨opening, w, state, hphase, hpersist, hlanded, rfl⟩ := persistLands_eq_some hstep
  refine fun other ↦ h.lands ?_ other
  have hold : (s.sessions id).Current (some state) (s.version + 1) := (h id).bump
  refine ⟨hold.known_le, hold.base_le, fun who made hmade ↦ ?_, hold.openLanded_le, hold.unopened,
    hold.reading, hold.opening, hold.epoch, hold.running,
    fun opening' w' who found hrunning hpending ↦ ?_⟩
  · by_cases hwho : who = persister
    · simp only [hwho, Function.update_self] at hmade
      exact (Option.some.inj hmade).ge
    · exact hold.landed_le who made (by simpa [hwho] using hmade)
  · obtain ⟨hepoch, hbase, hmade⟩ := hold.pending opening' w' who found hrunning hpending
    refine ⟨hepoch, hbase, fun hnow ↦ ?_⟩
    by_cases hwho : who = persister
    · obtain ⟨-, rfl⟩ := SessionPhase.running.inj (hphase.symm.trans hrunning)
      subst hwho
      simp only [Writer.pending, hpersist, Option.some.injEq] at hpending
      rw [hpending]
    · exact hmade (by simpa [hwho] using hnow)

theorem Current.writer (h : s.Current) {id : Nat} {action : Action β}
    (hstep : s.writer cfg id action = some s') : s'.Current := by
  obtain ⟨opening, w, next, session, hphase, hnext, hsession, rfl⟩ := writer_eq_some hstep
  refine h.setSession ?_
  cases action with
  | persistBegin persister confirmedEnd heartbeat =>
    exact Option.some.inj hsession ▸ (h id).persistBegin hphase hnext
  | persistRecheck persister =>
    exact Option.some.inj hsession ▸ (h id).persistRecheck hphase hnext
  | persistWrite persister result =>
    simp only [afterStep] at hsession
    split_ifs at hsession with hok
    · obtain ⟨known, hlanded, rfl⟩ := Option.map_eq_some_iff.mp hsession
      exact (h id).persistWrite hphase hnext (fun _ ↦ hlanded)
        (fun herror ↦ absurd hok (by simp [herror]))
    · obtain rfl := Option.some.inj hsession
      exact (h id).persistWrite hphase hnext (fun hresult ↦ absurd hresult hok) fun _ ↦ rfl
  | _ =>
    exact Option.some.inj hsession ▸
      (h id).keep hphase (Writer.keepsPersists hnext rfl) (Writer.epoch_le hnext)

theorem Current.step {action : StreamAction β} (h : s.Current)
    (hstep : Stream.step cfg s action = some s') : s'.Current := by
  cases action with
  | openRead id =>
    obtain ⟨hphase, rfl⟩ := openRead_eq_some hstep
    exact h.setSession ((h id).openRead hphase s.lastOpen)
  | openDecide id nowMs watermark staged =>
    obtain ⟨state, hphase, ⟨opening, hopen, rfl⟩ | ⟨err, rfl⟩⟩ := openDecide_eq_some hstep
    · exact h.setSession ((h id).openDecide hphase hopen)
    · exact h.setSession ((h id).fail err)
  | openLands id => exact h.openLands hstep
  | openReturns id result =>
    obtain ⟨opening, hphase, ⟨version, hlanded, rfl⟩ | ⟨err, rfl⟩⟩ := openReturns_eq_some hstep
    · exact h.setSession ((h id).openReturns hphase hlanded)
    · exact h.setSession ((h id).fail err)
  | writer id action => exact h.writer hstep
  | persistLands id persister => exact h.persistLands hstep
  | crash id =>
    obtain rfl := Option.some.inj hstep
    exact h.setSession (h id).crash

theorem current_of_reachable (hreach : Reachable (step cfg) (start json) s) : s.Current :=
  hreach.invariant (current_start json) fun _ _ _ hbefore hstep ↦ hbefore.step hstep

/-- A write in order takes the object forward; any other step leaves it. -/
theorem forward_step {action : StreamAction β} (h : s.Current) (hinorder : s.InOrder action)
    (hstep : step cfg s action = some s') : Forward s.json s'.json := by
  cases action with
  | openRead id =>
    obtain ⟨-, rfl⟩ := openRead_eq_some hstep
    exact .refl s.json
  | openDecide id nowMs watermark staged =>
    obtain ⟨state, -, ⟨opening, -, rfl⟩ | ⟨err, rfl⟩⟩ := openDecide_eq_some hstep <;>
      exact .refl s.json
  | openLands id =>
    obtain ⟨opening, hphase, hlanded, rfl⟩ := openLands_eq_some hstep
    exact ((h id).opening opening hphase).1 hlanded hinorder
  | openReturns id result =>
    obtain ⟨opening, -, ⟨version, -, rfl⟩ | ⟨err, rfl⟩⟩ := openReturns_eq_some hstep <;>
      exact .refl s.json
  | writer id action =>
    obtain ⟨opening, w, next, session, -, -, -, rfl⟩ := writer_eq_some hstep
    exact .refl s.json
  | persistLands id persister =>
    obtain ⟨opening, w, state, hphase, hpersist, -, rfl⟩ := persistLands_eq_some hstep
    refine ((h id).pending opening w persister state hphase ?_).2.1 hinorder
    simp [Writer.pending, hpersist]
  | crash id =>
    obtain rfl := Option.some.inj hstep
    exact .refl s.json

/-- In every run whose writes take effect in order, neither offset of the state object goes back. -/
theorem state_json_forward (cfg : Nat → WriterConfig β) (json : Option StateFile) (s s' : Stream β)
    (hreach : ReachableUnder (step cfg) InOrder (start json) s)
    (hlater : ReachableUnder (step cfg) InOrder s s') : Forward s.json s'.json := by
  refine hlater.strengthened (fun s' ↦ Forward s.json s'.json) (.refl s.json) ?_
  intro before action after hbefore hforward hinorder hstep
  have hcurrent : before.Current := current_of_reachable (hreach.trans hbefore).reachable
  exact hforward.trans (forward_step hcurrent hinorder hstep)

/-- The steps of an open of a stream without staged files. -/
def sampleOpen (id nowMs : Nat) : List (StreamAction RecordBatch) :=
  [.openRead id, .openDecide id nowMs none [], .openLands id, .openReturns id (.ok ())]

/-- The ticker of a writer computes a state file for a heartbeat or a confirmed offset. -/
def samplePersist (id : Nat) (confirmedEnd : Option Int) : List (StreamAction RecordBatch) :=
  [.writer id .tick, .writer id .tickerCheck, .writer id (.tryLock .ticker true),
    .writer id (.persistBegin .ticker confirmedEnd true), .writer id (.persistRecheck .ticker)]

/-- A writer that persisted the offset 9. -/
def persisted : Stream RecordBatch :=
  (run (restrict (step fun _ ↦ sampleConfig) InOrder) (start none)
    (sampleOpen 0 1 ++ samplePersist 0 (some 9) ++
      [.persistLands 0 .ticker, .writer 0 (.persistWrite .ticker (.ok ()))])).getD (start none)

/-- The session that takes over from it. -/
def succeeded : Stream RecordBatch :=
  (run (restrict (step fun _ ↦ sampleConfig) InOrder) persisted (.crash 0 :: sampleOpen 1 5)).getD
    (start none)

/-- The successor's open takes the object forward. -/
theorem state_json_forward_succeeded : Forward persisted.json succeeded.json :=
  state_json_forward (fun _ ↦ sampleConfig) none persisted succeeded
    (reachableUnder_getD_of_restrict .refl (by decide +kernel))
    (reachableUnder_getD_of_restrict .refl (by decide +kernel))

/-- A successor opened while a heartbeat write of its predecessor was under way. -/
def overlapped : Stream RecordBatch :=
  (run (step fun _ ↦ sampleConfig) (start none)
    (sampleOpen 0 1 ++ samplePersist 0 none ++ sampleOpen 1 5)).getD (start none)

theorem overlapped_reachable : Reachable (step fun _ ↦ sampleConfig) (start none) overlapped :=
  reachable_getD_of_run .refl (by decide +kernel)

/-- The predecessor's write takes the epoch from 5 back to 1. -/
theorem taken_back :
    ¬ ∀ s s' : Stream RecordBatch, Reachable (step fun _ ↦ sampleConfig) (start none) s →
      Reachable (step fun _ ↦ sampleConfig) s s' → Forward s.json s'.json := by
  intro hclaim
  obtain ⟨after, hafter, hforward⟩ := hclaim overlapped
    ((run (step fun _ ↦ sampleConfig) overlapped [.persistLands 0 .ticker]).getD (start none))
    overlapped_reachable (reachable_getD_of_run .refl (by decide +kernel)) ⟨none, 5⟩
    (by decide +kernel)
  have hjson : ((run (step fun _ ↦ sampleConfig) overlapped [.persistLands 0 .ticker]).getD
      (start none)).json = some ⟨none, 1⟩ := by decide +kernel
  obtain rfl := Option.some.inj (hafter.symm.trans hjson)
  exact absurd hforward.epoch (by decide)

end Stream

end RelytIngest
