import RelytIngest.Lease.Sessions

/-!
# A close releases its lease

Once `close` has seen its heartbeat end and its release has succeeded, the session takes no step any
more (`Session.Sound.closed_ends`), and no other session writes its uuid. A delete of `close`
follows a read that found its own record (`DeletesOwn`). `close_releases` puts the two together.
-/

set_option autoImplicit false
set_option relaxedAutoImplicit false

namespace RelytIngest

open Foundations

namespace Session

variable {me : String} {clock : Nat} {lock : Option LockFile} {call : LeaseCall}
  {session session' : Session} {effect : Effect}

/-- A session that closed behind its heartbeat takes no step. -/
theorem Sound.closed_ends (h : session.Sound me clock) {released : Bool}
    (hclosed : session.caller = .closed true released) :
    ¬ Move me clock lock call session session' effect := by
  have hended : session.beat = .ended := h.joined (by rw [hclosed]; rfl)
  intro hmove
  cases hmove <;> simp_all [Caller.hasWriter]

/-- A release that succeeds leaves no record of the session behind. -/
theorem Move.releases {joined : Bool}
    (hmove : Move me clock lock call session session' effect)
    (hopen : session.caller ≠ .closed joined true)
    (hclosed : session'.caller = .closed joined true) :
    ownedBy me (effect.apply lock) = false := by
  cases hmove with
  | finds attempt _ hcaller hother => exact hother
  | deletes attempt readAt _ hcaller => rfl
  | opens caller _ hbefore hafter => simp [show caller = _ from hclosed, Caller.hasWriter] at hafter
  | acquires | starts | joins | looks => simp at hclosed
  | leaves caller stopPermit hcaller hafter =>
    rcases hafter with rfl | rfl <;> simp at hclosed
  | retries attempt _ _ hcaller =>
    simp only [retryRelease] at hclosed
    split at hclosed <;> simp at hclosed
  | beats | expires | reads | fences => exact absurd hclosed hopen
  | writes _ l readAt _ hbeat hnext hcaller => exact absurd (hcaller ▸ hclosed) hopen

/-- A session that is about to delete found its own record when it looked. -/
theorem Move.deleting {attempt readAt : Nat} {joined : Bool}
    (hmove : Move me clock lock call session session' effect)
    (hdeleting : session'.caller = .deleting attempt joined readAt) :
    session.caller = .deleting attempt joined readAt ∨
      readAt = clock ∧ ownedBy me lock ∧ effect = .keep := by
  cases hmove with
  | looks attempt' joined' hcaller howned =>
    exact Or.inr ⟨(Caller.deleting.inj hdeleting).2.2.symm, howned, rfl⟩
  | opens caller _ hbefore hafter =>
    simp [show caller = _ from hdeleting, Caller.hasWriter] at hafter
  | acquires | starts | joins | finds | deletes => simp at hdeleting
  | leaves caller stopPermit hcaller hafter =>
    rcases hafter with rfl | rfl <;> simp at hdeleting
  | retries attempt' _ _ hcaller =>
    simp only [retryRelease] at hdeleting
    split at hdeleting <;> simp at hdeleting
  | beats | expires | reads | fences => exact Or.inl hdeleting
  | writes _ l readAt' _ hbeat hnext hcaller => exact Or.inl (hcaller ▸ hdeleting)

end Session

namespace Lease

variable {cfg : LeaseConfig} {lock : Option LockFile} {s s' : Lease} {uuid : String}

/-- The session has closed, behind its heartbeat, and released its lease. -/
def Closed (s : Lease) (uuid : String) : Prop := (s.sessions uuid).caller = .closed true true

/-- Nothing of a closed session is in the lock object. -/
def Released (s : Lease) (uuid : String) : Prop :=
  s.Closed uuid → ownedBy uuid s.lock = false

/-- What a session is about to delete is its own record, unless another session has written the lock
object since it looked. -/
def DeletesOwn (s : Lease) (uuid : String) : Prop :=
  ∀ attempt joined readAt, (s.sessions uuid).caller = .deleting attempt joined readAt →
    readAt < s.clock ∧ ∀ l, s.lock = some l → l.instanceUuid ≠ uuid →
      ∃ date, s.lastWrite = some (l.instanceUuid, date) ∧ readAt < date

section Step

variable (hsound : ∀ uuid, (s.sessions uuid).Sound uuid s.clock) {action : LeaseAction}
  (hstep : step cfg s action = some s')
include hsound hstep

theorem Released.step (h : s.Released uuid) : s'.Released uuid := by
  obtain ⟨session, effect, hnext, rfl⟩ := step_eq_some hstep
  have hmove := Session.next_move hnext
  intro hclosed
  by_cases hactive : uuid = action.session
  · subst hactive
    have hafter : session.caller = .closed true true := by
      simpa [Closed, Lease.after] using hclosed
    have hopen : (s.sessions action.session).caller ≠ .closed true true := fun hbefore ↦
      (hsound action.session).closed_ends hbefore hmove
    exact hmove.releases hopen hafter
  · have hbefore : s.Closed uuid := by simpa [Closed, Lease.after, hactive] using hclosed
    exact ownedBy_effect (hsound action.session) hmove hactive (h hbefore)

theorem DeletesOwn.step (h : s.DeletesOwn uuid) : s'.DeletesOwn uuid := by
  obtain ⟨session, effect, hnext, rfl⟩ := step_eq_some hstep
  have hmove := Session.next_move hnext
  intro attempt joined readAt hdeleting
  by_cases hactive : uuid = action.session
  · subst hactive
    have hafter : session.caller = .deleting attempt joined readAt := by
      simpa [Lease.after] using hdeleting
    rcases hmove.deleting hafter with hbefore | ⟨rfl, howned, rfl⟩
    · obtain ⟨hdate, hown⟩ := h attempt joined readAt hbefore
      refine ⟨Nat.lt_succ_of_lt hdate, fun l hlock hother ↦ ?_⟩
      cases effect with
      | keep => exact hown l hlock hother
      | delete => simp [Lease.after, Effect.apply] at hlock
      | write written =>
        obtain rfl : written = l := by simpa [Lease.after, Effect.apply] using hlock
        exact absurd ((hsound action.session).writes_own hmove) hother
    · refine ⟨Nat.lt_succ_self _, fun l hlock hother ↦ ?_⟩
      obtain ⟨found, hfound, huuid⟩ := ownedBy_iff.mp howned
      obtain rfl : found = l := Option.some.inj (hfound.symm.trans hlock)
      exact absurd huuid hother
  · have hbefore : (s.sessions uuid).caller = .deleting attempt joined readAt := by
      simpa [Lease.after, hactive] using hdeleting
    obtain ⟨hdate, hown⟩ := h attempt joined readAt hbefore
    refine ⟨Nat.lt_succ_of_lt hdate, fun l hlock hother ↦ ?_⟩
    cases effect with
    | keep => exact hown l hlock hother
    | delete => simp [Lease.after, Effect.apply] at hlock
    | write written =>
      obtain rfl : written = l := by simpa [Lease.after, Effect.apply] using hlock
      exact ⟨s.clock, by simp [Lease.after, (hsound action.session).writes_own hmove], hdate⟩

end Step

theorem released_of_reachable (hreach : Reachable (step cfg) (start lock) s) (uuid : String) :
    s.Released uuid := by
  refine hreach.strengthened (fun s ↦ s.Released uuid)
    (fun hclosed ↦ by simp [Closed, start, Session.initial] at hclosed) ?_
  intro before action after hbefore hreleased _ hstep
  exact hreleased.step (sound_of_reachable hbefore) hstep

theorem deletesOwn_of_reachable (hreach : Reachable (step cfg) (start lock) s) (uuid : String) :
    s.DeletesOwn uuid := by
  refine hreach.strengthened (fun s ↦ s.DeletesOwn uuid)
    (fun _ _ _ hdeleting ↦ by simp [start, Session.initial] at hdeleting) ?_
  intro before action after hbefore hdeletes _ hstep
  exact hdeletes.step (sound_of_reachable hbefore) hstep

/-- A closed session stays closed. -/
theorem Closed.stays (hreach : Reachable (step cfg) (start lock) s) (hclosed : s.Closed uuid)
    (hlater : Reachable (step cfg) s s') : s'.Closed uuid := by
  refine hlater.strengthened (fun s ↦ s.Closed uuid) hclosed ?_
  intro before action after hbefore hclosed _ hstep
  obtain ⟨session, effect, hnext, rfl⟩ := step_eq_some hstep
  by_cases hactive : uuid = action.session
  · subst hactive
    exact absurd (Session.next_move hnext)
      ((sound_of_reachable (hreach.trans hbefore) action.session).closed_ends hclosed)
  · simpa [Closed, Lease.after, hactive] using hclosed

/-- What a close does with the lease of its session. -/
structure ClosesCleanly (cfg : LeaseConfig) (s : Lease) (uuid : String) : Prop where
  /-- Once the heartbeat was joined and the release succeeded, the lock object never again carries
  the uuid. -/
  released : s.Closed uuid → ∀ s', Reachable (step cfg) s s' → ∀ l, s'.lock = some l →
    l.instanceUuid ≠ uuid
  /-- A delete that removes the record of another session comes after that session's write, which
  came after the read of the attempt. -/
  deletes : ∀ outcome s', step cfg s ⟨uuid, .releaseDelete outcome⟩ = some s' →
    outcome.takesEffect → ∀ l, s.lock = some l → l.instanceUuid ≠ uuid →
      ∃ attempt joined readAt date,
        (s.sessions uuid).caller = .deleting attempt joined readAt ∧
          s.lastWrite = some (l.instanceUuid, date) ∧ readAt < date

/-- In every run, every close is clean. -/
theorem close_releases (cfg : LeaseConfig) (lock : Option LockFile) (s : Lease)
    (hreach : Reachable (step cfg) (start lock) s) (uuid : String) : s.ClosesCleanly cfg uuid where
  released hclosed s' hlater l hlock huuid := by
    have hlost := released_of_reachable (hreach.trans hlater) uuid (hclosed.stays hreach hlater)
    simp [hlock, huuid] at hlost
  deletes outcome s' hstep _ l hlock hother := by
    obtain ⟨session, effect, hnext, -⟩ := step_eq_some hstep
    simp only [Session.next, Session.releaseDelete] at hnext
    split at hnext
    · next attempt joined readAt hdeleting =>
      obtain ⟨date, hwrite, hdate⟩ :=
        (deletesOwn_of_reachable hreach uuid attempt joined readAt hdeleting).2 l hlock hother
      exact ⟨attempt, joined, readAt, date, hdeleting, hwrite, hdate⟩
    · simp at hnext

/-- A lease that is renewed at every tick of two seconds. -/
def closingConfig : LeaseConfig := ⟨"_meta/c/1/2/w/lock", 180000, 2000⟩

/-- What a session sees at this time. -/
def closingView (nowMs : Nat) : HostView := ⟨nowMs, true, "h", 1, true⟩

/-- A session that closed while its heartbeat was between the read and the write of a renewal. -/
def closedMidway : Lease :=
  (run (step closingConfig) (start none)
    ([.openTable, .acquireRead none (closingView 0) 0, .acquireWrite .done (closingView 0),
      .acquireReadBack none (closingView 1), .openReturns (.ok ()) 2, .wake,
      .beatRead none (closingView 3) 3, .closeStop, .beatWrite .done (closingView 4) 4, .wake,
      .closeJoin false, .releaseRead none, .releaseDelete .done].map (LeaseAction.mk "a"))).getD
    (start none)

theorem close_releases_midway : (closedMidway.sessions "a").caller = .closed true true ∧
    closedMidway.ClosesCleanly closingConfig "a" :=
  ⟨by decide +kernel, close_releases closingConfig none closedMidway
    (reachable_getD_of_run .refl (by decide +kernel)) "a"⟩

end Lease

end RelytIngest
