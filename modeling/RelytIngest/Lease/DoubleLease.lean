import RelytIngest.Lease.Sessions

/-!
# A double lease

Whoever acquires the lock last has its uuid in it, and the earlier holder loses it for good unless
one of its renewals is late: it read the lock before the other acquisition returned and takes effect
after. Then both holders can go on renewing, one over the other (`two_holders`).
`double_lease_detected` proves that nothing else keeps two of them unfenced (`RenewsInTime`).
-/

set_option autoImplicit false
set_option relaxedAutoImplicit false

namespace RelytIngest

open Foundations

namespace Session

variable {me : String} {clock date : Nat} {lock : Option LockFile} {call : LeaseCall}
  {session session' : Session} {effect : Effect}

/-- A session that another one has taken the lease from at this date. -/
structure Overtaken (date : Nat) (session : Session) : Prop where
  acquired : session.acquiredAt.isSome
  renewing : ∀ l readAt, session.beat = .renewing l readAt → readAt ≤ date
  checked : ∀ readAt, session.checkedAt = some readAt → date < readAt → session.fenced.isSome

theorem Overtaken.fence (h : session.Overtaken date) (reason : String) :
    ((session.fence reason).Overtaken date) where
  acquired := h.acquired
  renewing := h.renewing
  checked _ _ _ := fence_isSome session reason

/-- A session that does not find its own lock and does not renew late stays overtaken, and does not
write the lock. -/
theorem Overtaken.move (h : session.Overtaken date) (hsound : session.Sound me clock)
    (hlost : ownedBy me lock = false)
    (hintime : call.renews = true → ∀ l readAt, session.beat = .renewing l readAt → date < readAt)
    (hmove : Move me clock lock call session session' effect) :
    session'.Overtaken date ∧ ∀ l, effect ≠ .write l := by
  cases hmove with
  | opens caller _ hbefore hafter hfresh heffect =>
    refine ⟨⟨h.acquired, h.renewing, h.checked⟩, fun l hwrite ↦ ?_⟩
    have hnone := hsound.fresh (heffect l hwrite).1
    simpa [hnone] using h.acquired
  | acquires hcaller howned | looks attempt joined hcaller howned | reads l hbeat howned huuid =>
    simp [hlost] at howned
  | starts sinceBeatMs lastVerifiedMs hcaller =>
    exact ⟨⟨h.acquired, by simp, h.checked⟩, by simp⟩
  | leaves | joins | finds | deletes =>
    exact ⟨⟨h.acquired, h.renewing, h.checked⟩, by simp⟩
  | retries attempt joined _ hcaller heffect =>
    exact ⟨⟨h.acquired, h.renewing, h.checked⟩, heffect⟩
  | beats beat sinceBeatMs stopPermit _ hborn hlive hnext heffect =>
    exact ⟨⟨h.acquired, fun l readAt hbeat ↦ absurd hbeat (hnext l readAt), h.checked⟩, heffect⟩
  | expires reason hbeat =>
    exact ⟨(⟨h.acquired, by simp, h.checked⟩ :
      { session with beat := .ended }.Overtaken date).fence reason, by simp⟩
  | fences reason hbeat =>
    exact ⟨⟨h.acquired, by simp [Session.fence], fun _ _ _ ↦ fence_isSome _ reason⟩, by simp⟩
  | writes _ l readAt _ hbeat hnext hcaller hacquired hchecked hfenced heffect =>
    have hearly : readAt ≤ date := h.renewing l readAt hbeat
    refine ⟨⟨hacquired ▸ h.acquired, ?_, fun date' hdate' hlater ↦ ?_⟩, fun l' hwrite ↦ ?_⟩
    · rcases hnext with hwaiting | hended
      · simp [hwaiting]
      · simp [hended]
    · obtain rfl := Option.some.inj (hchecked.symm.trans hdate')
      omega
    · have := hintime (heffect l' hwrite).1 l readAt hbeat
      omega

end Session

namespace Lease

variable {cfg : LeaseConfig} {lock : Option LockFile} {s s' : Lease}

/-- No renewal takes effect that read the lock before another acquisition returned. -/
def RenewsInTime (s : Lease) (action : LeaseAction) : Prop :=
  action.call.renews = true → ∀ l readAt,
    (s.sessions action.session).beat = .renewing l readAt →
      ∀ other date, other ≠ action.session → (s.sessions other).acquiredAt = some date →
        date < readAt

/-- The session with the later acquisition has overtaken the other one. -/
def Overtakes (s : Lease) : Prop :=
  ∀ earlier later first second, (s.sessions earlier).acquiredAt = some first →
    (s.sessions later).acquiredAt = some second → earlier ≠ later →
      first ≠ second ∧ (first < second →
        ownedBy earlier s.lock = false ∧ (s.sessions earlier).Overtaken second)

/-- A session that has not acquired the lease in a step overtakes as before. -/
theorem Overtakes.keeps (h : s.Overtakes)
    (hsound : ∀ uuid, (s.sessions uuid).Sound uuid s.clock) {action : LeaseAction}
    {session : Session} {effect : Effect} (hintime : s.RenewsInTime action)
    (hmove : Session.Move action.session s.clock s.lock action.call (s.sessions action.session)
      session effect) {earlier later : String} {first second : Nat} (hne : earlier ≠ later)
    (hfirst : (s.sessions earlier).acquiredAt = some first)
    (hsecond : (s.sessions later).acquiredAt = some second) :
    first ≠ second ∧ (first < second →
      ownedBy earlier (s.after action.session session effect).lock = false ∧
        ((s.after action.session session effect).sessions earlier).Overtaken second) := by
  obtain ⟨hdistinct, hovertaken⟩ := h earlier later first second hfirst hsecond hne
  refine ⟨hdistinct, fun hless ↦ ?_⟩
  obtain ⟨hlost, hearlier⟩ := hovertaken hless
  by_cases hactive : earlier = action.session
  · subst hactive
    obtain ⟨hstill, hwrites⟩ := hearlier.move (hsound action.session) hlost
      (fun hrenews l readAt hbeat ↦ hintime hrenews l readAt hbeat later second hne.symm hsecond)
      hmove
    refine ⟨?_, by simpa [Lease.after] using hstill⟩
    cases effect with
    | keep => exact hlost
    | delete => rfl
    | write l => exact absurd rfl (hwrites l)
  · refine ⟨ownedBy_effect (hsound action.session) hmove hactive hlost, ?_⟩
    simpa [Lease.after, hactive] using hearlier

theorem Overtakes.step (h : s.Overtakes)
    (hsound : ∀ uuid, (s.sessions uuid).Sound uuid s.clock) {action : LeaseAction}
    (hintime : s.RenewsInTime action) (hstep : Lease.step cfg s action = some s') :
    s'.Overtakes := by
  obtain ⟨session, effect, hnext, rfl⟩ := step_eq_some hstep
  have hmove := Session.next_move hnext
  intro earlier later first second hfirst hsecond hne
  -- which of the two, if any, has acquired the lease in this step
  rcases hmove.acquiredAt with hsame | ⟨hnow, howned, rfl⟩
  · have hkept (uuid : String) :
        ((s.after action.session session effect).sessions uuid).acquiredAt =
          (s.sessions uuid).acquiredAt := by
      by_cases huuid : uuid = action.session
      · simp [Lease.after, huuid, hsame]
      · simp [Lease.after, huuid]
    rw [hkept] at hfirst hsecond
    exact h.keeps hsound hintime hmove hne hfirst hsecond
  · by_cases hlater : later = action.session
    · subst hlater
      have hother : ((s.after action.session session .keep).sessions earlier) =
          s.sessions earlier := by simp [Lease.after, hne]
      rw [hother] at hfirst ⊢
      obtain rfl : s.clock = second := by simpa [Lease.after, hnow] using hsecond
      have hdate := (hsound earlier).acquired first hfirst
      refine ⟨Nat.ne_of_lt hdate, fun _ ↦ ⟨?_, by simp [hfirst], fun l readAt hbeat ↦ ?_,
        fun readAt hchecked hafter ↦ ?_⟩⟩
      · obtain ⟨l, hlock, huuid⟩ := ownedBy_iff.mp howned
        simpa [Lease.after, Effect.apply, hlock, huuid] using hne.symm
      · exact Nat.le_of_lt ((hsound earlier).renewing l readAt hbeat).2
      · exact absurd ((hsound earlier).checked readAt hchecked) (Nat.not_lt_of_gt hafter)
    · have hother : ((s.after action.session session .keep).sessions later) =
          s.sessions later := by simp [Lease.after, hlater]
      rw [hother] at hsecond
      by_cases hearlier : earlier = action.session
      · subst hearlier
        obtain rfl : s.clock = first := by simpa [Lease.after, hnow] using hfirst
        have hdate := (hsound later).acquired second hsecond
        exact ⟨Nat.ne_of_gt hdate, fun hless ↦ absurd hdate (Nat.not_lt_of_gt hless)⟩
      · have hfirst' : (s.sessions earlier).acquiredAt = some first := by
          simpa [Lease.after, hearlier] using hfirst
        exact h.keeps hsound hintime hmove hne hfirst' hsecond

theorem overtakes_of_reachable (hreach : ReachableUnder (step cfg) RenewsInTime (start lock) s) :
    s.Overtakes := by
  refine hreach.strengthened Overtakes
    (fun _ _ _ _ hfirst ↦ by simp [start, Session.initial] at hfirst) ?_
  intro before action after hbefore hovertakes hintime hstep
  exact hovertakes.step (sound_of_reachable hbefore.reachable) hintime hstep

/-- Two sessions that have both acquired the lease, and have both finished a heartbeat iteration
that began after that and whose read was answered, are not both unfenced. -/
theorem double_lease_detected (cfg : LeaseConfig) (lock : Option LockFile) (s : Lease)
    (hreach : ReachableUnder (step cfg) RenewsInTime (start lock) s) (p q : String) (hne : p ≠ q)
    (acquiredP acquiredQ checkedP checkedQ : Nat)
    (hp : (s.sessions p).acquiredAt = some acquiredP)
    (hq : (s.sessions q).acquiredAt = some acquiredQ)
    (hcheckedP : (s.sessions p).checkedAt = some checkedP)
    (hcheckedQ : (s.sessions q).checkedAt = some checkedQ)
    (hafterP : max acquiredP acquiredQ < checkedP) (hafterQ : max acquiredP acquiredQ < checkedQ) :
    (s.sessions p).fenced.isSome ∨ (s.sessions q).fenced.isSome := by
  have hovertakes := overtakes_of_reachable hreach
  obtain ⟨hdistinct, hpq⟩ := hovertakes p q acquiredP acquiredQ hp hq hne
  obtain ⟨-, hqp⟩ := hovertakes q p acquiredQ acquiredP hq hp hne.symm
  rcases Nat.lt_or_gt_of_ne hdistinct with hless | hless
  · exact Or.inl ((hpq hless).2.checked checkedP hcheckedP (by omega))
  · exact Or.inr ((hqp hless).2.checked checkedQ hcheckedQ (by omega))

/-- A lease that is renewed at every tick of a second. -/
def sampleLeaseConfig : LeaseConfig := ⟨"_meta/c/1/2/w/lock", 180000, 1000⟩

/-- A process at this time, on a machine of its own. -/
def viewAt (nowMs : Nat) : HostView := ⟨nowMs, true, "h", 1, true⟩

/-- The steps of a session that finds the lock claimable. -/
def opening (session : String) (nowMs : Nat) : List LeaseAction :=
  [.openTable, .acquireRead none (viewAt nowMs) 0, .acquireWrite .done (viewAt nowMs),
    .acquireReadBack none (viewAt nowMs), .openReturns (.ok ()) nowMs].map (LeaseAction.mk session)

/-- The read of a heartbeat iteration. -/
def beatReads (session : String) (nowMs : Nat) : List LeaseAction :=
  [⟨session, .wake⟩, ⟨session, .beatRead none (viewAt nowMs) nowMs⟩]

/-- The write of a renewal. -/
def beatWrites (session : String) (nowMs : Nat) : LeaseAction :=
  ⟨session, .beatWrite .done (viewAt nowMs) nowMs⟩

/-- A session that takes no step of a run is as it was. -/
theorem sessions_of_run {actions : List LeaseAction} {uuid : String}
    (hidle : ∀ action ∈ actions, action.session ≠ uuid)
    (hrun : run (step cfg) s actions = some s') : s'.sessions uuid = s.sessions uuid := by
  induction actions generalizing s with
  | nil => exact congrArg (fun s ↦ sessions s uuid) (Option.some.inj hrun).symm
  | cons action rest ih =>
    rw [run, Option.bind_eq_some_iff] at hrun
    obtain ⟨next, hstep, hrest⟩ := hrun
    obtain ⟨session, effect, -, rfl⟩ := step_eq_some hstep
    rw [List.forall_mem_cons] at hidle
    exact (ih hidle.2 hrest).trans (Function.update_of_ne hidle.1.symm _ _)

/-- The lease of `a` has gone stale when `b` takes it over; `a` looks again, and so does `b`. -/
def overtaking : Lease :=
  (run (step sampleLeaseConfig) (start none)
    (opening "a" 0 ++ opening "b" 200000 ++ beatReads "a" 200001 ++ beatReads "b" 200002)).getD
    (start none)

/-- `b` renews its lease. -/
def overtaken : Lease :=
  (step sampleLeaseConfig overtaking (beatWrites "b" 200003)).getD (start none)

theorem overtaking_run : run (step sampleLeaseConfig) (start none)
    (opening "a" 0 ++ opening "b" 200000 ++ beatReads "a" 200001 ++ beatReads "b" 200002) =
      some overtaking :=
  (Option.getD_of_ne_none (Option.isSome_iff_ne_none.mp (by decide +kernel)) _).symm

theorem overtaken_reachable :
    ReachableUnder (step sampleLeaseConfig) RenewsInTime (start none) overtaken := by
  have hquiet : ∀ action ∈ opening "a" 0 ++ opening "b" 200000 ++ beatReads "a" 200001 ++
      beatReads "b" 200002, action.call.renews = false := by decide
  have hbefore : ReachableUnder (step sampleLeaseConfig) RenewsInTime (start none) overtaking :=
    reachableUnder_of_run .refl
      (fun action haction s hrenews ↦ by simp [hquiet action haction] at hrenews) overtaking_run
  have hstep : step sampleLeaseConfig overtaking (beatWrites "b" 200003) = some overtaken :=
    (Option.getD_of_ne_none (Option.isSome_iff_ne_none.mp (by decide +kernel)) _).symm
  refine hbefore.snoc (fun _ l readAt hbeat other date hother hacquired ↦ ?_) hstep
  have hreadAt : readAt = 13 := by
    have hread : (overtaking.sessions "b").beat =
        .renewing (.new "b" (viewAt 200000)) 13 := by decide +kernel
    exact (Beat.renewing.inj (hbeat.symm.trans hread)).2
  by_cases hholder : other = "a"
  · have hdate : (overtaking.sessions "a").acquiredAt = some 3 := by decide +kernel
    subst hholder
    obtain rfl := Option.some.inj (hacquired.symm.trans hdate)
    omega
  · have hidle : ∀ action ∈ opening "a" 0 ++ opening "b" 200000 ++ beatReads "a" 200001 ++
        beatReads "b" 200002, action.session ≠ other := by
      intro action haction
      have hsessions : ∀ action ∈ opening "a" 0 ++ opening "b" 200000 ++ beatReads "a" 200001 ++
          beatReads "b" 200002, action.session = "a" ∨ action.session = "b" := by decide
      rcases hsessions action haction with hsession | hsession
      · exact fun heq ↦ hholder (heq.symm.trans hsession)
      · exact fun heq ↦ hother (heq.symm.trans hsession)
    rw [sessions_of_run hidle overtaking_run] at hacquired
    simp [start, Session.initial] at hacquired

/-- The session that was taken over is fenced. -/
theorem double_lease_detected_overtaken :
    (overtaken.sessions "a").fenced.isSome ∨ (overtaken.sessions "b").fenced.isSome :=
  double_lease_detected sampleLeaseConfig none overtaken overtaken_reachable "a" "b" (by decide)
    3 8 11 13 (by decide +kernel) (by decide +kernel) (by decide +kernel) (by decide +kernel)
    (by decide) (by decide)

/-- A renewal of `a` that read the lock before `b` took it over takes effect after: each of the two
then finds its own record and writes it over the other's, and neither is fenced. -/
theorem two_holders :
    ¬ ∀ (s : Lease), Reachable (step sampleLeaseConfig) (start none) s → ∀ p q, p ≠ q →
      ∀ acquiredP acquiredQ checkedP checkedQ, (s.sessions p).acquiredAt = some acquiredP →
        (s.sessions q).acquiredAt = some acquiredQ → (s.sessions p).checkedAt = some checkedP →
          (s.sessions q).checkedAt = some checkedQ → max acquiredP acquiredQ < checkedP →
            max acquiredP acquiredQ < checkedQ →
              (s.sessions p).fenced.isSome ∨ (s.sessions q).fenced.isSome := by
  intro hclaim
  have hreach : Reachable (step sampleLeaseConfig) (start none)
      ((run (step sampleLeaseConfig) (start none)
        (opening "a" 0 ++ beatReads "a" 200000 ++ opening "b" 200000 ++ beatReads "b" 200001 ++
          [beatWrites "a" 200002] ++ beatReads "a" 200003 ++
          [beatWrites "b" 200004, beatWrites "a" 200005])).getD (start none)) :=
    reachable_getD_of_run .refl (by decide +kernel)
  have hfenced := hclaim _ hreach "a" "b" (by decide) 3 10 16 13 (by decide +kernel)
    (by decide +kernel) (by decide +kernel) (by decide +kernel) (by decide) (by decide)
  revert hfenced
  decide +kernel

end Lease

end RelytIngest
