import RelytIngest.Lease.Machine
import Mathlib.Tactic.SplitIfs

/-!
# What a session does with the lock object

`Session.Move` lists what a step of one session can do (`next_move`). From it come the facts that
hold of every session in every run (`Session.Sound`, `sound_of_reachable`): only its own record does
a session write, its heartbeat runs only while there is a writer, and once `close` has joined it, it
has ended.
-/

set_option autoImplicit false
set_option relaxedAutoImplicit false

namespace RelytIngest

open Foundations

/-- Before the read-back of `acquire_writer_lease` has returned. -/
def Caller.unacquired : Caller → Bool
  | .idle | .acquiring | .claiming | .settling => true
  | _ => false

/-- `open_table` has returned a writer. -/
def Caller.hasWriter : Caller → Bool
  | .running | .joining | .releasing _ _ | .deleting _ _ _ | .closed _ _ | .dropped => true
  | _ => false

/-- `close` has seen the heartbeat end. -/
def Caller.hasJoined : Caller → Bool
  | .releasing _ joined | .deleting _ joined _ | .closed joined _ => joined
  | _ => false

theorem Caller.unacquired_of_hasWriter {caller : Caller} (hwriter : caller.hasWriter = true) :
    caller.unacquired = false := by
  cases caller <;> simp_all [Caller.hasWriter, Caller.unacquired]

theorem Caller.hasJoined_of_not_hasWriter {caller : Caller} (hwriter : caller.hasWriter = false) :
    caller.hasJoined = false := by
  cases caller <;> simp_all [Caller.hasWriter, Caller.hasJoined]

/-- The step is a renewal that takes effect. -/
def LeaseCall.renews : LeaseCall → Bool
  | .beatWrite outcome _ _ => outcome.takesEffect
  | _ => false

namespace Session

variable {cfg : LeaseConfig} {me : String} {clock : Nat} {lock : Option LockFile}
  {call : LeaseCall} {session session' : Session} {effect : Effect}

/-- What a step of a session can do, and its effect on the lock object. -/
inductive Move (me : String) (clock : Nat) (lock : Option LockFile) (call : LeaseCall) :
    Session → Session → Effect → Prop
  | opens (session : Session) (caller : Caller) (effect : Effect)
      (hbefore : session.caller.hasWriter = false) (hafter : caller.hasWriter = false)
      (hfresh : caller.unacquired → session.caller.unacquired)
      (heffect : ∀ l, effect = .write l → session.caller.unacquired ∧ l.instanceUuid = me) :
      Move me clock lock call session { session with caller := caller } effect
  | acquires (session : Session) (hcaller : session.caller = .settling)
      (howned : ownedBy me lock) :
      Move me clock lock call session
        { session with caller := .opening, acquiredAt := some clock } .keep
  | starts (session : Session) (sinceBeatMs lastVerifiedMs : Nat)
      (hcaller : session.caller = .opening) :
      Move me clock lock call session
        { session with
          caller := .running
          beat := .waiting
          sinceBeatMs := sinceBeatMs
          lastVerifiedMs := lastVerifiedMs } .keep
  | leaves (session : Session) (caller : Caller) (stopPermit : Bool)
      (hcaller : session.caller = .running) (hafter : caller = .dropped ∨ caller = .joining) :
      Move me clock lock call session
        { session with caller := caller, stopPermit := stopPermit } .keep
  | joins (session : Session) (joined : Bool) (hcaller : session.caller = .joining)
      (hended : joined = true → session.beat = .ended) :
      Move me clock lock call session { session with caller := .releasing 1 joined } .keep
  | looks (session : Session) (attempt : Nat) (joined : Bool)
      (hcaller : session.caller = .releasing attempt joined) (howned : ownedBy me lock) :
      Move me clock lock call session
        { session with caller := .deleting attempt joined clock } .keep
  | finds (session : Session) (attempt : Nat) (joined : Bool)
      (hcaller : session.caller = .releasing attempt joined) (hother : ownedBy me lock = false) :
      Move me clock lock call session { session with caller := .closed joined true } .keep
  | deletes (session : Session) (attempt readAt : Nat) (joined : Bool)
      (hcaller : session.caller = .deleting attempt joined readAt) :
      Move me clock lock call session { session with caller := .closed joined true } .delete
  | retries (session : Session) (attempt : Nat) (joined : Bool) (effect : Effect)
      (hcaller : session.caller = .releasing attempt joined ∨
        ∃ readAt, session.caller = .deleting attempt joined readAt)
      (heffect : ∀ l, effect ≠ .write l) :
      Move me clock lock call session
        { session with caller := retryRelease attempt joined } effect
  | beats (session : Session) (beat : Beat) (sinceBeatMs : Nat) (stopPermit : Bool)
      (effect : Effect) (hborn : session.beat ≠ .unborn) (hlive : session.beat ≠ .ended)
      (hnext : ∀ l readAt, beat ≠ .renewing l readAt) (heffect : ∀ l, effect ≠ .write l) :
      Move me clock lock call session
        { session with beat := beat, sinceBeatMs := sinceBeatMs, stopPermit := stopPermit } effect
  | expires (session : Session) (reason : String) (hbeat : session.beat = .reading) :
      Move me clock lock call session ({ session with beat := .ended }.fence reason) .keep
  | reads (session : Session) (l : LockFile) (hbeat : session.beat = .reading)
      (howned : ownedBy me lock) (huuid : l.instanceUuid = me) :
      Move me clock lock call session { session with beat := .renewing l clock } .keep
  | fences (session : Session) (reason : String) (hbeat : session.beat = .reading) :
      Move me clock lock call session
        ({ session with beat := .ended, checkedAt := some clock }.fence reason) .keep
  | writes (session session' : Session) (l : LockFile) (readAt : Nat) (effect : Effect)
      (hbeat : session.beat = .renewing l readAt)
      (hnext : session'.beat = .waiting ∨ session'.beat = .ended)
      (hcaller : session'.caller = session.caller)
      (hacquired : session'.acquiredAt = session.acquiredAt)
      (hchecked : session'.checkedAt = some readAt)
      (hfenced : session.fenced.isSome → session'.fenced.isSome)
      (heffect : ∀ l', effect = .write l' →
        call.renews = true ∧ l'.instanceUuid = l.instanceUuid) :
      Move me clock lock call session session' effect

theorem effect_delete_ne_write (outcome : Outcome) (l : LockFile) :
    outcome.effect .delete ≠ .write l := by
  cases outcome <;> simp [Outcome.effect, Outcome.takesEffect]

/-- A call that writes, writes its own record. -/
theorem effect_write_eq {outcome : Outcome} {written l : LockFile}
    (heffect : outcome.effect (.write written) = .write l) :
    outcome.takesEffect = true ∧ l = written := by
  cases outcome <;> simp_all [Outcome.effect, Outcome.takesEffect]

theorem fence_isSome (session : Session) (reason : String) :
    (session.fence reason).fenced.isSome := by
  cases hfenced : session.fenced <;> simp [fence, hfenced]

theorem keeping_eq_some {next : Option Session}
    (hkeeping : keeping next = some (session', effect)) :
    next = some session' ∧ effect = .keep := by
  obtain ⟨found, hfound, heq⟩ := Option.map_eq_some_iff.mp hkeeping
  obtain ⟨rfl, rfl⟩ := Prod.mk.injEq .. ▸ heq
  exact ⟨hfound, rfl⟩

/-! ### The moves of the caller -/

/-- While `open_table` runs it goes on to another of its places without touching the lock object. -/
theorem Move.opensKeep {caller : Caller} (hbefore : session.caller.hasWriter = false)
    (hafter : caller.hasWriter = false)
    (hfresh : caller.unacquired → session.caller.unacquired) :
    Move me clock lock call session { session with caller := caller } .keep :=
  .opens session caller .keep hbefore hafter hfresh (by simp)

theorem acquireRead_move {fails : Option Error} {view : HostView} {waitedMs : Nat}
    (hnext : session.acquireRead cfg me lock fails view waitedMs = some session') :
    Move me clock lock call session session' .keep := by
  unfold acquireRead at hnext
  split at hnext
  · next hcaller =>
    have hmove (caller : Caller) (hafter : caller.hasWriter = false) :
        Move me clock lock call session { session with caller := caller } .keep :=
      .opensKeep (by simp [hcaller, Caller.hasWriter]) hafter
        (by simp [hcaller, Caller.unacquired])
    obtain rfl := Option.some.inj hnext
    split
    · exact hmove _ rfl
    · split
      · exact hmove _ rfl
      · exact hmove session.caller (by simp [hcaller, Caller.hasWriter])
      · exact hmove _ rfl
  · simp at hnext

theorem acquireWrite_move {outcome : Outcome} {view : HostView}
    (hnext : session.acquireWrite me outcome view = some (session', effect)) :
    Move me clock lock call session session' effect := by
  unfold acquireWrite at hnext
  split at hnext
  · next hcaller =>
    obtain ⟨rfl, rfl⟩ := Prod.mk.injEq .. ▸ Option.some.inj hnext
    refine .opens session _ _ (by simp [hcaller, Caller.hasWriter]) ?_
      (by simp [hcaller, Caller.unacquired]) fun l heffect ↦ ?_
    · split <;> rfl
    · exact ⟨by simp [hcaller, Caller.unacquired], (effect_write_eq heffect).2 ▸ rfl⟩
  · simp at hnext

theorem acquireReadBack_move {fails : Option Error} {view : HostView}
    (hnext : session.acquireReadBack cfg me clock lock fails view = some session') :
    Move me clock lock call session session' .keep := by
  unfold acquireReadBack at hnext
  split at hnext
  · next hcaller =>
    have hfailed (err : Error) :
        Move me clock lock call session { session with caller := .failed err } .keep :=
      .opensKeep (by simp [hcaller, Caller.hasWriter]) rfl (by simp [Caller.unacquired])
    obtain rfl := Option.some.inj hnext
    split
    · exact hfailed _
    · split
      · next hread => exact .acquires session hcaller (readBack_eq_ok cfg hread)
      · exact hfailed _
  · simp at hnext

theorem openReturns_move {result : Except Error Unit} {nowMs : Nat}
    (hnext : session.openReturns cfg result nowMs = some session') :
    Move me clock lock call session session' .keep := by
  unfold openReturns at hnext
  split at hnext
  · next hcaller =>
    obtain rfl := Option.some.inj hnext
    split
    · exact .starts session _ _ hcaller
    · exact .opensKeep (by simp [hcaller, Caller.hasWriter]) rfl (by simp [Caller.unacquired])
  · simp at hnext

theorem abandonRead_move {fails : Option Error}
    (hnext : session.abandonRead me lock fails = some session') :
    Move me clock lock call session session' .keep := by
  unfold abandonRead at hnext
  split at hnext
  · next err hcaller =>
    obtain rfl := Option.some.inj hnext
    refine .opensKeep (by simp [hcaller, Caller.hasWriter]) ?_ ?_
    · split <;> rfl
    · split <;> simp [Caller.unacquired]
  · simp at hnext

theorem abandonDelete_move {outcome : Outcome}
    (hnext : session.abandonDelete outcome = some (session', effect)) :
    Move me clock lock call session session' effect := by
  unfold abandonDelete at hnext
  split at hnext
  · next err hcaller =>
    obtain ⟨rfl, rfl⟩ := Prod.mk.injEq .. ▸ Option.some.inj hnext
    exact .opens session _ _ (by simp [hcaller, Caller.hasWriter]) rfl
      (by simp [Caller.unacquired]) fun l heffect ↦
        absurd heffect (effect_delete_ne_write outcome l)
  · simp at hnext

theorem closeJoin_move {timedOut : Bool} (hnext : session.closeJoin timedOut = some session') :
    Move me clock lock call session session' .keep := by
  unfold closeJoin at hnext
  split at hnext
  · next hcaller =>
    split_ifs at hnext with hjoin
    obtain rfl := Option.some.inj hnext
    refine .joins session _ hcaller fun hjoined ↦ ?_
    simpa [show timedOut = false by simpa using hjoined] using hjoin
  · simp at hnext

theorem releaseRead_move {fails : Option Error}
    (hnext : session.releaseRead me clock lock fails = some session') :
    Move me clock lock call session session' .keep := by
  unfold releaseRead at hnext
  split at hnext
  · next attempt joined hcaller =>
    obtain rfl := Option.some.inj hnext
    by_cases hfails : fails.isSome
    · simp only [hfails, if_true]
      exact .retries session attempt joined _ (Or.inl hcaller) (by simp)
    · by_cases howned : ownedBy me lock
      · simp only [hfails, howned, if_true, if_false, Bool.false_eq_true]
        exact .looks session attempt joined hcaller howned
      · simp only [hfails, howned, if_false, Bool.false_eq_true]
        exact .finds session attempt joined hcaller (by simpa using howned)
  · simp at hnext

theorem releaseDelete_move {outcome : Outcome}
    (hnext : session.releaseDelete outcome = some (session', effect)) :
    Move me clock lock call session session' effect := by
  unfold releaseDelete at hnext
  split at hnext
  · next attempt joined readAt hcaller =>
    obtain ⟨rfl, rfl⟩ := Prod.mk.injEq .. ▸ Option.some.inj hnext
    have hretries : Move me clock lock call session
        { session with caller := retryRelease attempt joined } (outcome.effect .delete) :=
      .retries session attempt joined _ (Or.inr ⟨readAt, hcaller⟩)
        (effect_delete_ne_write outcome)
    cases outcome with
    | done => exact .deletes session attempt readAt joined hcaller
    | unacknowledged err => exact hretries
    | refused err => exact hretries
  · simp at hnext

/-! ### The moves of the heartbeat -/

theorem wake_move (hnext : session.wake cfg = some session') :
    Move me clock lock call session session' .keep := by
  unfold wake at hnext
  split at hnext
  · next hbeat =>
    have hmove (beat : Beat) (sinceBeatMs : Nat) (stopPermit : Bool)
        (hbeats : ∀ l readAt, beat ≠ .renewing l readAt) : Move me clock lock call session
          { session with beat := beat, sinceBeatMs := sinceBeatMs, stopPermit := stopPermit }
          .keep :=
      .beats session beat sinceBeatMs stopPermit .keep (by simp [hbeat]) (by simp [hbeat]) hbeats
        (by simp)
    obtain rfl := Option.some.inj hnext
    split_ifs
    · exact hmove .ended session.sinceBeatMs false (by simp)
    · exact hmove .dropReading session.sinceBeatMs session.stopPermit (by simp)
    · exact hmove _ _ session.stopPermit (by split <;> simp)
  · simp at hnext

theorem beatRead_move {fails : Option Error} {view : HostView} {nowMs : Nat}
    (hnext : session.beatRead cfg me clock lock fails view nowMs = some session') :
    Move me clock lock call session session' .keep := by
  unfold beatRead at hnext
  split at hnext
  · next hbeat =>
    obtain rfl := Option.some.inj hnext
    split
    · split_ifs
      · exact .expires session _ hbeat
      · exact .beats session .waiting session.sinceBeatMs session.stopPermit .keep
          (by simp [hbeat]) (by simp [hbeat]) (by simp) (by simp)
    · split
      · next l hverdict =>
        obtain ⟨huuid, howned⟩ := beatVerdict_eq_renew cfg hverdict
        exact .reads session l hbeat howned huuid
      · exact .fences session _ hbeat
  · simp at hnext

theorem beatWrite_move {outcome : Outcome} {view : HostView} {nowMs : Nat}
    (hnext : session.beatWrite cfg outcome view nowMs = some (session', effect)) :
    Move me clock lock (.beatWrite outcome view nowMs) session session' effect := by
  unfold beatWrite at hnext
  split at hnext
  · next l readAt hbeat =>
    obtain ⟨rfl, rfl⟩ := Prod.mk.injEq .. ▸ Option.some.inj hnext
    have hwritten (l' : LockFile)
        (heffect : outcome.effect (.write { l with heartbeatAtMs := view.nowMs }) = .write l') :
        (LeaseCall.beatWrite outcome view nowMs).renews = true ∧
          l'.instanceUuid = l.instanceUuid :=
      ⟨(effect_write_eq heffect).1, (effect_write_eq heffect).2 ▸ rfl⟩
    split
    · exact .writes session _ l readAt _ hbeat (Or.inl rfl) rfl rfl rfl id hwritten
    · split_ifs
      · exact .writes session _ l readAt _ hbeat (Or.inr rfl) rfl rfl rfl
          (fun _ ↦ fence_isSome _ _) hwritten
      · exact .writes session _ l readAt _ hbeat (Or.inl rfl) rfl rfl rfl id hwritten
  · simp at hnext

theorem dropRead_move {fails : Option Error}
    (hnext : session.dropRead me lock fails = some session') :
    Move me clock lock call session session' .keep := by
  unfold dropRead at hnext
  split at hnext
  · next hbeat =>
    obtain rfl := Option.some.inj hnext
    refine .beats session _ session.sinceBeatMs session.stopPermit .keep (by simp [hbeat])
      (by simp [hbeat]) ?_ (by simp)
    split <;> simp
  · simp at hnext

theorem dropDelete_move {outcome : Outcome}
    (hnext : session.dropDelete outcome = some (session', effect)) :
    Move me clock lock call session session' effect := by
  unfold dropDelete at hnext
  split at hnext
  · next hbeat =>
    obtain ⟨rfl, rfl⟩ := Prod.mk.injEq .. ▸ Option.some.inj hnext
    exact .beats session .ended session.sinceBeatMs session.stopPermit _ (by simp [hbeat])
      (by simp [hbeat]) (by simp) (effect_delete_ne_write outcome)
  · simp at hnext

/-- A step of a session is one of its moves. -/
theorem next_move (hnext : session.next cfg me clock lock call = some (session', effect)) :
    Move me clock lock call session session' effect := by
  cases call with
  | openTable =>
    simp only [next] at hnext
    split at hnext
    · next hcaller =>
      obtain ⟨rfl, rfl⟩ := Prod.mk.injEq .. ▸ Option.some.inj hnext
      exact .opensKeep (by simp [hcaller, Caller.hasWriter]) rfl
        (by simp [hcaller, Caller.unacquired])
    · simp at hnext
  | acquireRead =>
    obtain ⟨hread, rfl⟩ := keeping_eq_some hnext
    exact acquireRead_move hread
  | acquireWrite => exact acquireWrite_move hnext
  | acquireReadBack =>
    obtain ⟨hread, rfl⟩ := keeping_eq_some hnext
    exact acquireReadBack_move hread
  | openReturns =>
    obtain ⟨hreturns, rfl⟩ := keeping_eq_some hnext
    exact openReturns_move hreturns
  | abandonRead =>
    obtain ⟨hread, rfl⟩ := keeping_eq_some hnext
    exact abandonRead_move hread
  | abandonDelete => exact abandonDelete_move hnext
  | wake =>
    obtain ⟨hwake, rfl⟩ := keeping_eq_some hnext
    exact wake_move hwake
  | beatRead =>
    obtain ⟨hread, rfl⟩ := keeping_eq_some hnext
    exact beatRead_move hread
  | beatWrite => exact beatWrite_move hnext
  | dropRead =>
    obtain ⟨hread, rfl⟩ := keeping_eq_some hnext
    exact dropRead_move hread
  | dropDelete => exact dropDelete_move hnext
  | drop =>
    obtain ⟨hdrop, rfl⟩ := keeping_eq_some hnext
    unfold drop at hdrop
    split at hdrop
    · next hcaller =>
      obtain rfl := Option.some.inj hdrop
      exact .leaves session .dropped session.stopPermit hcaller (Or.inl rfl)
    · simp at hdrop
  | closeStop =>
    obtain ⟨hstop, rfl⟩ := keeping_eq_some hnext
    unfold closeStop at hstop
    split at hstop
    · next hcaller =>
      obtain rfl := Option.some.inj hstop
      exact .leaves session .joining true hcaller (Or.inr rfl)
    · simp at hstop
  | closeJoin =>
    obtain ⟨hjoin, rfl⟩ := keeping_eq_some hnext
    exact closeJoin_move hjoin
  | releaseRead =>
    obtain ⟨hread, rfl⟩ := keeping_eq_some hnext
    exact releaseRead_move hread
  | releaseDelete => exact releaseDelete_move hnext

/-! ### What holds of a session -/

/-- What holds of a session at any time. -/
structure Sound (me : String) (clock : Nat) (session : Session) : Prop where
  fresh : session.caller.unacquired → session.acquiredAt = none
  born : session.beat ≠ .unborn → session.caller.hasWriter
  joined : session.caller.hasJoined → session.beat = .ended
  renewing : ∀ l readAt, session.beat = .renewing l readAt →
    l.instanceUuid = me ∧ readAt < clock
  acquired : ∀ date, session.acquiredAt = some date → date < clock
  checked : ∀ date, session.checkedAt = some date → date < clock

theorem sound_initial : initial.Sound me clock where
  fresh _ := rfl
  born hborn := absurd rfl hborn
  joined hjoined := by simp [initial, Caller.hasJoined] at hjoined
  renewing l readAt hbeat := by simp [initial] at hbeat
  acquired _ hacquired := by simp [initial] at hacquired
  checked _ hchecked := by simp [initial] at hchecked

theorem Sound.later (h : session.Sound me clock) : session.Sound me (clock + 1) where
  fresh := h.fresh
  born := h.born
  joined := h.joined
  renewing l readAt hbeat :=
    ⟨(h.renewing l readAt hbeat).1, Nat.lt_succ_of_lt (h.renewing l readAt hbeat).2⟩
  acquired _ hacquired := Nat.lt_succ_of_lt (h.acquired _ hacquired)
  checked _ hchecked := Nat.lt_succ_of_lt (h.checked _ hchecked)

/-- The caller goes on while the heartbeat stays where it is. -/
theorem Sound.setCaller (h : session.Sound me clock) {caller : Caller}
    (hfresh : caller.unacquired → session.acquiredAt = none)
    (hwriter : session.caller.hasWriter → caller.hasWriter)
    (hjoined : caller.hasJoined → session.beat = .ended) :
    { session with caller := caller }.Sound me clock where
  fresh := hfresh
  born hborn := hwriter (h.born hborn)
  joined := hjoined
  renewing := h.renewing
  acquired := h.acquired
  checked := h.checked

/-- A heartbeat that has not ended has not been joined. -/
theorem Sound.not_joined (h : session.Sound me clock) (hlive : session.beat ≠ .ended) :
    session.caller.hasJoined = false := by
  by_contra hjoined
  exact hlive (h.joined (by simpa using hjoined))

theorem hasJoined_retryRelease (attempt : Nat) (joined : Bool) :
    (retryRelease attempt joined).hasJoined = joined := by
  unfold retryRelease
  split <;> rfl

theorem hasWriter_retryRelease (attempt : Nat) (joined : Bool) :
    (retryRelease attempt joined).hasWriter = true := by
  unfold retryRelease
  split <;> rfl

/-- A session stays sound over its own moves. -/
theorem Sound.move (h : session.Sound me clock)
    (hmove : Move me clock lock call session session' effect) : session'.Sound me (clock + 1) := by
  cases hmove with
  | opens caller _ hbefore hafter hfresh =>
    refine (h.setCaller (fun hunacquired ↦ h.fresh (hfresh hunacquired)) ?_ ?_).later
    · simp [hbefore]
    · simp [Caller.hasJoined_of_not_hasWriter hafter]
  | acquires hcaller howned =>
    have hunborn : session.beat = .unborn := by
      by_contra hborn
      simpa [hcaller, Caller.hasWriter] using h.born hborn
    refine ⟨by simp [Caller.unacquired], fun hborn ↦ absurd hunborn hborn,
      by simp [Caller.hasJoined], fun l readAt hbeat ↦ (h.later.renewing l readAt hbeat),
      fun _ hacquired ↦ ?_, h.later.checked⟩
    obtain rfl := Option.some.inj hacquired
    exact Nat.lt_succ_self _
  | starts sinceBeatMs lastVerifiedMs hcaller =>
    exact ⟨by simp [Caller.unacquired], by simp [Caller.hasWriter], by simp [Caller.hasJoined],
      by simp, h.later.acquired, h.later.checked⟩
  | leaves caller stopPermit hcaller hafter =>
    refine ⟨?_, ?_, ?_, h.later.renewing, h.later.acquired, h.later.checked⟩ <;>
      rcases hafter with rfl | rfl <;>
        simp [Caller.unacquired, Caller.hasWriter, Caller.hasJoined]
  | joins joined hcaller hended =>
    refine (h.setCaller (by simp [Caller.unacquired]) (by simp [Caller.hasWriter]) ?_).later
    exact hended
  | looks attempt joined hcaller howned =>
    refine (h.setCaller (by simp [Caller.unacquired]) (by simp [Caller.hasWriter]) ?_).later
    exact fun hjoined ↦ h.joined (by rw [hcaller]; exact hjoined)
  | finds attempt joined hcaller hother =>
    refine (h.setCaller (by simp [Caller.unacquired]) (by simp [Caller.hasWriter]) ?_).later
    exact fun hjoined ↦ h.joined (by rw [hcaller]; exact hjoined)
  | deletes attempt readAt joined hcaller =>
    refine (h.setCaller (by simp [Caller.unacquired]) (by simp [Caller.hasWriter]) ?_).later
    exact fun hjoined ↦ h.joined (by rw [hcaller]; exact hjoined)
  | retries attempt joined _ hcaller =>
    have hwriter := hasWriter_retryRelease attempt joined
    refine (h.setCaller ?_ (fun _ ↦ hwriter) fun hafter ↦ h.joined ?_).later
    · simp [Caller.unacquired_of_hasWriter hwriter]
    · rw [hasJoined_retryRelease] at hafter
      rcases hcaller with hcaller | ⟨readAt, hcaller⟩
      · rwa [hcaller]
      · rwa [hcaller]
  | beats beat sinceBeatMs stopPermit _ hborn hlive hnext =>
    exact ⟨h.fresh, fun _ ↦ h.born hborn, by simp [h.not_joined hlive],
      fun l readAt hbeat ↦ absurd hbeat (hnext l readAt), h.later.acquired, h.later.checked⟩
  | expires reason hbeat =>
    exact ⟨h.fresh, fun _ ↦ h.born (by simp [hbeat]), fun _ ↦ rfl, by simp [fence],
      h.later.acquired, h.later.checked⟩
  | reads l hbeat howned huuid =>
    refine ⟨h.fresh, fun _ ↦ h.born (by simp [hbeat]),
      by simp [h.not_joined (by simp [hbeat])], fun l' readAt hrenewing ↦ ?_, h.later.acquired,
      h.later.checked⟩
    obtain ⟨rfl, rfl⟩ := Beat.renewing.inj hrenewing
    exact ⟨huuid, Nat.lt_succ_self _⟩
  | fences reason hbeat =>
    refine ⟨h.fresh, fun _ ↦ h.born (by simp [hbeat]), fun _ ↦ rfl, by simp [fence],
      h.later.acquired, fun _ hchecked ↦ ?_⟩
    obtain rfl := Option.some.inj hchecked
    exact Nat.lt_succ_self _
  | writes _ l readAt _ hbeat hnext hcaller hacquired hchecked =>
    have hborn : session.caller.hasWriter := h.born (by simp [hbeat])
    have hopen : session.caller.hasJoined = false := h.not_joined (by simp [hbeat])
    refine ⟨?_, fun _ ↦ hcaller ▸ hborn, by simp [hcaller, hopen], ?_, ?_, fun date hdate ↦ ?_⟩
    · rw [hcaller, hacquired]
      exact h.fresh
    · rcases hnext with hwaiting | hended
      · simp [hwaiting]
      · simp [hended]
    · rw [hacquired]
      exact h.later.acquired
    · obtain rfl := Option.some.inj (hchecked.symm.trans hdate)
      exact h.later.renewing l readAt hbeat |>.2

/-- A session writes its own record only. -/
theorem Sound.writes_own (h : session.Sound me clock) {l : LockFile}
    (hmove : Move me clock lock call session session' (.write l)) : l.instanceUuid = me := by
  cases hmove with
  | opens caller _ hbefore hafter hfresh heffect => exact (heffect l rfl).2
  | retries attempt joined _ hcaller heffect => exact absurd rfl (heffect l)
  | beats beat sinceBeatMs stopPermit _ hborn hlive hnext heffect => exact absurd rfl (heffect l)
  | writes _ l' readAt _ hbeat hnext hcaller hacquired hchecked hfenced heffect =>
    exact (heffect l rfl).2.trans (h.renewing l' readAt hbeat).1

/-- Only the read-back of an acquirer dates its acquisition. -/
theorem Move.acquiredAt (hmove : Move me clock lock call session session' effect) :
    session'.acquiredAt = session.acquiredAt ∨
      session'.acquiredAt = some clock ∧ ownedBy me lock ∧ effect = .keep := by
  cases hmove with
  | acquires hcaller howned => exact Or.inr ⟨rfl, howned, rfl⟩
  | writes _ l readAt _ hbeat hnext hcaller hacquired => exact Or.inl hacquired
  | opens | starts | leaves | joins | looks | finds | deletes | retries | beats | expires | reads
  | fences => exact Or.inl rfl

end Session

namespace Lease

variable {cfg : LeaseConfig} {lock : Option LockFile} {s s' : Lease}

/-- A step of one session does not put the uuid of another one into the lock object. -/
theorem ownedBy_effect {me other : String} {clock : Nat} {call : LeaseCall}
    {session session' : Session} {effect : Effect} (hsound : session.Sound me clock)
    (hmove : Session.Move me clock lock call session session' effect) (hother : other ≠ me)
    (hlost : ownedBy other lock = false) : ownedBy other (effect.apply lock) = false := by
  cases effect with
  | keep => exact hlost
  | delete => rfl
  | write l => simpa [Effect.apply, hsound.writes_own hmove] using hother.symm

/-- Every session is sound in every run. -/
theorem sound_of_reachable (hreach : Reachable (step cfg) (start lock) s) (uuid : String) :
    (s.sessions uuid).Sound uuid s.clock := by
  refine hreach.strengthened (fun s ↦ ∀ uuid, (s.sessions uuid).Sound uuid s.clock)
    (fun _ ↦ Session.sound_initial) ?_ uuid
  intro before action after _ hsound _ hstep other
  obtain ⟨session, effect, hnext, rfl⟩ := step_eq_some hstep
  by_cases hother : other = action.session
  · subst hother
    simpa [Lease.after] using (hsound action.session).move (Session.next_move hnext)
  · simpa [Lease.after, hother] using (hsound other).later

end Lease

end RelytIngest
