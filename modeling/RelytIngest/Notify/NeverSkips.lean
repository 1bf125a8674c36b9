import RelytIngest.Notify.Loop
import RelytIngest.StateFile
import Mathlib.Data.List.Basic

/-!
# When the notify loop skips no file

`runAfter` is a writer's notify loop on a queue of requests, after a number of turns, with the
server's answers and the ticker's state writes given for every moment. `NeverSkips` is what the
recovery of the stream relies on: a request is submitted only after every earlier one reached the
server, the confirmed entry and the persisted resume offset belong to a file with everything before
it owned by the server, and after a contract violation nothing is submitted.

The loop drops a violated request and goes on with the next one. `neverSkips_iff` says exactly when
this does no harm: the server answers a contract violation to no request that has another one behind
it. `neverSkips_fails_behind_violation` is a queue of two requests where it does.
-/

set_option autoImplicit false
set_option relaxedAutoImplicit false

namespace RelytIngest

open Foundations

/-- One moment of a run: a turn of the loop, then possibly a write of the state file by the ticker,
which may be a due heartbeat. -/
structure Moment where
  turn : Turn
  tick : Option Bool
  deriving DecidableEq, Repr

/-- A loop with what the server owns of its queue and the resume offset persisted so far. -/
structure NotifyRun where
  loop : NotifyLoop
  /-- The requests the server accepted or knew already, in the order of the answers. -/
  owned : List NotifyRequest
  resumePersisted : Option Int

namespace NotifyRun

variable (group : Text)

/-- The resume offset persisted after a tick. -/
def persist (board : NotifyState) (resumePersisted : Option Int) (tick : Option Bool) :
    Option Int :=
  (tick.bind fun heartbeat ↦
    persistStateIfDue heartbeat ((board.confirmed group).map Prod.snd) resumePersisted).getD
      resumePersisted

/-- The request submitted in a moment. -/
def submitted (run : NotifyRun) (m : Moment) : Option NotifyRequest :=
  run.loop.receive.submission m.turn

/-- The state after a moment. -/
def next (run : NotifyRun) (m : Moment) : NotifyRun :=
  let loop := run.loop.receive.turn m.turn
  { loop := loop
    owned :=
      match m.turn.answer with
      | .ok .accepted | .ok .idempotent => run.owned ++ (run.submitted m).toList
      | _ => run.owned
    resumePersisted := persist group loop.board run.resumePersisted m.tick }

end NotifyRun

section Runs

variable (group : Text) (queue : List NotifyRequest) (resumePersisted : Option Int)
  (moments : ℕ → Moment)

/-- The run of a new loop on the queue after `n` moments. -/
def runAfter : ℕ → NotifyRun
  | 0 => ⟨NotifyLoop.spawn NotifyState.empty queue, [], resumePersisted⟩
  | n + 1 => (runAfter n).next group (moments n)

/-- The request is in the queue and the server owns it and every request enqueued before it. -/
def OwnedUpTo (owned : List NotifyRequest) (req : NotifyRequest) : Prop :=
  ∃ earlier later, queue = earlier ++ req :: later ∧ ∀ r ∈ earlier ++ [req], r ∈ owned

/-- What holds at a moment when no file is skipped. -/
structure NeverSkips (n : ℕ) : Prop where
  inOrder : ∀ req,
    (runAfter group queue resumePersisted moments n).submitted (moments n) = some req →
      ∃ earlier later, queue = earlier ++ req :: later ∧
        ∀ r ∈ earlier, r ∈ (runAfter group queue resumePersisted moments n).owned
  confirmed : ∀ s o,
    (runAfter group queue resumePersisted moments n).loop.board.confirmed group = some (s, o) →
      ∃ req, OwnedUpTo queue (runAfter group queue resumePersisted moments n).owned req ∧
        req.serialSeq = s ∧ req.endOffset = o
  stopped :
    (runAfter group queue resumePersisted moments n).loop.board.fatal group ≠ none →
      (runAfter group queue resumePersisted moments n).submitted (moments n) = none
  persisted : ∀ offset,
    (runAfter group queue resumePersisted moments n).resumePersisted = some offset →
      resumePersisted = some offset ∨
        ∃ req, OwnedUpTo queue (runAfter group queue resumePersisted moments n).owned req ∧
          req.endOffset = offset

/-- The server answers a contract violation to no request that has another one behind it. -/
def ViolationsOnlyAtTheEnd : Prop :=
  ∀ n message, (runAfter group queue resumePersisted moments n).submitted (moments n) ≠ none →
    (moments n).turn.answer = .ok (.contractViolation message) →
      (runAfter group queue resumePersisted moments n).loop.receive.rx = []

/-! ### The conservation law of the queue -/

/-- The invariant of a run. What the server owns, what was dropped and what is pending make up the
queue; a request is dropped only for a violation, which leaves nothing pending. -/
structure Conserved (run : NotifyRun) (dropped : List NotifyRequest) : Prop where
  queue_eq : run.owned ++ dropped ++ run.loop.pending = queue
  dropped_of_fatal_none : run.loop.board.fatal group = none → dropped = []
  pending_of_fatal : run.loop.board.fatal group ≠ none → run.loop.pending = []
  confirmed : ∀ entry, run.loop.board.confirmed group = some entry →
    ∃ earlier req, run.owned = earlier ++ [req] ∧ entry = (req.serialSeq, req.endOffset)
  persisted : ∀ offset, run.resumePersisted = some offset →
    resumePersisted = some offset ∨
      ∃ earlier req later, run.owned = earlier ++ req :: later ∧ req.endOffset = offset

variable {group queue resumePersisted moments}

theorem Conserved.persist {run : NotifyRun} {board : NotifyState}
    {owned dropped : List NotifyRequest} {tick : Option Bool}
    (hrun : Conserved group queue resumePersisted run dropped)
    (howned : ∃ more, owned = run.owned ++ more)
    (hconfirmed : ∀ entry, board.confirmed group = some entry →
      ∃ earlier req, owned = earlier ++ [req] ∧ entry = (req.serialSeq, req.endOffset))
    {offset : Int}
    (hoffset : NotifyRun.persist group board run.resumePersisted tick = some offset) :
    resumePersisted = some offset ∨
      ∃ earlier req later, owned = earlier ++ req :: later ∧ req.endOffset = offset := by
  have hkept : run.resumePersisted = some offset → resumePersisted = some offset ∨
      ∃ earlier req later, owned = earlier ++ req :: later ∧ req.endOffset = offset := by
    intro hold
    obtain ⟨more, rfl⟩ := howned
    rcases hrun.persisted offset hold with hstart | ⟨earlier, req, later, hsplit, hend⟩
    · exact Or.inl hstart
    · exact Or.inr ⟨earlier, req, later ++ more, by rw [hsplit]; simp, hend⟩
  have hnew : (board.confirmed group).map Prod.snd = some offset → resumePersisted = some offset ∨
      ∃ earlier req later, owned = earlier ++ req :: later ∧ req.endOffset = offset := by
    intro hmap
    obtain ⟨entry, hentry, rfl⟩ := Option.map_eq_some_iff.mp hmap
    obtain ⟨earlier, req, hsplit, rfl⟩ := hconfirmed entry hentry
    exact Or.inr ⟨earlier, req, [], hsplit, rfl⟩
  cases tick with
  | none => exact hkept hoffset
  | some heartbeat =>
    simp only [NotifyRun.persist, Option.bind_some, persistStateIfDue] at hoffset
    split_ifs at hoffset
    · exact hkept hoffset
    · rcases resumeToPersist_eq ((board.confirmed group).map Prod.snd) run.resumePersisted with
        heq | heq
      · exact hkept (heq ▸ hoffset)
      · exact hnew (heq ▸ hoffset)

theorem Conserved.start :
    Conserved group queue resumePersisted (runAfter group queue resumePersisted moments 0) [] where
  queue_eq := rfl
  dropped_of_fatal_none _ := rfl
  pending_of_fatal hfatal := absurd rfl hfatal
  confirmed entry hentry := by simp [runAfter, NotifyLoop.spawn, NotifyState.empty] at hentry
  persisted offset hoffset := Or.inl hoffset

/-- The request a conserving run submits has everything before it in the queue owned. -/
theorem Conserved.submitted {run : NotifyRun} {dropped : List NotifyRequest} {m : Moment}
    {req : NotifyRequest} (hrun : Conserved group queue resumePersisted run dropped)
    (hsubmitted : run.submitted m = some req) :
    dropped = [] ∧ run.loop.board.fatal group = none ∧
      run.loop.pending = req :: run.loop.receive.rx ∧
      queue = run.owned ++ req :: run.loop.receive.rx := by
  have hhand : run.loop.receive.inHand = some req := by
    simp only [NotifyRun.submitted, NotifyLoop.submission] at hsubmitted
    split_ifs at hsubmitted
    exact hsubmitted
  have hpending : run.loop.pending = req :: run.loop.receive.rx := by
    rw [← run.loop.receive_pending, NotifyLoop.pending, hhand]
    rfl
  have hfatal : run.loop.board.fatal group = none := by
    by_contra hfatal
    rw [hrun.pending_of_fatal hfatal] at hpending
    exact List.cons_ne_nil _ _ hpending.symm
  have hdropped := hrun.dropped_of_fatal_none hfatal
  have hqueue := hrun.queue_eq
  rw [hdropped, List.append_nil, hpending] at hqueue
  exact ⟨hdropped, hfatal, hpending, hqueue.symm⟩

/-- A moment that leaves the server's files, the pending requests and the board alone. -/
theorem Conserved.unchanged {run next : NotifyRun} {dropped : List NotifyRequest}
    {tick : Option Bool} (hrun : Conserved group queue resumePersisted run dropped)
    (howned : next.owned = run.owned) (hpending : next.loop.pending = run.loop.pending)
    (hboard : next.loop.board = run.loop.board)
    (hpersist : next.resumePersisted =
      NotifyRun.persist group next.loop.board run.resumePersisted tick) :
    Conserved group queue resumePersisted next dropped where
  queue_eq := by rw [howned, hpending, hrun.queue_eq]
  dropped_of_fatal_none := hboard ▸ hrun.dropped_of_fatal_none
  pending_of_fatal := by rw [hboard, hpending]; exact hrun.pending_of_fatal
  confirmed := by rw [hboard, howned]; exact hrun.confirmed
  persisted offset hoffset := by
    rw [hpersist, hboard] at hoffset
    rw [howned]
    exact hrun.persist ⟨[], by simp⟩ hrun.confirmed hoffset

/-- One moment keeps the conservation law, when a violated request has nothing behind it. -/
theorem Conserved.next {run : NotifyRun} {dropped : List NotifyRequest} {m : Moment}
    (hsorted : queue.Pairwise fun first second ↦ first.serialSeq < second.serialSeq)
    (hgroup : ∀ req ∈ queue, req.serialGroup = group)
    (hviolation : ∀ message, run.submitted m ≠ none →
      m.turn.answer = .ok (.contractViolation message) → run.loop.receive.rx = [])
    (hrun : Conserved group queue resumePersisted run dropped) :
    ∃ dropped', Conserved group queue resumePersisted (run.next group m) dropped' := by
  rcases run.loop.receive.turn_cases m.turn with
    ⟨hnone, hpending, hboard⟩ |
    ⟨req, hsome, -, ⟨hanswer, hpending, hboard⟩ | ⟨message, hanswer, hpending, -, hboard⟩ |
      ⟨message, hanswer, hpending, hboard⟩⟩
  · refine ⟨dropped, hrun.unchanged ?_ (hpending.trans (by simp)) (hboard.trans (by simp)) rfl⟩
    have hnone' : run.submitted m = none := hnone
    simp only [NotifyRun.next, hnone']
    split <;> simp
  · obtain ⟨rfl, hfatal, -, hqueue⟩ := hrun.submitted hsome
    have howned : (run.next group m).owned = run.owned ++ [req] := by
      have hsome' : run.submitted m = some req := hsome
      rcases hanswer with hanswer | hanswer <;> simp [NotifyRun.next, hanswer, hsome']
    have hreq : req.serialGroup = group := hgroup req (by rw [hqueue]; simp)
    have hconfirmed : (run.loop.receive.turn m.turn).board.confirmed group =
        some (req.serialSeq, req.endOffset) := by
      rw [hboard, ← hreq]
      refine NotifyState.confirm_confirmed fun entry hentry ↦ ?_
      rw [NotifyLoop.receive_board, hreq] at hentry
      obtain ⟨earlier, last, hlast, rfl⟩ := hrun.confirmed entry hentry
      rw [hqueue, hlast] at hsorted
      exact le_of_lt ((List.pairwise_append.mp hsorted).2.2 last (by simp) req (by simp))
    have hlast : ∀ entry, (run.next group m).loop.board.confirmed group = some entry →
        ∃ earlier last, (run.next group m).owned = earlier ++ [last] ∧
          entry = (last.serialSeq, last.endOffset) := by
      intro entry hentry
      have hentry' : (run.loop.receive.turn m.turn).board.confirmed group = some entry := hentry
      rw [hconfirmed, Option.some.injEq] at hentry'
      exact ⟨run.owned, req, howned, hentry'.symm⟩
    refine ⟨[], ⟨?_, fun _ ↦ rfl, ?_, hlast, fun offset hoffset ↦ ?_⟩⟩
    · rw [howned, List.append_nil, hqueue]
      have hrest : (run.next group m).loop.pending = run.loop.receive.rx := hpending
      rw [hrest, List.append_assoc]
      rfl
    · intro hnext
      have hfatal' : (run.next group m).loop.board.fatal group = run.loop.board.fatal group := by
        simp only [NotifyRun.next, hboard, NotifyState.confirm_fatal, NotifyLoop.receive_board]
      exact absurd (hfatal'.trans hfatal) hnext
    · exact hrun.persist ⟨[req], howned⟩ hlast hoffset
  · obtain ⟨rfl, -, -, hqueue⟩ := hrun.submitted hsome
    have hrest := hviolation message (by rw [NotifyRun.submitted, hsome]; simp) hanswer
    have hreq : req.serialGroup = group := hgroup req (by rw [hqueue]; simp)
    have howned : (run.next group m).owned = run.owned := by simp [NotifyRun.next, hanswer]
    have hnext : (run.next group m).loop.pending = [] := hpending.trans hrest
    have hboard' : (run.next group m).loop.board = run.loop.board.violate req message := by
      rw [← run.loop.receive_board]
      exact hboard
    have hconfirmed : ∀ entry, (run.next group m).loop.board.confirmed group = some entry →
        ∃ earlier last, (run.next group m).owned = earlier ++ [last] ∧
          entry = (last.serialSeq, last.endOffset) := by
      rw [hboard', howned]
      exact hrun.confirmed
    refine ⟨[req], ⟨?_, ?_, fun _ ↦ hnext, hconfirmed, fun offset hoffset ↦ ?_⟩⟩
    · rw [howned, hnext, List.append_nil, hqueue, hrest]
    · intro hfatal
      rw [hboard', ← hreq] at hfatal
      exact absurd hfatal (NotifyState.violate_fatal _ _ _)
    · exact hrun.persist ⟨[], by rw [howned, List.append_nil]⟩ hconfirmed hoffset
  · refine ⟨dropped, hrun.unchanged ?_ (hpending.trans (by simp)) (hboard.trans (by simp)) rfl⟩
    simp [NotifyRun.next, hanswer]

theorem conserved_runAfter
    (hsorted : queue.Pairwise fun first second ↦ first.serialSeq < second.serialSeq)
    (hgroup : ∀ req ∈ queue, req.serialGroup = group)
    (hviolations : ViolationsOnlyAtTheEnd group queue resumePersisted moments) (n : ℕ) :
    ∃ dropped, Conserved group queue resumePersisted
      (runAfter group queue resumePersisted moments n) dropped := by
  induction n with
  | zero => exact ⟨[], Conserved.start⟩
  | succ n ih =>
    obtain ⟨dropped, hrun⟩ := ih
    exact hrun.next hsorted hgroup fun message ↦ hviolations n message

/-- A conserving run skips nothing. -/
theorem Conserved.neverSkips {n : ℕ} {dropped : List NotifyRequest}
    (hrun : Conserved group queue resumePersisted
      (runAfter group queue resumePersisted moments n) dropped) :
    NeverSkips group queue resumePersisted moments n := by
  have hupto : ∀ earlier req later,
      (runAfter group queue resumePersisted moments n).owned = earlier ++ req :: later →
        OwnedUpTo queue (runAfter group queue resumePersisted moments n).owned req := by
    intro earlier req later hsplit
    refine ⟨earlier, later ++ dropped ++
      (runAfter group queue resumePersisted moments n).loop.pending, ?_, fun r hr ↦ ?_⟩
    · refine hrun.queue_eq.symm.trans ?_
      rw [hsplit]
      simp
    · rw [hsplit]
      simp only [List.mem_append, List.mem_cons, List.not_mem_nil, or_false] at hr ⊢
      tauto
  refine ⟨fun req hsubmitted ↦ ?_, fun s o hentry ↦ ?_, fun hfatal ↦ ?_, fun offset hoffset ↦ ?_⟩
  · obtain ⟨-, -, -, hqueue⟩ := hrun.submitted hsubmitted
    exact ⟨_, _, hqueue, fun r hr ↦ hr⟩
  · obtain ⟨earlier, req, hsplit, heq⟩ := hrun.confirmed (s, o) hentry
    rw [Prod.mk.injEq] at heq
    exact ⟨req, hupto earlier req [] hsplit, heq.1.symm, heq.2.symm⟩
  · by_contra hsubmitted
    obtain ⟨req, hreq⟩ := Option.ne_none_iff_exists'.mp hsubmitted
    exact hfatal (hrun.submitted hreq).2.1
  · rcases hrun.persisted offset hoffset with hstart | ⟨earlier, req, later, hsplit, hend⟩
    · exact Or.inl hstart
    · exact Or.inr ⟨req, hupto earlier req later hsplit, hend⟩

end Runs

/-! ### Exactly when no file is skipped -/

/-- A violated request is dropped: the loop stays connected and goes on with what is behind it. -/
theorem NotifyRun.next_of_violation {run : NotifyRun} (group : Text) {m : Moment}
    {req : NotifyRequest} {message : String} (hsubmitted : run.submitted m = some req)
    (hanswer : m.turn.answer = .ok (.contractViolation message)) :
    (run.next group m).loop.pending = run.loop.receive.rx ∧
      (run.next group m).loop.client = true ∧
      (run.next group m).loop.board = run.loop.board.violate req message := by
  have hnext : (run.next group m).loop = run.loop.receive.turn m.turn := rfl
  have hsubmission : run.loop.receive.submission m.turn = some req := hsubmitted
  rw [hnext, ← run.loop.receive_board]
  rcases run.loop.receive.turn_cases m.turn with
    ⟨hnone, -, -⟩ | ⟨req', hsome, -, ⟨hanswer', -, -⟩ |
      ⟨message', hanswer', hpending, hclient, hboard⟩ | ⟨message', hanswer', -, -⟩⟩
  · simp [hsubmission] at hnone
  · simp [hanswer] at hanswer'
  · obtain rfl : req' = req := Option.some.inj (hsome.symm.trans hsubmission)
    obtain rfl : message' = message := by simpa using hanswer'.symm.trans hanswer
    exact ⟨hpending, hclient, hboard⟩
  · simp [hanswer] at hanswer'

/-- So a request pending behind a violated one is submitted in the next moment. -/
theorem submitted_after_violation {run : NotifyRun} {group : Text} {m : Moment}
    {req : NotifyRequest} {message : String} (hsubmitted : run.submitted m = some req)
    (hanswer : m.turn.answer = .ok (.contractViolation message))
    (hrest : run.loop.receive.rx ≠ []) (m' : Moment) :
    (run.next group m).submitted m' ≠ none := by
  obtain ⟨hpending, hclient, -⟩ := NotifyRun.next_of_violation group hsubmitted hanswer
  rw [NotifyRun.submitted, NotifyLoop.submission, NotifyLoop.receive_client, hclient,
    Bool.true_or, if_pos rfl, NotifyLoop.receive_inHand, hpending]
  exact fun hhead ↦ hrest (List.head?_eq_none_iff.mp hhead)

/-- The loop skips no file at any moment exactly when the server answers a contract violation to no
request that has another one behind it. -/
theorem neverSkips_iff (group : Text) (queue : List NotifyRequest) (resumePersisted : Option Int)
    (moments : ℕ → Moment)
    (hsorted : queue.Pairwise fun first second ↦ first.serialSeq < second.serialSeq)
    (hgroup : ∀ req ∈ queue, req.serialGroup = group) :
    (∀ n, NeverSkips group queue resumePersisted moments n) ↔
      ViolationsOnlyAtTheEnd group queue resumePersisted moments := by
  constructor
  · intro hnever n message hsubmitted hanswer
    by_contra hrest
    obtain ⟨req, hreq⟩ := Option.ne_none_iff_exists'.mp hsubmitted
    obtain ⟨earlier, later, hqueue, -⟩ := (hnever n).inOrder req hreq
    obtain ⟨-, -, hboard⟩ := NotifyRun.next_of_violation group hreq hanswer
    have hfatal : (runAfter group queue resumePersisted moments (n + 1)).loop.board.fatal group ≠
        none := by
      rw [runAfter, hboard, ← hgroup req (by rw [hqueue]; simp)]
      exact NotifyState.violate_fatal _ _ _
    exact submitted_after_violation hreq hanswer hrest _ ((hnever (n + 1)).stopped hfatal)
  · intro hviolations n
    obtain ⟨dropped, hrun⟩ := conserved_runAfter hsorted hgroup hviolations n
    exact hrun.neverSkips

/-- The request announcing one file of the group `1:2:w` with this seq and end offset. -/
def sampleRequest (serialSeq endOffset : Int) : NotifyRequest where
  serialGroup := "1:2:w".toList
  endOffset := endOffset
  identifier := "1:2:w:".toList ++ signedDecimal serialSeq
  sourceUrl := "s3://bucket/".toList ++ signedDecimal serialSeq
  target := 2
  delimiter := ','
  upsert := false
  serialSeq := serialSeq
  retryMax := some (-1)

/-- Two files, the second behind a transient error and a reconnect, are announced in order. -/
theorem neverSkips_iff_two_files :
    (∀ n, NeverSkips "1:2:w".toList [sampleRequest 5 9, sampleRequest 6 19] none
        (fun n ↦ ⟨⟨true, if n = 1 then .error "timeout" else .ok .accepted⟩, some false⟩) n) ∧
      ViolationsOnlyAtTheEnd "1:2:w".toList [sampleRequest 5 9, sampleRequest 6 19] none
        (fun n ↦ ⟨⟨true, if n = 1 then .error "timeout" else .ok .accepted⟩, some false⟩) := by
  have hviolations : ViolationsOnlyAtTheEnd "1:2:w".toList [sampleRequest 5 9, sampleRequest 6 19]
      none
      (fun n ↦ ⟨⟨true, if n = 1 then .error "timeout" else .ok .accepted⟩, some false⟩) := by
    intro n message _ hanswer
    simp only at hanswer
    split_ifs at hanswer
    simp at hanswer
  exact ⟨(neverSkips_iff _ _ _ _ (by simp [sampleRequest]) (by simp [sampleRequest])).mpr
    hviolations, hviolations⟩

/-- The server answers a violation to the first of two files: the loop goes on to submit the second,
although the violation stands and the server never got the first. -/
theorem neverSkips_fails_behind_violation :
    ¬ ∀ (group : Text) (queue : List NotifyRequest) (resumePersisted : Option Int)
      (moments : ℕ → Moment),
      (queue.Pairwise fun first second ↦ first.serialSeq < second.serialSeq) →
        (∀ req ∈ queue, req.serialGroup = group) →
          ∀ n, NeverSkips group queue resumePersisted moments n := by
  intro hclaim
  have hafter := hclaim "1:2:w".toList [sampleRequest 5 9, sampleRequest 6 19] none
    (fun n ↦ ⟨⟨true, if n = 0 then .ok (.contractViolation "23P01") else .ok .accepted⟩,
      some false⟩) (by simp [sampleRequest]) (by simp [sampleRequest]) 1
  have hsubmitted := hafter.stopped (by decide)
  revert hsubmitted
  decide

end RelytIngest
