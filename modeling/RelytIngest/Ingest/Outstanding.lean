import RelytIngest.Ingest.Requests

/-!
# What a session has still to submit

A step of the stream other than a listing adds nothing to what a session has to submit, with one
exception: the writer of a session that is not fenced lets the next file pass (`quiet_or_passes`).
An open that decides has its backfill to submit (`quiet_or_lists`), and the steps outside the
sessions leave the list or, when an answer is there, take the first request from it.
-/

set_option autoImplicit false
set_option relaxedAutoImplicit false

namespace RelytIngest

open Foundations Relation

namespace StreamSession

variable {β : Type}

/-- The session announces its backfill, or what it puts. -/
def Announcing (session : StreamSession β) : Prop :=
  session.alive = true ∧ ((∃ opening, session.phase = .opening opening) ∨
    ∃ opening w, session.phase = .running opening w ∧ w.health.notifierGone = false)

/-- The number is one of the session, and above the files that are past the fence. -/
def Ahead (session : StreamSession β) (n : Int) : Prop :=
  ∃ opening w, session.phase = .running opening w ∧ (opening.epoch : Int) * 2 ^ 20 ≤ n ∧
    ∀ m ∈ w.cleared, m.serialSeq < n

/-- The session has not decided yet. -/
def Undecided (session : StreamSession β) : Prop :=
  session.phase = .unopened ∨ ∃ state, session.phase = .reading state

end StreamSession

namespace Ingest

variable {β σ : Type} {cfg : Nat → WriterConfig β} {master : Master σ} {s s' : Ingest β σ}
  {allowed : Ingest β σ → IngestAction β → Prop} {m : σ}

/-- A session that has not decided has nothing to submit. -/
def Idle (s : Ingest β σ) : Prop :=
  ∀ id, (s.session id).Undecided → (s.loops id).pending = [] ∧ s.enqueued id = 0

theorem outstanding_congr {id : Nat} (hphase : (s'.session id).phase = (s.session id).phase)
    (halive : (s'.session id).alive = (s.session id).alive)
    (hloop : (s'.loops id).pending = (s.loops id).pending)
    (henqueued : s'.enqueued id = s.enqueued id) : s'.outstanding id = s.outstanding id := by
  simp only [outstanding, toAnnounce, hphase, halive, hloop, henqueued]

/-- A step of the stream leaves what the other sessions have to submit. -/
theorem followed_other {next : Stream β} {action : StreamAction β}
    (hnext : s.stream.step cfg action = some next) {id : Nat} (hid : id ≠ action.session) :
    (s.followed next action).session id = s.session id ∧
      (s.followed next action).loops id = s.loops id ∧
      (s.followed next action).enqueued id = s.enqueued id := by
  have hsession : (s.followed next action).session id = s.session id := by
    rw [session, followed_stream]
    exact Stream.sessions_step hnext hid
  refine ⟨hsession, ?_, ?_⟩
  · cases action with
    | writer | crash => exact Function.update_of_ne hid ..
    | openRead | openDecide | openLands | openReturns | persistLands => rfl
  · cases action <;> rfl

theorem Idle.stream (h : s.Idle) {next : Stream β} {action : StreamAction β}
    (hnext : s.stream.step cfg action = some next) : (s.followed next action).Idle := by
  intro id hundecided
  have hbefore : (s.session id).Undecided := by
    have hchange := Stream.phase_step hnext id
    simp only [StreamSession.Undecided, session, followed_stream] at hundecided ⊢
    generalize (s.stream.sessions id).phase = old at hchange ⊢
    generalize (next.sessions id).phase = new at hchange hundecided
    cases hchange with
    | same => exact hundecided
    | read => exact Or.inl rfl
    | decided | refused | returned | failed | stepped => simp at hundecided
  obtain ⟨hpending, henqueued⟩ := h id hbefore
  refine ⟨?_, by cases action <;> exact henqueued⟩
  cases action with
  | openRead | openDecide | openLands | openReturns | persistLands => exact hpending
  | writer other writerAction =>
    obtain ⟨opening, w, w', session, hphase, -⟩ := Stream.writer_eq_some hnext
    have hother : id ≠ other := by
      rintro rfl
      have hrunning : (s.session id).phase = .running opening w := hphase
      simp [StreamSession.Undecided, hrunning] at hbefore
    simpa [followed, hother] using hpending
  | crash other =>
    by_cases hother : id = other
    · simp [followed, hother, NotifyLoop.spawn, NotifyLoop.pending]
    · simpa [followed, hother] using hpending

theorem Idle.step (h : s.Idle) {action : IngestAction β}
    (hstep : s.step cfg master action = some s') : s'.Idle := by
  cases action with
  | stream streamAction =>
    obtain ⟨-, next, hnext, -, rfl⟩ := streamStep_eq_some hstep
    exact h.stream hnext
  | watermark id degraded =>
    obtain ⟨state, -, answer, -, rfl⟩ := readWatermark_eq_some hstep
    exact h
  | backfill other =>
    obtain ⟨opening, file, n, hphase, -, -, -, rfl⟩ := backfill_eq_some hstep
    intro id hundecided
    have hid : id ≠ other := by
      rintro rfl
      have hopening : (s.session id).phase = .opening opening := hphase
      simp [StreamSession.Undecided, session, show (s.stream.sessions id).phase = _ from hopening]
        at hundecided
    simpa [hid] using h id hundecided
  | objectLands id file =>
    obtain ⟨-, rfl⟩ := objectLands_eq_some hstep
    exact h
  | send id =>
    obtain ⟨-, req, -, rfl⟩ := send_eq_some hstep
    exact h
  | arrive id req =>
    obtain ⟨-, rfl⟩ := arrive_eq_some hstep
    exact h
  | turn other t =>
    obtain ⟨-, -, rfl⟩ := turn_eq_some hstep
    intro id hundecided
    obtain ⟨hpending, henqueued⟩ := h id hundecided
    refine ⟨List.eq_nil_iff_forall_not_mem.mpr fun req hreq ↦ ?_, henqueued⟩
    by_cases hid : id = other
    · subst hid
      have hmem : req ∈ (s.loops id).pending := mem_pending_turn (by simpa using hreq)
      simp [hpending] at hmem
    · simp [hid, hpending] at hreq
  | load =>
    obtain ⟨n, -, rfl⟩ := load_eq_some hstep
    exact h

theorem idle_of_reachable (hreach : ReachableUnder (step cfg master) allowed (start m) s) :
    s.Idle := by
  refine hreach.invariant ?_ fun before action after h _ hstep ↦ h.step hstep
  exact fun id _ ↦ ⟨rfl, rfl⟩

/-! ### What a step of the stream adds -/

/-- The sessions have nothing new to submit. -/
structure Quiet (s s' : Ingest β σ) : Prop where
  leading : ∀ id, s'.outstanding id <+: s.outstanding id
  announcing : ∀ id, (s'.session id).Announcing →
    (s.session id).Announcing ∧ s'.outstanding id = s.outstanding id
  ahead : ∀ id n, (s'.session id).Announcing → (s.session id).Ahead n → (s'.session id).Ahead n

/-- It is enough to look at the session that takes the step. -/
theorem Quiet.of_stream {next : Stream β} {action : StreamAction β}
    (hnext : s.stream.step cfg action = some next) {id : Nat} (hid : action.session = id)
    (hleading : (s.followed next action).outstanding id <+: s.outstanding id)
    (hannouncing : (next.sessions id).Announcing → (s.session id).Announcing ∧
      (s.followed next action).outstanding id = s.outstanding id ∧
      ∀ n, (s.session id).Ahead n → (next.sessions id).Ahead n) :
    Quiet s (s.followed next action) := by
  have hself : (s.followed next action).session id = next.sessions id := by
    rw [session, followed_stream]
  constructor
  case leading =>
    intro other
    by_cases hother : other = id
    · exact hother ▸ hleading
    · obtain ⟨hsession, hloop, henqueued⟩ := followed_other hnext (hid ▸ hother)
      rw [outstanding_congr (by rw [hsession]) (by rw [hsession]) (by rw [hloop]) henqueued]
  case announcing =>
    intro other h
    by_cases hother : other = id
    · subst hother
      obtain ⟨hbefore, hsame, -⟩ := hannouncing (hself ▸ h)
      exact ⟨hbefore, hsame⟩
    · obtain ⟨hsession, hloop, henqueued⟩ := followed_other hnext (hid ▸ hother)
      exact ⟨hsession ▸ h,
        outstanding_congr (by rw [hsession]) (by rw [hsession]) (by rw [hloop]) henqueued⟩
  case ahead =>
    intro other n h hahead
    by_cases hother : other = id
    · subst hother
      rw [hself] at h ⊢
      exact (hannouncing h).2.2 n hahead
    · exact (followed_other hnext (hid ▸ hother)).1 ▸ hahead

/-- The next file of a writer passes the fence. -/
structure Passes (s s' : Ingest β σ) (id : Nat) (n : FileMeta) : Prop where
  current : ¬ (s.session id).Superseded
  running : ∃ opening w w', (s.session id).phase = .running opening w ∧
    (s'.session id).phase = .running opening w' ∧ w.files.place = .returned n ∧
    w'.cleared = w.cleared ++ [n] ∧ w.health.notifierGone = false
  alive : (s.session id).alive = true
  others : ∀ other, other ≠ id → s'.session other = s.session other
  outstanding : s'.outstanding =
    Function.update s.outstanding id (s.outstanding id ++ [n.serialSeq])

theorem outstanding_of_alive {id : Nat} (halive : (s.session id).alive = true) :
    s.outstanding id = (s.loops id).pending.map NotifyRequest.serialSeq ++ s.toAnnounce id :=
  if_pos halive

theorem toAnnounce_running {id : Nat} {opening : Opening} {w : Writer β}
    (hphase : (s.session id).phase = .running opening w) :
    s.toAnnounce id = w.files.toAnnounce.map FileMeta.serialSeq := by
  simp only [toAnnounce, hphase]

/-- A session whose phase is the same. -/
theorem Quiet.of_same {next : Stream β} {action : StreamAction β}
    (hnext : s.stream.step cfg action = some next)
    (hphase : (next.sessions action.session).phase = (s.session action.session).phase)
    (halive : (next.sessions action.session).alive = (s.session action.session).alive)
    (hloop : (s.followed next action).loops action.session = s.loops action.session) :
    Quiet s (s.followed next action) := by
  have hself : (s.followed next action).session action.session = next.sessions action.session := by
    rw [session, followed_stream]
  have hsame : (s.followed next action).outstanding action.session =
      s.outstanding action.session := by
    refine outstanding_congr (by rw [hself, hphase]) (by rw [hself, halive]) (by rw [hloop]) ?_
    cases action <;> rfl
  refine .of_stream hnext rfl (by rw [hsame]) fun h ↦ ?_
  simp only [StreamSession.Announcing, StreamSession.Ahead, hphase, halive] at h ⊢
  exact ⟨h, hsame, fun n hahead ↦ hahead⟩

/-- A session that has ended or decides nothing has nothing to announce. -/
theorem Quiet.of_silent {next : Stream β} {action : StreamAction β}
    (hnext : s.stream.step cfg action = some next) {id : Nat} (hid : action.session = id)
    (hsilent : (next.sessions id).alive = true → (next.sessions id).opened = none)
    (halive : (next.sessions id).alive = true → (s.session id).alive = true)
    (hloop : ((s.followed next action).loops id).pending <+: (s.loops id).pending) :
    Quiet s (s.followed next action) := by
  have hself : (s.followed next action).session id = next.sessions id := by
    rw [session, followed_stream]
  refine .of_stream hnext hid ?_ fun h ↦ ?_
  · by_cases hafter : (next.sessions id).alive = true
    · have hnone : (s.followed next action).toAnnounce id = [] := by
        have hopened := hsilent hafter
        unfold StreamSession.opened at hopened
        unfold toAnnounce
        rw [hself]
        split
        · next opening hphase => simp [hphase] at hopened
        · next opening w hphase => simp [hphase] at hopened
        · rfl
      rw [outstanding_of_alive (hself ▸ hafter), outstanding_of_alive (halive hafter), hnone,
        List.append_nil]
      exact (hloop.map _).trans (List.prefix_append _ _)
    · rw [outstanding, if_neg (hself ▸ hafter)]
      exact List.nil_prefix
  · obtain ⟨hrunning, ⟨opening, hphase⟩ | ⟨opening, w, hphase, -⟩⟩ := h
    · simpa [StreamSession.opened, hphase] using hsilent hrunning
    · simpa [StreamSession.opened, hphase] using hsilent hrunning

theorem quiet_openReturns {id : Nat} {result : Except Error Unit} {next : Stream β}
    (henabled : s.enabled cfg (.openReturns id result) = true)
    (hstep : s.stream.step cfg (.openReturns id result) = some next) :
    Quiet s (s.followed next (.openReturns id result)) := by
  have hid : (StreamAction.openReturns id result : StreamAction β).session = id := rfl
  have hself : (s.followed next (.openReturns id result)).session id = next.sessions id := rfl
  obtain ⟨opening, hphase, hresult⟩ := Stream.openReturns_eq_some hstep
  have hopening : (s.session id).phase = .opening opening := hphase
  rcases hresult with ⟨version, hlanded, rfl⟩ | ⟨err, rfl⟩
  · -- the whole backfill has been enqueued
    have hdone : s.enqueued id = opening.plan.backfill.length := by
      cases result with
      | ok => simpa [enabled, hopening] using henabled
      | error cause =>
        simp only [Stream.step, Stream.openReturns, hphase] at hstep
        split_ifs at hstep
        have := congrArg (fun s : Stream β ↦ (s.sessions id).phase) (Option.some.inj hstep)
        simp [Stream.setSession] at this
    have hsame : (s.followed (s.stream.setSession id { s.stream.sessions id with
        phase := .running opening (.new opening.epoch
          (recoveredOffset opening.plan.kafkaResumeOffset) opening.newState.resumeOffset)
        known := version }) (.openReturns id result)).outstanding id = s.outstanding id := by
      simp [outstanding, toAnnounce, session, followed, Stream.setSession, hphase, hdone,
        Writer.files_new_toAnnounce]
    refine .of_stream hstep hid (by rw [hsame]) fun h ↦ ?_
    refine ⟨⟨?_, Or.inl ⟨opening, hopening⟩⟩, hsame, fun n hahead ↦ ?_⟩
    · simpa [session, StreamSession.Announcing, Stream.setSession] using h.1
    · obtain ⟨_, _, hrunning, -⟩ := hahead
      simp [hopening] at hrunning
  · exact .of_silent hstep hid (by simp [StreamSession.opened, Stream.setSession])
      (by simp [session, Stream.setSession]) List.prefix_rfl

/-- The announcements of a writer. -/
theorem quiet_or_passes_writer {id : Nat} {action : Action β} {next : Stream β}
    (hwriter : ∀ opening w, (s.session id).phase = .running opening w →
      w.ReachableFrom (cfg id) opening.epoch (recoveredOffset opening.plan.kafkaResumeOffset)
        opening.newState.resumeOffset)
    (hstep : s.stream.step cfg (.writer id action) = some next) :
    Quiet s (s.followed next (.writer id action)) ∨
      ∃ n, Passes s (s.followed next (.writer id action)) id n := by
  have hid : (StreamAction.writer id action : StreamAction β).session = id := rfl
  have halive : (s.session id).alive = true := Stream.alive_of_writer hstep
  have halive' : (next.sessions id).alive = true := by
    rcases Stream.alive_step hstep id with hsame | ⟨hcrash, -⟩
    · exact hsame.trans halive
    · simp at hcrash
  obtain ⟨opening, w, w', session', hphase, hnext, hsession, rfl⟩ := Stream.writer_eq_some hstep
  have hrunning : (s.session id).phase = .running opening w := hphase
  have hrunning' : ((s.stream.setSession id session').sessions id).phase = .running opening w' := by
    simpa [Stream.setSession] using (Stream.afterStep_eq_some hsession).1
  generalize s.stream.setSession id session' = next at hstep halive' hrunning'
  have hself : (s.followed next (.writer id action)).session id = next.sessions id := rfl
  have hloop : ((s.followed next (.writer id action)).loops id).pending =
      (s.loops id).pending ++ w'.trace.notified.drop w.trace.notified.length := by
    have hbefore : (s.session id).notified = w.trace.notified := by
      simp only [StreamSession.notified, hrunning]
    have hafter : (next.sessions id).notified = w'.trace.notified := by
      simp only [StreamSession.notified, hrunning']
    simp only [followed, Function.update_self, (NotifyLoop.foldl_enqueue _ _).1, hbefore, hafter]
  have hbefore : s.outstanding id =
      (s.loops id).pending.map NotifyRequest.serialSeq ++
        w.files.toAnnounce.map FileMeta.serialSeq := by
    rw [outstanding_of_alive halive, toAnnounce_running hrunning]
  have hafter : (s.followed next (.writer id action)).outstanding id =
      ((s.loops id).pending ++ w'.trace.notified.drop w.trace.notified.length).map
        NotifyRequest.serialSeq ++ w'.files.toAnnounce.map FileMeta.serialSeq := by
    rw [outstanding_of_alive (hself ▸ halive'), toAnnounce_running (hself ▸ hrunning'), hloop]
  have hseq (files : List FileMeta) :
      (files.map (notifyRequest (cfg id))).map NotifyRequest.serialSeq =
        files.map FileMeta.serialSeq := by
    rw [List.map_map]
    rfl
  have hannouncing (hnotifier : w'.health.notifierGone = false) : (s.session id).Announcing :=
    ⟨halive, Or.inr ⟨opening, w, hrunning, Writer.notifierGone_step hnext hnotifier⟩⟩
  have hnotifier (h : (next.sessions id).Announcing) : w'.health.notifierGone = false := by
    obtain ⟨-, ⟨_, hopening⟩ | ⟨_, _, hphase', hgone⟩⟩ := h
    · simp [hrunning'] at hopening
    · obtain ⟨rfl, rfl⟩ := SessionPhase.running.inj (hrunning'.symm.trans hphase')
      exact hgone
  rcases Writer.announcements_step (hwriter opening w hrunning) hnext with
    ⟨more, hnotified, hcleared, hmore⟩ | ⟨n, hfenced, hreturned, hnotified, hcleared, hnone, hnew⟩ |
    ⟨hgone, hnotified, hcleared, hnone⟩
  · refine Or.inl ?_
    have hsame : (s.followed next (.writer id action)).outstanding id = s.outstanding id := by
      rw [hafter, hbefore, hnotified, List.drop_left, List.map_append, List.append_assoc]
      congr 1
      rw [← hseq, ← hseq, ← List.map_append, hmore]
    refine .of_stream hstep hid (by rw [hsame]) fun h ↦ ⟨hannouncing (hnotifier h), hsame, ?_⟩
    rintro n ⟨_, _, hphase', hepoch, habove⟩
    obtain ⟨rfl, rfl⟩ := SessionPhase.running.inj (hrunning.symm.trans hphase')
    exact ⟨opening, w', hrunning', hepoch, hcleared ▸ habove⟩
  · by_cases hgone : w'.health.notifierGone
    · refine Or.inl (.of_stream hstep hid ?_ fun h ↦ ?_)
      · rw [hafter, hbefore, hnotified, hnone, hnew, if_pos hgone, List.drop_length,
          List.append_nil]
      · simp [hnotifier h] at hgone
    · refine Or.inr ⟨n, ?_, ⟨opening, w, w', hrunning, hrunning', hreturned, hcleared, ?_⟩, halive,
        fun other hother ↦ (followed_other hstep (hid ▸ hother)).1, ?_⟩
      · rintro (hended | ⟨err, hfailed⟩ | ⟨_, _, hphase', hfence⟩)
        · simp [halive] at hended
        · simp [hrunning] at hfailed
        · obtain ⟨rfl, rfl⟩ := SessionPhase.running.inj (hrunning.symm.trans hphase')
          simp [hfenced] at hfence
      · exact Writer.notifierGone_step hnext (by simpa using hgone)
      · ext1 other
        by_cases hother : other = id
        · subst hother
          rw [Function.update_self, hafter, hbefore, hnotified, hnone, hnew, if_neg hgone,
            List.drop_length, List.append_nil, List.map_nil, List.append_nil, List.map_singleton]
        · obtain ⟨hsession, hloops, henqueued⟩ := followed_other hstep (hid ▸ hother)
          rw [Function.update_of_ne hother]
          exact outstanding_congr (by rw [hsession]) (by rw [hsession]) (by rw [hloops]) henqueued
  · refine Or.inl (.of_stream hstep hid ?_ fun h ↦ ?_)
    · rw [hafter, hbefore, hnotified, hnone, List.drop_length, List.append_nil, List.map_nil,
        List.append_nil]
      exact List.prefix_append _ _
    · simp [hnotifier h] at hgone

/-- A step of the stream other than a listing. -/
theorem quiet_or_passes {action : StreamAction β} {next : Stream β}
    (hwriter : ∀ id opening w, (s.session id).phase = .running opening w →
      w.ReachableFrom (cfg id) opening.epoch (recoveredOffset opening.plan.kafkaResumeOffset)
        opening.newState.resumeOffset)
    (haction : ∀ id nowMs watermark staged, action ≠ .openDecide id nowMs watermark staged)
    (henabled : s.enabled cfg action = true) (hstep : s.stream.step cfg action = some next) :
    Quiet s (s.followed next action) ∨ ∃ id n, Passes s (s.followed next action) id n := by
  cases action with
  | openRead id =>
    have hid : (StreamAction.openRead id : StreamAction β).session = id := rfl
    obtain ⟨-, rfl⟩ := Stream.openRead_eq_some hstep
    exact Or.inl (.of_silent hstep hid (by simp [StreamSession.opened, Stream.setSession])
      (by simp [session, Stream.setSession]) List.prefix_rfl)
  | openDecide id nowMs watermark staged => exact absurd rfl (haction id nowMs watermark staged)
  | openLands id =>
    have hid : (StreamAction.openLands id : StreamAction β).session = id := rfl
    obtain ⟨opening, -, -, rfl⟩ := Stream.openLands_eq_some hstep
    exact Or.inl (.of_same hstep (by simp [hid, session, Stream.write, Stream.setSession])
      (by simp [hid, session, Stream.write, Stream.setSession]) rfl)
  | openReturns id result => exact Or.inl (quiet_openReturns henabled hstep)
  | writer id writerAction =>
    exact (quiet_or_passes_writer (hwriter id) hstep).imp_right fun hpasses ↦ ⟨id, hpasses⟩
  | persistLands id persister =>
    have hid : (StreamAction.persistLands id persister : StreamAction β).session = id := rfl
    obtain ⟨opening, w, state, -, -, -, rfl⟩ := Stream.persistLands_eq_some hstep
    exact Or.inl (.of_same hstep (by simp [hid, session, Stream.write, Stream.setSession])
      (by simp [hid, session, Stream.write, Stream.setSession]) rfl)
  | crash id =>
    have hid : (StreamAction.crash id : StreamAction β).session = id := rfl
    obtain rfl := Option.some.inj hstep
    exact Or.inl (.of_silent hstep hid (by simp [Stream.setSession]) (by simp [Stream.setSession])
      (by simp [followed, NotifyLoop.spawn, NotifyLoop.pending]))

/-- An open that decides has its backfill to submit. -/
structure Lists (s s' : Ingest β σ) (id : Nat) (state : Option StateFile) (watermark : Option Int)
    (staged : List StagedFile) (opening : Opening) : Prop where
  decided : ∃ nowMs, openDecisions nowMs state watermark staged = .ok opening
  reading : (s.session id).phase = .reading state
  decides : (s'.session id).phase = .opening opening
  marked : s.watermarks id = some watermark
  listed : staged.Perm s.staged
  others : ∀ other, other ≠ id → s'.session other = s.session other
  outstanding : s'.outstanding =
    Function.update s.outstanding id (opening.plan.backfill.map StagedFile.packed)

theorem quiet_or_lists (h : s.Idle) {id nowMs : Nat} {watermark : Option Int}
    {staged : List StagedFile} {next : Stream β}
    (henabled : s.enabled cfg (.openDecide id nowMs watermark staged) = true)
    (hstep : s.stream.step cfg (.openDecide id nowMs watermark staged) = some next) :
    (Quiet s (s.followed next (.openDecide id nowMs watermark staged)) ∧
        ¬ (next.sessions id).Announcing) ∨
      ∃ state opening, Lists s (s.followed next (.openDecide id nowMs watermark staged)) id state
        watermark staged opening := by
  have hid : (StreamAction.openDecide id nowMs watermark staged : StreamAction β).session = id :=
    rfl
  have halive : (s.session id).alive = true := Stream.alive_of_openDecide hstep
  have halive' : (next.sessions id).alive = true := by
    rcases Stream.alive_step hstep id with hsame | ⟨hcrash, -⟩
    · exact hsame.trans halive
    · simp at hcrash
  simp only [enabled, Bool.and_eq_true, decide_eq_true_eq] at henabled
  obtain ⟨state, hphase, hresult⟩ := Stream.openDecide_eq_some hstep
  obtain ⟨hpending, henqueued⟩ := h id (Or.inr ⟨state, hphase⟩)
  rcases hresult with ⟨opening, hopen, hnext⟩ | ⟨err, rfl⟩
  · have hopening : (next.sessions id).phase = .opening opening := by
      simp [hnext, Stream.setSession]
    refine Or.inr ⟨state, opening, ⟨nowMs, hopen⟩, hphase, hopening, henabled.1, henabled.2,
      fun other hother ↦ (followed_other hstep (hid ▸ hother)).1, ?_⟩
    ext1 other
    by_cases hother : other = id
    · subst hother
      rw [Function.update_self]
      refine (if_pos halive').trans ?_
      simp [toAnnounce, session, followed, hopening, hpending, henqueued]
    · obtain ⟨hsession, hloops, henqueued⟩ := followed_other hstep (hid ▸ hother)
      rw [Function.update_of_ne hother]
      exact outstanding_congr (by rw [hsession]) (by rw [hsession]) (by rw [hloops]) henqueued
  · refine Or.inl ⟨.of_silent hstep hid (by simp [StreamSession.opened, Stream.setSession])
      (by simp [session, Stream.setSession]) List.prefix_rfl, ?_⟩
    simp [StreamSession.Announcing, Stream.setSession]

/-! ### The other steps -/

theorem outstanding_backfill {id : Nat} (hstep : s.backfill cfg id = some s') :
    s'.outstanding = s.outstanding := by
  obtain ⟨opening, file, n, hphase, halive, hfile, hmeta, rfl⟩ := backfill_eq_some hstep
  ext1 other
  by_cases hother : other = id
  · subst hother
    have hseq : (notifyRequest (cfg other) n).serialSeq = file.packed :=
      (WriterState.sealMeta_ok hmeta).2.2.2.1
    have hdrop : opening.plan.backfill.drop (s.enqueued other) =
        file :: opening.plan.backfill.drop (s.enqueued other + 1) :=
      List.drop_eq_getElem?_toList_append.trans (by rw [hfile]; rfl)
    refine ((if_pos halive).trans ?_).trans (outstanding_of_alive halive).symm
    simp [toAnnounce, session, show (s.stream.sessions other).phase = _ from hphase, hseq, hdrop]
  · refine outstanding_congr rfl rfl ?_ ?_
    · simp [hother]
    · simp [hother]

/-- The request that a loop sends is the first that its session has to submit. -/
theorem outstanding_head {id : Nat} (halive : (s.session id).alive = true) {req : NotifyRequest}
    (hhead : (s.loops id).pending.head? = some req) :
    ∃ rest, s.outstanding id = req.serialSeq :: rest := by
  rw [outstanding_of_alive halive]
  cases hpending : (s.loops id).pending with
  | nil => simp [hpending] at hhead
  | cons first rest =>
    obtain rfl : first = req := by simpa [hpending] using hhead
    exact ⟨_, rfl⟩

/-- A turn takes nothing from the queue of a loop, or the first request, which was answered. -/
theorem outstanding_turn {id : Nat} {t : Turn} (hstep : s.turn id t = some s') :
    s'.outstanding = s.outstanding ∨ ∃ req outcome rest, (id, req, outcome) ∈ s.answers ∧
      s.outstanding id = req.serialSeq :: rest ∧
      s'.outstanding = Function.update s.outstanding id rest := by
  obtain ⟨halive, hanswered, rfl⟩ := turn_eq_some hstep
  have hself : ∀ loop : NotifyLoop, loop.pending = (s.loops id).pending →
      ({ s with loops := Function.update s.loops id loop } : Ingest β σ).outstanding =
        s.outstanding := by
    intro loop hsame
    ext1 other
    refine outstanding_congr rfl rfl ?_ rfl
    by_cases hother : other = id
    · subst hother
      simpa using hsame
    · simp [hother]
  have hsettled {req : NotifyRequest} {outcome : SubmitOutcome}
      (hanswer : (id, req, outcome) ∈ s.answers) (hhand : (s.loops id).receive.inHand = some req)
      {loop : NotifyLoop} (hpending : loop.pending = (s.loops id).receive.rx) :
      ∃ req outcome rest, (id, req, outcome) ∈ s.answers ∧
        s.outstanding id = req.serialSeq :: rest ∧
        ({ s with loops := Function.update s.loops id loop } : Ingest β σ).outstanding =
          Function.update s.outstanding id rest := by
    rw [NotifyLoop.receive_inHand] at hhand
    rw [NotifyLoop.receive_rx] at hpending
    refine ⟨req, outcome, loop.pending.map NotifyRequest.serialSeq ++ s.toAnnounce id, hanswer,
      ?_, ?_⟩
    · rw [outstanding_of_alive halive, hpending]
      cases hqueue : (s.loops id).pending with
      | nil => simp [hqueue] at hhand
      | cons first rest =>
        obtain rfl : first = req := by simpa [hqueue] using hhand
        rfl
    · ext1 other
      by_cases hother : other = id
      · subst hother
        rw [Function.update_self]
        refine (if_pos halive).trans ?_
        simp [toAnnounce, session]
      · rw [Function.update_of_ne hother]
        exact outstanding_congr rfl rfl (by simp [hother]) rfl
  rcases (s.loops id).receive.turn_cases t with ⟨-, hpending, -⟩ |
    ⟨req, hreq, hhand, ⟨houtcome, hpending, -⟩ | ⟨message, houtcome, hpending, -⟩ |
      ⟨message, -, hpending, -⟩⟩
  · exact Or.inl (hself _ (hpending.trans (s.loops id).receive_pending))
  · rcases houtcome with houtcome | houtcome
    · exact Or.inr (hsettled (hanswered req _ hreq houtcome) hhand hpending)
    · exact Or.inr (hsettled (hanswered req _ hreq houtcome) hhand hpending)
  · exact Or.inr (hsettled (hanswered req _ hreq houtcome) hhand hpending)
  · exact Or.inl (hself _ (hpending.trans (s.loops id).receive_pending))

end Ingest

end RelytIngest
