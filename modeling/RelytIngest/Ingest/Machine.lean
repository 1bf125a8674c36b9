import RelytIngest.Stream.EpochAnchor
import RelytIngest.Writer.ClearedFiles
import RelytIngest.Writer.TakenRanges

/-!
# The sessions of a stream, its staging directory and the load master

`Ingest` puts the sessions of a stream together with what their files pass through: the staging
directory, a notify loop for each session, and the load master. A put takes effect at any time after
it was issued, or never, and a submission arrives at any time after it was sent, also after its
session has ended, so a connection that breaks loses an answer, not what was submitted.

The master is not part of the SDK. It is a parameter, and `Master.Documented` collects what the
comments of the notify loop and of the recovery say about it, for the files of one serial group.

`kept`, `landed`, `puts` and `wire` are history. Of these `landed` alone is read by a step: an
object is in the directory once a put of it has taken effect. Each session has a notify loop of its
own, with a board of its own.
-/

set_option autoImplicit false
set_option relaxedAutoImplicit false

namespace RelytIngest

open Foundations

/-- The load master, for the files of one serial group. -/
structure Master (σ : Type) where
  submit : σ → NotifyRequest → SubmitOutcome × σ
  /-- A queued file is loaded, when there is one. -/
  load : σ → Option σ
  watermark : σ → Option Int
  queued : σ → List NotifyRequest
  loaded : σ → List NotifyRequest

/-- What is documented of the master. -/
structure Master.Documented {σ : Type} (master : Master σ) : Prop where
  /-- The watermark is the largest serial seq that was loaded. -/
  watermark : ∀ m, master.watermark m = ((master.loaded m).map NotifyRequest.serialSeq).max?
  /-- A seq at or below the watermark is swallowed. -/
  swallowed : ∀ m req w, master.watermark m = some w → req.serialSeq ≤ w →
    master.submit m req = (.idempotent, m)
  /-- So is an identifier that is queued. -/
  known : ∀ m req other, other ∈ master.queued m → other.identifier = req.identifier →
    master.submit m req = (.idempotent, m)
  /-- Any other file is queued, unless its seq is. -/
  accepted : ∀ m req, (∀ w, master.watermark m = some w → w < req.serialSeq) →
    (∀ other ∈ master.queued m,
      other.identifier ≠ req.identifier ∧ other.serialSeq ≠ req.serialSeq) →
    ∃ m', master.submit m req = (.accepted, m') ∧
      master.queued m' = master.queued m ++ [req] ∧ master.loaded m' = master.loaded m
  /-- The file with the least seq is loaded. -/
  load : ∀ m m', master.load m = some m' → ∃ req ∈ master.queued m,
    (∀ other ∈ master.queued m, req.serialSeq ≤ other.serialSeq) ∧
      master.loaded m' = master.loaded m ++ [req] ∧
      master.queued m' = (master.queued m).filter fun other ↦
        decide (other.serialSeq ≠ req.serialSeq)

/-- A master that is as documented: the files queued, and those loaded. -/
def jobMaster : Master (List NotifyRequest × List NotifyRequest) where
  submit jobs req :=
    if (jobs.2.map NotifyRequest.serialSeq).max?.any fun w ↦ decide (req.serialSeq ≤ w) then
      (.idempotent, jobs)
    else if jobs.1.any fun other ↦ decide (other.identifier = req.identifier) then
      (.idempotent, jobs)
    else if jobs.1.any fun other ↦ decide (other.serialSeq = req.serialSeq) then
      (.contractViolation "the serial seq is in use", jobs)
    else (.accepted, (jobs.1 ++ [req], jobs.2))
  load jobs :=
    (jobs.1.find? fun req ↦ jobs.1.all fun other ↦ decide (req.serialSeq ≤ other.serialSeq)).map
      fun req ↦ (jobs.1.filter fun other ↦ decide (other.serialSeq ≠ req.serialSeq),
        jobs.2 ++ [req])
  watermark jobs := (jobs.2.map NotifyRequest.serialSeq).max?
  queued jobs := jobs.1
  loaded jobs := jobs.2

theorem jobMaster_documented : jobMaster.Documented where
  watermark _ := rfl
  swallowed jobs req w hw hle := by
    have hw : (jobs.2.map NotifyRequest.serialSeq).max? = some w := hw
    simp [jobMaster, hw, hle]
  known jobs req other hother heq := by
    have hknown : jobs.1.any (fun other ↦ decide (other.identifier = req.identifier)) = true :=
      List.any_eq_true.mpr ⟨other, hother, decide_eq_true heq⟩
    simp only [jobMaster, hknown, if_true, ite_self]
  accepted jobs req hw hother := by
    have hw : ∀ w, (jobs.2.map NotifyRequest.serialSeq).max? = some w → w < req.serialSeq := hw
    have habove : (jobs.2.map NotifyRequest.serialSeq).max?.any
        (fun w ↦ decide (req.serialSeq ≤ w)) = false := by
      cases hmax : (jobs.2.map NotifyRequest.serialSeq).max? with
      | none => rfl
      | some w => simpa using hw w hmax
    have hunknown : jobs.1.any (fun other ↦ decide (other.identifier = req.identifier)) = false :=
      List.any_eq_false.mpr fun other hmem ↦ by simpa using (hother other hmem).1
    have hfree : jobs.1.any (fun other ↦ decide (other.serialSeq = req.serialSeq)) = false :=
      List.any_eq_false.mpr fun other hmem ↦ by simpa using (hother other hmem).2
    refine ⟨(jobs.1 ++ [req], jobs.2), ?_, rfl, rfl⟩
    simp only [jobMaster, habove, hunknown, hfree, if_false, Bool.false_eq_true]
  load jobs jobs' hload := by
    obtain ⟨req, hreq, rfl⟩ := Option.map_eq_some_iff.mp hload
    refine ⟨req, List.mem_of_find?_eq_some hreq, fun other hother ↦ ?_, rfl, rfl⟩
    have hleast := List.find?_some hreq
    exact of_decide_eq_true (List.all_eq_true.mp hleast other hother)

/-- What the writer of a session has announced. -/
def StreamSession.notified {β : Type} (session : StreamSession β) : List NotifyRequest :=
  match session.phase with
  | .running _ w => w.trace.notified
  | _ => []

/-- The files whose put has returned `Ok` to the writer of a session. -/
def StreamSession.putReturned {β : Type} (session : StreamSession β) : List FileMeta :=
  match session.phase with
  | .running _ w => w.trace.putReturned
  | _ => []

structure Ingest (β σ : Type) where
  stream : Stream β
  /-- The number of the sessions that have begun to open. -/
  begun : Nat
  /-- The watermark an open has read. -/
  watermarks : Nat → Option (Option Int)
  /-- How many files of its backfill an open has enqueued. -/
  enqueued : Nat → Nat
  loops : Nat → NotifyLoop
  /-- The puts that were issued, with their sessions. -/
  puts : List (Nat × StagedFile)
  /-- Those that have taken effect. -/
  landed : List (Nat × StagedFile)
  /-- The session that has listed the directory last. -/
  lister : Option Nat
  /-- The objects that it saw then and those that it has put since. -/
  kept : List StagedFile
  /-- The submissions that were sent, with their sessions. -/
  wire : List (Nat × NotifyRequest)
  answers : List (Nat × NotifyRequest × SubmitOutcome)
  master : σ

inductive IngestAction (β : Type)
  | stream (action : StreamAction β)
  /-- `open_table` asks for the watermark; an older server does not know it. -/
  | watermark (id : Nat) (degraded : Bool)
  /-- `open_table` enqueues the next file of its backfill. -/
  | backfill (id : Nat)
  | objectLands (id : Nat) (file : StagedFile)
  | send (id : Nat)
  | arrive (id : Nat) (req : NotifyRequest)
  | turn (id : Nat) (t : Turn)
  | load

namespace Ingest

variable {β σ : Type}

/-- Nothing has happened yet. -/
def start (m : σ) : Ingest β σ where
  stream := .start none
  begun := 0
  watermarks _ := none
  enqueued _ := 0
  loops _ := .spawn .empty []
  puts := []
  landed := []
  lister := none
  kept := []
  wire := []
  answers := []
  master := m

/-- The objects in the staging directory. -/
def staged (s : Ingest β σ) : List StagedFile := (s.landed.map Prod.snd).dedup

def session (s : Ingest β σ) (id : Nat) : StreamSession β := s.stream.sessions id

variable (cfg : Nat → WriterConfig β) (master : Master σ)

/-- What a step of the stream takes from its surroundings is there. -/
def enabled (s : Ingest β σ) : StreamAction β → Bool
  | .openRead id => decide (id = s.begun)
  | .openDecide id _ watermark staged =>
    decide (s.watermarks id = some watermark) && decide (staged.Perm s.staged)
  | .openReturns id (.ok ()) =>
    match (s.session id).phase with
    | .opening opening => decide (s.enqueued id = opening.plan.backfill.length)
    | _ => false
  | .writer id (.persistBegin _ confirmedEnd _) =>
    decide (confirmedEnd =
      ((s.loops id).board.confirmed (cfg id).ident.serialGroup).map Prod.snd)
  | .writer id (.serialViolation message) =>
    decide ((s.loops id).board.fatal (cfg id).ident.serialGroup = some message)
  | _ => true

/-- After the step to `next`, each put that has returned `Ok` to its writer has taken effect. -/
def effected (s : Ingest β σ) (next : Stream β) : StreamAction β → Bool
  | .writer id _ => (next.sessions id).putReturned.all fun m ↦ decide ((id, m.file) ∈ s.landed)
  | _ => true

/-- The surroundings after a step of the stream to `next`: the writer of a session issues puts and
announces files, a crash loses the queue of the notify loop. -/
def followed (s : Ingest β σ) (next : Stream β) : StreamAction β → Ingest β σ
  | .openRead _ => { s with stream := next, begun := s.begun + 1 }
  | .openDecide id _ _ _ => { s with stream := next, lister := some id, kept := s.staged }
  | .writer id _ =>
    let announced := (next.sessions id).notified.drop (s.session id).notified.length
    { s with
      stream := next
      puts := s.puts ++ ((next.sessions id).putUnderWay.map fun m ↦ (id, m.file)).toList
      loops := Function.update s.loops id (announced.foldl NotifyLoop.enqueue (s.loops id)) }
  | .crash id =>
    { s with stream := next, loops := Function.update s.loops id (.spawn .empty []) }
  | .openLands _ | .openReturns _ _ | .persistLands _ _ => { s with stream := next }

def streamStep (s : Ingest β σ) (action : StreamAction β) : Option (Ingest β σ) :=
  if s.enabled cfg action then
    (s.stream.step cfg action).bind fun next ↦
      if s.effected next action then some (s.followed next action) else none
  else none

def readWatermark (s : Ingest β σ) (id : Nat) (degraded : Bool) : Option (Ingest β σ) :=
  match (s.session id).phase with
  | .reading _ =>
    if (s.session id).alive then
      let answer := if degraded then none else master.watermark s.master
      some { s with watermarks := Function.update s.watermarks id (some answer) }
    else none
  | _ => none

/-- The backfill is announced as the writer announces its own files. -/
def backfill (s : Ingest β σ) (id : Nat) : Option (Ingest β σ) :=
  match (s.session id).phase with
  | .opening opening =>
    if (s.session id).alive && (s.session id).openLanded.isSome then
      match opening.plan.backfill[s.enqueued id]?.map (WriterState.sealMeta (cfg id)) with
      | some (.ok m) =>
        some { s with
          enqueued := Function.update s.enqueued id (s.enqueued id + 1)
          loops := Function.update s.loops id
            ((s.loops id).enqueue (notifyRequest (cfg id) m)) }
      | _ => none
    else none
  | _ => none

/-- A put that was issued takes effect. -/
def objectLands (s : Ingest β σ) (id : Nat) (file : StagedFile) : Option (Ingest β σ) :=
  if (id, file) ∈ s.puts then
    some { s with
      landed := s.landed ++ [(id, file)]
      kept := if s.lister = some id ∧ file ∉ s.kept then s.kept ++ [file] else s.kept }
  else none

/-- The notify loop sends the request in hand. -/
def send (s : Ingest β σ) (id : Nat) : Option (Ingest β σ) :=
  if (s.session id).alive then
    (s.loops id).receive.inHand.map fun req ↦ { s with wire := s.wire ++ [(id, req)] }
  else none

/-- The master answers a submission. -/
def arrive (s : Ingest β σ) (id : Nat) (req : NotifyRequest) : Option (Ingest β σ) :=
  if (id, req) ∈ s.wire then
    some { s with
      answers := s.answers ++ [(id, req, (master.submit s.master req).1)]
      master := (master.submit s.master req).2 }
  else none

/-- A turn of a notify loop; an answer that it gets is one of the master. -/
def turn (s : Ingest β σ) (id : Nat) (t : Turn) : Option (Ingest β σ) :=
  let answered :=
    match t.answer, (s.loops id).receive.submission t with
    | .ok outcome, some req => decide ((id, req, outcome) ∈ s.answers)
    | _, _ => true
  if (s.session id).alive && answered then
    some { s with loops := Function.update s.loops id ((s.loops id).receive.turn t) }
  else none

def step (s : Ingest β σ) : IngestAction β → Option (Ingest β σ)
  | .stream action => s.streamStep cfg action
  | .watermark id degraded => s.readWatermark master id degraded
  | .backfill id => s.backfill cfg id
  | .objectLands id file => s.objectLands id file
  | .send id => s.send id
  | .arrive id req => s.arrive master id req
  | .turn id t => s.turn id t
  | .load => (master.load s.master).map fun m ↦ { s with master := m }

/-! ### What is on its way to the master -/

/-- The serial seqs that a session is about to announce. -/
def toAnnounce (s : Ingest β σ) (id : Nat) : List Int :=
  match (s.session id).phase with
  | .opening opening => (opening.plan.backfill.drop (s.enqueued id)).map StagedFile.packed
  | .running _ w => w.files.toAnnounce.map FileMeta.serialSeq
  | _ => []

/-- The serial seqs that a session has still to submit, and will, unless it ends. -/
def outstanding (s : Ingest β σ) (id : Nat) : List Int :=
  if (s.session id).alive then
    (s.loops id).pending.map NotifyRequest.serialSeq ++ s.toAnnounce id
  else []

/-- The serial seqs that the master has, or that are on their way there. -/
def moving (s : Ingest β σ) : List Int :=
  (master.loaded s.master ++ master.queued s.master).map NotifyRequest.serialSeq ++
    s.wire.map (fun sent ↦ sent.2.serialSeq) ++ (List.range s.begun).flatMap s.outstanding

/-! ### What a step can do -/

variable {cfg master} {s s' : Ingest β σ}

theorem mem_staged {file : StagedFile} : file ∈ s.staged ↔ ∃ id, (id, file) ∈ s.landed := by
  simp [staged]

theorem streamStep_eq_some {action : StreamAction β} (hstep : s.streamStep cfg action = some s') :
    s.enabled cfg action = true ∧ ∃ next, s.stream.step cfg action = some next ∧
      s.effected next action = true ∧ s' = s.followed next action := by
  unfold streamStep at hstep
  split_ifs at hstep with henabled
  obtain ⟨next, hnext, hrest⟩ := Option.bind_eq_some_iff.mp hstep
  rw [Option.ite_none_right_eq_some] at hrest
  exact ⟨henabled, next, hnext, hrest.1, (Option.some.inj hrest.2).symm⟩

theorem readWatermark_eq_some {id : Nat} {degraded : Bool}
    (hstep : s.readWatermark master id degraded = some s') :
    ∃ state, (s.session id).phase = .reading state ∧
      ∃ answer, (answer = none ∨ answer = master.watermark s.master) ∧
        s' = { s with watermarks := Function.update s.watermarks id (some answer) } := by
  unfold readWatermark at hstep
  split at hstep
  · next state hphase =>
    rw [Option.ite_none_right_eq_some] at hstep
    refine ⟨state, hphase, _, ?_, (Option.some.inj hstep.2).symm⟩
    cases degraded <;> simp
  · simp at hstep

theorem backfill_eq_some {id : Nat} (hstep : s.backfill cfg id = some s') :
    ∃ opening file m, (s.session id).phase = .opening opening ∧ (s.session id).alive = true ∧
      opening.plan.backfill[s.enqueued id]? = some file ∧
      WriterState.sealMeta (cfg id) file = .ok m ∧
      s' = { s with
        enqueued := Function.update s.enqueued id (s.enqueued id + 1)
        loops :=
          Function.update s.loops id ((s.loops id).enqueue (notifyRequest (cfg id) m)) } := by
  unfold backfill at hstep
  split at hstep
  · next opening hphase =>
    split_ifs at hstep with halive
    split at hstep
    · next m hmeta =>
      obtain ⟨file, hfile, hm⟩ := Option.map_eq_some_iff.mp hmeta
      rw [Bool.and_eq_true] at halive
      exact ⟨opening, file, m, hphase, halive.1, hfile, hm, (Option.some.inj hstep).symm⟩
    · simp at hstep
  · simp at hstep

theorem objectLands_eq_some {id : Nat} {file : StagedFile}
    (hstep : s.objectLands id file = some s') :
    (id, file) ∈ s.puts ∧ s' = { s with
      landed := s.landed ++ [(id, file)]
      kept := if s.lister = some id ∧ file ∉ s.kept then s.kept ++ [file] else s.kept } := by
  rw [objectLands, Option.ite_none_right_eq_some] at hstep
  exact ⟨hstep.1, (Option.some.inj hstep.2).symm⟩

theorem send_eq_some {id : Nat} (hstep : s.send id = some s') :
    (s.session id).alive = true ∧ ∃ req, (s.loops id).pending.head? = some req ∧
      s' = { s with wire := s.wire ++ [(id, req)] } := by
  unfold send at hstep
  split_ifs at hstep with halive
  obtain ⟨req, hreq, rfl⟩ := Option.map_eq_some_iff.mp hstep
  rw [NotifyLoop.receive_inHand] at hreq
  exact ⟨halive, req, hreq, rfl⟩

theorem arrive_eq_some {id : Nat} {req : NotifyRequest}
    (hstep : s.arrive master id req = some s') :
    (id, req) ∈ s.wire ∧ s' = { s with
      answers := s.answers ++ [(id, req, (master.submit s.master req).1)]
      master := (master.submit s.master req).2 } := by
  unfold arrive at hstep
  split_ifs at hstep with hsent
  exact ⟨hsent, (Option.some.inj hstep).symm⟩

theorem turn_eq_some {id : Nat} {t : Turn} (hstep : s.turn id t = some s') :
    (s.session id).alive = true ∧
      (∀ req outcome, (s.loops id).receive.submission t = some req → t.answer = .ok outcome →
        (id, req, outcome) ∈ s.answers) ∧
      s' = { s with loops := Function.update s.loops id ((s.loops id).receive.turn t) } := by
  unfold turn at hstep
  simp only [Bool.and_eq_true] at hstep
  split_ifs at hstep with hanswered
  refine ⟨hanswered.1, fun req outcome hreq houtcome ↦ ?_, (Option.some.inj hstep).symm⟩
  have hmem := hanswered.2
  rw [hreq, houtcome] at hmem
  exact of_decide_eq_true hmem

theorem load_eq_some (hstep : s.step cfg master .load = some s') :
    ∃ m, master.load s.master = some m ∧ s' = { s with master := m } := by
  obtain ⟨m, hm, rfl⟩ := Option.map_eq_some_iff.mp hstep
  exact ⟨m, hm, rfl⟩

end Ingest

end RelytIngest
