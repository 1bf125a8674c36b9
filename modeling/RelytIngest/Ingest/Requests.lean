import RelytIngest.Ingest.Kept

/-!
# What is submitted

Every request, wherever it is between a notify loop and the files loaded, announces a file that has
to be kept (`Requests`), so two requests with one serial seq carry one identifier
(`Requests.same_identifier`) and the master never finds a contract violation
(`Master.Documented.submit`).
-/

set_option autoImplicit false
set_option relaxedAutoImplicit false

namespace RelytIngest

open Foundations Relation

section Announcements

variable {β : Type} {cfg : Nat → WriterConfig β} {file : StagedFile} {req : NotifyRequest}

/-- The request announces the file, as some session of the stream does. -/
def Announces (cfg : Nat → WriterConfig β) (file : StagedFile) (req : NotifyRequest) : Prop :=
  ∃ id m, WriterState.sealMeta (cfg id) file = .ok m ∧ req = notifyRequest (cfg id) m

theorem Announces.serialSeq (h : Announces cfg file req) : req.serialSeq = file.packed := by
  obtain ⟨id, m, hmeta, rfl⟩ := h
  exact (WriterState.sealMeta_ok hmeta).2.2.2.1

theorem Announces.endOffset (h : Announces cfg file req) : req.endOffset = file.endOffset := by
  obtain ⟨id, m, hmeta, rfl⟩ := h
  exact congrArg StagedFile.endOffset (WriterState.sealMeta_ok hmeta).1

theorem Announces.identifier (h : Announces cfg file req) {ident : WriterIdentity}
    (hident : ∀ id, (cfg id).ident = ident) : req.identifier = file.identifierText ident := by
  obtain ⟨id, m, hmeta, rfl⟩ := h
  rw [← hident id]
  exact (WriterState.sealMeta_ok hmeta).2.2.2.2.1

end Announcements

namespace Master.Documented

variable {σ : Type} {master : Master σ} {m : σ} {req : NotifyRequest}

/-- A file that is loaded has a seq at or below the watermark, and some file has the watermark. -/
theorem watermark_eq_some (hdoc : master.Documented) {w : Int} (hw : master.watermark m = some w) :
    (∃ l ∈ master.loaded m, l.serialSeq = w) ∧ ∀ l ∈ master.loaded m, l.serialSeq ≤ w := by
  rw [hdoc.watermark] at hw
  obtain ⟨l, hl, heq⟩ := List.mem_map.mp (List.max?_mem hw)
  refine ⟨⟨l, hl, heq⟩, fun other hother ↦ ?_⟩
  exact (List.max?_eq_some_iff.mp hw).2 _ (List.mem_map_of_mem hother)

theorem watermark_eq_none (hdoc : master.Documented) (hnone : master.watermark m = none) :
    master.loaded m = [] := by
  rw [hdoc.watermark, List.max?_eq_none_iff, List.map_eq_nil_iff] at hnone
  exact hnone

/-- What the master makes of a submission, while a seq and an identifier belong together. -/
theorem submit (hdoc : master.Documented)
    (hsame : ∀ other ∈ master.queued m,
      other.serialSeq = req.serialSeq ↔ other.identifier = req.identifier) :
    (master.submit m req = (.idempotent, m) ∧
        ((∃ l ∈ master.loaded m, req.serialSeq ≤ l.serialSeq) ∨
          ∃ other ∈ master.queued m, other.serialSeq = req.serialSeq)) ∨
      ∃ m', master.submit m req = (.accepted, m') ∧
        master.queued m' = master.queued m ++ [req] ∧ master.loaded m' = master.loaded m ∧
        ∀ l ∈ master.loaded m, l.serialSeq < req.serialSeq := by
  by_cases hreached : ∃ l ∈ master.loaded m, req.serialSeq ≤ l.serialSeq
  · obtain ⟨l, hl, hle⟩ := hreached
    cases hw : master.watermark m with
    | none => simp [hdoc.watermark_eq_none hw] at hl
    | some w =>
      have hbelow := (hdoc.watermark_eq_some hw).2 l hl
      exact Or.inl ⟨hdoc.swallowed m req w hw (hle.trans hbelow), Or.inl ⟨l, hl, hle⟩⟩
  by_cases hqueued : ∃ other ∈ master.queued m, other.serialSeq = req.serialSeq
  · obtain ⟨other, hother, heq⟩ := hqueued
    exact Or.inl ⟨hdoc.known m req other hother ((hsame other hother).mp heq),
      Or.inr ⟨other, hother, heq⟩⟩
  · push Not at hreached hqueued
    obtain ⟨m', hsubmit, hqueue, hloaded⟩ := hdoc.accepted m req (fun w hw ↦ by
      obtain ⟨l, hl, rfl⟩ := (hdoc.watermark_eq_some hw).1
      exact hreached l hl) fun other hother ↦
        ⟨fun heq ↦ hqueued other hother ((hsame other hother).mpr heq), hqueued other hother⟩
    exact Or.inr ⟨m', hsubmit, hqueue, hloaded, hreached⟩

end Master.Documented

/-- Enqueueing requests in a row. -/
theorem NotifyLoop.foldl_enqueue (reqs : List NotifyRequest) (loop : NotifyLoop) :
    (reqs.foldl NotifyLoop.enqueue loop).pending = loop.pending ++ reqs ∧
      (reqs.foldl NotifyLoop.enqueue loop).board = loop.board := by
  induction reqs generalizing loop with
  | nil => exact ⟨(List.append_nil _).symm, rfl⟩
  | cons req rest ih =>
    obtain ⟨hpending, hboard⟩ := ih (loop.enqueue req)
    refine ⟨?_, hboard⟩
    rw [List.foldl_cons, hpending, NotifyLoop.enqueue_pending, List.append_assoc,
      List.singleton_append]

namespace Ingest

variable {β σ : Type} {cfg : Nat → WriterConfig β} {master : Master σ} {s s' : Ingest β σ}
  {allowed : Ingest β σ → IngestAction β → Prop} {m : σ} {first : Int} {admitted : Entry β → Prop}
  {owed : List StagedFile}

/-- The request is queued in a notify loop, sent, queued at the master or loaded. -/
def Submitted (master : Master σ) (s : Ingest β σ) (req : NotifyRequest) : Prop :=
  (∃ id, req ∈ (s.loops id).pending) ∨ (∃ id, (id, req) ∈ s.wire) ∨
    req ∈ master.queued s.master ∨ req ∈ master.loaded s.master

structure Requests (cfg : Nat → WriterConfig β) (master : Master σ) (s : Ingest β σ) : Prop where
  submitted : ∀ req, s.Submitted master req → ∃ file ∈ s.kept, Announces cfg file req
  backfill : ∀ id opening, (s.session id).opened = some opening →
    ∀ file ∈ opening.plan.backfill, file ∈ s.kept

/-- What a writer announces in a step is a file past the fence. -/
theorem announced_cleared {w w' : Writer β} {id : Nat} {epochMs : Nat}
    {stagedOffset resumePersisted : Option Int} {action : Action β}
    (hreach : w.ReachableFrom (cfg id) epochMs stagedOffset resumePersisted)
    (hstep : w.step (cfg id) action = some w') {req : NotifyRequest}
    (hreq : req ∈ w'.trace.notified.drop w.trace.notified.length) :
    ∃ n ∈ w.cleared, Announces cfg n.file req := by
  have hnothing (hsame : w'.trace.notified = w.trace.notified) : False := by
    simp [hsame] at hreq
  rcases Writer.announcements_step hreach hstep with ⟨more, hnotified, -, hmore⟩ |
    ⟨n, -, -, hsame, -⟩ | ⟨-, hsame, -⟩
  · rw [hnotified, List.drop_left] at hreq
    have hmem : req ∈ w.files.toAnnounce.map (notifyRequest (cfg id)) :=
      hmore ▸ List.mem_append_left _ hreq
    obtain ⟨n, hn, rfl⟩ := List.mem_map.mp hmem
    have hcleared : n ∈ w.cleared := hreach.files.toAnnounce_cleared hn
    exact ⟨n, hcleared, id, n,
      (hreach.cleared_meta (hreach.files.cleared_prefix.subset hcleared)).2.1, rfl⟩
  · exact (hnothing hsame).elim
  · exact (hnothing hsame).elim

/-- A turn takes requests from the queue only. -/
theorem mem_pending_turn {loop : NotifyLoop} {t : Turn} {req : NotifyRequest}
    (hreq : req ∈ (loop.receive.turn t).pending) : req ∈ loop.pending := by
  have hrest : req ∈ loop.receive.rx → req ∈ loop.pending := fun hmem ↦ by
    rw [NotifyLoop.receive_rx] at hmem
    exact List.mem_of_mem_tail hmem
  rcases loop.receive.turn_cases t with ⟨-, hpending, -⟩ |
    ⟨first, -, -, ⟨-, hpending, -⟩ | ⟨message, -, hpending, -⟩ | ⟨message, -, hpending, -⟩⟩
  · rwa [hpending, NotifyLoop.receive_pending] at hreq
  · exact hrest (hpending ▸ hreq)
  · exact hrest (hpending ▸ hreq)
  · rwa [hpending, NotifyLoop.receive_pending] at hreq

/-- A request that a step brings to a notify loop is of a file past the fence or of a backfill. -/
theorem mem_pending_step (hreach : ReachableUnder (step cfg master) allowed (Ingest.start m) s)
    {action : IngestAction β} (hstep : s.step cfg master action = some s') {id : Nat}
    {req : NotifyRequest} (hreq : req ∈ (s'.loops id).pending) :
    req ∈ (s.loops id).pending ∨
      (∃ opening w, (s.session id).phase = .running opening w ∧
        ∃ n ∈ w.cleared, Announces cfg n.file req) ∨
      ∃ opening, (s.session id).opened = some opening ∧
        ∃ file ∈ opening.plan.backfill, Announces cfg file req := by
  have hchange := loop_step hstep id
  generalize s'.loops id = loop at hchange hreq
  cases hchange with
  | same => exact Or.inl hreq
  | announced writerAction next hnext =>
    obtain ⟨opening, w, w', session, hphase, hwriter, hsession, rfl⟩ :=
      Stream.writer_eq_some hnext
    have hold : (s.session id).notified = w.trace.notified := by
      simp [Ingest.session, StreamSession.notified, hphase]
    have hlater : ((s.stream.setSession id session).sessions id).notified = w'.trace.notified := by
      simp [Stream.setSession, StreamSession.notified, (Stream.afterStep_eq_some hsession).1]
    rw [(NotifyLoop.foldl_enqueue _ _).1, hold, hlater, List.mem_append] at hreq
    refine hreq.imp_right fun hnew ↦ Or.inl ⟨opening, w, hphase, ?_⟩
    exact announced_cleared (writer_of_reachable hreach hphase) hwriter hnew
  | lost => simp [NotifyLoop.spawn, NotifyLoop.pending] at hreq
  | backfilled opening file n hopened hfile hmeta =>
    rw [NotifyLoop.enqueue_pending, List.mem_append, List.mem_singleton] at hreq
    rcases hreq with hold | rfl
    · exact Or.inl hold
    · exact Or.inr (Or.inr ⟨opening, hopened, file, hfile, id, n, hmeta, rfl⟩)
  | turned t => exact Or.inl (mem_pending_turn hreq)

namespace Requests

theorem start (hqueued : master.queued m = []) (hloaded : master.loaded m = []) :
    (start m : Ingest β σ).Requests cfg master where
  submitted req hreq := by
    simp [Submitted, Ingest.start, NotifyLoop.spawn, NotifyLoop.pending, hqueued, hloaded] at hreq
  backfill id opening hopened := by
    simp [Ingest.start, session, Stream.start, StreamSession.opened] at hopened

/-- Two requests carry one serial seq when they carry one identifier. -/
theorem same_identifier (h : s.Requests cfg master) (hkept : s.Kept owed) {ident : WriterIdentity}
    (hident : ∀ id, (cfg id).ident = ident) {req other : NotifyRequest}
    (hreq : s.Submitted master req) (hother : s.Submitted master other) :
    other.serialSeq = req.serialSeq ↔ other.identifier = req.identifier := by
  obtain ⟨file, hfile, hannounces⟩ := h.submitted req hreq
  obtain ⟨file', hfile', hannounces'⟩ := h.submitted other hother
  rw [hannounces.serialSeq, hannounces'.serialSeq, hannounces.identifier hident,
    hannounces'.identifier hident, StagedFile.identifierText_inj]
  constructor
  · intro heq
    rw [hkept.distinct file' hfile' file hfile heq]
    exact ⟨rfl, rfl⟩
  · rintro ⟨hepoch, hseq⟩
    simp only [StagedFile.packed, hepoch, hseq]

theorem submit (h : s.Requests cfg master) (hkept : s.Kept owed) (hdoc : master.Documented)
    {ident : WriterIdentity} (hident : ∀ id, (cfg id).ident = ident) {id : Nat}
    {req : NotifyRequest} (hsent : (id, req) ∈ s.wire) :
    (master.submit s.master req = (.idempotent, s.master) ∧
        ((∃ l ∈ master.loaded s.master, req.serialSeq ≤ l.serialSeq) ∨
          ∃ other ∈ master.queued s.master, other.serialSeq = req.serialSeq)) ∨
      ∃ m', master.submit s.master req = (.accepted, m') ∧
        master.queued m' = master.queued s.master ++ [req] ∧
        master.loaded m' = master.loaded s.master ∧
        ∀ l ∈ master.loaded s.master, l.serialSeq < req.serialSeq :=
  hdoc.submit fun _ hother ↦ h.same_identifier hkept hident (Or.inr (Or.inl ⟨id, hsent⟩))
    (Or.inr (Or.inr (Or.inl hother)))

/-- The open of a session backfills what it listed. -/
theorem backfill_step (h : s.Requests cfg master) (hkept : s.Kept owed) {action : IngestAction β}
    (hstep : s.step cfg master action = some s') (id : Nat) (opening : Opening)
    (hopened : (s'.session id).opened = some opening) :
    ∀ file ∈ opening.plan.backfill, file ∈ s'.kept := by
  intro file hfile
  rcases opened_step hstep hopened with
    hold | ⟨nowMs, watermark, staged, state, rfl, -, -, hlisted, hopen⟩
  · exact hkept.mono hstep (h.backfill id opening hold file hfile)
  · obtain ⟨-, next, -, -, rfl⟩ := streamStep_eq_some hstep
    exact hlisted.mem_iff.mp (openDecisions_backfill hopen hfile)

/-- A request that a step brings is of a file that is kept. -/
theorem submitted_step (h : s.Requests cfg master) (hkept : s.Kept owed) (hdoc : master.Documented)
    {ident : WriterIdentity} (hident : ∀ id, (cfg id).ident = ident)
    (hreach : ReachableUnder (step cfg master) allowed (Ingest.start m) s) {action : IngestAction β}
    (hstep : s.step cfg master action = some s') {req : NotifyRequest}
    (hreq : s'.Submitted master req) :
    s.Submitted master req ∨ ∃ file ∈ s.kept, Announces cfg file req := by
  rcases hreq with ⟨id, hpending⟩ | hrest
  · rcases mem_pending_step hreach hstep hpending with hold |
      ⟨opening, w, hphase, n, hn, hannounces⟩ | ⟨opening, hopened, file, hfile, hannounces⟩
    · exact Or.inl (Or.inl ⟨id, hold⟩)
    · exact Or.inr ⟨n.file, hkept.mem_kept _ (hkept.cleared id opening w hphase n hn), hannounces⟩
    · exact Or.inr ⟨file, h.backfill id opening hopened file hfile, hannounces⟩
  refine Or.inl ?_
  simp only [Submitted]
  -- what is under way or at the master was in a loop or under way
  rcases master_step hstep with ⟨hwire, hmaster⟩ | ⟨id, other, hhead, hwire, hmaster⟩ |
    ⟨id, other, hsent, hwire, hmaster⟩ | ⟨hwire, hload⟩
  · rw [hwire, hmaster] at hrest
    exact Or.inr hrest
  · rw [hwire, hmaster] at hrest
    rcases hrest with ⟨sender, hsent⟩ | hdone
    · rcases List.mem_append.mp hsent with hold | hnew
      · exact Or.inr (Or.inl ⟨sender, hold⟩)
      · obtain ⟨rfl, rfl⟩ := Prod.mk.inj (List.mem_singleton.mp hnew)
        exact Or.inl ⟨sender, List.mem_of_mem_head? hhead⟩
    · exact Or.inr (Or.inr hdone)
  · rw [hwire, hmaster] at hrest
    rcases h.submit hkept hdoc hident hsent with ⟨hsubmit, -⟩ | ⟨m', hsubmit, hqueued, hloaded, -⟩
    · rw [hsubmit] at hrest
      exact Or.inr hrest
    · simp only [hsubmit, hqueued, hloaded, List.mem_append, List.mem_singleton] at hrest
      rcases hrest with hwire | (hold | rfl) | hdone
      · exact Or.inr (Or.inl hwire)
      · exact Or.inr (Or.inr (Or.inl hold))
      · exact Or.inr (Or.inl ⟨id, hsent⟩)
      · exact Or.inr (Or.inr (Or.inr hdone))
  · obtain ⟨least, hleast, -, hloaded, hqueued⟩ := hdoc.load s.master s'.master hload
    simp only [hwire, hloaded, hqueued, List.mem_append, List.mem_singleton] at hrest
    rcases hrest with hwire | hold | hdone | rfl
    · exact Or.inr (Or.inl hwire)
    · exact Or.inr (Or.inr (Or.inl (List.mem_of_mem_filter hold)))
    · exact Or.inr (Or.inr (Or.inr hdone))
    · exact Or.inr (Or.inr (Or.inl hleast))

theorem step (h : s.Requests cfg master) (hkept : s.Kept owed) (hdoc : master.Documented)
    {ident : WriterIdentity} (hident : ∀ id, (cfg id).ident = ident)
    (hreach : ReachableUnder (step cfg master) allowed (Ingest.start m) s) {action : IngestAction β}
    (hstep : s.step cfg master action = some s') : s'.Requests cfg master where
  submitted req hreq := by
    have hfile : ∃ file ∈ s.kept, Announces cfg file req := by
      rcases h.submitted_step hkept hdoc hident hreach hstep hreq with hold | hnew
      · exact h.submitted req hold
      · exact hnew
    obtain ⟨file, hfile, hannounces⟩ := hfile
    exact ⟨file, hkept.mono hstep hfile, hannounces⟩
  backfill := h.backfill_step hkept hstep

end Requests

end Ingest

end RelytIngest
