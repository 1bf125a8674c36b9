import RelytIngest.Ingest.Kept
import RelytIngest.Ingest.Requests
import RelytIngest.Stream.RecordedOffsets

/-!
# Where the offsets come from

An offset that is on record, or confirmed on the board of a notify loop, is the end of an object
that the last listing saw or that was put since, and an open resumes behind such an object
(`Offsets`).
-/

set_option autoImplicit false
set_option relaxedAutoImplicit false

namespace RelytIngest

open Foundations Relation

/-- The entry of a group is as it was, or that of the request confirmed. -/
theorem NotifyState.confirm_entry {board : NotifyState} {req : NotifyRequest} {group : Text}
    {entry : Int × Int} (hentry : (board.confirm req).confirmed group = some entry) :
    board.confirmed group = some entry ∨ entry = (req.serialSeq, req.endOffset) := by
  simp only [confirm] at hentry
  by_cases hgroup : group = req.serialGroup
  · subst hgroup
    rw [Function.update_self, Option.some.injEq] at hentry
    cases hold : board.confirmed req.serialGroup with
    | none =>
      rw [hold] at hentry
      exact Or.inr (by simpa using hentry.symm)
    | some slot =>
      rw [hold, Option.getD_some] at hentry
      split_ifs at hentry
      · exact Or.inr hentry.symm
      · exact Or.inl (congrArg some hentry)
  · rw [Function.update_of_ne hgroup] at hentry
    exact Or.inl hentry

namespace Ingest

variable {β σ : Type} {cfg : Nat → WriterConfig β} {master : Master σ} {s s' : Ingest β σ}
  {allowed : Ingest β σ → IngestAction β → Prop} {m : σ} {owed : List StagedFile}

/-- The offset is the end of an object that is kept. -/
def EndKept (s : Ingest β σ) (offset : Int) : Prop := ∃ file ∈ s.kept, file.endOffset = offset

structure Offsets (s : Ingest β σ) : Prop where
  records : s.stream.Records s.EndKept
  board : ∀ id group entry, (s.loops id).board.confirmed group = some entry → s.EndKept entry.2
  resume : ∀ id opening, (s.session id).opened = some opening →
    ∀ offset, opening.plan.kafkaResumeOffset = some offset →
      ∃ file ∈ s.kept, offset = nextOffset file.endOffset

/-- An open resumes behind an object that is staged or recorded. -/
theorem openDecisions_resume {nowMs : Nat} {state : Option StateFile} {watermark : Option Int}
    {staged : List StagedFile} {opening : Opening}
    (hopen : openDecisions nowMs state watermark staged = .ok opening) {offset : Int}
    (hoffset : opening.plan.kafkaResumeOffset = some offset) :
    (∃ file ∈ staged, offset = nextOffset file.endOffset) ∨
      ∃ recorded, state.bind StateFile.resumeOffset = some recorded ∧
        offset = nextOffset recorded := by
  obtain ⟨plan, hplan, heq, -⟩ := openDecisions_eq_ok_iff.mp hopen
  have hresume : resumeWith plan.kafkaResumeOffset state = some offset := by
    rw [← hoffset, heq]
  unfold resumeWith at hresume
  cases hstate : state.bind StateFile.resumeOffset with
  | none =>
    rw [hstate] at hresume
    exact Or.inl (planRecovery_resume_mem hplan hresume)
  | some recorded =>
    rw [hstate, Option.some.injEq] at hresume
    cases hplanned : plan.kafkaResumeOffset with
    | none =>
      rw [hplanned] at hresume
      exact Or.inr ⟨recorded, rfl, hresume.symm⟩
    | some value =>
      rw [hplanned] at hresume
      rcases max_choice value (nextOffset recorded) with hmax | hmax
      · have hvalue : value = offset := hmax.symm.trans hresume
        exact Or.inl (planRecovery_resume_mem hplan (hvalue ▸ hplanned))
      · exact Or.inr ⟨recorded, rfl, hresume.symm.trans hmax⟩

/-- What holds of the offsets on record and on the boards holds of the offsets on record after a
step: what a persister is told comes from the board of its session. -/
theorem stream_records_step {P : Int → Prop} (hrecords : s.stream.Records P)
    (hboard : ∀ id group entry, (s.loops id).board.confirmed group = some entry → P entry.2)
    {action : IngestAction β} (hstep : s.step cfg master action = some s') :
    s'.stream.Records P := by
  rcases step_cases hstep with ⟨streamAction, next, rfl, henabled, hnext, -, rfl⟩ |
    ⟨id, file, rfl, -, rfl⟩ | ⟨-, -, houtside⟩
  · rw [followed_stream]
    refine hrecords.step hnext fun id persister confirmedEnd heartbeat heq ↦ ?_
    subst heq
    simp only [enabled, decide_eq_true_eq] at henabled
    rintro offset rfl
    obtain ⟨entry, hentry, rfl⟩ := Option.map_eq_some_iff.mp henabled.symm
    exact hboard id _ entry hentry
  · exact hrecords
  · rw [houtside.stream]
    exact hrecords

namespace Offsets

theorem start : (start m : Ingest β σ).Offsets where
  records := Stream.records_start
  board id group entry hentry := by
    simp [Ingest.start, NotifyLoop.spawn, NotifyState.empty] at hentry
  resume id opening hopened := by
    simp [Ingest.start, session, Stream.start, StreamSession.opened] at hopened

theorem records_step (h : s.Offsets) (hkept : s.Kept owed) {action : IngestAction β}
    (hstep : s.step cfg master action = some s') : s'.stream.Records s'.EndKept := by
  have hmono (offset : Int) : s.EndKept offset → s'.EndKept offset := by
    rintro ⟨file, hfile, heq⟩
    exact ⟨file, hkept.mono hstep hfile, heq⟩
  exact stream_records_step (h.records.mono hmono)
    (fun id group entry hentry ↦ hmono _ (h.board id group entry hentry)) hstep

/-- The entry of a group after a step is one of before, or of a request in a notify loop. -/
theorem board_step {action : IngestAction β} (hstep : s.step cfg master action = some s') {id : Nat}
    {group : Text} {entry : Int × Int}
    (hentry : (s'.loops id).board.confirmed group = some entry) :
    (s.loops id).board.confirmed group = some entry ∨
      ∃ req ∈ (s.loops id).pending, entry = (req.serialSeq, req.endOffset) := by
  have hchange := loop_step hstep id
  generalize s'.loops id = loop at hchange hentry
  cases hchange with
  | same | backfilled => exact Or.inl hentry
  | announced => exact Or.inl (by rwa [(NotifyLoop.foldl_enqueue _ _).2] at hentry)
  | lost => simp [NotifyLoop.spawn, NotifyState.empty] at hentry
  | turned t =>
    rcases (s.loops id).receive.turn_cases t with ⟨-, -, hboard⟩ |
      ⟨req, -, hhand, ⟨-, -, hboard⟩ | ⟨message, -, -, -, hboard⟩ | ⟨message, -, -, hboard⟩⟩
    · rw [hboard, NotifyLoop.receive_board] at hentry
      exact Or.inl hentry
    · rw [hboard, NotifyLoop.receive_board] at hentry
      rw [NotifyLoop.receive_inHand] at hhand
      exact (NotifyState.confirm_entry hentry).imp_right fun heq ↦
        ⟨req, List.mem_of_mem_head? hhand, heq⟩
    · rw [hboard, NotifyState.violate_confirmed, NotifyLoop.receive_board] at hentry
      exact Or.inl hentry
    · rw [hboard, NotifyLoop.receive_board] at hentry
      exact Or.inl hentry

theorem resume_step (h : s.Offsets) (hkept : s.Kept owed) {action : IngestAction β}
    (hstep : s.step cfg master action = some s') (id : Nat) (opening : Opening)
    (hopened : (s'.session id).opened = some opening) (offset : Int)
    (hoffset : opening.plan.kafkaResumeOffset = some offset) :
    ∃ file ∈ s'.kept, offset = nextOffset file.endOffset := by
  rcases opened_step hstep hopened with
    hold | ⟨nowMs, watermark, staged, state, rfl, hphase, -, hlisted, hopen⟩
  · obtain ⟨file, hfile, heq⟩ := h.resume id opening hold offset hoffset
    exact ⟨file, hkept.mono hstep hfile, heq⟩
  · rcases openDecisions_resume hopen hoffset with ⟨file, hfile, heq⟩ | ⟨recorded, hread, heq⟩
    · obtain ⟨-, next, -, -, rfl⟩ := streamStep_eq_some hstep
      exact ⟨file, hlisted.mem_iff.mp hfile, heq⟩
    · cases state with
      | none => simp at hread
      | some read =>
        obtain ⟨file, hfile, rfl⟩ := (h.records.sessions id).reading read hphase recorded hread
        exact ⟨file, hkept.mono hstep hfile, heq⟩

theorem step (h : s.Offsets) (hkept : s.Kept owed) (hrequests : s.Requests cfg master)
    {action : IngestAction β} (hstep : s.step cfg master action = some s') : s'.Offsets where
  records := h.records_step hkept hstep
  board id group entry hentry := by
    have hend : s.EndKept entry.2 := by
      rcases board_step hstep hentry with hold | ⟨req, hreq, rfl⟩
      · exact h.board id group entry hold
      · obtain ⟨file, hfile, hannounces⟩ := hrequests.submitted req (Or.inl ⟨id, hreq⟩)
        exact ⟨file, hfile, hannounces.endOffset.symm⟩
    obtain ⟨file, hfile, heq⟩ := hend
    exact ⟨file, hkept.mono hstep hfile, heq⟩
  resume := h.resume_step hkept hstep

end Offsets

end Ingest

end RelytIngest
