import RelytIngest.Ingest.Machine
import RelytIngest.Stream.Phases

/-!
# Sessions that take over from one another

`TakesOver` is how a stream is used: a session opens once every earlier one has ended or is fenced,
and its consumer starts where the open says and goes on where it stopped. `Succession` says which
session is which then, and `Puts` what each of them has put: its writer's files in the order they
were sealed, laid end to end (`taken_of_reachable`), all but the last of them for certain.
-/

set_option autoImplicit false
set_option relaxedAutoImplicit false

namespace RelytIngest

open Foundations Relation

namespace Writer

variable {β : Type} {cfg : WriterConfig β} {w w' : Writer β} {epochMs : Nat}
  {stagedOffset resumePersisted : Option Int}

/-- The files that may be in the directory: those whose put has returned, and the next one. -/
def maybePut (w : Writer β) : List StagedFile :=
  w.sealedFiles.take (w.trace.putReturned.length + 1)

theorem maybePut_grow {action : Action β} (hstep : w.step cfg action = some w') :
    w.maybePut <+: w'.maybePut := by
  obtain ⟨hsealed, hput⟩ := files_grow hstep
  exact (hsealed.take _).trans (List.take_prefix_take_left (Nat.succ_le_succ hput.length_le))

/-- The files sealed are those whose put has returned, and the rest. -/
theorem ReachableFrom.sealed_split
    (hreach : ReachableFrom cfg epochMs stagedOffset resumePersisted w) :
    ∃ rest, w.sealedFiles = w.trace.putReturned.map FileMeta.file ++ rest := by
  obtain ⟨landed, later, hcuts, hreturned⟩ := hreach.landed
  refine ⟨later.map fun cut ↦ cut.fileMeta.file, ?_⟩
  rw [sealedFiles, hcuts, List.map_append, hreturned, List.map_map]
  rfl

/-- A put is of the first file whose put has not returned. -/
theorem ReachableFrom.sealed_running
    (hreach : ReachableFrom cfg epochMs stagedOffset resumePersisted w) {file : Compressed}
    {failures : Nat} (hput : w.pipe.put = .running file failures) :
    ∃ rest, w.sealedFiles =
      w.trace.putReturned.map FileMeta.file ++ file.fileMeta.file :: rest := by
  have hline : ∃ rest, w.files.line = file.fileMeta :: rest := by
    simp only [Writer.files, Pipeline.line, hput, Stage.inHand, List.append_assoc, List.cons_append]
    exact ⟨_, rfl⟩
  obtain ⟨rest, hrest⟩ := hline
  have hcuts : w.files.cuts = w.trace.putReturned ++ w.files.line ++ w.files.handover :=
    hreach.files.conserved
  refine ⟨(rest ++ w.files.handover).map FileMeta.file, ?_⟩
  rw [sealedFiles_eq, hcuts, hrest]
  simp

theorem ReachableFrom.mem_maybePut
    (hreach : ReachableFrom cfg epochMs stagedOffset resumePersisted w) {file : Compressed}
    {failures : Nat} (hput : w.pipe.put = .running file failures) :
    file.fileMeta.file ∈ w.maybePut := by
  obtain ⟨rest, hrest⟩ := hreach.sealed_running hput
  rw [maybePut, hrest, List.append_cons, List.take_left' (by simp)]
  simp

theorem mem_sealedFiles_of_maybePut {file : StagedFile} (hfile : file ∈ w.maybePut) :
    file ∈ w.sealedFiles :=
  List.mem_of_mem_take hfile

end Writer

namespace Ingest

variable {β σ : Type} {cfg : Nat → WriterConfig β} {master : Master σ} {s s' : Ingest β σ}

/-! ### What a step does to the sessions -/

/-- A step outside the sessions and the directory. -/
structure Outside (s s' : Ingest β σ) : Prop where
  stream : s'.stream = s.stream
  begun : s'.begun = s.begun
  lister : s'.lister = s.lister
  puts : s'.puts = s.puts
  landed : s'.landed = s.landed
  kept : s'.kept = s.kept

theorem step_cases {action : IngestAction β} (hstep : s.step cfg master action = some s') :
    (∃ streamAction next, action = .stream streamAction ∧ s.enabled cfg streamAction = true ∧
        s.stream.step cfg streamAction = some next ∧ s.effected next streamAction = true ∧
        s' = s.followed next streamAction) ∨
      (∃ id file, action = .objectLands id file ∧ (id, file) ∈ s.puts ∧ s' = { s with
        landed := s.landed ++ [(id, file)]
        kept := if s.lister = some id ∧ file ∉ s.kept then s.kept ++ [file] else s.kept }) ∨
      (∀ streamAction, action ≠ .stream streamAction) ∧
        (∀ id file, action ≠ .objectLands id file) ∧ Outside s s' := by
  cases action with
  | stream streamAction =>
    obtain ⟨henabled, next, hnext, heffected, rfl⟩ := streamStep_eq_some hstep
    exact Or.inl ⟨streamAction, next, rfl, henabled, hnext, heffected, rfl⟩
  | objectLands id file =>
    obtain ⟨hput, rfl⟩ := objectLands_eq_some hstep
    exact Or.inr (Or.inl ⟨id, file, rfl, hput, rfl⟩)
  | watermark id degraded =>
    obtain ⟨state, -, answer, -, rfl⟩ := readWatermark_eq_some hstep
    exact Or.inr (Or.inr ⟨nofun, nofun, rfl, rfl, rfl, rfl, rfl, rfl⟩)
  | backfill id =>
    obtain ⟨opening, file, m, -, -, -, -, rfl⟩ := backfill_eq_some hstep
    exact Or.inr (Or.inr ⟨nofun, nofun, rfl, rfl, rfl, rfl, rfl, rfl⟩)
  | send id =>
    obtain ⟨-, req, -, rfl⟩ := send_eq_some hstep
    exact Or.inr (Or.inr ⟨nofun, nofun, rfl, rfl, rfl, rfl, rfl, rfl⟩)
  | arrive id req =>
    obtain ⟨-, rfl⟩ := arrive_eq_some hstep
    exact Or.inr (Or.inr ⟨nofun, nofun, rfl, rfl, rfl, rfl, rfl, rfl⟩)
  | turn id t =>
    obtain ⟨-, -, rfl⟩ := turn_eq_some hstep
    exact Or.inr (Or.inr ⟨nofun, nofun, rfl, rfl, rfl, rfl, rfl, rfl⟩)
  | load =>
    obtain ⟨m, -, rfl⟩ := load_eq_some hstep
    exact Or.inr (Or.inr ⟨nofun, nofun, rfl, rfl, rfl, rfl, rfl, rfl⟩)

@[simp] theorem followed_stream (next : Stream β) (action : StreamAction β) :
    (s.followed next action).stream = next := by
  cases action <;> rfl

theorem stream_of_step {action : IngestAction β} (hstep : s.step cfg master action = some s') :
    s'.stream = s.stream ∨ ∃ streamAction, action = .stream streamAction ∧
      s.stream.step cfg streamAction = some s'.stream := by
  rcases step_cases hstep with ⟨streamAction, next, rfl, -, hnext, -, rfl⟩ |
    ⟨id, file, rfl, -, rfl⟩ | ⟨-, -, houtside⟩
  · exact Or.inr ⟨streamAction, rfl, by rwa [followed_stream]⟩
  · exact Or.inl rfl
  · exact Or.inl houtside.stream

/-- What a session has decided to open with it had decided before, or decides now. -/
theorem opened_step {action : IngestAction β} (hstep : s.step cfg master action = some s')
    {id : Nat} {opening : Opening} (hopened : (s'.session id).opened = some opening) :
    (s.session id).opened = some opening ∨ ∃ nowMs watermark staged state,
      action = .stream (.openDecide id nowMs watermark staged) ∧
        (s.session id).phase = .reading state ∧ s.watermarks id = some watermark ∧
          staged.Perm s.staged ∧ openDecisions nowMs state watermark staged = .ok opening := by
  rcases step_cases hstep with ⟨streamAction, next, rfl, henabled, hnext, -, rfl⟩ |
    ⟨other, file, rfl, -, rfl⟩ | ⟨-, -, houtside⟩
  · rw [session, followed_stream] at hopened
    rcases Stream.opened_step hnext hopened with
      hold | ⟨nowMs, watermark, staged, state, rfl, hphase, hopen⟩
    · exact Or.inl hold
    · simp only [enabled, Bool.and_eq_true, decide_eq_true_eq] at henabled
      exact Or.inr ⟨nowMs, watermark, staged, state, rfl, hphase, henabled.1, henabled.2, hopen⟩
  · exact Or.inl hopened
  · exact Or.inl (by rwa [session, houtside.stream] at hopened)

variable {allowed : Ingest β σ → IngestAction β → Prop} {m : σ}

theorem stream_reachable (hreach : ReachableUnder (step cfg master) allowed (start m) s) :
    Reachable (Stream.step cfg) (.start none) s.stream := by
  refine hreach.strengthened (fun s ↦ Reachable (Stream.step cfg) (.start none) s.stream) ?_ ?_
  · exact ReachableUnder.refl
  intro before action after _ hbefore _ hstep
  rcases stream_of_step hstep with hsame | ⟨streamAction, -, hnext⟩
  · exact hsame ▸ hbefore
  · exact Reachable.snoc hbefore hnext

theorem made_of_reachable (hreach : ReachableUnder (step cfg master) allowed (start m) s)
    (id : Nat) : (s.session id).Made (cfg id) :=
  Stream.made_of_reachable (stream_reachable hreach) id

/-- The writer of a running session is one that its open made. -/
theorem writer_of_reachable (hreach : ReachableUnder (step cfg master) allowed (start m) s)
    {id : Nat} {opening : Opening} {w : Writer β}
    (hphase : (s.session id).phase = .running opening w) :
    w.ReachableFrom (cfg id) opening.epoch (recoveredOffset opening.plan.kafkaResumeOffset)
      opening.newState.resumeOffset :=
  (made_of_reachable hreach id opening w hphase).2

/-- What holds of the writers of running sessions. -/
theorem running_invariant (property : Nat → Opening → Writer β → Prop)
    (hnew : ∀ id (opening : Opening), property id opening
      (.new opening.epoch (recoveredOffset opening.plan.kafkaResumeOffset)
        opening.newState.resumeOffset))
    (hkeeps : ∀ (s : Ingest β σ) id opening w action w',
      ReachableUnder (step cfg master) allowed (start m) s →
        (s.session id).phase = .running opening w → allowed s (.stream (.writer id action)) →
          property id opening w → w.step (cfg id) action = some w' → property id opening w')
    (hreach : ReachableUnder (step cfg master) allowed (start m) s) :
    ∀ id opening w, (s.session id).phase = .running opening w → property id opening w := by
  refine hreach.strengthened (fun s ↦ ∀ id opening w,
    (s.session id).phase = .running opening w → property id opening w) ?_ ?_
  · intro id opening w hphase
    simp [start, session, Stream.start] at hphase
  · intro before action after hbefore hproperty hallowed hstep id opening w hphase
    rcases stream_of_step hstep with hsame | ⟨streamAction, rfl, hnext⟩
    · rw [session, hsame] at hphase
      exact hproperty id opening w hphase
    · have hchange := Stream.phase_step hnext id
      change (after.stream.sessions id).phase = _ at hphase
      rw [hphase] at hchange
      generalize hold : (before.stream.sessions id).phase = old at hchange
      cases hchange with
      | same => exact hproperty id opening w hold
      | returned => exact hnew id opening
      | stepped writerAction _ w₀ _ hwriter =>
        exact hkeeps before id opening w₀ writerAction w hbefore hold hallowed
          (hproperty id opening w₀ hold) hwriter

/-! ### What a step does to the notify loops and to the master -/

/-- What a step can make of the notify loop of a session. -/
inductive LoopChange (cfg : Nat → WriterConfig β) (s : Ingest β σ) (id : Nat) :
    IngestAction β → NotifyLoop → Prop
  | same (action : IngestAction β) : LoopChange cfg s id action (s.loops id)
  | announced (writerAction : Action β) (next : Stream β)
      (hnext : s.stream.step cfg (.writer id writerAction) = some next) :
      LoopChange cfg s id (.stream (.writer id writerAction))
        (((next.sessions id).notified.drop (s.session id).notified.length).foldl
          NotifyLoop.enqueue (s.loops id))
  | lost : LoopChange cfg s id (.stream (.crash id)) (.spawn .empty [])
  | backfilled (opening : Opening) (file : StagedFile) (n : FileMeta)
      (hopened : (s.session id).opened = some opening) (hfile : file ∈ opening.plan.backfill)
      (hmeta : WriterState.sealMeta (cfg id) file = .ok n) :
      LoopChange cfg s id (.backfill id) ((s.loops id).enqueue (notifyRequest (cfg id) n))
  | turned (t : Turn) : LoopChange cfg s id (.turn id t) ((s.loops id).receive.turn t)

/-- One loop changes, the others are as they were. -/
theorem loopChange_update {action : IngestAction β} {other : Nat} {loop : NotifyLoop}
    (hchange : LoopChange cfg s other action loop) (id : Nat) :
    LoopChange cfg s id action (Function.update s.loops other loop id) := by
  by_cases hid : id = other
  · subst hid
    rwa [Function.update_self]
  · rw [Function.update_of_ne hid]
    exact .same action

theorem loop_step {action : IngestAction β} (hstep : s.step cfg master action = some s')
    (id : Nat) : LoopChange cfg s id action (s'.loops id) := by
  cases action with
  | stream streamAction =>
    obtain ⟨-, next, hnext, -, rfl⟩ := streamStep_eq_some hstep
    cases streamAction with
    | writer other writerAction => exact loopChange_update (.announced writerAction next hnext) id
    | crash other => exact loopChange_update .lost id
    | openRead | openDecide | openLands | openReturns | persistLands => exact .same _
  | watermark other degraded =>
    obtain ⟨state, -, answer, -, rfl⟩ := readWatermark_eq_some hstep
    exact .same _
  | backfill other =>
    obtain ⟨opening, file, n, hphase, -, hfile, hmeta, rfl⟩ := backfill_eq_some hstep
    have hopened : (s.session other).opened = some opening := by
      simp [StreamSession.opened, hphase]
    exact loopChange_update (.backfilled opening file n hopened (List.mem_of_getElem? hfile) hmeta)
      id
  | objectLands other file =>
    obtain ⟨-, rfl⟩ := objectLands_eq_some hstep
    exact .same _
  | send other =>
    obtain ⟨-, req, -, rfl⟩ := send_eq_some hstep
    exact .same _
  | arrive other req =>
    obtain ⟨-, rfl⟩ := arrive_eq_some hstep
    exact .same _
  | turn other t =>
    obtain ⟨-, -, rfl⟩ := turn_eq_some hstep
    exact loopChange_update (.turned t) id
  | load =>
    obtain ⟨n, -, rfl⟩ := load_eq_some hstep
    exact .same _

/-- A step sends the request in hand, has the master answer one that was sent or load a file, or
leaves what was sent and the master alone. -/
theorem master_step {action : IngestAction β} (hstep : s.step cfg master action = some s') :
    (s'.wire = s.wire ∧ s'.master = s.master) ∨
      (∃ id req, (s.loops id).pending.head? = some req ∧ s'.wire = s.wire ++ [(id, req)] ∧
        s'.master = s.master) ∨
      (∃ id req, (id, req) ∈ s.wire ∧ s'.wire = s.wire ∧
        s'.master = (master.submit s.master req).2) ∨
      s'.wire = s.wire ∧ master.load s.master = some s'.master := by
  cases action with
  | stream streamAction =>
    obtain ⟨-, next, -, -, rfl⟩ := streamStep_eq_some hstep
    cases streamAction <;> exact Or.inl ⟨rfl, rfl⟩
  | watermark id degraded =>
    obtain ⟨state, -, answer, -, rfl⟩ := readWatermark_eq_some hstep
    exact Or.inl ⟨rfl, rfl⟩
  | backfill id =>
    obtain ⟨opening, file, n, -, -, -, -, rfl⟩ := backfill_eq_some hstep
    exact Or.inl ⟨rfl, rfl⟩
  | objectLands id file =>
    obtain ⟨-, rfl⟩ := objectLands_eq_some hstep
    exact Or.inl ⟨rfl, rfl⟩
  | send id =>
    obtain ⟨-, req, hhead, rfl⟩ := send_eq_some hstep
    exact Or.inr (Or.inl ⟨id, req, hhead, rfl, rfl⟩)
  | arrive id req =>
    obtain ⟨hsent, rfl⟩ := arrive_eq_some hstep
    exact Or.inr (Or.inr (Or.inl ⟨id, req, hsent, rfl, rfl⟩))
  | turn id t =>
    obtain ⟨-, -, rfl⟩ := turn_eq_some hstep
    exact Or.inl ⟨rfl, rfl⟩
  | load =>
    obtain ⟨n, hload, rfl⟩ := load_eq_some hstep
    exact Or.inr (Or.inr (Or.inr ⟨rfl, hload⟩))

/-! ### How a stream is used -/

/-- A session opens once every earlier one has ended or is fenced, and is fed by a consumer that
starts where its open says, or at `first`, with ranges that are admitted. -/
def TakesOver (first : Int) (admitted : Entry β → Prop) (s : Ingest β σ) : IngestAction β → Prop
  | .stream (.openRead id) => ∀ earlier < id, (s.session earlier).Superseded
  | .stream (.writer id action) => ∀ opening w, (s.session id).phase = .running opening w →
      w.Consumes (opening.plan.kafkaResumeOffset.getD first) admitted action
  | _ => True

variable {first : Int} {admitted : Entry β → Prop}

instance [DecidablePred admitted] (s : Ingest β σ) :
    (action : IngestAction β) → Decidable (TakesOver first admitted s action)
  | .stream (.openRead id) => inferInstanceAs (Decidable (∀ earlier < id, _))
  | .stream (.writer id action) =>
    match hphase : (s.session id).phase with
    | .running opening w =>
      decidable_of_iff (w.Consumes (opening.plan.kafkaResumeOffset.getD first) admitted action)
        (by simp [TakesOver, hphase])
    | .unopened | .reading _ | .opening _ | .failed _ => .isTrue (by simp [TakesOver, hphase])
  | .stream (.openDecide ..) | .stream (.openLands ..) | .stream (.openReturns ..)
  | .stream (.persistLands ..) | .stream (.crash ..) | .watermark .. | .backfill ..
  | .objectLands .. | .send .. | .arrive .. | .turn .. | .load => inferInstanceAs (Decidable True)

/-- What a session takes is laid end to end. -/
theorem taken_of_reachable
    (hallowed : ∀ s action, allowed s action → TakesOver first admitted s action)
    (hreach : ReachableUnder (step cfg master) allowed (start m) s) {id : Nat} {opening : Opening}
    {w : Writer β} (hphase : (s.session id).phase = .running opening w) :
    w.rows.Taken (opening.plan.kafkaResumeOffset.getD first) admitted := by
  refine running_invariant (fun _ opening w ↦
    w.rows.Taken (opening.plan.kafkaResumeOffset.getD first) admitted) ?_ ?_ hreach id opening w
      hphase
  · exact fun id opening ↦ Rows.taken_new _ _ _ _ _
  · intro s id opening w action w' hreach hphase hstepAllowed htaken hstep
    exact Writer.taken_step htaken (writer_of_reachable hreach hphase).rows.1
      (hallowed s _ hstepAllowed opening w hphase) hstep

/-! ### Which session is which -/

structure Succession (s : Ingest β σ) : Prop where
  unbegun : ∀ id, s.begun ≤ id → (s.session id).phase = .unopened
  superseded : ∀ id, id + 1 < s.begun → (s.session id).Superseded
  lister_lt : ∀ id, s.lister = some id → id < s.begun
  opened_le : ∀ id, (s.session id).opened ≠ none → ∃ last, s.lister = some last ∧ id ≤ last

namespace Succession

variable {id : Nat}

/-- A session that is not superseded is the last one. -/
theorem last (h : s.Succession) (hphase : (s.session id).phase ≠ .unopened)
    (hcurrent : ¬ (s.session id).Superseded) : id + 1 = s.begun := by
  have hbegun : id < s.begun := by
    by_contra hge
    exact hphase (h.unbegun id (not_lt.mp hge))
  by_contra hne
  exact hcurrent (h.superseded id (by omega))

/-- So it has listed the directory last, once it has decided. -/
theorem lister (h : s.Succession) (hopened : (s.session id).opened ≠ none)
    (hcurrent : ¬ (s.session id).Superseded) : s.lister = some id := by
  obtain ⟨last, hlast, hle⟩ := h.opened_le id hopened
  have hphase : (s.session id).phase ≠ .unopened := fun hphase ↦ hopened (by
    simp [StreamSession.opened, hphase])
  have := h.last hphase hcurrent
  have := h.lister_lt last hlast
  obtain rfl : last = id := by omega
  exact hlast

end Succession

/-- A session that is reading has not been superseded while it is alive. -/
theorem not_superseded_of_reading {session : StreamSession β} {state : Option StateFile}
    (halive : session.alive = true) (hphase : session.phase = .reading state) :
    ¬ session.Superseded := by
  rintro (hended | ⟨err, hfailed⟩ | ⟨opening, w, hrunning, -⟩)
  · simp [halive] at hended
  · simp [hphase] at hfailed
  · simp [hphase] at hrunning

theorem Succession.stream (h : s.Succession) (hmade : ∀ id, (s.session id).Made (cfg id))
    {action : StreamAction β} (hallowed : TakesOver first admitted s (.stream action))
    (henabled : s.enabled cfg action = true) {next : Stream β}
    (hnext : s.stream.step cfg action = some next) : (s.followed next action).Succession := by
  have hbegun : (s.followed next action).begun = s.begun ∨
      action = .openRead s.begun ∧ (s.followed next action).begun = s.begun + 1 := by
    cases action with
    | openRead id =>
      simp only [enabled, decide_eq_true_eq] at henabled
      exact Or.inr ⟨by rw [henabled], rfl⟩
    | _ => exact Or.inl rfl
  have hstream : (s.followed next action).stream = next := followed_stream next action
  constructor
  case unbegun =>
    intro id hid
    have hchange := Stream.phase_step hnext id
    have hold : (s.session id).phase = .unopened := by
      refine h.unbegun id ?_
      rcases hbegun with hsame | ⟨-, hmore⟩ <;> omega
    rw [session, hstream]
    change (s.stream.sessions id).phase = _ at hold
    rw [hold] at hchange
    generalize (next.sessions id).phase = phase at hchange
    cases hchange with
    | same => rfl
    | read =>
      simp only [enabled, decide_eq_true_eq] at henabled
      have : (s.followed next (.openRead id)).begun = s.begun + 1 := rfl
      omega
  case superseded =>
    intro id hid
    rw [session, hstream]
    refine Stream.superseded_step hmade hnext ?_
    rcases hbegun with hsame | ⟨rfl, hmore⟩
    · exact h.superseded id (hsame ▸ hid)
    · exact hallowed id (by omega)
  case lister_lt =>
    intro id hid
    have hle : s.begun ≤ (s.followed next action).begun := by
      rcases hbegun with hsame | ⟨-, hmore⟩ <;> omega
    refine lt_of_lt_of_le ?_ hle
    cases action with
    | openDecide other nowMs watermark staged =>
      obtain rfl := Option.some.inj hid
      obtain ⟨state, hphase, -⟩ := Stream.openDecide_eq_some hnext
      by_contra hge
      have := h.unbegun other (not_lt.mp hge)
      simp [session, hphase] at this
    | _ => exact h.lister_lt id hid
  case opened_le =>
    intro id hopened
    rw [session, hstream] at hopened
    -- whoever has decided before this step
    have hbefore (hopened : (s.session id).opened ≠ none) :
        ∃ last, (s.followed next action).lister = some last ∧ id ≤ last := by
      cases action with
      | openDecide other nowMs watermark staged =>
        obtain ⟨state, hphase, -⟩ := Stream.openDecide_eq_some hnext
        obtain ⟨last, hlast, hle⟩ := h.opened_le id hopened
        have halive : (s.session other).alive = true := Stream.alive_of_openDecide hnext
        have hphase : (s.session other).phase = .reading state := hphase
        have := h.last (by simp [hphase]) (not_superseded_of_reading halive hphase)
        have := h.lister_lt last hlast
        exact ⟨other, rfl, by omega⟩
      | _ => exact h.opened_le id hopened
    have hchange := Stream.phase_step hnext id
    simp only [StreamSession.opened] at hopened
    generalize hold : (s.stream.sessions id).phase = old at hchange
    generalize (next.sessions id).phase = phase at hchange hopened
    cases hchange with
    | same => exact hbefore (by simpa [StreamSession.opened, session, hold] using hopened)
    | decided => exact ⟨id, rfl, le_rfl⟩
    | returned | stepped => exact hbefore (by simp [StreamSession.opened, session, hold])
    | read | refused | failed => simp at hopened

theorem succession_of_reachable
    (hallowed : ∀ s action, allowed s action → TakesOver first admitted s action)
    (hreach : ReachableUnder (step cfg master) allowed (start m) s) : s.Succession := by
  refine hreach.strengthened Succession ?_ ?_
  · exact ⟨fun _ _ ↦ rfl, by simp [start], by simp [start], by
      simp [start, session, Stream.start, StreamSession.opened]⟩
  · intro before action after hbefore h hstepAllowed hstep
    rcases step_cases hstep with ⟨streamAction, next, rfl, henabled, hnext, -, rfl⟩ |
      ⟨id, file, rfl, -, rfl⟩ | ⟨-, -, houtside⟩
    · exact h.stream (made_of_reachable hbefore) (hallowed before _ hstepAllowed) henabled hnext
    · exact ⟨h.unbegun, h.superseded, h.lister_lt, h.opened_le⟩
    · obtain ⟨hunbegun, hsuperseded, hlister, hopened⟩ := h
      simp only [session] at hunbegun hsuperseded hopened
      constructor <;> simp only [session, houtside.stream, houtside.begun, houtside.lister] <;>
        assumption

/-! ### What was put -/

structure Puts (s : Ingest β σ) : Prop where
  issued : ∀ id file, (id, file) ∈ s.puts → ∃ opening w,
    (s.session id).phase = .running opening w ∧ file ∈ w.maybePut
  landed : ∀ put ∈ s.landed, put ∈ s.puts
  returned : ∀ id opening w, (s.session id).phase = .running opening w →
    ∀ m ∈ w.trace.putReturned, (id, m.file) ∈ s.landed

/-- A session that runs goes on running. -/
theorem running_step {action : IngestAction β} (hstep : s.step cfg master action = some s')
    {id : Nat} {opening : Opening} {w : Writer β}
    (hphase : (s.session id).phase = .running opening w) :
    ∃ w', (s'.session id).phase = .running opening w' ∧
      (w' = w ∨ ∃ writerAction, action = .stream (.writer id writerAction) ∧
        w.step (cfg id) writerAction = some w') := by
  rcases stream_of_step hstep with hsame | ⟨streamAction, rfl, hnext⟩
  · exact ⟨w, by rwa [session, hsame], Or.inl rfl⟩
  · have hchange := Stream.phase_step hnext id
    change (s.stream.sessions id).phase = _ at hphase
    rw [hphase] at hchange
    generalize hnew : (s'.stream.sessions id).phase = phase at hchange
    cases hchange with
    | same => exact ⟨w, hnew, Or.inl rfl⟩
    | stepped writerAction _ _ w' hwriter =>
      exact ⟨w', hnew, Or.inr ⟨writerAction, rfl, hwriter⟩⟩

theorem Puts.issued_step (h : s.Puts) {action : IngestAction β}
    (hstep : s.step cfg master action = some s') {id : Nat} {file : StagedFile}
    (hput : (id, file) ∈ s.puts) :
    ∃ opening w, (s'.session id).phase = .running opening w ∧ file ∈ w.maybePut := by
  obtain ⟨opening, w, hphase, hfile⟩ := h.issued id file hput
  obtain ⟨w', hphase', rfl | ⟨writerAction, -, hwriter⟩⟩ := running_step hstep hphase
  · exact ⟨opening, w', hphase', hfile⟩
  · exact ⟨opening, w', hphase', (Writer.maybePut_grow hwriter).subset hfile⟩

theorem putUnderWay_eq_some {session : StreamSession β} {m : FileMeta}
    (hput : session.putUnderWay = some m) : ∃ opening w file failures,
      session.phase = .running opening w ∧ w.pipe.put = .running file failures ∧
        m = file.fileMeta := by
  unfold StreamSession.putUnderWay at hput
  split at hput
  · next opening w hphase =>
    split at hput
    · next file failures hrunning =>
      exact ⟨opening, w, file, failures, hphase, hrunning, (Option.some.inj hput).symm⟩
    · simp at hput
  · simp at hput

/-- A put that is new after a step is the one under way. -/
theorem mem_puts_step {action : IngestAction β} (hstep : s.step cfg master action = some s')
    {id : Nat} {file : StagedFile} (hput : (id, file) ∈ s'.puts) :
    (id, file) ∈ s.puts ∨ ∃ writerAction m, action = .stream (.writer id writerAction) ∧
      (s'.session id).putUnderWay = some m ∧ file = m.file := by
  rcases step_cases hstep with ⟨streamAction, next, rfl, -, -, -, rfl⟩ |
    ⟨other, put, rfl, -, rfl⟩ | ⟨-, -, houtside⟩
  · cases streamAction with
    | writer other writerAction =>
      rcases List.mem_append.mp hput with hold | hnew
      · exact Or.inl hold
      · rw [Option.mem_toList] at hnew
        obtain ⟨m, hm, heq⟩ := Option.map_eq_some_iff.mp hnew
        obtain ⟨rfl, rfl⟩ := Prod.mk.inj heq
        exact Or.inr ⟨writerAction, m, rfl, hm, rfl⟩
    | _ => exact Or.inl hput
  · exact Or.inl hput
  · exact Or.inl (houtside.puts ▸ hput)

/-- What was put and what has landed stays. -/
theorem puts_mono {action : IngestAction β} (hstep : s.step cfg master action = some s') :
    (∀ put ∈ s.puts, put ∈ s'.puts) ∧ ∀ put ∈ s.landed, put ∈ s'.landed := by
  rcases step_cases hstep with ⟨streamAction, next, rfl, -, -, -, rfl⟩ |
    ⟨id, file, rfl, -, rfl⟩ | ⟨-, -, houtside⟩
  · cases streamAction with
    | writer => exact ⟨fun put hput ↦ List.mem_append_left _ hput, fun put hput ↦ hput⟩
    | _ => exact ⟨fun put hput ↦ hput, fun put hput ↦ hput⟩
  · exact ⟨fun put hput ↦ hput, fun put hput ↦ List.mem_append_left _ hput⟩
  · exact ⟨fun put hput ↦ houtside.puts ▸ hput, fun put hput ↦ houtside.landed ▸ hput⟩

theorem mem_landed_step {action : IngestAction β} (hstep : s.step cfg master action = some s')
    {put : Nat × StagedFile} (hlanded : put ∈ s'.landed) :
    put ∈ s.landed ∨ action = .objectLands put.1 put.2 ∧ put ∈ s.puts := by
  rcases step_cases hstep with ⟨streamAction, next, rfl, -, -, -, rfl⟩ |
    ⟨id, file, rfl, hput, rfl⟩ | ⟨-, -, houtside⟩
  · cases streamAction <;> exact Or.inl hlanded
  · rcases List.mem_append.mp hlanded with hold | hnew
    · exact Or.inl hold
    · obtain rfl := List.mem_singleton.mp hnew
      exact Or.inr ⟨rfl, hput⟩
  · exact Or.inl (houtside.landed ▸ hlanded)

end Ingest

end RelytIngest
