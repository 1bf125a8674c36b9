import RelytIngest.Ingest.Coverage
import RelytIngest.Ingest.Delivery

/-!
# Objects that appear late

`open_table` resumes behind every object that it lists, also behind one that a predecessor's put
brings to light after the successor has listed the directory. While such an object is harmless, what
lies below an offset that an open resumes at is in files that are loaded or in its backfill
(`late_objects_lose_nothing`). An object that is not is skipped: its rows are below the resume
offset, and its number is below the watermark (`late_object_skipped`).
-/

set_option autoImplicit false
set_option relaxedAutoImplicit false

namespace RelytIngest

open Foundations Relation

namespace Ingest

variable {β σ : Type} {cfg : Nat → WriterConfig β} {master : Master σ} {s s' : Ingest β σ}
  {allowed : Ingest β σ → IngestAction β → Prop} {m : σ} {first : Int} {admitted : Entry β → Prop}
  {owed : List StagedFile}

/-- A file with the offset in its range has been loaded. -/
def LoadedAt (cfg : Nat → WriterConfig β) (master : Master σ) (s : Ingest β σ) (o : Int) : Prop :=
  ∃ req ∈ master.loaded s.master, ∃ file, Announces cfg file req ∧ file.Covers o

/-- What is below the offset that an open returned is loaded, or in a staged file of its
backfill. -/
def Resumed (cfg : Nat → WriterConfig β) (master : Master σ) (first : Int)
    (s : Ingest β σ) : Prop :=
  ∀ id opening offset, (s.session id).opened = some opening →
    opening.plan.kafkaResumeOffset = some offset → ∀ o, first ≤ o → o < offset →
      s.LoadedAt cfg master o ∨
        ∃ file ∈ opening.plan.backfill, file ∈ s.staged ∧ file.Covers o

/-- What holds of the files that have to be loaded, whatever happens to the sessions. -/
structure Sound (cfg : Nat → WriterConfig β) (master : Master σ) (first : Int) (s : Ingest β σ)
    (owed : List StagedFile) : Prop where
  kept : s.Kept owed
  requests : s.Requests cfg master
  orderly : s.Orderly master owed
  offsets : s.Offsets
  covered : s.Covered first owed
  resumed : s.Resumed cfg master first

/-- What is loaded stays loaded. -/
theorem loaded_mono (hdoc : master.Documented) (hrequests : s.Requests cfg master)
    (hkept : s.Kept owed) {ident : WriterIdentity} (hident : ∀ id, (cfg id).ident = ident)
    {action : IngestAction β} (hstep : s.step cfg master action = some s') :
    master.loaded s.master <+: master.loaded s'.master := by
  rcases master_step hstep with ⟨-, hmaster⟩ | ⟨id, req, -, -, hmaster⟩ |
    ⟨id, req, hsent, -, hmaster⟩ | ⟨-, hload⟩
  · rw [hmaster]
  · rw [hmaster]
  · rw [hmaster]
    rcases hrequests.submit hkept hdoc hident hsent with ⟨hsubmit, -⟩ | ⟨m', hsubmit, -, hloaded, -⟩
    · rw [hsubmit]
    · rw [hsubmit, hloaded]
  · obtain ⟨req, -, -, hloaded, -⟩ := hdoc.load s.master s'.master hload
    rw [hloaded]
    exact List.prefix_append _ _

namespace Sound

theorem start {m : σ} (hqueued : master.queued m = []) (hloaded : master.loaded m = []) :
    (start m : Ingest β σ).Sound cfg master first [] where
  kept := .start
  requests := .start hqueued hloaded
  orderly := .start hqueued hloaded
  offsets := .start
  covered := .start
  resumed id opening offset hopened := by
    simp [Ingest.start, session, Stream.start, StreamSession.opened] at hopened

/-- A number that is loaded is that of a file, which the request announces. -/
theorem loadedAt (h : s.Sound cfg master first owed) {file : StagedFile} (hfile : file ∈ s.kept)
    (hloaded : file.packed ∈ (s.delivery master owed).loaded) {o : Int}
    (hcover : file.Covers o) : s.LoadedAt cfg master o := by
  obtain ⟨req, hreq, heq⟩ := List.mem_map.mp hloaded
  obtain ⟨other, hother, hannounces⟩ :=
    h.requests.submitted req (Or.inr (Or.inr (Or.inr hreq)))
  obtain rfl : other = file :=
    h.kept.distinct other hother file hfile (hannounces.serialSeq.symm.trans heq)
  exact ⟨req, hreq, other, hannounces, hcover⟩

theorem resumed_step (h : s.Sound cfg master first owed) (hdoc : master.Documented)
    {ident : WriterIdentity} (hident : ∀ id, (cfg id).ident = ident)
    (hallowed : ∀ s action, allowed s action → TakesOver first admitted s action)
    (hreach : ReachableUnder (Ingest.step cfg master) allowed (Ingest.start m) s)
    {action : IngestAction β} (hstep : s.step cfg master action = some s')
    (hafter : ReachableUnder (Ingest.step cfg master) allowed (Ingest.start m) s')
    (hkept' : s'.Kept (s.nextOwed master owed action)) (hoffsets' : s'.Offsets)
    (hcovered' : s'.Covered first (s.nextOwed master owed action)) :
    s'.Resumed cfg master first := by
  intro id opening offset hopened hoffset o hfirst hbelow
  have hloaded := loaded_mono hdoc h.requests h.kept hident hstep
  have hstaged {file : StagedFile} (hfile : file ∈ s.staged) : file ∈ s'.staged := by
    obtain ⟨other, hlanded⟩ := mem_staged.mp hfile
    exact mem_staged.mpr ⟨other, (puts_mono hstep).2 _ hlanded⟩
  have hat {o : Int} : s.LoadedAt cfg master o → s'.LoadedAt cfg master o := by
    rintro ⟨req, hreq, hrest⟩
    exact ⟨req, hloaded.subset hreq, hrest⟩
  rcases opened_step hstep hopened with
    hold | ⟨nowMs, watermark, staged, state, rfl, -, hmarked, hlisted, hopen⟩
  · refine (h.resumed id opening offset hold hoffset o hfirst hbelow).imp hat ?_
    rintro ⟨file, hfile, hthere, hcover⟩
    exact ⟨file, hfile, hstaged hthere, hcover⟩
  -- the files that have to be loaded now cover what is below the offset
  have hcover := Covered.resume hcovered'.kept hafter hkept' hoffsets' hopened
  rw [hoffset, Option.getD_some] at hcover
  obtain ⟨file, hfile, hin⟩ := hcover o hfirst hbelow
  have hordered := h.orderly.keep_late (succession_of_reachable hallowed hreach)
    (idle_of_reachable hreach) id nowMs watermark staged
  obtain ⟨plan, hplan, heq, -⟩ := openDecisions_eq_ok_iff.mp hopen
  obtain ⟨-, next, -, -, rfl⟩ := streamStep_eq_some hstep
  have hthere : file ∈ s.staged := hkept'.mem_kept file hfile
  have hdone := h.orderly.arrived_or_backfill hordered
    (fun f hf ↦ hkept'.mem_kept f hf) hmarked hlisted hplan hfile
  rcases hdone with hnumber | hbackfill
  · refine Or.inl ?_
    obtain ⟨req, hreq, hseq⟩ := List.mem_map.mp hnumber
    obtain ⟨other, hother, hannounces⟩ :=
      h.requests.submitted req (Or.inr (Or.inr (Or.inr hreq)))
    obtain rfl : other = file := hkept'.distinct other (h.kept.staged other hother) file
      hthere (hannounces.serialSeq.symm.trans hseq)
    exact ⟨req, hreq, other, hannounces, hin⟩
  · exact Or.inr ⟨file, by rw [heq]; exact hbackfill, hthere, hin⟩

theorem step (h : s.Sound cfg master first owed) (hdoc : master.Documented)
    {ident : WriterIdentity} (hident : ∀ id, (cfg id).ident = ident)
    (hallowed : ∀ s action, allowed s action → TakesOver first admitted s action)
    (hreach : ReachableUnder (Ingest.step cfg master) allowed (Ingest.start m) s)
    {action : IngestAction β}
    (hlate : ∀ id nowMs watermark staged,
      action = .stream (.openDecide id nowMs watermark staged) → s.LateHarmless master)
    (hstep : s.step cfg master action = some s')
    (hafter : ReachableUnder (Ingest.step cfg master) allowed (Ingest.start m) s') :
    s'.Sound cfg master first (s.nextOwed master owed action) := by
  have hkept := h.kept.step hreach hallowed
    (fun id nowMs watermark staged heq ↦ (hlate id nowMs watermark staged heq).1) hstep
  have hoffsets := h.offsets.step h.kept h.requests hstep
  have hcovered := h.covered.step h.kept hallowed hreach hlate hstep hafter hkept hoffsets
  exact ⟨hkept, h.requests.step h.kept hdoc hident hreach hstep,
    h.orderly.step h.kept h.requests hdoc hident hallowed hreach hstep, hoffsets, hcovered,
    h.resumed_step hdoc hident hallowed hreach hstep hafter hkept hoffsets hcovered⟩

end Sound

/-- Whenever a session lists the directory, what appeared late is harmless. -/
def HarmlessListing (master : Master σ) (s : Ingest β σ) : IngestAction β → Prop
  | .stream (.openDecide _ _ _ _) => s.LateHarmless master
  | _ => True

instance (s : Ingest β σ) : Decidable (s.LateHarmless master) :=
  inferInstanceAs (Decidable (_ ∧ _))

instance (s : Ingest β σ) : (action : IngestAction β) → Decidable (HarmlessListing master s action)
  | .stream (.openDecide ..) => inferInstanceAs (Decidable (s.LateHarmless master))
  | .stream (.openRead ..) | .stream (.openLands ..) | .stream (.openReturns ..)
  | .stream (.writer ..) | .stream (.persistLands ..) | .stream (.crash ..) | .watermark ..
  | .backfill .. | .objectLands .. | .send .. | .arrive .. | .turn .. | .load =>
    inferInstanceAs (Decidable True)

theorem sound_of_reachable (hdoc : master.Documented) {ident : WriterIdentity}
    (hident : ∀ id, (cfg id).ident = ident) (hqueued : master.queued m = [])
    (hloaded : master.loaded m = [])
    (hallowed : ∀ s action, allowed s action →
      TakesOver first admitted s action ∧ HarmlessListing master s action)
    (hreach : ReachableUnder (step cfg master) allowed (start m) s) :
    ∃ owed, s.Sound cfg master first owed := by
  refine hreach.strengthened (fun s : Ingest β σ ↦ ∃ owed, s.Sound cfg master first owed)
    ⟨[], .start hqueued hloaded⟩ ?_
  rintro before action after hbefore ⟨owed, h⟩ hstepAllowed hstep
  have htakes (s : Ingest β σ) (action : IngestAction β) (hs : allowed s action) :
      TakesOver first admitted s action := (hallowed s action hs).1
  refine ⟨_, h.step hdoc hident htakes hbefore ?_ hstep (hbefore.snoc hstepAllowed hstep)⟩
  rintro id nowMs watermark staged rfl
  exact (hallowed before _ hstepAllowed).2

/-- While the objects that appear late are harmless, an open never resumes past rows that no file
contains which is loaded or which it backfills. -/
theorem late_objects_lose_nothing (hdoc : master.Documented) {ident : WriterIdentity}
    (hident : ∀ id, (cfg id).ident = ident) (hqueued : master.queued m = [])
    (hloaded : master.loaded m = [])
    (hreach : ReachableUnder (step cfg master)
      (fun s action ↦ TakesOver first (fun _ ↦ True) s action ∧ HarmlessListing master s action)
      (start m) s) :
    s.Resumed cfg master first := by
  obtain ⟨owed, h⟩ := sound_of_reachable hdoc hident hqueued hloaded (fun _ _ hs ↦ hs) hreach
  exact h.resumed

/-! ### Two takeovers -/

/-- A session opens on what is staged and backfills a number of files. -/
def sampleSession (id nowMs : Nat) (watermark : Option Int) (staged : List StagedFile)
    (backfill : Nat) : List (IngestAction RecordBatch) :=
  [.stream (.openRead id), .watermark id false, .stream (.openDecide id nowMs watermark staged),
    .stream (.openLands id)] ++ List.replicate backfill (.backfill id) ++
    [.stream (.openReturns id (.ok ()))]

def sampleWriter (id : Nat) (actions : List (Action RecordBatch)) :
    List (IngestAction RecordBatch) :=
  actions.map fun action ↦ .stream (.writer id action)

/-- A session takes a range, and the put of its file is issued. -/
def samplePut (id flush : Nat) (startOffset endOffset : Int) : List (IngestAction RecordBatch) :=
  sampleWriter id (sampleAppend startOffset endOffset ++
    [.flushCall flush false, .tryLock (.flush flush) false] ++ List.replicate 5 (.handOver 0) ++
    [.receive .render, .attempt .render, .renderEnds none, .calibrate, .send .render,
      .receive .gzip, .send .gzip, .receive .put, .order, .attempt .put])

/-- The object appears, and the file is announced. -/
def sampleStage (id : Nat) (file : StagedFile) : List (IngestAction RecordBatch) :=
  .objectLands id file ::
    sampleWriter id [.putEnds ⟨.ok (), .ok false, .ok ()⟩, .confirm, .record, .announce, .land]

def sampleFirst : StagedFile := ⟨1, 0, 0, 9, false⟩

def sampleSecond : StagedFile := ⟨1, 1, 10, 19, false⟩

/-- The first session dies with its second put under way. -/
def sampleDeath : List (IngestAction RecordBatch) :=
  sampleSession 0 1 none [] 0 ++ samplePut 0 0 0 9 ++ sampleStage 0 sampleFirst ++
    samplePut 0 1 10 19 ++ [.stream (.crash 0)]

/-- The second object appears after the next session has listed the first. That session dies too,
and a third one opens. -/
def lateAndHarmless : Ingest RecordBatch (List NotifyRequest × List NotifyRequest) :=
  (run (restrict (step (fun _ ↦ sampleConfig) jobMaster)
    (fun s action ↦ TakesOver 0 (fun _ ↦ True) s action ∧ HarmlessListing jobMaster s action))
    (start ([], []))
    (sampleDeath ++ sampleSession 1 5 none [sampleFirst] 1 ++ [.objectLands 0 sampleSecond] ++
      [.stream (.crash 1)] ++ sampleSession 2 9 none [sampleFirst, sampleSecond] 2)).getD
        (start ([], []))

example : ((lateAndHarmless.session 2).opened.bind fun opening ↦
    opening.plan.kafkaResumeOffset) = some 20 := by
  decide +kernel

theorem late_objects_lose_nothing_sample :
    lateAndHarmless.Resumed (fun _ ↦ sampleConfig) jobMaster 0 :=
  late_objects_lose_nothing jobMaster_documented (fun _ ↦ rfl) rfl rfl
    (reachableUnder_getD_of_restrict .refl (by decide +kernel))

/-- The request that announces a file. -/
def sampleRequest (file : StagedFile) : NotifyRequest :=
  match WriterState.sealMeta sampleConfig file with
  | .ok m => notifyRequest sampleConfig m
  | .error _ => ⟨[], 0, [], [], 0, ',', false, 0, none⟩

def sampleSubmit (id : Nat) (file : StagedFile) : List (IngestAction RecordBatch) :=
  [.send id, .arrive id (sampleRequest file), .turn id ⟨true, .ok .accepted⟩]

/-- The file of the second session, which begins where the first object ends. -/
def sampleThird : StagedFile := ⟨5, 0, 10, 14, false⟩

/-- The second session takes `[10, 14]` and has it loaded before the second object appears. -/
def skipped : Ingest RecordBatch (List NotifyRequest × List NotifyRequest) :=
  (run (restrict (step (fun _ ↦ sampleConfig) jobMaster) (TakesOver 0 fun _ ↦ True))
    (start ([], []))
    (sampleDeath ++ sampleSession 1 5 none [sampleFirst] 1 ++ samplePut 1 0 10 14 ++
      sampleStage 1 sampleThird ++ sampleSubmit 1 sampleFirst ++ sampleSubmit 1 sampleThird ++
      [.load, .load, .objectLands 0 sampleSecond, .stream (.crash 1)] ++
      sampleSession 2 9 (some sampleThird.packed) [sampleFirst, sampleThird, sampleSecond] 0)).getD
        (start ([], []))

/-- The third session resumes at 20, and no file that is loaded or backfilled has an offset of
`[15, 19]`: the second object is below the watermark. -/
theorem late_object_skipped :
    ¬ ∀ s : Ingest RecordBatch (List NotifyRequest × List NotifyRequest),
      ReachableUnder (step (fun _ ↦ sampleConfig) jobMaster) (TakesOver 0 fun _ ↦ True)
        (start ([], [])) s → s.Resumed (fun _ ↦ sampleConfig) jobMaster 0 := by
  intro hclaim
  have hresumed := hclaim skipped (reachableUnder_getD_of_restrict .refl (by decide +kernel))
  have hopened : (skipped.session 2).opened.map (fun opening ↦
      (opening.plan.kafkaResumeOffset, opening.plan.backfill)) = some (some 20, []) := by
    decide +kernel
  obtain ⟨opening, hopening, heq⟩ := Option.map_eq_some_iff.mp hopened
  obtain ⟨hresume, hbackfill⟩ := Prod.mk.inj heq
  rcases hresumed 2 opening 20 hopening hresume 15 (by decide) (by decide) with
    ⟨req, hreq, file, hannounces, -, hend⟩ | ⟨file, hfile, -⟩
  · have hall : ∀ req ∈ jobMaster.loaded skipped.master, req.endOffset < 15 := by decide +kernel
    have := hall req hreq
    rw [hannounces.endOffset] at this
    omega
  · simp [hbackfill] at hfile

end Ingest

end RelytIngest
