import RelytIngest.Ingest.ExactlyOnce
import RelytIngest.Writer.StagedContent

/-!
# What the objects hold

The puts of a run with their bytes (`Issued`), and the object at a url: the bytes of a put that has
taken effect there (`Stored`). Each is the content of a file that some session cut, whichever of its
puts was the one (`Contents`). Where sessions follow one another no two of them put one file
(`OnePutter`), so a url has one content for good (`content_of_url`, `stored_unique`).
-/

set_option autoImplicit false
set_option relaxedAutoImplicit false

namespace RelytIngest

open Foundations Relation

/-- The puts that were issued, with their sessions and their bytes. -/
abbrev Issued := List (Nat × StagedFile × List UInt8)

namespace Ingest

variable {β σ : Type}

/-- The put that a step of a writer leaves under way. -/
def issues (s : Ingest β σ) : IngestAction β → Issued
  | .stream (.writer id _) =>
    match (s.session id).phase with
    | .running _ w =>
      (w.putting.map fun file ↦ (id, file.fileMeta.file, file.payload)).toList
    | _ => []
  | _ => []

/-- A step, with the bytes of the puts. -/
def stepIssued (cfg : Nat → WriterConfig β) (master : Master σ) (state : Ingest β σ × Issued)
    (action : IngestAction β) : Option (Ingest β σ × Issued) :=
  (state.1.step cfg master action).map fun s ↦ (s, state.2 ++ s.issues action)

/-- The object at a url holds the bytes: a put of them has taken effect there. -/
def Stored (cfg : Nat → WriterConfig β) (state : Ingest β σ × Issued) (url : Text)
    (payload : List UInt8) : Prop :=
  ∃ id file, (id, file) ∈ state.1.landed ∧ (id, file, payload) ∈ state.2 ∧
    url = (cfg id).urlBase ++ '/' :: file.objectKey (cfg id).ident

/-- The bytes are the content of a file that a session has cut. -/
def Cuts (cfg : Nat → WriterConfig β) (s : Ingest β σ) (id : Nat) (file : StagedFile)
    (payload : List UInt8) : Prop :=
  ∃ opening w cut, (s.session id).phase = .running opening w ∧ cut ∈ w.trace.cuts ∧
    cut.fileMeta.file = file ∧
      Encodes (cfg id) (cut.entries.map Entry.batch) file.compressed payload

/-- Every put that was issued is there with its bytes, and these are the content of its file. -/
structure Contents (cfg : Nat → WriterConfig β) (state : Ingest β σ × Issued) : Prop where
  issued : ∀ id file, (id, file) ∈ state.1.puts → ∃ payload, (id, file, payload) ∈ state.2
  encoded : ∀ id file payload, (id, file, payload) ∈ state.2 → state.1.Cuts cfg id file payload

/-- Sessions follow one another, and their consumers too. -/
def Successive (first : Int) (admitted : Entry β → Prop) (s : Ingest β σ)
    (action : IngestAction β) : Prop :=
  TakesOver first admitted s action ∧ s.OneAtATime action

instance (first : Int) (admitted : Entry β → Prop) [DecidablePred admitted] (s : Ingest β σ)
    (action : IngestAction β) : Decidable (Successive first admitted s action) :=
  inferInstanceAs (Decidable (_ ∧ _))

/-- No two sessions have put one file. -/
def OnePutter (s : Ingest β σ) : Prop :=
  ∀ id other file, (id, file) ∈ s.landed → (other, file) ∈ s.landed → id = other

variable {cfg : Nat → WriterConfig β} {master : Master σ} {s s' : Ingest β σ} {m : σ}
  {state state' : Ingest β σ × Issued} {allowed : Ingest β σ → IngestAction β → Prop}
  {first : Int} {owed : List StagedFile}

theorem stepIssued_eq_some {action : IngestAction β}
    (hstep : stepIssued cfg master state action = some state') :
    state.1.step cfg master action = some state'.1 ∧
      state'.2 = state.2 ++ state'.1.issues action := by
  obtain ⟨s, hs, rfl⟩ := Option.map_eq_some_iff.mp hstep
  exact ⟨hs, rfl⟩

/-- The bytes of the puts leave the run as it is. -/
theorem reachable_of_issued
    (hreach : ReachableUnder (stepIssued cfg master) (fun state action ↦ allowed state.1 action)
      (start m, []) state) :
    ReachableUnder (step cfg master) allowed (start m) state.1 :=
  hreach.strengthened (fun state ↦ ReachableUnder (step cfg master) allowed (start m) state.1) .refl
    fun _ _ _ _ hbefore hallowed hstep ↦ hbefore.snoc hallowed (stepIssued_eq_some hstep).1

/-! ### The content of what was put -/

/-- A file that was cut stays cut. -/
theorem Cuts.step {action : IngestAction β} {id : Nat} {file : StagedFile} {payload : List UInt8}
    (h : s.Cuts cfg id file payload) (hstep : s.step cfg master action = some s') :
    s'.Cuts cfg id file payload := by
  obtain ⟨opening, w, cut, hphase, hcut, hfile, hencodes⟩ := h
  obtain ⟨w', hphase', rfl | ⟨writerAction, -, hwriter⟩⟩ := running_step hstep hphase
  · exact ⟨opening, w', cut, hphase', hcut, hfile, hencodes⟩
  · exact ⟨opening, w', cut, hphase', (Writer.step_grows hwriter).cuts hcut, hfile, hencodes⟩

theorem contents_of_reachable
    (hreach : ReachableUnder (stepIssued cfg master) (fun state action ↦ allowed state.1 action)
      (start m, []) state) : Contents cfg state := by
  refine hreach.strengthened (Contents cfg) ⟨by simp [start], by simp⟩ ?_
  intro before action after hbefore h hallowed hstep
  obtain ⟨hstep, hissued⟩ := stepIssued_eq_some hstep
  have hafter := (reachable_of_issued hbefore).snoc hallowed hstep
  constructor
  case issued =>
    intro id file hput
    rw [hissued]
    rcases mem_puts_step hstep hput with hold | ⟨writerAction, m, rfl, hunder, rfl⟩
    · obtain ⟨payload, hpayload⟩ := h.issued id file hold
      exact ⟨payload, List.mem_append_left _ hpayload⟩
    · obtain ⟨opening, w, file, failures, hphase, hrunning, rfl⟩ := putUnderWay_eq_some hunder
      refine ⟨file.payload, List.mem_append_right _ ?_⟩
      simp [issues, hphase, Writer.putting, hrunning]
  case encoded =>
    intro id file payload hmem
    rw [hissued] at hmem
    rcases List.mem_append.mp hmem with hold | hnew
    · exact (h.encoded id file payload hold).step hstep
    · unfold issues at hnew
      split at hnew
      · next other writerAction =>
        split at hnew
        · next opening w hphase =>
          obtain ⟨put, hput, heq⟩ := Option.map_eq_some_iff.mp (Option.mem_toList.mp hnew)
          obtain ⟨rfl, hrest⟩ := Prod.mk.inj heq
          obtain ⟨rfl, rfl⟩ := Prod.mk.inj hrest
          obtain ⟨cut, hcut, -, hmeta, hencodes⟩ :=
            (writer_of_reachable hafter hphase).put_content hput
          exact ⟨opening, w, cut, hphase, hcut, congrArg FileMeta.file hmeta, hencodes⟩
        · simp at hnew
      · simp at hnew

/-! ### One content for a url -/

/-- A session puts files above those that were there when it listed the directory. -/
theorem OnePutter.objectLands (h : s.OnePutter) (hputs : s.Puts) (hkept : s.Kept owed)
    (hlined : s.Lined first owed)
    (hwriter : ∀ id opening w, (s.session id).phase = .running opening w →
      w.ReachableFrom (cfg id) opening.epoch (recoveredOffset opening.plan.kafkaResumeOffset)
        opening.newState.resumeOffset) {id : Nat} {file : StagedFile} (hlister : s.lister = some id)
    (hput : (id, file) ∈ s.puts) {other : Nat} (hother : (other, file) ∈ s.landed) :
    other = id := by
  obtain ⟨opening, w, hphase, hmaybe⟩ := hputs.issued id file hput
  have hkeptFile := hlined.staged file (mem_staged.mpr ⟨other, hother⟩)
  have hepoch :=
    ((hwriter id opening w hphase).sealed_meta (Writer.mem_sealedFiles_of_maybePut hmaybe)).2
  rcases hkept.below id opening hlister (by simp [StreamSession.opened, hphase]) file hkeptFile with
    hbelow | hlanded
  · omega
  · exact h other id file hother hlanded

theorem onePutter_of_reachable (hdoc : master.Documented) {ident : WriterIdentity}
    (hident : ∀ id, (cfg id).ident = ident) (hqueued : master.queued m = [])
    (hloaded : master.loaded m = [])
    (hallowed : ∀ s action, allowed s action →
      Successive first (fun e ↦ e.endOffset < i64Max) s action)
    (hreach : ReachableUnder (step cfg master) allowed (start m) s) : s.OnePutter := by
  refine hreach.strengthened OnePutter (by simp [OnePutter, start]) ?_
  intro before action after hbefore h hstepAllowed hstep id other file hid hother
  obtain ⟨owed, hsound, hlined⟩ :=
    lined_of_reachable hdoc hident hqueued hloaded hallowed hbefore
  have hputs := puts_of_reachable hbefore
  have hlands {id other : Nat} (hlands : action = .objectLands id file)
      (hput : (id, file) ∈ before.puts) (hold : (other, file) ∈ before.landed) : other = id := by
    subst hlands
    have hlister : before.lister = some id := (hallowed before _ hstepAllowed).2
    exact h.objectLands hputs hsound.kept hlined
      (fun id opening w hphase ↦ writer_of_reachable hbefore hphase) hlister hput hold
  rcases mem_landed_step hstep hid with hidOld | ⟨hidNew, hidPut⟩
  · rcases mem_landed_step hstep hother with hotherOld | ⟨hotherNew, hotherPut⟩
    · exact h id other file hidOld hotherOld
    · exact hlands hotherNew hotherPut hidOld
  · rcases mem_landed_step hstep hother with hotherOld | ⟨hotherNew, -⟩
    · exact (hlands hidNew hidPut hotherOld).symm
    · exact (IngestAction.objectLands.inj (hidNew.symm.trans hotherNew)).1

/-- The sessions of a stream put their files under one prefix. -/
structure OnePlace (cfg : Nat → WriterConfig β) (ident : WriterIdentity) (urlBase : Text) : Prop where
  ident : ∀ id, (cfg id).ident = ident
  urlBase : ∀ id, (cfg id).urlBase = urlBase

/-- Objects of a stream at one url are one object of one session. -/
theorem landed_of_url {ident : WriterIdentity} {urlBase : Text}
    (hplace : OnePlace cfg ident urlBase)
    (hreach : ReachableUnder (step cfg master) allowed (start m) s) (hputter : s.OnePutter)
    (hdistinct : ∀ file ∈ s.staged, ∀ other ∈ s.staged, file.packed = other.packed → file = other)
    {id id' : Nat} {file file' : StagedFile} (hlanded : (id, file) ∈ s.landed)
    (hlanded' : (id', file') ∈ s.landed)
    (hurl : (cfg id).urlBase ++ '/' :: file.objectKey (cfg id).ident =
      (cfg id').urlBase ++ '/' :: file'.objectKey (cfg id').ident) : id = id' ∧ file = file' := by
  have hputs := puts_of_reachable hreach
  have hencodes {id : Nat} {file : StagedFile} (hlanded : (id, file) ∈ s.landed) :
      file.epochMs ≤ MAX_EPOCH_MS ∧ file.seq ≤ MAX_SEQ := by
    obtain ⟨opening, w, hphase, hmaybe⟩ := hputs.issued id file (hputs.landed _ hlanded)
    obtain ⟨⟨m, hmeta⟩, -⟩ := (writer_of_reachable hreach hphase).sealed_meta
      (Writer.mem_sealedFiles_of_maybePut hmaybe)
    have hfits := WriterState.sealMeta_ok hmeta
    exact ⟨hfits.2.1, hfits.2.2.1⟩
  rw [hplace.urlBase, hplace.urlBase, hplace.ident, hplace.ident, List.append_cancel_left_eq,
    List.cons.injEq] at hurl
  have hpacked := Writer.packed_eq_of_objectKey_eq (hencodes hlanded) (hencodes hlanded') hurl.2
  obtain rfl := hdistinct file (mem_staged.mpr ⟨id, hlanded⟩) file'
    (mem_staged.mpr ⟨id', hlanded'⟩) hpacked
  exact ⟨hputter id id' file hlanded hlanded', rfl⟩

/-- What is stored at a url is the content of one file. -/
theorem content_of_url (hdoc : master.Documented) {ident : WriterIdentity} {urlBase : Text}
    (hplace : OnePlace cfg ident urlBase) (hqueued : master.queued m = [])
    (hloaded : master.loaded m = [])
    (hallowed : ∀ s action, allowed s action →
      Successive first (fun e ↦ e.endOffset < i64Max) s action)
    (hreach : ReachableUnder (stepIssued cfg master) (fun state action ↦ allowed state.1 action)
      (start m, []) state) {url : Text} {payload payload' : List UInt8}
    (hstored : Stored cfg state url payload) (hstored' : Stored cfg state url payload') :
    payload = payload' := by
  have hrun := reachable_of_issued hreach
  have hcontents := contents_of_reachable hreach
  obtain ⟨owed, hsound, hlined⟩ :=
    lined_of_reachable hdoc hplace.ident hqueued hloaded hallowed hrun
  have hputter := onePutter_of_reachable hdoc hplace.ident hqueued hloaded hallowed hrun
  obtain ⟨id, file, hlanded, hissued, rfl⟩ := hstored
  obtain ⟨id', file', hlanded', hissued', hurl⟩ := hstored'
  obtain ⟨rfl, rfl⟩ := landed_of_url hplace hrun hputter
    (fun file hfile other hother ↦ hsound.kept.distinct file (hlined.staged file hfile) other
      (hlined.staged other hother)) hlanded hlanded' hurl
  obtain ⟨opening, w, cut, hphase, hcut, hfile, hencodes⟩ := hcontents.encoded _ _ _ hissued
  obtain ⟨opening', w', cut', hphase', hcut', hfile', hencodes'⟩ := hcontents.encoded _ _ _ hissued'
  obtain ⟨rfl, rfl⟩ := SessionPhase.running.inj (hphase.symm.trans hphase')
  obtain rfl : cut = cut' :=
    (writer_of_reachable hrun hphase).cut_of_packed hcut hcut' (by rw [hfile, hfile'])
  exact hencodes.unique hencodes'

/-- A session puts a file, and again after the connection broke; both puts take effect, and the next
session lists the object. -/
def putTwice : Ingest RecordBatch (List NotifyRequest × List NotifyRequest) × Issued :=
  (run (restrict (stepIssued (fun _ ↦ sampleConfig) jobMaster)
    (fun state action ↦ Successive 0 (fun e ↦ e.endOffset < i64Max) state.1 action))
    (start ([], []), [])
    (sampleSession 0 1 none [] 0 ++ samplePut 0 0 0 9 ++ [.objectLands 0 sampleFirst] ++
      sampleWriter 0 [.putEnds ⟨.error (.storage .other "broken"), .ok false, .ok ()⟩,
        .attempt .put] ++
      sampleStage 0 sampleFirst ++ [.stream (.crash 0)] ++ sampleSession 1 5 none [sampleFirst] 1
      )).getD (start ([], []), [])

end Ingest

end RelytIngest
