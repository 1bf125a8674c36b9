import RelytIngest.Ingest.LateObjects
import RelytIngest.RecoverySpec
import RelytIngest.Writer.OrderTripwire

/-!
# Exactly once across crashes

Where each session opens after the death of the one before it, and a put takes effect before the
next listing or never, every object is known to the session that lists the directory. The files that
have to be loaded are then all the objects there are, laid end to end (`Lined`), and they are loaded
in this order (`exactly_once`). This takes batches that end below the largest offset: behind it the
resume offset wraps, and a range is taken twice (`taken_twice`).
-/

set_option autoImplicit false
set_option relaxedAutoImplicit false

namespace RelytIngest

open Foundations Relation

namespace Ingest

variable {β σ : Type} {cfg : Nat → WriterConfig β} {master : Master σ} {s s' : Ingest β σ}
  {allowed : Ingest β σ → IngestAction β → Prop} {m : σ} {first : Int} {admitted : Entry β → Prop}
  {owed : List StagedFile}

/-- A session opens once every earlier one has died, and a put takes effect before the next listing
or never. -/
def OneAtATime (s : Ingest β σ) : IngestAction β → Prop
  | .stream (.openRead id) => ∀ earlier < id, (s.session earlier).alive = false
  | .objectLands id _ => s.lister = some id
  | _ => True

instance (s : Ingest β σ) : (action : IngestAction β) → Decidable (s.OneAtATime action)
  | .stream (.openRead id) => inferInstanceAs (Decidable (∀ earlier < id, _))
  | .objectLands id _ => inferInstanceAs (Decidable (s.lister = some id))
  | .stream (.openDecide ..) | .stream (.openLands ..) | .stream (.openReturns ..)
  | .stream (.writer ..) | .stream (.persistLands ..) | .stream (.crash ..) | .watermark ..
  | .backfill .. | .send .. | .arrive .. | .turn .. | .load => inferInstanceAs (Decidable True)

/-- The files loaded, in the order of loading, are laid end to end from the first offset. -/
def LoadedInOrder (cfg : Nat → WriterConfig β) (master : Master σ) (first : Int)
    (s : Ingest β σ) : Prop :=
  ∃ files : List StagedFile, List.Forall₂ (Announces cfg) files (master.loaded s.master) ∧
    Tiled StagedFile.startOffset StagedFile.endOffset first files

/-- What is below the offset that an open returned is loaded, or it is in a staged file above the
watermark, queued or not: one of the backfill of that open, and of the next one. -/
def Accounted (cfg : Nat → WriterConfig β) (master : Master σ) (first : Int)
    (s : Ingest β σ) : Prop :=
  ∀ id opening offset, (s.session id).opened = some opening →
    opening.plan.kafkaResumeOffset = some offset → ∀ o, first ≤ o → o < offset →
      s.LoadedAt cfg master o ∨ ∃ file ∈ s.staged, file.Covers o ∧
        aboveWatermark (master.watermark s.master) file.packed = true ∧
        file ∈ opening.plan.backfill ∧
        ∀ listing watermark plan, listing.Perm s.staged →
          (watermark = none ∨ watermark = master.watermark s.master) →
            planRecovery listing watermark = .ok plan → file ∈ plan.backfill

/-- Every object has to be loaded, and the objects are laid end to end. -/
structure Lined (first : Int) (s : Ingest β σ) (owed : List StagedFile) : Prop where
  rising : owed.Pairwise fun file other ↦ file.packed < other.packed
  tiled : Tiled StagedFile.startOffset StagedFile.endOffset first owed
  kept : ∀ file ∈ s.kept, file ∈ owed
  staged : ∀ file ∈ s.staged, file ∈ s.kept
  listed : ∀ id opening, s.lister = some id → (s.session id).opened = some opening →
    ∀ file ∈ s.kept, (id, file) ∈ s.landed ∨
      ∃ offset, opening.plan.kafkaResumeOffset = some offset ∧ file.endOffset < offset

/-- A plan resumes behind every staged file. -/
theorem planRecovery_resume_ge {staged : List StagedFile} {watermark : Option Int}
    {plan : RecoveryPlan} (hplan : planRecovery staged watermark = .ok plan) {file : StagedFile}
    (hfile : file ∈ staged) :
    ∃ value, plan.kafkaResumeOffset = some value ∧ nextOffset file.endOffset ≤ value := by
  have hvalue := (planRecovery_ok hplan).2.1
  have hmem : nextOffset file.endOffset ∈
      (sortStaged staged).map fun file ↦ nextOffset file.endOffset :=
    List.mem_map.mpr ⟨file, mem_sortStaged.mpr hfile, rfl⟩
  cases hmax : plan.kafkaResumeOffset with
  | none =>
    rw [hmax, eq_comm, List.max?_eq_none_iff] at hvalue
    simp [hvalue] at hmem
  | some value =>
    rw [hmax] at hvalue
    exact ⟨value, rfl, (List.max?_eq_some_iff.mp hvalue.symm).2 _ hmem⟩

/-- A recorded offset does not take the resume offset back. -/
theorem le_resumeWith (planned : Int) (state : Option StateFile) :
    ∃ offset, resumeWith (some planned) state = some offset ∧ planned ≤ offset := by
  unfold resumeWith
  cases state.bind StateFile.resumeOffset with
  | none => exact ⟨planned, rfl, le_rfl⟩
  | some recorded => exact ⟨max planned (nextOffset recorded), rfl, le_max_left _ _⟩

/-- The end of an object that was put is that of an admitted batch. -/
theorem put_admitted (hallowed : ∀ s action, allowed s action → TakesOver first admitted s action)
    (hreach : ReachableUnder (step cfg master) allowed (start m) s) {id : Nat} {file : StagedFile}
    (hput : (id, file) ∈ s.puts) : ∃ e, admitted e ∧ e.endOffset = file.endOffset := by
  obtain ⟨opening, w, hphase, hmaybe⟩ := (puts_of_reachable hreach).issued id file hput
  exact Writer.admitted_of_sealed (taken_of_reachable hallowed hreach hphase)
    (writer_of_reachable hreach hphase).rows.2 (Writer.mem_sealedFiles_of_maybePut hmaybe)

namespace Lined

theorem start : (start m : Ingest β σ).Lined first [] where
  rising := List.Pairwise.nil
  tiled := trivial
  kept file hfile := by simp [Ingest.start] at hfile
  staged file hfile := by simp [Ingest.start, Ingest.staged] at hfile
  listed id opening hlister := by simp [Ingest.start] at hlister

/-- Where nothing appears late, what appears is harmless. -/
theorem lateHarmless (h : s.Lined first owed) (hkept : s.Kept owed) : s.LateHarmless master :=
  ⟨fun file hfile other hother ↦
      hkept.distinct file (h.staged file hfile) other (h.staged other hother),
    fun file hfile ↦ Or.inl (h.staged file hfile)⟩

/-- What has landed by the session that listed the directory last, and the objects listed there,
come before another file of that session. -/
theorem ends_before (h : s.Lined first owed) (hkept : s.Kept owed) (hputs : s.Puts) {id : Nat}
    {file other : StagedFile} (hlister : s.lister = some id) (hfile : file ∉ owed)
    {opening : Opening} {w : Writer β} (hrunning : (s.session id).phase = .running opening w)
    (hreach : w.ReachableFrom (cfg id) opening.epoch
      (recoveredOffset opening.plan.kafkaResumeOffset) opening.newState.resumeOffset)
    (htaken : w.rows.Taken (opening.plan.kafkaResumeOffset.getD first) admitted)
    (hmaybe : file ∈ w.maybePut) (hother : other ∈ owed) :
    other.packed < file.packed ∧ other.endOffset < file.startOffset := by
  have hsealed := Writer.mem_sealedFiles_of_maybePut hmaybe
  have hopened : (s.session id).opened = some opening := by simp [StreamSession.opened, hrunning]
  have hthere := hkept.mem_kept other hother
  have hnot (n : FileMeta) (hn : n ∈ w.trace.putReturned) : n.file ≠ file := fun heq ↦
    hfile (hkept.own id hlister file (heq ▸ hputs.returned id opening w hrunning n hn))
  by_cases hlanded : (id, other) ∈ s.landed
  · -- a file of the same session, put before
    obtain ⟨_, _, hphase, hmaybe'⟩ := hputs.issued id other (hputs.landed _ hlanded)
    obtain ⟨rfl, rfl⟩ := SessionPhase.running.inj (hrunning.symm.trans hphase)
    have hsealed' := Writer.mem_sealedFiles_of_maybePut hmaybe'
    have hne : other ≠ file := fun heq ↦ hfile (heq ▸ hother)
    have hlt : other.packed < file.packed :=
      lt_of_le_of_ne (hreach.le_of_maybePut hmaybe hnot hmaybe')
        fun heq ↦ hne (hreach.sealed_inj hsealed' hsealed heq)
    exact ⟨hlt, hreach.sealed_before hsealed' hsealed hlt⟩
  · refine ⟨?_, ?_⟩
    · rcases hkept.below id opening hlister hopened other hthere with hbelow | hown
      · exact hbelow.trans_le (hreach.sealed_meta hsealed).2
      · exact absurd hown hlanded
    · rcases h.listed id opening hlister hopened other hthere with hown | ⟨offset, hoffset, hlt⟩
      · exact absurd hown hlanded
      · have htiled := Writer.taken_sealedFiles htaken hreach.rows.2
        rw [hoffset, Option.getD_some] at htiled
        exact hlt.trans_le (htiled.bounds hsealed).1

/-- A new object is behind the others. -/
theorem objectLands (h : s.Lined first owed) (hkept : s.Kept owed) (hoffsets : s.Offsets)
    (hcovered : s.Covered first owed)
    (hallowed : ∀ s action, allowed s action → TakesOver first admitted s action)
    (hreach : ReachableUnder (Ingest.step cfg master) allowed (Ingest.start m) s) {id : Nat}
    {file : StagedFile} (hlister : s.lister = some id) (hstep : s.objectLands id file = some s') :
    s'.Lined first (s.nextOwed master owed (.objectLands id file)) := by
  have hputs := puts_of_reachable hreach
  obtain ⟨hput, rfl⟩ := objectLands_eq_some hstep
  by_cases hfile : file ∈ owed
  · have howed : s.nextOwed master owed (.objectLands id file) = owed := by
      simp [nextOwed, hfile]
    have hsame : (if s.lister = some id ∧ file ∉ s.kept then s.kept ++ [file] else s.kept) =
        s.kept := if_neg fun hnew ↦ hnew.2 (hkept.mem_kept file hfile)
    rw [howed]
    constructor
    case rising => exact h.rising
    case tiled => exact h.tiled
    case kept => simpa only [hsame] using h.kept
    case staged =>
      intro f hf
      simp only [hsame]
      obtain ⟨other, hlanded⟩ := mem_staged.mp hf
      rcases List.mem_append.mp hlanded with hold | hnew
      · exact h.staged f (mem_staged.mpr ⟨other, hold⟩)
      · obtain ⟨-, rfl⟩ := Prod.mk.inj (List.mem_singleton.mp hnew)
        exact hkept.mem_kept f hfile
    case listed =>
      intro other opening hother hopened f hf
      simp only [hsame] at hf
      exact (h.listed other opening hother hopened f hf).imp_left (List.mem_append_left _)
  · obtain ⟨opening, w, hrunning, hmaybe⟩ := hputs.issued id file hput
    have hwriter := writer_of_reachable hreach hrunning
    have htaken := taken_of_reachable hallowed hreach hrunning
    have hbefore (other : StagedFile) (hother : other ∈ owed) :=
      h.ends_before hkept hputs hlister hfile hrunning hwriter htaken hmaybe hother
    have howed : s.nextOwed master owed (.objectLands id file) = owed ++ [file] := by
      simp [nextOwed, hlister, hfile]
    have hnew : file ∉ s.kept := fun hmem ↦ hfile (h.kept file hmem)
    have hsame : (if s.lister = some id ∧ file ∉ s.kept then s.kept ++ [file] else s.kept) =
        s.kept ++ [file] := if_pos ⟨hlister, hnew⟩
    have hopened : (s.session id).opened = some opening := by simp [StreamSession.opened, hrunning]
    -- the file begins where the others end
    have hstart : file.startOffset = tiledTo StagedFile.endOffset first owed := by
      refine le_antisymm (h.tiled.le_of_covers (hcovered.puts _ hput)) ?_
      unfold tiledTo
      cases hlast : owed.getLast? with
      | some last => exact (hbefore last (List.mem_of_getLast? hlast)).2
      | none =>
        have hnone : opening.plan.kafkaResumeOffset = none := by
          cases hresume : opening.plan.kafkaResumeOffset with
          | none => rfl
          | some offset =>
            obtain ⟨other, hother, -⟩ := hoffsets.resume id opening hopened offset hresume
            have := h.kept other hother
            rw [List.getLast?_eq_none_iff] at hlast
            simp [hlast] at this
        have htiled := Writer.taken_sealedFiles htaken hwriter.rows.2
        rw [hnone] at htiled
        exact (htiled.bounds (Writer.mem_sealedFiles_of_maybePut hmaybe)).1
    rw [howed]
    constructor
    case rising =>
      refine List.pairwise_append.mpr ⟨h.rising, List.pairwise_singleton _ _, ?_⟩
      intro other hother f hf
      rw [List.mem_singleton.mp hf]
      exact (hbefore other hother).1
    case tiled => exact tiled_concat.mpr ⟨h.tiled, hstart, (put_range hreach hput).2⟩
    case kept =>
      intro f hf
      simp only [hsame] at hf
      rcases List.mem_append.mp hf with hold | hlast
      · exact List.mem_append_left _ (h.kept f hold)
      · exact List.mem_append_right _ hlast
    case staged =>
      intro f hf
      simp only [hsame]
      obtain ⟨other, hlanded⟩ := mem_staged.mp hf
      rcases List.mem_append.mp hlanded with hold | hlast
      · exact List.mem_append_left _ (h.staged f (mem_staged.mpr ⟨other, hold⟩))
      · obtain ⟨-, rfl⟩ := Prod.mk.inj (List.mem_singleton.mp hlast)
        exact List.mem_append_right _ (List.mem_singleton_self f)
    case listed =>
      intro other opening hother hopened f hf
      simp only [hsame] at hf
      rcases List.mem_append.mp hf with hold | hlast
      · exact (h.listed other opening hother hopened f hold).imp_left (List.mem_append_left _)
      · obtain rfl : other = id := Option.some.inj (hother.symm.trans hlister)
        rw [List.mem_singleton.mp hlast]
        exact Or.inl (List.mem_append_right _ (List.mem_singleton_self _))

/-- A listing finds nothing new, and the session resumes behind all that it finds. -/
theorem lists (h : s.Lined first owed)
    (hends : ∀ file ∈ s.staged, 0 ≤ file.endOffset ∧ file.endOffset < i64Max) {id nowMs : Nat}
    {watermark : Option Int} {staged : List StagedFile} {next : Stream β}
    (henabled : s.enabled cfg (.openDecide id nowMs watermark staged) = true)
    (hnext : s.stream.step cfg (.openDecide id nowMs watermark staged) = some next) :
    (s.followed next (.openDecide id nowMs watermark staged)).Lined first
      (s.nextOwed master owed (.stream (.openDecide id nowMs watermark staged))) := by
  have howed : s.nextOwed master owed (.stream (.openDecide id nowMs watermark staged)) = owed := by
    refine List.append_right_eq_self.mpr (List.filter_eq_nil_iff.mpr fun file hfile ↦ ?_)
    simp [h.staged file hfile]
  rw [howed]
  constructor
  case rising => exact h.rising
  case tiled => exact h.tiled
  case kept => exact fun file hfile ↦ h.kept file (h.staged file hfile)
  case staged => exact fun file hfile ↦ hfile
  case listed =>
    intro other opening hlister hopened file hfile
    obtain rfl : id = other := Option.some.inj hlister
    obtain ⟨state, hphase, ⟨opening', hopen, rfl⟩ | ⟨err, rfl⟩⟩ := Stream.openDecide_eq_some hnext
    · obtain rfl : opening' = opening := by
        simpa [followed, session, StreamSession.opened, Stream.setSession] using hopened
      simp only [enabled, Bool.and_eq_true, decide_eq_true_eq] at henabled
      obtain ⟨plan, hplan, heq, -⟩ := openDecisions_eq_ok_iff.mp hopen
      obtain ⟨value, hvalue, hge⟩ := planRecovery_resume_ge hplan (henabled.2.mem_iff.mpr hfile)
      obtain ⟨offset, hoffset, hle⟩ := le_resumeWith value state
      obtain ⟨hmin, hmax⟩ := hends file hfile
      rw [nextOffset_of_lt (by simp only [i64Min]; omega) hmax] at hge
      exact Or.inr ⟨offset, by rw [heq, hvalue]; exact hoffset, by omega⟩
    · simp [followed, session, StreamSession.opened, Stream.setSession] at hopened

theorem stream (h : s.Lined first owed) {action : StreamAction β}
    (haction : ∀ id nowMs watermark staged, action ≠ .openDecide id nowMs watermark staged)
    {next : Stream β} (hnext : s.stream.step cfg action = some next) :
    (s.followed next action).Lined first owed := by
  have hframe : (s.followed next action).kept = s.kept ∧
      (s.followed next action).lister = s.lister ∧ (s.followed next action).landed = s.landed := by
    cases action with
    | openDecide id nowMs watermark staged => exact absurd rfl (haction id nowMs watermark staged)
    | _ => exact ⟨rfl, rfl, rfl⟩
  obtain ⟨hkept, hlister, hlanded⟩ := hframe
  have hstaged : (s.followed next action).staged = s.staged := by
    rw [Ingest.staged, Ingest.staged, hlanded]
  constructor
  case rising => exact h.rising
  case tiled => exact h.tiled
  case kept => rw [hkept]; exact h.kept
  case staged => rw [hkept, hstaged]; exact h.staged
  case listed =>
    rw [hkept, hlister, hlanded]
    intro id opening hid hopened
    refine h.listed id opening hid ?_
    rw [session, followed_stream] at hopened
    rcases Stream.opened_step hnext hopened with hold | ⟨nowMs, watermark, staged, _, heq, -⟩
    · exact hold
    · exact absurd heq (haction id nowMs watermark staged)

theorem step (h : s.Lined first owed) (hsound : s.Sound cfg master first owed)
    (hallowed : ∀ s action, allowed s action →
      TakesOver first (fun e ↦ e.endOffset < i64Max) s action ∧ s.OneAtATime action)
    (hreach : ReachableUnder (Ingest.step cfg master) allowed (Ingest.start m) s)
    {action : IngestAction β} (hstepAllowed : allowed s action)
    (hstep : s.step cfg master action = some s') :
    s'.Lined first (s.nextOwed master owed action) := by
  have htakes (s : Ingest β σ) (action : IngestAction β) (hs : allowed s action) :=
    (hallowed s action hs).1
  rcases step_cases hstep with ⟨streamAction, next, rfl, henabled, hnext, -, rfl⟩ |
    ⟨id, file, rfl, -, -⟩ | ⟨hstream, hlands, houtside⟩
  · by_cases hdecide : ∃ id nowMs watermark staged,
        streamAction = .openDecide id nowMs watermark staged
    · obtain ⟨id, nowMs, watermark, staged, rfl⟩ := hdecide
      refine h.lists (fun file hfile ↦ ?_) henabled hnext
      obtain ⟨putter, hlanded⟩ := mem_staged.mp hfile
      have hput := (puts_of_reachable hreach).landed _ hlanded
      obtain ⟨e, he, hend⟩ := put_admitted htakes hreach hput
      have hrange := put_range hreach hput
      exact ⟨hrange.1.trans hrange.2, hend ▸ he⟩
    · have hother (id nowMs : Nat) (watermark : Option Int) (staged : List StagedFile) :
          streamAction ≠ .openDecide id nowMs watermark staged :=
        fun heq ↦ hdecide ⟨id, nowMs, watermark, staged, heq⟩
      have hsame : s.nextOwed master owed (.stream streamAction) = owed := by
        cases streamAction with
        | openDecide id nowMs watermark staged =>
          exact absurd rfl (hother id nowMs watermark staged)
        | _ => rfl
      rw [hsame]
      exact h.stream hother hnext
  · exact h.objectLands hsound.kept hsound.offsets hsound.covered htakes hreach
      (hallowed s _ hstepAllowed).2 hstep
  · have hsame : s.nextOwed master owed action = owed := by
      cases action with
      | stream streamAction => exact absurd rfl (hstream streamAction)
      | objectLands id file => exact absurd rfl (hlands id file)
      | _ => rfl
    have hstaged : s'.staged = s.staged := by rw [Ingest.staged, Ingest.staged, houtside.landed]
    rw [hsame]
    constructor
    case rising => exact h.rising
    case tiled => exact h.tiled
    case kept => rw [houtside.kept]; exact h.kept
    case staged => rw [houtside.kept, hstaged]; exact h.staged
    case listed =>
      rw [houtside.lister, houtside.landed, houtside.kept]
      simp only [session, houtside.stream]
      exact h.listed

end Lined

theorem lined_of_reachable (hdoc : master.Documented) {ident : WriterIdentity}
    (hident : ∀ id, (cfg id).ident = ident) (hqueued : master.queued m = [])
    (hloaded : master.loaded m = [])
    (hallowed : ∀ s action, allowed s action →
      TakesOver first (fun e ↦ e.endOffset < i64Max) s action ∧ s.OneAtATime action)
    (hreach : ReachableUnder (step cfg master) allowed (start m) s) :
    ∃ owed, s.Sound cfg master first owed ∧ s.Lined first owed := by
  refine hreach.strengthened
    (fun s : Ingest β σ ↦ ∃ owed, s.Sound cfg master first owed ∧ s.Lined first owed)
    ⟨[], .start hqueued hloaded, .start⟩ ?_
  rintro before action after hbefore ⟨owed, h, hlined⟩ hstepAllowed hstep
  have htakes (s : Ingest β σ) (action : IngestAction β) (hs : allowed s action) :=
    (hallowed s action hs).1
  exact ⟨_, h.step hdoc hident htakes hbefore (fun _ _ _ _ _ ↦ hlined.lateHarmless h.kept) hstep
    (hbefore.snoc hstepAllowed hstep), hlined.step h hallowed hbefore hstepAllowed hstep⟩

/-- Requests with the numbers of files announce these files, one by one. -/
theorem forall₂_announces (hkept : s.Kept owed) {files : List StagedFile}
    {reqs : List NotifyRequest}
    (hnumbers : reqs.map NotifyRequest.serialSeq = files.map StagedFile.packed)
    (hfiles : ∀ file ∈ files, file ∈ s.kept)
    (hreqs : ∀ req ∈ reqs, ∃ file ∈ s.kept, Announces cfg file req) :
    List.Forall₂ (Announces cfg) files reqs := by
  induction files generalizing reqs with
  | nil =>
    rw [List.map_nil, List.map_eq_nil_iff] at hnumbers
    exact hnumbers ▸ .nil
  | cons file rest ih =>
    cases reqs with
    | nil => simp at hnumbers
    | cons req later =>
      rw [List.forall_mem_cons] at hfiles hreqs
      simp only [List.map_cons, List.cons.injEq] at hnumbers
      obtain ⟨other, hother, hannounces⟩ := hreqs.1
      obtain rfl : other = file := hkept.distinct other hother file hfiles.1
        (hannounces.serialSeq.symm.trans hnumbers.1)
      exact .cons hannounces (ih hnumbers.2 hfiles.2 hreqs.2)

/-- The files loaded are the first of those that have to be. -/
theorem Lined.loadedInOrder (h : s.Lined first owed) (hsound : s.Sound cfg master first owed) :
    s.LoadedInOrder cfg master first := by
  have hsubmitted (req : NotifyRequest) (hreq : req ∈ master.loaded s.master) :
      ∃ file ∈ s.kept, Announces cfg file req :=
    hsound.requests.submitted req (Or.inr (Or.inr (Or.inr hreq)))
  have hleading : (master.loaded s.master).map NotifyRequest.serialSeq <+:
      owed.map StagedFile.packed := by
    refine hsound.orderly.ordered.loaded_prefix (List.pairwise_map.mpr h.rising)
      (fun n ↦ List.mem_map.symm) fun n hn ↦ ?_
    obtain ⟨req, hreq, rfl⟩ := List.mem_map.mp hn
    obtain ⟨file, hfile, hannounces⟩ := hsubmitted req hreq
    exact List.mem_map.mpr ⟨file, h.kept file hfile, hannounces.serialSeq.symm⟩
  have htake := List.prefix_iff_eq_take.mp hleading
  rw [← List.map_take] at htake
  refine ⟨_, forall₂_announces hsound.kept htake (fun file hfile ↦ ?_) hsubmitted,
    h.tiled.leading (List.take_prefix _ _)⟩
  exact hsound.kept.mem_kept file (List.mem_of_mem_take hfile)

/-- A file of a backfill that the watermark has reached is loaded. -/
theorem Lined.accounted (h : s.Lined first owed) (hsound : s.Sound cfg master first owed)
    (hdoc : master.Documented) : s.Accounted cfg master first := by
  intro id opening offset hopened hoffset o hfirst hbelow
  rcases hsound.resumed id opening offset hopened hoffset o hfirst hbelow with
    hloaded | ⟨file, hbackfill, hstaged, hcovers⟩
  · exact Or.inl hloaded
  · have hkept := h.staged file hstaged
    by_cases habove : aboveWatermark (master.watermark s.master) file.packed = true
    · refine Or.inr ⟨file, hstaged, hcovers, habove, hbackfill, ?_⟩
      rintro listing watermark plan hlisting hwatermark hplan
      refine (mem_backfill hplan).mpr ⟨hlisting.mem_iff.mpr hstaged, ?_⟩
      rcases hwatermark with rfl | rfl
      · rfl
      · exact habove
    · refine Or.inl (hsound.loadedAt hkept ?_ hcovers)
      cases hwatermark : master.watermark s.master with
      | none => simp [hwatermark, aboveWatermark] at habove
      | some w =>
        simp only [hwatermark, aboveWatermark, Option.all_some, decide_eq_true_eq, not_lt] at habove
        obtain ⟨⟨l, hl, heq⟩, -⟩ := hdoc.watermark_eq_some hwatermark
        exact hsound.orderly.ordered.loaded_of_le ⟨file, h.kept file hkept, rfl⟩
          (List.mem_map.mpr ⟨l, hl, heq⟩) habove

/-- Across any number of sessions the offsets are loaded once and in order, and none below the
offset that an open returned is lost. -/
theorem exactly_once (hdoc : master.Documented) {ident : WriterIdentity}
    (hident : ∀ id, (cfg id).ident = ident) (hqueued : master.queued m = [])
    (hloaded : master.loaded m = [])
    (hreach : ReachableUnder (step cfg master)
      (fun s action ↦
        TakesOver first (fun e ↦ e.endOffset < i64Max) s action ∧ s.OneAtATime action)
      (start m) s) :
    s.LoadedInOrder cfg master first ∧ s.Accounted cfg master first := by
  obtain ⟨owed, hsound, hlined⟩ :=
    lined_of_reachable hdoc hident hqueued hloaded (fun _ _ hs ↦ hs) hreach
  exact ⟨hlined.loadedInOrder hsound, hlined.accounted hsound hdoc⟩

/-- A session stages `[0, 9]` and `[10, 19]`, dies, and the next one resumes at 20. -/
def resumedOnce : Ingest RecordBatch (List NotifyRequest × List NotifyRequest) :=
  (run (restrict (step (fun _ ↦ sampleConfig) jobMaster)
    (fun s action ↦ TakesOver 0 (fun e ↦ e.endOffset < i64Max) s action ∧ s.OneAtATime action))
    (start ([], []))
    (sampleDeath ++ [.objectLands 0 sampleSecond] ++
      sampleSession 1 5 none [sampleFirst, sampleSecond] 2 ++
      sampleSubmit 1 sampleFirst ++ [.load])).getD (start ([], []))

theorem exactly_once_sample :
    resumedOnce.LoadedInOrder (fun _ ↦ sampleConfig) jobMaster 0 ∧
      resumedOnce.Accounted (fun _ ↦ sampleConfig) jobMaster 0 :=
  exactly_once jobMaster_documented (fun _ ↦ rfl) rfl rfl
    (reachableUnder_getD_of_restrict .refl (by decide +kernel))

def sampleLast : StagedFile := ⟨1, 1, 10, 9223372036854775807, false⟩

def sampleAgain : StagedFile := ⟨5, 0, 10, 19, false⟩

/-- A session stages `[0, 9]` and a range to the largest offset, and dies. The next one resumes at
10, and takes offsets that are staged. -/
def takenTwice : Ingest RecordBatch (List NotifyRequest × List NotifyRequest) :=
  (run (restrict (step (fun _ ↦ sampleConfig) jobMaster)
    (fun s action ↦ TakesOver 0 (fun _ ↦ True) s action ∧ s.OneAtATime action))
    (start ([], []))
    (sampleSession 0 1 none [] 0 ++ samplePut 0 0 0 9 ++ sampleStage 0 sampleFirst ++
      samplePut 0 1 10 9223372036854775807 ++ sampleStage 0 sampleLast ++ [.stream (.crash 0)] ++
      sampleSession 1 5 none [sampleFirst, sampleLast] 2 ++ samplePut 1 0 10 19 ++
      sampleStage 1 sampleAgain ++ sampleSubmit 1 sampleFirst ++ sampleSubmit 1 sampleLast ++
      sampleSubmit 1 sampleAgain ++ [.load, .load, .load])).getD (start ([], []))

/-- The ranges loaded end at 9, at the largest offset and at 19. -/
theorem taken_twice :
    ¬ ∀ s : Ingest RecordBatch (List NotifyRequest × List NotifyRequest),
      ReachableUnder (step (fun _ ↦ sampleConfig) jobMaster)
        (fun s action ↦ TakesOver 0 (fun _ ↦ True) s action ∧ s.OneAtATime action)
        (start ([], [])) s →
          s.LoadedInOrder (fun _ ↦ sampleConfig) jobMaster 0 ∧
            s.Accounted (fun _ ↦ sampleConfig) jobMaster 0 := by
  intro hclaim
  obtain ⟨⟨files, hfiles, htiled⟩, -⟩ :=
    hclaim takenTwice (reachableUnder_getD_of_restrict .refl (by decide +kernel))
  have hends : (jobMaster.loaded takenTwice.master).map NotifyRequest.endOffset =
      [9, 9223372036854775807, 19] := by
    decide +kernel
  have hsame : files.map StagedFile.endOffset =
      (jobMaster.loaded takenTwice.master).map NotifyRequest.endOffset := by
    rw [← List.forall₂_eq_eq_eq, List.forall₂_map_left_iff, List.forall₂_map_right_iff]
    exact hfiles.imp fun _ _ hannounces ↦ hannounces.endOffset.symm
  rw [hends] at hsame
  obtain ⟨head, tail, rfl, hhead, hsame⟩ := List.map_eq_cons_iff.mp hsame
  obtain ⟨next, tail, rfl, hnext, hsame⟩ := List.map_eq_cons_iff.mp hsame
  obtain ⟨last, tail, rfl, hlast, -⟩ := List.map_eq_cons_iff.mp hsame
  -- the third range would begin behind the largest offset
  have hrange := htiled.2.2.2.2.2.1
  omega

end Ingest

end RelytIngest
