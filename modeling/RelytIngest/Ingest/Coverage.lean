import RelytIngest.Ingest.Offsets

/-!
# The offsets that the files cover

The files that have to be loaded cover everything below the end of an object that the last listing
saw or that was put since, and everything below the file of a put (`Covered`). An object that
appears late keeps it so while it is harmless (`LateHarmless`): it reaches no further than the
objects known before, or the master takes it.
-/

set_option autoImplicit false
set_option relaxedAutoImplicit false

namespace RelytIngest

open Foundations Relation

/-- The successor of an offset never exceeds the exact one. -/
theorem nextOffset_le {offset : Int} (hmin : 0 ≤ offset) : nextOffset offset ≤ offset + 1 := by
  rw [nextOffset, wrapI64_eq]
  split_ifs <;> omega

namespace Writer

variable {β : Type} {cfg : WriterConfig β} {w : Writer β} {epochMs : Nat}
  {stagedOffset resumePersisted : Option Int}

/-- Where a file is being put, the files past the fence cover everything up to it. -/
theorem ReachableFrom.cleared_covers
    (hreach : ReachableFrom cfg epochMs stagedOffset resumePersisted w) {start : Int}
    {admitted : Entry β → Prop} (htaken : w.rows.Taken start admitted) {file : Compressed}
    {failures : Nat} (hput : w.pipe.put = .running file failures) :
    Covers StagedFile.startOffset StagedFile.endOffset start (w.cleared.map FileMeta.file)
      file.fileMeta.file.startOffset := by
  obtain ⟨rest, hrest⟩ := hreach.sealed_running hput
  have hready : w.files.place = .ready := by simp [Writer.files, PutPlace.of, hput]
  have hcleared : w.trace.putReturned = w.cleared := hreach.files.ready_eq hready
  have htiled := taken_sealedFiles htaken hreach.rows.2
  rw [hrest, hcleared] at htiled
  exact htiled.covers_earlier

end Writer

namespace Ingest

variable {β σ : Type} {cfg : Nat → WriterConfig β} {master : Master σ} {s s' : Ingest β σ}
  {allowed : Ingest β σ → IngestAction β → Prop} {m : σ} {first : Int} {admitted : Entry β → Prop}
  {owed : List StagedFile}

/-- The files cover the offsets from the first one to the limit. -/
def FilesCover (first : Int) (files : List StagedFile) (limit : Int) : Prop :=
  Covers StagedFile.startOffset StagedFile.endOffset first files limit

structure Covered (first : Int) (s : Ingest β σ) (owed : List StagedFile) : Prop where
  kept : ∀ file ∈ s.kept, FilesCover first owed (file.endOffset + 1)
  puts : ∀ put ∈ s.puts, FilesCover first owed put.2.startOffset

/-- No two staged objects have one number, and an object that appeared since the directory was last
listed, other than by the session that listed it, reaches no further than the objects known there,
or has a number above all that the master has or may still be sent. -/
def LateHarmless (master : Master σ) (s : Ingest β σ) : Prop :=
  (∀ file ∈ s.staged, ∀ other ∈ s.staged, file.packed = other.packed → file = other) ∧
    ∀ file ∈ s.staged, file ∈ s.kept ∨ (∃ other ∈ s.kept, file.endOffset ≤ other.endOffset) ∨
      ∀ n ∈ s.moving master, n < file.packed

theorem mem_nextOwed {file : StagedFile} (hfile : file ∈ owed) (action : IngestAction β) :
    file ∈ s.nextOwed master owed action := by
  unfold nextOwed
  split
  · split_ifs
    · exact List.mem_append_left _ hfile
    · exact hfile
  · exact List.mem_append_left _ hfile
  · exact hfile

/-- The range of a file that was put is one of 64-bit offsets that `append` accepts. -/
theorem put_range (hreach : ReachableUnder (step cfg master) allowed (start m) s) {id : Nat}
    {file : StagedFile} (hput : (id, file) ∈ s.puts) :
    0 ≤ file.startOffset ∧ file.startOffset ≤ file.endOffset := by
  obtain ⟨opening, w, hphase, hmaybe⟩ := (puts_of_reachable hreach).issued id file hput
  have hwriter := writer_of_reachable hreach hphase
  have hsealed := Writer.mem_sealedFiles_of_maybePut hmaybe
  exact ⟨hwriter.sealed_nonneg hsealed, (hwriter.sealed_range hsealed).2.2⟩

theorem kept_range (hreach : ReachableUnder (step cfg master) allowed (start m) s)
    (hkept : s.Kept owed) {file : StagedFile} (hfile : file ∈ s.kept) :
    0 ≤ file.startOffset ∧ file.startOffset ≤ file.endOffset := by
  obtain ⟨id, hlanded⟩ := mem_staged.mp (hkept.staged file hfile)
  exact put_range hreach ((puts_of_reachable hreach).landed _ hlanded)

namespace Covered

theorem start : (start m : Ingest β σ).Covered first [] where
  kept file hfile := by simp [Ingest.start] at hfile
  puts put hput := by simp [Ingest.start] at hput

/-- An open resumes where everything is covered. -/
theorem resume (hkeptCover : ∀ file ∈ s.kept, FilesCover first owed (file.endOffset + 1))
    (hreach : ReachableUnder (Ingest.step cfg master) allowed (Ingest.start m) s)
    (hkept : s.Kept owed) (hoffsets : s.Offsets) {id : Nat} {opening : Opening}
    (hopened : (s.session id).opened = some opening) :
    FilesCover first owed (opening.plan.kafkaResumeOffset.getD first) := by
  cases hresume : opening.plan.kafkaResumeOffset with
  | none => exact fun o hstart hend ↦ absurd hend (not_lt.mpr hstart)
  | some offset =>
    obtain ⟨file, hfile, rfl⟩ := hoffsets.resume id opening hopened offset hresume
    have hrange := kept_range hreach hkept hfile
    exact (hkeptCover file hfile).mono (fun _ hmem ↦ hmem)
      (nextOffset_le (hrange.1.trans hrange.2))

/-- An object that was put covers its own range, and the files before it the rest. -/
theorem extend (h : s.Covered first owed) {owed' : List StagedFile}
    (howed : ∀ file ∈ owed, file ∈ owed') {id : Nat} {file : StagedFile}
    (hput : (id, file) ∈ s.puts) (hfile : file ∈ owed') :
    FilesCover first owed' (file.endOffset + 1) :=
  ((h.puts _ hput).mono howed le_rfl).extend hfile

theorem kept_step (h : s.Covered first owed) (hkept : s.Kept owed) (hputs : s.Puts)
    {action : IngestAction β}
    (hlate : ∀ id nowMs watermark staged,
      action = .stream (.openDecide id nowMs watermark staged) → s.LateHarmless master)
    (hstep : s.step cfg master action = some s') :
    ∀ file ∈ s'.kept, FilesCover first (s.nextOwed master owed action) (file.endOffset + 1) := by
  intro file hfile
  have howed (f : StagedFile) (hf : f ∈ owed) : f ∈ s.nextOwed master owed action :=
    mem_nextOwed hf action
  have hold {f : StagedFile} (hf : f ∈ s.kept) {limit : Int} (hle : limit ≤ f.endOffset + 1) :
      FilesCover first (s.nextOwed master owed action) limit := (h.kept f hf).mono howed hle
  rcases step_cases hstep with ⟨streamAction, next, rfl, -, -, -, rfl⟩ |
    ⟨id, other, rfl, hput, rfl⟩ | ⟨-, -, houtside⟩
  · cases streamAction with
    | openDecide id nowMs watermark staged =>
      have hstaged : file ∈ s.staged := hfile
      rcases (hlate id nowMs watermark staged rfl).2 file hstaged with
        hknown | ⟨other, hother, hle⟩ | habove
      · exact hold hknown le_rfl
      · exact hold hother (by omega)
      · by_cases hknown : file ∈ s.kept
        · exact hold hknown le_rfl
        · obtain ⟨putter, hlanded⟩ := mem_staged.mp hstaged
          refine h.extend howed (hputs.landed _ hlanded) ?_
          exact List.mem_append_right _
            (List.mem_filter.mpr ⟨hstaged, decide_eq_true ⟨hknown, habove⟩⟩)
    | openRead | openLands | openReturns | writer | persistLands | crash => exact hold hfile le_rfl
  · dsimp only at hfile
    split_ifs at hfile with hnew
    · rcases List.mem_append.mp hfile with hknown | hlast
      · exact hold hknown le_rfl
      · obtain rfl := List.mem_singleton.mp hlast
        refine h.extend howed hput ?_
        have hmissing : file ∉ owed := fun hmem ↦ hnew.2 (hkept.mem_kept file hmem)
        simp [nextOwed, hnew.1, hmissing]
    · exact hold hfile le_rfl
  · exact hold (houtside.kept ▸ hfile) le_rfl

theorem step (h : s.Covered first owed) (hkept : s.Kept owed)
    (hallowed : ∀ s action, allowed s action → TakesOver first admitted s action)
    (hreach : ReachableUnder (Ingest.step cfg master) allowed (Ingest.start m) s)
    {action : IngestAction β}
    (hlate : ∀ id nowMs watermark staged,
      action = .stream (.openDecide id nowMs watermark staged) → s.LateHarmless master)
    (hstep : s.step cfg master action = some s')
    (hafter : ReachableUnder (Ingest.step cfg master) allowed (Ingest.start m) s')
    (hkept' : s'.Kept (s.nextOwed master owed action)) (hoffsets' : s'.Offsets) :
    s'.Covered first (s.nextOwed master owed action) where
  kept := h.kept_step hkept (puts_of_reachable hreach) hlate hstep
  puts := by
    rintro ⟨id, file⟩ hput
    rcases mem_puts_step hstep hput with hold | ⟨writerAction, n, -, hunder, rfl⟩
    · exact (h.puts _ hold).mono (fun f hf ↦ mem_nextOwed hf action) le_rfl
    · -- the put that has begun: what the session sealed before is past the fence
      obtain ⟨opening, w, file, failures, hphase, hrunning, rfl⟩ := putUnderWay_eq_some hunder
      have hcleared := (writer_of_reachable hafter hphase).cleared_covers
        (taken_of_reachable hallowed hafter hphase) hrunning
      have hopened : (s'.session id).opened = some opening := by
        simp [StreamSession.opened, hphase]
      have hresume := resume (h.kept_step hkept (puts_of_reachable hreach) hlate hstep) hafter
        hkept' hoffsets' hopened
      refine Covers.trans hresume (hcleared.mono (fun f hf ↦ ?_) le_rfl)
      obtain ⟨n, hn, rfl⟩ := List.mem_map.mp hf
      exact hkept'.cleared id opening w hphase n hn

end Covered

end Ingest

end RelytIngest
