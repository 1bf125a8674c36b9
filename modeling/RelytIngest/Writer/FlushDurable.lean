import RelytIngest.Writer.AllOrNothing
import RelytIngest.Writer.Files

/-!
# Flush means durable

`FlushTask.Valid` is what holds at each point of a flush about the batches accepted before its call:
once it has sealed, or found nothing to seal, they are in sealed files; while it waits for a serial
seq, in files up to that seq; once it has waited, in recorded files. `flush_durable` concludes that
a flush, or the drain of a close, that returns `Ok` returns a staged offset at or above the end of
each of them, with each in a file whose put returned.
-/

set_option autoImplicit false
set_option relaxedAutoImplicit false

namespace RelytIngest

open Foundations Relation

/-! ### What only grows -/

theorem Rows.Move.grows {β : Type} {cfg : WriterConfig β} {r r' : Rows β} (hmove : Move cfg r r') :
    r.cuts <+: r'.cuts ∧ r.returned <+: r'.returned := by
  cases hmove with
  | refuse | reject | accept | takeBack | keep => exact ⟨List.prefix_rfl, List.prefix_append _ _⟩
  | check | push | fail | roll => exact ⟨List.prefix_rfl, List.prefix_rfl⟩
  | cut => exact ⟨List.prefix_append _ _, List.prefix_rfl⟩

theorem Files.Move.grows {request : FileMeta → NotifyRequest} {f f' : Files}
    (hmove : Move request f f') : f.recorded <+: f'.recorded := by
  cases hmove with
  | record m => exact List.prefix_append _ _
  | cut | send | put | confirm | announce | land | stop | silence => exact List.prefix_rfl

namespace Writer

variable {β : Type} {cfg : WriterConfig β} {w w' : Writer β}

/-- What only grows from one state to a later one. -/
structure Grows (w w' : Writer β) : Prop where
  cuts : w.trace.cuts ⊆ w'.trace.cuts
  returned : w.trace.returned ⊆ w'.trace.returned
  recorded : w.trace.recorded ⊆ w'.trace.recorded

theorem Grows.of_trace (htrace : w'.trace = w.trace) : Grows w w' := by
  constructor <;> rw [htrace] <;> exact List.Subset.refl _

theorem step_grows {action : Action β} (hstep : w.step cfg action = some w') : Grows w w' := by
  have hrows : w.rows.cuts <+: w'.rows.cuts ∧ w.rows.returned <+: w'.rows.returned := by
    have hmoves := refines_rows w action w' trivial hstep
    generalize w'.rows = last at hmoves
    induction hmoves with
    | refl => exact ⟨List.prefix_rfl, List.prefix_rfl⟩
    | tail _ hmove ih => exact ⟨ih.1.trans hmove.grows.1, ih.2.trans hmove.grows.2⟩
  have hfiles : w.files.recorded <+: w'.files.recorded := by
    have hmoves := refines_files w action w' trivial hstep
    generalize w'.files = last at hmoves
    induction hmoves with
    | refl => exact List.prefix_rfl
    | tail _ hmove ih => exact ih.trans hmove.grows
  exact ⟨hrows.1.subset, hrows.2.subset, hfiles.subset⟩

/-- The batch is in a sealed file. -/
def InFile (w : Writer β) (entry : Entry β) : Prop :=
  ∃ cut ∈ w.trace.cuts, entry ∈ cut.entries

/-- The batch is in a sealed file up to a serial seq. -/
def InFileUpTo (w : Writer β) (target : Int) (entry : Entry β) : Prop :=
  ∃ cut ∈ w.trace.cuts, entry ∈ cut.entries ∧ cut.fileMeta.serialSeq ≤ target

/-- The batch is in a file that `record_durable` has taken into account. -/
def Durable (w : Writer β) (entry : Entry β) : Prop :=
  ∃ cut ∈ w.trace.cuts, entry ∈ cut.entries ∧ cut.fileMeta ∈ w.trace.recorded

end Writer

/-- What holds at a point of a flush about the batches accepted before its call. -/
def FlushTask.Valid {β : Type} (w : Writer β) (id : Nat) : FlushTask β → Prop
  | .idle => True
  | .sealing call _ => call.before ⊆ w.trace.accepted ∧
      ∀ sealed, w.lock = some ⟨.flush id, .sending sealed⟩ → ∀ e ∈ call.before, w.InFile e
  | .lookup call => ∀ e ∈ call.before, w.InFile e
  | .awaiting call target => ∀ e ∈ call.before, w.InFileUpTo target e
  | .persisting call _ | .reading call => ∀ e ∈ call.before, w.Durable e
  | .returned call (.ok staged) => ∀ e ∈ call.before,
      w.Durable e ∧ ∃ offset, staged = some offset ∧ e.endOffset ≤ offset
  | .returned _ (.error _) => True

namespace Writer

variable {β : Type} {cfg : WriterConfig β} {w w' : Writer β}

theorem Grows.accepted (h : Grows w w') : w.trace.accepted ⊆ w'.trace.accepted := by
  intro e he
  obtain ⟨o, ho, rfl⟩ := List.mem_map.mp he
  obtain ⟨hmem, hok⟩ := List.mem_filter.mp ho
  exact List.mem_map_of_mem (List.mem_filter.mpr ⟨h.returned hmem, hok⟩)

theorem Grows.inFile (h : Grows w w') {e : Entry β} (he : w.InFile e) : w'.InFile e :=
  let ⟨cut, hcut, hmem⟩ := he
  ⟨cut, h.cuts hcut, hmem⟩

theorem Grows.inFileUpTo (h : Grows w w') {target : Int} {e : Entry β}
    (he : w.InFileUpTo target e) : w'.InFileUpTo target e :=
  let ⟨cut, hcut, hmem⟩ := he
  ⟨cut, h.cuts hcut, hmem⟩

theorem Grows.durable (h : Grows w w') {e : Entry β} (he : w.Durable e) : w'.Durable e :=
  let ⟨cut, hcut, hmem, hrecorded⟩ := he
  ⟨cut, h.cuts hcut, hmem, h.recorded hrecorded⟩

end Writer

open Writer in
/-- A flush that does not move stays valid. When its own hand-over reaches a cut, everything
accepted must be in sealed files by then. -/
theorem FlushTask.Valid.mono {β : Type} {w w' : Writer β} {id : Nat} {task : FlushTask β}
    (h : task.Valid w id) (hgrows : Grows w w')
    (hlock : ∀ sealed, w'.lock = some ⟨.flush id, .sending sealed⟩ →
      w.lock = some ⟨.flush id, .sending sealed⟩ ∨ ∀ e ∈ w.trace.accepted, w'.InFile e) :
    task.Valid w' id := by
  cases task with
  | idle => trivial
  | sealing call wait =>
    refine ⟨List.Subset.trans h.1 hgrows.accepted, fun sealed hsending e he ↦ ?_⟩
    rcases hlock sealed hsending with hsame | hsealed
    · exact hgrows.inFile (h.2 sealed hsame e he)
    · exact hsealed e (h.1 he)
  | lookup call => exact fun e he ↦ hgrows.inFile (h e he)
  | awaiting call target => exact fun e he ↦ hgrows.inFileUpTo (h e he)
  | persisting call phase | reading call => exact fun e he ↦ hgrows.durable (h e he)
  | returned call result =>
    cases result with
    | ok staged => exact fun e he ↦ ⟨hgrows.durable (h e he).1, (h e he).2⟩
    | error err => trivial

namespace Writer

variable {β : Type} {cfg : WriterConfig β} {w w' : Writer β}

/-- The invariant of the flushes: the seal lock is held only by a flush that is sealing, and every
flush is valid. -/
structure FlushesValid (w : Writer β) : Prop where
  lock : ∀ id phase, w.lock = some ⟨.flush id, phase⟩ →
    ∃ call, w.flushes id = .sealing call .holding
  task : ∀ id, (w.flushes id).Valid w id

/-! ### What a reachable state knows -/

section Reachable

variable {epochMs : Nat} {stagedOffset resumePersisted : Option Int}
  (hreach : ReachableFrom cfg epochMs stagedOffset resumePersisted w)
include hreach

/-- With an empty buffer an accepted batch is in a sealed file. -/
theorem ReachableFrom.accepted_inFile {e : Entry β} (he : e ∈ w.trace.accepted)
    (hempty : w.st.buffered = []) : w.InFile e := by
  have hplace := hreach.accepted_places he
  rw [places, hempty, List.append_nil] at hplace
  exact List.mem_flatMap.mp hplace

/-- Everything in a sealed file is up to the last sealed seq. -/
theorem ReachableFrom.inFile_lastSealed {e : Entry β} (he : w.InFile e) :
    ∃ target, w.st.lastSealedSeq = some target ∧ w.InFileUpTo target e := by
  obtain ⟨cut, hcut, hmem⟩ := he
  obtain ⟨-, hnamed⟩ := hreach.rows
  obtain ⟨earlier, last, hcuts⟩ : ∃ earlier last, w.trace.cuts = earlier ++ [last] :=
    ⟨_, _, (List.dropLast_append_getLast (List.ne_nil_of_mem hcut)).symm⟩
  have hlast : w.st.lastSealedSeq = w.trace.cuts.getLast?.map fun c ↦ c.fileMeta.serialSeq :=
    hnamed.lastSealed
  rw [hcuts, List.getLast?_concat, Option.map_some] at hlast
  refine ⟨last.fileMeta.serialSeq, hlast, cut, hcut, hmem, ?_⟩
  have hincreasing : w.trace.cuts.Pairwise fun a b ↦ a.fileMeta.serialSeq < b.fileMeta.serialSeq :=
    hnamed.increasing
  rw [hcuts, List.pairwise_append] at hincreasing
  rw [hcuts, List.mem_append, List.mem_singleton] at hcut
  rcases hcut with hearlier | rfl
  · exact (hincreasing.2.2 cut hearlier last (List.mem_singleton_self last)).le
  · exact le_rfl

/-- The file being handed over is the last one sealed. -/
theorem ReachableFrom.sending_last {holder : Sealer} {sealed : Sealed β}
    (hlock : w.lock = some ⟨holder, .sending sealed⟩) :
    w.st.lastSealedSeq = some sealed.fileMeta.serialSeq := by
  have hsplit : w.trace.cuts.map Cut.fileMeta = w.trace.sent ++ w.handover :=
    hreach.files.sent_eq
  have hlast : w.st.lastSealedSeq = w.trace.cuts.getLast?.map fun c ↦ c.fileMeta.serialSeq :=
    hreach.rows.2.lastSealed
  have hmap := congrArg (fun l ↦ l.getLast?.map FileMeta.serialSeq) hsplit
  simp only [handover, hlock, List.getLast?_concat, Option.map_some, List.getLast?_map,
    Option.map_map] at hmap
  exact hlast.trans hmap

/-- A file up to the durable seq is recorded. -/
theorem ReachableFrom.durable {target durable : Int} {e : Entry β} (he : w.InFileUpTo target e)
    (hdurable : w.progress.durableSeq = some durable) (hle : target ≤ durable) : w.Durable e := by
  obtain ⟨cut, hcut, hmem, hseq⟩ := he
  obtain ⟨m, hm, hlanded⟩ := hreach.files.durable durable hdurable
  have hfiles := hreach.files
  have hsplit : w.trace.cuts.map Cut.fileMeta = w.trace.putReturned ++ w.pipe.line ++ w.handover :=
    hfiles.conserved
  obtain ⟨unrecorded, hput⟩ : w.trace.recorded <+: w.trace.putReturned := hfiles.prefixes.1
  have hincreasing : (w.trace.cuts.map Cut.fileMeta).Pairwise fun a b ↦ a.serialSeq < b.serialSeq :=
    List.pairwise_map.mpr hreach.rows.2.increasing
  rw [hsplit, ← hput, List.append_assoc, List.append_assoc, List.pairwise_append] at hincreasing
  have hmember : cut.fileMeta ∈ w.trace.cuts.map Cut.fileMeta := List.mem_map_of_mem hcut
  rw [hsplit, ← hput, List.append_assoc, List.append_assoc] at hmember
  refine ⟨cut, hcut, hmem, (List.mem_append.mp hmember).resolve_right fun hlater ↦ ?_⟩
  have := hincreasing.2.2 m hm cut.fileMeta hlater
  omega

/-- The staged offset is at or above the end of every durable batch. -/
theorem ReachableFrom.durable_staged {e : Entry β} (he : w.Durable e) :
    ∃ offset, w.st.stagedOffset = some offset ∧ e.endOffset ≤ offset := by
  obtain ⟨cut, hcut, hmem, hrecorded⟩ := he
  obtain ⟨hbalanced, hnamed⟩ := hreach.rows
  have hend : e.endOffset ≤ cut.fileMeta.file.endOffset := by
    obtain ⟨earlier, later, hcuts⟩ := List.append_of_mem hcut
    obtain ⟨last, hlast, hlastEnd⟩ := Option.map_eq_some_iff.mp (hnamed.wellFormed cut hcut).last
    have hranges : w.places.Pairwise fun first second ↦ first.endOffset < second.startOffset :=
      hbalanced.ranges
    have hentries : cut.entries.Sublist w.places := by
      rw [places, hcuts]
      exact ((List.sublist_append_left cut.entries (later.flatMap Cut.entries)).trans
        (by simp)).trans (List.sublist_append_left _ _)
    obtain ⟨init, hinit⟩ := List.getLast?_eq_some_iff.mp hlast
    have hpairwise := hranges.sublist hentries
    rw [hinit, List.pairwise_append] at hpairwise
    rw [hinit, List.mem_append, List.mem_singleton] at hmem
    rcases hmem with hearlier | rfl
    · have hbefore := hpairwise.2.2 e hearlier last (List.mem_singleton_self last)
      have hrange := hbalanced.range last (hentries.subset (hinit ▸ List.mem_append_right _
        (List.mem_singleton_self last)))
      omega
    · exact hlastEnd.le
  have hstaged : w.st.stagedOffset = w.trace.recorded.foldl raiseOffset stagedOffset :=
    hreach.files.staged
  obtain ⟨offset, hoffset, hle⟩ := le_foldl_raiseOffset stagedOffset hrecorded
  exact ⟨offset, hstaged.trans hoffset, hend.trans hle⟩

end Reachable

/-! ### The steps -/

section Frames

theorem flushes_setFlush_self (id : Nat) (task : FlushTask β) :
    (w.setFlush id task).flushes id = task :=
  Function.update_self ..

theorem flushes_setFlush_of_ne {id other : Nat} (hne : other ≠ id) (task : FlushTask β) :
    (w.setFlush id task).flushes other = w.flushes other :=
  Function.update_of_ne hne ..

theorem grows_sealReturns (result : Except Error (Option Int)) (sealer : Sealer) :
    Grows w (w.sealReturns result sealer) := by
  cases sealer with
  | append =>
    simp only [sealReturns]
    split
    · cases result with
      | ok seq => exact ⟨List.Subset.refl _, List.subset_append_left _ _, List.Subset.refl _⟩
      | error err => exact .of_trace rfl
    · exact .of_trace rfl
  | flush id =>
    simp only [sealReturns]
    split <;> exact .of_trace rfl
  | ticker => exact .of_trace rfl

theorem flushes_sealReturns_append (result : Except Error (Option Int)) :
    (w.sealReturns result .append).flushes = w.flushes := by
  simp only [sealReturns]
  split
  · cases result <;> rfl
  · rfl

theorem flushes_setWait (wait : SealWait) {sealer : Sealer} (hsealer : ∀ id, sealer ≠ .flush id) :
    (w.setWait wait sealer).flushes = w.flushes := by
  cases sealer with
  | append =>
    simp only [setWait]
    split <;> rfl
  | flush id => exact absurd rfl (hsealer id)
  | ticker => rfl

end Frames

/-- A step that moves no flush, and takes the lock for none. -/
theorem FlushesValid.frame (h : FlushesValid w) (hgrows : Grows w w')
    (hflushes : w'.flushes = w.flushes)
    (hlock : ∀ id phase, w'.lock = some ⟨.flush id, phase⟩ → w.lock = some ⟨.flush id, phase⟩) :
    FlushesValid w' where
  lock id phase hheld := hflushes ▸ h.lock id phase (hlock id phase hheld)
  task id := hflushes ▸ (h.task id).mono hgrows fun _ hsending ↦ .inl (hlock id _ hsending)

/-- A flush that does not hold the lock moves. -/
theorem FlushesValid.setFlush {id : Nat} {task : FlushTask β} (h : FlushesValid w)
    (hfree : ∀ phase, w.lock ≠ some ⟨.flush id, phase⟩) (htask : task.Valid w id) :
    FlushesValid (w.setFlush id task) where
  lock other phase hheld := by
    have hne : other ≠ id := by
      rintro rfl
      exact hfree phase hheld
    obtain ⟨call, hcall⟩ := h.lock other phase hheld
    exact ⟨call, (flushes_setFlush_of_ne hne task).trans hcall⟩
  task other := by
    by_cases hother : other = id
    · subst hother
      rw [flushes_setFlush_self]
      exact htask
    · rw [flushes_setFlush_of_ne hother]
      exact h.task other

/-- A flush at a point where it is not sealing does not hold the lock. -/
theorem FlushesValid.free (h : FlushesValid w) (id : Nat)
    (hnot : ∀ call, w.flushes id ≠ .sealing call .holding) (phase : SealPhase β) :
    w.lock ≠ some ⟨.flush id, phase⟩ := fun hheld ↦
  let ⟨call, hcall⟩ := h.lock id phase hheld
  hnot call hcall

/-- What a flush gets from its hand-over. -/
def SealResultValid (w : Writer β) (call : FlushCall β) : Except Error (Option Int) → Prop
  | .ok (some seq) => ∀ e ∈ call.before, w.InFileUpTo seq e
  | .ok none => ∀ e ∈ call.before, w.InFile e
  | .error _ => True

/-- A caller whose hand-over ends without the lock. -/
theorem FlushesValid.sealReturns {result : Except Error (Option Int)} {sealer : Sealer}
    (h : FlushesValid w) (hfree : ∀ id phase, sealer = .flush id → w.lock ≠ some ⟨sealer, phase⟩)
    (hresult : ∀ id call wait, sealer = .flush id → w.flushes id = .sealing call wait →
      SealResultValid w call result) : FlushesValid (w.sealReturns result sealer) := by
  cases sealer with
  | append =>
    exact h.frame (grows_sealReturns _ _) (flushes_sealReturns_append _)
      fun id phase ↦ by rw [lock_sealReturns]; exact fun hheld ↦ hheld
  | ticker =>
    exact h.frame (grows_sealReturns _ _) rfl
      fun id phase ↦ by rw [lock_sealReturns]; exact fun hheld ↦ hheld
  | flush id =>
    simp only [Writer.sealReturns]
    split
    · next call wait hflush =>
      refine h.setFlush (fun phase ↦ hfree id phase rfl) ?_
      have hvalid := hresult id call wait rfl hflush
      cases result with
      | error err => trivial
      | ok found =>
        cases found with
        | some seq => exact hvalid
        | none => exact hvalid
    · exact h

theorem FlushesValid.finish {result : Except Error (Option Int)} {holder : Sealer}
    {phase : SealPhase β} (h : FlushesValid w) (hlock : w.lock = some ⟨holder, phase⟩)
    (hresult : ∀ id call, holder = .flush id → w.flushes id = .sealing call .holding →
      SealResultValid w call result) : FlushesValid (w.finish holder result) := by
  have hreleased : FlushesValid { w with lock := none } :=
    h.frame (.of_trace rfl) rfl (by simp)
  refine hreleased.sealReturns (by simp) fun id call wait hholder hflush ↦ ?_
  obtain ⟨held, hheld⟩ := h.lock id phase (hholder ▸ hlock)
  have hsame : w.flushes id = .sealing call wait := hflush
  rw [hheld, FlushTask.sealing.injEq] at hsame
  obtain ⟨rfl, rfl⟩ := hsame
  exact hresult id held hholder hheld

/-- The holder moves on to a phase other than the hand-over of a file. -/
theorem FlushesValid.setPhase {holder : Sealer} {before after : SealPhase β} (h : FlushesValid w)
    (hlock : w.lock = some ⟨holder, before⟩) (hafter : ∀ sealed, after ≠ .sending sealed) :
    FlushesValid (w.setPhase holder after) where
  lock id phase hheld := by
    simp only [Writer.setPhase, Option.some.injEq, Holding.mk.injEq] at hheld
    exact h.lock id before (hheld.1 ▸ hlock)
  task id := by
    refine (h.task id).mono (.of_trace rfl) ?_
    intro sealed hsending
    simp only [Writer.setPhase, Option.some.injEq, Holding.mk.injEq] at hsending
    exact absurd hsending.2 (hafter sealed)

/-- The lock is granted to a sealer that waits for it. -/
theorem FlushesValid.grant {sealer : Sealer} {wait : SealWait} (h : FlushesValid w)
    (hwait : w.waitOf sealer = some wait) : FlushesValid (w.grant sealer) := by
  cases sealer with
  | append =>
    refine h.frame (.of_trace ?_) (flushes_setWait _ (by simp)) (by simp [Writer.grant])
    simp only [Writer.grant, Writer.setWait]
    split <;> rfl
  | ticker => exact h.frame (.of_trace rfl) rfl (by simp [Writer.grant])
  | flush id =>
    simp only [waitOf] at hwait
    split at hwait
    · next call before hflush =>
      have hvalid := h.task id
      rw [hflush] at hvalid
      simp only [Writer.grant, Writer.setWait, hflush]
      constructor
      · intro other phase hheld
        obtain rfl : id = other := by simpa using congrArg (·.map Holding.holder) hheld
        exact ⟨call, flushes_setFlush_self ..⟩
      · intro other
        by_cases hother : other = id
        · subst hother
          rw [show ({ w.setFlush other (.sealing call .holding) with
            lock := some ⟨.flush other, .entered⟩ } : Writer β).flushes other = _ from
              flushes_setFlush_self ..]
          exact ⟨hvalid.1, by simp⟩
        · rw [show ({ w.setFlush id (.sealing call .holding) with
            lock := some ⟨.flush id, .entered⟩ } : Writer β).flushes other = _ from
              flushes_setFlush_of_ne hother _]
          exact (h.task other).mono (.of_trace rfl) (by simp)
    · simp at hwait

/-! ### The steps that move a flush -/

theorem flushesValid_flushCall {id : Nat} {closing : Bool} (h : FlushesValid w)
    (hstep : w.flushCall cfg id closing = some w') : FlushesValid w' := by
  unfold flushCall at hstep
  split at hstep
  · next hidle =>
    obtain rfl := Option.some.inj hstep
    have hfree := h.free id (by simp [hidle])
    refine h.setFlush hfree ?_
    split
    · trivial
    · exact ⟨List.Subset.refl _, fun _ hheld ↦ absurd hheld (hfree _)⟩
  · simp at hstep

/-- A flush whose target is reached goes on to its end. -/
theorem FlushesValid.setDurable {id : Nat} {call : FlushCall β} (h : FlushesValid w)
    (hfree : ∀ phase, w.lock ≠ some ⟨.flush id, phase⟩)
    (hdurable : ∀ e ∈ call.before, w.Durable e) :
    FlushesValid (w.setFlush id (FlushCall.durable call)) := by
  refine h.setFlush hfree ?_
  unfold FlushCall.durable
  split <;> exact hdurable

section Reachable

variable {epochMs : Nat} {stagedOffset resumePersisted : Option Int}
  (hreach : ReachableFrom cfg epochMs stagedOffset resumePersisted w)
include hreach

theorem flushesValid_flushLookup {id : Nat} (h : FlushesValid w)
    (hstep : w.flushLookup id = some w') : FlushesValid w' := by
  unfold flushLookup at hstep
  split at hstep
  · next call hlookup =>
    have hfiles : ∀ e ∈ call.before, w.InFile e := by
      have := h.task id
      rwa [hlookup] at this
    have hfree := h.free id (by simp [hlookup])
    obtain rfl := Option.some.inj hstep
    split
    · next target htarget =>
      refine h.setFlush hfree fun e he ↦ ?_
      obtain ⟨last, hlast, hupTo⟩ := hreach.inFile_lastSealed (hfiles e he)
      obtain rfl : last = target := Option.some.inj (hlast.symm.trans htarget)
      exact hupTo
    · next hnone =>
      -- nothing was ever sealed: no batch was accepted before the call
      refine h.setDurable hfree fun e he ↦ ?_
      obtain ⟨last, hlast, -⟩ := hreach.inFile_lastSealed (hfiles e he)
      simp [hnone] at hlast
  · simp at hstep

theorem flushesValid_flushAwait {id : Nat} (h : FlushesValid w)
    (hstep : w.flushAwait cfg id = some w') : FlushesValid w' := by
  unfold flushAwait at hstep
  split at hstep
  · next call target hawaiting =>
    have hfiles : ∀ e ∈ call.before, w.InFileUpTo target e := by
      have := h.task id
      rwa [hawaiting] at this
    have hfree := h.free id (by simp [hawaiting])
    split_ifs at hstep with hreached
    · obtain rfl := Option.some.inj hstep
      obtain ⟨durable, hdurable, hle⟩ := (Option.any_eq_true ..).mp hreached
      exact h.setDurable hfree fun e he ↦
        hreach.durable (hfiles e he) hdurable (of_decide_eq_true hle)
    · obtain ⟨err, -, rfl⟩ := Option.map_eq_some_iff.mp hstep
      exact h.setFlush hfree trivial
  · simp at hstep

theorem flushesValid_flushRead {id : Nat} (h : FlushesValid w)
    (hstep : w.flushRead id = some w') : FlushesValid w' := by
  unfold flushRead at hstep
  split at hstep
  · next call hreading =>
    have hdurable : ∀ e ∈ call.before, w.Durable e := by
      have := h.task id
      rwa [hreading] at this
    obtain rfl := Option.some.inj hstep
    exact h.setFlush (h.free id (by simp [hreading])) fun e he ↦
      ⟨hdurable e he, hreach.durable_staged (hdurable e he)⟩
  · simp at hstep

end Reachable

theorem FlushesValid.setPersist {persister : Persister} (h : FlushesValid w)
    (next : Option PersistPhase) : FlushesValid (w.setPersist next persister) := by
  cases persister with
  | ticker => exact h.frame (.of_trace rfl) rfl fun _ _ hheld ↦ hheld
  | close id =>
    simp only [Writer.setPersist]
    split
    · next call phase hpersisting =>
      have hdurable : ∀ e ∈ call.before, w.Durable e := by
        have := h.task id
        rwa [hpersisting] at this
      refine h.setFlush (h.free id (by simp [hpersisting])) ?_
      cases next <;> exact hdurable
    · exact h

theorem flushesValid_persist {action : Action β} (h : FlushesValid w)
    (hstep : w.step cfg action = some w')
    (hpersist : action matches .persistBegin .. | .persistRecheck _ | .persistWrite ..) :
    FlushesValid w' := by
  obtain ⟨resume, next, persister, rfl⟩ := persist_cases hstep hpersist
  refine FlushesValid.setPersist ?_ _
  exact h.frame (.of_trace rfl) rfl fun _ _ hheld ↦ hheld

/-! ### The steps of the hand-over -/

/-- A caller that waits for the lock does not hold it. -/
theorem FlushesValid.not_holding (h : FlushesValid w) (sealer : Sealer)
    (hwait : w.waitOf sealer ≠ some .holding) :
    ∀ id phase, sealer = .flush id → w.lock ≠ some ⟨sealer, phase⟩ := by
  rintro id phase rfl hheld
  obtain ⟨call, hcall⟩ := h.lock id phase hheld
  simp [waitOf, hcall] at hwait

theorem FlushesValid.park {sealer : Sealer} (h : FlushesValid w)
    (hwait : w.waitOf sealer = some .trying) (hsealer : sealer ≠ .ticker) :
    FlushesValid (w.setWait .parked sealer) := by
  cases sealer with
  | append =>
    refine h.frame (.of_trace ?_) (flushes_setWait _ (by simp)) fun _ _ ↦ by simp [lock_setWait]
    simp only [Writer.setWait]
    split <;> rfl
  | ticker => exact absurd rfl hsealer
  | flush id =>
    have hfree := h.not_holding (.flush id) (by simp [hwait])
    simp only [waitOf] at hwait
    split at hwait
    · next call before hflush =>
      have hvalid := h.task id
      rw [hflush] at hvalid
      simp only [Writer.setWait, hflush]
      exact h.setFlush (fun phase ↦ hfree id phase rfl)
        ⟨hvalid.1, fun _ hheld ↦ absurd hheld (hfree id _ rfl)⟩
    · simp at hwait

theorem flushesValid_sealer {action : Action β} (h : FlushesValid w)
    (hstep : w.step cfg action = some w')
    (hsealer : action matches .tryLock _ _ | .acquire _ | .stall _) : FlushesValid w' := by
  cases sealer_cases hstep hsealer with
  | skip => exact h.sealReturns (by simp) (by simp)
  | park sealer htrying hother => exact h.park htrying hother
  | take sealer wait hwait hwants => exact h.grant hwait
  | giveUp sealer err hstalled hparked =>
    exact h.sealReturns (h.not_holding sealer (by simp [hparked])) fun _ _ _ _ _ ↦ trivial
  | letGo sealer err =>
    have hreleased : FlushesValid { w with lock := none } := h.frame (.of_trace rfl) rfl (by simp)
    exact hreleased.sealReturns (by simp) fun _ _ _ _ _ ↦ trivial

section Reachable

variable {epochMs : Nat} {stagedOffset resumePersisted : Option Int}
  (hreach : ReachableFrom cfg epochMs stagedOffset resumePersisted w)
include hreach

/-- A flush that holds the lock over an empty buffer finds its batches sealed. -/
theorem FlushesValid.sealed_already {id : Nat} {call : FlushCall β} {now : Nat}
    (h : FlushesValid w) (hflush : w.flushes id = .sealing call .holding)
    (hsealable : w.st.sealable cfg now false = false) : ∀ e ∈ call.before, w.InFile e := by
  have hvalid := h.task id
  rw [hflush] at hvalid
  exact fun e he ↦
    hreach.accepted_inFile (hvalid.1 he) (by simpa [WriterState.sealable] using hsealable)

theorem flushesValid_cut {holder : Sealer} {now : Nat} (h : FlushesValid w)
    (hlock : w.lock = some ⟨holder, .cutting⟩)
    (hreach' : ReachableFrom cfg epochMs stagedOffset resumePersisted (w.cut cfg holder now)) :
    FlushesValid (w.cut cfg holder now) := by
  have hstate (st : WriterState β) : FlushesValid { w with st := st } :=
    h.frame (.of_trace rfl) rfl fun _ _ hheld ↦ hheld
  revert hreach'
  unfold cut
  split
  · next err st hseal => exact fun _ ↦ (hstate st).finish hlock fun _ _ _ _ ↦ trivial
  · next st hseal =>
    refine fun _ ↦ (hstate st).finish hlock fun id call hholder hflush ↦ ?_
    subst hholder
    exact h.sealed_already hreach hflush (by simpa using (WriterState.sealBuffer_none hseal).1)
  · next sealed st hseal =>
    intro hreach'
    obtain ⟨-, -, -, -, -, hafter⟩ := WriterState.sealBuffer_some hseal
    constructor
    · intro id phase hheld
      simp only [Writer.setPhase, Option.some.injEq, Holding.mk.injEq] at hheld
      exact h.lock id .cutting (hheld.1 ▸ hlock)
    · intro id
      have hgrows : Grows w (Writer.setPhase { w with
          st := st
          trace := { w.trace with cuts := w.trace.cuts ++ [Cut.mk sealed w.st.buffered] }
          } holder (.sending sealed)) :=
        ⟨List.subset_append_left _ _, List.Subset.refl _, List.Subset.refl _⟩
      exact (h.task id).mono hgrows fun _ _ ↦
        .inr fun e he ↦ hreach'.accepted_inFile he (hafter ▸ rfl)

theorem flushesValid_handOver {now : Nat} (h : FlushesValid w)
    (hstep : w.handOver cfg now = some w')
    (hreach' : ReachableFrom cfg epochMs stagedOffset resumePersisted w') : FlushesValid w' := by
  cases holder_cases hstep with
  | reserve holder hlock | await holder hlock | lose holder hlock | proceed holder hlock =>
    exact h.setPhase hlock (by simp)
  | permit holder phase next hlock hphase hnext =>
    exact h.setPhase hlock (by rcases hnext with rfl | rfl <;> simp)
  | close holder phase hlock => exact h.setPhase hlock (by simp)
  | skip holder hlock hsealable =>
    refine h.finish hlock fun id call hholder hflush ↦ ?_
    exact h.sealed_already hreach hflush hsealable
  | yield hlock => exact h.finish hlock fun id call hholder ↦ absurd hholder (by simp)
  | fail holder phase err hlock => exact h.finish hlock fun _ _ _ _ ↦ trivial
  | report holder hlock =>
    have hreported : FlushesValid { w with progress := w.progress.pipelineGone.2 } :=
      h.frame (.of_trace rfl) rfl fun _ _ hheld ↦ hheld
    exact hreported.finish hlock fun _ _ _ _ ↦ trivial
  | cut holder hlock => exact flushesValid_cut hreach h hlock hreach'
  | send holder sealed hlock =>
    have hsent : FlushesValid { w with
        pipe := { w.pipe with queue := w.pipe.queue ++ [sealed] }
        trace := { w.trace with sent := w.trace.sent ++ [sealed.fileMeta] } } :=
      h.frame ⟨List.Subset.refl _, List.Subset.refl _, List.Subset.refl _⟩ rfl
        fun _ _ hheld ↦ hheld
    refine hsent.finish hlock fun id call hholder hflush e he ↦ ?_
    have hvalid := h.task id
    rw [show w.flushes id = _ from hflush] at hvalid
    obtain ⟨last, hlast, hupTo⟩ :=
      hreach.inFile_lastSealed (hvalid.2 sealed (hholder ▸ hlock) e he)
    obtain rfl : last = sealed.fileMeta.serialSeq :=
      Option.some.inj (hlast.symm.trans (hreach.sending_last hlock))
    exact hupTo

end Reachable

/-! ### Over a whole run -/

theorem flushesValid_step {epochMs : Nat} {stagedOffset resumePersisted : Option Int}
    {action : Action β} (hreach : ReachableFrom cfg epochMs stagedOffset resumePersisted w)
    (h : FlushesValid w) (hstep : w.step cfg action = some w') : FlushesValid w' := by
  have hstill (hlock : w'.lock = w.lock) (hflushes : w'.flushes = w.flushes) : FlushesValid w' :=
    h.frame (step_grows hstep) hflushes fun id phase hheld ↦ hlock ▸ hheld
  cases action with
  | flushCall => exact flushesValid_flushCall h hstep
  | flushLookup => exact flushesValid_flushLookup hreach h hstep
  | flushAwait => exact flushesValid_flushAwait hreach h hstep
  | flushRead => exact flushesValid_flushRead hreach h hstep
  | tryLock | acquire | stall => exact flushesValid_sealer h hstep rfl
  | handOver => exact flushesValid_handOver hreach h hstep (Reachable.snoc hreach hstep)
  | persistBegin | persistRecheck | persistWrite => exact flushesValid_persist h hstep rfl
  | tick | tickerCheck =>
    obtain ⟨task, rfl, -⟩ := ticker_cases hstep rfl
    exact hstill rfl rfl
  | fence | serialViolation | notifierStops =>
    exact hstill (Option.some.inj hstep ▸ rfl) (Option.some.inj hstep ▸ rfl)
  | appendCall | appendPush | appendUnbuffer =>
    obtain ⟨-, hlock, hflushes, -⟩ := appends_frame hstep rfl
    exact hstill hlock hflushes
  | receive | attempt | renderEnds | gzipEnds | putEnds | giveUp | calibrate | send | order
  | confirm | record | announce | land =>
    obtain ⟨-, hlock, hflushes, -⟩ := stage_frame hstep rfl
    exact hstill hlock hflushes

theorem ReachableFrom.flushesValid {epochMs : Nat} {stagedOffset resumePersisted : Option Int}
    (hreach : ReachableFrom cfg epochMs stagedOffset resumePersisted w) : FlushesValid w := by
  induction hreach with
  | refl => exact ⟨by simp [Writer.new], fun _ ↦ trivial⟩
  | tail hbefore hlast ih =>
    obtain ⟨action, -, hstep⟩ := hlast
    exact flushesValid_step hbefore ih hstep

/-- A flush, or the drain of a close, that returned `Ok`: every batch accepted before its call is in
a file whose put returned, and ends at or below the staged offset it returned. -/
def FlushDurable (w : Writer β) : Prop :=
  ∀ id call staged, w.flushes id = .returned call (.ok staged) → ∀ entry ∈ call.before,
    (∃ cut ∈ w.trace.cuts, entry ∈ cut.entries ∧ cut.fileMeta ∈ w.trace.putReturned) ∧
    ∃ offset, staged = some offset ∧ entry.endOffset ≤ offset

theorem flush_durable (cfg : WriterConfig β) (epochMs : Nat)
    (stagedOffset resumePersisted : Option Int)
    (hreach : ReachableFrom cfg epochMs stagedOffset resumePersisted w) : FlushDurable w := by
  intro id call staged hreturned entry hentry
  have hvalid := hreach.flushesValid.task id
  rw [hreturned] at hvalid
  obtain ⟨⟨cut, hcut, hmem, hrecorded⟩, hstaged⟩ := hvalid entry hentry
  have hput : w.trace.recorded <+: w.trace.putReturned := hreach.files.prefixes.1
  exact ⟨⟨cut, hcut, hmem, hput.subset hrecorded⟩, hstaged⟩

/-- The statement at a writer whose flush covered one batch and returned its end. -/
theorem flush_durable_flushed : FlushDurable flushed :=
  flush_durable sampleConfig 1 none none flushed_reachable

end Writer

end RelytIngest
