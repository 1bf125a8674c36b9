import RelytIngest.Writer.AllOrNothing
import RelytIngest.Writer.Files

/-!
# The bookkeeping of the writer's state

Most of what the state lock guards is redundant: totals of the buffer, the highest offset taken, the
files in flight, the last seq sealed. Each is updated on its own, by an append, a batch taken back,
a seal or `record_durable`. `state_consistent` says that they agree with the buffer and with what
happened so far in every reachable state of a writer.

The files noted as in flight are those sealed and not yet recorded durable (`Files.Noted`): a seal
notes a serial seq above all the others, so recording a file strikes out that file alone.
-/

set_option autoImplicit false
set_option relaxedAutoImplicit false

namespace RelytIngest

open Foundations

namespace Files

variable {request : FileMeta → NotifyRequest} {recovered : Option Int} {f f' : Files}

/-- The files that are cut and not recorded. -/
def unrecorded (f : Files) : List FileMeta := f.cuts.filter fun m ↦ decide (m ∉ f.recorded)

/-- The files noted as in flight are the ones not recorded. -/
def Noted (f : Files) : Prop := f.inFlight = f.unrecorded.map FileMeta.serialSeq

/-- Every recorded file was cut, and so was the one being recorded. -/
theorem Ordered.recorded_subset (h : f.Ordered request recovered) : f.recorded ⊆ f.cuts := by
  rw [h.conserved, List.append_assoc]
  exact fun m hm ↦ List.mem_append_left _ (h.prefixes.1.subset hm)

theorem Ordered.recording_mem (h : f.Ordered request recovered) {m : FileMeta}
    (hplace : f.place = .recording m) : m ∈ f.cuts := by
  have hvalid := h.place
  simp only [PlaceValid, hplace] at hvalid
  rw [h.conserved, hvalid.1]
  simp

/-- A file that is cut is not recorded. -/
theorem Ordered.unrecorded_cut (h : f.Ordered request recovered) {m : FileMeta}
    (hnew : m ∉ f.cuts) {handover : List FileMeta} {inFlight : List Int} :
    ({ f with cuts := f.cuts ++ [m], handover := handover, inFlight := inFlight } :
      Files).unrecorded = f.unrecorded ++ [m] := by
  have hfresh : m ∉ f.recorded := fun hm ↦ hnew (h.recorded_subset hm)
  simp [unrecorded, List.filter_append, hfresh]

/-- Striking out the seq of a file strikes out the file, where the seqs are distinct. -/
theorem filter_serialSeq {files : List FileMeta} {m : FileMeta}
    (hdistinct : ∀ other ∈ files, other.serialSeq = m.serialSeq → other = m) :
    (files.map FileMeta.serialSeq).filter (fun serialSeq ↦ decide (serialSeq ≠ m.serialSeq)) =
      (files.filter fun other ↦ decide (other ≠ m)).map FileMeta.serialSeq := by
  rw [List.filter_map]
  refine congrArg (List.map FileMeta.serialSeq) (List.filter_congr fun other hother ↦ ?_)
  have hiff : other.serialSeq = m.serialSeq ↔ other = m :=
    ⟨hdistinct other hother, fun heq ↦ heq ▸ rfl⟩
  simp [hiff]

theorem Noted.move (h : f.Noted) (hordered : f.Ordered request recovered)
    (hincreasing : f'.cuts.Pairwise fun first second ↦ first.serialSeq < second.serialSeq)
    (hmove : Move request f f') : f'.Noted := by
  cases hmove with
  | cut m hfree =>
    have hnew : m ∉ f.cuts := by
      intro hm
      have hlt := (List.pairwise_append.mp hincreasing).2.2 m hm m (List.mem_singleton_self m)
      omega
    rw [Noted, hordered.unrecorded_cut hnew, List.map_append, ← h]
    rfl
  | record m hplace =>
    have hm := hordered.recording_mem hplace
    have hseqs : (f.cuts.map FileMeta.serialSeq).Nodup :=
      List.pairwise_map.mpr (hincreasing.imp fun hlt ↦ hlt.ne)
    have hdistinct (other : FileMeta) (hother : other ∈ f.unrecorded)
        (hsame : other.serialSeq = m.serialSeq) : other = m :=
      List.inj_on_of_nodup_map hseqs (List.mem_of_mem_filter hother) hm hsame
    have hstruck := filter_serialSeq hdistinct
    rw [← h, unrecorded, List.filter_filter] at hstruck
    refine hstruck.trans (congrArg _ (List.filter_congr fun other _ ↦ ?_))
    simp [not_or, and_comm]
  | send | put | confirm | announce | land | stop | silence => exact h

end Files

namespace Writer

variable {β : Type} {cfg : WriterConfig β} {w : Writer β} {epochMs : Nat}
  {stagedOffset resumePersisted : Option Int}

theorem ReachableFrom.cuts_increasing
    (hreach : ReachableFrom cfg epochMs stagedOffset resumePersisted w) :
    w.files.cuts.Pairwise fun first second ↦ first.serialSeq < second.serialSeq :=
  List.pairwise_map.mpr hreach.rows.2.increasing

theorem ReachableFrom.noted
    (hreach : ReachableFrom cfg epochMs stagedOffset resumePersisted w) : w.files.Noted := by
  refine hreach.strengthened (fun w ↦ w.files.Noted) rfl ?_
  intro before action after hbefore h _ hstep
  rcases (Relation.reflGen_iff ..).mp (files_step hstep) with hsame | hmove
  · exact hsame ▸ h
  · have hordered := ReachableFrom.files hbefore
    have hafter : ReachableFrom cfg epochMs stagedOffset resumePersisted after :=
      Reachable.snoc hbefore hstep
    exact h.move hordered hafter.cuts_increasing hmove

/-- The entry that `unbuffer` takes out was in the buffer. -/
theorem unbuffer_mem {st after : WriterState β} {startOffset endOffset : Int}
    {prevMaxEnd : Option Int} {taken : Entry β}
    (hunbuffer : st.unbuffer cfg startOffset endOffset prevMaxEnd = some (taken, after)) :
    taken ∈ st.buffered := by
  unfold WriterState.unbuffer at hunbuffer
  split at hunbuffer
  · simp at hunbuffer
  · split at hunbuffer
    · simp at hunbuffer
    · next entry hentry =>
      obtain ⟨rfl, -⟩ := Prod.mk.inj (Option.some.inj hunbuffer)
      exact List.mem_of_getElem? hentry

/-- The last of increasing numbers is the largest. -/
theorem max?_of_increasing {numbers : List Int} (hincreasing : numbers.Pairwise (· < ·)) :
    numbers.max? = numbers.getLast? := by
  cases hlast : numbers.getLast? with
  | none => rw [List.getLast?_eq_none_iff.mp hlast, List.max?_nil]
  | some last =>
    obtain ⟨earlier, rfl⟩ := List.getLast?_eq_some_iff.mp hlast
    refine List.max?_eq_some_iff.mpr ⟨List.mem_append_right _ (List.mem_singleton_self _), ?_⟩
    intro number hnumber
    rcases List.mem_append.mp hnumber with hearlier | hlast
    · exact ((List.pairwise_append.mp hincreasing).2.2 _ hearlier _ (List.mem_singleton_self _)).le
    · exact (List.mem_singleton.mp hlast).le

/-- What the fields of the state say about the buffer and about what happened so far. -/
structure Consistent (cfg : WriterConfig β) (w : Writer β) : Prop where
  bufferedRows : w.st.bufferedRows = (w.st.buffered.map fun e ↦ cfg.numRows e.batch).sum
  bufferedBytes :
    w.st.bufferedBytesEstimate = (w.st.buffered.map fun e ↦ cfg.memorySize e.batch).sum
  /-- The subtractions of `unbuffer` never saturate. -/
  unsaturated : ∀ startOffset endOffset prevMaxEnd taken st,
    w.st.unbuffer cfg startOffset endOffset prevMaxEnd = some (taken, st) →
      cfg.numRows taken.batch ≤ w.st.bufferedRows ∧
        cfg.memorySize taken.batch ≤ w.st.bufferedBytesEstimate
  oldestBufferedAt : w.st.oldestBufferedAt.isSome ↔ w.st.buffered ≠ []
  range : ∀ e ∈ w.st.buffered, e.startOffset ≤ e.endOffset
  ranges : w.st.buffered.Pairwise fun first second ↦ first.endOffset < second.startOffset
  aboveSealed : ∀ cut ∈ w.trace.cuts, ∀ e ∈ w.st.buffered,
    cut.fileMeta.file.endOffset < e.startOffset
  /-- The end of the last batch pushed and not taken back. -/
  maxEndOffset : w.st.maxEndOffset = (w.trace.pushed.filter fun e ↦
    decide (e.call ∉ w.trace.takenBack)).getLast?.map Entry.endOffset
  /-- The sealed files not yet recorded durable. -/
  inFlight : w.st.inFlight.map Prod.fst = ((w.trace.cuts.map Cut.fileMeta).filter fun m ↦
    decide (m ∉ w.trace.recorded)).map FileMeta.serialSeq
  /-- The largest serial seq sealed. -/
  lastSealedSeq : w.st.lastSealedSeq = (w.trace.cuts.map fun cut ↦ cut.fileMeta.serialSeq).max?

/-- The redundant fields of the state agree with the buffer and the history in every state that a
writer reaches. -/
theorem state_consistent (cfg : WriterConfig β) (epochMs : Nat)
    (stagedOffset resumePersisted : Option Int)
    (hreach : ReachableFrom cfg epochMs stagedOffset resumePersisted w) : w.Consistent cfg := by
  obtain ⟨hbalanced, hnamed⟩ := hreach.rows
  obtain ⟨htotals, -⟩ := hreach.outcomes
  have hranges := List.pairwise_append.mp hbalanced.ranges
  have hrows : w.st.bufferedRows = (w.st.buffered.map fun e ↦ cfg.numRows e.batch).sum :=
    htotals.rows
  have hbytes :
      w.st.bufferedBytesEstimate = (w.st.buffered.map fun e ↦ cfg.memorySize e.batch).sum :=
    htotals.bytes
  constructor
  case bufferedRows => exact hrows
  case bufferedBytes => exact hbytes
  case unsaturated =>
    intro startOffset endOffset prevMaxEnd taken st hunbuffer
    have htaken := unbuffer_mem hunbuffer
    rw [hrows, hbytes]
    exact ⟨List.le_sum_of_mem (List.mem_map_of_mem htaken),
      List.le_sum_of_mem (List.mem_map_of_mem htaken)⟩
  case oldestBufferedAt =>
    have holdest : w.st.oldestBufferedAt = none ↔ w.st.buffered = [] := htotals.oldest
    rw [Option.isSome_iff_ne_none, Ne, holdest]
  case range => exact fun e he ↦ (hbalanced.range e (List.mem_append_right _ he)).2
  case ranges => exact hranges.2.1
  case aboveSealed =>
    intro cut hcut e he
    obtain ⟨last, hlast, hend⟩ := (hnamed.wellFormed cut hcut).last_entry
    rw [← hend]
    exact hranges.2.2 last (List.mem_flatMap.mpr ⟨cut, hcut, hlast⟩) e he
  case maxEndOffset =>
    have hkept : w.rows.kept = w.trace.pushed.filter fun e ↦ decide (e.call ∉ w.trace.takenBack) :=
      hbalanced.kept_eq
    rw [← hkept]
    exact hbalanced.maxEnd
  case inFlight => exact hreach.noted
  case lastSealedSeq =>
    have hincreasing : (w.trace.cuts.map fun cut ↦ cut.fileMeta.serialSeq).Pairwise (· < ·) :=
      List.pairwise_map.mpr hnamed.increasing
    rw [max?_of_increasing hincreasing, List.getLast?_map]
    exact hnamed.lastSealed

/-- A writer with one file recorded and one batch in the buffer. -/
theorem state_consistent_flushed : flushed.Consistent sampleConfig :=
  state_consistent sampleConfig 1 none none flushed_reachable

end Writer

end RelytIngest
