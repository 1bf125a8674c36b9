import RelytIngest.Writer.SealedFiles

/-!
# Seals are numbered densely

`Rows.Dense epoch` is the invariant of the numbering: the `n`-th file sealed in a session has the
serial seq `n` above the first of the session epoch, across every roll-over, and the next seal
continues there. `ReachableFrom.sealed_packed` reads it off the sealed files of a reachable writer.
-/

set_option autoImplicit false
set_option relaxedAutoImplicit false

namespace RelytIngest

open Foundations Relation

namespace Rows

variable {β : Type} {cfg : WriterConfig β} {r r' : Rows β}

/-- The serial seqs of the first `count` files of a session. -/
def serialsFrom (epoch count : Nat) : List Int :=
  (List.range count).map fun n : Nat ↦ (epoch : Int) * 2 ^ 20 + n

theorem serialsFrom_succ (epoch count : Nat) :
    serialsFrom epoch (count + 1) =
      serialsFrom epoch count ++ [(epoch : Int) * 2 ^ 20 + count] := by
  simp [serialsFrom, List.range_succ]

/-- The files sealed so far are numbered from the start of the session epoch, and so is the next. -/
structure Dense (epoch : Nat) (r : Rows β) : Prop where
  next : (r.st.epochMs : Int) * 2 ^ 20 + r.st.nextSeq = (epoch : Int) * 2 ^ 20 + r.cuts.length
  serials : r.cuts.map (fun cut ↦ cut.fileMeta.serialSeq) = serialsFrom epoch r.cuts.length

theorem dense_new (epochMs : Nat) (stagedOffset resumePersisted : Option Int) :
    (Writer.new epochMs stagedOffset resumePersisted : Writer β).rows.Dense epochMs :=
  ⟨by simp [Writer.rows, Writer.new, WriterState.core, WriterState.initial], rfl⟩

/-- A roll-over keeps the number of the next file. -/
theorem rolled_number {st : WriterState β} (hnext : st.nextSeq ≤ MAX_SEQ + 1) :
    (st.rolled.epochMs : Int) * 2 ^ 20 + st.rolled.nextSeq =
      (st.epochMs : Int) * 2 ^ 20 + st.nextSeq := by
  have hmax := maxSeq_eq
  unfold WriterState.rolled
  split_ifs with hfull
  · push_cast
    omega
  · rfl

theorem Dense.move {epoch : Nat} (h : r.Dense epoch) (hbalanced : r.Balanced)
    (hnamed : r.Named cfg epoch) (hmove : Move cfg r r') : r'.Dense epoch := by
  cases hmove with
  | refuse | check | reject | push | accept | fail | keep => exact ⟨h.next, h.serials⟩
  | takeBack entry maxEndBefore err taken st hpending hunbuffer =>
    obtain ⟨buffer, -, -, -, rfl, -⟩ := hbalanced.unbuffer_some hpending hunbuffer
    exact ⟨h.next, h.serials⟩
  | cut now agedOnly sealed st hseal =>
    obtain ⟨first, rest, -, hmeta, -, rfl⟩ := WriterState.sealBuffer_some hseal
    obtain ⟨-, -, -, hserial, -, -⟩ := WriterState.sealMeta_ok hmeta
    have hnumber : sealed.fileMeta.serialSeq = (epoch : Int) * 2 ^ 20 + r.cuts.length :=
      hserial.trans ((rolled_number hnamed.nextSeq_le).trans h.next)
    constructor
    · have := rolled_number hnamed.nextSeq_le
      have := h.next
      simp only [WriterState.sealedState, WriterState.core, List.length_append,
        List.length_singleton]
      push_cast
      omega
    · rw [List.map_append, List.length_append, List.length_singleton, serialsFrom_succ, h.serials,
        ← hnumber]
      rfl
  | roll now agedOnly err st hseal =>
    obtain ⟨rfl, -⟩ := WriterState.sealBuffer_error hseal
    exact ⟨(rolled_number hnamed.nextSeq_le).trans h.next, h.serials⟩

end Rows

namespace Writer

variable {β : Type} {cfg : WriterConfig β} {epochMs : Nat}
  {stagedOffset resumePersisted : Option Int} {w : Writer β}

theorem ReachableFrom.dense (hreach : ReachableFrom cfg epochMs stagedOffset resumePersisted w) :
    w.rows.Dense epochMs := by
  have hstart : (new epochMs stagedOffset resumePersisted : Writer β).rows.Balanced ∧
      (new epochMs stagedOffset resumePersisted : Writer β).rows.Named cfg epochMs ∧
      (new epochMs stagedOffset resumePersisted : Writer β).rows.Dense epochMs :=
    ⟨Rows.balanced_new .., Rows.named_new .., Rows.dense_new ..⟩
  have hpreserved (r r' : Rows β) (h : r.Balanced ∧ r.Named cfg epochMs ∧ r.Dense epochMs)
      (hmove : Rows.Move cfg r r') : r'.Balanced ∧ r'.Named cfg epochMs ∧ r'.Dense epochMs :=
    ⟨h.1.move hmove, h.2.1.move h.1 hmove, h.2.2.move h.1 h.2.1 hmove⟩
  exact (refines_rows.invariant hstart hpreserved hreach).2.2

/-- The files sealed so far, oldest first. -/
def sealedFiles (w : Writer β) : List StagedFile := w.trace.cuts.map fun cut ↦ cut.fileMeta.file

/-- The packed values of the sealed files count up from the session epoch. -/
theorem ReachableFrom.sealed_packed
    (hreach : ReachableFrom cfg epochMs stagedOffset resumePersisted w) :
    w.sealedFiles.map StagedFile.packed = Rows.serialsFrom epochMs w.sealedFiles.length := by
  obtain ⟨-, hnamed⟩ := hreach.rows
  have hserials := hreach.dense.serials
  rw [sealedFiles, List.map_map, List.length_map, ← show w.rows.cuts.length = w.trace.cuts.length
    from rfl, ← hserials]
  exact List.map_congr_left fun cut hcut ↦ (hnamed.wellFormed cut hcut).serialSeq.symm

/-- The files sealed before the epoch rolls over: there is a seq for each of them in the epoch. -/
def sealedInEpoch (w : Writer β) : List FileMeta :=
  (w.trace.cuts.take (MAX_SEQ + 1)).map Cut.fileMeta

theorem ReachableFrom.epoch_of_sealedInEpoch
    (hreach : ReachableFrom cfg epochMs stagedOffset resumePersisted w) {m : FileMeta}
    (hm : m ∈ w.sealedInEpoch) : m.file.epochMs = epochMs := by
  obtain ⟨cut, hcut, rfl⟩ := List.mem_map.mp hm
  have hwell := hreach.rows.2.wellFormed cut (List.mem_of_mem_take hcut)
  obtain ⟨n, hn, hget⟩ := List.mem_iff_getElem.mp hcut
  rw [List.getElem_take] at hget
  have hcount : n < w.trace.cuts.length := by
    rw [List.length_take] at hn
    exact hn.trans_le (min_le_right _ _)
  have hserials : w.trace.cuts.map (fun cut ↦ cut.fileMeta.serialSeq) =
      Rows.serialsFrom epochMs w.trace.cuts.length := hreach.dense.serials
  have hserial : cut.fileMeta.serialSeq = (epochMs : Int) * 2 ^ 20 + n := by
    have hentry := congrArg (fun serials ↦ serials[n]?) hserials
    simpa [Rows.serialsFrom, hcount, hget] using hentry
  have hpacked := hwell.serialSeq
  have hseq := hwell.encodes.2
  have hmax := maxSeq_eq
  rw [List.length_take] at hn
  simp only [StagedFile.packed] at hpacked
  omega

/-- The range of a sealed file goes from the start of an entry pushed to the end of one, and is not
empty. -/
theorem ReachableFrom.sealed_range
    (hreach : ReachableFrom cfg epochMs stagedOffset resumePersisted w) {file : StagedFile}
    (hfile : file ∈ w.sealedFiles) :
    (∃ e ∈ w.trace.pushed, e.startOffset = file.startOffset) ∧
      (∃ e ∈ w.trace.pushed, e.endOffset = file.endOffset) ∧
      file.startOffset ≤ file.endOffset := by
  obtain ⟨hbalanced, hnamed⟩ := hreach.rows
  obtain ⟨cut, hcut, rfl⟩ := List.mem_map.mp hfile
  have hwell := hnamed.wellFormed cut hcut
  have hkept : ∀ e ∈ cut.entries, e ∈ w.rows.kept := fun e he ↦
    List.mem_append_left _ (List.mem_flatMap.mpr ⟨cut, hcut, he⟩)
  obtain ⟨first, hfirst, hstart⟩ := Option.map_eq_some_iff.mp hwell.first
  obtain ⟨last, hlast, hend⟩ := Option.map_eq_some_iff.mp hwell.last
  have hfirstKept := hkept first (List.mem_of_mem_head? hfirst)
  have hlastKept := hkept last (List.mem_of_getLast? hlast)
  refine ⟨⟨first, hbalanced.mem_pushed hfirstKept, hstart⟩,
    ⟨last, hbalanced.mem_pushed hlastKept, hend⟩, ?_⟩
  rw [← hstart, ← hend]
  have hranges := hbalanced.ranges
  rw [Rows.kept, List.pairwise_append, List.pairwise_flatMap] at hranges
  have hentries := hranges.1.1 cut hcut
  -- the first entry is the last one too, or ends before it starts
  cases hcutEntries : cut.entries with
  | nil => simp [hcutEntries] at hfirst
  | cons entry rest =>
    rw [hcutEntries] at hfirst hlast hentries
    obtain rfl := Option.some.inj hfirst
    rcases List.mem_cons.mp (List.mem_of_getLast? hlast) with rfl | hrest
    · exact (hbalanced.range last hlastKept).2
    · have hbefore := (List.pairwise_cons.mp hentries).1 last hrest
      have hfirstRange := hbalanced.range entry hfirstKept
      have hlastRange := hbalanced.range last hlastKept
      omega

theorem ReachableFrom.sealed_nonneg
    (hreach : ReachableFrom cfg epochMs stagedOffset resumePersisted w) {file : StagedFile}
    (hfile : file ∈ w.sealedFiles) : 0 ≤ file.startOffset := by
  obtain ⟨hbalanced, hnamed⟩ := hreach.rows
  obtain ⟨cut, hcut, rfl⟩ := List.mem_map.mp hfile
  obtain ⟨first, hfirst, hstart⟩ := Option.map_eq_some_iff.mp (hnamed.wellFormed cut hcut).first
  rw [← hstart]
  exact (hbalanced.range first (List.mem_append_left _
    (List.mem_flatMap.mpr ⟨cut, hcut, List.mem_of_mem_head? hfirst⟩))).1

/-- A sealed file ends before the next one starts. -/
theorem ReachableFrom.sealed_ranges
    (hreach : ReachableFrom cfg epochMs stagedOffset resumePersisted w) :
    w.sealedFiles.Pairwise fun first second ↦ first.endOffset < second.startOffset := by
  obtain ⟨hbalanced, hnamed⟩ := hreach.rows
  have hranges := hbalanced.ranges
  rw [Rows.kept, List.pairwise_append, List.pairwise_flatMap] at hranges
  refine List.pairwise_map.mpr (hranges.1.2.imp_of_mem fun {first second} hfirst hsecond h ↦ ?_)
  obtain ⟨last, hlast, hend⟩ := (hnamed.wellFormed first hfirst).last_entry
  obtain ⟨head, hhead, hstart⟩ := Option.map_eq_some_iff.mp (hnamed.wellFormed second hsecond).first
  rw [← hend, ← hstart]
  exact h last hlast head (List.mem_of_mem_head? hhead)

/-- The seq of a sealed file fits. -/
theorem ReachableFrom.sealed_seq_le
    (hreach : ReachableFrom cfg epochMs stagedOffset resumePersisted w) {file : StagedFile}
    (hfile : file ∈ w.sealedFiles) : file.seq ≤ MAX_SEQ := by
  obtain ⟨cut, hcut, rfl⟩ := List.mem_map.mp hfile
  exact (hreach.rows.2.wellFormed cut hcut).encodes.2

end Writer

end RelytIngest
