import RelytIngest.Writer.Balance

/-!
# The sealed files

`Rows.Named epoch` is what holds of the files a writer of session epoch `epoch` has sealed: each
carries the batches of its entries under the encoded names of its range, which goes from the start
of its first entry to the end of its last, and the serial seqs increase. The seq to use next is
above all of them.
-/

set_option autoImplicit false
set_option relaxedAutoImplicit false

namespace RelytIngest

open Foundations Relation

/-- The names of a file that were encoded for it. -/
theorem WriterState.sealMeta_ok {β : Type} {cfg : WriterConfig β} {file : StagedFile} {m : FileMeta}
    (hmeta : sealMeta cfg file = .ok m) :
    m.file = file ∧ file.epochMs ≤ MAX_EPOCH_MS ∧ file.seq ≤ MAX_SEQ ∧
      m.serialSeq = file.packed ∧ m.identifier = file.identifierText cfg.ident ∧
      m.objectKey = file.objectKey cfg.ident := by
  simp only [sealMeta, except_bind_eq_ok_iff, StagedFile.serialSeq_eq_ok_iff] at hmeta
  obtain ⟨serialSeq, ⟨hepoch, hseq, rfl⟩, identifier, hidentifier, hresult⟩ := hmeta
  obtain rfl := Except.ok.inj hresult
  exact ⟨rfl, hepoch, hseq, rfl, StagedFile.identifier_eq_ok hidentifier, rfl⟩

/-- A sealed file holds the batches of its entries under the names of their range. -/
structure Cut.WellFormed {β : Type} (cfg : WriterConfig β) (cut : Cut β) : Prop where
  batches : cut.file.batches = cut.entries.map Entry.batch
  first : cut.entries.head?.map Entry.startOffset = some cut.fileMeta.file.startOffset
  last : cut.entries.getLast?.map Entry.endOffset = some cut.fileMeta.file.endOffset
  compressed : cut.fileMeta.file.compressed = cfg.compressed
  named : WriterState.sealMeta cfg cut.fileMeta.file = .ok cut.fileMeta

namespace Cut.WellFormed

variable {β : Type} {cfg : WriterConfig β} {cut : Cut β}

theorem serialSeq (h : cut.WellFormed cfg) : cut.fileMeta.serialSeq = cut.fileMeta.file.packed :=
  (WriterState.sealMeta_ok h.named).2.2.2.1

theorem encodes (h : cut.WellFormed cfg) :
    cut.fileMeta.file.epochMs ≤ MAX_EPOCH_MS ∧ cut.fileMeta.file.seq ≤ MAX_SEQ :=
  ⟨(WriterState.sealMeta_ok h.named).2.1, (WriterState.sealMeta_ok h.named).2.2.1⟩

/-- The end offset of a file is that of one of its entries. -/
theorem last_entry (h : cut.WellFormed cfg) :
    ∃ last ∈ cut.entries, last.endOffset = cut.fileMeta.file.endOffset := by
  obtain ⟨last, hlast, hend⟩ := Option.map_eq_some_iff.mp h.last
  exact ⟨last, List.mem_of_getLast? hlast, hend⟩

end Cut.WellFormed

section Range

variable {β : Type}

/-- The least start of entries in order is that of the first. -/
theorem foldl_min_start {first : Entry β} {rest : List (Entry β)}
    (hfirst : ∀ e ∈ rest, first.startOffset ≤ e.startOffset) :
    rest.foldl (fun least e ↦ min least e.startOffset) first.startOffset = first.startOffset := by
  induction rest with
  | nil => rfl
  | cons e rest ih =>
    rw [List.foldl_cons, min_eq_left (hfirst e List.mem_cons_self)]
    exact ih fun other hother ↦ hfirst other (List.mem_cons_of_mem e hother)

/-- The greatest end of entries in order is that of the last. -/
theorem foldl_max_end {first : Entry β} {rest : List (Entry β)}
    (hends : (first :: rest).Pairwise fun a b ↦ a.endOffset ≤ b.endOffset) :
    (first :: rest).getLast?.map Entry.endOffset =
      some (rest.foldl (fun most e ↦ max most e.endOffset) first.endOffset) := by
  induction rest generalizing first with
  | nil => rfl
  | cons e rest ih =>
    rw [List.pairwise_cons] at hends
    rw [List.foldl_cons, max_eq_right (hends.1 e List.mem_cons_self), List.getLast?_cons_cons]
    exact ih hends.2

end Range

namespace Rows

variable {β : Type} {cfg : WriterConfig β} {r r' : Rows β}

/-- What holds of the sealed files of a writer of a session epoch. -/
structure Named (cfg : WriterConfig β) (epoch : Nat) (r : Rows β) : Prop where
  wellFormed : ∀ cut ∈ r.cuts, cut.WellFormed cfg
  increasing : r.cuts.Pairwise fun a b ↦ a.fileMeta.serialSeq < b.fileMeta.serialSeq
  below : ∀ cut ∈ r.cuts, cut.fileMeta.serialSeq < r.st.epochMs * 2 ^ 20 + r.st.nextSeq
  nextSeq_le : r.st.nextSeq ≤ MAX_SEQ + 1
  epoch_le : epoch ≤ r.st.epochMs
  epochs : ∀ cut ∈ r.cuts, epoch ≤ cut.fileMeta.file.epochMs
  lastSealed : r.st.lastSealedSeq = r.cuts.getLast?.map fun cut ↦ cut.fileMeta.serialSeq

theorem named_new (cfg : WriterConfig β) (epochMs : Nat)
    (stagedOffset resumePersisted : Option Int) :
    (Writer.new epochMs stagedOffset resumePersisted : Writer β).rows.Named cfg epochMs where
  wellFormed := by simp [Writer.rows, Writer.new]
  increasing := List.Pairwise.nil
  below := by simp [Writer.rows, Writer.new]
  nextSeq_le := Nat.zero_le _
  epoch_le := le_rfl
  epochs := by simp [Writer.rows, Writer.new]
  lastSealed := rfl

/-- A roll-over leaves room for one more seq, above every seq used. -/
theorem Named.rolled {epoch : Nat} (h : r.Named cfg epoch) :
    r.st.rolled.nextSeq ≤ MAX_SEQ ∧ epoch ≤ r.st.rolled.epochMs ∧
      ∀ cut ∈ r.cuts, cut.fileMeta.serialSeq <
        r.st.rolled.epochMs * 2 ^ 20 + r.st.rolled.nextSeq := by
  have hmax := maxSeq_eq
  have hnext := h.nextSeq_le
  have hepoch := h.epoch_le
  unfold WriterState.rolled
  split_ifs with hfull
  · refine ⟨Nat.zero_le _, hepoch.trans (Nat.le_succ _), fun cut hcut ↦ ?_⟩
    have := h.below cut hcut
    push_cast
    omega
  · exact ⟨not_lt.mp hfull, hepoch, h.below⟩

/-- The file a seal makes. -/
theorem Named.cut {epoch now : Nat} {agedOnly : Bool} {sealed : Sealed β} {st : WriterState β}
    (h : r.Named cfg epoch) (hbalanced : r.Balanced)
    (hseal : r.st.sealBuffer cfg now agedOnly = (.ok (some sealed), st)) :
    ({ r with st := st.core, cuts := r.cuts ++ [⟨sealed, r.st.buffered⟩] } : Rows β).Named
      cfg epoch := by
  obtain ⟨first, rest, hbuffered, hmeta, hbatches, rfl⟩ := WriterState.sealBuffer_some hseal
  obtain ⟨hfile, hepochMs, hseq, hserial, -, -⟩ := WriterState.sealMeta_ok hmeta
  obtain ⟨hnext, hepoch, hbelow⟩ := h.rolled
  have hpacked : sealed.fileMeta.serialSeq =
      r.st.rolled.epochMs * 2 ^ 20 + r.st.rolled.nextSeq := hserial
  have hranges : (first :: rest).Pairwise fun a b ↦ a.endOffset < b.startOffset := by
    have := hbalanced.ranges
    rw [kept, List.pairwise_append, hbuffered] at this
    exact this.2.1
  have hrange : ∀ e ∈ first :: rest, e.startOffset ≤ e.endOffset := fun e he ↦
    (hbalanced.range e (List.mem_append_right _ (hbuffered ▸ he))).2
  have hwellFormed : (⟨sealed, r.st.buffered⟩ : Cut β).WellFormed cfg := by
    refine ⟨hbatches, ?_, ?_, ?_, ?_⟩
    · simp only [Cut.fileMeta, hfile, hbuffered, WriterState.sealFile, List.head?_cons,
        Option.map_some]
      rw [foldl_min_start fun e he ↦ ?_]
      exact (hrange first List.mem_cons_self).trans (List.rel_of_pairwise_cons hranges he).le
    · simp only [Cut.fileMeta, hfile, hbuffered, WriterState.sealFile]
      exact foldl_max_end (hranges.imp_of_mem fun {a b} _ hb hlt ↦ hlt.le.trans (hrange b hb))
    · simp only [Cut.fileMeta, hfile, WriterState.sealFile]
    · rw [Cut.fileMeta, hfile]
      exact hmeta
  constructor
  case wellFormed =>
    intro cut hcut
    rcases List.mem_append.mp hcut with hold | hnew
    · exact h.wellFormed cut hold
    · exact List.mem_singleton.mp hnew ▸ hwellFormed
  case increasing =>
    refine List.pairwise_append.mpr ⟨h.increasing, List.pairwise_singleton _ _, ?_⟩
    intro cut hcut last hlast
    rw [List.mem_singleton.mp hlast]
    exact (hbelow cut hcut).trans_eq hpacked.symm
  case below =>
    intro cut hcut
    simp only [WriterState.sealedState, WriterState.core]
    rcases List.mem_append.mp hcut with hold | hnew
    · have := hbelow cut hold
      push_cast
      omega
    · rw [List.mem_singleton.mp hnew, Cut.fileMeta, hpacked]
      push_cast
      omega
  case nextSeq_le => exact Nat.succ_le_succ hnext
  case epoch_le => exact hepoch
  case epochs =>
    intro cut hcut
    rcases List.mem_append.mp hcut with hold | hnew
    · exact h.epochs cut hold
    · rw [List.mem_singleton.mp hnew, Cut.fileMeta, hfile]
      exact hepoch
  case lastSealed => rw [List.getLast?_concat]; rfl

theorem Named.move {epoch : Nat} (h : r.Named cfg epoch) (hbalanced : r.Balanced)
    (hmove : Move cfg r r') : r'.Named cfg epoch := by
  cases hmove with
  | refuse | check | reject | push | accept | fail | keep =>
    exact ⟨h.wellFormed, h.increasing, h.below, h.nextSeq_le, h.epoch_le, h.epochs, h.lastSealed⟩
  | takeBack entry maxEndBefore err taken st hpending hunbuffer =>
    obtain ⟨buffer, -, -, -, rfl, -⟩ := hbalanced.unbuffer_some hpending hunbuffer
    exact ⟨h.wellFormed, h.increasing, h.below, h.nextSeq_le, h.epoch_le, h.epochs, h.lastSealed⟩
  | cut now agedOnly sealed st hseal => exact h.cut hbalanced hseal
  | roll now agedOnly err st hseal =>
    obtain ⟨rfl, -⟩ := WriterState.sealBuffer_error hseal
    obtain ⟨hnext, hepoch, hbelow⟩ := h.rolled
    refine ⟨h.wellFormed, h.increasing, hbelow, Nat.le_succ_of_le hnext, hepoch, h.epochs, ?_⟩
    rw [WriterState.rolled_eq]
    exact h.lastSealed

end Rows

namespace Writer

variable {β : Type} {cfg : WriterConfig β} {epochMs : Nat}
  {stagedOffset resumePersisted : Option Int} {w : Writer β}

/-- The ledger of a reachable writer balances, and its files are well formed and in order. -/
theorem ReachableFrom.rows (hreach : ReachableFrom cfg epochMs stagedOffset resumePersisted w) :
    w.rows.Balanced ∧ w.rows.Named cfg epochMs := by
  have hstart : (new epochMs stagedOffset resumePersisted : Writer β).rows.Balanced ∧
      (new epochMs stagedOffset resumePersisted : Writer β).rows.Named cfg epochMs :=
    ⟨Rows.balanced_new .., Rows.named_new ..⟩
  have hpreserved (r r' : Rows β) (h : r.Balanced ∧ r.Named cfg epochMs)
      (hmove : Rows.Move cfg r r') : r'.Balanced ∧ r'.Named cfg epochMs :=
    ⟨h.1.move hmove, h.2.move h.1 hmove⟩
  exact refines_rows.invariant hstart hpreserved hreach

end Writer

end RelytIngest
