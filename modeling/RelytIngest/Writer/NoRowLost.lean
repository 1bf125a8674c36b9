import RelytIngest.Writer.Files

/-!
# No row is lost between append and the notify queue

`NoRowLost` says, of one state of a writer, that the sealed files and the buffer hold exactly the
batches pushed and not taken back, in append order and each once, and that the files enter the seal
channel, are put and are announced in the order of their serial seqs. `no_row_lost` proves it of
every reachable state, from the balance of the ledger and the order of the conveyor.
-/

set_option autoImplicit false
set_option relaxedAutoImplicit false

namespace RelytIngest.Writer

open Foundations

variable {β : Type} {cfg : WriterConfig β} {w : Writer β}

/-- The entries pushed and not taken back. -/
def kept (w : Writer β) : List (Entry β) :=
  w.trace.pushed.filter fun e ↦ decide (e.call ∉ w.trace.takenBack)

/-- Every row is in its place, and every file in its turn. -/
structure NoRowLost (cfg : WriterConfig β) (w : Writer β) : Prop where
  /-- The calls push in order, each at most once. -/
  calls : w.trace.pushed.Pairwise fun first second ↦ first.call < second.call
  entries : w.trace.cuts.flatMap Cut.entries ++ w.st.buffered = w.kept
  batches : w.trace.cuts.flatMap (fun cut ↦ cut.file.batches) ++ w.st.buffered.map Entry.batch =
    w.kept.map Entry.batch
  serialOrder : w.trace.cuts.Pairwise fun a b ↦ a.fileMeta.serialSeq < b.fileMeta.serialSeq
  sentOrder : w.trace.sent.Pairwise fun a b ↦ a.serialSeq < b.serialSeq
  sent : w.trace.sent <+: w.trace.cuts.map Cut.fileMeta
  putReturned : w.trace.putReturned <+: w.trace.cuts.map Cut.fileMeta
  notified : w.trace.notified <+: w.trace.putReturned.map (notifyRequest cfg)

/-- In every reachable state, no row is lost, duplicated or reordered. -/
theorem no_row_lost (cfg : WriterConfig β) (epochMs : Nat)
    (stagedOffset resumePersisted : Option Int)
    (hreach : ReachableFrom cfg epochMs stagedOffset resumePersisted w) : NoRowLost cfg w := by
  obtain ⟨hbalanced, hnamed⟩ := hreach.rows
  have hfiles := hreach.files
  have hserial : (w.trace.cuts.map Cut.fileMeta).Pairwise fun a b ↦ a.serialSeq < b.serialSeq :=
    List.pairwise_map.mpr hnamed.increasing
  have hsent : w.trace.sent <+: w.trace.cuts.map Cut.fileMeta := by
    have hsplit : w.trace.cuts.map Cut.fileMeta = w.trace.sent ++ w.handover := hfiles.sent_eq
    exact hsplit ▸ List.prefix_append _ _
  constructor
  case calls => exact hbalanced.calls
  case entries => exact hbalanced.kept_eq
  case batches =>
    have hbatches : w.trace.cuts.flatMap (fun cut ↦ cut.file.batches) =
        (w.trace.cuts.flatMap Cut.entries).map Entry.batch := by
      rw [List.map_flatMap]
      exact List.flatMap_congr fun cut hcut ↦ (hnamed.wellFormed cut hcut).batches
    have hentries : w.trace.cuts.flatMap Cut.entries ++ w.st.buffered = w.kept := hbalanced.kept_eq
    rw [hbatches, ← List.map_append, hentries]
  case serialOrder => exact hnamed.increasing
  case sentOrder => exact hserial.sublist hsent.sublist
  case sent => exact hsent
  case putReturned =>
    have hsplit :
        w.trace.cuts.map Cut.fileMeta = w.trace.putReturned ++ w.pipe.line ++ w.handover :=
      hfiles.conserved
    rw [hsplit, List.append_assoc]
    exact List.prefix_append _ _
  case notified =>
    obtain ⟨hrecorded, hnotified⟩ := hfiles.prefixes
    exact hnotified.trans (hrecorded.map (notifyRequest cfg))

/-- The statement at a writer that staged one file and buffers another batch. -/
theorem no_row_lost_flushed : NoRowLost sampleConfig flushed :=
  no_row_lost sampleConfig 1 none none flushed_reachable

end RelytIngest.Writer
