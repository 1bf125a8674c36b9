import RelytIngest.Foundations.Tiling
import RelytIngest.Writer.DenseSeqs

/-!
# The ranges a writer takes

A consumer that starts at some offset and goes on where it stopped (`Writer.GoesOn`) leaves its
writer with entries laid end to end (`Rows.Taken`), and so are the files it seals
(`Writer.taken_sealedFiles`).
-/

set_option autoImplicit false
set_option relaxedAutoImplicit false

namespace RelytIngest

open Foundations Relation

namespace Rows

variable {β : Type} {cfg : WriterConfig β} {start : Int} {admitted : Entry β → Prop} {r r' : Rows β}

/-- Where a consumer that began at `start` goes on. -/
def position (start : Int) (r : Rows β) : Int := (r.st.maxEndOffset.map (· + 1)).getD start

/-- The range begins where the consumer is, or at an offset that `append` refuses. -/
def GoesOn (start : Int) (r : Rows β) (startOffset : Int) : Prop :=
  startOffset = r.position start ∨ ∃ maxEnd, r.st.maxEndOffset = some maxEnd ∧ startOffset ≤ maxEnd

instance (start : Int) (r : Rows β) (startOffset : Int) : Decidable (r.GoesOn start startOffset) :=
  haveI : Decidable (∃ maxEnd, r.st.maxEndOffset = some maxEnd ∧ startOffset ≤ maxEnd) :=
    decidable_of_iff (r.st.maxEndOffset.any fun maxEnd ↦ decide (startOffset ≤ maxEnd)) (by
      cases r.st.maxEndOffset <;> simp)
  inferInstanceAs (Decidable (_ ∨ _))

/-- The entries accepted are laid end to end from `start`, and each of them was admitted. -/
structure Taken (start : Int) (admitted : Entry β → Prop) (r : Rows β) : Prop where
  tiled : Tiled Entry.startOffset Entry.endOffset start r.kept
  all_admitted : ∀ e ∈ r.kept, admitted e
  checked : ∀ entry, r.task = .checked entry → r.GoesOn start entry.startOffset ∧ admitted entry

theorem taken_new (start : Int) (admitted : Entry β → Prop) (epochMs : Nat)
    (stagedOffset resumePersisted : Option Int) :
    (Writer.new epochMs stagedOffset resumePersisted : Writer β).rows.Taken start admitted where
  tiled := trivial
  all_admitted := by simp [kept, Writer.rows, Writer.new, WriterState.core, WriterState.initial]
  checked entry hchecked := by simp [Writer.rows, Writer.new, AppendTask.rows] at hchecked

/-- The consumer is behind the last entry. -/
theorem Balanced.position_eq (h : r.Balanced) :
    r.position start = tiledTo Entry.endOffset start r.kept := by
  rw [position, h.maxEnd, tiledTo, Option.map_map]
  rfl

/-- A move other than the begin of a call. -/
def Unasked (cfg : WriterConfig β) (r r' : Rows β) : Prop := Move cfg r r' ∧ r'.calls = r.calls

theorem Move.calls_le (hmove : Move cfg r r') : r.calls ≤ r'.calls := by
  cases hmove with
  | refuse | check => exact Nat.le_succ _
  | reject | push | accept | fail | takeBack | keep | cut | roll => exact le_rfl

/-- Moves that begin no call on the whole begin none on the way. -/
theorem unasked_moves (hmoves : ReflTransGen (Move cfg) r r') (hcalls : r'.calls = r.calls) :
    ReflTransGen (Unasked cfg) r r' := by
  have hchain : r.calls ≤ r'.calls ∧ (r'.calls = r.calls → ReflTransGen (Unasked cfg) r r') := by
    clear hcalls
    induction hmoves with
    | refl => exact ⟨le_rfl, fun _ ↦ .refl⟩
    | tail _ hlast ih =>
      have hle := hlast.calls_le
      refine ⟨ih.1.trans hle, fun hsame ↦ ?_⟩
      have hbefore := ih.1
      exact (ih.2 (by omega)).tail ⟨hlast, by omega⟩
  exact hchain.2 hcalls

/-- An entry is pushed where the consumer is. -/
theorem Taken.push {entry : Entry β} {now : Nat} (h : r.Taken start admitted)
    (hbalanced : r.Balanced)
    (hchecked : r.task = .checked entry)
    (hcheck : r.st.checkForward entry.startOffset entry.endOffset = .ok ()) :
    ({ r with
        st := r.st.push cfg now entry
        pushed := r.pushed ++ [entry]
        task := .pending entry r.st.maxEndOffset none } : Rows β).Taken start admitted := by
  obtain ⟨hgoes, hentry⟩ := h.checked entry hchecked
  have hrange := hbalanced.task
  simp only [TaskValid, hchecked] at hrange
  have hkept : ({ r with
      st := r.st.push cfg now entry
      pushed := r.pushed ++ [entry]
      task := .pending entry r.st.maxEndOffset none } : Rows β).kept = r.kept ++ [entry] :=
    (List.append_assoc _ _ _).symm
  have hstart : entry.startOffset = tiledTo Entry.endOffset start r.kept := by
    rcases hgoes with hposition | ⟨maxEnd, hmax, hle⟩
    · rw [hposition, hbalanced.position_eq]
    · exact absurd hle (not_le.mpr (WriterState.checkForward_eq_ok_iff.mp hcheck maxEnd hmax))
  refine ⟨?_, ?_, by simp⟩
  · rw [hkept]
    exact tiled_concat.mpr ⟨h.tiled, hstart, hrange.2.2⟩
  · rw [hkept]
    intro e he
    rcases List.mem_append.mp he with hold | hnew
    · exact h.all_admitted e hold
    · exact List.mem_singleton.mp hnew ▸ hentry

/-- Moves that leave the accepted entries and begin nothing. -/
theorem Taken.congr (h : r.Taken start admitted) (hkept : r'.kept = r.kept)
    (hmax : r'.st.maxEndOffset = r.st.maxEndOffset)
    (htask : ∀ entry, r'.task = .checked entry → r.task = .checked entry) :
    r'.Taken start admitted where
  tiled := hkept ▸ h.tiled
  all_admitted := hkept ▸ h.all_admitted
  checked entry hentry := by
    have hchecked := h.checked entry (htask entry hentry)
    unfold GoesOn position at hchecked ⊢
    rwa [hmax]

theorem Taken.move (h : r.Taken start admitted) (hbalanced : r.Balanced) (hmove : Move cfg r r')
    (hasked : ∀ entry, r'.task = .checked entry → r'.calls = r.calls ∨
      r.GoesOn start entry.startOffset ∧ admitted entry) : r'.Taken start admitted := by
  cases hmove with
  | refuse | reject | accept | fail | keep => exact h.congr rfl rfl (by simp [returns])
  | check entry hidle hcall hrange =>
    refine ⟨h.tiled, h.all_admitted, fun other hother ↦ ?_⟩
    rcases hasked other hother with hsame | hgoes
    · exact absurd hsame (Nat.succ_ne_self r.calls)
    · exact hgoes
  | push entry now hchecked hcheck => exact h.push hbalanced hchecked hcheck
  | takeBack entry maxEndBefore err taken st hpending hunbuffer =>
    obtain ⟨buffer, hbuffered, -, hbuffer, -, -⟩ := hbalanced.unbuffer_some hpending hunbuffer
    have hleading : r.cuts.flatMap Cut.entries ++ st.buffered <+: r.kept := by
      rw [kept, hbuffered, hbuffer, ← List.append_assoc]
      exact List.prefix_append _ _
    exact ⟨h.tiled.leading hleading, fun e he ↦ h.all_admitted e (hleading.subset he),
      by simp [returns]⟩
  | cut now agedOnly sealed st hseal =>
    obtain ⟨first, rest, -, -, -, rfl⟩ := WriterState.sealBuffer_some hseal
    exact h.congr (kept_cut sealed _ rfl) WriterState.rolled_maxEndOffset fun _ htask ↦ htask
  | roll now agedOnly err st hseal =>
    obtain ⟨rfl, -⟩ := WriterState.sealBuffer_error hseal
    exact h.congr (by simp [kept]) WriterState.rolled_maxEndOffset fun _ htask ↦ htask

theorem Taken.moves (h : r.Taken start admitted) (hbalanced : r.Balanced)
    (hmoves : ReflTransGen (Unasked cfg) r r') : r'.Taken start admitted := by
  have hboth : r'.Balanced ∧ r'.Taken start admitted := by
    induction hmoves with
    | refl => exact ⟨hbalanced, h⟩
    | tail _ hlast ih =>
      exact ⟨ih.1.move hlast.1, ih.2.move ih.1 hlast.1 fun _ _ ↦ Or.inl hlast.2⟩
  exact hboth.2

end Rows

namespace Writer

variable {β : Type} {cfg : WriterConfig β} {w w' : Writer β} {start : Int}
  {admitted : Entry β → Prop}

/-- Only a call of `append` begins one. -/
theorem rows_unasked {action : Action β} (hstep : w.step cfg action = some w')
    (haction : ∀ batch startOffset endOffset, action ≠ .appendCall batch startOffset endOffset) :
    ReflTransGen (Rows.Unasked cfg) w.rows w'.rows := by
  cases action with
  | appendCall batch startOffset endOffset => exact absurd rfl (haction batch startOffset endOffset)
  | appendPush now =>
    refine Rows.unasked_moves (rows_appendPush hstep) ?_
    simp only [step, appendPush] at hstep
    split at hstep
    · obtain rfl := Option.some.inj hstep
      split
      · rfl
      · split_ifs <;> rfl
    · simp at hstep
  | appendUnbuffer =>
    refine Rows.unasked_moves (rows_appendUnbuffer hstep) ?_
    simp only [step, appendUnbuffer] at hstep
    split at hstep
    · obtain rfl := Option.some.inj hstep
      split <;> rfl
    · simp at hstep
  | _ =>
    exact ReflTransGen.mono (fun _ _ hmove ↦ ⟨hmove.1, hmove.2.1⟩) _ _ (rows_proceeds hstep rfl)

/-- What a call of `append` leaves to check is the batch it was called with. -/
theorem taken_appendCall {batch : β} {startOffset endOffset : Int}
    (h : w.rows.Taken start admitted)
    (hstep : w.appendCall cfg batch startOffset endOffset = some w')
    (hgoes : w.rows.GoesOn start startOffset)
    (hadmitted : admitted ⟨w.trace.calls, batch, startOffset, endOffset⟩) :
    w'.rows.Taken start admitted := by
  unfold appendCall at hstep
  split at hstep
  · simp only [Option.some.injEq] at hstep
    subst hstep
    split
    · exact h.congr rfl rfl (by simp [rows, appendReturns, AppendTask.rows])
    · split_ifs
      · exact h.congr rfl rfl (by simp [rows, appendReturns, AppendTask.rows])
      · refine ⟨h.tiled, h.all_admitted, fun entry hentry ↦ ?_⟩
        obtain rfl := RowsTask.checked.inj hentry
        exact ⟨hgoes, hadmitted⟩
      · exact h.congr rfl rfl (by simp [rows, appendReturns, AppendTask.rows])
  · simp at hstep

/-- The calls of a consumer that goes on where it stopped, with ranges that are admitted. -/
def Consumes (start : Int) (admitted : Entry β → Prop) (w : Writer β) : Action β → Prop
  | .appendCall batch startOffset endOffset =>
    w.rows.GoesOn start startOffset ∧ admitted ⟨w.trace.calls, batch, startOffset, endOffset⟩
  | _ => True

instance [DecidablePred admitted] (w : Writer β) :
    (action : Action β) → Decidable (w.Consumes start admitted action)
  | .appendCall .. => inferInstanceAs (Decidable (_ ∧ _))
  | .appendPush .. | .appendUnbuffer | .flushCall .. | .flushLookup .. | .flushAwait ..
  | .flushRead .. | .tick | .tickerCheck | .tryLock .. | .acquire .. | .stall .. | .handOver ..
  | .persistBegin .. | .persistRecheck .. | .persistWrite .. | .fence .. | .serialViolation ..
  | .notifierStops | .receive .. | .attempt .. | .renderEnds .. | .gzipEnds .. | .putEnds ..
  | .giveUp .. | .calibrate | .send .. | .order | .confirm | .record | .announce | .land =>
    inferInstanceAs (Decidable True)

theorem taken_step {action : Action β} (h : w.rows.Taken start admitted)
    (hbalanced : w.rows.Balanced) (hconsumes : w.Consumes start admitted action)
    (hstep : w.step cfg action = some w') :
    w'.rows.Taken start admitted := by
  by_cases hcall : ∃ batch startOffset endOffset, action = .appendCall batch startOffset endOffset
  · obtain ⟨batch, startOffset, endOffset, rfl⟩ := hcall
    exact taken_appendCall h hstep hconsumes.1 hconsumes.2
  · refine h.moves hbalanced (rows_unasked hstep fun batch startOffset endOffset heq ↦ ?_)
    exact hcall ⟨batch, startOffset, endOffset, heq⟩

/-- The files sealed are laid end to end, from where the consumer began. -/
theorem taken_sealedFiles {epoch : Nat} (h : w.rows.Taken start admitted)
    (hnamed : w.rows.Named cfg epoch) :
    Tiled StagedFile.startOffset StagedFile.endOffset start w.sealedFiles := by
  rw [sealedFiles, tiled_map]
  exact (Tiled.blocks (fun cut hcut ↦ (hnamed.wellFormed cut hcut).first)
    (fun cut hcut ↦ (hnamed.wellFormed cut hcut).last)
    (h.tiled.leading (List.prefix_append _ _))).1

/-- The end of a sealed file is that of an entry that was admitted. -/
theorem admitted_of_sealed {epoch : Nat} (h : w.rows.Taken start admitted)
    (hnamed : w.rows.Named cfg epoch) {file : StagedFile} (hfile : file ∈ w.sealedFiles) :
    ∃ e, admitted e ∧ e.endOffset = file.endOffset := by
  obtain ⟨cut, hcut, rfl⟩ := List.mem_map.mp hfile
  obtain ⟨last, hlast, hend⟩ := Option.map_eq_some_iff.mp (hnamed.wellFormed cut hcut).last
  have hkept : last ∈ w.rows.kept :=
    List.mem_append_left _ (List.mem_flatMap.mpr ⟨cut, hcut, List.mem_of_getLast? hlast⟩)
  exact ⟨last, h.all_admitted last hkept, hend⟩

end Writer

end RelytIngest
