import RelytIngest.TableSchema.Opened
import RelytIngest.Writer.TakenRanges

/-!
# The batches of a table

`append` takes a batch only with the columns of the table, so every entry of a writer has them
(`ReachableFrom.vetted`). What a writer of an opened table cuts can therefore be rendered
(`ReachableFrom.cut_renders`).
-/

set_option autoImplicit false
set_option relaxedAutoImplicit false

namespace RelytIngest

open Foundations Relation

namespace Rows

variable {β : Type} {cfg : WriterConfig β} {r r' : Rows β}

/-- Every batch that was taken passed the schema check. -/
structure Vetted (cfg : WriterConfig β) (r : Rows β) : Prop where
  kept : ∀ e ∈ r.kept, cfg.compatible e.batch = true
  checked : ∀ entry, r.task = .checked entry → cfg.compatible entry.batch = true

/-- Moves that leave the accepted entries and check nothing. -/
theorem Vetted.congr (h : r.Vetted cfg) (hkept : r'.kept = r.kept)
    (htask : ∀ entry, r'.task = .checked entry → r.task = .checked entry) : r'.Vetted cfg where
  kept := hkept ▸ h.kept
  checked entry hentry := h.checked entry (htask entry hentry)

/-- No move but the begin of a call brings in a batch that was not checked. -/
theorem Vetted.unasked (h : r.Vetted cfg) (hbalanced : r.Balanced) (hmove : Unasked cfg r r') :
    r'.Vetted cfg := by
  obtain ⟨hmove, hcalls⟩ := hmove
  cases hmove with
  | refuse | reject | accept | fail | keep => exact h.congr rfl (by simp [returns])
  | check => exact absurd hcalls (Nat.succ_ne_self r.calls)
  | push entry now hchecked =>
    have hkept : ({ r with
        st := r.st.push cfg now entry
        pushed := r.pushed ++ [entry]
        task := .pending entry r.st.maxEndOffset none } : Rows β).kept = r.kept ++ [entry] :=
      (List.append_assoc _ _ _).symm
    refine ⟨fun e he ↦ ?_, by simp⟩
    rw [hkept] at he
    rcases List.mem_append.mp he with hold | hnew
    · exact h.kept e hold
    · exact List.mem_singleton.mp hnew ▸ h.checked entry hchecked
  | takeBack entry maxEndBefore err taken st hpending hunbuffer =>
    obtain ⟨buffer, hbuffered, -, hbuffer, -, -⟩ := hbalanced.unbuffer_some hpending hunbuffer
    have hleading : r.cuts.flatMap Cut.entries ++ st.buffered <+: r.kept := by
      rw [Rows.kept, hbuffered, hbuffer, ← List.append_assoc]
      exact List.prefix_append _ _
    exact ⟨fun e he ↦ h.kept e (hleading.subset he), by simp [returns]⟩
  | cut now agedOnly sealed st hseal =>
    obtain ⟨first, rest, -, -, -, rfl⟩ := WriterState.sealBuffer_some hseal
    exact h.congr (kept_cut sealed _ rfl) fun _ htask ↦ htask
  | roll now agedOnly err st hseal =>
    obtain ⟨rfl, -⟩ := WriterState.sealBuffer_error hseal
    exact h.congr (by simp [Rows.kept]) fun _ htask ↦ htask

theorem Vetted.moves (h : r.Vetted cfg) (hbalanced : r.Balanced)
    (hmoves : ReflTransGen (Unasked cfg) r r') : r'.Vetted cfg := by
  have hboth : r'.Balanced ∧ r'.Vetted cfg := by
    induction hmoves with
    | refl => exact ⟨hbalanced, h⟩
    | tail _ hlast ih => exact ⟨ih.1.move hlast.1, ih.2.unasked ih.1 hlast⟩
  exact hboth.2

end Rows

namespace Writer

variable {β : Type} {cfg : WriterConfig β} {w w' : Writer β} {epochMs : Nat}
  {stagedOffset resumePersisted : Option Int}

/-- A call of `append` goes on only with a batch of the table. -/
theorem vetted_appendCall {batch : β} {startOffset endOffset : Int} (h : w.rows.Vetted cfg)
    (hstep : w.appendCall cfg batch startOffset endOffset = some w') : w'.rows.Vetted cfg := by
  unfold appendCall at hstep
  split at hstep
  · simp only [Option.some.injEq] at hstep
    subst hstep
    split
    · exact h.congr rfl (by simp [rows, appendReturns, AppendTask.rows])
    · split_ifs with hrange hcompatible
      · exact h.congr rfl (by simp [rows, appendReturns, AppendTask.rows])
      · refine ⟨h.kept, fun entry hentry ↦ ?_⟩
        obtain rfl := RowsTask.checked.inj hentry
        exact hcompatible
      · exact h.congr rfl (by simp [rows, appendReturns, AppendTask.rows])
  · simp at hstep

theorem vetted_step {action : Action β} (h : w.rows.Vetted cfg) (hbalanced : w.rows.Balanced)
    (hstep : w.step cfg action = some w') : w'.rows.Vetted cfg := by
  by_cases hcall : ∃ batch startOffset endOffset, action = .appendCall batch startOffset endOffset
  · obtain ⟨batch, startOffset, endOffset, rfl⟩ := hcall
    exact vetted_appendCall h hstep
  · refine h.moves hbalanced (rows_unasked hstep fun batch startOffset endOffset heq ↦ ?_)
    exact hcall ⟨batch, startOffset, endOffset, heq⟩

theorem ReachableFrom.vetted
    (hreach : ReachableFrom cfg epochMs stagedOffset resumePersisted w) : w.rows.Vetted cfg := by
  have hstart : (new epochMs stagedOffset resumePersisted : Writer β).rows.Vetted cfg := by
    constructor
    · simp [Rows.kept, Writer.rows, new, WriterState.core, WriterState.initial]
    · simp [Writer.rows, new, AppendTask.rows]
  refine ReachableUnder.strengthened (fun w : Writer β ↦ w.rows.Vetted cfg) hstart ?_ hreach
  intro before action after hbefore h _ hstep
  exact vetted_step h (ReachableFrom.rows hbefore).1 hstep

end Writer

/-! ### Writers of an opened table -/

/-- A writer of an opened table, in its mode. -/
structure OpenedSchema.Writes (schema : OpenedSchema) (cfg : WriterConfig RecordBatch) : Prop where
  compatible : ∀ batch, cfg.compatible batch = schemaCompatible batch.schema schema.arrow
  render : cfg.render = renderOnce schema.toTableSchema schema.upsert cfg.delimiter

theorem OpenedSchema.writes_ofTable (schema : OpenedSchema) (memorySize : RecordBatch → Nat)
    (gzip : Text → Except Error (List UInt8)) (estimateBytes : Nat → Nat × Nat → Nat)
    {base : WriterConfig Unit} (hupsert : base.upsert = schema.upsert) :
    schema.Writes (.ofTable schema.toTableSchema memorySize gzip estimateBytes base) where
  compatible _ := rfl
  render := congrArg (fun upsert ↦ renderOnce schema.toTableSchema upsert base.delimiter) hupsert

namespace Writer

variable {schema : OpenedSchema} {cfg : WriterConfig RecordBatch} {w : Writer RecordBatch}
  {epochMs : Nat} {stagedOffset resumePersisted : Option Int}

/-- The batches of a file are batches of the table. -/
theorem ReachableFrom.cut_schema (hwrites : schema.Writes cfg)
    (hreach : ReachableFrom cfg epochMs stagedOffset resumePersisted w) {cut : Cut RecordBatch}
    (hcut : cut ∈ w.trace.cuts) :
    ∀ batch ∈ cut.entries.map Entry.batch, batch.schema = schema.arrow := by
  intro batch hbatch
  obtain ⟨e, he, rfl⟩ := List.mem_map.mp hbatch
  have hkept : e ∈ w.rows.kept :=
    List.mem_append_left _ (List.mem_flatMap.mpr ⟨cut, hcut, he⟩)
  have hcompatible := hreach.vetted.kept e hkept
  rwa [hwrites.compatible, schemaCompatible_iff] at hcompatible

/-- Every file that is cut renders. -/
theorem ReachableFrom.cut_renders (hwrites : schema.Writes cfg)
    (hreach : ReachableFrom cfg epochMs stagedOffset resumePersisted w) {cut : Cut RecordBatch}
    (hcut : cut ∈ w.trace.cuts) :
    ∃ body rows, cfg.render cut.file.batches = .ok (body, rows) := by
  rw [(hreach.rows.2.wellFormed cut hcut).batches, hwrites.render]
  exact OpenedSchema.renderOnce_ok (hreach.cut_schema hwrites hcut) cfg.delimiter

end Writer

end RelytIngest
