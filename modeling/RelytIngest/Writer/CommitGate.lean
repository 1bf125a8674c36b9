import RelytIngest.Writer.AllOrNothing
import RelytIngest.Writer.Files

/-!
# The commit gate

A consumer commits up to the end of a batch once the staged offset has reached it. `CommitGate` says
that this is sound: the batch is then in a file whose put returned. The staged offset starts from
what recovery found, while `append` compares a range with this writer's own batches only, so the
gate is open for a batch at or below the recovered offset (`commit_gate_open_after_rewind`).
`commit_gate` proves it for every run in which each batch pushed ends above that offset
(`EndsAboveRecovered`).
-/

set_option autoImplicit false
set_option relaxedAutoImplicit false

namespace RelytIngest.Writer

open Foundations

variable {β : Type} {cfg : WriterConfig β} {w w' : Writer β}

/-- A batch whose append was accepted is staged once the staged offset has reached its end. -/
def CommitGate (w : Writer β) : Prop :=
  ∀ entry ∈ w.trace.accepted, ∀ staged, w.st.stagedOffset = some staged →
    entry.endOffset ≤ staged →
      ∃ cut ∈ w.trace.cuts, cut.fileMeta ∈ w.trace.putReturned ∧ entry ∈ cut.entries

/-- A batch that passes the offset check ends above the recovered staged offset. -/
def EndsAboveRecovered (recovered : Option Int) (w : Writer β) : Action β → Prop
  | .appendPush _ => ∀ entry, w.append = .checked entry →
      w.st.checkForward entry.startOffset entry.endOffset = .ok () →
        ∀ offset, recovered = some offset → offset < entry.endOffset
  | _ => True

/-! ### What is pushed -/

/-- Only the push of `append` pushes. -/
theorem pushed_step {action : Action β} (hstep : w.step cfg action = some w') :
    w'.trace.pushed = w.trace.pushed ∨
      ∃ now entry, action = .appendPush now ∧ w.append = .checked entry ∧
        w.st.checkForward entry.startOffset entry.endOffset = .ok () ∧
        w'.trace.pushed = w.trace.pushed ++ [entry] := by
  cases action with
  | appendPush now =>
    simp only [step, appendPush] at hstep
    split at hstep
    · next entry happend =>
      obtain rfl := Option.some.inj hstep
      split
      · exact Or.inl rfl
      · next hcheck =>
        refine Or.inr ⟨now, entry, rfl, happend, hcheck, ?_⟩
        split_ifs <;> rfl
    · simp at hstep
  | appendCall =>
    simp only [step, appendCall] at hstep
    split at hstep
    · obtain rfl := Option.some.inj hstep
      refine Or.inl ?_
      split
      · rfl
      · split_ifs <;> rfl
    · simp at hstep
  | appendUnbuffer =>
    simp only [step, appendUnbuffer] at hstep
    split at hstep
    · obtain rfl := Option.some.inj hstep
      exact Or.inl (by split <;> rfl)
    · simp at hstep
  | _ => exact Or.inl (Rows.proceeds_moves (rows_proceeds hstep rfl)).2.2

/-- Everything pushed ends above the recovered offset. -/
def PushedAbove (recovered : Option Int) (w : Writer β) : Prop :=
  ∀ entry ∈ w.trace.pushed, ∀ offset, recovered = some offset → offset < entry.endOffset

theorem pushed_above {epochMs : Nat} {recovered resumePersisted : Option Int}
    (hreach : ReachableUnder (step cfg) (EndsAboveRecovered recovered)
      (new epochMs recovered resumePersisted) w) : PushedAbove recovered w := by
  refine ReachableUnder.invariant ?_ ?_ hreach
  · simp [PushedAbove, new]
  · intro before action after hbefore hallowed hstep entry hentry offset hoffset
    rcases pushed_step hstep with hsame | ⟨now, pushed, rfl, happend, hcheck, hpushed⟩
    · exact hbefore entry (hsame ▸ hentry) offset hoffset
    · rw [hpushed, List.mem_append, List.mem_singleton] at hentry
      rcases hentry with hold | rfl
      · exact hbefore entry hold offset hoffset
      · exact hallowed entry happend hcheck offset hoffset

/-! ### The gate -/

/-- The staged offset is the recovered one or the end of a recorded file. -/
theorem foldl_raiseOffset {recovered : Option Int} {recorded : List FileMeta} {staged : Int}
    (hstaged : recorded.foldl raiseOffset recovered = some staged) :
    recovered = some staged ∨ ∃ m ∈ recorded, m.file.endOffset = staged := by
  induction recorded generalizing recovered with
  | nil => exact Or.inl hstaged
  | cons m rest ih =>
    rcases ih hstaged with hraised | ⟨last, hlast, hend⟩
    · cases recovered with
      | none => exact Or.inr ⟨m, List.mem_cons_self, Option.some.inj hraised⟩
      | some prev =>
        have hraised : max prev m.file.endOffset = staged := Option.some.inj hraised
        rcases max_choice prev m.file.endOffset with hmax | hmax
        · exact Or.inl (congrArg some (hmax.symm.trans hraised))
        · exact Or.inr ⟨m, List.mem_cons_self, hmax.symm.trans hraised⟩
    · exact Or.inr ⟨last, List.mem_cons_of_mem m hlast, hend⟩

/-- An accepted entry that ends at or before a file whose put returned is in such a file. -/
theorem ReachableFrom.entry_landed {epochMs : Nat} {stagedOffset resumePersisted : Option Int}
    (hreach : ReachableFrom cfg epochMs stagedOffset resumePersisted w) {entry : Entry β}
    (hentry : entry ∈ w.places) {m : FileMeta} (hm : m ∈ w.trace.putReturned)
    (hle : entry.endOffset ≤ m.file.endOffset) :
    ∃ cut ∈ w.trace.cuts, cut.fileMeta ∈ w.trace.putReturned ∧ entry ∈ cut.entries := by
  obtain ⟨hbalanced, hnamed⟩ := hreach.rows
  obtain ⟨landed, later, hcuts, hlanded⟩ := hreach.landed
  rw [hlanded] at hm ⊢
  obtain ⟨file, hfile, rfl⟩ := List.mem_map.mp hm
  have hplaces : w.places =
      landed.flatMap Cut.entries ++ (later.flatMap Cut.entries ++ w.st.buffered) := by
    rw [places, hcuts, List.flatMap_append, List.append_assoc]
  have hranges : w.places.Pairwise fun first second ↦ first.endOffset < second.startOffset :=
    hbalanced.ranges
  rw [hplaces, List.pairwise_append] at hranges
  rw [hplaces] at hentry
  rcases List.mem_append.mp hentry with hearly | hlate
  · obtain ⟨cut, hcut, hmem⟩ := List.mem_flatMap.mp hearly
    exact ⟨cut, hcuts ▸ List.mem_append_left _ hcut, List.mem_map_of_mem hcut, hmem⟩
  · -- the file's last entry comes before every entry whose put has not returned
    have hsealed : file ∈ w.trace.cuts := hcuts ▸ List.mem_append_left _ hfile
    obtain ⟨last, hlast, hend⟩ := (hnamed.wellFormed file hsealed).last_entry
    have hbefore := hranges.2.2 last (List.mem_flatMap.mpr ⟨file, hfile, hlast⟩) entry hlate
    have hrange := hbalanced.range entry (show entry ∈ w.places from
      hplaces ▸ List.mem_append_right _ hlate)
    omega

/-- In every run whose batches end above the recovered staged offset, the commit gate is sound. -/
theorem commit_gate (cfg : WriterConfig β) (epochMs : Nat) (recovered resumePersisted : Option Int)
    (hreach : ReachableUnder (step cfg) (EndsAboveRecovered recovered)
      (new epochMs recovered resumePersisted) w) : CommitGate w := by
  have hrun : ReachableFrom cfg epochMs recovered resumePersisted w := hreach.reachable
  intro entry hentry staged hstaged hle
  have hplace := hrun.accepted_places hentry
  have hfiles := hrun.files
  have hfold : w.trace.recorded.foldl raiseOffset recovered = some staged :=
    hfiles.staged.symm.trans hstaged
  rcases foldl_raiseOffset hfold with hrecovered | ⟨m, hm, hend⟩
  · have habove := pushed_above hreach entry (hrun.rows.1.mem_pushed hplace) staged hrecovered
    omega
  · exact hrun.entry_landed hplace (hfiles.prefixes.1.subset hm) (hend ▸ hle)

/-- A writer opened at the staged offset 4 that was called with `[5, 9]`, pushed it, and staged
it. -/
def resumedCall : Writer RecordBatch :=
  (run (step sampleConfig) (new 1 (some 4) none) ((sampleAppend 5 9).take 1)).getD (new 1 none none)

def resumedPush : Writer RecordBatch :=
  (run (step sampleConfig) resumedCall ((sampleAppend 5 9).drop 1)).getD (new 1 none none)

def resumedFlush : Writer RecordBatch :=
  (run (step sampleConfig) resumedPush sampleFlush).getD (new 1 none none)

/-- The gate of that writer. -/
theorem commit_gate_resumed : CommitGate resumedFlush := by
  refine commit_gate sampleConfig 1 (some 4) none ?_
  have hcall : step sampleConfig (new 1 (some 4) none)
      (.appendCall (sampleTextKeyBatch ["a".toList]) 5 9) = some resumedCall := rfl
  have hpush : step sampleConfig resumedCall (.appendPush 0) = some resumedPush := rfl
  have hflush : run (step sampleConfig) resumedPush sampleFlush = some resumedFlush := rfl
  have happend : resumedCall.append = .checked ⟨0, sampleTextKeyBatch ["a".toList], 5, 9⟩ := rfl
  have hallowed : EndsAboveRecovered (some 4) (new 1 (some 4) none)
      (.appendCall (sampleTextKeyBatch ["a".toList]) 5 9) := trivial
  refine reachableUnder_of_run (.snoc (.snoc .refl hallowed hcall) ?_ hpush) ?_ hflush
  · rintro entry hentry - offset ⟨rfl⟩
    rw [happend, AppendTask.checked.injEq] at hentry
    subst hentry
    decide
  · intro action haction state
    simp only [sampleFlush, List.cons_append, List.nil_append, List.mem_cons, List.mem_append,
      List.mem_replicate, List.not_mem_nil, or_false] at haction
    rcases haction with rfl | rfl | ⟨-, rfl⟩ | haction
    · trivial
    · trivial
    · trivial
    · rcases haction with rfl | rfl | rfl | rfl | rfl | rfl | rfl | rfl | rfl | rfl | rfl | rfl |
        rfl | rfl | rfl | rfl | rfl <;> trivial

/-- After a file up to 99 was recovered, the gate is open for `[0, 9]` while it is buffered. -/
theorem commit_gate_open_after_rewind :
    ¬ ∀ (plan : RecoveryPlan) (w : Writer RecordBatch),
      planRecovery [⟨0, 0, 0, 99, false⟩] none = .ok plan →
        ReachableFrom sampleConfig 1 (recoveredOffset plan.kafkaResumeOffset) none w →
          CommitGate w := by
  intro hclaim
  have hplan : planRecovery [⟨0, 0, 0, 99, false⟩] none =
      .ok ⟨some 100, [⟨0, 0, 0, 99, false⟩], some (0, 0)⟩ := by decide
  have hrun : run (step sampleConfig) (new 1 (some 99) none) (sampleAppend 0 9) =
      some ((run (step sampleConfig) (new 1 (some 99) none) (sampleAppend 0 9)).getD
        (new 1 none none)) := rfl
  obtain ⟨cut, hcut, -⟩ := hclaim _ _ hplan (reachable_of_run .refl hrun)
    ⟨0, sampleTextKeyBatch ["a".toList], 0, 9⟩ (List.mem_singleton_self _) 99 rfl (by decide)
  exact List.not_mem_nil hcut

end RelytIngest.Writer
