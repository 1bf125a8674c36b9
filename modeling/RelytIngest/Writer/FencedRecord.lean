import RelytIngest.Writer.Watch

/-!
# A fenced writer neither records nor announces

The put stage looks at the fence after its put returned and then records and announces the file, so
a fence that lands in between comes too late (`fenced_records`). `fenced_neither_records` proves
that this is the only gap: in a run whose first fence lands outside the record of a file
(`FenceOutsideRecord`), a fenced writer advances no staged offset and announces nothing.
-/

set_option autoImplicit false
set_option relaxedAutoImplicit false

namespace RelytIngest

open Foundations Relation

namespace Files

variable {request : FileMeta → NotifyRequest} {f f' : Files}

/-- Only the record of a file moves the staged offset, and only its announcement is announced. -/
theorem Move.of_not_atRecord (hmove : Move request f f') (hplace : f.place.atRecord = false) :
    f'.stagedOffset = f.stagedOffset ∧ f'.notified = f.notified := by
  cases hmove with
  | cut | send | put | confirm | land | stop | silence => exact ⟨rfl, rfl⟩
  | record m hrecording | announce m hrecording => simp [hrecording, PutPlace.atRecord] at hplace

end Files

namespace Writer

variable {β : Type} {cfg : WriterConfig β} {w w' : Writer β}

/-- The first fence does not land while the put stage is between its check of the fence and the
announcement of the file. -/
def FenceOutsideRecord (w : Writer β) : Action β → Prop
  | .fence _ => w.health.fenced = none → (PutPlace.of w.pipe.put).atRecord = false
  | _ => True

theorem fenceOutsideRecord_of_not_fence (w : Writer β) {action : Action β}
    (haction : isFence action = false) : FenceOutsideRecord w action := by
  cases action <;> trivial

/-- A fenced writer is not about to record a file. -/
theorem fenced_not_atRecord {epochMs : Nat} {stagedOffset resumePersisted : Option Int}
    (hreach : ReachableUnder (step cfg) FenceOutsideRecord
      (new epochMs stagedOffset resumePersisted) w) :
    w.watch.fenced = true → w.watch.atRecord = false := by
  refine watch_invariant (fun v ↦ v.fenced = true → v.atRecord = false) (by simp [watch, new]) ?_
    hreach
  intro before action v hbefore hallowed hmove
  cases hmove with
  | fence hfence =>
    cases action <;> simp only [isFence, Bool.false_eq_true] at hfence
    intro _
    by_cases hfenced : before.health.fenced = none
    · exact hallowed hfenced
    · exact hbefore (by simpa [watch, Option.isSome_iff_ne_none] using hfenced)
  | confirm hfenced => exact fun hlater ↦ absurd (hfenced.symm.trans hlater) Bool.false_ne_true
  | announce => exact fun _ ↦ rfl
  | violate | pass | fail | giveUp | drop | trip | follow | land | close | leave | gone =>
    exact hbefore

/-- In every run whose first fence lands outside the record of a file, no step of the fenced writer
advances the staged offset or announces a file. -/
theorem fenced_neither_records (cfg : WriterConfig β) (epochMs : Nat)
    (stagedOffset resumePersisted : Option Int)
    (hreach : ReachableUnder (step cfg) FenceOutsideRecord
      (new epochMs stagedOffset resumePersisted) w)
    (hfenced : w.health.fenced.isSome) (action : Action β) (w' : Writer β)
    (hstep : w.step cfg action = some w') :
    w'.st.stagedOffset = w.st.stagedOffset ∧ w'.trace.notified = w.trace.notified := by
  have hplace : w.files.place.atRecord = false := fenced_not_atRecord hreach hfenced
  rcases (reflGen_iff ..).mp (files_step hstep) with hsame | hmove
  · exact ⟨congrArg Files.stagedOffset hsame, congrArg Files.notified hsame⟩
  · exact hmove.of_not_atRecord hplace

/-- A writer whose put of `[0, 9]` returned. -/
def returnedPut : Writer RecordBatch :=
  (run (step sampleConfig) (new 1 none none) (sampleAppend 0 9 ++ sampleFlush.take 18)).getD flushed

/-- That writer, fenced before the put stage looks. -/
def fencedAtReturn : Writer RecordBatch :=
  (step sampleConfig returnedPut (.fence "taken over")).getD flushed

/-- The put stage then ends without a record. -/
theorem fenced_neither_records_at_return :
    ((step sampleConfig fencedAtReturn .confirm).getD flushed).st.stagedOffset =
        fencedAtReturn.st.stagedOffset ∧
      ((step sampleConfig fencedAtReturn .confirm).getD flushed).trace.notified =
        fencedAtReturn.trace.notified := by
  have hput : run (step sampleConfig) (new 1 none none) (sampleAppend 0 9 ++ sampleFlush.take 18) =
      some returnedPut := rfl
  have hfence : step sampleConfig returnedPut (.fence "taken over") = some fencedAtReturn := rfl
  have houtside : FenceOutsideRecord returnedPut (.fence "taken over") := fun _ ↦ rfl
  refine fenced_neither_records sampleConfig 1 none none (.snoc ?_ houtside hfence)
    (by decide +kernel) .confirm _ rfl
  have hquiet : ∀ action ∈ sampleAppend 0 9 ++ sampleFlush.take 18, isFence action = false := by
    decide
  exact reachableUnder_of_run .refl
    (fun action haction w ↦ fenceOutsideRecord_of_not_fence w (hquiet action haction)) hput

/-- A fence between the check and the record: the file is recorded all the same. -/
theorem fenced_records :
    ¬ ∀ w : Writer RecordBatch, ReachableFrom sampleConfig 1 none none w → w.health.fenced.isSome →
      ∀ action w', step sampleConfig w action = some w' →
        w'.st.stagedOffset = w.st.stagedOffset ∧ w'.trace.notified = w.trace.notified := by
  intro hclaim
  have hreach : ReachableFrom sampleConfig 1 none none
      ((run (step sampleConfig) (new 1 none none)
        (sampleAppend 0 9 ++ sampleFlush.take 18 ++ [.confirm, .fence "taken over"])).getD
          flushed) :=
    reachable_getD_of_run .refl (by decide +kernel)
  have hsame := (hclaim _ hreach (by decide +kernel) .record _ rfl).1
  revert hsame
  decide +kernel

end Writer

end RelytIngest
