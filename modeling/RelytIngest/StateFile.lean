import Mathlib.Order.Lattice

/-!
# The writer's state file

`state.json` records the server-confirmed resume offset and the highest epoch used. The ticker
rewrites it when the confirmed offset advanced or the heartbeat is due (`persistStateIfDue`), and
the resume offset only ever moves forward (`le_resumeToPersist`).
-/

set_option autoImplicit false
set_option relaxedAutoImplicit false

namespace RelytIngest

/-- The fields of a writer's `state.json` that recovery reads. -/
structure StateFile where
  resumeOffset : Option Int
  maxEpochUsed : Nat
  deriving DecidableEq, Repr

/-- The confirmed offset is past the persisted one. -/
def resumeAdvanced (confirmedEnd resumePersisted : Option Int) : Bool :=
  match confirmedEnd, resumePersisted with
  | some confirmed, some persisted => decide (persisted < confirmed)
  | some _, none => true
  | none, _ => false

/-- The resume offset the next state file carries. -/
def resumeToPersist (confirmedEnd resumePersisted : Option Int) : Option Int :=
  match confirmedEnd, resumePersisted with
  | some confirmed, some persisted => some (max confirmed persisted)
  | some confirmed, none => some confirmed
  | none, persisted => persisted

/-- The resume offset `persist_state_if_due` writes, when a write is due. -/
def persistStateIfDue (heartbeat : Bool) (confirmedEnd resumePersisted : Option Int) :
    Option (Option Int) :=
  if !resumeAdvanced confirmedEnd resumePersisted && !heartbeat then none
  else some (resumeToPersist confirmedEnd resumePersisted)

theorem le_resumeToPersist (confirmedEnd : Option Int) (persisted : Int) :
    ∃ resume, resumeToPersist confirmedEnd (some persisted) = some resume ∧ persisted ≤ resume := by
  cases confirmedEnd with
  | none => exact ⟨persisted, rfl, le_rfl⟩
  | some confirmed => exact ⟨max confirmed persisted, rfl, le_max_right _ _⟩

/-- What is persisted was persisted before or is the confirmed offset. -/
theorem resumeToPersist_eq (confirmedEnd resumePersisted : Option Int) :
    resumeToPersist confirmedEnd resumePersisted = resumePersisted ∨
      resumeToPersist confirmedEnd resumePersisted = confirmedEnd := by
  cases confirmedEnd with
  | none => exact Or.inl rfl
  | some confirmed =>
    cases resumePersisted with
    | none => exact Or.inr rfl
    | some persisted =>
      rcases le_total confirmed persisted with hle | hle
      · exact Or.inl (congrArg some (max_eq_right hle))
      · exact Or.inr (congrArg some (max_eq_left hle))

end RelytIngest
