import Mathlib.Logic.Relation

/-!
# Runs of labelled machines

A machine is a partial step function `State → Action → Option State`: an action that is not
enabled in a state has no result there. `run` takes a list of actions in order, and
`ReachableUnder` is reachability by steps that each meet a condition on the state before the step
and the action taken. `ReachableUnder.invariant` is the induction rule every safety property of a
machine is proved with, `ReachableUnder.mono` relaxes the condition, and `reachable_of_run` turns
an evaluated run into a reachable state. `exists_run_of_measure` is the rule for progress: a measure
that can be lowered until the goal is met.

`Refines` is refinement with stuttering: under a view of the states, every step is a number of moves
of an abstract machine, possibly none. An abstract invariant then holds of the view of every
reachable state (`Refines.invariant`).
-/

set_option autoImplicit false
set_option relaxedAutoImplicit false

namespace RelytIngest.Foundations

variable {State Action : Type*}

/-- The state a machine is in after taking the given actions in order, when each is enabled. -/
def run (step : State → Action → Option State) : State → List Action → Option State
  | state, [] => some state
  | state, action :: rest => (step state action).bind fun next ↦ run step next rest

/-- One step by an action that `allowed` admits in the state before it. -/
def StepUnder (step : State → Action → Option State) (allowed : State → Action → Prop)
    (before after : State) : Prop :=
  ∃ action, allowed before action ∧ step before action = some after

/-- The states reached from `start` by steps that each meet the condition `allowed`. -/
def ReachableUnder (step : State → Action → Option State) (allowed : State → Action → Prop)
    (start : State) : State → Prop :=
  Relation.ReflTransGen (StepUnder step allowed) start

/-- The states reached from `start` by any steps. -/
def Reachable (step : State → Action → Option State) (start : State) : State → Prop :=
  ReachableUnder step (fun _ _ ↦ True) start

variable {step : State → Action → Option State} {allowed weaker : State → Action → Prop}
  {start : State}

theorem ReachableUnder.refl : ReachableUnder step allowed start start :=
  Relation.ReflTransGen.refl

theorem ReachableUnder.snoc {before after : State} {action : Action}
    (hbefore : ReachableUnder step allowed start before) (hallowed : allowed before action)
    (hstep : step before action = some after) : ReachableUnder step allowed start after :=
  Relation.ReflTransGen.tail hbefore ⟨action, hallowed, hstep⟩

theorem Reachable.snoc {before after : State} {action : Action}
    (hbefore : Reachable step start before) (hstep : step before action = some after) :
    Reachable step start after :=
  ReachableUnder.snoc hbefore trivial hstep

theorem ReachableUnder.trans {before state : State}
    (hbefore : ReachableUnder step allowed start before)
    (hafter : ReachableUnder step allowed before state) : ReachableUnder step allowed start state :=
  Relation.ReflTransGen.trans hbefore hafter

/-- The invariant rule: a property of the start that every permitted step preserves holds of every
state reached. -/
theorem ReachableUnder.invariant {property : State → Prop} (hstart : property start)
    (hpreserved : ∀ before action after, property before → allowed before action →
      step before action = some after → property after)
    {state : State} (hreach : ReachableUnder step allowed start state) : property state := by
  induction hreach with
  | refl => exact hstart
  | tail _ hlast ih =>
    obtain ⟨action, hallowed, hstep⟩ := hlast
    exact hpreserved _ action _ ih hallowed hstep

/-- The invariant rule where the state before the step may be taken to be reachable. -/
theorem ReachableUnder.strengthened (property : State → Prop) (hstart : property start)
    (hpreserved : ∀ before action after, ReachableUnder step allowed start before →
      property before → allowed before action → step before action = some after → property after)
    {state : State} (hreach : ReachableUnder step allowed start state) : property state := by
  induction hreach with
  | refl => exact hstart
  | tail hbefore hlast ih =>
    obtain ⟨action, hallowed, hstep⟩ := hlast
    exact hpreserved _ action _ hbefore ih hallowed hstep

/-- The invariant rule for runs whose steps are not restricted. -/
theorem Reachable.invariant {property : State → Prop} (hstart : property start)
    (hpreserved : ∀ before action after, property before → step before action = some after →
      property after)
    {state : State} (hreach : Reachable step start state) : property state :=
  ReachableUnder.invariant hstart (fun _ _ _ hbefore _ hstep ↦ hpreserved _ _ _ hbefore hstep)
    hreach

/-- Relaxing the condition on the steps reaches at least as many states. -/
theorem ReachableUnder.mono (hweaker : ∀ state action, allowed state action → weaker state action)
    {state : State} (hreach : ReachableUnder step allowed start state) :
    ReachableUnder step weaker start state :=
  Relation.ReflTransGen.mono
    (fun _ _ ⟨action, hallowed, hstep⟩ ↦ ⟨action, hweaker _ _ hallowed, hstep⟩) _ _ hreach

theorem ReachableUnder.reachable {state : State}
    (hreach : ReachableUnder step allowed start state) : Reachable step start state :=
  hreach.mono fun _ _ _ ↦ trivial

/-- A run that evaluates to a state reaches it, by steps that are permitted in every state. -/
theorem reachableUnder_of_run {actions : List Action} {before state : State}
    (hbefore : ReachableUnder step allowed start before)
    (hallowed : ∀ action ∈ actions, ∀ state, allowed state action)
    (hrun : run step before actions = some state) : ReachableUnder step allowed start state := by
  induction actions generalizing before with
  | nil =>
    rw [run, Option.some.injEq] at hrun
    exact hrun ▸ hbefore
  | cons action rest ih =>
    rw [run, Option.bind_eq_some_iff] at hrun
    obtain ⟨next, hstep, hrest⟩ := hrun
    rw [List.forall_mem_cons] at hallowed
    exact ih (hbefore.snoc (hallowed.1 before) hstep) hallowed.2 hrest

theorem reachable_of_run {actions : List Action} {before state : State}
    (hbefore : Reachable step start before) (hrun : run step before actions = some state) :
    Reachable step start state :=
  reachableUnder_of_run hbefore (fun _ _ _ ↦ trivial) hrun

/-- A run that is enabled throughout reaches the state it evaluates to. -/
theorem reachable_getD_of_run {actions : List Action} {before other : State}
    (hbefore : Reachable step start before) (hrun : (run step before actions).isSome) :
    Reachable step start ((run step before actions).getD other) := by
  obtain ⟨state, hstate⟩ := Option.isSome_iff_exists.mp hrun
  rw [hstate]
  exact reachable_of_run hbefore hstate

/-- The steps that are permitted, where that can be decided. -/
def restrict (step : State → Action → Option State) (allowed : State → Action → Prop)
    [∀ state action, Decidable (allowed state action)] (state : State) (action : Action) :
    Option State :=
  if allowed state action then step state action else none

/-- A run whose steps are permitted one by one. -/
theorem reachableUnder_getD_of_restrict [∀ state action, Decidable (allowed state action)]
    {actions : List Action} {before other : State}
    (hbefore : ReachableUnder step allowed start before)
    (hrun : (run (restrict step allowed) before actions).isSome) :
    ReachableUnder step allowed start
      ((run (restrict step allowed) before actions).getD other) := by
  obtain ⟨state, hstate⟩ := Option.isSome_iff_exists.mp hrun
  rw [hstate, Option.getD_some]
  have hreach : Reachable (restrict step allowed) before state := reachable_of_run .refl hstate
  refine hreach.invariant hbefore fun middle action after hmiddle hstep ↦ ?_
  unfold restrict at hstep
  split at hstep
  · next hallowed => exact hmiddle.snoc hallowed hstep
  · simp at hstep

/-- Where an action can lower a measure as long as the goal is not met, a run of such actions meets
it. -/
theorem exists_run_of_measure (good : Action → Prop) (invariant goal : State → Prop)
    (measure : State → Nat)
    (hprogress : ∀ state, invariant state → ¬ goal state → ∃ action next, good action ∧
      step state action = some next ∧ invariant next ∧ measure next < measure state)
    {state : State} (h : invariant state) :
    ∃ actions last, (∀ action ∈ actions, good action) ∧ run step state actions = some last ∧
      invariant last ∧ goal last := by
  by_cases hgoal : goal state
  · exact ⟨[], state, by simp, rfl, h, hgoal⟩
  · obtain ⟨action, next, hgood, hstep, hnext, hless⟩ := hprogress state h hgoal
    obtain ⟨actions, last, hactions, hrun, hlast⟩ :=
      exists_run_of_measure good invariant goal measure hprogress hnext
    refine ⟨action :: actions, last, List.forall_mem_cons.mpr ⟨hgood, hactions⟩, ?_, hlast⟩
    rw [run, hstep, Option.bind_some]
    exact hrun
termination_by measure state

/-! ### Refinement -/

section Refinement

variable {View : Type*} {view : State → View} {move : View → View → Prop}

/-- Under `view`, every permitted step is a number of moves. -/
def Refines (step : State → Action → Option State) (allowed : State → Action → Prop)
    (view : State → View) (move : View → View → Prop) : Prop :=
  ∀ before action after, allowed before action → step before action = some after →
    Relation.ReflTransGen move (view before) (view after)

/-- Runs map to runs of the abstract machine. -/
theorem Refines.reach (hrefines : Refines step allowed view move) {state : State}
    (hreach : ReachableUnder step allowed start state) :
    Relation.ReflTransGen move (view start) (view state) := by
  induction hreach with
  | refl => exact Relation.ReflTransGen.refl
  | tail _ hlast ih =>
    obtain ⟨action, hallowed, hstep⟩ := hlast
    exact ih.trans (hrefines _ action _ hallowed hstep)

/-- An invariant of the abstract machine holds of the view of every state reached. -/
theorem Refines.invariant (hrefines : Refines step allowed view move) {property : View → Prop}
    (hstart : property (view start))
    (hpreserved : ∀ before after, property before → move before after → property after)
    {state : State} (hreach : ReachableUnder step allowed start state) : property (view state) := by
  generalize view state = last, hrefines.reach hreach = habstract
  induction habstract with
  | refl => exact hstart
  | tail _ hlast ih => exact hpreserved _ _ ih hlast

end Refinement

end RelytIngest.Foundations
