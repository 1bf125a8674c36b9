import RelytIngest.Foundations.Ratchet
import RelytIngest.Writer.Machine

/-!
# The alarm lines of a stopped writer

Any task that finds the writer stopped raises the alarm: it reads the state, lowers `alarm_raised`
to its priority, and writes a line when it was the one that lowered it. `alarm_raised` is a ratchet
(`ratchet_step`), so no priority gets two lines (`one_line_per_state`). Nothing makes the tasks
write in the order in which they lowered it, and the last line may be the less urgent one
(`fence_line_overtaken`); `alarm_escalates` says that it is the most urgent one in the runs in which
they do.
-/

set_option autoImplicit false
set_option relaxedAutoImplicit false

namespace RelytIngest

open Foundations

/-- `fatal_priority`. -/
def fatalPriority : Error → Nat
  | .stagingOrderViolation _ => 0
  | .writerFenced _ => 1
  | .serialContractViolation _ => 2
  | .rotationFailed _ _ => 3
  | _ => 255

/-- A writer and the tasks that call `raise_stream_stopped`. -/
structure Alarm (β : Type) where
  w : Writer β
  /-- `alarm_raised`. -/
  raised : Nat
  /-- What a task has read and not yet compared. -/
  cause : Nat → Option Error
  /-- The tasks that lowered `alarm_raised` and have not written their line. The order, in which
  they lowered it, is history. -/
  announcing : List (Nat × Error)
  lines : List Error

inductive AlarmAction (β : Type)
  | writer (action : Action β)
  | readState (task : Nat)
  | fetchMin (task : Nat)
  | writeLine (task : Nat)

namespace Alarm

variable {β : Type} (cfg : WriterConfig β)

def start (w : Writer β) : Alarm β := ⟨w, 255, fun _ ↦ none, [], []⟩

/-- The task calls `raise_stream_stopped`; it returns at once when the writer is not stopped. -/
def readState (s : Alarm β) (task : Nat) : Option (Alarm β) :=
  if (s.cause task).isNone && s.announcing.all fun entry ↦ decide (entry.1 ≠ task) then
    some { s with cause := Function.update s.cause task (s.w.fatalState cfg) }
  else none

def fetchMin (s : Alarm β) (task : Nat) : Option (Alarm β) :=
  (s.cause task).map fun cause ↦
    let prio := fatalPriority cause
    { s with
      raised := min s.raised prio
      cause := Function.update s.cause task none
      announcing := if s.raised ≤ prio then s.announcing else s.announcing ++ [(task, cause)] }

def isOf (task : Nat) (entry : Nat × Error) : Bool := entry.1 == task

def writeLine (s : Alarm β) (task : Nat) : Option (Alarm β) :=
  (s.announcing.find? (isOf task)).map fun entry ↦
    { s with
      announcing := s.announcing.eraseP (isOf task)
      lines := s.lines ++ [entry.2] }

def step (s : Alarm β) : AlarmAction β → Option (Alarm β)
  | .writer action => (s.w.step cfg action).map fun w ↦ { s with w := w }
  | .readState task => s.readState cfg task
  | .fetchMin task => s.fetchMin task
  | .writeLine task => s.writeLine task

/-- The lines are written in the order in which `alarm_raised` was lowered. -/
def InTurn (s : Alarm β) : AlarmAction β → Prop
  | .writeLine task => s.announcing.head?.map Prod.fst = some task
  | _ => True

instance (s : Alarm β) (action : AlarmAction β) : Decidable (s.InTurn action) := by
  unfold InTurn
  split <;> infer_instance

/-! ### The ratchet -/

/-- The priorities that were announced and that will be. -/
def ratchet (s : Alarm β) : Ratchet Nat where
  low := s.raised
  outstanding := s.announcing.map fun entry ↦ fatalPriority entry.2
  announced := s.lines.map fatalPriority

variable {cfg} {s s' : Alarm β}

theorem ratchet_fetchMin {task : Nat} (hstep : s.fetchMin task = some s') :
    s'.ratchet = s.ratchet ∨ ∃ prio, prio < s.raised ∧ s'.ratchet = s.ratchet.lower prio := by
  obtain ⟨cause, -, rfl⟩ := Option.map_eq_some_iff.mp hstep
  by_cases hle : s.raised ≤ fatalPriority cause
  · refine Or.inl ?_
    simp only [ratchet, min_eq_left hle, if_pos hle]
  · have hlt := Nat.lt_of_not_le hle
    refine Or.inr ⟨fatalPriority cause, hlt, ?_⟩
    simp only [ratchet, Ratchet.lower, min_eq_right hlt.le, if_neg hle, List.map_append,
      List.map_cons, List.map_nil]

theorem ratchet_writeLine {task : Nat} (hstep : s.writeLine task = some s') :
    ∃ prio rest, s.ratchet.outstanding.Perm (prio :: rest) ∧
      (s.InTurn (.writeLine task) → s.ratchet.outstanding = prio :: rest) ∧
      s'.ratchet = s.ratchet.announce prio rest := by
  obtain ⟨entry, hfind, rfl⟩ := Option.map_eq_some_iff.mp hstep
  refine ⟨fatalPriority entry.2,
    (s.announcing.eraseP (isOf task)).map fun entry ↦ fatalPriority entry.2,
    ?_, fun hturn ↦ ?_, ?_⟩
  · have hperm : s.announcing.Perm (entry :: s.announcing.eraseP (isOf task)) := by
      obtain ⟨hentry, before, after, hlist, hbefore⟩ := List.find?_eq_some_iff_append.mp hfind
      have herase : s.announcing.eraseP (isOf task) = before ++ after := by
        rw [hlist, List.eraseP_append_right _ (by simpa using hbefore),
          List.eraseP_cons_of_pos hentry]
      rw [herase, hlist]
      exact List.perm_middle
    exact hperm.map _
  · cases hlist : s.announcing with
    | nil => simp [hlist] at hfind
    | cons first rest =>
      have hfirst : isOf task first = true := by
        simpa [InTurn, isOf, hlist] using hturn
      rw [hlist, List.find?_cons_of_pos hfirst] at hfind
      obtain rfl := Option.some.inj hfind
      simp [ratchet, hlist, hfirst]
  · simp [ratchet, Ratchet.announce]

/-- A step leaves the ratchet, lowers it, or announces an outstanding priority. -/
theorem ratchet_step {action : AlarmAction β} (hstep : step cfg s action = some s') :
    s'.ratchet = s.ratchet ∨ (∃ prio, prio < s.raised ∧ s'.ratchet = s.ratchet.lower prio) ∨
      ∃ prio rest, s.ratchet.outstanding.Perm (prio :: rest) ∧
        (s.InTurn action → s.ratchet.outstanding = prio :: rest) ∧
        s'.ratchet = s.ratchet.announce prio rest := by
  cases action with
  | writer action =>
    obtain ⟨w, -, rfl⟩ := Option.map_eq_some_iff.mp hstep
    exact Or.inl rfl
  | readState task =>
    rw [step, readState, Option.ite_none_right_eq_some] at hstep
    obtain rfl := Option.some.inj hstep.2
    exact Or.inl rfl
  | fetchMin task => exact (ratchet_fetchMin hstep).imp_right Or.inl
  | writeLine task => exact Or.inr (Or.inr (ratchet_writeLine hstep))

/-- Whatever the tasks do, no state gets a second line. -/
theorem one_line_per_state {w : Writer β} (hreach : Reachable (step cfg) (start w) s) :
    (s.lines.map fatalPriority).Nodup := by
  have hdistinct : s.ratchet.Distinct := by
    refine hreach.strengthened (fun s ↦ s.ratchet.Distinct) (Ratchet.distinct_start _) ?_
    intro before action after _ hbefore _ hstep
    rcases ratchet_step hstep with hsame | ⟨prio, hlt, hlower⟩ | ⟨prio, rest, hperm, -, hannounce⟩
    · exact hsame ▸ hbefore
    · exact hlower ▸ hbefore.lower hlt
    · exact hannounce ▸ hbefore.announce hperm
  exact (List.nodup_append.mp hdistinct.nodup).1

/-- In every run in which the lines are written in turn, each is more urgent than those before it,
and once none is outstanding the last one is the most urgent state that any task has announced. -/
theorem alarm_escalates (cfg : WriterConfig β) (w : Writer β) (s : Alarm β)
    (hreach : ReachableUnder (step cfg) InTurn (start w) s) :
    s.lines.Pairwise (fun earlier later ↦ fatalPriority later < fatalPriority earlier) ∧
      (s.announcing = [] → ∀ last, s.lines.getLast? = some last →
        fatalPriority last = s.raised) := by
  have hfalling : s.ratchet.Falling := by
    refine hreach.strengthened (fun s ↦ s.ratchet.Falling) (Ratchet.falling_start _) ?_
    intro before action after _ hbefore hturn hstep
    rcases ratchet_step hstep with hsame | ⟨prio, hlt, hlower⟩ | ⟨prio, rest, -, hhead, hannounce⟩
    · exact hsame ▸ hbefore
    · exact hlower ▸ hbefore.lower hlt
    · exact hannounce ▸ hbefore.announce (hhead hturn)
  refine ⟨List.pairwise_map.mp hfalling.announced, fun hnone last hlast ↦ ?_⟩
  refine hfalling.last_eq_low (by simp [ratchet, hnone]) ?_
  simp [ratchet, hlast]

/-- A contract violation that two tasks find, one of them before the fence and one after it. -/
def twoCauses : List (AlarmAction RecordBatch) :=
  [.writer (.serialViolation "seq 7 is in use"), .readState 0, .writer (.fence "lease lost"),
    .readState 1, .fetchMin 0, .fetchMin 1]

/-- Both lines are written in turn. -/
def announcedInTurn : Alarm RecordBatch :=
  (run (restrict (step sampleConfig) InTurn) (start (Writer.new 1 none none))
    (twoCauses ++ [.writeLine 0, .writeLine 1])).getD (start (Writer.new 1 none none))

theorem alarm_escalates_inTurn :
    announcedInTurn.lines.Pairwise
        (fun earlier later ↦ fatalPriority later < fatalPriority earlier) ∧
      (announcedInTurn.announcing = [] → ∀ last, announcedInTurn.lines.getLast? = some last →
        fatalPriority last = announcedInTurn.raised) :=
  alarm_escalates sampleConfig (Writer.new 1 none none) announcedInTurn
    (reachableUnder_getD_of_restrict .refl (by decide +kernel))

/-- The task that announces the fence overtakes the other one. -/
def overtaken : Alarm RecordBatch :=
  (run (step sampleConfig) (start (Writer.new 1 none none))
    (twoCauses ++ [.writeLine 1, .writeLine 0])).getD (start (Writer.new 1 none none))

/-- The last line names the contract violation, although the fence has been announced. -/
theorem fence_line_overtaken :
    Reachable (step sampleConfig) (start (Writer.new 1 none none)) overtaken ∧
      overtaken.lines =
        [.writerFenced "lease lost", .serialContractViolation "seq 7 is in use"] ∧
      ¬overtaken.lines.Pairwise
        (fun earlier later ↦ fatalPriority later < fatalPriority earlier) :=
  ⟨reachable_getD_of_run .refl (by decide +kernel), by decide +kernel, by decide +kernel⟩

end Alarm

end RelytIngest
