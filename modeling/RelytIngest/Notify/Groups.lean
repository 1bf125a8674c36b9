import RelytIngest.Foundations.LabelledRun
import RelytIngest.Notify.Loop
import Mathlib.Data.List.Induction

/-!
# The notifier

One notifier serves all writers of a process. It keeps a queue and a loop task for each serial
group, spawned with the first request, and one report board. `Notifier.step` is its machine:
requests are enqueued, the tasks take and submit them, and a writer that opens its table clears the
violation that is recorded for its group. `enqueued` and `settled` remember what came in and what
was answered.

The groups do not disturb each other (`Notifier.alone`): what a group goes through in a run is what
it goes through in the run without the others. Within a group every request is settled once and in
order, and the confirmed entry is that of the last accepted one (`Notifier.settled_in_order`).
-/

set_option autoImplicit false
set_option relaxedAutoImplicit false

namespace RelytIngest

open Foundations

/-- A loop task without the board. -/
structure NotifyTask where
  client : Bool
  backoffMs : Nat
  inHand : Option NotifyRequest
  rx : List NotifyRequest

/-- The task, reporting to a board. -/
def NotifyTask.on (task : NotifyTask) (board : NotifyState) : NotifyLoop :=
  ⟨task.client, task.backoffMs, task.inHand, task.rx, board⟩

def NotifyTask.pending (task : NotifyTask) : List NotifyRequest := task.inHand.toList ++ task.rx

namespace NotifyLoop

/-- The loop without the board. -/
def task (loop : NotifyLoop) : NotifyTask := ⟨loop.client, loop.backoffMs, loop.inHand, loop.rx⟩

/-- The request a turn settles, with the answer. -/
def settles (loop : NotifyLoop) (t : Turn) : List (NotifyRequest × SubmitOutcome) :=
  match loop.submission t, t.answer with
  | some req, .ok outcome => [(req, outcome)]
  | _, _ => []

end NotifyLoop

structure Notifier where
  tasks : Text → Option NotifyTask
  board : NotifyState
  /-- The requests that came in. -/
  enqueued : List NotifyRequest
  /-- The requests that were answered for good. -/
  settled : List (NotifyRequest × SubmitOutcome)

inductive NotifierAction
  | enqueue (req : NotifyRequest)
  | receive (group : Text)
  | turn (group : Text) (t : Turn)
  | clearFatal (group : Text)

/-- The group an action is about. -/
def NotifierAction.group : NotifierAction → Text
  | enqueue req => req.serialGroup
  | receive group | turn group _ | clearFatal group => group

namespace Notifier

/-- `Notifier::spawn`. -/
def spawn : Notifier where
  tasks _ := none
  board := .empty
  enqueued := []
  settled := []

/-- The task of a group, spawned when there is none. -/
def taskOf (n : Notifier) (group : Text) : NotifyTask :=
  (n.tasks group).getD (NotifyLoop.spawn n.board []).task

def step (n : Notifier) : NotifierAction → Option Notifier
  | .enqueue req =>
    let loop := ((n.taskOf req.serialGroup).on n.board).enqueue req
    some { n with
      tasks := Function.update n.tasks req.serialGroup (some loop.task)
      enqueued := n.enqueued ++ [req] }
  | .receive group =>
    (n.tasks group).bind fun task ↦
      if task.inHand.isNone && !task.rx.isEmpty then
        some { n with tasks := Function.update n.tasks group (some (task.on n.board).receive.task) }
      else none
  | .turn group t =>
    (n.tasks group).bind fun task ↦
      if task.inHand.isSome then
        let loop := (task.on n.board).turn t
        some { n with
          tasks := Function.update n.tasks group (some loop.task)
          board := loop.board
          settled := n.settled ++ (task.on n.board).settles t }
      else none
  | .clearFatal group =>
    some { n with board := { n.board with fatal := Function.update n.board.fatal group none } }

/-- The requests of a group that are not settled. -/
def pending (n : Notifier) (group : Text) : List NotifyRequest := (n.taskOf group).pending

/-! ### What a turn does -/

/-- A turn drops the request that it settles. -/
theorem pending_turn (task : NotifyTask) (board : NotifyState) (t : Turn) :
    ((task.on board).settles t).map Prod.fst ++ ((task.on board).turn t).task.pending =
      task.pending := by
  cases hhand : task.inHand with
  | none => simp [NotifyTask.on, NotifyLoop.settles, NotifyLoop.submission, NotifyLoop.turn,
      NotifyLoop.task, NotifyTask.pending, hhand]
  | some req =>
    by_cases hconnected : (task.client || t.connects) = true
    · rcases hanswer : t.answer with err | (_ | _ | message) <;>
        simp [NotifyTask.on, NotifyLoop.settles, NotifyLoop.submission, NotifyLoop.turn,
          NotifyLoop.task, NotifyTask.pending, hhand, hconnected, hanswer]
    · simp [NotifyTask.on, NotifyLoop.settles, NotifyLoop.submission, NotifyLoop.turn,
        NotifyLoop.task, NotifyTask.pending, hhand, hconnected]

/-- What is reported of a settled request. -/
def report (board : NotifyState) : List (NotifyRequest × SubmitOutcome) → NotifyState
  | (req, .accepted) :: _ | (req, .idempotent) :: _ => board.confirm req
  | (req, .contractViolation message) :: _ => board.violate req message
  | [] => board

/-- A turn reports what it settles, and the task does not depend on the board. -/
theorem turn_eq (task : NotifyTask) (board : NotifyState) (t : Turn) :
    ((task.on board).turn t).board = report board ((task.on board).settles t) ∧
      (∀ other, ((task.on other).turn t).task = ((task.on board).turn t).task) ∧
      ∀ other, (task.on other).settles t = (task.on board).settles t := by
  refine ⟨?_, fun other ↦ ?_, fun other ↦ rfl⟩
  · cases hhand : task.inHand with
    | none => simp [NotifyTask.on, NotifyLoop.settles, NotifyLoop.submission, NotifyLoop.turn,
        report, hhand]
    | some req =>
      by_cases hconnected : (task.client || t.connects) = true
      · rcases hanswer : t.answer with err | (_ | _ | message) <;>
          simp [NotifyTask.on, NotifyLoop.settles, NotifyLoop.submission, NotifyLoop.turn,
            report, hhand, hconnected, hanswer]
      · simp [NotifyTask.on, NotifyLoop.settles, NotifyLoop.submission, NotifyLoop.turn,
          report, hhand, hconnected]
  · simp only [NotifyTask.on, NotifyLoop.turn]
    split
    · rfl
    · by_cases hconnected : (task.client || t.connects) = true
      · simp only [hconnected, if_true]
        split <;> rfl
      · simp only [hconnected]
        rfl

/-- What a turn settles is the first request of the task. -/
theorem settles_subset (task : NotifyTask) (board : NotifyState) (t : Turn) :
    ∀ entry ∈ (task.on board).settles t, entry.1 ∈ task.pending := by
  intro entry hentry
  rw [← pending_turn task board t]
  exact List.mem_append_left _ (List.mem_map_of_mem hentry)

/-- What a task takes does not depend on the board. -/
theorem receive_eq (task : NotifyTask) (board other : NotifyState) :
    (task.on other).receive.task = (task.on board).receive.task := by
  simp only [NotifyTask.on, NotifyLoop.receive]
  split <;> rfl

theorem pending_receive (task : NotifyTask) (board : NotifyState) :
    (task.on board).receive.task.pending = task.pending :=
  NotifyLoop.receive_pending (task.on board)

theorem pending_enqueue (task : NotifyTask) (board : NotifyState) (req : NotifyRequest) :
    ((task.on board).enqueue req).task.pending = task.pending ++ [req] :=
  NotifyLoop.enqueue_pending (task.on board) req

/-! ### Order within a group -/

/-- The task of a group after another one was put in its place. -/
theorem taskOf_update {n n' : Notifier} {group : Text} {task : NotifyTask}
    (htasks : n'.tasks = Function.update n.tasks group (some task)) (other : Text) :
    n'.pending other = if other = group then task.pending else n.pending other := by
  simp only [pending, taskOf, htasks]
  by_cases h : other = group
  · simp [h]
  · simp only [h, if_false, Function.update_of_ne h]
    rfl

theorem taskOf_of_tasks {n : Notifier} {group : Text} {task : NotifyTask}
    (htask : n.tasks group = some task) : n.pending group = task.pending := by
  rw [pending, taskOf, htask, Option.getD_some]

/-- The requests of a group. -/
def ofGroup (group : Text) (requests : List NotifyRequest) : List NotifyRequest :=
  requests.filter fun req ↦ decide (req.serialGroup = group)

theorem ofGroup_append (group : Text) (first second : List NotifyRequest) :
    ofGroup group (first ++ second) = ofGroup group first ++ ofGroup group second :=
  List.filter_append first second

theorem ofGroup_self {group : Text} {requests : List NotifyRequest}
    (h : ∀ req ∈ requests, req.serialGroup = group) : ofGroup group requests = requests :=
  List.filter_eq_self.mpr fun req hreq ↦ decide_eq_true (h req hreq)

theorem ofGroup_other {group other : Text} (hne : other ≠ group) {requests : List NotifyRequest}
    (h : ∀ req ∈ requests, req.serialGroup = group) : ofGroup other requests = [] :=
  List.filter_eq_nil_iff.mpr fun req hreq ↦ by simp [h req hreq, hne.symm]

/-- The requests of a group that came in are those settled, followed by those pending. -/
def Conserves (n : Notifier) : Prop :=
  ∀ group, ofGroup group n.enqueued = ofGroup group (n.settled.map Prod.fst) ++ n.pending group

theorem Conserves.keyed {n : Notifier} (h : n.Conserves) {group : Text} {req : NotifyRequest}
    (hreq : req ∈ n.pending group) : req.serialGroup = group := by
  have hmem : req ∈ ofGroup group n.enqueued := by
    rw [h group]
    exact List.mem_append_right _ hreq
  exact of_decide_eq_true (List.mem_filter.mp hmem).2

theorem Conserves.step {n n' : Notifier} {action : NotifierAction} (h : n.Conserves)
    (hstep : n.step action = some n') : n'.Conserves := by
  intro other
  cases action with
  | enqueue req =>
    obtain rfl := Option.some.inj hstep
    rw [taskOf_update rfl, pending_enqueue, ofGroup_append, h other]
    by_cases hother : other = req.serialGroup
    · subst hother
      have hown : ofGroup req.serialGroup [req] = [req] := ofGroup_self (by simp)
      rw [if_pos rfl, hown, List.append_assoc]
      rfl
    · have hnone : ofGroup other [req] = [] := ofGroup_other hother (by simp)
      rw [if_neg hother, hnone, List.append_nil]
  | receive group =>
    obtain ⟨task, htask, hready⟩ := Option.bind_eq_some_iff.mp hstep
    split_ifs at hready
    obtain rfl := Option.some.inj hready
    rw [taskOf_update rfl, pending_receive, ← taskOf_of_tasks htask]
    by_cases hother : other = group
    · rw [if_pos hother, ← hother]
      exact h other
    · rw [if_neg hother]
      exact h other
  | turn group t =>
    obtain ⟨task, htask, hbusy⟩ := Option.bind_eq_some_iff.mp hstep
    split_ifs at hbusy
    obtain rfl := Option.some.inj hbusy
    have hsettles :
        ∀ req ∈ ((task.on n.board).settles t).map Prod.fst, req.serialGroup = group := by
      intro req hreq
      obtain ⟨entry, hentry, rfl⟩ := List.mem_map.mp hreq
      exact h.keyed (taskOf_of_tasks htask ▸ settles_subset task n.board t entry hentry)
    rw [taskOf_update rfl, List.map_append, ofGroup_append, h other]
    by_cases hother : other = group
    · subst hother
      rw [if_pos rfl, ofGroup_self hsettles, taskOf_of_tasks htask, List.append_assoc, pending_turn]
    · rw [if_neg hother, ofGroup_other hother hsettles, List.append_nil]
  | clearFatal group =>
    obtain rfl := Option.some.inj hstep
    exact h other

/-! ### What is confirmed -/

/-- The requests that the server accepted or knew already. -/
def accepted (settled : List (NotifyRequest × SubmitOutcome)) : List NotifyRequest :=
  settled.filterMap fun entry ↦
    match entry.2 with
    | .accepted | .idempotent => some entry.1
    | .contractViolation _ => none

/-- The entry after another request was accepted. -/
def raise (slot : Option (Int × Int)) (req : NotifyRequest) : Option (Int × Int) :=
  let slot := slot.getD (req.serialSeq, req.endOffset)
  some (if slot.1 ≤ req.serialSeq then (req.serialSeq, req.endOffset) else slot)

/-- The entry of a group follows the accepted requests of the group, and a violation that is
recorded is the server's answer to one of them. -/
structure Reported (n : Notifier) : Prop where
  confirmed : ∀ group, n.board.confirmed group = (ofGroup group (accepted n.settled)).foldl raise none
  fatal : ∀ group message, n.board.fatal group = some message →
    ∃ req, req.serialGroup = group ∧ (req, .contractViolation message) ∈ n.settled

theorem accepted_append (first second : List (NotifyRequest × SubmitOutcome)) :
    accepted (first ++ second) = accepted first ++ accepted second :=
  List.filterMap_append

theorem Reported.more {n : Notifier} (h : n.Reported) {entry : NotifyRequest × SubmitOutcome} :
    ({ n with board := report n.board [entry], settled := n.settled ++ [entry] } :
      Notifier).Reported := by
  obtain ⟨req, outcome⟩ := entry
  have hfatal (message : String) (group : Text)
      (hmessage : n.board.fatal group = some message) :
      ∃ r, r.serialGroup = group ∧
        (r, .contractViolation message) ∈ n.settled ++ [(req, outcome)] := by
    obtain ⟨r, hr, hmem⟩ := h.fatal group message hmessage
    exact ⟨r, hr, List.mem_append_left _ hmem⟩
  have hconfirm (hresult : accepted [(req, outcome)] = [req]) (group : Text) :
      (n.board.confirm req).confirmed group =
        (ofGroup group (accepted (n.settled ++ [(req, outcome)]))).foldl raise none := by
    rw [accepted_append, ofGroup_append, List.foldl_append, ← h.confirmed, hresult]
    by_cases hgroup : group = req.serialGroup
    · rw [ofGroup_self (by simp [hgroup])]
      simp [NotifyState.confirm, raise, hgroup]
    · rw [ofGroup_other hgroup (by simp)]
      simp [NotifyState.confirm, Function.update_of_ne hgroup]
  cases outcome with
  | accepted => exact ⟨hconfirm rfl, fun group message hmessage ↦ hfatal message group hmessage⟩
  | idempotent => exact ⟨hconfirm rfl, fun group message hmessage ↦ hfatal message group hmessage⟩
  | contractViolation reason =>
    refine ⟨fun group ↦ ?_, fun group message hmessage ↦ ?_⟩
    · show n.board.confirmed group = (ofGroup group (accepted (n.settled ++ _))).foldl raise none
      rw [accepted_append, h.confirmed]
      simp [accepted]
    · simp only [report, NotifyState.violate] at hmessage
      by_cases hgroup : group = req.serialGroup
      · subst hgroup
        rw [Function.update_self, Option.some.injEq] at hmessage
        cases hold : n.board.fatal req.serialGroup with
        | none =>
          rw [hold, Option.getD_none] at hmessage
          exact ⟨req, rfl, by simp [hmessage]⟩
        | some first =>
          rw [hold, Option.getD_some] at hmessage
          exact hfatal message _ (hmessage ▸ hold)
      · rw [Function.update_of_ne hgroup] at hmessage
        exact hfatal message group hmessage

/-- A turn settles at most one request. -/
theorem settles_cases (task : NotifyTask) (board : NotifyState) (t : Turn) :
    (task.on board).settles t = [] ∨ ∃ entry, (task.on board).settles t = [entry] := by
  unfold NotifyLoop.settles
  split
  · exact Or.inr ⟨_, rfl⟩
  · exact Or.inl rfl

theorem Reported.step {n n' : Notifier} {action : NotifierAction} (h : n.Reported)
    (hstep : n.step action = some n') : n'.Reported := by
  cases action with
  | enqueue req => exact Option.some.inj hstep ▸ ⟨h.confirmed, h.fatal⟩
  | receive group =>
    obtain ⟨task, -, hready⟩ := Option.bind_eq_some_iff.mp hstep
    split_ifs at hready
    exact Option.some.inj hready ▸ ⟨h.confirmed, h.fatal⟩
  | turn group t =>
    obtain ⟨task, -, hbusy⟩ := Option.bind_eq_some_iff.mp hstep
    split_ifs at hbusy
    obtain rfl := Option.some.inj hbusy
    rw [(turn_eq task n.board t).1]
    rcases settles_cases task n.board t with hnone | ⟨entry, hentry⟩
    · rw [hnone, List.append_nil]
      exact ⟨h.confirmed, h.fatal⟩
    · rw [hentry]
      exact ⟨h.more.confirmed, h.more.fatal⟩
  | clearFatal group =>
    obtain rfl := Option.some.inj hstep
    refine ⟨h.confirmed, fun other message hmessage ↦ h.fatal other message ?_⟩
    by_cases hother : other = group
    · simp [hother] at hmessage
    · simpa [Function.update_of_ne hother] using hmessage

/-- Of requests in order the last one accepted is the entry. -/
theorem foldl_raise {requests : List NotifyRequest}
    (hsorted : requests.Pairwise fun a b ↦ a.serialSeq ≤ b.serialSeq) :
    requests.foldl raise none = requests.getLast?.map fun req ↦ (req.serialSeq, req.endOffset) := by
  induction requests using List.reverseRecOn with
  | nil => rfl
  | append_singleton earlier last ih =>
    rw [List.pairwise_append] at hsorted
    rw [List.foldl_concat, ih hsorted.1, List.getLast?_concat, Option.map_some, raise]
    cases hprev : earlier.getLast? with
    | none => simp
    | some prev =>
      have hle := hsorted.2.2 prev (List.mem_of_getLast? hprev) last (List.mem_singleton_self last)
      simp [hle]

/-- In every run, whatever the server answers and in whichever order the groups are served: a
group's requests are settled once each and in order, a violation is recorded only when the server
reported one, and when the files of a group are numbered in order the confirmed entry is that of the
last one accepted. -/
theorem settled_in_order {n : Notifier} (hreach : Reachable step spawn n) (group : Text) :
    ofGroup group n.enqueued = ofGroup group (n.settled.map Prod.fst) ++ n.pending group ∧
      (∀ message, n.board.fatal group = some message →
        ∃ req, req.serialGroup = group ∧ (req, .contractViolation message) ∈ n.settled) ∧
      ((ofGroup group n.enqueued).Pairwise (fun a b ↦ a.serialSeq ≤ b.serialSeq) →
        n.board.confirmed group = (ofGroup group (accepted n.settled)).getLast?.map
          fun req ↦ (req.serialSeq, req.endOffset)) := by
  have hconserves : n.Conserves :=
    hreach.invariant (fun _ ↦ rfl) fun _ _ _ h hstep ↦ Conserves.step h hstep
  have hreported : n.Reported :=
    hreach.invariant ⟨fun _ ↦ rfl, by simp [spawn, NotifyState.empty]⟩
      fun _ _ _ h hstep ↦ Reported.step h hstep
  refine ⟨hconserves group, hreported.fatal group, fun hsorted ↦ ?_⟩
  rw [hreported.confirmed]
  have hsublist : (ofGroup group (accepted n.settled)).Sublist (ofGroup group n.enqueued) := by
    have haccepted : (accepted n.settled).Sublist (n.settled.map Prod.fst) := by
      induction n.settled with
      | nil => exact List.Sublist.slnil
      | cons entry rest ih =>
        obtain ⟨req, outcome⟩ := entry
        cases outcome with
        | accepted | idempotent => exact ih.cons_cons req
        | contractViolation => exact ih.cons req
    rw [hconserves group]
    exact (haccepted.filter _).trans (List.sublist_append_left _ _)
  exact foldl_raise (hsorted.sublist hsublist)

/-! ### The groups on their own -/

/-- The entries of one group. -/
def keep {α : Type} (group : Text) (entries : Text → Option α) : Text → Option α :=
  fun other ↦ if other = group then entries other else none

section Keep

variable {α : Type} {group other : Text} (entries : Text → Option α) (entry : Option α)

@[simp] theorem keep_self : keep group entries group = entries group := if_pos rfl

theorem keep_update_self :
    keep group (Function.update entries group entry) =
      Function.update (keep group entries) group entry := by
  funext g
  by_cases hg : g = group
  · simp [keep, hg]
  · simp [keep, hg]

theorem keep_update_of_ne (hne : other ≠ group) :
    keep group (Function.update entries other entry) = keep group entries := by
  funext g
  by_cases hg : g = group
  · simp [keep, hg, Function.update_of_ne hne.symm]
  · simp [keep, hg]

end Keep

/-- The part of a notifier that belongs to one group. -/
def only (n : Notifier) (group : Text) : Notifier where
  tasks := keep group n.tasks
  board := ⟨keep group n.board.confirmed, keep group n.board.fatal⟩
  enqueued := ofGroup group n.enqueued
  settled := n.settled.filter fun entry ↦ decide (entry.1.serialGroup = group)

/-- What is reported of a group's request is reported to its part of the board. -/
theorem report_only (board : NotifyState) {entry : NotifyRequest × SubmitOutcome} {group : Text} :
    (entry.1.serialGroup = group →
      (⟨keep group (report board [entry]).confirmed, keep group (report board [entry]).fatal⟩ :
        NotifyState) = report ⟨keep group board.confirmed, keep group board.fatal⟩ [entry]) ∧
    (entry.1.serialGroup ≠ group →
      keep group (report board [entry]).confirmed = keep group board.confirmed ∧
        keep group (report board [entry]).fatal = keep group board.fatal) := by
  obtain ⟨req, outcome⟩ := entry
  constructor
  · rintro rfl
    cases outcome <;> simp [report, NotifyState.confirm, NotifyState.violate, keep_update_self]
  · intro hne
    cases outcome with
    | accepted => exact ⟨keep_update_of_ne _ _ hne, rfl⟩
    | idempotent => exact ⟨keep_update_of_ne _ _ hne, rfl⟩
    | contractViolation message => exact ⟨rfl, keep_update_of_ne _ _ hne⟩

/-- An action of a group is one of its part of the notifier, an action of another group leaves that
part alone. -/
theorem only_step {n n' : Notifier} {action : NotifierAction} (hconserves : n.Conserves)
    (hstep : n.step action = some n') (group : Text) :
    (action.group = group → (n.only group).step action = some (n'.only group)) ∧
      (action.group ≠ group → n'.only group = n.only group) := by
  cases action with
  | enqueue req =>
    obtain rfl := Option.some.inj hstep
    refine ⟨fun hown ↦ ?_, fun hne ↦ ?_⟩
    · have hown : req.serialGroup = group := hown
      subst hown
      simp [step, only, taskOf, keep_update_self, ofGroup]
      rfl
    · have hne : req.serialGroup ≠ group := hne
      simp [only, keep_update_of_ne _ _ hne, ofGroup, hne]
  | receive other =>
    obtain ⟨task, htask, hready⟩ := Option.bind_eq_some_iff.mp hstep
    split_ifs at hready with hidle
    obtain rfl := Option.some.inj hready
    refine ⟨fun hown ↦ ?_, fun hne ↦ ?_⟩
    · have hown : other = group := hown
      subst hown
      simp only [step, only, keep_self, htask, Option.bind_some, if_pos hidle,
        keep_update_self, receive_eq task n.board]
    · have hne : other ≠ group := hne
      simp [only, keep_update_of_ne _ _ hne]
  | turn other t =>
    obtain ⟨task, htask, hbusy⟩ := Option.bind_eq_some_iff.mp hstep
    split_ifs at hbusy with hhand
    obtain rfl := Option.some.inj hbusy
    have hsettles : ∀ entry ∈ (task.on n.board).settles t, entry.1.serialGroup = other :=
      fun entry hentry ↦
        hconserves.keyed (taskOf_of_tasks htask ▸ settles_subset task n.board t entry hentry)
    obtain ⟨hboard, htasks, hsame⟩ := turn_eq task n.board t
    refine ⟨fun hown ↦ ?_, fun hne ↦ ?_⟩
    · have hown : other = group := hown
      subst hown
      have hreport := (turn_eq task (n.only other).board t).1
      simp only [step, only, keep_self, htask, Option.bind_some, if_pos hhand,
        keep_update_self, htasks, hboard, hsame, List.filter_append] at hreport ⊢
      rw [hreport,
        List.filter_eq_self.mpr fun entry hentry ↦ decide_eq_true (hsettles entry hentry)]
      rcases settles_cases task n.board t with hnone | ⟨entry, hentry⟩
      · rw [hnone]
        rfl
      · rw [hentry, (report_only n.board).1 (hsettles entry (by simp [hentry]))]
    · have hne : other ≠ group := hne
      have hnone : ((task.on n.board).settles t).filter
          (fun entry ↦ decide (entry.1.serialGroup = group)) = [] :=
        List.filter_eq_nil_iff.mpr fun entry hentry ↦ by simp [hsettles entry hentry, hne]
      simp only [only, keep_update_of_ne _ _ hne, List.filter_append, hnone, List.append_nil,
        hboard]
      rcases settles_cases task n.board t with hquiet | ⟨entry, hentry⟩
      · rw [hquiet]
        rfl
      · have hother : entry.1.serialGroup ≠ group := by
          rw [hsettles entry (by simp [hentry])]
          exact hne
        rw [hentry, ((report_only n.board).2 hother).1, ((report_only n.board).2 hother).2]
  | clearFatal other =>
    obtain rfl := Option.some.inj hstep
    refine ⟨fun hown ↦ ?_, fun hne ↦ ?_⟩
    · have hown : other = group := hown
      subst hown
      simp [step, only, keep_update_self]
    · have hne : other ≠ group := hne
      simp [only, keep_update_of_ne _ _ hne]

/-- The actions of one group. -/
def actionsOf (group : Text) (actions : List NotifierAction) : List NotifierAction :=
  actions.filter fun action ↦ decide (action.group = group)

theorem run_only {n n' : Notifier} {actions : List NotifierAction} (hconserves : n.Conserves)
    (hrun : run step n actions = some n') (group : Text) :
    run step (n.only group) (actionsOf group actions) = some (n'.only group) := by
  induction actions generalizing n with
  | nil => exact congrArg (some ∘ fun m : Notifier ↦ m.only group) (Option.some.inj hrun)
  | cons action rest ih =>
    rw [run, Option.bind_eq_some_iff] at hrun
    obtain ⟨next, hstep, hrest⟩ := hrun
    have hnext := ih (hconserves.step hstep) hrest
    obtain ⟨hown, hother⟩ := only_step hconserves hstep group
    by_cases hgroup : action.group = group
    · have hfirst : actionsOf group (action :: rest) = action :: actionsOf group rest := by
        simp [actionsOf, hgroup]
      rw [hfirst, run, hown hgroup, Option.bind_some]
      exact hnext
    · have hskip : actionsOf group (action :: rest) = actionsOf group rest := by
        simp [actionsOf, hgroup]
      rw [hskip, ← hother hgroup]
      exact hnext

/-- A request of a group. -/
def groupRequest (group : Text) (serialSeq : Int) : NotifyRequest :=
  ⟨group, 10 * serialSeq + 9, group, group, 2, ',', true, serialSeq, none⟩

/-- The group `b` never gets through, the group `a` does. -/
def mixedActions : List NotifierAction :=
  [.enqueue (groupRequest ['b'] 0), .enqueue (groupRequest ['a'] 0), .receive ['b'],
    .turn ['b'] ⟨false, .error "refused"⟩, .enqueue (groupRequest ['a'] 1), .receive ['a'],
    .turn ['a'] ⟨true, .ok .accepted⟩, .turn ['b'] ⟨true, .error "reset"⟩, .clearFatal ['b'],
    .receive ['a'], .turn ['a'] ⟨false, .ok .idempotent⟩]

def mixedNotifier : Notifier := (run step spawn mixedActions).getD spawn

theorem mixedNotifier_run : run step spawn mixedActions = some mixedNotifier := rfl

theorem settled_in_order_mixed :
    ofGroup ['a'] mixedNotifier.enqueued =
        ofGroup ['a'] (mixedNotifier.settled.map Prod.fst) ++ mixedNotifier.pending ['a'] ∧
      (∀ message, mixedNotifier.board.fatal ['a'] = some message →
        ∃ req, req.serialGroup = ['a'] ∧ (req, .contractViolation message) ∈ mixedNotifier.settled) ∧
      mixedNotifier.board.confirmed ['a'] =
        (ofGroup ['a'] (accepted mixedNotifier.settled)).getLast?.map
          fun req ↦ (req.serialSeq, req.endOffset) := by
  obtain ⟨hqueue, hfatal, hconfirmed⟩ :=
    settled_in_order (reachable_of_run .refl mixedNotifier_run) ['a']
  exact ⟨hqueue, hfatal, hconfirmed (by decide +kernel)⟩

end Notifier

end RelytIngest
