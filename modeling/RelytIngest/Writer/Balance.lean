import RelytIngest.Writer.Rows

/-!
# The ledger balances

`Rows.Balanced` is the invariant of the ledger: the entries of the sealed files followed by the
buffer are the entries pushed and not taken back, each once and with increasing offset ranges, the
highest offset is the end of the last of them, and the batch of an append that is still running is
the last of them. Every move keeps it (`Balanced.move`).
-/

set_option autoImplicit false
set_option relaxedAutoImplicit false

namespace RelytIngest

open Foundations Relation

namespace Rows

variable {β : Type} {cfg : WriterConfig β}

/-- The calls below this number have returned. -/
def settled (r : Rows β) : Nat :=
  match r.task with
  | .idle => r.calls
  | .checked entry | .pending entry _ _ => entry.call

/-- The calls below this number are the ones that may have pushed. -/
def opened (r : Rows β) : Nat :=
  match r.task with
  | .idle => r.calls
  | .checked entry => entry.call
  | .pending entry _ _ => entry.call + 1

/-- What the running append has done to the ledger. -/
def TaskValid (r : Rows β) : Prop :=
  match r.task with
  | .idle => True
  | .checked entry =>
    entry.call + 1 = r.calls ∧ 0 ≤ entry.startOffset ∧ entry.startOffset ≤ entry.endOffset
  | .pending entry maxEndBefore failure =>
    entry.call + 1 = r.calls ∧ (∀ err, failure = some err → err.isRefusal = false) ∧
      ∃ earlier, r.kept = earlier ++ [entry] ∧
        maxEndBefore = earlier.getLast?.map Entry.endOffset

/-- The invariant of the ledger. -/
structure Balanced (r : Rows β) : Prop where
  kept_eq : r.kept = r.pushed.filter fun e ↦ decide (e.call ∉ r.takenBack)
  ranges : r.kept.Pairwise fun first second ↦ first.endOffset < second.startOffset
  range : ∀ e ∈ r.kept, 0 ≤ e.startOffset ∧ e.startOffset ≤ e.endOffset
  maxEnd : r.st.maxEndOffset = r.kept.getLast?.map Entry.endOffset
  calls : r.pushed.Pairwise fun first second ↦ first.call < second.call
  pushed_lt : ∀ e ∈ r.pushed, e.call < r.opened
  takenBack_lt : ∀ call ∈ r.takenBack, call < r.settled
  returned_lt : ∀ o ∈ r.returned, o.entry.call < r.settled
  task : r.TaskValid

namespace Balanced

variable {r : Rows β}

theorem mem_pushed (h : r.Balanced) {e : Entry β} (he : e ∈ r.kept) : e ∈ r.pushed := by
  rw [h.kept_eq] at he
  exact (List.mem_filter.mp he).1

/-- Every accepted entry ends at or before the highest offset. -/
theorem endOffset_le (h : r.Balanced) {e : Entry β} (he : e ∈ r.kept) :
    ∃ maxEnd, r.st.maxEndOffset = some maxEnd ∧ e.endOffset ≤ maxEnd := by
  obtain ⟨earlier, last, hkept⟩ : ∃ earlier last, r.kept = earlier ++ [last] :=
    ⟨_, _, (List.dropLast_append_getLast (List.ne_nil_of_mem he)).symm⟩
  refine ⟨last.endOffset, by rw [h.maxEnd, hkept, List.getLast?_concat, Option.map_some], ?_⟩
  rw [hkept, List.mem_append, List.mem_singleton] at he
  rcases he with hearlier | rfl
  · have hranges := h.ranges
    rw [hkept, List.pairwise_append] at hranges
    have hbefore := hranges.2.2 e hearlier last (List.mem_singleton_self last)
    have hmem : last ∈ r.kept := hkept ▸ List.mem_append_right _ (List.mem_singleton_self last)
    have hlast := h.range last hmem
    exact (hbefore.trans_le hlast.2).le
  · exact le_rfl

/-- The calls of the accepted entries are distinct. -/
theorem kept_calls (h : r.Balanced) :
    r.kept.Pairwise fun first second ↦ first.call < second.call := by
  rw [h.kept_eq]
  exact h.calls.filter _

/-- The running append's batch is at the end of the buffer, unless the whole buffer was cut. -/
theorem pending_buffered (h : r.Balanced) {entry : Entry β} {maxEndBefore : Option Int}
    {failure : Option Error} (hpending : r.task = .pending entry maxEndBefore failure) :
    r.st.buffered = [] ∨ ∃ buffer, r.st.buffered = buffer ++ [entry] := by
  have htask := h.task
  simp only [TaskValid, hpending] at htask
  obtain ⟨-, -, earlier, hkept, -⟩ := htask
  rcases List.eq_nil_or_concat r.st.buffered with hnil | ⟨buffer, last, hbuffered⟩
  · exact Or.inl hnil
  · refine Or.inr ⟨buffer, ?_⟩
    rw [List.concat_eq_append] at hbuffered
    rw [kept, hbuffered, ← List.append_assoc] at hkept
    rw [hbuffered, (List.append_inj' hkept rfl).2]

end Balanced

/-- The ledger of a new writer balances. -/
theorem balanced_new (epochMs : Nat) (stagedOffset resumePersisted : Option Int) :
    (Writer.new epochMs stagedOffset resumePersisted : Writer β).rows.Balanced where
  kept_eq := rfl
  ranges := List.Pairwise.nil
  range := by simp [kept, Writer.rows, Writer.new, WriterState.core, WriterState.initial]
  maxEnd := rfl
  calls := List.Pairwise.nil
  pushed_lt := by simp [Writer.rows, Writer.new]
  takenBack_lt := by simp [Writer.rows, Writer.new]
  returned_lt := by simp [Writer.rows, Writer.new]
  task := trivial

section Steps

variable {r : Rows β}

/-- A return of the running append, or of a call that was refused. -/
theorem Balanced.returns {entry : Entry β} {maxEndBefore : Option Int} {calls : Nat}
    {result : Except Error Unit} (h : r.Balanced) (hcalls : entry.call + 1 = calls)
    (hsettled : r.settled ≤ entry.call) (hopened : r.opened ≤ calls) :
    ({ r with calls := calls }.returns entry maxEndBefore result).Balanced where
  kept_eq := h.kept_eq
  ranges := h.ranges
  range := h.range
  maxEnd := h.maxEnd
  calls := h.calls
  pushed_lt e he := (h.pushed_lt e he).trans_le hopened
  takenBack_lt call hcall := by
    have := h.takenBack_lt call hcall
    change call < calls
    omega
  returned_lt o ho := by
    change o.entry.call < calls
    rcases List.mem_append.mp ho with hold | hnew
    · have := h.returned_lt o hold
      omega
    · rw [List.mem_singleton.mp hnew]
      change entry.call < calls
      omega
  task := trivial

theorem Balanced.push {entry : Entry β} {now : Nat} (h : r.Balanced)
    (hchecked : r.task = .checked entry)
    (hcheck : r.st.checkForward entry.startOffset entry.endOffset = .ok ()) :
    ({ r with
        st := r.st.push cfg now entry
        pushed := r.pushed ++ [entry]
        task := .pending entry r.st.maxEndOffset none } : Rows β).Balanced := by
  have htask := h.task
  simp only [TaskValid, hchecked] at htask
  obtain ⟨hcall, hrange⟩ := htask
  have hopened : r.opened = entry.call := by simp [opened, hchecked]
  have hsettled : r.settled = entry.call := by simp [settled, hchecked]
  have hkept : ({ r with
      st := r.st.push cfg now entry
      pushed := r.pushed ++ [entry]
      task := .pending entry r.st.maxEndOffset none } : Rows β).kept = r.kept ++ [entry] :=
    (List.append_assoc _ _ _).symm
  have hfresh : entry.call ∉ r.takenBack := fun hmem ↦ by
    have := h.takenBack_lt _ hmem
    omega
  constructor
  case kept_eq =>
    rw [hkept, h.kept_eq, List.filter_append]
    simp [hfresh]
  case ranges =>
    rw [hkept]
    refine List.pairwise_append.mpr ⟨h.ranges, List.pairwise_singleton _ _, ?_⟩
    intro e he last hlast
    rw [List.mem_singleton.mp hlast]
    obtain ⟨maxEnd, hmax, hle⟩ := h.endOffset_le he
    exact hle.trans_lt (WriterState.checkForward_eq_ok_iff.mp hcheck maxEnd hmax)
  case range =>
    rw [hkept]
    intro e he
    rcases List.mem_append.mp he with hold | hnew
    · exact h.range e hold
    · exact List.mem_singleton.mp hnew ▸ hrange
  case maxEnd => rw [hkept, List.getLast?_concat, Option.map_some, WriterState.push]
  case calls =>
    refine List.pairwise_append.mpr ⟨h.calls, List.pairwise_singleton _ _, ?_⟩
    intro e he last hlast
    rw [List.mem_singleton.mp hlast]
    exact hopened ▸ h.pushed_lt e he
  case pushed_lt =>
    intro e he
    change e.call < entry.call + 1
    rcases List.mem_append.mp he with hold | hnew
    · have := h.pushed_lt e hold
      omega
    · rw [List.mem_singleton.mp hnew]
      omega
  case takenBack_lt => exact fun call hcall ↦ (h.takenBack_lt call hcall).trans_eq hsettled
  case returned_lt => exact fun o ho ↦ (h.returned_lt o ho).trans_eq hsettled
  case task => exact ⟨hcall, by simp, r.kept, hkept, h.maxEnd⟩

/-- What a batch is taken back from: it is the last one pushed, and still in the buffer. -/
theorem Balanced.unbuffer_some {entry taken : Entry β} {maxEndBefore : Option Int}
    {failure : Option Error} {st : WriterState β} (h : r.Balanced)
    (hpending : r.task = .pending entry maxEndBefore failure)
    (hunbuffer : r.st.unbuffer cfg entry.startOffset entry.endOffset maxEndBefore =
      some (taken, st)) :
    ∃ buffer, r.st.buffered = buffer ++ [entry] ∧ taken = entry ∧ st.buffered = buffer ∧
      st = r.st.droppedState cfg entry maxEndBefore ∧ st.maxEndOffset = maxEndBefore := by
  rcases h.pending_buffered hpending with hnil | ⟨buffer, hbuffered⟩
  · rw [WriterState.unbuffer_nil hnil] at hunbuffer
    simp at hunbuffer
  · rw [WriterState.unbuffer_append hbuffered] at hunbuffer
    obtain ⟨rfl, rfl⟩ := Prod.ext_iff.mp (Option.some.inj hunbuffer)
    have hmax : r.st.maxEndOffset = some entry.endOffset := by
      rw [h.maxEnd, kept, hbuffered, ← List.append_assoc, List.getLast?_concat, Option.map_some]
    refine ⟨buffer, hbuffered, rfl, ?_, rfl, ?_⟩
    · simp [WriterState.droppedState, hbuffered]
    · simp [WriterState.droppedState, hmax]

theorem Balanced.takeBack {entry taken : Entry β} {maxEndBefore : Option Int} {err : Error}
    {st : WriterState β} (h : r.Balanced)
    (hpending : r.task = .pending entry maxEndBefore (some err))
    (hunbuffer : r.st.unbuffer cfg entry.startOffset entry.endOffset maxEndBefore =
      some (taken, st)) :
    ({ r with st := st, takenBack := r.takenBack ++ [taken.call] }.returns entry maxEndBefore
      (.error err)).Balanced := by
  obtain ⟨buffer, hbuffered, rfl, hbuffer, -, hmax⟩ := h.unbuffer_some hpending hunbuffer
  have htask := h.task
  simp only [TaskValid, hpending] at htask
  obtain ⟨hcall, -, earlier, hkept, hbefore⟩ := htask
  have hsettled : r.settled = taken.call := by simp [settled, hpending]
  have hopened : r.opened = taken.call + 1 := by simp [opened, hpending]
  obtain rfl : earlier = r.cuts.flatMap Cut.entries ++ buffer := by
    rw [kept, hbuffered, ← List.append_assoc] at hkept
    exact (List.append_inj' hkept rfl).1.symm
  have hcalls := h.kept_calls
  have hranges := h.ranges
  rw [hkept, List.pairwise_append] at hcalls hranges
  have hnew : ({ r with st := st, takenBack := r.takenBack ++ [taken.call] }.returns taken
      maxEndBefore (.error err)).kept = r.cuts.flatMap Cut.entries ++ buffer :=
    congrArg (r.cuts.flatMap Cut.entries ++ ·) hbuffer
  constructor
  case kept_eq =>
    -- of the entries kept so far, exactly the one taken back has its call
    rw [hnew]
    have hfilter := congrArg (List.filter fun e ↦ decide (e.call ≠ taken.call)) h.kept_eq
    rw [hkept, List.filter_append, List.filter_filter] at hfilter
    have hsame : (r.cuts.flatMap Cut.entries ++ buffer).filter
        (fun e ↦ decide (e.call ≠ taken.call)) = r.cuts.flatMap Cut.entries ++ buffer := by
      refine List.filter_eq_self.mpr fun e he ↦ ?_
      have := hcalls.2.2 e he taken (List.mem_singleton_self _)
      simp only [decide_eq_true_eq]
      omega
    rw [hsame] at hfilter
    simp only [ne_eq, not_true_eq_false, decide_false, List.filter_cons_of_neg, List.filter_nil,
      List.append_nil, Bool.false_eq_true, not_false_eq_true] at hfilter
    rw [hfilter]
    refine List.filter_congr fun e _ ↦ ?_
    simp [Rows.returns, and_comm]
  case ranges => exact hnew ▸ hranges.1
  case range =>
    rw [hnew]
    intro e he
    exact h.range e (hkept ▸ List.mem_append_left _ he)
  case maxEnd => exact hnew ▸ hmax.trans hbefore
  case calls => exact h.calls
  case pushed_lt =>
    intro e he
    change e.call < r.calls
    have := h.pushed_lt e he
    omega
  case takenBack_lt =>
    intro call hmem
    change call < r.calls
    rcases List.mem_append.mp hmem with hold | hlast
    · have := h.takenBack_lt call hold
      omega
    · rw [List.mem_singleton.mp hlast]
      omega
  case returned_lt =>
    intro o ho
    change o.entry.call < r.calls
    rcases List.mem_append.mp ho with hold | hlast
    · have := h.returned_lt o hold
      omega
    · rw [List.mem_singleton.mp hlast]
      change taken.call < r.calls
      omega
  case task => trivial

/-- A cut moves the buffer behind the sealed files. -/
theorem kept_cut (sealed : Sealed β) (st : WriterState β) (hempty : st.buffered = []) :
    ({ r with st := st, cuts := r.cuts ++ [⟨sealed, r.st.buffered⟩] } : Rows β).kept = r.kept := by
  simp [kept, hempty]

/-- Moves that leave the accepted entries and the highest offset as they are. -/
theorem Balanced.congr {r' : Rows β} (h : r.Balanced) (hkept : r'.kept = r.kept)
    (hmax : r'.st.maxEndOffset = r.st.maxEndOffset) (hpushed : r'.pushed = r.pushed)
    (htaken : r'.takenBack = r.takenBack) (hreturned : r'.returned = r.returned)
    (hsettled : r'.settled = r.settled) (hopened : r'.opened = r.opened) (htask : r'.TaskValid) :
    r'.Balanced where
  kept_eq := by rw [hkept, hpushed, htaken, h.kept_eq]
  ranges := hkept ▸ h.ranges
  range := hkept ▸ h.range
  maxEnd := by rw [hmax, hkept, h.maxEnd]
  calls := hpushed ▸ h.calls
  pushed_lt := by rw [hpushed, hopened]; exact h.pushed_lt
  takenBack_lt := by rw [htaken, hsettled]; exact h.takenBack_lt
  returned_lt := by rw [hreturned, hsettled]; exact h.returned_lt
  task := htask

theorem TaskValid.congr {r' : Rows β} (h : r.TaskValid) (hkept : r'.kept = r.kept)
    (hcalls : r'.calls = r.calls) (htask : r'.task = r.task) : r'.TaskValid := by
  unfold TaskValid at h ⊢
  rwa [hkept, hcalls, htask]

/-- The ledger stays balanced. -/
theorem Balanced.move {r' : Rows β} (h : r.Balanced) (hmove : Move cfg r r') : r'.Balanced := by
  cases hmove with
  | refuse entry err hidle hcall herr =>
    refine h.returns (by rw [hcall]) ?_ ?_ <;> simp [settled, opened, hidle, hcall]
  | check entry hidle hcall hrange =>
    exact h.congr rfl rfl rfl rfl rfl (by simp [settled, hidle, hcall])
      (by simp [opened, hidle, hcall]) ⟨by rw [hcall], hrange⟩
  | reject entry err hchecked hcheck =>
    have htask := h.task
    simp only [TaskValid, hchecked] at htask
    exact h.returns htask.1 (by simp [settled, hchecked]) (by simp [opened, hchecked]; omega)
  | push entry now hchecked hcheck => exact h.push hchecked hcheck
  | accept entry maxEndBefore hpending =>
    have htask := h.task
    simp only [TaskValid, hpending] at htask
    exact h.returns htask.1 (by simp [settled, hpending]) (by simp [opened, hpending]; omega)
  | fail entry maxEndBefore err hpending herr =>
    have htask := h.task
    simp only [TaskValid, hpending] at htask
    refine h.congr rfl rfl rfl rfl rfl (by simp [settled, hpending]) (by simp [opened, hpending])
      ⟨htask.1, ?_, htask.2.2⟩
    rintro _ ⟨rfl⟩
    exact herr
  | takeBack entry maxEndBefore err taken st hpending hunbuffer =>
    exact h.takeBack hpending hunbuffer
  | keep entry maxEndBefore err hpending hunbuffer =>
    have htask := h.task
    simp only [TaskValid, hpending] at htask
    exact h.returns htask.1 (by simp [settled, hpending]) (by simp [opened, hpending]; omega)
  | cut now agedOnly sealed st hseal =>
    obtain ⟨first, rest, -, -, -, rfl⟩ := WriterState.sealBuffer_some hseal
    have hkept := kept_cut (r := r) sealed (r.st.sealedState now sealed.fileMeta).core rfl
    exact h.congr hkept WriterState.rolled_maxEndOffset rfl rfl rfl rfl rfl
      (h.task.congr hkept rfl rfl)
  | roll now agedOnly err st hseal =>
    obtain ⟨rfl, -⟩ := WriterState.sealBuffer_error hseal
    have hkept : ({ r with st := r.st.rolled } : Rows β).kept = r.kept := by
      simp [kept]
    exact h.congr hkept WriterState.rolled_maxEndOffset rfl rfl rfl rfl rfl
      (h.task.congr hkept rfl rfl)

end Steps

end Rows

end RelytIngest
