import RelytIngest.Writer.SealedFiles

/-!
# An append is all or nothing

`Rows.Totals` says that the row and byte counts of the writer's state are those of its buffer, and
`Rows.Outcomes` what the result of an append says about its batch: an accepted one is among the
entries of the sealed files and the buffer, a refused or stalled one is not and left the highest
offset as it was. `all_or_nothing` states both for every reachable state of a writer, together with
when a stall is swallowed.

A refusal by the offset check repeats itself on a retry (`retry_refused_after_rewind`).
-/

set_option autoImplicit false
set_option relaxedAutoImplicit false

namespace RelytIngest

open Foundations Relation

/-- The errors after which an append has left nothing behind. -/
def Error.leavesNothing (err : Error) : Bool := err.isRefusal || err.isStagingStalled

namespace Rows

variable {β : Type} {cfg : WriterConfig β} {r r' : Rows β}

/-- The totals of the state are those of the buffer. -/
structure Totals (cfg : WriterConfig β) (r : Rows β) : Prop where
  rows : r.st.bufferedRows = (r.st.buffered.map fun e ↦ cfg.numRows e.batch).sum
  bytes : r.st.bufferedBytesEstimate = (r.st.buffered.map fun e ↦ cfg.memorySize e.batch).sum
  oldest : r.st.oldestBufferedAt = none ↔ r.st.buffered = []

/-- What the results of the appends say about their batches. -/
structure Outcomes (r : Rows β) : Prop where
  accepted : ∀ o ∈ r.returned, o.result = .ok () → o.entry ∈ r.kept
  refused : ∀ o ∈ r.returned, ∀ err, o.result = .error err → err.leavesNothing →
    ∀ e ∈ r.kept, e.call ≠ o.entry.call
  restored : r.task = .idle → ∀ o, r.returned.getLast? = some o → ∀ err, o.result = .error err →
    err.leavesNothing → r.st.maxEndOffset = o.maxEndBefore
  retried : ∀ o ∈ r.returned, ∀ err, o.result = .error err → err.isStagingStalled →
    ∀ maxEnd, o.maxEndBefore = some maxEnd → maxEnd < o.entry.startOffset

/-! ### The totals -/

theorem Totals.move (h : r.Totals cfg) (hbalanced : r.Balanced) (hmove : Move cfg r r') :
    r'.Totals cfg := by
  cases hmove with
  | refuse | check | reject | accept | fail | keep => exact ⟨h.rows, h.bytes, h.oldest⟩
  | push entry now =>
    refine ⟨?_, ?_, ?_⟩
    · simp [WriterState.push, h.rows]
    · simp [WriterState.push, h.bytes]
    · cases hold : r.st.oldestBufferedAt <;> simp [WriterState.push, hold]
  | takeBack entry maxEndBefore err taken st hpending hunbuffer =>
    obtain ⟨buffer, hbuffered, -, hbuffer, rfl, -⟩ := hbalanced.unbuffer_some hpending hunbuffer
    have hrows := h.rows
    have hbytes := h.bytes
    have holdest := h.oldest
    simp only [hbuffered, List.map_append, List.map_cons, List.map_nil, List.sum_append,
      List.sum_cons, List.sum_nil] at hrows hbytes
    refine ⟨?_, ?_, ?_⟩
    · simp [Rows.returns, WriterState.droppedState, hbuffered, hrows]
    · simp [Rows.returns, WriterState.droppedState, hbuffered, hbytes]
    · cases buffer <;> simp [Rows.returns, WriterState.droppedState, hbuffered, holdest]
  | cut now agedOnly sealed st hseal =>
    obtain ⟨first, rest, -, -, -, rfl⟩ := WriterState.sealBuffer_some hseal
    exact ⟨rfl, rfl, by simp [WriterState.sealedState, WriterState.core]⟩
  | roll now agedOnly err st hseal =>
    obtain ⟨rfl, -⟩ := WriterState.sealBuffer_error hseal
    rw [WriterState.rolled_eq]
    exact ⟨h.rows, h.bytes, h.oldest⟩

/-! ### The outcomes -/

/-- A return adds one outcome. -/
theorem Outcomes.returns {entry : Entry β} {maxEndBefore : Option Int}
    {result : Except Error Unit} (calls : Nat) (h : r.Outcomes)
    (haccepted : result = .ok () → entry ∈ r.kept)
    (hrefused : ∀ err, result = .error err → err.leavesNothing →
      (∀ e ∈ r.kept, e.call ≠ entry.call) ∧ r.st.maxEndOffset = maxEndBefore)
    (hretried : ∀ err, result = .error err → err.isStagingStalled →
      ∀ maxEnd, maxEndBefore = some maxEnd → maxEnd < entry.startOffset) :
    ({ r with calls := calls }.returns entry maxEndBefore result).Outcomes where
  accepted o ho hresult := by
    rcases List.mem_append.mp ho with hold | hnew
    · exact h.accepted o hold hresult
    · obtain rfl := List.mem_singleton.mp hnew
      exact haccepted hresult
  refused o ho err hresult herr := by
    rcases List.mem_append.mp ho with hold | hnew
    · exact h.refused o hold err hresult herr
    · obtain rfl := List.mem_singleton.mp hnew
      exact (hrefused err hresult herr).1
  restored _ o hlast err hresult herr := by
    rw [Rows.returns, List.getLast?_concat, Option.some.injEq] at hlast
    subst hlast
    exact (hrefused err hresult herr).2
  retried o ho err hresult herr := by
    rcases List.mem_append.mp ho with hold | hnew
    · exact h.retried o hold err hresult herr
    · obtain rfl := List.mem_singleton.mp hnew
      exact hretried err hresult herr

/-- Moves after which every outcome still stands. -/
theorem Outcomes.congr (h : r.Outcomes) (hreturned : r'.returned = r.returned)
    (hkept : ∀ o ∈ r.returned, o.entry ∈ r.kept → o.entry ∈ r'.kept)
    (hfresh : ∀ e ∈ r'.kept, e ∈ r.kept ∨ ∀ o ∈ r.returned, e.call ≠ o.entry.call)
    (hmax : r'.task = .idle → r.task = .idle ∧ r'.st.maxEndOffset = r.st.maxEndOffset) :
    r'.Outcomes where
  accepted o ho hresult := by
    rw [hreturned] at ho
    exact hkept o ho (h.accepted o ho hresult)
  refused o ho err hresult herr e he := by
    rw [hreturned] at ho
    rcases hfresh e he with hold | hnew
    · exact h.refused o ho err hresult herr e hold
    · exact hnew o ho
  restored hidle o hlast err hresult herr := by
    obtain ⟨hbefore, hsame⟩ := hmax hidle
    rw [hsame]
    exact h.restored hbefore o (hreturned ▸ hlast) err hresult herr
  retried o ho := h.retried o (hreturned ▸ ho)

/-- No accepted entry has a call that is still to push. -/
theorem Balanced.call_ne (h : r.Balanced) {call : Nat} (hcall : r.opened ≤ call) {e : Entry β}
    (he : e ∈ r.kept) : e.call ≠ call :=
  ((h.pushed_lt e (h.mem_pushed he)).trans_le hcall).ne

theorem Outcomes.move (h : r.Outcomes) (hbalanced : r.Balanced) (hmove : Move cfg r r') :
    r'.Outcomes := by
  cases hmove with
  | refuse entry err hidle hcall herr =>
    refine h.returns _ (by simp) (fun _ _ _ ↦ ⟨fun e he ↦ ?_, rfl⟩) ?_
    · exact hbalanced.call_ne (by simp [opened, hidle, hcall]) he
    · rintro _ ⟨rfl⟩ hstalled
      rw [herr] at hstalled
      simp at hstalled
  | check entry =>
    exact h.congr rfl (fun _ _ ↦ id) (fun _ ↦ Or.inl) (by simp)
  | reject entry err hchecked hcheck =>
    refine h.returns _ (by simp) (fun _ _ _ ↦ ⟨fun e he ↦ ?_, rfl⟩) ?_
    · exact hbalanced.call_ne (by simp [opened, hchecked]) he
    · rintro _ ⟨rfl⟩ hstalled
      simp only [WriterState.checkForward] at hcheck
      split at hcheck
      · split_ifs at hcheck
        rw [← Except.error.inj hcheck] at hstalled
        simp [Error.isStagingStalled] at hstalled
      · simp at hcheck
  | push entry now hchecked =>
    have hkept : r.cuts.flatMap Cut.entries ++ (r.st.buffered ++ [entry]) = r.kept ++ [entry] :=
      (List.append_assoc _ _ _).symm
    refine h.congr rfl (fun o _ ho ↦ ?_) (fun e he ↦ ?_) (by simp)
    · simp only [kept, WriterState.push, hkept]
      exact List.mem_append_left _ ho
    · simp only [kept, WriterState.push, hkept] at he
      rcases List.mem_append.mp he with hold | hnew
      · exact Or.inl hold
      · refine Or.inr fun o ho ↦ ?_
        have := hbalanced.returned_lt o ho
        simp only [settled, hchecked] at this
        rw [List.mem_singleton.mp hnew]
        exact this.ne'
  | accept entry maxEndBefore hpending =>
    have htask := hbalanced.task
    simp only [TaskValid, hpending] at htask
    obtain ⟨-, -, earlier, hkept, -⟩ := htask
    exact h.returns _ (fun _ ↦ hkept ▸ List.mem_append_right _ (List.mem_singleton_self _))
      (by simp) (by simp)
  | fail entry maxEndBefore err hpending =>
    exact h.congr rfl (fun _ _ ↦ id) (fun _ ↦ Or.inl) (by simp)
  | takeBack entry maxEndBefore err taken st hpending hunbuffer =>
    obtain ⟨buffer, hbuffered, rfl, hbuffer, -, hmax⟩ := hbalanced.unbuffer_some hpending hunbuffer
    have htask := hbalanced.task
    simp only [TaskValid, hpending] at htask
    obtain ⟨-, -, earlier, hkept, hbefore⟩ := htask
    have hnew : r.cuts.flatMap Cut.entries ++ st.buffered = earlier := by
      rw [kept, hbuffered, ← List.append_assoc] at hkept
      rw [hbuffer]
      exact (List.append_inj' hkept rfl).1
    have hcalls := hbalanced.kept_calls
    have hranges := hbalanced.ranges
    rw [hkept, List.pairwise_append] at hcalls hranges
    have hdropped : ({ r with st := st, takenBack := r.takenBack ++ [taken.call] } :
        Rows β).Outcomes := by
      refine h.congr rfl (fun o ho hmem ↦ ?_) (fun e he ↦ ?_) (by simp [hpending])
      · rw [hkept] at hmem
        rcases List.mem_append.mp hmem with hold | hlast
        · simpa only [kept, hnew] using hold
        · have := hbalanced.returned_lt o ho
          simp only [settled, hpending] at this
          rw [List.mem_singleton.mp hlast] at this
          exact absurd this (lt_irrefl _)
      · simp only [kept, hnew] at he
        exact Or.inl (hkept ▸ List.mem_append_left _ he)
    refine hdropped.returns r.calls (by simp) (fun _ _ _ ↦ ⟨fun e he ↦ ?_, hmax⟩) ?_
    · simp only [kept, hnew] at he
      exact (hcalls.2.2 e he taken (List.mem_singleton_self _)).ne
    · intro _ _ _ maxEnd hprev
      rw [hbefore, Option.map_eq_some_iff] at hprev
      obtain ⟨last, hlast, rfl⟩ := hprev
      exact hranges.2.2 last (List.mem_of_getLast? hlast) taken (List.mem_singleton_self _)
  | keep entry maxEndBefore err hpending hunbuffer =>
    have htask := hbalanced.task
    simp only [TaskValid, hpending] at htask
    obtain ⟨-, hrefusal, earlier, hkept, -⟩ := htask
    have hmem : entry ∈ r.kept := hkept ▸ List.mem_append_right _ (List.mem_singleton_self _)
    cases hstalled : err.isStagingStalled with
    | true => exact h.returns _ (fun _ ↦ hmem) (by simp) (by simp)
    | false =>
      refine h.returns _ (by simp) ?_ ?_
      · simp [Error.leavesNothing, hrefusal err rfl, hstalled]
      · simp [hstalled]
  | cut now agedOnly sealed st hseal =>
    obtain ⟨first, rest, -, -, -, rfl⟩ := WriterState.sealBuffer_some hseal
    have hkept := kept_cut (r := r) sealed (r.st.sealedState now sealed.fileMeta).core rfl
    exact h.congr rfl (fun _ _ ho ↦ hkept ▸ ho) (fun _ he ↦ Or.inl (hkept ▸ he))
      fun hidle ↦ ⟨hidle, WriterState.rolled_maxEndOffset⟩
  | roll now agedOnly err st hseal =>
    obtain ⟨rfl, -⟩ := WriterState.sealBuffer_error hseal
    have hkept : ({ r with st := r.st.rolled } : Rows β).kept = r.kept := by simp [kept]
    exact h.congr rfl (fun _ _ ho ↦ hkept ▸ ho) (fun _ he ↦ Or.inl (hkept ▸ he))
      fun hidle ↦ ⟨hidle, WriterState.rolled_maxEndOffset⟩

theorem totals_new (cfg : WriterConfig β) (epochMs : Nat)
    (stagedOffset resumePersisted : Option Int) :
    (Writer.new epochMs stagedOffset resumePersisted : Writer β).rows.Totals cfg where
  rows := rfl
  bytes := rfl
  oldest := by simp [Writer.rows, Writer.new, WriterState.core, WriterState.initial]

theorem outcomes_new (epochMs : Nat) (stagedOffset resumePersisted : Option Int) :
    (Writer.new epochMs stagedOffset resumePersisted : Writer β).rows.Outcomes := by
  constructor <;> simp [Writer.rows, Writer.new]

end Rows

namespace Writer

variable {β : Type} {cfg : WriterConfig β} {w : Writer β}

/-- The entries of the sealed files in order, then those of the buffer. -/
def places (w : Writer β) : List (Entry β) := w.trace.cuts.flatMap Cut.entries ++ w.st.buffered

/-- What the end of an append says about its batch. -/
structure AllOrNothing (cfg : WriterConfig β) (w : Writer β) : Prop where
  /-- A sealed file holds the batches of its entries. -/
  sealedBatches : ∀ cut ∈ w.trace.cuts, cut.file.batches = cut.entries.map Entry.batch
  /-- An accepted batch is in one place, once. -/
  accepted : ∀ o ∈ w.trace.returned, o.result = .ok () →
    w.places.filter (fun e ↦ decide (e.call = o.entry.call)) = [o.entry]
  /-- A refused or stalled batch is nowhere. -/
  refused : ∀ o ∈ w.trace.returned, ∀ err, o.result = .error err → err.leavesNothing →
    w.places.filter (fun e ↦ decide (e.call = o.entry.call)) = []
  bufferedRows : w.st.bufferedRows = (w.st.buffered.map fun e ↦ cfg.numRows e.batch).sum
  bufferedBytes :
    w.st.bufferedBytesEstimate = (w.st.buffered.map fun e ↦ cfg.memorySize e.batch).sum
  maxEndOffset : w.st.maxEndOffset = w.places.getLast?.map Entry.endOffset
  /-- A refused or stalled append leaves the highest offset as it found it. -/
  untouched : w.append = .idle → ∀ o, w.trace.returned.getLast? = some o → ∀ err,
    o.result = .error err → err.leavesNothing → w.st.maxEndOffset = o.maxEndBefore
  /-- The offset check admits the range of a stalled append again. -/
  retried : w.append = .idle → ∀ o, w.trace.returned.getLast? = some o → ∀ err,
    o.result = .error err → err.isStagingStalled →
      w.st.checkForward o.entry.startOffset o.entry.endOffset = .ok ()
  /-- A stall is swallowed exactly when a sealer has taken the batch. -/
  swallowed : ∀ entry maxEndBefore err w', w.append = .unbuffering entry maxEndBefore err →
    err.isStagingStalled → w.step cfg .appendUnbuffer = some w' →
      (w'.trace.returned = w.trace.returned ++ [⟨entry, maxEndBefore, .ok ()⟩] ↔
        entry ∈ w.trace.cuts.flatMap Cut.entries)

/-- The accepted entries have distinct calls, so a call picks its own entry. -/
theorem filter_call {entries : List (Entry β)}
    (hcalls : entries.Pairwise fun first second ↦ first.call < second.call) {entry : Entry β}
    (hentry : entry ∈ entries) :
    entries.filter (fun e ↦ decide (e.call = entry.call)) = [entry] := by
  obtain ⟨earlier, later, rfl⟩ := List.append_of_mem hentry
  rw [List.pairwise_append, List.pairwise_cons] at hcalls
  have hearlier : earlier.filter (fun e ↦ decide (e.call = entry.call)) = [] := by
    refine List.filter_eq_nil_iff.mpr fun e he ↦ ?_
    have := hcalls.2.2 e he entry List.mem_cons_self
    simp only [decide_eq_true_eq]
    omega
  have hlater : later.filter (fun e ↦ decide (e.call = entry.call)) = [] := by
    refine List.filter_eq_nil_iff.mpr fun e he ↦ ?_
    have := hcalls.2.1.1 e he
    simp only [decide_eq_true_eq]
    omega
  simp [List.filter_append, hearlier, hlater]

/-- A pending batch was cut exactly when the buffer it was pushed to is gone. -/
theorem mem_cuts_iff {entry : Entry β} {maxEndBefore : Option Int} {err : Error}
    (hbalanced : w.rows.Balanced) (happend : w.append = .unbuffering entry maxEndBefore err) :
    entry ∈ w.trace.cuts.flatMap Cut.entries ↔ w.st.buffered = [] := by
  have hpending : w.rows.task = .pending entry maxEndBefore (some err) := by
    simp [rows, AppendTask.rows, happend]
  have hcalls := hbalanced.kept_calls
  rw [Rows.kept, List.pairwise_append] at hcalls
  constructor
  · intro hcut
    rcases hbalanced.pending_buffered hpending with hnil | ⟨buffer, hbuffered⟩
    · exact hnil
    · refine absurd (hcalls.2.2 entry hcut entry ?_) (lt_irrefl _)
      rw [hbuffered]
      exact List.mem_append_right _ (List.mem_singleton_self _)
  · intro hnil
    have htask := hbalanced.task
    simp only [Rows.TaskValid, hpending] at htask
    obtain ⟨-, -, earlier, hkept, -⟩ := htask
    have hmem : entry ∈ w.rows.kept := hkept ▸ List.mem_append_right _ (List.mem_singleton_self _)
    rw [Rows.kept] at hmem
    exact (List.mem_append.mp hmem).resolve_right (by simp [rows, WriterState.core, hnil])

/-- The totals and the outcomes hold of the ledger of every reachable writer. -/
theorem ReachableFrom.outcomes {epochMs : Nat} {stagedOffset resumePersisted : Option Int}
    (hreach : ReachableFrom cfg epochMs stagedOffset resumePersisted w) :
    w.rows.Totals cfg ∧ w.rows.Outcomes := by
  have hstart : (new epochMs stagedOffset resumePersisted : Writer β).rows.Balanced ∧
      (new epochMs stagedOffset resumePersisted : Writer β).rows.Totals cfg ∧
      (new epochMs stagedOffset resumePersisted : Writer β).rows.Outcomes :=
    ⟨Rows.balanced_new .., Rows.totals_new .., Rows.outcomes_new ..⟩
  have hpreserved (r r' : Rows β) (h : r.Balanced ∧ r.Totals cfg ∧ r.Outcomes)
      (hmove : Rows.Move cfg r r') : r'.Balanced ∧ r'.Totals cfg ∧ r'.Outcomes :=
    ⟨h.1.move hmove, h.2.1.move h.1 hmove, h.2.2.move h.1 hmove⟩
  exact (refines_rows.invariant hstart hpreserved hreach).2

/-- An accepted batch is in a sealed file or in the buffer. -/
theorem ReachableFrom.accepted_places {epochMs : Nat} {stagedOffset resumePersisted : Option Int}
    (hreach : ReachableFrom cfg epochMs stagedOffset resumePersisted w) {e : Entry β}
    (he : e ∈ w.trace.accepted) : e ∈ w.places := by
  obtain ⟨o, ho, rfl⟩ := List.mem_map.mp he
  obtain ⟨hmem, hok⟩ := List.mem_filter.mp ho
  refine hreach.outcomes.2.accepted o hmem ?_
  cases hresult : o.result with
  | ok value => rfl
  | error err => simp [hresult, Except.isOk, Except.toBool] at hok

/-- In every reachable state of a writer, an append was all or nothing. -/
theorem all_or_nothing (cfg : WriterConfig β) (epochMs : Nat)
    (stagedOffset resumePersisted : Option Int)
    (hreach : ReachableFrom cfg epochMs stagedOffset resumePersisted w) : AllOrNothing cfg w := by
  obtain ⟨hbalanced, hnamed⟩ := hreach.rows
  obtain ⟨htotals, houtcomes⟩ := hreach.outcomes
  have hidle (happend : w.append = .idle) : w.rows.task = .idle := by
    simp [rows, AppendTask.rows, happend]
  constructor
  case sealedBatches => exact fun cut hcut ↦ (hnamed.wellFormed cut hcut).batches
  case accepted =>
    exact fun o ho hresult ↦ filter_call hbalanced.kept_calls (houtcomes.accepted o ho hresult)
  case refused =>
    intro o ho err hresult herr
    refine List.filter_eq_nil_iff.mpr fun e he ↦ ?_
    rw [decide_eq_true_eq]
    exact houtcomes.refused o ho err hresult herr e he
  case bufferedRows => exact htotals.rows
  case bufferedBytes => exact htotals.bytes
  case maxEndOffset => exact hbalanced.maxEnd
  case untouched => exact fun happend ↦ houtcomes.restored (hidle happend)
  case retried =>
    intro happend o hlast err hresult hstalled
    have hmax := houtcomes.restored (hidle happend) o hlast err hresult
      (by simp [Error.leavesNothing, hstalled])
    refine WriterState.checkForward_eq_ok_iff.mpr fun maxEnd hmaxEnd ↦ ?_
    exact houtcomes.retried o (List.mem_of_getLast? hlast) err hresult hstalled maxEnd
      (hmax.symm.trans hmaxEnd)
  case swallowed =>
    intro entry maxEndBefore err w' happend hstalled hstep
    have hpending : w.rows.task = .pending entry maxEndBefore (some err) := by
      simp [rows, AppendTask.rows, happend]
    rw [mem_cuts_iff hbalanced happend]
    simp only [step, appendUnbuffer, happend, Option.some.injEq] at hstep
    subst hstep
    rcases hbalanced.pending_buffered hpending with hnil | ⟨buffer, hbuffered⟩
    · have hnone : w.st.unbuffer cfg entry.startOffset entry.endOffset maxEndBefore = none :=
        WriterState.unbuffer_nil hnil
      rw [hnone]
      simp only [appendReturns, hstalled, if_true, true_iff]
      exact hnil
    · have hsome : w.st.unbuffer cfg entry.startOffset entry.endOffset maxEndBefore =
          some (entry, w.st.droppedState cfg entry maxEndBefore) :=
        WriterState.unbuffer_append hbuffered
      rw [hsome]
      have hne : w.st.buffered ≠ [] := by
        change w.rows.st.buffered ≠ []
        simp [hbuffered]
      simp [appendReturns, hne]

/-- An append that waits for room behind a failing put is told of the stall and takes its batch
back. -/
def stalledAppend : List (Action RecordBatch) :=
  [.appendCall (sampleTextKeyBatch ["a".toList]) 30 39, .appendPush 60000, .tryLock .append false,
    .handOver 0, .handOver 0, .stall .append, .appendUnbuffer]

/-- It is called again and waits for the seal lock. A flush seals its batch before it is told of the
stall. -/
def overtakenAppend : List (Action RecordBatch) :=
  [.flushCall 2 false, .tryLock (.flush 2) false, .handOver 0, .handOver 0,
    .appendCall (sampleTextKeyBatch ["a".toList]) 30 39, .appendPush 60000, .tryLock .append true,
    .receive .render] ++ List.replicate 4 (.handOver 0) ++ [.stall .append]

/-- A writer whose put of `[0, 9]` keeps failing, after both calls. -/
def overtaken : Writer RecordBatch :=
  (run (step sampleConfig) (new 1 none none)
    (sampleSeal 0 0 9 ++ sampleRender ++ [.receive .gzip, .send .gzip, .receive .put, .order] ++
      samplePutFails ++ sampleSeal 1 10 19 ++ sampleAppend 20 29 ++ stalledAppend ++
      overtakenAppend)).getD flushed

theorem all_or_nothing_overtaken :
    overtaken.trace.returned.map (fun r ↦ r.result.isOk) = [true, true, true, false] ∧
      (overtaken.append matches .unbuffering ..) = true ∧ overtaken.st.buffered = [] ∧
      AllOrNothing sampleConfig overtaken :=
  ⟨by decide +kernel, by decide +kernel, by decide +kernel,
    all_or_nothing sampleConfig 1 none none (reachable_getD_of_run .refl (by decide +kernel))⟩

/-- A writer that took `[0, 9]` and refused `[5, 9]`. -/
def rewound : Writer RecordBatch :=
  (run (step sampleConfig) (new 1 none none) (sampleAppend 0 9 ++ sampleAppend 5 9)).getD
    (new 1 none none)

theorem rewound_reachable : ReachableFrom sampleConfig 1 none none rewound := by
  have hrun : run (step sampleConfig) (new 1 none none) (sampleAppend 0 9 ++ sampleAppend 5 9) =
      some rewound := rfl
  exact reachable_of_run .refl hrun

/-- A range that the offset check refused is refused again. -/
theorem retry_refused_after_rewind :
    ¬ ∀ (w w' : Writer RecordBatch) (o : Returned RecordBatch) (err : Error) (now : Nat),
      ReachableFrom sampleConfig 1 none none w → w.append = .idle →
        w.trace.returned.getLast? = some o → o.result = .error err → err.leavesNothing →
          run (step sampleConfig) w [.appendCall o.entry.batch o.entry.startOffset
            o.entry.endOffset, .appendPush now] = some w' →
              w.trace.calls ∈ w'.trace.pushed.map Entry.call := by
  intro hclaim
  have hpushed := hclaim rewound ((run (step sampleConfig) rewound (sampleAppend 5 9)).getD rewound)
    _ _ 0 rewound_reachable rfl rfl rfl rfl rfl
  revert hpushed
  decide

end Writer

end RelytIngest
