import RelytIngest.Writer.NeverStops

/-!
# Stopped is for good

`fatal_state` reads the stopped flags and then the failing slot, where a permanent failure counts
before its terminal entry is published. Until then the entry belongs to a file that a stage has
rejected (`Watch.Explains`), and the transient failure of an earlier file can overwrite it: a
stopped writer stays stopped in the moves that do not (`Watch.Stopped.move`). In an opened table no
stage rejects a file (`Watch.Tried`), whatever storage does, so a stop is a flag, and a flag that is
set stays set. `stopped_for_good` concludes that once a call of `fatal_state` has found such a
writer stopped, every later one does, in every interleaving, the steps between the reads included.
-/

set_option autoImplicit false
set_option relaxedAutoImplicit false

namespace RelytIngest

open Foundations Relation

namespace Watch

variable {failure : Option (Int × Error)} {fence : Bool} {v v' : Watch}

/-- What an entry in the slot says about the writer. -/
structure Explains (v : Watch) (f : Failing) : Prop where
  seq_le : f.seq ≤ i64Max
  cause : f.kind = .stage → f.cause.isSome = f.permanent
  rejected : f.kind = .stage → f.permanent = true → ∃ stage, v.stages stage = .rejected f.seq
  fenced : f.kind = .fenced → v.fenced = true
  outOfOrder : f.kind = .orderViolation → v.outOfOrder = true
  notGone : f.kind ≠ .pipelineGone

/-- The entry in the slot is explained. -/
structure Coherent (v : Watch) : Prop where
  sound : v.Sound
  explained : ∀ f, v.progress.failing = some f → v.Explains f

/-- The writer is stopped. -/
def Stopped (v : Watch) : Prop :=
  v.outOfOrder = true ∨ v.fenced = true ∨ v.inViolation = true ∨
    ∃ f, v.progress.failing = some f ∧ f.permanent = true

theorem Explains.mono {f : Failing} (h : v.Explains f)
    (hfenced : v.fenced = true → v'.fenced = true)
    (houtOfOrder : v.outOfOrder = true → v'.outOfOrder = true)
    (hstages : f.kind = .stage → ∀ stage seq, v.stages stage = .rejected seq →
      v'.stages stage = .rejected seq) : v'.Explains f where
  seq_le := h.seq_le
  cause := h.cause
  rejected hstage hpermanent :=
    let ⟨stage, hrejected⟩ := h.rejected hstage hpermanent
    ⟨stage, hstages hstage stage f.seq hrejected⟩
  fenced hkind := hfenced (h.fenced hkind)
  outOfOrder hkind := houtOfOrder (h.outOfOrder hkind)
  notGone := h.notGone

/-- What a stopped stage published is explained when its kind is. -/
theorem explains_terminalEntry {kind : FailKind} (stage : String) (cause : Option Error)
    (last : String) (hstage : kind ≠ .stage) (hfenced : kind = .fenced → v.fenced = true)
    (houtOfOrder : kind = .orderViolation → v.outOfOrder = true) (hgone : kind ≠ .pipelineGone) :
    v.Explains (Progress.terminalEntry kind stage cause last) where
  seq_le := show (-2 ^ 63 : Int) ≤ i64Max by decide
  cause hkind := absurd hkind hstage
  rejected hkind := absurd hkind hstage
  fenced := hfenced
  outOfOrder := houtOfOrder
  notGone := hgone

/-- A published entry is explained, and so is the one that was there first. -/
theorem Coherent.publish (h : v.Coherent) {kind : FailKind} {stage last : String}
    {cause : Option Error}
    (hkept : ∀ f, v.Explains f → f.kind.isTerminal → v'.Explains f)
    (hnew : v'.Explains (Progress.terminalEntry kind stage cause last)) (f : Failing)
    (hf : (v.progress.publishTerminal kind stage cause last).failing = some f) : v'.Explains f := by
  unfold Progress.publishTerminal at hf
  split_ifs at hf with hterminal
  · obtain ⟨first, hfirst, hkind⟩ := (Option.any_eq_true _ _).mp hterminal
    obtain rfl : first = f := Option.some.inj (hfirst.symm.trans hf)
    exact hkept first (h.explained first hf) hkind
  · exact Option.some.inj hf ▸ hnew

/-- With a terminal entry in the slot no stage failure is left to explain. -/
theorem not_stage_of_terminal {f : Failing} (hterminal : f.kind.isTerminal) : f.kind ≠ .stage := by
  intro hkind
  simp [hkind, FailKind.isTerminal] at hterminal

theorem Coherent.move (h : v.Coherent) (hmove : Move failure fence v v') : v'.Coherent := by
  refine ⟨h.sound.move hmove, ?_⟩
  cases hmove with
  | violate | confirm | announce | close | leave =>
    exact fun f hf ↦ (h.explained f hf).mono id id fun _ _ _ hrejected ↦ hrejected
  | fence =>
    exact fun f hf ↦
      (h.explained f hf).mono (fun _ ↦ rfl) id fun _ _ _ hrejected ↦ hrejected
  | pass seq hseq hother =>
    intro f hf
    have hkept : v.progress.failing = some f := by
      by_cases hcleared : v.progress.failing.any fun f ↦ decide (f.seq = seq)
      · simp [Progress.clearFailure, hcleared] at hf
      · simpa [Progress.clearFailure, hcleared] using hf
    exact (h.explained f hkept).mono id id fun _ _ _ hrejected ↦ hrejected
  | land seq hlater =>
    intro f hf
    simp only [Progress.land] at hf
    split_ifs at hf
    exact (h.explained f hf).mono id id fun _ _ _ hrejected ↦ hrejected
  | fail stage attempt seq err hfailure hseq hworking =>
    intro f hf
    -- a stage that rejects its file was working, so no other file is forgotten
    have hstages (s : StageName) (other : Int) (hrejected : v.stages s = .rejected other) :
        (if err.isPermanent then Function.update v.stages stage (.rejected seq) else v.stages) s =
          .rejected other := by
      have hne : s ≠ stage := by
        rintro rfl
        simp [hworking] at hrejected
      split_ifs
      · rwa [Function.update_of_ne hne]
      · exact hrejected
    by_cases hhides : v.progress.hides seq
    · have hkept : v.progress.failing = some f := by
        simpa [Progress.reportFailure, hhides] using hf
      exact (h.explained f hkept).mono id id fun _ ↦ hstages
    · simp only [Progress.reportFailure, hhides] at hf
      obtain rfl := Option.some.inj hf
      refine ⟨hseq.2, fun _ ↦ by split_ifs <;> simp_all, fun _ hpermanent ↦ ⟨stage, ?_⟩,
        by simp, by simp, by simp⟩
      simp only at hpermanent
      simp [hpermanent]
  | giveUp stage seq cause last hrejected =>
    refine h.publish (fun f hexplains hterminal ↦ hexplains.mono id id fun hstage ↦
      absurd hstage (not_stage_of_terminal hterminal)) ?_
    exact explains_terminalEntry _ _ _ (by simp) (by simp) (by simp) (by simp)
  | drop stage reason hfenced =>
    refine h.publish (fun f hexplains hterminal ↦ hexplains.mono id id fun hstage ↦
      absurd hstage (not_stage_of_terminal hterminal)) ?_
    exact explains_terminalEntry _ _ _ (by simp) (fun _ ↦ hfenced) (by simp) (by simp)
  | trip stage detail =>
    refine h.publish (fun f hexplains hterminal ↦ hexplains.mono id (fun _ ↦ rfl) fun hstage ↦
      absurd hstage (not_stage_of_terminal hterminal)) ?_
    exact explains_terminalEntry _ _ _ (by simp) (by simp) (fun _ ↦ rfl) (by simp)
  | follow stage hended =>
    intro f hf
    obtain ⟨first, hfirst, hkind⟩ := (Option.any_eq_true _ _).mp (h.sound.published hended)
    obtain rfl : first = f := Option.some.inj (hfirst.symm.trans hf)
    exact (h.explained first hf).mono id id fun hstage ↦
      absurd hstage (not_stage_of_terminal hkind)
  | gone hclosed =>
    intro f hf
    rw [show (v.progress.pipelineGone.2).failing = v.progress.failing from congrArg Progress.failing
      (Progress.pipelineGone_of_terminal (h.sound.published (h.sound.closed hclosed)))] at hf
    exact (h.explained f hf).mono id id fun _ _ _ hrejected ↦ hrejected

/-- A permanent failure that is not yet published is not overwritten by a transient one, unless the
writer is stopped for another reason. -/
def KeepsRejection (failure : Option (Int × Error)) (v : Watch) : Prop :=
  ∀ seq err, failure = some (seq, err) → err.isPermanent = false →
    ∀ f, v.progress.failing = some f → f.kind = .stage → f.permanent = true →
      v.outOfOrder = false → v.fenced = false → v.inViolation = false → f.seq < seq

/-- An entry published over a permanent one is permanent. -/
theorem publishTerminal_permanent {p : Progress} (h : p.WellFormed) (kind : FailKind)
    (stage : String) (cause : Option Error) (last : String) :
    ∃ f, (p.publishTerminal kind stage cause last).failing = some f ∧ f.permanent = true := by
  unfold Progress.publishTerminal
  split_ifs with hterminal
  · obtain ⟨f, hf, hkind⟩ := (Option.any_eq_true _ _).mp hterminal
    exact ⟨f, hf, (h f hf hkind).2⟩
  · exact ⟨_, rfl, rfl⟩

/-- A permanent entry that no file's success can clear. -/
theorem Explains.not_passed {f : Failing} (h : v.Explains f) (hpermanent : f.permanent = true)
    (hwellFormed : v.progress.WellFormed) (hf : v.progress.failing = some f) {seq : Int}
    (hseq : 0 ≤ seq) (hother : ∀ s, v.stages s ≠ .rejected seq) : f.seq ≠ seq := by
  rintro rfl
  by_cases hkind : f.kind = .stage
  · obtain ⟨stage, hrejected⟩ := h.rejected hkind hpermanent
    exact hother stage hrejected
  · have hterminal : f.kind.isTerminal := by cases hk : f.kind <;> simp_all [FailKind.isTerminal]
    have := (hwellFormed f hf hterminal).1
    omega

/-- A stopped writer stays stopped. -/
theorem Stopped.move (hstopped : v.Stopped) (h : v.Coherent) (hkeeps : KeepsRejection failure v)
    (hmove : Move failure fence v v') : v'.Stopped := by
  have hwellFormed := h.sound.wellFormed
  cases hmove with
  | confirm | announce | follow | close | leave => exact hstopped
  | fence => exact Or.inr (Or.inl rfl)
  | violate => exact Or.inr (Or.inr (Or.inl rfl))
  | trip => exact Or.inl rfl
  | giveUp stage seq cause last hrejected =>
    exact Or.inr (Or.inr (Or.inr (publishTerminal_permanent hwellFormed _ _ _ _)))
  | drop stage reason hfenced =>
    exact Or.inr (Or.inr (Or.inr (publishTerminal_permanent hwellFormed _ _ _ _)))
  | gone hclosed =>
    rcases hstopped with hset | hset | hset | hslot
    · exact Or.inl hset
    · exact Or.inr (Or.inl hset)
    · exact Or.inr (Or.inr (Or.inl hset))
    · refine Or.inr (Or.inr (Or.inr ?_))
      rwa [show (v.progress.pipelineGone.2).failing = v.progress.failing from
        congrArg Progress.failing
          (Progress.pipelineGone_of_terminal (h.sound.published (h.sound.closed hclosed)))]
  | pass seq hseq hother =>
    rcases hstopped with hset | hset | hset | ⟨f, hf, hpermanent⟩
    · exact Or.inl hset
    · exact Or.inr (Or.inl hset)
    · exact Or.inr (Or.inr (Or.inl hset))
    · have hne := (h.explained f hf).not_passed hpermanent hwellFormed hf hseq hother
      exact Or.inr (Or.inr (Or.inr ⟨f, by simp [Progress.clearFailure, hf, hne], hpermanent⟩))
  | land seq hlater =>
    rcases hstopped with hset | hset | hset | ⟨f, hf, hpermanent⟩
    · exact Or.inl hset
    · exact Or.inr (Or.inl hset)
    · exact Or.inr (Or.inr (Or.inl hset))
    · have hstays : (f.kind = .stage → ¬ f.seq ≤ seq) := fun hkind ↦ by
        obtain ⟨stage, hrejected⟩ := (h.explained f hf).rejected hkind hpermanent
        exact not_le.mpr (hlater stage f.seq hrejected)
      refine Or.inr (Or.inr (Or.inr ⟨f, ?_, hpermanent⟩))
      cases hkind : f.kind <;> simp_all [Progress.land, FailKind.isTerminal]
  | fail stage attempt seq err hfailure hseq hworking =>
    by_cases houtOfOrder : v.outOfOrder = true
    · exact Or.inl houtOfOrder
    by_cases hfenced : v.fenced = true
    · exact Or.inr (Or.inl hfenced)
    by_cases hinViolation : v.inViolation = true
    · exact Or.inr (Or.inr (Or.inl hinViolation))
    obtain hset | hset | hset | ⟨f, hf, hpermanent⟩ := hstopped
    · exact absurd hset houtOfOrder
    · exact absurd hset hfenced
    · exact absurd hset hinViolation
    refine Or.inr (Or.inr (Or.inr ?_))
    by_cases hhides : v.progress.hides seq
    · exact ⟨f, by simpa [Progress.reportFailure, hhides] using hf, hpermanent⟩
    · have hnew : err.isPermanent = true := by
        by_contra htransient
        have hkind : f.kind = .stage := by
          by_contra hkind
          refine hhides ?_
          cases hk : f.kind <;> simp_all [Progress.hides, FailKind.isTerminal]
        have hbefore := hkeeps seq err hfailure (by simpa using htransient) f hf hkind hpermanent
          (by simpa using houtOfOrder) (by simpa using hfenced) (by simpa using hinViolation)
        exact hhides (by simp [Progress.hides, hf, hbefore])
      exact ⟨_, by simp only [Progress.reportFailure, hhides]; rfl, hnew⟩

/-- A stopped flag that is set stays set. -/
theorem Move.flags (hmove : Move failure fence v v') :
    (v.outOfOrder = true → v'.outOfOrder = true) ∧ (v.fenced = true → v'.fenced = true) ∧
      (v.inViolation = true → v'.inViolation = true) := by
  cases hmove with
  | fence => exact ⟨id, fun _ ↦ rfl, id⟩
  | violate => exact ⟨id, id, fun _ ↦ rfl⟩
  | trip => exact ⟨fun _ ↦ rfl, id, id⟩
  | pass | fail | giveUp | drop | follow | confirm | announce | land | close | leave | gone =>
    exact ⟨id, id, id⟩

/-- A stopped flag is set. -/
def Flagged (v : Watch) : Prop :=
  v.outOfOrder = true ∨ v.fenced = true ∨ v.inViolation = true

/-- No stage has given up on a file. -/
structure Tried (v : Watch) : Prop where
  stages : ∀ stage seq, v.stages stage ≠ .rejected seq
  slot : ∀ f, v.progress.failing = some f → f.kind ≠ .rotation

/-- An entry is published over another one or not at all. -/
theorem publishTerminal_kind {p : Progress} (h : ∀ f, p.failing = some f → f.kind ≠ .rotation)
    {kind : FailKind} (hkind : kind ≠ .rotation) (stage : String) (cause : Option Error)
    (last : String) (f : Failing)
    (hf : (p.publishTerminal kind stage cause last).failing = some f) : f.kind ≠ .rotation := by
  unfold Progress.publishTerminal at hf
  split_ifs at hf
  · exact h f hf
  · exact Option.some.inj hf ▸ hkind

theorem ended_ne_rejected (hstages : ∀ stage seq, v.stages stage ≠ .rejected seq)
    (stage s : StageName) (seq : Int) :
    Function.update v.stages stage .ended s ≠ .rejected seq := by
  by_cases hs : s = stage
  · simp [hs]
  · simpa [hs] using hstages s seq

/-- A failure that can be tried again rejects no file. -/
theorem Tried.move (h : v.Tried) (hmove : Move failure fence v v')
    (htransient : ∀ seq err, failure = some (seq, err) → err.isPermanent = false) : v'.Tried := by
  cases hmove with
  | fence | violate | confirm | announce | close | leave => exact ⟨h.stages, h.slot⟩
  | follow stage => exact ⟨ended_ne_rejected h.stages stage, h.slot⟩
  | giveUp stage seq cause last hrejected => exact absurd hrejected (h.stages stage seq)
  | drop stage reason =>
    exact ⟨ended_ne_rejected h.stages stage, publishTerminal_kind h.slot (by simp) _ _ _⟩
  | trip stage detail =>
    exact ⟨ended_ne_rejected h.stages stage, publishTerminal_kind h.slot (by simp) _ _ _⟩
  | pass seq =>
    refine ⟨h.stages, fun f hf ↦ ?_⟩
    unfold Progress.clearFailure at hf
    split_ifs at hf
    exact h.slot f hf
  | land seq =>
    refine ⟨h.stages, fun f hf ↦ ?_⟩
    simp only [Progress.land] at hf
    split_ifs at hf
    exact h.slot f hf
  | gone =>
    refine ⟨h.stages, fun f hf ↦ ?_⟩
    unfold Progress.pipelineGone at hf
    split at hf
    · split_ifs at hf
      · exact h.slot f hf
      · exact publishTerminal_kind h.slot (by simp) _ _ _ f hf
    · exact publishTerminal_kind h.slot (by simp) _ _ _ f hf
  | fail stage attempt seq err hfailure =>
    have herr := htransient seq err hfailure
    simp only [herr, Bool.false_eq_true, if_false]
    refine ⟨h.stages, fun f hf ↦ ?_⟩
    unfold Progress.reportFailure at hf
    split at hf
    · exact h.slot f hf
    · obtain rfl := Option.some.inj hf
      simp

/-- Where no file is rejected, no rejection is waiting to be published. -/
theorem Tried.keepsRejection (h : v.Tried) (hcoherent : v.Coherent) : KeepsRejection failure v := by
  intro seq err _ _ f hf hkind hpermanent
  obtain ⟨stage, hrejected⟩ := (hcoherent.explained f hf).rejected hkind hpermanent
  exact absurd hrejected (h.stages stage f.seq)

/-- Where no file is rejected, what stops the writer is a flag. -/
theorem Stopped.flagged (hstopped : v.Stopped) (h : v.Tried) (hcoherent : v.Coherent) :
    v.Flagged := by
  obtain hset | hset | hset | ⟨f, hf, hpermanent⟩ := hstopped
  · exact Or.inl hset
  · exact Or.inr (Or.inl hset)
  · exact Or.inr (Or.inr hset)
  · have hexplained := hcoherent.explained f hf
    cases hkind : f.kind with
    | stage =>
      obtain ⟨stage, hrejected⟩ := hexplained.rejected hkind hpermanent
      exact absurd hrejected (h.stages stage f.seq)
    | rotation => exact absurd hkind (h.slot f hf)
    | pipelineGone => exact absurd hkind hexplained.notGone
    | fenced => exact Or.inr (Or.inl (hexplained.fenced hkind))
    | orderViolation => exact Or.inl (hexplained.outOfOrder hkind)

end Watch

namespace Writer

variable {β : Type} {cfg : WriterConfig β} {w w' : Writer β}

/-- What `fatal_state` returns when other tasks take steps between its reads: of the order
violation, the fence, the verdict of the notify loop and the failing slot. -/
def fatalStateAcross (cfg : WriterConfig β) (order fence verdict slot : Writer β) : Option Error :=
  ({ slot with
    health := {
      orderFatal := order.health.orderFatal
      fenced := fence.health.fenced
      serialFatal := verdict.health.serialFatal
      notifierGone := slot.health.notifierGone } } : Writer β).fatalState cfg

/-- A call of `fatal_state`: the states in which it makes its reads. -/
structure Observation (β : Type) where
  order : Writer β
  fence : Writer β
  verdict : Writer β
  slot : Writer β

/-- What the call returns. -/
def Observation.fatalState (cfg : WriterConfig β) (o : Observation β) : Option Error :=
  fatalStateAcross cfg o.order o.fence o.verdict o.slot

/-- The call makes its reads in this order, with permitted steps in between. -/
structure Observation.During (cfg : WriterConfig β) (allowed : Writer β → Action β → Prop)
    (o : Observation β) : Prop where
  order : ReachableUnder (step cfg) allowed o.order o.fence
  fence : ReachableUnder (step cfg) allowed o.fence o.verdict
  verdict : ReachableUnder (step cfg) allowed o.verdict o.slot

/-- What `fatal_state` reports comes from a flag or from a permanent entry. -/
theorem stopped_of_fatalStateAcross {order fence verdict slot : Writer β}
    (hcoherent : slot.watch.Coherent)
    (hfatal : (fatalStateAcross cfg order fence verdict slot).isSome) :
    order.watch.outOfOrder = true ∨ fence.watch.fenced = true ∨ verdict.watch.inViolation = true ∨
      ∃ f, slot.watch.progress.failing = some f ∧ f.permanent = true := by
  by_cases hset : order.watch.outOfOrder = true ∨ fence.watch.fenced = true ∨
      verdict.watch.inViolation = true
  · rcases hset with hset | hset | hset
    · exact Or.inl hset
    · exact Or.inr (Or.inl hset)
    · exact Or.inr (Or.inr (Or.inl hset))
  · simp only [watch, not_or, Option.isSome_iff_ne_none, not_not] at hset
    refine Or.inr (Or.inr (Or.inr ?_))
    simp only [fatalStateAcross, Writer.fatalState, hset] at hfatal
    cases hf : slot.progress.failing with
    | none => simp [Progress.stallError, hf] at hfatal
    | some f =>
      refine ⟨f, hf, ?_⟩
      have hexplained := hcoherent.explained f hf
      by_cases hterminal : f.kind.isTerminal
      · exact (hcoherent.sound.wellFormed f hf hterminal).2
      · have hkind : f.kind = .stage := by cases hk : f.kind <;> simp_all [FailKind.isTerminal]
        by_contra hpermanent
        have hcause : f.cause = none := by
          have := hexplained.cause hkind
          cases hc : f.cause <;> simp_all
        simp only [Progress.stallError, hf] at hfatal
        split_ifs at hfatal <;> simp [terminalError, hkind, hcause] at hfatal

/-- A flag that was set at each read is reported. -/
theorem fatalStateAcross_of_flag {order fence verdict slot : Writer β}
    (hset : order.watch.outOfOrder = true ∨ fence.watch.fenced = true ∨
      verdict.watch.inViolation = true) :
    (fatalStateAcross cfg order fence verdict slot).isSome := by
  simp only [watch, Option.isSome_iff_exists] at hset
  unfold fatalStateAcross Writer.fatalState
  rcases hset with ⟨detail, hset⟩ | ⟨reason, hset⟩ | ⟨message, hset⟩
  · simp [hset]
  · cases horder : order.health.orderFatal <;> simp [hset]
  · cases horder : order.health.orderFatal <;> cases hfence : fence.health.fenced <;> simp [hset]

section Run

variable {epochMs : Nat} {stagedOffset resumePersisted : Option Int}

theorem ReachableFrom.coherent
    (hreach : ReachableFrom cfg epochMs stagedOffset resumePersisted w) : w.watch.Coherent := by
  refine watch_invariant Watch.Coherent ⟨sound_new, ?_⟩ (fun _ _ _ h _ hmove ↦ h.move hmove) hreach
  simp [watch, new, Progress.initial]

/-- A property of the watch that permitted moves preserve is kept along a run. -/
theorem ReachableFrom.watch_stays {allowed : Writer β → Action β → Prop} (property : Watch → Prop)
    (hpreserved : ∀ (w : Writer β) action v,
      ReachableFrom cfg epochMs stagedOffset resumePersisted w → property w.watch →
        allowed w action → Watch.Move (w.failure cfg action) (isFence action) w.watch v →
          property v)
    (hreach : ReachableFrom cfg epochMs stagedOffset resumePersisted w) (hnow : property w.watch)
    (hlater : ReachableUnder (step cfg) allowed w w') : property w'.watch := by
  refine hlater.strengthened (fun w ↦ property w.watch) hnow ?_
  intro before action after hbefore hproperty hallowed hstep
  have hrun : ReachableFrom cfg epochMs stagedOffset resumePersisted before :=
    hreach.trans hbefore.reachable
  rcases (reflGen_iff ..).mp (watch_step hrun.lineOrdered hstep) with hsame | hmove
  · exact hsame ▸ hproperty
  · exact hpreserved before action _ hrun hproperty hallowed hmove

/-- The flag that a later read of the flags finds. -/
theorem ReachableFrom.flagged_across {allowed : Writer β → Action β → Prop} {o : Observation β}
    (hreach : ReachableFrom cfg epochMs stagedOffset resumePersisted o.order)
    (hduring : o.During cfg allowed) (hflagged : o.order.watch.Flagged) :
    o.order.watch.outOfOrder = true ∨ o.fence.watch.fenced = true ∨
      o.verdict.watch.inViolation = true := by
  refine hflagged.imp_right (Or.imp (fun hset ↦ ?_) fun hset ↦ ?_)
  · exact hreach.watch_stays (fun v ↦ v.fenced = true)
      (fun _ _ _ _ hset _ hmove ↦ hmove.flags.2.1 hset) hset hduring.order
  · exact hreach.watch_stays (fun v ↦ v.inViolation = true)
      (fun _ _ _ _ hset _ hmove ↦ hmove.flags.2.2 hset) hset (hduring.order.trans hduring.fence)

end Run

section Opened

variable {schema : OpenedSchema} {cfg : WriterConfig RecordBatch} {w w' : Writer RecordBatch}
  {epochMs : Nat} {stagedOffset resumePersisted : Option Int}

theorem tried_new :
    (new epochMs stagedOffset resumePersisted : Writer RecordBatch).watch.Tried where
  stages stage seq := by
    rw [running_new.stages stage]
    simp
  slot f hf := by simp [watch, new, Progress.initial] at hf

/-- In an opened table no stage gives up on a file, and a stopped writer stays stopped. -/
theorem ReachableFrom.stays_stopped (hwrites : schema.Writes cfg)
    (hgzip : ∀ body err, cfg.gzip body = .error err → err.isPermanent = false)
    (hreach : ReachableFrom cfg epochMs stagedOffset resumePersisted w) (htried : w.watch.Tried)
    (hlater : ReachableUnder (step cfg) (fun _ action ↦ retriable action = true) w w') :
    w'.watch.Tried ∧ (w.watch.Stopped → w'.watch.Stopped) := by
  refine hreach.watch_stays (fun v ↦ v.Tried ∧ (w.watch.Stopped → v.Stopped))
    (fun before action v hbefore h hretriable hmove ↦ ?_) ⟨htried, id⟩ hlater
  have hcoherent := hbefore.coherent
  exact ⟨h.1.move hmove fun seq err ↦ hbefore.transient hwrites hgzip hretriable,
    fun hstopped ↦ (h.2 hstopped).move hcoherent (h.1.keepsRejection hcoherent) hmove⟩

/-- Once a call of `fatal_state` has found a writer of an opened table stopped, so does every later
one, whatever the other tasks do in between and between the reads of the two calls. -/
theorem stopped_for_good (hwrites : schema.Writes cfg)
    (hgzip : ∀ body err, cfg.gzip body = .error err → err.isPermanent = false)
    (first later : Observation RecordBatch)
    (hreach : ReachableUnder (step cfg) (fun _ action ↦ retriable action = true)
      (new epochMs stagedOffset resumePersisted) first.order)
    (hfirst : first.During cfg fun _ action ↦ retriable action = true)
    (hbetween : ReachableUnder (step cfg) (fun _ action ↦ retriable action = true) first.slot
      later.order)
    (hlater : later.During cfg fun _ action ↦ retriable action = true)
    (hstopped : (first.fatalState cfg).isSome) : (later.fatalState cfg).isSome := by
  have horder : ReachableFrom cfg epochMs stagedOffset resumePersisted first.order :=
    hreach.reachable
  have hfence : ReachableFrom cfg epochMs stagedOffset resumePersisted first.fence :=
    horder.trans hfirst.order.reachable
  have hverdict : ReachableFrom cfg epochMs stagedOffset resumePersisted first.verdict :=
    hfence.trans hfirst.fence.reachable
  have hslot : ReachableFrom cfg epochMs stagedOffset resumePersisted first.slot :=
    hverdict.trans hfirst.verdict.reachable
  have hreads := hfirst.order.trans (hfirst.fence.trans hfirst.verdict)
  have htried : first.slot.watch.Tried :=
    (ReachableFrom.stays_stopped hwrites hgzip .refl tried_new (hreach.trans hreads)).1
  -- the writer is stopped when the first call returns
  have hnow : first.slot.watch.Stopped := by
    obtain hset | hset | hset | hentry := stopped_of_fatalStateAcross hslot.coherent hstopped
    · exact Or.inl (horder.watch_stays (fun v ↦ v.outOfOrder = true)
        (fun _ _ _ _ hset _ hmove ↦ hmove.flags.1 hset) hset hreads)
    · exact Or.inr (Or.inl (hfence.watch_stays (fun v ↦ v.fenced = true)
        (fun _ _ _ _ hset _ hmove ↦ hmove.flags.2.1 hset) hset
        (hfirst.fence.trans hfirst.verdict)))
    · exact Or.inr (Or.inr (Or.inl (hverdict.watch_stays (fun v ↦ v.inViolation = true)
        (fun _ _ _ _ hset _ hmove ↦ hmove.flags.2.2 hset) hset hfirst.verdict)))
    · exact Or.inr (Or.inr (Or.inr hentry))
  -- and still is when the later one begins, by a flag that each of its reads finds
  have hbegins : ReachableFrom cfg epochMs stagedOffset resumePersisted later.order :=
    hslot.trans hbetween.reachable
  obtain ⟨htriedThen, hthen⟩ := hslot.stays_stopped hwrites hgzip htried hbetween
  exact fatalStateAcross_of_flag
    (hbegins.flagged_across hlater ((hthen hnow).flagged htriedThen hbegins.coherent))

end Opened

/-- The writer whose put keeps failing is taken over. -/
def takenOver : Writer RecordBatch :=
  (step sampleConfig putFailing (.fence "taken over")).getD putFailing

/-- Its put stage stops before the next attempt. -/
def takenOverAtPut : Writer RecordBatch :=
  (step sampleConfig takenOver (.attempt .put)).getD putFailing

/-- A call that reads the order violation before the takeover and the fence after it finds the
writer stopped, and so does the next one. -/
theorem stopped_for_good_takenOver : (takenOverAtPut.fatalState sampleConfig).isSome := by
  have hfence : step sampleConfig putFailing (.fence "taken over") = some takenOver := rfl
  have hattempt : step sampleConfig takenOver (.attempt .put) = some takenOverAtPut :=
    (Option.getD_of_ne_none (Option.isSome_iff_ne_none.mp (by decide +kernel)) _).symm
  exact stopped_for_good sampleTextOpened_writes (by simp [sampleConfig, WriterConfig.ofTable])
    ⟨putFailing, takenOver, takenOver, takenOver⟩
    ⟨takenOverAtPut, takenOverAtPut, takenOverAtPut, takenOverAtPut⟩
    (putFailing_reachable.mono fun _ _ ↦ retriable_of_undisturbed)
    ⟨.snoc .refl rfl hfence, .refl, .refl⟩ (.snoc .refl rfl hattempt) ⟨.refl, .refl, .refl⟩
    (by decide +kernel)

end Writer

end RelytIngest
