import RelytIngest.Stream.ForwardOnly
import RelytIngest.Writer.DenseSeqs

/-!
# The epoch anchor is durable before the epoch is used

`Anchor` is what the state object is for: holders that each decide on an epoch above the recorded
one, record it, and may record it again while no other holder has. The recorded epoch is then never
below that of a holder that recorded its own (`Anchor.Kept`).

The stream makes the moves of the anchor while its writes of `state.json` take effect in turn
(`InTurn`), and a file sealed before a roll-over is of the epoch its session decided on
(`ReachableFrom.epoch_of_first`). So the epoch in the key of such a file is recorded when the file
is put (`epoch_anchor_durable`). A predecessor's late write takes the record away (`anchor_lost`).
-/

set_option autoImplicit false
set_option relaxedAutoImplicit false

namespace RelytIngest

open Foundations Relation

/-! ### Holders of an anchor -/

structure Holder where
  /-- What it has read, until it decides. -/
  copy : Option (Option Nat)
  /-- The epoch it decided on. -/
  epoch : Option Nat
  /-- Whose record was the last one when it read the anchor. -/
  seen : Option Nat
  /-- It has recorded its epoch. -/
  landed : Bool

/-- A recorded epoch and those who record it. -/
structure Anchor where
  recorded : Option Nat
  /-- Who has recorded an epoch of its own last. -/
  last : Option Nat
  holders : Nat → Holder

namespace Anchor

def setHolder (a : Anchor) (id : Nat) (holder : Holder) : Anchor :=
  { a with holders := Function.update a.holders id holder }

inductive Move : Anchor → Anchor → Prop
  | look (a : Anchor) (id : Nat) (hfresh : (a.holders id).landed = false) :
      Move a (a.setHolder id ⟨some a.recorded, none, a.last, false⟩)
  | decide (a : Anchor) (id epoch : Nat) (copy : Option Nat)
      (hcopy : (a.holders id).copy = some copy) (hfresh : (a.holders id).landed = false)
      (habove : ∀ recorded, copy = some recorded → recorded < epoch) :
      Move a (a.setHolder id { a.holders id with copy := none, epoch := some epoch })
  | land (a : Anchor) (id epoch : Nat) (hepoch : (a.holders id).epoch = some epoch)
      (hfresh : (a.holders id).landed = false) (hturn : (a.holders id).seen = a.last) :
      Move a { a.setHolder id { a.holders id with landed := true } with
        recorded := some epoch
        last := some id }
  | again (a : Anchor) (id epoch value : Nat) (hepoch : (a.holders id).epoch = some epoch)
      (hturn : a.last = some id) (hvalue : epoch ≤ value) :
      Move a { a with recorded := some value }
  | drop (a : Anchor) (id : Nat) :
      Move a (a.setHolder id { a.holders id with copy := none, epoch := none })

/-- Every holder that has recorded an epoch decided on one up to `bound`. -/
def Within (a : Anchor) (bound : Nat) : Prop :=
  ∀ id epoch, (a.holders id).epoch = some epoch → (a.holders id).landed → epoch ≤ bound

structure Kept (a : Anchor) : Prop where
  recorded : ∀ id epoch, (a.holders id).epoch = some epoch → (a.holders id).landed →
    ∃ recorded, a.recorded = some recorded ∧ epoch ≤ recorded
  seen : ∀ id other, (a.holders id).seen = some other → (a.holders other).landed
  last : ∀ id, a.last = some id → (a.holders id).landed
  lastEpoch : ∀ id epoch, a.last = some id → (a.holders id).epoch = some epoch → a.Within epoch
  copied : ∀ id copy, (a.holders id).copy = some copy → (a.holders id).seen = a.last →
    ∀ bound, (∀ recorded, copy = some recorded → recorded ≤ bound) → a.Within bound
  fresh : ∀ id epoch, (a.holders id).epoch = some epoch → (a.holders id).landed = false →
    (a.holders id).seen = a.last → a.Within epoch

variable {a a' : Anchor}

theorem kept_start (recorded : Option Nat) :
    Kept ⟨recorded, none, fun _ ↦ ⟨none, none, none, false⟩⟩ where
  recorded _ _ hepoch := by simp at hepoch
  seen _ _ hseen := by simp at hseen
  last _ hlast := by simp at hlast
  lastEpoch _ _ hlast := by simp at hlast
  copied _ _ hcopy := by simp at hcopy
  fresh _ _ hepoch := by simp at hepoch

@[simp] theorem holders_setHolder_self (id : Nat) (holder : Holder) :
    (a.setHolder id holder).holders id = holder :=
  Function.update_self ..

@[simp] theorem holders_setHolder_of_ne {id other : Nat} (hother : other ≠ id) (holder : Holder) :
    (a.setHolder id holder).holders other = a.holders other :=
  Function.update_of_ne hother ..

/-- A bound on those that have recorded an epoch, after one of them changed. -/
theorem Within.setHolder {bound id : Nat} {holder : Holder} (h : a.Within bound)
    (hholder : ∀ epoch, holder.epoch = some epoch → holder.landed → epoch ≤ bound) :
    (a.setHolder id holder).Within bound := by
  intro other epoch hepoch hlanded
  by_cases hother : other = id
  · subst hother
    rw [holders_setHolder_self] at hepoch hlanded
    exact hholder epoch hepoch hlanded
  · rw [holders_setHolder_of_ne hother] at hepoch hlanded
    exact h other epoch hepoch hlanded

/-- Those that have recorded an epoch decided on one up to the record. -/
theorem Kept.within (h : a.Kept) {bound : Nat}
    (habove : ∀ recorded, a.recorded = some recorded → recorded ≤ bound) : a.Within bound := by
  intro id epoch hepoch hlanded
  obtain ⟨recorded, hrecorded, hle⟩ := h.recorded id epoch hepoch hlanded
  exact hle.trans (habove recorded hrecorded)

/-- A holder that has recorded nothing changes, short of recording an epoch: what has been recorded
stays bounded as it was. -/
theorem Kept.setHolder (h : a.Kept) {id : Nat} {holder : Holder}
    (hbefore : (a.holders id).landed = false) (hafter : holder.landed = false)
    (hseen : holder.seen = (a.holders id).seen ∨ holder.seen = a.last)
    (hcopied : ∀ copy, holder.copy = some copy → holder.seen = a.last →
      ∀ bound, (∀ recorded, copy = some recorded → recorded ≤ bound) → a.Within bound)
    (hfresh : ∀ epoch, holder.epoch = some epoch → holder.seen = a.last → a.Within epoch) :
    (a.setHolder id holder).Kept := by
  have hnot {other : Nat} (hlanded : (a.holders other).landed) : other ≠ id := by
    intro heq
    simp [heq, hbefore] at hlanded
  have hkeep {other : Nat} (hlanded : (a.holders other).landed) :
      ((a.setHolder id holder).holders other).landed := by
    rwa [holders_setHolder_of_ne (hnot hlanded)]
  have hwithin {bound : Nat} (hbound : a.Within bound) : (a.setHolder id holder).Within bound :=
    hbound.setHolder (by simp [hafter])
  constructor
  case recorded =>
    intro other value hvalue hlanded
    by_cases hother : other = id
    · simp [hother, hafter] at hlanded
    · rw [holders_setHolder_of_ne hother] at hvalue hlanded
      exact h.recorded other value hvalue hlanded
  case seen =>
    intro who other hsaw
    refine hkeep ?_
    by_cases hwho : who = id
    · rw [hwho, holders_setHolder_self] at hsaw
      rcases hseen with hsame | hlast
      · exact h.seen id other (hsame ▸ hsaw)
      · exact h.last other (hlast ▸ hsaw)
    · rw [holders_setHolder_of_ne hwho] at hsaw
      exact h.seen who other hsaw
  case last => exact fun other hlast ↦ hkeep (h.last other hlast)
  case lastEpoch =>
    intro other value hlast hvalue
    rw [holders_setHolder_of_ne (hnot (h.last other hlast))] at hvalue
    exact hwithin (h.lastEpoch other value hlast hvalue)
  case copied =>
    intro other copy hcopy hsaw bound hbound
    refine hwithin ?_
    by_cases hother : other = id
    · rw [hother, holders_setHolder_self] at hcopy hsaw
      exact hcopied copy hcopy hsaw bound hbound
    · rw [holders_setHolder_of_ne hother] at hcopy hsaw
      exact h.copied other copy hcopy hsaw bound hbound
  case fresh =>
    intro other value hvalue hlanded hsaw
    refine hwithin ?_
    by_cases hother : other = id
    · rw [hother, holders_setHolder_self] at hvalue hsaw
      exact hfresh value hvalue hsaw
    · rw [holders_setHolder_of_ne hother] at hvalue hlanded hsaw
      exact h.fresh other value hvalue hlanded hsaw

theorem Kept.look (h : a.Kept) {id : Nat} (hfresh : (a.holders id).landed = false) :
    (a.setHolder id ⟨some a.recorded, none, a.last, false⟩).Kept := by
  refine h.setHolder hfresh rfl (Or.inr rfl) (fun copy hcopy _ bound hbound ↦ ?_) (by simp)
  obtain rfl := Option.some.inj hcopy
  exact h.within hbound

theorem Kept.decide (h : a.Kept) {id epoch : Nat} {copy : Option Nat}
    (hcopy : (a.holders id).copy = some copy) (hfresh : (a.holders id).landed = false)
    (habove : ∀ recorded, copy = some recorded → recorded < epoch) :
    (a.setHolder id { a.holders id with copy := none, epoch := some epoch }).Kept := by
  refine h.setHolder hfresh hfresh (Or.inl rfl) (by simp) fun value hvalue hseen ↦ ?_
  obtain rfl := Option.some.inj hvalue
  exact h.copied id copy hcopy hseen epoch fun recorded hrecorded ↦ (habove recorded hrecorded).le

theorem Kept.land (h : a.Kept) {id epoch : Nat} (hepoch : (a.holders id).epoch = some epoch)
    (hfresh : (a.holders id).landed = false) (hturn : (a.holders id).seen = a.last) :
    ({ a.setHolder id { a.holders id with landed := true } with
      recorded := some epoch
      last := some id } : Anchor).Kept := by
  have hwithin : (a.setHolder id { a.holders id with landed := true }).Within epoch := by
    refine (h.fresh id epoch hepoch hfresh hturn).setHolder fun value hvalue _ ↦ ?_
    exact (Option.some.inj (hepoch.symm.trans hvalue)).ge
  have hkeep {other : Nat} (hlanded : (a.holders other).landed) :
      ((a.setHolder id { a.holders id with landed := true }).holders other).landed := by
    by_cases hother : other = id
    · simp [hother]
    · rwa [holders_setHolder_of_ne hother]
  have hseenBefore (other : Nat) :
      ((a.setHolder id { a.holders id with landed := true }).holders other).seen =
        (a.holders other).seen := by
    by_cases hother : other = id
    · subst hother
      simp
    · rw [holders_setHolder_of_ne hother]
  -- whoever looked earlier has seen another record last
  have hearlier {other : Nat}
      (hseen : ((a.setHolder id { a.holders id with landed := true }).holders other).seen =
        some id) : False := by
    rw [hseenBefore] at hseen
    simp [h.seen other id hseen] at hfresh
  constructor
  case recorded =>
    intro other value hvalue hlanded
    exact ⟨epoch, rfl, hwithin other value hvalue hlanded⟩
  case seen =>
    intro who other hseen
    exact hkeep (h.seen who other ((hseenBefore who).symm.trans hseen))
  case last =>
    intro other hlast
    obtain rfl := Option.some.inj hlast
    simp
  case lastEpoch =>
    intro other value hlast hvalue
    obtain rfl := Option.some.inj hlast
    simp only [holders_setHolder_self] at hvalue
    exact Option.some.inj (hepoch.symm.trans hvalue) ▸ hwithin
  case copied => exact fun other copy _ hseen ↦ (hearlier hseen).elim
  case fresh => exact fun other value _ _ hseen ↦ (hearlier hseen).elim

theorem Kept.again (h : a.Kept) {id epoch value : Nat}
    (hepoch : (a.holders id).epoch = some epoch) (hturn : a.last = some id)
    (hvalue : epoch ≤ value) : ({ a with recorded := some value } : Anchor).Kept where
  recorded other found hfound hlanded :=
    ⟨value, rfl, (h.lastEpoch id epoch hturn hepoch other found hfound hlanded).trans hvalue⟩
  seen := h.seen
  last := h.last
  lastEpoch := h.lastEpoch
  copied := h.copied
  fresh := h.fresh

theorem Kept.drop (h : a.Kept) (id : Nat) :
    (a.setHolder id { a.holders id with copy := none, epoch := none }).Kept := by
  have hother {other value : Nat}
      (hvalue : ((a.setHolder id { a.holders id with copy := none, epoch := none }).holders
        other).epoch = some value) : other ≠ id := by
    rintro rfl
    simp at hvalue
  have hsame (other : Nat) :
      ((a.setHolder id { a.holders id with copy := none, epoch := none }).holders other).landed =
          (a.holders other).landed ∧
        ((a.setHolder id { a.holders id with copy := none, epoch := none }).holders other).seen =
          (a.holders other).seen := by
    by_cases heq : other = id
    · subst heq
      simp
    · simp [heq]
  constructor
  case recorded =>
    intro other value hvalue hlanded
    rw [(hsame other).1] at hlanded
    rw [holders_setHolder_of_ne (hother hvalue)] at hvalue
    exact h.recorded other value hvalue hlanded
  case seen =>
    intro who other hseen
    rw [(hsame other).1]
    exact h.seen who other ((hsame who).2 ▸ hseen)
  case last =>
    intro other hlast
    rw [(hsame other).1]
    exact h.last other hlast
  case lastEpoch =>
    intro other value hlast hvalue
    rw [holders_setHolder_of_ne (hother hvalue)] at hvalue
    exact (h.lastEpoch other value hlast hvalue).setHolder (by simp)
  case copied =>
    intro other copy hcopy hseen bound hbound
    have hne : other ≠ id := by
      rintro rfl
      simp at hcopy
    rw [holders_setHolder_of_ne hne] at hcopy hseen
    exact (h.copied other copy hcopy hseen bound hbound).setHolder (by simp)
  case fresh =>
    intro other value hvalue hlanded hseen
    rw [(hsame other).1] at hlanded
    rw [(hsame other).2] at hseen
    rw [holders_setHolder_of_ne (hother hvalue)] at hvalue
    exact (h.fresh other value hvalue hlanded hseen).setHolder (by simp)

theorem Kept.move (h : a.Kept) (hmove : Move a a') : a'.Kept := by
  cases hmove with
  | look id hfresh => exact h.look hfresh
  | decide id epoch copy hcopy hfresh habove => exact h.decide hcopy hfresh habove
  | land id epoch hepoch hfresh hturn => exact h.land hepoch hfresh hturn
  | again id epoch value hepoch hturn hvalue => exact h.again hepoch hturn hvalue
  | drop id => exact h.drop id

end Anchor

/-! ### The stream moves the anchor -/

/-- What a session has read of the recorded epoch, until it decides. -/
def StreamSession.copy {β : Type} (session : StreamSession β) : Option (Option Nat) :=
  match session.phase with
  | .reading state => some (state.map StateFile.maxEpochUsed)
  | _ => none

def StreamSession.holder {β : Type} (session : StreamSession β) : Holder :=
  ⟨session.copy, session.opened.map Opening.epoch, session.seen, session.openLanded.isSome⟩

/-- The file whose put is under way. -/
def StreamSession.putUnderWay {β : Type} (session : StreamSession β) : Option FileMeta :=
  match session.phase with
  | .running _ w =>
    match w.pipe.put with
    | .running file _ => some file.fileMeta
    | _ => none
  | _ => none

def StreamSession.sealedInEpoch {β : Type} (session : StreamSession β) : List FileMeta :=
  match session.phase with
  | .running _ w => w.sealedInEpoch
  | _ => []

namespace Stream

variable {β : Type} {cfg : Nat → WriterConfig β} {s s' : Stream β} {json : Option StateFile}

/-- The epochs of a stream. -/
def anchor (s : Stream β) : Anchor :=
  ⟨s.json.map StateFile.maxEpochUsed, s.lastOpen, fun id ↦ (s.sessions id).holder⟩

/-- A write takes effect in turn: that of an open when no other open has written since it read the
state object, that of a writer when no other session has opened since its own. -/
def InTurn (s : Stream β) : StreamAction β → Prop
  | .openLands id => (s.sessions id).seen = s.lastOpen
  | .persistLands id _ => s.lastOpen = some id
  | _ => True

instance (s : Stream β) : (action : StreamAction β) → Decidable (s.InTurn action)
  | .openLands id => inferInstanceAs (Decidable ((s.sessions id).seen = s.lastOpen))
  | .persistLands id _ => inferInstanceAs (Decidable (s.lastOpen = some id))
  | .openRead _ | .openDecide .. | .openReturns .. | .writer .. | .crash _ =>
    inferInstanceAs (Decidable True)

theorem anchor_setSession (id : Nat) (session : StreamSession β) :
    (s.setSession id session).anchor = s.anchor.setHolder id session.holder := by
  refine congrArg (Anchor.mk _ _) (funext fun other ↦ ?_)
  by_cases hother : other = id
  · subst hother
    simp [setSession]
  · simp [setSession, hother, anchor]

/-- A session that goes on with what its open decided leaves the anchor. -/
theorem anchor_keeps {id : Nat} {session : StreamSession β}
    (hholder : session.holder = (s.sessions id).holder) :
    (s.setSession id session).anchor = s.anchor := by
  rw [anchor_setSession, hholder]
  exact congrArg (Anchor.mk _ _) (Function.update_eq_self id s.anchor.holders)

/-- A write of a session that goes on records the epoch that is written. -/
theorem anchor_write {id : Nat} {session : StreamSession β} (state : StateFile)
    (hholder : session.holder = (s.sessions id).holder) :
    ((s.setSession id session).write state).anchor =
      { s.anchor with recorded := some state.maxEpochUsed } := by
  exact congrArg (fun a : Anchor ↦ { a with recorded := some state.maxEpochUsed })
    (anchor_keeps hholder)

/-- A step of the stream whose write takes effect in turn moves the anchor, or leaves it. -/
theorem anchor_step {action : StreamAction β} (hcurrent : s.Current)
    (hmade : ∀ id, (s.sessions id).Made (cfg id)) (hinturn : s.InTurn action)
    (hstep : step cfg s action = some s') :
    s'.anchor = s.anchor ∨ Anchor.Move s.anchor s'.anchor := by
  cases action with
  | openRead id =>
    obtain ⟨hphase, rfl⟩ := openRead_eq_some hstep
    have hlanded : (s.sessions id).openLanded = none := (hcurrent id).unopened hphase
    have hmove := Anchor.Move.look s.anchor id (by simp [anchor, StreamSession.holder, hlanded])
    refine Or.inr (Eq.mp (congrArg (Anchor.Move s.anchor) ?_) hmove)
    rw [anchor_setSession]
    simp [StreamSession.holder, StreamSession.copy, StreamSession.opened, hlanded, anchor]
  | openDecide id nowMs watermark staged =>
    obtain ⟨state, hphase, ⟨opening, hopen, rfl⟩ | ⟨err, rfl⟩⟩ := openDecide_eq_some hstep
    · have hlanded : (s.sessions id).openLanded = none := ((hcurrent id).reading state hphase).1
      have hmove := Anchor.Move.decide s.anchor id opening.epoch (state.map StateFile.maxEpochUsed)
        (by simp [anchor, StreamSession.holder, StreamSession.copy, hphase])
        (by simp [anchor, StreamSession.holder, hlanded]) fun recorded hrecorded ↦ by
          obtain ⟨st, hst, rfl⟩ := Option.map_eq_some_iff.mp hrecorded
          exact (openDecisions_epoch hopen).2.2 st hst
      rw [anchor_setSession]
      exact Or.inr hmove
    · rw [anchor_setSession]
      exact Or.inr (.drop s.anchor id)
  | openLands id =>
    obtain ⟨opening, hphase, hlanded, rfl⟩ := openLands_eq_some hstep
    have hmove := Anchor.Move.land s.anchor id opening.epoch
      (by simp [anchor, StreamSession.holder, StreamSession.opened, hphase])
      (by simp [anchor, StreamSession.holder, hlanded]) hinturn
    rw [← (hcurrent id).epoch opening hphase] at hmove
    have hsession := anchor_setSession (s := s) id
      { s.sessions id with openLanded := some (s.version + 1) }
    refine Or.inr (Eq.mp (congrArg (Anchor.Move s.anchor) ?_) hmove)
    exact congrArg (fun a : Anchor ↦ { a with
      recorded := some opening.newState.maxEpochUsed, last := some id }) hsession.symm
  | openReturns id result =>
    obtain ⟨opening, hphase, ⟨version, hlanded, rfl⟩ | ⟨err, rfl⟩⟩ := openReturns_eq_some hstep
    · refine Or.inl (anchor_keeps ?_)
      simp [StreamSession.holder, StreamSession.copy, StreamSession.opened, hphase]
    · rw [anchor_setSession]
      exact Or.inr (.drop s.anchor id)
  | writer id action =>
    obtain ⟨opening, w, next, session, hphase, hnext, hsession, rfl⟩ := writer_eq_some hstep
    obtain ⟨hrunning, hlanded, hseen⟩ := afterStep_eq_some hsession
    refine Or.inl (anchor_keeps ?_)
    simp [StreamSession.holder, StreamSession.copy, StreamSession.opened, hphase, hrunning, hlanded,
      hseen]
  | persistLands id persister =>
    obtain ⟨opening, w, state, hphase, hpersist, -, hafter⟩ := persistLands_eq_some hstep
    have hanchor : s'.anchor = { s.anchor with recorded := some state.maxEpochUsed } := by
      rw [hafter]
      exact anchor_write state rfl
    have hpending : w.pending persister = some state := by simp [Writer.pending, hpersist]
    rw [hanchor]
    refine Or.inr (.again s.anchor id opening.epoch state.maxEpochUsed ?_ hinturn ?_)
    · simp [anchor, StreamSession.holder, StreamSession.opened, hphase]
    · exact (hmade id opening w hphase).2.le_pending hpending
  | crash id =>
    obtain rfl := Option.some.inj hstep
    exact Or.inl (anchor_keeps rfl)

/-- While the writes take effect in turn, every epoch in use is recorded. -/
theorem kept_of_reachable (hreach : ReachableUnder (step cfg) InTurn (start json) s) :
    s.anchor.Kept := by
  refine hreach.strengthened (fun s ↦ s.anchor.Kept) (Anchor.kept_start _) ?_
  intro before action after hbefore hkept hinturn hstep
  rcases anchor_step (current_of_reachable hbefore.reachable)
    (made_of_reachable hbefore.reachable) hinturn hstep with hsame | hmove
  · rwa [hsame]
  · exact hkept.move hmove

/-- The epoch in the key of a file is recorded in the state object. -/
def Recorded (s : Stream β) (m : FileMeta) : Prop :=
  ∃ st, s.json = some st ∧ m.file.epochMs ≤ st.maxEpochUsed

/-- The epoch of a running session is recorded, and with it that of every file it sealed before a
roll-over. -/
theorem recorded_of_sealedInEpoch (hreach : ReachableUnder (step cfg) InTurn (start json) s)
    {id : Nat} {m : FileMeta} (hm : m ∈ (s.sessions id).sealedInEpoch) : s.Recorded m := by
  unfold StreamSession.sealedInEpoch at hm
  split at hm
  · next opening w hrunning =>
    obtain ⟨hlanded, hmade⟩ := made_of_reachable hreach.reachable id opening w hrunning
    have hepoch : (s.anchor.holders id).epoch = some opening.epoch := by
      simp [anchor, StreamSession.holder, StreamSession.opened, hrunning]
    obtain ⟨recorded, hrecorded, hle⟩ := (kept_of_reachable hreach).recorded id _ hepoch hlanded
    obtain ⟨st, hst, rfl⟩ := Option.map_eq_some_iff.mp hrecorded
    rw [← hmade.epoch_of_sealedInEpoch hm] at hle
    exact ⟨st, hst, hle⟩
  · simp at hm

/-- In every run whose writes of `state.json` take effect in turn, whenever the put of a file is
under way that its session sealed before a roll-over, its epoch is recorded. -/
theorem epoch_anchor_durable (cfg : Nat → WriterConfig β) (json : Option StateFile) (s : Stream β)
    (hreach : ReachableUnder (step cfg) InTurn (start json) s) (id : Nat) (m : FileMeta) :
    (s.sessions id).putUnderWay = some m → m ∈ (s.sessions id).sealedInEpoch → s.Recorded m :=
  fun _ hfirst ↦ recorded_of_sealedInEpoch hreach hfirst

/-- The steps up to a put: a batch is appended and flushed. -/
def sampleStaging (id : Nat) : List (StreamAction RecordBatch) :=
  ((sampleAppend 0 9 ++ sampleFlush).take 19).map (.writer id)

/-- The first file of a session is being put. -/
def staging : Stream RecordBatch :=
  (run (restrict (step fun _ ↦ sampleConfig) InTurn) (start none)
    (sampleOpen 0 1 ++ sampleStaging 0)).getD (start none)

theorem epoch_anchor_durable_staging :
    ∃ m, (staging.sessions 0).putUnderWay = some m ∧ staging.Recorded m := by
  obtain ⟨m, hput⟩ : ∃ m, (staging.sessions 0).putUnderWay = some m :=
    Option.isSome_iff_exists.mp (by decide +kernel)
  have hfirst : ∀ m ∈ (staging.sessions 0).putUnderWay, m ∈ (staging.sessions 0).sealedInEpoch := by
    decide +kernel
  exact ⟨m, hput, epoch_anchor_durable (fun _ ↦ sampleConfig) none staging
    (reachableUnder_getD_of_restrict .refl (by decide +kernel)) 0 m hput (hfirst m hput)⟩

/-- The successor puts a file after its predecessor's late write. -/
def unanchored : Stream RecordBatch :=
  (run (step fun _ ↦ sampleConfig) overlapped (.persistLands 0 .ticker :: sampleStaging 1)).getD
    (start none)

/-- The late write takes the record of the successor's epoch away: 5 is in use, 1 is recorded. -/
theorem anchor_lost :
    ¬ ∀ (s : Stream RecordBatch), Reachable (step fun _ ↦ sampleConfig) (start none) s →
      ∀ id m, (s.sessions id).putUnderWay = some m → s.Recorded m := by
  intro hclaim
  obtain ⟨m, hput⟩ : ∃ m, (unanchored.sessions 1).putUnderWay = some m :=
    Option.isSome_iff_exists.mp (by decide +kernel)
  obtain ⟨st, hst, hle⟩ := hclaim unanchored
    (reachable_getD_of_run overlapped_reachable (by decide +kernel)) 1 m hput
  have hjson : unanchored.json = some ⟨none, 1⟩ := by decide +kernel
  have hepoch : ((unanchored.sessions 1).putUnderWay.map fun m ↦ m.file.epochMs) = some 5 := by
    decide +kernel
  obtain rfl := Option.some.inj (hst.symm.trans hjson)
  simp only [hput, Option.map_some, Option.some.injEq] at hepoch
  exact absurd (hepoch ▸ hle) (by decide)

end Stream

end RelytIngest
