import RelytIngest.Foundations.OrderedDelivery
import RelytIngest.Ingest.Outstanding

/-!
# The files on their way to the master

`Ingest.delivery` views a state as the delivery of the numbers of the files that have to be loaded,
and `Orderly` says that nothing overtakes them: the last session that listed the directory has
submitted, or is going to submit, whatever has not arrived. `Orderly.step` follows the steps, each a
move of the delivery.
-/

set_option autoImplicit false
set_option relaxedAutoImplicit false

namespace RelytIngest

open Foundations Relation

namespace Writer

variable {β : Type} {cfg : WriterConfig β} {w : Writer β} {epochMs : Nat}
  {stagedOffset resumePersisted : Option Int}

/-- A file that may be in the directory and whose put has not returned is the last such file. -/
theorem ReachableFrom.le_of_maybePut
    (hreach : ReachableFrom cfg epochMs stagedOffset resumePersisted w) {file other : StagedFile}
    (hfile : file ∈ w.maybePut) (hnot : ∀ m ∈ w.trace.putReturned, m.file ≠ file)
    (hother : other ∈ w.maybePut) : other.packed ≤ file.packed := by
  obtain ⟨rest, hrest⟩ := hreach.sealed_split
  have hmaybe : w.maybePut = w.trace.putReturned.map FileMeta.file ++ rest.take 1 := by
    rw [maybePut, hrest, List.take_append]
    simp
  have hrising := hreach.sealed_rising
  rw [hrest] at hrising
  rw [hmaybe] at hfile hother
  have hnext : file ∈ rest.take 1 := by
    rcases List.mem_append.mp hfile with hput | hnext
    · obtain ⟨m, hm, heq⟩ := List.mem_map.mp hput
      exact absurd heq (hnot m hm)
    · exact hnext
  rcases List.mem_append.mp hother with hput | hsame
  · exact ((List.pairwise_append.mp hrising).2.2 other hput file (List.mem_of_mem_take hnext)).le
  · cases rest with
    | nil => simp at hnext
    | cons next later =>
      simp only [List.take_succ_cons, List.take_zero, List.mem_singleton] at hnext hsame
      rw [hnext, hsame]

/-- The file whose put has just returned is the first that is not past the fence. -/
theorem ReachableFrom.le_of_returned
    (hreach : ReachableFrom cfg epochMs stagedOffset resumePersisted w) {n : FileMeta}
    (hreturned : w.files.place = .returned n) {file : StagedFile} (hfile : file ∈ w.sealedFiles)
    (hnot : ∀ m ∈ w.cleared, m.file ≠ file) : n.serialSeq ≤ file.packed := by
  obtain ⟨rest, hrest⟩ := hreach.sealed_split
  have hput : w.trace.putReturned = w.cleared ++ [n] := hreach.files.returned_eq hreturned
  have hseq : n.serialSeq = n.file.packed := (hreach.cleared_meta (by simp [hput])).2.2
  have hrising := hreach.sealed_rising
  rw [hrest, hput, List.map_append, List.append_assoc] at hrising hfile
  rw [hseq]
  rcases List.mem_append.mp hfile with hcleared | hbehind
  · obtain ⟨m, hm, heq⟩ := List.mem_map.mp hcleared
    exact absurd heq (hnot m hm)
  · have hlater := (List.pairwise_append.mp hrising).2.1
    simp only [List.map_singleton, List.singleton_append, List.mem_cons,
      List.pairwise_cons] at hbehind hlater
    rcases hbehind with rfl | hrest
    · exact le_rfl
    · exact (hlater.1 file hrest).le

end Writer

section Backfill

variable {staged : List StagedFile} {watermark : Option Int} {plan : RecoveryPlan}

theorem mem_backfill (hplan : planRecovery staged watermark = .ok plan) {file : StagedFile} :
    file ∈ plan.backfill ↔ file ∈ staged ∧ aboveWatermark watermark file.packed = true := by
  rw [(planRecovery_ok hplan).2.2.1, List.mem_filter, mem_sortStaged]

/-- The numbers of a backfill rise. -/
theorem backfill_rising (hplan : planRecovery staged watermark = .ok plan) :
    (plan.backfill.map StagedFile.packed).Pairwise (· ≤ ·) := by
  obtain ⟨hnamed, -, hbackfill, -⟩ := planRecovery_ok hplan
  rw [hbackfill, List.pairwise_map]
  have hsorted : (sortStaged staged).Pairwise StagedFile.NotAfter :=
    List.pairwise_insertionSort StagedFile.NotAfter staged
  refine (hsorted.filter _).imp_of_mem fun {first second} hfirst hsecond h ↦ ?_
  have hfit := (hnamed first (mem_sortStaged.mp (List.mem_of_mem_filter hfirst))).2
  have hmax := maxSeq_eq
  simp only [StagedFile.packed]
  rcases h with hlt | ⟨heq, hle⟩ <;> omega

end Backfill

namespace Ingest

variable {β σ : Type} {cfg : Nat → WriterConfig β} {master : Master σ} {s s' : Ingest β σ}
  {allowed : Ingest β σ → IngestAction β → Prop} {m : σ} {first : Int} {admitted : Entry β → Prop}
  {owed : List StagedFile}

/-- The numbers of the files on their way to the master. -/
def delivery (master : Master σ) (s : Ingest β σ) (owed : List StagedFile) : Delivery Int where
  kept := {n | ∃ file ∈ owed, file.packed = n}
  loaded := (master.loaded s.master).map NotifyRequest.serialSeq
  queued := {n | ∃ req ∈ master.queued s.master, req.serialSeq = n}
  wire := {n | ∃ sent ∈ s.wire, sent.2.serialSeq = n}
  pending := s.outstanding

/-- Nothing overtakes a file that has to be loaded. -/
structure Orderly (master : Master σ) (s : Ingest β σ) (owed : List StagedFile) : Prop where
  ordered : (s.delivery master owed).Ordered
  caughtUp : ∀ id, s.lister = some id → (s.session id).Announcing →
    (s.delivery master owed).CaughtUp id (s.session id).Ahead
  answered : ∀ answer ∈ s.answers, (s.delivery master owed).Arrived answer.2.1.serialSeq ∨
    ∃ l ∈ (s.delivery master owed).loaded, answer.2.1.serialSeq ≤ l
  marked : ∀ id w, s.watermarks id = some (some w) → w ∈ (s.delivery master owed).loaded

/-! ### What moves -/

/-- What is on its way to the master is a file that is kept. -/
theorem kept_of_moving (hrequests : s.Requests cfg master) (hkept : s.Kept owed)
    (hwriter : ∀ id opening w, (s.session id).phase = .running opening w →
      w.ReachableFrom (cfg id) opening.epoch (recoveredOffset opening.plan.kafkaResumeOffset)
        opening.newState.resumeOffset) {n : Int} (hmoving : (s.delivery master owed).Moving n) :
    ∃ file ∈ s.kept, file.packed = n := by
  have hsubmitted {req : NotifyRequest} (hreq : s.Submitted master req) (heq : req.serialSeq = n) :
      ∃ file ∈ s.kept, file.packed = n := by
    obtain ⟨file, hfile, hannounces⟩ := hrequests.submitted req hreq
    exact ⟨file, hfile, hannounces.serialSeq.symm.trans heq⟩
  rcases hmoving with (hloaded | ⟨req, hreq, heq⟩) | ⟨⟨id, req⟩, hsent, heq⟩ | ⟨id, hpending⟩
  · obtain ⟨req, hreq, heq⟩ := List.mem_map.mp hloaded
    exact hsubmitted (Or.inr (Or.inr (Or.inr hreq))) heq
  · exact hsubmitted (Or.inr (Or.inr (Or.inl hreq))) heq
  · exact hsubmitted (Or.inr (Or.inl ⟨id, hsent⟩)) heq
  · change n ∈ s.outstanding id at hpending
    unfold outstanding at hpending
    split_ifs at hpending
    · rcases List.mem_append.mp hpending with hqueued | hannounce
      · obtain ⟨req, hreq, heq⟩ := List.mem_map.mp hqueued
        exact hsubmitted (Or.inl ⟨id, hreq⟩) heq
      · unfold toAnnounce at hannounce
        split at hannounce
        · next opening hphase =>
          obtain ⟨file, hfile, heq⟩ := List.mem_map.mp hannounce
          exact ⟨file, hrequests.backfill id opening (by simp [StreamSession.opened, hphase]) file
            (List.mem_of_mem_drop hfile), heq⟩
        · next opening w hphase =>
          obtain ⟨n, hn, heq⟩ := List.mem_map.mp hannounce
          have hreach := hwriter id opening w hphase
          have hcleared : n ∈ w.cleared := hreach.files.toAnnounce_cleared hn
          have hseq := (hreach.cleared_meta (hreach.files.cleared_prefix.subset hcleared)).2.2
          exact ⟨n.file, hkept.mem_kept _ (hkept.cleared id opening w hphase n hcleared),
            hseq.symm.trans heq⟩
        · simp at hannounce
    · simp at hpending

/-- And one of the numbers that the sessions and the master have between them. -/
theorem mem_moving (hsuccession : s.Succession) (hidle : s.Idle) {n : Int}
    (hmoving : (s.delivery master owed).Moving n) : n ∈ s.moving master := by
  simp only [moving, List.mem_append, List.mem_map, List.mem_flatMap, List.mem_range]
  rcases hmoving with (hloaded | ⟨req, hreq, rfl⟩) | ⟨sent, hsent, rfl⟩ | ⟨id, hpending⟩
  · obtain ⟨req, hreq, rfl⟩ := List.mem_map.mp hloaded
    exact Or.inl (Or.inl ⟨req, Or.inl hreq, rfl⟩)
  · exact Or.inl (Or.inl ⟨req, Or.inr hreq, rfl⟩)
  · exact Or.inl (Or.inr ⟨sent, hsent, rfl⟩)
  · refine Or.inr ⟨id, ?_, hpending⟩
    by_contra hge
    have hphase := hsuccession.unbegun id (not_lt.mp hge)
    change n ∈ s.outstanding id at hpending
    simp [outstanding, toAnnounce, hphase, (hidle id (Or.inl hphase)).1] at hpending

namespace Orderly

/-! ### The steps of the stream -/

/-- A step in which no session has anything new to submit. -/
theorem quiet (h : s.Orderly master owed) (hquiet : Quiet s s') (hmaster : s'.master = s.master)
    (hwire : s'.wire = s.wire) (hanswers : s'.answers = s.answers)
    (hwatermarks : s'.watermarks = s.watermarks) (hlister : s'.lister = s.lister) :
    s'.Orderly master owed := by
  have hview : s'.delivery master owed =
      { s.delivery master owed with pending := s'.outstanding } := by
    simp only [delivery, hmaster, hwire]
  constructor
  case ordered => exact hview ▸ h.ordered.forget hquiet.leading
  case caughtUp =>
    intro id hid hannouncing
    obtain ⟨hbefore, hsame⟩ := hquiet.announcing id hannouncing
    rw [hview]
    intro g hg
    rcases h.caughtUp id (hlister ▸ hid) hbefore g hg with hahead | harrived | hpending
    · exact Or.inl (hquiet.ahead id g hannouncing hahead)
    · exact Or.inr (Or.inl harrived)
    · exact Or.inr (Or.inr (show g ∈ s'.outstanding id from hsame ▸ hpending))
  case answered => rw [hview, hanswers]; exact h.answered
  case marked => rw [hview, hwatermarks]; exact h.marked

/-- A file passes the fence: it goes behind everything that has to be loaded before. -/
theorem passes (h : s.Orderly master owed) (hkept : s.Kept owed) (hputs : s.Puts)
    (hsuccession : s.Succession) {id : Nat} {n : FileMeta}
    (hwriter : ∀ opening w, (s.session id).phase = .running opening w →
      w.ReachableFrom (cfg id) opening.epoch (recoveredOffset opening.plan.kafkaResumeOffset)
        opening.newState.resumeOffset)
    (hpasses : Passes s s' id n) (hmaster : s'.master = s.master)
    (hwire : s'.wire = s.wire) (hanswers : s'.answers = s.answers)
    (hwatermarks : s'.watermarks = s.watermarks) (hlister : s'.lister = s.lister) :
    s'.Orderly master owed := by
  obtain ⟨hcurrent, ⟨opening, w, w', hrunning, hrunning', hreturned, hcleared, hnotifier⟩, halive,
    hothers, houtstanding⟩ := hpasses
  have hreach := hwriter opening w hrunning
  have hself : s.lister = some id :=
    hsuccession.lister (by simp [StreamSession.opened, hrunning]) hcurrent
  have hcaught := h.caughtUp id hself ⟨halive, Or.inr ⟨opening, w, hrunning, hnotifier⟩⟩
  -- a number ahead is that of a file behind the one that passes
  have hahead {g : Int} (hg : g ∈ (s.delivery master owed).kept) (h : (s.session id).Ahead g) :
      n.serialSeq ≤ g := by
    obtain ⟨file, hfile, rfl⟩ := hg
    obtain ⟨_, _, hphase, hepoch, habove⟩ := h
    obtain ⟨rfl, rfl⟩ := SessionPhase.running.inj (hrunning.symm.trans hphase)
    rcases hkept.below id opening hself (by simp [StreamSession.opened, hrunning]) file
      (hkept.mem_kept file hfile) with hbelow | hlanded
    · exact absurd hepoch (not_le.mpr hbelow)
    · obtain ⟨_, _, hphase', hmaybe⟩ := hputs.issued id file (hputs.landed _ hlanded)
      obtain ⟨rfl, rfl⟩ := SessionPhase.running.inj (hrunning.symm.trans hphase')
      refine hreach.le_of_returned hreturned (Writer.mem_sealedFiles_of_maybePut hmaybe) ?_
      rintro m hm rfl
      have hseq := (hreach.cleared_meta (hreach.files.cleared_prefix.subset hm)).2.2
      exact absurd (habove m hm) (by omega)
  have hview : s'.delivery master owed = (s.delivery master owed).setPending id
      ((s.delivery master owed).pending id ++ [n.serialSeq]) := by
    simp only [delivery, Delivery.setPending, hmaster, hwire, houtstanding]
  constructor
  case ordered =>
    rw [hview]
    exact h.ordered.enqueue (hcaught.closed fun g hg hlt hbefore ↦
      absurd (hahead hg hbefore) (not_le.mpr hlt))
  case caughtUp =>
    intro other hother _
    obtain rfl : id = other := Option.some.inj (hself.symm.trans (hlister ▸ hother))
    rw [hview]
    intro g hg
    rcases hcaught g hg with hbefore | harrived | hpending
    · by_cases hlast : n.serialSeq = g
      · exact Or.inr (Or.inr (by simp [hlast]))
      · refine Or.inl ⟨opening, w', hrunning', ?_, fun m hm ↦ ?_⟩
        · obtain ⟨_, _, hphase, hepoch, -⟩ := hbefore
          obtain ⟨rfl, rfl⟩ := SessionPhase.running.inj (hrunning.symm.trans hphase)
          exact hepoch
        · rw [hcleared] at hm
          rcases List.mem_append.mp hm with hold | hnew
          · obtain ⟨_, _, hphase, -, habove⟩ := hbefore
            obtain ⟨rfl, rfl⟩ := SessionPhase.running.inj (hrunning.symm.trans hphase)
            exact habove m hold
          · rw [List.mem_singleton.mp hnew]
            exact lt_of_le_of_ne (hahead hg hbefore) hlast
    · exact Or.inr (Or.inl harrived)
    · exact Or.inr (Or.inr (by simp [hpending]))
  case answered => rw [hview, hanswers]; exact h.answered
  case marked => rw [hview, hwatermarks]; exact h.marked

/-- The objects that a listing finds late are above everything that moves. -/
theorem keep_late (h : s.Orderly master owed) (hsuccession : s.Succession) (hidle : s.Idle)
    (id nowMs : Nat) (watermark : Option Int) (staged : List StagedFile) :
    (s.delivery master
      (s.nextOwed master owed (.stream (.openDecide id nowMs watermark staged)))).Ordered := by
  have hview : s.delivery master
      (s.nextOwed master owed (.stream (.openDecide id nowMs watermark staged))) =
      { s.delivery master owed with
        kept := (s.delivery master owed).kept ∪
          {n | ∃ file, file ∈ s.staged ∧ (file ∉ s.kept ∧ ∀ n ∈ s.moving master, n < file.packed) ∧
            file.packed = n} } := by
    simp only [delivery, nextOwed, List.mem_append, List.mem_filter, decide_eq_true_eq,
      Delivery.mk.injEq, and_true]
    ext n
    simp only [Set.mem_ofPred_eq, Set.mem_union, or_and_right, exists_or, and_assoc]
  rw [hview]
  refine h.ordered.keep ?_
  rintro _ ⟨file, -, ⟨-, habove⟩, rfl⟩ n hmoving
  exact (habove n (mem_moving hsuccession hidle hmoving)).le

/-- What has to be loaded and has not arrived is in the backfill of an open. -/
theorem arrived_or_backfill (h : s.Orderly master owed) {owed' : List StagedFile}
    (hordered : (s.delivery master owed').Ordered) (howed : ∀ file ∈ owed', file ∈ s.staged)
    {id : Nat} {watermark : Option Int} (hmarked : s.watermarks id = some watermark)
    {staged : List StagedFile} (hlisted : staged.Perm s.staged) {plan : RecoveryPlan}
    (hplan : planRecovery staged watermark = .ok plan) {file : StagedFile} (hfile : file ∈ owed') :
    file.packed ∈ (s.delivery master owed').loaded ∨ file ∈ plan.backfill := by
  by_cases habove : aboveWatermark watermark file.packed = true
  · exact Or.inr ((mem_backfill hplan).mpr ⟨hlisted.mem_iff.mpr (howed file hfile), habove⟩)
  · cases watermark with
    | none => simp [aboveWatermark] at habove
    | some w =>
      simp only [aboveWatermark, Option.all_some, decide_eq_true_eq, not_lt] at habove
      exact Or.inl (hordered.loaded_of_le ⟨file, hfile, rfl⟩ (h.marked id w hmarked) habove)

theorem lists (h : s.Orderly master owed) {owed' : List StagedFile}
    (hordered : (s.delivery master owed').Ordered) (howed : ∀ file ∈ owed', file ∈ s.staged)
    {id : Nat} {state : Option StateFile} {watermark : Option Int} {staged : List StagedFile}
    {opening : Opening} (hlists : Lists s s' id state watermark staged opening)
    (hmaster : s'.master = s.master) (hwire : s'.wire = s.wire) (hanswers : s'.answers = s.answers)
    (hwatermarks : s'.watermarks = s.watermarks) (hlister : s'.lister = some id) :
    s'.Orderly master owed' := by
  obtain ⟨nowMs, hopen⟩ := hlists.decided
  obtain ⟨plan, hplan, heq, -⟩ := openDecisions_eq_ok_iff.mp hopen
  have hbackfill : opening.plan.backfill = plan.backfill := by rw [heq]
  have hview : s'.delivery master owed' = (s.delivery master owed').setPending id
      (plan.backfill.map StagedFile.packed) := by
    simp only [delivery, Delivery.setPending, hmaster, hwire, hlists.outstanding, hbackfill]
  have harrives {g : Int} (hg : g ∈ (s.delivery master owed').kept) :
      (s.delivery master owed').Arrived g ∨ g ∈ plan.backfill.map StagedFile.packed := by
    obtain ⟨file, hfile, rfl⟩ := hg
    rcases h.arrived_or_backfill hordered howed hlists.marked hlists.listed hplan hfile with
      hloaded | hbackfill
    · exact Or.inl (Or.inl hloaded)
    · exact Or.inr (List.mem_map_of_mem hbackfill)
  constructor
  case ordered =>
    rw [hview]
    refine hordered.setPending fun earlier i later hsplit g hg hlt ↦ ?_
    refine (harrives hg).imp_right fun hmem ↦ ?_
    have hrising := backfill_rising hplan
    rw [hsplit] at hmem hrising
    rcases List.mem_append.mp hmem with hearlier | hrest
    · exact hearlier
    · have hle : i ≤ g := by
        rcases List.mem_cons.mp hrest with rfl | hlater
        · exact le_rfl
        · exact (List.pairwise_cons.mp (List.pairwise_append.mp hrising).2.1).1 g hlater
      exact absurd hlt (not_lt.mpr hle)
  case caughtUp =>
    intro other hother _
    obtain rfl : id = other := Option.some.inj (hlister.symm.trans hother)
    rw [hview]
    intro g hg
    refine Or.inr ((harrives hg).imp_right fun hmem ↦ ?_)
    rw [Delivery.pending_setPending_self]
    exact hmem
  case answered => rw [hview, hanswers]; exact h.answered
  case marked => rw [hview, hwatermarks]; exact h.marked

/-! ### The other steps -/

/-- The sessions, the directory and what the writers have announced are as they were. -/
theorem caughtUp_of_same (h : s.Orderly master owed) (hstream : s'.stream = s.stream)
    (hlister : s'.lister = s.lister) {owed' : List StagedFile}
    (hkept : ∀ g ∈ (s'.delivery master owed').kept, g ∈ (s.delivery master owed).kept ∨
      ∀ id, s.lister = some id → (s.session id).Announcing → (s.session id).Ahead g)
    (harrived : ∀ g, (s.delivery master owed).Arrived g → (s'.delivery master owed').Arrived g)
    (hpending : ∀ id, ∀ g ∈ (s.delivery master owed).kept, g ∈ s.outstanding id →
      (s'.delivery master owed').Arrived g ∨ g ∈ s'.outstanding id) (id : Nat)
    (hid : s'.lister = some id) (hannouncing : (s'.session id).Announcing) :
    (s'.delivery master owed').CaughtUp id (s'.session id).Ahead := by
  have hsession : s'.session id = s.session id := by rw [session, session, hstream]
  rw [hlister] at hid
  rw [hsession] at hannouncing ⊢
  exact (h.caughtUp id hid hannouncing).mono
    (fun g hg ↦ (hkept g hg).imp_right fun hahead ↦ hahead id hid hannouncing) harrived
    (fun g hg hmem ↦ hpending id g hg hmem)

/-- An object appears that the session put which has listed the directory last. -/
theorem objectLands (h : s.Orderly master owed) (hkept : s.Kept owed) (hputs : s.Puts)
    (hrequests : s.Requests cfg master)
    (hwriter : ∀ id opening w, (s.session id).phase = .running opening w →
      w.ReachableFrom (cfg id) opening.epoch (recoveredOffset opening.plan.kafkaResumeOffset)
        opening.newState.resumeOffset) {id : Nat} {file : StagedFile}
    (hstep : s.objectLands id file = some s') :
    s'.Orderly master (s.nextOwed master owed (.objectLands id file)) := by
  obtain ⟨hput, rfl⟩ := objectLands_eq_some hstep
  by_cases hnew : s.lister = some id ∧ file ∉ owed
  · have hmore : s.nextOwed master owed (.objectLands id file) = owed ++ [file] := if_pos hnew
    obtain ⟨hlister, hfile⟩ := hnew
    obtain ⟨opening, w, hrunning, hmaybe⟩ := hputs.issued id file hput
    have hreach := hwriter id opening w hrunning
    have hsealed := Writer.mem_sealedFiles_of_maybePut hmaybe
    have hepoch := (hreach.sealed_meta hsealed).2
    have hnot (n : FileMeta) (hn : n ∈ w.trace.putReturned) : n.file ≠ file := fun heq ↦
      hfile (hkept.own id hlister file (heq ▸ hputs.returned id opening w hrunning n hn))
    have hview : delivery master { s with
        landed := s.landed ++ [(id, file)]
        kept := if s.lister = some id ∧ file ∉ s.kept then s.kept ++ [file] else s.kept }
          (owed ++ [file]) =
        { s.delivery master owed with kept := (s.delivery master owed).kept ∪ {file.packed} } := by
      simp only [delivery, List.mem_append, List.mem_singleton, Delivery.mk.injEq]
      refine ⟨?_, trivial, trivial, trivial, rfl⟩
      ext n
      simp only [Set.mem_ofPred_eq, Set.mem_union, or_and_right, exists_or, exists_eq_left,
        Set.mem_singleton_iff]
      rw [eq_comm]
    rw [hmore]
    constructor
    case ordered =>
      rw [hview]
      refine h.ordered.keep fun i hi n hmoving ↦ ?_
      obtain rfl := hi
      obtain ⟨other, hother, rfl⟩ := kept_of_moving hrequests hkept hwriter hmoving
      rcases hkept.below id opening hlister (by simp [StreamSession.opened, hrunning]) other hother
        with hbelow | hlanded
      · omega
      · obtain ⟨_, _, hphase, hmaybe'⟩ := hputs.issued id other (hputs.landed _ hlanded)
        obtain ⟨rfl, rfl⟩ := SessionPhase.running.inj (hrunning.symm.trans hphase)
        exact hreach.le_of_maybePut hmaybe hnot hmaybe'
    case caughtUp =>
      apply h.caughtUp_of_same
      · rfl
      · rfl
      · intro g hg
        rw [hview] at hg
        refine hg.imp_right fun hlast other hother _ ↦ ?_
        obtain rfl : id = other := Option.some.inj (hlister.symm.trans hother)
        obtain rfl : g = file.packed := hlast
        refine ⟨opening, w, hrunning, hepoch, fun n hn ↦ ?_⟩
        refine hreach.lt_of_not_cleared hsealed (fun n hn heq ↦ ?_) hn
        exact hfile (heq ▸ hkept.cleared id opening w hrunning n hn)
      · exact fun g hg ↦ hg
      · exact fun _ g _ hmem ↦ Or.inr hmem
    case answered => rw [hview]; exact h.answered
    case marked => rw [hview]; exact h.marked
  · have hsame : s.nextOwed master owed (.objectLands id file) = owed := if_neg hnew
    rw [hsame]
    exact ⟨h.ordered, h.caughtUp, h.answered, h.marked⟩

theorem send (h : s.Orderly master owed) {id : Nat} (hstep : s.send id = some s') :
    s'.Orderly master owed := by
  obtain ⟨halive, req, hhead, rfl⟩ := send_eq_some hstep
  obtain ⟨rest, hrest⟩ := outstanding_head halive hhead
  have hview : delivery master { s with wire := s.wire ++ [(id, req)] } owed =
      { s.delivery master owed with
        wire := insert req.serialSeq (s.delivery master owed).wire } := by
    simp only [delivery, List.mem_append, List.mem_singleton, Delivery.mk.injEq, true_and]
    refine ⟨?_, rfl⟩
    ext n
    simp only [Set.mem_ofPred_eq, Set.mem_insert_iff, or_and_right, exists_or, exists_eq_left]
    rw [or_comm, eq_comm]
  constructor
  case ordered => exact hview ▸ h.ordered.send hrest
  case caughtUp =>
    apply h.caughtUp_of_same
    · rfl
    · rfl
    · exact fun g hg ↦ Or.inl hg
    · exact fun g hg ↦ hg
    · exact fun _ g _ hmem ↦ Or.inr hmem
  case answered => exact h.answered
  case marked => exact h.marked

theorem turn (h : s.Orderly master owed) {id : Nat} {t : Turn} (hstep : s.turn id t = some s') :
    s'.Orderly master owed := by
  have hsettled := outstanding_turn hstep
  obtain ⟨-, -, rfl⟩ := turn_eq_some hstep
  generalize (s.loops id).receive.turn t = loop at hsettled ⊢
  rcases hsettled with hsame | ⟨req, outcome, rest, hanswer, hfirst, hrest⟩
  · have hview : delivery master { s with loops := Function.update s.loops id loop } owed =
        s.delivery master owed := by
      simp only [delivery, hsame]
    constructor
    case ordered => exact hview ▸ h.ordered
    case caughtUp =>
      apply h.caughtUp_of_same
      · rfl
      · rfl
      · exact fun g hg ↦ Or.inl hg
      · exact fun g hg ↦ hg
      · exact fun other g _ hmem ↦ Or.inr (hsame ▸ hmem)
    case answered => exact h.answered
    case marked => exact h.marked
  · have hview : delivery master { s with loops := Function.update s.loops id loop } owed =
        (s.delivery master owed).setPending id rest := by
      simp only [delivery, Delivery.setPending, hrest]
    have hdone := h.answered _ hanswer
    constructor
    case ordered => exact hview ▸ h.ordered.settle hfirst hdone
    case caughtUp =>
      apply h.caughtUp_of_same
      · rfl
      · rfl
      · exact fun g hg ↦ Or.inl hg
      · exact fun g hg ↦ hg
      · intro other g hg hmem
        rw [hrest]
        by_cases hother : other = id
        · subst hother
          rw [Function.update_self]
          rw [hfirst] at hmem
          rcases List.mem_cons.mp hmem with rfl | hlater
          · rcases hdone with harrived | ⟨l, hl, hle⟩
            · exact Or.inl harrived
            · exact Or.inl (Or.inl (h.ordered.loaded_of_le hg hl hle))
          · exact Or.inr hlater
        · rw [Function.update_of_ne hother]
          exact Or.inr hmem
    case answered => exact h.answered
    case marked => exact h.marked

/-- A submission arrives: it is queued, or what it announces has arrived before. -/
theorem arrive (h : s.Orderly master owed) (hkept : s.Kept owed)
    (hrequests : s.Requests cfg master) (hdoc : master.Documented) {ident : WriterIdentity}
    (hident : ∀ id, (cfg id).ident = ident) {id : Nat} {req : NotifyRequest}
    (hstep : s.arrive master id req = some s') : s'.Orderly master owed := by
  obtain ⟨hsent, rfl⟩ := arrive_eq_some hstep
  rcases hrequests.submit hkept hdoc hident hsent with
    ⟨hsubmit, hdone⟩ | ⟨m', hsubmit, hqueued, hloaded, habove⟩
  · rw [hsubmit]
    refine ⟨h.ordered, h.caughtUp, fun answer hanswer ↦ ?_, h.marked⟩
    rcases List.mem_append.mp hanswer with hold | hnew
    · exact h.answered answer hold
    · rw [List.mem_singleton.mp hnew]
      rcases hdone with ⟨l, hl, hle⟩ | ⟨other, hother, heq⟩
      · exact Or.inr ⟨l.serialSeq, List.mem_map_of_mem hl, hle⟩
      · exact Or.inl (Or.inr ⟨other, hother, heq⟩)
  · rw [hsubmit]
    have hview : delivery master { s with
        answers := s.answers ++ [(id, req, .accepted)]
        master := m' } owed =
        { s.delivery master owed with
          queued := insert req.serialSeq (s.delivery master owed).queued } := by
      simp only [delivery, hqueued, hloaded, List.mem_append, List.mem_singleton,
        Delivery.mk.injEq, true_and]
      refine ⟨?_, rfl⟩
      ext n
      simp only [Set.mem_ofPred_eq, Set.mem_insert_iff, or_and_right, exists_or, exists_eq_left]
      rw [or_comm, eq_comm]
    have harrived {g : Int} (hg : (s.delivery master owed).Arrived g) :
        (delivery master { s with
          answers := s.answers ++ [(id, req, .accepted)]
          master := m' } owed).Arrived g := by
      rw [hview]
      exact hg.imp_right (Set.mem_insert_of_mem _)
    have hsame : (delivery master { s with
        answers := s.answers ++ [(id, req, .accepted)]
        master := m' } owed).loaded = (s.delivery master owed).loaded := by
      rw [hview]
    constructor
    case ordered =>
      rw [hview]
      refine h.ordered.arrive ⟨(id, req), hsent, rfl⟩ fun l hl ↦ ?_
      obtain ⟨other, hother, rfl⟩ := List.mem_map.mp hl
      exact habove other hother
    case caughtUp =>
      apply h.caughtUp_of_same
      · rfl
      · rfl
      · exact fun g hg ↦ Or.inl hg
      · exact fun g hg ↦ harrived hg
      · exact fun _ g _ hmem ↦ Or.inr hmem
    case answered =>
      intro answer hanswer
      rw [hsame]
      rcases List.mem_append.mp hanswer with hold | hnew
      · exact (h.answered answer hold).imp_left harrived
      · rw [List.mem_singleton.mp hnew, hview]
        exact Or.inl (Or.inr (Set.mem_insert _ _))
    case marked => rw [hsame]; exact h.marked

/-- The master loads the file with the least number. -/
theorem load (h : s.Orderly master owed) (hdoc : master.Documented)
    (hstep : s.step cfg master .load = some s') : s'.Orderly master owed := by
  obtain ⟨m', hload, rfl⟩ := load_eq_some hstep
  obtain ⟨req, hreq, hleast, hloaded, hqueued⟩ := hdoc.load s.master m' hload
  have hmem : req.serialSeq ∈ (s.delivery master owed).queued := ⟨req, hreq, rfl⟩
  have hview : delivery master { s with master := m' } owed =
      { s.delivery master owed with
        loaded := (s.delivery master owed).loaded ++ [req.serialSeq]
        queued := (s.delivery master owed).queued \ {req.serialSeq} } := by
    simp only [delivery, hloaded, hqueued, List.map_append, List.map_singleton, List.mem_filter,
      decide_eq_true_eq, Delivery.mk.injEq, true_and]
    refine ⟨?_, rfl⟩
    ext n
    simp only [Set.mem_ofPred_eq, Set.mem_sdiff, Set.mem_singleton_iff]
    constructor
    · rintro ⟨other, ⟨hother, hne⟩, rfl⟩
      exact ⟨⟨other, hother, rfl⟩, hne⟩
    · rintro ⟨⟨other, hother, rfl⟩, hne⟩
      exact ⟨other, ⟨hother, hne⟩, rfl⟩
  have harrived {g : Int} (hg : (s.delivery master owed).Arrived g) :
      (delivery master { s with master := m' } owed).Arrived g := by
    rw [hview]
    exact (Delivery.arrived_load hmem).mpr hg
  have hmore {l : Int} (hl : l ∈ (s.delivery master owed).loaded) :
      l ∈ (delivery master { s with master := m' } owed).loaded := by
    rw [hview]
    exact List.mem_append_left _ hl
  constructor
  case ordered =>
    rw [hview]
    refine h.ordered.load hmem ?_
    rintro _ ⟨other, hother, rfl⟩
    exact hleast other hother
  case caughtUp =>
    apply h.caughtUp_of_same
    · rfl
    · rfl
    · exact fun g hg ↦ Or.inl hg
    · exact fun g hg ↦ harrived hg
    · exact fun _ g _ hmem ↦ Or.inr hmem
  case answered =>
    intro answer hanswer
    refine (h.answered answer hanswer).imp harrived ?_
    rintro ⟨l, hl, hle⟩
    exact ⟨l, hmore hl, hle⟩
  case marked => exact fun id w hw ↦ hmore (h.marked id w hw)

theorem readWatermark (h : s.Orderly master owed) (hdoc : master.Documented) {id : Nat}
    {degraded : Bool} (hstep : s.readWatermark master id degraded = some s') :
    s'.Orderly master owed := by
  obtain ⟨state, -, answer, hanswer, rfl⟩ := readWatermark_eq_some hstep
  refine ⟨h.ordered, h.caughtUp, h.answered, fun other w hw ↦ ?_⟩
  by_cases hother : other = id
  · subst hother
    obtain rfl : answer = some w := by simpa using hw
    rcases hanswer with hnone | hmark
    · simp at hnone
    · obtain ⟨l, hl, heq⟩ := (hdoc.watermark_eq_some hmark.symm).1
      exact List.mem_map.mpr ⟨l, hl, heq⟩
  · exact h.marked other w (by simpa [hother] using hw)

theorem backfill (h : s.Orderly master owed) {id : Nat} (hstep : s.backfill cfg id = some s') :
    s'.Orderly master owed := by
  have hsame := outstanding_backfill hstep
  obtain ⟨opening, file, n, -, -, -, -, rfl⟩ := backfill_eq_some hstep
  generalize (s.loops id).enqueue (notifyRequest (cfg id) n) = loop at hsame ⊢
  have hview : delivery master { s with
      enqueued := Function.update s.enqueued id (s.enqueued id + 1)
      loops := Function.update s.loops id loop } owed = s.delivery master owed := by
    simp only [delivery, hsame]
  constructor
  case ordered => exact hview ▸ h.ordered
  case caughtUp =>
    apply h.caughtUp_of_same
    · rfl
    · rfl
    · exact fun g hg ↦ Or.inl hg
    · exact fun g hg ↦ hg
    · exact fun other g _ hmem ↦ Or.inr (hsame ▸ hmem)
  case answered => exact h.answered
  case marked => exact h.marked

theorem stream (h : s.Orderly master owed) (hkept : s.Kept owed)
    (hallowed : ∀ s action, allowed s action → TakesOver first admitted s action)
    (hreach : ReachableUnder (Ingest.step cfg master) allowed (start m) s) {action : StreamAction β}
    (hstep : s.streamStep cfg action = some s') :
    s'.Orderly master (s.nextOwed master owed (.stream action)) := by
  obtain ⟨henabled, next, hnext, -, rfl⟩ := streamStep_eq_some hstep
  have hsuccession := succession_of_reachable hallowed hreach
  have hidle := idle_of_reachable hreach
  have hframe : (s.followed next action).master = s.master ∧
      (s.followed next action).wire = s.wire ∧ (s.followed next action).answers = s.answers ∧
      (s.followed next action).watermarks = s.watermarks := by
    cases action <;> exact ⟨rfl, rfl, rfl, rfl⟩
  obtain ⟨hmaster, hwire, hanswers, hwatermarks⟩ := hframe
  by_cases hdecide : ∃ id nowMs watermark staged, action = .openDecide id nowMs watermark staged
  · obtain ⟨id, nowMs, watermark, staged, rfl⟩ := hdecide
    have hordered := h.keep_late hsuccession hidle id nowMs watermark staged
    rcases quiet_or_lists hidle henabled hnext with ⟨hquiet, hsilent⟩ | ⟨state, opening, hlists⟩
    · -- the open is refused, and announces nothing
      have hview : (s.followed next (.openDecide id nowMs watermark staged)).delivery master
          (s.nextOwed master owed (.stream (.openDecide id nowMs watermark staged))) =
          { s.delivery master
              (s.nextOwed master owed (.stream (.openDecide id nowMs watermark staged))) with
            pending :=
              (s.followed next (.openDecide id nowMs watermark staged)).outstanding } := rfl
      refine ⟨hview ▸ hordered.forget hquiet.leading, ?_, h.answered, h.marked⟩
      intro other hother hannouncing
      obtain rfl := Option.some.inj hother
      exact absurd hannouncing hsilent
    · refine h.lists hordered (fun file hfile ↦ ?_) hlists hmaster hwire hanswers hwatermarks rfl
      rcases List.mem_append.mp hfile with hold | hlate
      · exact hkept.staged file (hkept.mem_kept file hold)
      · exact List.mem_of_mem_filter hlate
  · have hother (id nowMs : Nat) (watermark : Option Int) (staged : List StagedFile) :
        action ≠ .openDecide id nowMs watermark staged :=
      fun heq ↦ hdecide ⟨id, nowMs, watermark, staged, heq⟩
    have hsame : s.nextOwed master owed (.stream action) = owed ∧
        (s.followed next action).lister = s.lister := by
      cases action with
      | openDecide id nowMs watermark staged => exact absurd rfl (hother id nowMs watermark staged)
      | _ => exact ⟨rfl, rfl⟩
    rw [hsame.1]
    have hwriter (id : Nat) (opening : Opening) (w : Writer β)
        (hphase : (s.session id).phase = .running opening w) := writer_of_reachable hreach hphase
    rcases quiet_or_passes hwriter hother henabled hnext with hquiet | ⟨id, n, hpasses⟩
    · exact h.quiet hquiet hmaster hwire hanswers hwatermarks hsame.2
    · exact h.passes hkept (puts_of_reachable hreach) hsuccession (hwriter id) hpasses hmaster hwire
        hanswers hwatermarks hsame.2

theorem step (h : s.Orderly master owed) (hkept : s.Kept owed) (hrequests : s.Requests cfg master)
    (hdoc : master.Documented) {ident : WriterIdentity} (hident : ∀ id, (cfg id).ident = ident)
    (hallowed : ∀ s action, allowed s action → TakesOver first admitted s action)
    (hreach : ReachableUnder (Ingest.step cfg master) allowed (start m) s) {action : IngestAction β}
    (hstep : s.step cfg master action = some s') :
    s'.Orderly master (s.nextOwed master owed action) := by
  cases action with
  | stream streamAction => exact h.stream hkept hallowed hreach hstep
  | watermark id degraded => exact h.readWatermark hdoc hstep
  | backfill id => exact h.backfill hstep
  | objectLands id file =>
    exact h.objectLands hkept (puts_of_reachable hreach) hrequests
      (fun id opening w hphase ↦ writer_of_reachable hreach hphase) hstep
  | send id => exact h.send hstep
  | arrive id req => exact h.arrive hkept hrequests hdoc hident hstep
  | turn id t => exact h.turn hstep
  | load => exact h.load hdoc hstep

/-- Nothing has to be loaded, and the master has nothing. -/
theorem start {m : σ} (hqueued : master.queued m = []) (hloaded : master.loaded m = []) :
    (start m : Ingest β σ).Orderly master [] := by
  have houtstanding : (Ingest.start m : Ingest β σ).outstanding = fun _ ↦ [] := by
    ext1 id
    simp [outstanding, toAnnounce, session, Ingest.start, Stream.start, NotifyLoop.spawn,
      NotifyLoop.pending]
  have hview : (Ingest.start m : Ingest β σ).delivery master [] = ⟨∅, [], ∅, ∅, fun _ ↦ []⟩ := by
    unfold delivery
    rw [houtstanding]
    simp [Ingest.start, hqueued, hloaded, Set.ofPred_false]
  constructor
  case ordered => exact hview ▸ Delivery.ordered_start
  case caughtUp => exact fun id hid ↦ by simp [Ingest.start] at hid
  case answered => exact fun answer hanswer ↦ by simp [Ingest.start] at hanswer
  case marked => exact fun id w hw ↦ by simp [Ingest.start] at hw

end Orderly

end Ingest

end RelytIngest
