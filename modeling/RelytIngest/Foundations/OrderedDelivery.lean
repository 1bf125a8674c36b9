import Mathlib.Data.Set.Insert
import Mathlib.Data.List.Pairwise
import Mathlib.Logic.Function.Basic

/-!
# Ordered delivery through a gate

Numbers are submitted to a receiver that loads the lowest number it has and never again takes one at
or below the highest loaded. Submitters work through a queue of their own each, a submission may
arrive late, and a submitter may lose its queue at any time.

`Delivery.Ordered` is the discipline that loses nothing: nothing is submitted before every kept
number below it has arrived. A kept number that the highest number loaded has reached is loaded then
(`Ordered.loaded_of_le`), and where only kept numbers are loaded these are the first of them
(`Ordered.loaded_prefix`). There is a rule for each thing that can happen to the numbers, and a
submitter keeps to the discipline while it is caught up with what is kept (`CaughtUp.closed`).
-/

set_option autoImplicit false
set_option relaxedAutoImplicit false

namespace RelytIngest.Foundations

structure Delivery (ι : Type*) where
  /-- The numbers that have to be loaded. -/
  kept : Set ι
  /-- The numbers loaded, in the order of loading. -/
  loaded : List ι
  /-- The numbers that the receiver has and has not loaded. -/
  queued : Set ι
  /-- The submissions that may still arrive. -/
  wire : Set ι
  /-- What each submitter has still to submit. -/
  pending : Nat → List ι

namespace Delivery

variable {ι : Type*}

def Arrived (d : Delivery ι) (i : ι) : Prop := i ∈ d.loaded ∨ i ∈ d.queued

/-- The number is with the receiver or on its way there. -/
def Moving (d : Delivery ι) (i : ι) : Prop := d.Arrived i ∨ i ∈ d.wire ∨ ∃ id, i ∈ d.pending id

def setPending (d : Delivery ι) (id : Nat) (items : List ι) : Delivery ι :=
  { d with pending := Function.update d.pending id items }

/-- Every kept number but the excepted has arrived, or the submitter is going to submit it. -/
def CaughtUp (d : Delivery ι) (id : Nat) (excepted : ι → Prop) : Prop :=
  ∀ g ∈ d.kept, excepted g ∨ d.Arrived g ∨ g ∈ d.pending id

variable {d d' : Delivery ι}

@[simp] theorem pending_setPending_self (id : Nat) (items : List ι) :
    (d.setPending id items).pending id = items :=
  Function.update_self ..

@[simp] theorem pending_setPending_of_ne {id other : Nat} (hother : other ≠ id) (items : List ι) :
    (d.setPending id items).pending other = d.pending other :=
  Function.update_of_ne hother ..

/-- What may happen to a submitter that stays caught up: its queue loses what has arrived only, and
what is kept from now on is excepted. -/
theorem CaughtUp.mono {id : Nat} {excepted : ι → Prop} (h : d.CaughtUp id excepted)
    (hkept : ∀ g ∈ d'.kept, g ∈ d.kept ∨ excepted g)
    (harrived : ∀ g, d.Arrived g → d'.Arrived g)
    (hpending : ∀ g ∈ d.kept, g ∈ d.pending id → d'.Arrived g ∨ g ∈ d'.pending id) :
    d'.CaughtUp id excepted := by
  intro g hg
  rcases hkept g hg with hold | hexcepted
  · rcases h g hold with hexcepted | harrivedOld | hqueued
    · exact Or.inl hexcepted
    · exact Or.inr (Or.inl (harrived g harrivedOld))
    · exact Or.inr (hpending g hold hqueued)
  · exact Or.inl hexcepted

variable [LinearOrder ι]

/-- Every kept number below the given one has arrived, or comes earlier. -/
def Closed (d : Delivery ι) (earlier : List ι) (i : ι) : Prop :=
  ∀ g ∈ d.kept, g < i → d.Arrived g ∨ g ∈ earlier

/-- Nothing overtakes a kept number. -/
structure Ordered (d : Delivery ι) : Prop where
  rising : d.loaded.Pairwise (· < ·)
  above : ∀ l ∈ d.loaded, ∀ i ∈ d.queued, l < i
  closed : ∀ l ∈ d.loaded, ∀ g ∈ d.kept, g < l → g ∈ d.loaded
  queuedClosed : ∀ i ∈ d.queued, d.Closed [] i
  wireClosed : ∀ i ∈ d.wire, d.Closed [] i
  pendingClosed : ∀ id earlier i later, d.pending id = earlier ++ i :: later → d.Closed earlier i

/-! ### What the order gives -/

/-- A kept number that the highest number loaded has reached is loaded. -/
theorem Ordered.loaded_of_le (h : d.Ordered) {g l : ι} (hg : g ∈ d.kept) (hl : l ∈ d.loaded)
    (hle : g ≤ l) : g ∈ d.loaded := by
  rcases lt_or_eq_of_le hle with hlt | rfl
  · exact h.closed l hl g hg hlt
  · exact hl

/-- A selection that contains whatever of a longer list lies below its members is a prefix of it. -/
theorem prefix_of_closed {selected items : List ι} (hitems : items.Pairwise (· < ·))
    (hselected : selected.Pairwise (· < ·)) (hsubset : selected ⊆ items)
    (hclosed : ∀ l ∈ selected, ∀ g ∈ items, g < l → g ∈ selected) : selected <+: items := by
  induction items generalizing selected with
  | nil => exact List.subset_nil.mp hsubset ▸ List.prefix_rfl
  | cons head tail ih =>
    cases selected with
    | nil => exact List.nil_prefix
    | cons first rest =>
      rw [List.pairwise_cons] at hitems hselected
      have hfirst : first = head := by
        rcases List.mem_cons.mp (hsubset List.mem_cons_self) with heq | htail
        · exact heq
        · have hlt := hitems.1 first htail
          have hhead := hclosed first List.mem_cons_self head List.mem_cons_self hlt
          rcases List.mem_cons.mp hhead with heq | hrest
          · exact heq.symm
          · exact absurd (hselected.1 head hrest) (not_lt.mpr hlt.le)
      subst hfirst
      refine List.cons_prefix_cons.mpr ⟨rfl, ih hitems.2 hselected.2 (fun i hi ↦ ?_) ?_⟩
      · rcases List.mem_cons.mp (hsubset (List.mem_cons_of_mem first hi)) with rfl | htail
        · exact absurd (hselected.1 i hi) (lt_irrefl i)
        · exact htail
      · intro l hl g hg hlt
        rcases List.mem_cons.mp (hclosed l (List.mem_cons_of_mem first hl) g
          (List.mem_cons_of_mem first hg) hlt) with rfl | hrest
        · exact absurd (hitems.1 g hg) (lt_irrefl g)
        · exact hrest

/-- The loaded numbers are the first of the kept ones, when nothing else is loaded. -/
theorem Ordered.loaded_prefix (h : d.Ordered) {items : List ι} (hitems : items.Pairwise (· < ·))
    (hkept : ∀ i, i ∈ d.kept ↔ i ∈ items) (hloaded : ∀ l ∈ d.loaded, l ∈ items) :
    d.loaded <+: items :=
  prefix_of_closed hitems h.rising hloaded
    fun l hl g hg hlt ↦ h.closed l hl g ((hkept g).mpr hg) hlt

/-- A submitter that is caught up with everything below a number may submit it. -/
theorem CaughtUp.closed {id : Nat} {excepted : ι → Prop} (h : d.CaughtUp id excepted) {i : ι}
    (hbelow : ∀ g ∈ d.kept, g < i → ¬ excepted g) : d.Closed (d.pending id) i := by
  intro g hg hlt
  rcases h g hg with hexcepted | hrest
  · exact absurd hexcepted (hbelow g hg hlt)
  · exact hrest

/-! ### The moves keep the order -/

/-- Nothing has been kept or submitted. -/
theorem ordered_start : Ordered (⟨∅, [], ∅, ∅, fun _ ↦ []⟩ : Delivery ι) where
  rising := List.Pairwise.nil
  above l hl := by simp at hl
  closed l hl := by simp at hl
  queuedClosed i hi := by simp at hi
  wireClosed i hi := by simp at hi
  pendingClosed id earlier i later hpending := by simp at hpending

/-- What is closed stays so while the kept numbers are the same and none is lost on arrival. -/
theorem Closed.mono {earlier : List ι} {i : ι} (h : d.Closed earlier i) (hkept : d'.kept = d.kept)
    (harrived : ∀ g, d.Arrived g → d'.Arrived g) : d'.Closed earlier i := by
  intro g hg hlt
  exact (h g (hkept ▸ hg) hlt).imp_left (harrived g)

theorem Ordered.keep (h : d.Ordered) {more : Set ι} (habove : ∀ i ∈ more, ∀ j, d.Moving j → j ≤ i) :
    ({ d with kept := d.kept ∪ more } : Delivery ι).Ordered := by
  -- nothing that moves lies above a new number
  have hclosed {earlier : List ι} {j : ι} (hj : d.Moving j) (hold : d.Closed earlier j) :
      ({ d with kept := d.kept ∪ more } : Delivery ι).Closed earlier j := by
    intro g hg hlt
    rcases hg with hg | hg
    · exact hold g hg hlt
    · exact absurd (habove g hg j hj) (not_le.mpr hlt)
  constructor
  case rising => exact h.rising
  case above => exact h.above
  case closed =>
    intro l hl g hg hlt
    rcases hg with hg | hg
    · exact h.closed l hl g hg hlt
    · exact absurd (habove g hg l (Or.inl (Or.inl hl))) (not_le.mpr hlt)
  case queuedClosed => exact fun j hj ↦ hclosed (Or.inl (Or.inr hj)) (h.queuedClosed j hj)
  case wireClosed => exact fun j hj ↦ hclosed (Or.inr (Or.inl hj)) (h.wireClosed j hj)
  case pendingClosed =>
    intro id earlier j later hpending
    refine hclosed (Or.inr (Or.inr ⟨id, ?_⟩)) (h.pendingClosed id earlier j later hpending)
    rw [show d.pending id = _ from hpending]
    exact List.mem_append_right _ List.mem_cons_self

/-- A submitter's queue changes, to one in order. -/
theorem Ordered.setPending (h : d.Ordered) {id : Nat} {items : List ι}
    (hclosed : ∀ earlier i later, items = earlier ++ i :: later → d.Closed earlier i) :
    (d.setPending id items).Ordered := by
  constructor
  case rising => exact h.rising
  case above => exact h.above
  case closed => exact h.closed
  case queuedClosed => exact h.queuedClosed
  case wireClosed => exact h.wireClosed
  case pendingClosed =>
    intro other earlier i later hpending
    by_cases hother : other = id
    · subst hother
      rw [pending_setPending_self] at hpending
      exact hclosed earlier i later hpending
    · rw [pending_setPending_of_ne hother] at hpending
      exact h.pendingClosed other earlier i later hpending

theorem Ordered.enqueue (h : d.Ordered) {id : Nat} {i : ι}
    (hclosed : d.Closed (d.pending id) i) :
    (d.setPending id (d.pending id ++ [i])).Ordered := by
  refine h.setPending fun earlier j later hpending ↦ ?_
  rcases List.append_eq_append_iff.mp hpending with
    ⟨middle, rfl, hlast⟩ | ⟨middle, hearlier, hlast⟩
  · cases middle with
    | nil =>
      obtain ⟨rfl, -⟩ := List.cons.inj hlast
      simpa using hclosed
    | cons other middle => simp at hlast
  · cases middle with
    | nil =>
      obtain ⟨rfl, -⟩ := List.cons.inj hlast
      rwa [hearlier, List.append_nil] at hclosed
    | cons other middle =>
      obtain ⟨rfl, -⟩ := List.cons.inj hlast
      exact h.pendingClosed id earlier j middle hearlier

/-- Submitters may lose the ends of their queues. -/
theorem Ordered.forget (h : d.Ordered) {pending : Nat → List ι}
    (hleading : ∀ id, pending id <+: d.pending id) :
    ({ d with pending := pending } : Delivery ι).Ordered := by
  refine ⟨h.rising, h.above, h.closed, h.queuedClosed, h.wireClosed, ?_⟩
  intro id earlier i later hpending
  obtain ⟨rest, hrest⟩ := hleading id
  refine h.pendingClosed id earlier i (later ++ rest) ?_
  rw [← hrest, show pending id = _ from hpending, List.append_assoc, List.cons_append]

/-- The queue of a submitter that goes on with what is left of it. -/
theorem Ordered.settle (h : d.Ordered) {id : Nat} {i : ι} {rest : List ι}
    (hpending : d.pending id = i :: rest) (hdone : d.Arrived i ∨ ∃ l ∈ d.loaded, i ≤ l) :
    (d.setPending id rest).Ordered := by
  refine h.setPending fun earlier j later hrest g hg hlt ↦ ?_
  have hbefore := h.pendingClosed id (i :: earlier) j later (by rw [hpending, hrest]; rfl) g hg hlt
  rcases hbefore with harrived | hearlier
  · exact Or.inl harrived
  · rcases List.mem_cons.mp hearlier with rfl | hearlier
    · -- the settled number itself: swallowed, it would have been loaded before
      rcases hdone with harrived | ⟨l, hl, hle⟩
      · exact Or.inl harrived
      · exact Or.inl (Or.inl (h.loaded_of_le hg hl hle))
    · exact Or.inr hearlier

theorem Ordered.send (h : d.Ordered) {id : Nat} {i : ι} {rest : List ι}
    (hpending : d.pending id = i :: rest) :
    ({ d with wire := insert i d.wire } : Delivery ι).Ordered := by
  constructor
  case rising => exact h.rising
  case above => exact h.above
  case closed => exact h.closed
  case queuedClosed => exact h.queuedClosed
  case wireClosed =>
    intro j hj
    rcases Set.mem_insert_iff.mp hj with rfl | hj
    · exact h.pendingClosed id [] j rest hpending
    · exact h.wireClosed j hj
  case pendingClosed => exact h.pendingClosed

theorem Ordered.arrive (h : d.Ordered) {i : ι} (hsent : i ∈ d.wire)
    (habove : ∀ l ∈ d.loaded, l < i) :
    ({ d with queued := insert i d.queued } : Delivery ι).Ordered := by
  have harrived {g : ι} (hg : d.Arrived g) :
      ({ d with queued := insert i d.queued } : Delivery ι).Arrived g :=
    hg.imp_right (Set.mem_insert_of_mem i)
  constructor
  case rising => exact h.rising
  case above =>
    intro l hl j hj
    rcases Set.mem_insert_iff.mp hj with rfl | hj
    · exact habove l hl
    · exact h.above l hl j hj
  case closed => exact h.closed
  case queuedClosed =>
    intro j hj
    have hold : d.Closed [] j := by
      rcases Set.mem_insert_iff.mp hj with rfl | hj
      · exact h.wireClosed j hsent
      · exact h.queuedClosed j hj
    exact hold.mono rfl fun g ↦ harrived
  case wireClosed => exact fun j hj ↦ (h.wireClosed j hj).mono rfl fun g ↦ harrived
  case pendingClosed =>
    exact fun id earlier j later hpending ↦
      (h.pendingClosed id earlier j later hpending).mono rfl fun g ↦ harrived

theorem arrived_load {i g : ι} (hqueued : i ∈ d.queued) :
    ({ d with loaded := d.loaded ++ [i], queued := d.queued \ {i} } : Delivery ι).Arrived g ↔
      d.Arrived g := by
  simp only [Arrived, List.mem_append, List.mem_singleton, Set.mem_sdiff, Set.mem_singleton_iff]
  by_cases hg : g = i
  · simp [hg, hqueued]
  · simp [hg]

theorem Ordered.load (h : d.Ordered) {i : ι} (hqueued : i ∈ d.queued)
    (hleast : ∀ j ∈ d.queued, i ≤ j) :
    ({ d with loaded := d.loaded ++ [i], queued := d.queued \ {i} } : Delivery ι).Ordered := by
  have hmono {earlier : List ι} {j : ι} (hj : d.Closed earlier j) :
      ({ d with loaded := d.loaded ++ [i], queued := d.queued \ {i} } : Delivery ι).Closed
        earlier j :=
    hj.mono rfl fun g ↦ (arrived_load hqueued).mpr
  constructor
  case rising =>
    refine List.pairwise_append.mpr ⟨h.rising, List.pairwise_singleton _ _, fun l hl j hj ↦ ?_⟩
    rw [List.mem_singleton.mp hj]
    exact h.above l hl i hqueued
  case above =>
    intro l hl j hj
    rcases List.mem_append.mp hl with hl | hl
    · exact h.above l hl j hj.1
    · rw [List.mem_singleton.mp hl]
      exact lt_of_le_of_ne (hleast j hj.1) fun heq ↦ hj.2 heq.symm
  case closed =>
    -- a kept number below the least one queued has arrived and is not queued
    intro l hl g hg hlt
    rcases List.mem_append.mp hl with hl | hl
    · exact List.mem_append_left _ (h.closed l hl g hg hlt)
    · rw [List.mem_singleton.mp hl] at hlt
      rcases h.queuedClosed i hqueued g hg hlt with (hloaded | hgqueued) | hnone
      · exact List.mem_append_left _ hloaded
      · exact absurd (hleast g hgqueued) (not_le.mpr hlt)
      · simp at hnone
  case queuedClosed => exact fun j hj ↦ hmono (h.queuedClosed j hj.1)
  case wireClosed => exact fun j hj ↦ hmono (h.wireClosed j hj)
  case pendingClosed =>
    exact fun id earlier j later hpending ↦ hmono (h.pendingClosed id earlier j later hpending)

end Delivery

end RelytIngest.Foundations
