import RelytIngest.Writer.Watch

/-!
# The files past the last look at the fence

After the put of a file the stage looks at the fence once more. `Writer.cleared` are the files that
are past it: they are recorded and announced, whatever happens to the fence, and they are the first
of those put, in order. Another file passes only while the writer is not fenced
(`announcements_step`).
-/

set_option autoImplicit false
set_option relaxedAutoImplicit false

namespace RelytIngest

open Foundations Relation

/-- The file that is past the fence and not recorded yet. -/
def PutPlace.unrecorded : PutPlace → List FileMeta
  | .recording m => [m]
  | _ => []

/-- The file that is past the fence and not announced yet. -/
def PutPlace.toAnnounce : PutPlace → List FileMeta
  | .recording m | .announcing m => [m]
  | _ => []

namespace Files

variable {request : FileMeta → NotifyRequest} {recovered : Option Int} {f f' : Files}

def cleared (f : Files) : List FileMeta := f.recorded ++ f.place.unrecorded

/-- The files past the fence are the first of those put. -/
theorem Ordered.cleared_prefix (h : f.Ordered request recovered) : f.cleared <+: f.putReturned := by
  have hplace := h.place
  unfold PlaceValid at hplace
  unfold cleared
  generalize f.place = place at hplace ⊢
  cases place with
  | ready | announcing | landing =>
    rw [← hplace.1]
    exact (List.append_nil _).symm ▸ List.prefix_rfl
  | returned m | recording m => exact hplace.1 ▸ by simp [PutPlace.unrecorded]
  | ended => simpa [PutPlace.unrecorded] using hplace.1

/-- The file whose put returned is the one behind them. -/
theorem Ordered.returned_eq (h : f.Ordered request recovered) {m : FileMeta}
    (hreturned : f.place = .returned m) : f.putReturned = f.cleared ++ [m] := by
  have hplace := h.place
  simp only [PlaceValid, hreturned] at hplace
  simp only [cleared, hreturned, PutPlace.unrecorded, List.append_nil, hplace.1]

/-- Between two puts every file that was put is past the fence. -/
theorem Ordered.ready_eq (h : f.Ordered request recovered) (hready : f.place = .ready) :
    f.putReturned = f.cleared := by
  have hplace := h.place
  simp only [PlaceValid, hready] at hplace
  simp only [cleared, hready, PutPlace.unrecorded, List.append_nil, hplace.1]

/-- The files that are going to be announced, as long as the notifier takes them. -/
def toAnnounce (f : Files) : List FileMeta := if f.notifierGone then [] else f.place.toAnnounce

/-- The notifier does not come back. -/
theorem Move.notifierGone (hmove : Move request f f') (hgone : f.notifierGone = true) :
    f'.notifierGone = true := by
  cases hmove with
  | silence => rfl
  | cut | send | put | confirm | record | announce | land | stop => exact hgone

/-- What becomes of the announcements: a file that is to be announced is, a cleared file is from now
on, and nothing is once the notifier has gone. -/
theorem Move.announcements (hmove : Move request f f') :
    (∃ more, f'.notified = f.notified ++ more ∧ f'.cleared = f.cleared ∧
        more ++ f'.toAnnounce.map request = f.toAnnounce.map request) ∨
      (∃ m, f.place = .returned m ∧ f'.place = .recording m ∧ f'.notified = f.notified ∧
        f'.cleared = f.cleared ++ [m] ∧ f.toAnnounce = [] ∧
        f'.toAnnounce = if f'.notifierGone then [] else [m]) ∨
      f'.notifierGone = true ∧ f'.notified = f.notified ∧ f'.cleared = f.cleared ∧
        f'.toAnnounce = [] := by
  unfold Files.cleared Files.toAnnounce
  cases hmove with
  | cut | send => exact Or.inl ⟨[], by simp⟩
  | confirm m hplace =>
    exact Or.inr (Or.inl ⟨m, hplace, rfl, rfl, by simp [hplace, PutPlace.unrecorded],
      by simp [hplace, PutPlace.toAnnounce], rfl⟩)
  | put m rest hplace | record m hplace | land m hplace =>
    exact Or.inl ⟨[], by simp [hplace, PutPlace.unrecorded, PutPlace.toAnnounce]⟩
  | announce m hplace =>
    cases hgone : f.notifierGone with
    | true => exact Or.inl ⟨[], by simp [hplace, PutPlace.unrecorded]⟩
    | false =>
      exact Or.inl ⟨[request m], by
        simp [hplace, PutPlace.unrecorded, PutPlace.toAnnounce]⟩
  | stop hplace =>
    rcases hplace with hready | ⟨m, hreturned⟩
    · exact Or.inl ⟨[], by simp [hready, PutPlace.unrecorded, PutPlace.toAnnounce]⟩
    · exact Or.inl ⟨[], by simp [hreturned, PutPlace.unrecorded, PutPlace.toAnnounce]⟩
  | silence => exact Or.inr (Or.inr ⟨rfl, rfl, rfl, rfl⟩)

/-- A file that is to be announced is past the fence. -/
theorem Ordered.toAnnounce_cleared (h : f.Ordered request recovered) {m : FileMeta}
    (hm : m ∈ f.toAnnounce) : m ∈ f.cleared := by
  have hplace := h.place
  unfold PlaceValid at hplace
  unfold toAnnounce at hm
  split_ifs at hm
  · simp at hm
  · unfold cleared
    generalize f.place = place at hplace hm ⊢
    cases place with
    | recording n => exact List.mem_append_right _ hm
    | announcing n =>
      obtain ⟨-, earlier, hlast, -⟩ := hplace
      exact List.mem_append_left _ (hlast ▸ List.mem_append_right _ hm)
    | ready | returned | landing | ended => simp [PutPlace.toAnnounce] at hm

end Files

namespace Writer

variable {β : Type} {cfg : WriterConfig β} {w w' : Writer β} {epochMs : Nat}
  {stagedOffset resumePersisted : Option Int}

def cleared (w : Writer β) : List FileMeta := w.files.cleared

/-- The stage confirms a put while the writer is not fenced. -/
theorem not_fenced_of_confirm {action : Action β} (hline : w.LineOrdered)
    (hstep : w.step cfg action = some w') {m n : FileMeta} (hreturned : w.files.place = .returned m)
    (hrecording : w'.files.place = .recording n) : w.health.fenced = none := by
  have hbefore : w.watch.atRecord = false := congrArg PutPlace.atRecord hreturned
  have hafter : w'.watch.atRecord = true := congrArg PutPlace.atRecord hrecording
  have hfenced : w.watch.fenced = false := by
    rcases (reflGen_iff ..).mp (watch_step hline hstep) with hsame | hmove
    · simp [hsame, hbefore] at hafter
    · generalize w'.watch = after at hmove hafter
      cases hmove with
      | confirm hfenced => exact hfenced
      | fence | violate | pass | fail | giveUp | drop | trip | follow | announce | land | close
      | leave | gone => simp [hbefore] at hafter
  simpa [watch] using hfenced

/-- What a step announces, and lets pass: the file whose put returned, while the writer is not
fenced. -/
theorem announcements_step {action : Action β}
    (hreach : ReachableFrom cfg epochMs stagedOffset resumePersisted w)
    (hstep : w.step cfg action = some w') :
    (∃ more, w'.trace.notified = w.trace.notified ++ more ∧ w'.cleared = w.cleared ∧
        more ++ w'.files.toAnnounce.map (notifyRequest cfg) =
          w.files.toAnnounce.map (notifyRequest cfg)) ∨
      (∃ m, w.health.fenced = none ∧ w.files.place = .returned m ∧
        w'.trace.notified = w.trace.notified ∧ w'.cleared = w.cleared ++ [m] ∧
        w.files.toAnnounce = [] ∧
        w'.files.toAnnounce = if w'.health.notifierGone then [] else [m]) ∨
      w'.health.notifierGone = true ∧ w'.trace.notified = w.trace.notified ∧
        w'.cleared = w.cleared ∧ w'.files.toAnnounce = [] := by
  rcases (reflGen_iff ..).mp (files_step hstep) with hsame | hmove
  · refine Or.inl ⟨[], ?_, congrArg Files.cleared hsame, by rw [hsame, List.nil_append]⟩
    rw [List.append_nil]
    exact congrArg Files.notified hsame
  · rcases hmove.announcements with hmore | ⟨m, hreturned, hrecording, hrest⟩ | hgone
    · exact Or.inl hmore
    · exact Or.inr (Or.inl ⟨m,
        not_fenced_of_confirm hreach.lineOrdered hstep hreturned hrecording, hreturned, hrest⟩)
    · exact Or.inr (Or.inr hgone)

theorem notifierGone_step {action : Action β} (hstep : w.step cfg action = some w')
    (hgone : w'.health.notifierGone = false) : w.health.notifierGone = false := by
  rcases (reflGen_iff ..).mp (files_step hstep) with hsame | hmove
  · exact (congrArg Files.notifierGone hsame).symm.trans hgone
  · by_contra htrue
    rw [Bool.not_eq_false] at htrue
    have hafter : w'.files.notifierGone = true := hmove.notifierGone htrue
    exact absurd (hafter.symm.trans hgone) (by simp)

theorem files_new_toAnnounce :
    (new epochMs stagedOffset resumePersisted : Writer β).files.toAnnounce = [] := rfl

theorem cleared_new : (new epochMs stagedOffset resumePersisted : Writer β).cleared = [] := rfl

end Writer

end RelytIngest
