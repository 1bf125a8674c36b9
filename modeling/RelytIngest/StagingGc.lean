import RelytIngest.RecoverySpec
import Mathlib.Data.List.Perm.Basic
import Mathlib.Data.List.TakeWhile

/-!
# Staging GC

`gcPass` is what one pass of the staging GC deletes: of the files in `(epoch, seq)` order, all but
the newest are candidates, those consumed by the server and past the retention age are taken, oldest
first, as far as the floor on the number of files allows, and the deletes stop at the first that
fails.

`GcSafe` is what a pass must not change: recovery plans the same from what is left as from the full
listing, under every later watermark. `gc_keeps_recovery_iff` says when every pass is of this kind.
Only the resume offset can differ: a newest file that ends at the largest offset has no successor,
so the plan resumes behind the file before it, and a floor of at most one file lets a pass delete
that one too.
-/

set_option autoImplicit false
set_option relaxedAutoImplicit false

namespace RelytIngest

open Foundations

/-- The retention settings of a client. -/
structure GcRetention where
  gcRetainDays : Nat
  gcRetainMinFiles : Nat
  deriving DecidableEq, Repr

/-- `gc_retain_days as u64 * 24 * 3600 * 1000`, far below 64 bits for a 32-bit number of days. -/
def GcRetention.minAgeMs (retention : GcRetention) : Nat :=
  retention.gcRetainDays * 24 * 3600 * 1000

section Pass

variable (retention : GcRetention) (nowMs : Nat)

/-- A file a pass may delete: its name encodes, the server has consumed it, and its epoch is older
than the retention age. -/
def gcCandidate (watermark : Int) (file : StagedFile) : Bool :=
  match file.serialSeq with
  | .error _ => false
  | .ok serialSeq =>
    decide (serialSeq ≤ watermark) && decide (retention.minAgeMs < nowMs - file.epochMs)

/-- The files a pass sets out to delete, in order. -/
def gcDeletable (watermark : Int) (staged : List StagedFile) : List StagedFile :=
  let sorted := sortStaged staged
  let total := sorted.length
  if total ≤ retention.gcRetainMinFiles then []
  else
    ((sorted.take (total - 1)).filter (gcCandidate retention nowMs watermark)).take
      (total - retention.gcRetainMinFiles)

/-- `gc_pass`: the files one pass deletes. Without a watermark the pass is skipped, and the deletes
stop at the first that does not take effect. -/
def gcPass (watermark : Option Int) (staged : List StagedFile) (succeeds : StagedFile → Bool) :
    List StagedFile :=
  match watermark with
  | none => []
  | some w => (gcDeletable retention nowMs w staged).takeWhile succeeds

end Pass

/-- The listing after a pass. -/
def afterGc (staged deleted : List StagedFile) : List StagedFile :=
  staged.filter fun file ↦ decide (file ∉ deleted)

/-- A pass that recovery cannot tell from no pass at all. -/
structure GcSafe (retention : GcRetention) (watermark : Int) (staged deleted : List StagedFile) :
    Prop where
  consumed : ∀ file ∈ deleted, ∃ serialSeq, file.serialSeq = .ok serialSeq ∧ serialSeq ≤ watermark
  newest : ∀ file ∈ staged, (∀ other ∈ staged, other.NotAfter file) → file ∈ afterGc staged deleted
  floor : min staged.length retention.gcRetainMinFiles ≤ (afterGc staged deleted).length
  recovery : ∀ later, watermark ≤ later → ∀ listing : List StagedFile,
    listing.Perm (afterGc staged deleted) →
      planRecovery listing (some later) = planRecovery staged (some later)

/-- The end offsets increase with `(epoch, seq)`. -/
def EndsIncrease (staged : List StagedFile) : Prop :=
  ∀ first ∈ staged, ∀ second ∈ staged, first.name < second.name → first.endOffset < second.endOffset

instance (staged : List StagedFile) : Decidable (EndsIncrease staged) :=
  inferInstanceAs (Decidable (∀ first ∈ staged, ∀ second ∈ staged, _))

/-- The floor allows a pass to leave one file, and it leaves one that ends at the largest offset. -/
def LeavesLargestOnly (retention : GcRetention) (nowMs : Nat) (watermark : Int)
    (staged : List StagedFile) : Prop :=
  retention.gcRetainMinFiles ≤ 1 ∧ 2 ≤ staged.length ∧
    ∃ newest ∈ staged, (newest.epochMs ≤ MAX_EPOCH_MS ∧ newest.seq ≤ MAX_SEQ) ∧
      newest.endOffset = i64Max ∧
      ∀ file ∈ staged, file ≠ newest → gcCandidate retention nowMs watermark file = true

/-! ### What a pass deletes -/

section Deleted

variable {retention : GcRetention} {nowMs : Nat} {watermark : Int} {staged : List StagedFile}
  {succeeds : StagedFile → Bool} {file : StagedFile}

theorem gcCandidate_iff : gcCandidate retention nowMs watermark file = true ↔
    (file.epochMs ≤ MAX_EPOCH_MS ∧ file.seq ≤ MAX_SEQ) ∧ file.packed ≤ watermark ∧
      retention.minAgeMs < nowMs - file.epochMs := by
  unfold gcCandidate
  cases hserial : file.serialSeq with
  | error err =>
    simp only [Bool.false_eq_true, false_iff]
    rintro ⟨⟨hepoch, hseq⟩, -⟩
    rw [(file.serialSeq_eq_ok_iff _).mpr ⟨hepoch, hseq, rfl⟩] at hserial
    simp at hserial
  | ok serialSeq =>
    obtain ⟨hepoch, hseq, rfl⟩ := (file.serialSeq_eq_ok_iff _).mp hserial
    simp [hepoch, hseq]

/-- Whatever precedes a candidate and encodes is one. -/
theorem gcCandidate_of_notAfter {earlier : StagedFile}
    (hcandidate : gcCandidate retention nowMs watermark file = true)
    (hencodes : earlier.epochMs ≤ MAX_EPOCH_MS ∧ earlier.seq ≤ MAX_SEQ)
    (hle : earlier.NotAfter file) : gcCandidate retention nowMs watermark earlier = true := by
  rw [gcCandidate_iff] at hcandidate ⊢
  obtain ⟨⟨-, hseq⟩, hconsumed, hage⟩ := hcandidate
  refine ⟨hencodes, le_trans (not_lt.mp fun hlt ↦ ?_) hconsumed, ?_⟩
  · have hafter := (StagedFile.packed_lt_iff hseq hencodes.2).mp hlt
    simp only [StagedFile.NotAfter] at hle
    omega
  · simp only [StagedFile.NotAfter] at hle
    omega

theorem gcPass_sublist :
    (gcPass retention nowMs (some watermark) staged succeeds).Sublist
      (gcDeletable retention nowMs watermark staged) :=
  List.takeWhile_sublist succeeds

/-- The newest file is no candidate: the others are the files before it. -/
theorem mem_gcDeletable {earlier : List StagedFile} {newest : StagedFile}
    (hsorted : sortStaged staged = earlier ++ [newest])
    (hfile : file ∈ gcDeletable retention nowMs watermark staged) :
    file ∈ earlier ∧ gcCandidate retention nowMs watermark file = true := by
  simp only [gcDeletable] at hfile
  split_ifs at hfile with hfloor
  · simp at hfile
  · have hmem := List.mem_filter.mp (List.mem_of_mem_take hfile)
    rw [hsorted, List.length_append, List.length_singleton, Nat.add_sub_cancel,
      List.take_left] at hmem
    exact hmem

theorem length_gcDeletable_le :
    (gcDeletable retention nowMs watermark staged).length ≤
      staged.length - retention.gcRetainMinFiles := by
  simp only [gcDeletable, (sortStaged_perm staged).length_eq]
  split_ifs
  · simp
  · rw [List.length_take]
    exact min_le_left _ _

end Deleted

/-! ### The plan after a pass -/

/-- Leaving out files at or below the watermark leaves the backfill as it is. -/
theorem collectBackfill_filter {keep : StagedFile → Bool} {later : Int} {files : List StagedFile}
    (hout : ∀ file ∈ files, keep file = false →
      (file.epochMs ≤ MAX_EPOCH_MS ∧ file.seq ≤ MAX_SEQ) ∧ file.packed ≤ later) :
    collectBackfill (some later) (files.filter keep) = collectBackfill (some later) files := by
  induction files with
  | nil => rfl
  | cons file rest ih =>
    rw [List.forall_mem_cons] at hout
    by_cases hkeep : keep file = true
    · simp only [List.filter_cons_of_pos hkeep, collectBackfill, ih hout.2]
    · obtain ⟨⟨hepoch, hseq⟩, hbelow⟩ := hout.1 (by simpa using hkeep)
      have hserial := (file.serialSeq_eq_ok_iff _).mpr ⟨hepoch, hseq, rfl⟩
      have habove : aboveWatermark (some later) file.packed = false := by
        simpa [aboveWatermark] using hbelow
      rw [List.filter_cons_of_neg hkeep, ih hout.2, collectBackfill, hserial]
      cases collectBackfill (some later) rest <;>
        simp [bind, Except.bind, habove, pure, Except.pure]

/-- The largest successor is the same among fewer files if the file it comes from stays. -/
theorem max?_nextOffset_filter {keep : StagedFile → Bool} {files : List StagedFile}
    {top : StagedFile} (htop : top ∈ files) (hkeep : keep top = true)
    (hmax : ∀ file ∈ files, nextOffset file.endOffset ≤ nextOffset top.endOffset) :
    ((files.filter keep).map fun file ↦ nextOffset file.endOffset).max? =
      (files.map fun file ↦ nextOffset file.endOffset).max? := by
  have hvalue (selected : List StagedFile) (hsubset : selected ⊆ files) (hmem : top ∈ selected) :
      (selected.map fun file ↦ nextOffset file.endOffset).max? =
        some (nextOffset top.endOffset) := by
    rw [List.max?_eq_some_iff]
    refine ⟨List.mem_map.mpr ⟨top, hmem, rfl⟩, fun value hother ↦ ?_⟩
    obtain ⟨file, hfile, rfl⟩ := List.mem_map.mp hother
    exact hmax file (hsubset hfile)
  rw [hvalue _ List.filter_sublist.subset (List.mem_filter.mpr ⟨htop, hkeep⟩),
    hvalue _ (fun _ h ↦ h) htop]

section Recovery

variable {staged deleted listing earlier : List StagedFile} {newest : StagedFile} {later : Int}

/-- A listing of what is left is sorted to what is left of the sorted listing. -/
theorem sortStaged_afterGc (hdistinct : DistinctNames staged)
    (hlisting : listing.Perm (afterGc staged deleted)) :
    sortStaged listing = (sortStaged staged).filter fun file ↦ decide (file ∉ deleted) := by
  have hperm : listing.Perm ((sortStaged staged).filter fun file ↦ decide (file ∉ deleted)) :=
    hlisting.trans ((sortStaged_perm staged).symm.filter _)
  have hleft : DistinctNames ((sortStaged staged).filter fun file ↦ decide (file ∉ deleted)) :=
    ((sortStaged_perm staged).symm.pairwise hdistinct fun h ↦ h.symm).filter _
  rw [sortStaged_eq_of_perm hperm hleft]
  exact sortStaged_of_pairwise ((sortStaged_pairwise staged).filter _)

/-- Without consumed files, the newest and the one with the largest successor excepted, recovery
plans the same. -/
theorem planRecovery_afterGc (hdistinct : DistinctNames staged)
    (hsorted : sortStaged staged = earlier ++ [newest]) (hnewest : newest ∉ deleted)
    (hout : ∀ file ∈ deleted,
      (file.epochMs ≤ MAX_EPOCH_MS ∧ file.seq ≤ MAX_SEQ) ∧ file.packed ≤ later)
    (htop : (∀ file ∈ staged, file.epochMs ≤ MAX_EPOCH_MS ∧ file.seq ≤ MAX_SEQ) →
      ∃ top ∈ staged, top ∉ deleted ∧
        ∀ file ∈ staged, nextOffset file.endOffset ≤ nextOffset top.endOffset)
    (hlisting : listing.Perm (afterGc staged deleted)) :
    planRecovery listing (some later) = planRecovery staged (some later) := by
  have hbackfill : collectBackfill (some later) (sortStaged listing) =
      collectBackfill (some later) (sortStaged staged) := by
    rw [sortStaged_afterGc hdistinct hlisting]
    refine collectBackfill_filter fun file _ hkeep ↦ hout file ?_
    simpa using hkeep
  have hlast : (sortStaged listing).getLast? = (sortStaged staged).getLast? := by
    rw [sortStaged_afterGc hdistinct hlisting, hsorted, List.filter_append,
      List.filter_cons_of_pos (by simpa using hnewest), List.filter_nil, List.getLast?_concat,
      List.getLast?_concat]
  simp only [planRecovery, hbackfill, hlast]
  cases hcollect : collectBackfill (some later) (sortStaged staged) with
  | error err => rfl
  | ok backfill =>
    obtain ⟨hall, -⟩ := (collectBackfill_eq_ok_iff ..).mp hcollect
    obtain ⟨top, hmem, hstays, hmax⟩ := htop fun file hfile ↦ hall file (mem_sortStaged.mpr hfile)
    rw [sortStaged_afterGc hdistinct hlisting, max?_nextOffset_filter (mem_sortStaged.mpr hmem)
      (by simpa using hstays) fun file hfile ↦ hmax file (mem_sortStaged.mp hfile)]

/-! ### The largest successor -/

theorem DistinctNames.nodup (hdistinct : DistinctNames staged) : staged.Nodup :=
  hdistinct.imp fun hname heq ↦ hname (by rw [heq])

/-- In the order of the names the end offsets increase. -/
theorem sortStaged_ends (hdistinct : DistinctNames staged) (hends : EndsIncrease staged) :
    (sortStaged staged).Pairwise fun first second ↦ first.endOffset < second.endOffset := by
  have hnames : DistinctNames (sortStaged staged) :=
    (sortStaged_perm staged).symm.pairwise hdistinct fun h ↦ h.symm
  refine (hnames.and (sortStaged_pairwise staged)).imp_of_mem ?_
  rintro first second hfirst hsecond ⟨hne, hle⟩
  exact hends first (mem_sortStaged.mp hfirst) second (mem_sortStaged.mp hsecond)
    (lt_of_le_of_ne ((StagedFile.notAfter_iff ..).mp hle) hne)

theorem mem_of_sorted {file : StagedFile} (hsorted : sortStaged staged = earlier ++ [newest]) :
    file ∈ staged ↔ file ∈ earlier ∨ file = newest := by
  rw [← mem_sortStaged, hsorted, List.mem_append, List.mem_singleton]

/-- A newest file that does not end at the largest offset has the largest successor. -/
theorem newest_top (hsorted : sortStaged staged = earlier ++ [newest])
    (hends : (sortStaged staged).Pairwise fun first second ↦ first.endOffset < second.endOffset)
    (hrange : ∀ file ∈ staged, i64Min ≤ file.endOffset ∧ file.endOffset ≤ i64Max)
    (hlast : newest.endOffset < i64Max ∨ earlier = []) :
    ∀ file ∈ staged, nextOffset file.endOffset ≤ nextOffset newest.endOffset := by
  intro file hfile
  rcases (mem_of_sorted hsorted).mp hfile with hearlier | rfl
  · rw [hsorted, List.pairwise_append] at hends
    have hlt := hends.2.2 file hearlier newest (List.mem_singleton_self newest)
    rcases hlast with hbelow | rfl
    · have := (hrange file hfile).1
      rw [nextOffset_of_lt this (by omega), nextOffset_of_lt (by omega) hbelow]
      omega
    · exact absurd hearlier List.not_mem_nil
  · exact le_rfl

/-- Behind a newest file that ends at the largest offset, the file before it has the largest
successor. -/
theorem second_top {older : List StagedFile} {second : StagedFile}
    (hsorted : sortStaged staged = (older ++ [second]) ++ [newest])
    (hends : (sortStaged staged).Pairwise fun first second ↦ first.endOffset < second.endOffset)
    (hrange : ∀ file ∈ staged, i64Min ≤ file.endOffset ∧ file.endOffset ≤ i64Max)
    (hlargest : newest.endOffset = i64Max) :
    second.endOffset < i64Max ∧
      ∀ file ∈ staged, nextOffset file.endOffset ≤ nextOffset second.endOffset := by
  rw [hsorted, List.pairwise_append] at hends
  have hbefore (file : StagedFile) (hfile : file ∈ older ++ [second]) :
      file.endOffset < i64Max := by
    rw [← hlargest]
    exact hends.2.2 file hfile newest (List.mem_singleton_self newest)
  have hsecond : second ∈ staged := (mem_of_sorted hsorted).mpr (.inl (by simp))
  have hnext := nextOffset_of_lt (hrange second hsecond).1 (hbefore second (by simp))
  refine ⟨hbefore second (by simp), fun file hfile ↦ ?_⟩
  rcases (mem_of_sorted hsorted).mp hfile with hearlier | rfl
  · rw [hnext, nextOffset_of_lt (hrange file hfile).1 (hbefore file hearlier)]
    rcases List.mem_append.mp hearlier with holder | hlast
    · have := (List.pairwise_append.mp hends.1).2.2 file holder second
        (List.mem_singleton_self second)
      omega
    · rw [List.mem_singleton.mp hlast]
  · rw [hnext, hlargest, nextOffset, wrapI64_succ_max]
    have := (hrange second hsecond).1
    omega

/-! ### When a pass is safe -/

variable {retention : GcRetention} {nowMs : Nat} {watermark : Int}

/-- A pass that may delete the file before the newest may delete every file before it. -/
theorem candidates_of_second {older : List StagedFile} {second : StagedFile}
    (hdistinct : DistinctNames staged)
    (hsorted : sortStaged staged = (older ++ [second]) ++ [newest])
    (hall : ∀ file ∈ staged, file.epochMs ≤ MAX_EPOCH_MS ∧ file.seq ≤ MAX_SEQ)
    (hsecond : second ∈ gcDeletable retention nowMs watermark staged) :
    retention.gcRetainMinFiles ≤ 1 ∧
      ∀ file ∈ older ++ [second], gcCandidate retention nowMs watermark file = true := by
  have horder := sortStaged_pairwise staged
  have hnodup := (sortStaged_perm staged).nodup_iff.mpr hdistinct.nodup
  rw [hsorted, List.pairwise_append, List.pairwise_append] at horder
  rw [hsorted, List.nodup_append, List.nodup_append] at hnodup
  have hcandidate := (mem_gcDeletable hsorted hsecond).2
  have hcandidates : ∀ file ∈ older ++ [second],
      gcCandidate retention nowMs watermark file = true := by
    intro file hfile
    rcases List.mem_append.mp hfile with holder | hlast
    · exact gcCandidate_of_notAfter hcandidate
        (hall file ((mem_of_sorted hsorted).mpr (.inl hfile)))
        (horder.1.2.2 file holder second (List.mem_singleton_self second))
    · rwa [List.mem_singleton.mp hlast]
  refine ⟨?_, hcandidates⟩
  simp only [gcDeletable] at hsecond
  split_ifs at hsecond with hfloor
  · simp at hsecond
  · rw [hsorted, List.length_append, List.length_singleton, Nat.add_sub_cancel, List.take_left,
      List.filter_eq_self.mpr hcandidates, List.length_append, List.length_singleton] at hsecond
    by_contra hmany
    -- a budget that stops short of the file before the newest does not reach it
    rw [List.take_append_of_le_length (by omega)] at hsecond
    exact hnodup.1.2.2 second (List.mem_of_mem_take hsecond) second (by simp) rfl

/-- Every pass keeps at least as many files as the floor asks for. -/
theorem length_afterGc (hdistinct : DistinctNames staged) {succeeds : StagedFile → Bool} :
    min staged.length retention.gcRetainMinFiles ≤
      (afterGc staged (gcPass retention nowMs (some watermark) staged succeeds)).length := by
  set deleted := gcPass retention nowMs (some watermark) staged succeeds with hdeleted
  have hcount : deleted.length ≤ staged.length - retention.gcRetainMinFiles :=
    (gcPass_sublist.length_le).trans length_gcDeletable_le
  have hgone : (staged.filter fun file ↦ decide (file ∈ deleted)).length ≤ deleted.length := by
    refine (List.subperm_of_subset (hdistinct.nodup.filter _) fun file hfile ↦ ?_).length_le
    simpa using (List.mem_filter.mp hfile).2
  have hsplit := List.length_eq_length_filter_add (l := staged) fun file ↦ decide (file ∈ deleted)
  have hleft : (afterGc staged deleted).length =
      (staged.filter fun file ↦ !decide (file ∈ deleted)).length := by
    simp only [afterGc, decide_not]
  omega

/-- Every pass is safe unless it leaves a file that ends at the largest offset alone. -/
theorem gcSafe_of_not_leavesLargestOnly (hdistinct : DistinctNames staged)
    (hends : EndsIncrease staged)
    (hrange : ∀ file ∈ staged, i64Min ≤ file.endOffset ∧ file.endOffset ≤ i64Max)
    (hnot : ¬ LeavesLargestOnly retention nowMs watermark staged) (succeeds : StagedFile → Bool) :
    GcSafe retention watermark staged
      (gcPass retention nowMs (some watermark) staged succeeds) := by
  rcases List.eq_nil_or_concat (sortStaged staged) with hnil | ⟨earlier, newest, hsorted⟩
  · obtain rfl := sortStaged_eq_nil_iff.mp hnil
    refine ⟨fun file hfile ↦ ?_, fun file hfile ↦ absurd hfile List.not_mem_nil,
      length_afterGc hdistinct, fun later _ listing hlisting ↦ ?_⟩
    · exact absurd (gcPass_sublist.subset hfile) (by simp [gcDeletable, sortStaged])
    · rw [List.perm_nil.mp hlisting]
  rw [List.concat_eq_append] at hsorted
  have hdeleted (file : StagedFile)
      (hfile : file ∈ gcPass retention nowMs (some watermark) staged succeeds) :
      file ∈ earlier ∧ gcCandidate retention nowMs watermark file = true :=
    mem_gcDeletable hsorted (gcPass_sublist.subset hfile)
  have hnodup := (sortStaged_perm staged).nodup_iff.mpr hdistinct.nodup
  rw [hsorted, List.nodup_append] at hnodup
  have hnewest : newest ∉ gcPass retention nowMs (some watermark) staged succeeds := fun hmem ↦
    hnodup.2.2 newest (hdeleted newest hmem).1 newest (List.mem_singleton_self newest) rfl
  have hsortedEnds := sortStaged_ends hdistinct hends
  refine ⟨fun file hfile ↦ ?_, fun file hfile hlargest ↦ ?_, length_afterGc hdistinct,
    fun later hlater listing hlisting ↦
      planRecovery_afterGc hdistinct hsorted hnewest ?_ ?_ hlisting⟩
  · obtain ⟨⟨hepoch, hseq⟩, hconsumed, -⟩ := gcCandidate_iff.mp (hdeleted file hfile).2
    exact ⟨_, (file.serialSeq_eq_ok_iff _).mpr ⟨hepoch, hseq, rfl⟩, hconsumed⟩
  · -- the file no other is after is the last of the sorted listing
    refine List.mem_filter.mpr ⟨hfile, decide_eq_true fun hmem ↦ ?_⟩
    have hne : file ≠ newest := fun heq ↦ hnewest (heq ▸ hmem)
    have horder := sortStaged_pairwise staged
    rw [hsorted, List.pairwise_append] at horder
    have hbefore := horder.2.2 file (hdeleted file hmem).1 newest (List.mem_singleton_self newest)
    have hmemNewest := (mem_of_sorted hsorted).mpr (.inr rfl)
    have hafter := hlargest newest hmemNewest
    rw [StagedFile.notAfter_iff] at hbefore hafter
    exact hne (hdistinct.eq_of_name hfile hmemNewest (le_antisymm hbefore hafter))
  · intro file hfile
    obtain ⟨hencodes, hconsumed, -⟩ := gcCandidate_iff.mp (hdeleted file hfile).2
    exact ⟨hencodes, hconsumed.trans hlater⟩
  · intro hall
    have hmemNewest : newest ∈ staged := (mem_of_sorted hsorted).mpr (.inr rfl)
    by_cases hlast : newest.endOffset < i64Max ∨ earlier = []
    · exact ⟨newest, hmemNewest, hnewest, newest_top hsorted hsortedEnds hrange hlast⟩
    obtain ⟨hlargest, hmore⟩ := not_or.mp hlast
    have hmax : newest.endOffset = i64Max :=
      le_antisymm (hrange newest hmemNewest).2 (not_lt.mp hlargest)
    obtain ⟨older, second, rfl⟩ := (List.eq_nil_or_concat earlier).resolve_left hmore
    rw [List.concat_eq_append] at hsorted
    refine ⟨second, (mem_of_sorted hsorted).mpr (.inl (by simp)), fun hmem ↦ hnot ?_,
      (second_top hsorted hsortedEnds hrange hmax).2⟩
    obtain ⟨hmin, hcandidates⟩ := candidates_of_second hdistinct hsorted hall
      (gcPass_sublist.subset hmem)
    have hlength : staged.length = (older ++ [second]).length + 1 := by
      rw [← (sortStaged_perm staged).length_eq, hsorted, List.length_append,
        List.length_singleton]
    refine ⟨hmin, ?_, newest, hmemNewest, hall newest hmemNewest, hmax, fun file hfile hne ↦
      hcandidates file (((mem_of_sorted hsorted).mp hfile).resolve_right hne)⟩
    rw [hlength, List.length_append, List.length_singleton]
    omega

/-- With a floor of at most one file, a pass whose deletes all take effect leaves the newest file
when every other one is a candidate. -/
theorem gcPass_eq_earlier (hsorted : sortStaged staged = earlier ++ [newest])
    (hearlier : earlier ≠ []) (hmin : retention.gcRetainMinFiles ≤ 1)
    (hcandidates : ∀ file ∈ earlier, gcCandidate retention nowMs watermark file = true) :
    gcPass retention nowMs (some watermark) staged (fun _ ↦ true) = earlier := by
  have hlength : (sortStaged staged).length = earlier.length + 1 := by
    rw [hsorted, List.length_append, List.length_singleton]
  have hsome := List.length_pos_iff.mpr hearlier
  have hfloor : ¬ earlier.length + 1 ≤ retention.gcRetainMinFiles := by omega
  simp only [gcPass, gcDeletable, hlength, if_neg hfloor]
  rw [hsorted, Nat.add_sub_cancel, List.take_left, List.filter_eq_self.mpr hcandidates,
    List.take_of_length_le (by omega)]
  exact List.takeWhile_eq_self_iff.mpr fun _ _ ↦ rfl

/-- After such a pass the newest file is listed alone. -/
theorem sortStaged_newest_left (hdistinct : DistinctNames staged)
    (hsorted : sortStaged staged = earlier ++ [newest]) :
    sortStaged (afterGc staged earlier) = [newest] := by
  have hnodup := (sortStaged_perm staged).nodup_iff.mpr hdistinct.nodup
  rw [hsorted, List.nodup_append] at hnodup
  have hnewest : newest ∉ earlier := fun hin ↦
    hnodup.2.2 newest hin newest (List.mem_singleton_self newest) rfl
  rw [sortStaged_afterGc hdistinct (.refl _), hsorted, List.filter_append,
    List.filter_eq_nil_iff.mpr fun file hfile ↦ by simp [hfile]]
  simp [hnewest]

/-- A file at the largest offset is the last of two or more in the order of the names. -/
theorem sorted_of_largest (hdistinct : DistinctNames staged) (hends : EndsIncrease staged)
    (hrange : ∀ file ∈ staged, i64Min ≤ file.endOffset ∧ file.endOffset ≤ i64Max)
    (htwo : 2 ≤ staged.length) (hnewest : newest ∈ staged) (hmax : newest.endOffset = i64Max) :
    ∃ older second, sortStaged staged = (older ++ [second]) ++ [newest] := by
  have hlength := (sortStaged_perm staged).length_eq
  rcases List.eq_nil_or_concat (sortStaged staged) with hnil | ⟨earlier, last, hsorted⟩
  · rw [hnil, List.length_nil] at hlength
    omega
  rw [List.concat_eq_append] at hsorted
  have hlast : newest = last := by
    refine ((mem_of_sorted hsorted).mp hnewest).resolve_left fun hearlier ↦ ?_
    have hsortedEnds := sortStaged_ends hdistinct hends
    rw [hsorted, List.pairwise_append] at hsortedEnds
    have hlt := hsortedEnds.2.2 newest hearlier last (List.mem_singleton_self last)
    have hle := (hrange last ((mem_of_sorted hsorted).mpr (.inr rfl))).2
    omega
  rcases List.eq_nil_or_concat earlier with rfl | ⟨older, second, rfl⟩
  · rw [hsorted, List.nil_append, List.length_singleton] at hlength
    omega
  · exact ⟨older, second, by rw [hsorted, hlast, List.concat_eq_append]⟩

/-- A pass that leaves only a file that ends at the largest offset takes the resume offset away. -/
theorem not_gcSafe_of_leavesLargestOnly (hdistinct : DistinctNames staged)
    (hends : EndsIncrease staged)
    (hrange : ∀ file ∈ staged, i64Min ≤ file.endOffset ∧ file.endOffset ≤ i64Max)
    (hleaves : LeavesLargestOnly retention nowMs watermark staged) :
    ¬ GcSafe retention watermark staged
      (gcPass retention nowMs (some watermark) staged fun _ ↦ true) := by
  intro hsafe
  obtain ⟨hmin, htwo, newest, hmem, hencodes, hmax, hothers⟩ := hleaves
  obtain ⟨older, second, hsorted⟩ := sorted_of_largest hdistinct hends hrange htwo hmem hmax
  obtain ⟨hsecond, htop⟩ := second_top hsorted (sortStaged_ends hdistinct hends) hrange hmax
  have hmemSecond : second ∈ staged := (mem_of_sorted hsorted).mpr (.inl (by simp))
  have hrangeSecond := hrange second hmemSecond
  have hnodup := (sortStaged_perm staged).nodup_iff.mpr hdistinct.nodup
  rw [hsorted, List.nodup_append] at hnodup
  have hcandidates : ∀ file ∈ older ++ [second],
      gcCandidate retention nowMs watermark file = true := fun file hfile ↦
    hothers file ((mem_of_sorted hsorted).mpr (.inl hfile))
      (hnodup.2.2 file hfile newest (List.mem_singleton_self newest))
  have hall : ∀ file ∈ staged, file.epochMs ≤ MAX_EPOCH_MS ∧ file.seq ≤ MAX_SEQ := by
    intro file hfile
    by_cases hne : file = newest
    · rwa [hne]
    · exact (gcCandidate_iff.mp (hothers file hfile hne)).1
  -- the full listing resumes behind the second file, what is left behind the newest one
  obtain ⟨plan, hplan⟩ := planRecovery_exists (some watermark) hall
  have hresume := planRecovery_resume_max hplan hmemSecond rfl htop
  have hsame := hsafe.recovery watermark le_rfl _ (.refl _)
  rw [gcPass_eq_earlier hsorted (by simp) hmin hcandidates, hplan] at hsame
  obtain ⟨-, hresumeLeft, -, -⟩ := planRecovery_ok hsame
  rw [hresume, sortStaged_newest_left hdistinct hsorted, List.map_singleton, List.max?_singleton,
    Option.some.injEq, hmax, nextOffset_of_lt hrangeSecond.1 hsecond, nextOffset,
    wrapI64_succ_max] at hresumeLeft
  omega

end Recovery

/-- Staging GC never changes recovery, unless a floor of at most one file lets it leave a file that
ends at the largest offset alone. -/
theorem gc_keeps_recovery_iff (retention : GcRetention) (nowMs : Nat) (watermark : Int)
    (staged : List StagedFile) (hdistinct : DistinctNames staged) (hends : EndsIncrease staged)
    (hrange : ∀ file ∈ staged, i64Min ≤ file.endOffset ∧ file.endOffset ≤ i64Max) :
    (∀ succeeds : StagedFile → Bool, GcSafe retention watermark staged
        (gcPass retention nowMs (some watermark) staged succeeds)) ↔
      ¬ LeavesLargestOnly retention nowMs watermark staged :=
  ⟨fun hsafe hleaves ↦ not_gcSafe_of_leavesLargestOnly hdistinct hends hrange hleaves (hsafe _),
    fun hnot ↦ gcSafe_of_not_leavesLargestOnly hdistinct hends hrange hnot⟩

/-- Three consumed files and a floor of three files: the pass deletes the oldest one of four. -/
theorem gc_keeps_recovery_iff_four :
    (∀ succeeds : StagedFile → Bool,
        GcSafe ⟨7, 3⟩ 3145729
          [⟨1, 0, 0, 9, true⟩, ⟨2, 0, 10, 19, true⟩, ⟨3, 0, 20, 29, true⟩, ⟨3, 1, 30, 39, true⟩]
          (gcPass ⟨7, 3⟩ 604800010 (some 3145729)
            [⟨1, 0, 0, 9, true⟩, ⟨2, 0, 10, 19, true⟩, ⟨3, 0, 20, 29, true⟩, ⟨3, 1, 30, 39, true⟩]
            succeeds)) ↔
      ¬ LeavesLargestOnly ⟨7, 3⟩ 604800010 3145729
        [⟨1, 0, 0, 9, true⟩, ⟨2, 0, 10, 19, true⟩, ⟨3, 0, 20, 29, true⟩, ⟨3, 1, 30, 39, true⟩] :=
  gc_keeps_recovery_iff _ _ _ _ (by decide) (by decide) (by decide)

/-- A floor of one file: the pass deletes `[10, 19]` and leaves a file that ends at the largest
offset, so the resume offset falls from 20 to the least offset. -/
theorem gc_changes_recovery :
    ¬ ∀ (retention : GcRetention) (nowMs : Nat) (watermark : Int) (staged : List StagedFile),
      DistinctNames staged → EndsIncrease staged →
        (∀ file ∈ staged, i64Min ≤ file.endOffset ∧ file.endOffset ≤ i64Max) →
          ∀ succeeds : StagedFile → Bool, GcSafe retention watermark staged
            (gcPass retention nowMs (some watermark) staged succeeds) := by
  intro hclaim
  have hsafe := hclaim ⟨1, 1⟩ 86400002 1048577
    [⟨1, 0, 10, 19, true⟩, ⟨1, 1, 20, 9223372036854775807, true⟩]
    (by decide) (by decide) (by decide) fun _ ↦ true
  have hsame := hsafe.recovery 1048577 le_rfl _ (.refl _)
  revert hsame
  decide

end RelytIngest
