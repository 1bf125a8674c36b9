import RelytIngest.Recovery
import Mathlib.Data.List.Nodup
import Mathlib.Data.Prod.Lex
import Mathlib.Order.Bounds.Basic

/-!
# What a recovery plan says

`RecoveryPlan.Describes` is the specification of a plan by the staged files as a multiset: the
resume offset is the successor of the largest end offset, the highest staged name is the largest in
the lexicographic order, and the backfill holds the listed files above the watermark, each as often
as it is listed, in the order of the serial seqs. `planRecovery_spec` says that `planRecovery`
returns a plan of this kind for files that end below the largest offset, that it fails exactly when
some name does not encode, and that the order of a listing without duplicates does not matter
(`planRecovery_perm`).
-/

set_option autoImplicit false
set_option relaxedAutoImplicit false

namespace RelytIngest

open Foundations

namespace StagedFile

/-- The pair the staged files are ordered by. -/
def name (file : StagedFile) : Nat ×ₗ Nat := toLex (file.epochMs, file.seq)

theorem notAfter_iff (first second : StagedFile) :
    first.NotAfter second ↔ first.name ≤ second.name := by
  simp only [NotAfter, name, Prod.Lex.toLex_le_toLex]

end StagedFile

/-- No two files of the listing share epoch and seq. -/
def DistinctNames (staged : List StagedFile) : Prop :=
  staged.Pairwise fun first second ↦ first.name ≠ second.name

instance (staged : List StagedFile) : Decidable (DistinctNames staged) :=
  inferInstanceAs (Decidable (staged.Pairwise _))

theorem DistinctNames.eq_of_name {staged : List StagedFile} (hdistinct : DistinctNames staged)
    {first second : StagedFile} (hfirst : first ∈ staged) (hsecond : second ∈ staged)
    (hname : first.name = second.name) : first = second :=
  List.inj_on_of_nodup_map (List.pairwise_map.mpr hdistinct) hfirst hsecond hname

/-- What a plan says of the staged files and the watermark. -/
structure RecoveryPlan.Describes (plan : RecoveryPlan) (staged : List StagedFile)
    (watermark : Option Int) : Prop where
  resume_none : plan.kafkaResumeOffset = none ↔ staged = []
  resume : ∀ resume ∈ plan.kafkaResumeOffset,
    IsGreatest {offset | ∃ file ∈ staged, offset = file.endOffset + 1} resume
  maxStaged_none : plan.maxStaged = none ↔ staged = []
  maxStaged : ∀ pair ∈ plan.maxStaged,
    IsGreatest {name | ∃ file ∈ staged, name = file.name} (toLex pair)
  backfill_subset : plan.backfill ⊆ staged
  /-- A file above the watermark is announced as often as it is listed, another one never. -/
  backfill_count : ∀ (file : StagedFile) (serialSeq : Int), file.serialSeq = .ok serialSeq →
    plan.backfill.count file = if ∀ w ∈ watermark, w < serialSeq then staged.count file else 0
  /-- The backfill is in the order of the serial seqs. -/
  backfill_sorted : plan.backfill.Pairwise fun first second ↦
    ∃ earlier later, first.serialSeq = .ok earlier ∧ second.serialSeq = .ok later ∧ earlier ≤ later

section Plan

variable {staged listing : List StagedFile} {watermark : Option Int} {plan : RecoveryPlan}

theorem sortStaged_perm (staged : List StagedFile) : (sortStaged staged).Perm staged :=
  List.perm_insertionSort _ staged

theorem sortStaged_pairwise (staged : List StagedFile) :
    (sortStaged staged).Pairwise StagedFile.NotAfter :=
  List.pairwise_insertionSort StagedFile.NotAfter staged

theorem sortStaged_eq_nil_iff : sortStaged staged = [] ↔ staged = [] := by
  rw [← List.length_eq_zero_iff, (sortStaged_perm staged).length_eq, List.length_eq_zero_iff]

/-- Files with distinct names have one order. -/
theorem sortStaged_eq_of_perm (hperm : listing.Perm staged) (hdistinct : DistinctNames staged) :
    sortStaged listing = sortStaged staged := by
  refine List.Perm.eq_of_pairwise (fun first second hfirst hsecond hle hge ↦ ?_)
    (sortStaged_pairwise listing) (sortStaged_pairwise staged)
    ((sortStaged_perm listing).trans (hperm.trans (sortStaged_perm staged).symm))
  rw [StagedFile.notAfter_iff] at hle hge
  exact hdistinct.eq_of_name (hperm.subset (mem_sortStaged.mp hfirst)) (mem_sortStaged.mp hsecond)
    (le_antisymm hle hge)

/-- The order of a listing without duplicates does not matter to the plan. -/
theorem planRecovery_perm (hperm : listing.Perm staged) (hdistinct : DistinctNames staged)
    (watermark : Option Int) : planRecovery listing watermark = planRecovery staged watermark := by
  simp only [planRecovery, sortStaged_eq_of_perm hperm hdistinct]

/-- A plan is returned unless some name does not encode. -/
theorem planRecovery_eq_error_iff :
    (∃ err, planRecovery staged watermark = .error err) ↔
      ∃ file ∈ staged, ∃ err, file.serialSeq = .error err := by
  constructor
  · rintro ⟨err, herr⟩
    by_contra hall
    push Not at hall
    have hencodes : ∀ file ∈ staged, file.epochMs ≤ MAX_EPOCH_MS ∧ file.seq ≤ MAX_SEQ := by
      intro file hfile
      cases hserial : file.serialSeq with
      | error err => exact absurd hserial (hall file hfile err)
      | ok value =>
        obtain ⟨hepoch, hseq, -⟩ := (file.serialSeq_eq_ok_iff value).mp hserial
        exact ⟨hepoch, hseq⟩
    obtain ⟨plan, hplan⟩ := planRecovery_exists watermark hencodes
    rw [hplan] at herr
    simp at herr
  · rintro ⟨file, hfile, err, herr⟩
    cases hplan : planRecovery staged watermark with
    | error other => exact ⟨other, rfl⟩
    | ok plan =>
      obtain ⟨hepoch, hseq⟩ := (planRecovery_ok hplan).1 file hfile
      rw [(file.serialSeq_eq_ok_iff _).mpr ⟨hepoch, hseq, rfl⟩] at herr
      simp at herr

/-- Below the largest offset the successor does not wrap. -/
theorem nextOffset_of_lt {offset : Int} (hmin : i64Min ≤ offset) (hmax : offset < i64Max) :
    nextOffset offset = offset + 1 :=
  wrapI64_of_mem (by omega) (by omega)

theorem planRecovery_resume_isGreatest
    (hends : ∀ file ∈ staged, i64Min ≤ file.endOffset ∧ file.endOffset < i64Max)
    (hplan : planRecovery staged watermark = .ok plan) {resume : Int}
    (hresume : resume ∈ plan.kafkaResumeOffset) :
    IsGreatest {offset | ∃ file ∈ staged, offset = file.endOffset + 1} resume := by
  obtain ⟨-, hvalue, -, -⟩ := planRecovery_ok hplan
  rw [hvalue, Option.mem_def, List.max?_eq_some_iff] at hresume
  obtain ⟨hmem, hmax⟩ := hresume
  have hnext (file : StagedFile) (hfile : file ∈ staged) :
      nextOffset file.endOffset = file.endOffset + 1 :=
    nextOffset_of_lt (hends file hfile).1 (hends file hfile).2
  constructor
  · obtain ⟨file, hfile, heq⟩ := List.mem_map.mp hmem
    rw [mem_sortStaged] at hfile
    exact ⟨file, hfile, heq.symm.trans (hnext file hfile)⟩
  · rintro offset ⟨file, hfile, rfl⟩
    rw [← hnext file hfile]
    exact hmax _ (List.mem_map.mpr ⟨file, mem_sortStaged.mpr hfile, rfl⟩)

theorem planRecovery_maxStaged_isGreatest (hplan : planRecovery staged watermark = .ok plan)
    {pair : Nat × Nat} (hpair : pair ∈ plan.maxStaged) :
    IsGreatest {name | ∃ file ∈ staged, name = file.name} (toLex pair) := by
  obtain ⟨-, -, -, hvalue⟩ := planRecovery_ok hplan
  rw [hvalue, Option.mem_def, Option.map_eq_some_iff] at hpair
  obtain ⟨last, hlast, rfl⟩ := hpair
  refine ⟨⟨last, mem_sortStaged.mp (List.mem_of_getLast? hlast), rfl⟩, ?_⟩
  rintro name ⟨file, hfile, rfl⟩
  obtain ⟨earlier, hsplit⟩ : ∃ earlier, sortStaged staged = earlier ++ [last] :=
    List.getLast?_eq_some_iff.mp hlast
  have hsorted := sortStaged_pairwise staged
  have hmem := mem_sortStaged.mpr hfile
  rw [hsplit, List.pairwise_append] at hsorted
  rw [hsplit, List.mem_append, List.mem_singleton] at hmem
  rcases hmem with hearlier | rfl
  · exact (StagedFile.notAfter_iff ..).mp
      (hsorted.2.2 file hearlier last (List.mem_singleton_self last))
  · exact le_rfl

/-- A listed file is in the backfill, as often as it is listed, when it is above the watermark. -/
theorem planRecovery_backfill_count (hplan : planRecovery staged watermark = .ok plan)
    {file : StagedFile} {serialSeq : Int} (hserial : file.serialSeq = .ok serialSeq) :
    plan.backfill.count file =
      if ∀ w ∈ watermark, w < serialSeq then staged.count file else 0 := by
  obtain ⟨-, -, hbackfill, -⟩ := planRecovery_ok hplan
  obtain ⟨-, -, rfl⟩ := (file.serialSeq_eq_ok_iff serialSeq).mp hserial
  have habove : (∀ w ∈ watermark, w < file.packed) ↔
      aboveWatermark watermark file.packed = true := by
    cases watermark <;> simp [aboveWatermark]
  rw [hbackfill, ← (sortStaged_perm staged).count_eq file]
  by_cases hfile : aboveWatermark watermark file.packed = true
  · rw [if_pos (habove.mpr hfile)]
    exact List.count_filter hfile
  · rw [if_neg (mt habove.mp hfile), List.count_eq_zero, List.mem_filter]
    exact fun hmem ↦ hfile hmem.2

theorem planRecovery_backfill_sorted (hplan : planRecovery staged watermark = .ok plan) :
    plan.backfill.Pairwise fun first second ↦ ∃ earlier later,
      first.serialSeq = .ok earlier ∧ second.serialSeq = .ok later ∧ earlier ≤ later := by
  obtain ⟨hall, -, hbackfill, -⟩ := planRecovery_ok hplan
  have hencodes (file : StagedFile) (hfile : file ∈ sortStaged staged) :
      file.seq ≤ MAX_SEQ ∧ file.serialSeq = .ok file.packed := by
    obtain ⟨hepoch, hseq⟩ := hall file (mem_sortStaged.mp hfile)
    exact ⟨hseq, (file.serialSeq_eq_ok_iff _).mpr ⟨hepoch, hseq, rfl⟩⟩
  rw [hbackfill]
  refine ((sortStaged_pairwise staged).imp_of_mem
    fun {first second} hfirst hsecond hle ↦ ?_).filter _
  obtain ⟨hfirstSeq, hfirstOk⟩ := hencodes first hfirst
  obtain ⟨hsecondSeq, hsecondOk⟩ := hencodes second hsecond
  refine ⟨_, _, hfirstOk, hsecondOk, not_lt.mp fun hlt ↦ ?_⟩
  have hafter := (StagedFile.packed_lt_iff hsecondSeq hfirstSeq).mp hlt
  simp only [StagedFile.NotAfter] at hle
  omega

theorem planRecovery_describes
    (hends : ∀ file ∈ staged, i64Min ≤ file.endOffset ∧ file.endOffset < i64Max)
    (hplan : planRecovery staged watermark = .ok plan) : plan.Describes staged watermark where
  resume_none := by
    rw [(planRecovery_ok hplan).2.1, List.max?_eq_none_iff, List.map_eq_nil_iff,
      sortStaged_eq_nil_iff]
  resume _ hresume := planRecovery_resume_isGreatest hends hplan hresume
  maxStaged_none := by
    rw [(planRecovery_ok hplan).2.2.2, Option.map_eq_none_iff, List.getLast?_eq_none_iff,
      sortStaged_eq_nil_iff]
  maxStaged _ hpair := planRecovery_maxStaged_isGreatest hplan hpair
  backfill_subset := planRecovery_backfill_subset hplan
  backfill_count _ _ hserial := planRecovery_backfill_count hplan hserial
  backfill_sorted := planRecovery_backfill_sorted hplan

end Plan

/-- What `plan_recovery` does with a listing and a watermark. -/
structure PlanRecoverySpec (staged : List StagedFile) (watermark : Option Int) : Prop where
  /-- It fails exactly on a name that does not encode. -/
  fails_iff : (∃ err, planRecovery staged watermark = .error err) ↔
    ∃ file ∈ staged, ∃ err, file.serialSeq = .error err
  describes : ∀ plan, planRecovery staged watermark = .ok plan → plan.Describes staged watermark
  /-- The order of a listing without duplicates does not matter. -/
  order : DistinctNames staged → ∀ listing : List StagedFile, listing.Perm staged →
    planRecovery listing watermark = planRecovery staged watermark

theorem planRecovery_spec (staged : List StagedFile) (watermark : Option Int)
    (hends : ∀ file ∈ staged, i64Min ≤ file.endOffset ∧ file.endOffset < i64Max) :
    PlanRecoverySpec staged watermark where
  fails_iff := planRecovery_eq_error_iff
  describes _ hplan := planRecovery_describes hends hplan
  order hdistinct _ hperm := planRecovery_perm hperm hdistinct watermark

/-- Two files listed newest first, the earlier one consumed. -/
theorem planRecovery_spec_two :
    PlanRecoverySpec [⟨2, 0, 10, 19, true⟩, ⟨1, 5, 0, 9, true⟩] (some 1048581) :=
  planRecovery_spec _ _ (by decide)

end RelytIngest
