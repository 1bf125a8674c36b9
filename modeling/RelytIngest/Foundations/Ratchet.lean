import Mathlib.Data.List.Nodup
import Mathlib.Data.List.Pairwise
import Mathlib.Order.Lattice

/-!
# A register that is only lowered

Whoever lowers the register to a value below its own announces that value later. No value is
announced twice, in whatever order the announcements are made (`Ratchet.Distinct`). When they are
made in the order of the lowering, the values announced fall (`Ratchet.Falling`), and the last of
them is what the register holds once none is outstanding (`Falling.last_eq_low`).
-/

set_option autoImplicit false
set_option relaxedAutoImplicit false

namespace RelytIngest.Foundations

structure Ratchet (ι : Type*) where
  low : ι
  /-- The values not yet announced, in the order in which the register was lowered to them. -/
  outstanding : List ι
  announced : List ι

namespace Ratchet

variable {ι : Type*}

def start (top : ι) : Ratchet ι := ⟨top, [], []⟩

def lower (r : Ratchet ι) (i : ι) : Ratchet ι :=
  { r with low := i, outstanding := r.outstanding ++ [i] }

/-- An outstanding value is announced; `rest` are those that remain. -/
def announce (r : Ratchet ι) (i : ι) (rest : List ι) : Ratchet ι :=
  { r with outstanding := rest, announced := r.announced ++ [i] }

/-- The values announced and those that will be. -/
def all (r : Ratchet ι) : List ι := r.announced ++ r.outstanding

theorem all_lower (r : Ratchet ι) (i : ι) : (r.lower i).all = r.all ++ [i] :=
  (List.append_assoc ..).symm

theorem all_announce_head {r : Ratchet ι} {i : ι} {rest : List ι}
    (hhead : r.outstanding = i :: rest) : (r.announce i rest).all = r.all := by
  simp [all, announce, hhead]

theorem all_announce_perm {r : Ratchet ι} {i : ι} {rest : List ι}
    (hperm : r.outstanding.Perm (i :: rest)) : (r.announce i rest).all.Perm r.all := by
  have hsame : (r.announce i rest).all = r.announced ++ i :: rest := by simp [all, announce]
  rw [hsame]
  exact (hperm.append_left r.announced).symm

variable [LinearOrder ι]

/-! ### In any order -/

structure Distinct (r : Ratchet ι) : Prop where
  low_le : ∀ i ∈ r.all, r.low ≤ i
  nodup : r.all.Nodup

theorem distinct_start (top : ι) : (start top).Distinct :=
  ⟨fun _ hi ↦ absurd hi List.not_mem_nil, List.nodup_nil⟩

variable {r : Ratchet ι} {i : ι} {rest : List ι}

theorem Distinct.lower (h : r.Distinct) (hlt : i < r.low) : (r.lower i).Distinct := by
  have hbelow : ∀ j ∈ r.all, i < j := fun j hj ↦ lt_of_lt_of_le hlt (h.low_le j hj)
  refine ⟨fun j hj ↦ ?_, ?_⟩
  · rw [all_lower, List.mem_append, List.mem_singleton] at hj
    rcases hj with hold | rfl
    · exact (hbelow j hold).le
    · exact le_rfl
  · rw [all_lower, List.nodup_append]
    refine ⟨h.nodup, List.nodup_singleton i, fun j hj k hk ↦ ?_⟩
    rw [List.mem_singleton.mp hk]
    exact (hbelow j hj).ne'

theorem Distinct.announce (h : r.Distinct) (hperm : r.outstanding.Perm (i :: rest)) :
    (r.announce i rest).Distinct := by
  have hall := all_announce_perm hperm
  exact ⟨fun j hj ↦ h.low_le j (hall.mem_iff.mp hj), hall.nodup_iff.mpr h.nodup⟩

/-! ### In the order of the lowering -/

structure Falling (r : Ratchet ι) : Prop where
  low_le : ∀ i ∈ r.all, r.low ≤ i
  falling : r.all.Pairwise (· > ·)
  /-- The register holds the last of the values, if there are any. -/
  reached : ∀ i ∈ r.all.getLast?, i = r.low

theorem falling_start (top : ι) : (start top).Falling :=
  ⟨fun _ hi ↦ absurd hi List.not_mem_nil, List.Pairwise.nil, fun _ hi ↦ nomatch hi⟩

theorem Falling.lower (h : r.Falling) (hlt : i < r.low) : (r.lower i).Falling := by
  have hbelow : ∀ j ∈ r.all, i < j := fun j hj ↦ lt_of_lt_of_le hlt (h.low_le j hj)
  refine ⟨fun j hj ↦ ?_, ?_, fun j hj ↦ ?_⟩
  · rw [all_lower, List.mem_append, List.mem_singleton] at hj
    rcases hj with hold | rfl
    · exact (hbelow j hold).le
    · exact le_rfl
  · rw [all_lower, List.pairwise_append]
    refine ⟨h.falling, List.pairwise_singleton _ i, fun j hj k hk ↦ ?_⟩
    rw [List.mem_singleton.mp hk]
    exact hbelow j hj
  · rw [all_lower, List.getLast?_concat] at hj
    exact (Option.some.inj hj).symm

theorem Falling.announce (h : r.Falling) (hhead : r.outstanding = i :: rest) :
    (r.announce i rest).Falling := by
  have hall := all_announce_head hhead
  exact ⟨fun j hj ↦ h.low_le j (hall ▸ hj), hall ▸ h.falling, fun j hj ↦ h.reached j (hall ▸ hj)⟩

theorem Falling.announced (h : r.Falling) : r.announced.Pairwise (· > ·) :=
  (List.pairwise_append.mp h.falling).1

/-- With nothing outstanding, the last value announced is what the register holds. -/
theorem Falling.last_eq_low (h : r.Falling) (hnone : r.outstanding = []) {last : ι}
    (hlast : r.announced.getLast? = some last) : last = r.low := by
  refine h.reached last ?_
  rw [all, hnone, List.append_nil]
  exact hlast

end Ratchet

end RelytIngest.Foundations
