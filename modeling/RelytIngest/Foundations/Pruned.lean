import Mathlib.Data.List.MinMax
import Mathlib.Order.WithBot

/-!
# A list that is pruned from below

A list of keyed entries from which everything up to some bound may be dropped for good. While the
bounds only rise, what a later bound leaves of the pruned list is what it leaves of all the entries
ever added (`PrunedTo`), so counts and minima above the bound are exact.
-/

set_option autoImplicit false
set_option relaxedAutoImplicit false

namespace RelytIngest.Foundations

variable {κ α : Type*} [LinearOrder κ]

/-- The entries above a bound. -/
def remaining (bound : WithBot κ) (entries : List (κ × α)) : List (κ × α) :=
  entries.filter fun entry ↦ decide (bound < entry.1)

@[simp] theorem mem_remaining {bound : WithBot κ} {entries : List (κ × α)} {entry : κ × α} :
    entry ∈ remaining bound entries ↔ entry ∈ entries ∧ bound < entry.1 := by
  simp [remaining]

theorem remaining_append (bound : WithBot κ) (entries later : List (κ × α)) :
    remaining bound (entries ++ later) = remaining bound entries ++ remaining bound later :=
  List.filter_append ..

/-- What a lower bound dropped would not have been left by a higher one. -/
theorem remaining_remaining {bound higher : WithBot κ} (hle : bound ≤ higher)
    (entries : List (κ × α)) :
    remaining higher (remaining bound entries) = remaining higher entries := by
  rw [remaining, remaining, List.filter_filter, remaining]
  refine List.filter_congr fun entry _ ↦ ?_
  by_cases habove : higher < entry.1
  · simp [habove, hle.trans_lt habove]
  · simp [habove]

/-- From `bound` on, the entries known are as good as all the entries. -/
def PrunedTo (bound : WithBot κ) (entries known : List (κ × α)) : Prop :=
  ∀ higher, bound ≤ higher → remaining higher known = remaining higher entries

namespace PrunedTo

variable {bound higher : WithBot κ} {entries known : List (κ × α)}

theorem refl (bound : WithBot κ) (entries : List (κ × α)) : PrunedTo bound entries entries :=
  fun _ _ ↦ rfl

theorem mono (h : PrunedTo bound entries known) (hle : bound ≤ higher) :
    PrunedTo higher entries known :=
  fun highest hhighest ↦ h highest (hle.trans hhighest)

theorem append (h : PrunedTo bound entries known) (later : List (κ × α)) :
    PrunedTo bound (entries ++ later) (known ++ later) := by
  intro highest hhighest
  rw [remaining_append, remaining_append, h highest hhighest]

theorem prune (h : PrunedTo bound entries known) (hle : bound ≤ higher) :
    PrunedTo higher entries (remaining higher known) := by
  intro highest hhighest
  rw [remaining_remaining hhighest]
  exact h highest (hle.trans hhighest)

theorem remaining_eq (h : PrunedTo bound entries known) (hle : bound ≤ higher) :
    remaining higher known = remaining higher entries :=
  h higher hle

end PrunedTo

/-- The count above a bound is one of the keys. -/
theorem length_remaining (bound : WithBot κ) (entries : List (κ × α)) :
    (remaining bound entries).length =
      ((entries.map Prod.fst).filter fun key : κ ↦ decide (bound < key)).length := by
  rw [List.filter_map, List.length_map]
  rfl

/-- No entry is older than the oldest one. -/
theorem age_le_oldest {stamps : List Nat} {stamp : Nat} (hstamp : stamp ∈ stamps) (now unit : Nat) :
    (now - stamp) / unit ≤ (stamps.min?.map fun oldest ↦ (now - oldest) / unit).getD 0 := by
  cases holdest : stamps.min? with
  | none =>
    rw [List.min?_eq_none_iff] at holdest
    simp [holdest] at hstamp
  | some oldest =>
    have hle : oldest ≤ stamp := (List.min?_eq_some_iff.mp holdest).2 stamp hstamp
    exact Nat.div_le_div_right (Nat.sub_le_sub_left hle now)

end RelytIngest.Foundations
