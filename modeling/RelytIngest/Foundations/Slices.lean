import RelytIngest.Foundations.Tiling

/-!
# Slices of a sequence

`slice` is what a sequence of lists has between two numbers. Slices that meet join to one
(`slice_append`), and so do the parts of a sequence over intervals laid end to end
(`Tiled.flatMap_slice`).
-/

set_option autoImplicit false
set_option relaxedAutoImplicit false

namespace RelytIngest.Foundations

variable {α β : Type*} {source : Int → List β} {lo hi : α → Int} {start : Int} {items : List α}

/-- What is at the numbers from `lower` to below `upper`, in order. -/
def slice (source : Int → List β) (lower upper : Int) : List β :=
  (List.range (upper - lower).toNat).flatMap fun n : Nat ↦ source (lower + n)

@[simp] theorem slice_self (lower : Int) : slice source lower lower = [] := by
  simp [slice]

theorem slice_append {lower middle upper : Int} (hlower : lower ≤ middle)
    (hupper : middle ≤ upper) :
    slice source lower middle ++ slice source middle upper = slice source lower upper := by
  have hlength : (upper - lower).toNat = (middle - lower).toNat + (upper - middle).toNat := by omega
  rw [slice, slice, slice, hlength, List.range_add, List.flatMap_append, List.flatMap_map]
  congr 2
  ext1 n
  congr 1
  omega

theorem mem_slice {lower upper : Int} {value : β} :
    value ∈ slice source lower upper ↔ ∃ n, lower ≤ n ∧ n < upper ∧ value ∈ source n := by
  simp only [slice, List.mem_flatMap, List.mem_range]
  constructor
  · rintro ⟨n, hn, hvalue⟩
    exact ⟨lower + n, by omega, by omega, hvalue⟩
  · rintro ⟨n, hlower, hupper, hvalue⟩
    refine ⟨(n - lower).toNat, by omega, ?_⟩
    rwa [show lower + ((n - lower).toNat : Int) = n by omega]

/-- The parts of a sequence over intervals laid end to end are a slice of it. -/
theorem Tiled.flatMap_slice (h : Tiled lo hi start items) {part : α → List β}
    (hpart : ∀ item ∈ items, part item = slice source (lo item) (hi item + 1)) :
    items.flatMap part = slice source start (tiledTo hi start items) := by
  induction items generalizing start with
  | nil => simp
  | cons item rest ih =>
    obtain ⟨rfl, hle, hrest⟩ := h
    rw [List.forall_mem_cons] at hpart
    rw [List.flatMap_cons, hpart.1, ih hrest hpart.2, tiledTo_cons]
    exact slice_append (hle.trans (Int.le_add_one le_rfl)) hrest.le_tiledTo

end RelytIngest.Foundations
