import Mathlib.Data.List.Chain

/-!
# Lists with successive keys

`Consecutive key items` says that the integer keys of neighbours follow each other without a gap. A
list whose keys count up from a start has it (`consecutive_of_keys`). Such a list has no key twice,
and a consecutive selection from it that starts at its head is a prefix of it
(`Consecutive.prefix_of_subset`).
-/

set_option autoImplicit false
set_option relaxedAutoImplicit false

namespace RelytIngest.Foundations

variable {α : Type*} {key : α → Int} {items selected : List α}

/-- The keys of neighbours in the list are successive. -/
def Consecutive (key : α → Int) (items : List α) : Prop :=
  items.IsChain fun first second ↦ key second = key first + 1

theorem Consecutive.prefix (h : Consecutive key items) (hleading : selected <+: items) :
    Consecutive key selected :=
  List.IsChain.prefix h hleading

/-- Keys that count up from a start are successive. -/
theorem consecutive_of_keys {start : Int} {count : Nat}
    (hkeys : items.map key = (List.range count).map fun n : Nat ↦ start + n) :
    Consecutive key items := by
  have hcount : ((List.range count).map fun n : Nat ↦ start + n).IsChain
      fun first second ↦ second = first + 1 := by
    rw [List.isChain_map, List.isChain_iff_getElem]
    intro i hi
    simp only [List.getElem_range]
    push_cast
    omega
  rw [← hkeys, List.isChain_map] at hcount
  exact hcount

/-- The keys of a consecutive list increase. -/
theorem Consecutive.pairwise (h : Consecutive key items) :
    items.Pairwise fun first second ↦ key first < key second := by
  have hmapped : (items.map key).IsChain (· < ·) := by
    rw [List.isChain_map]
    refine List.IsChain.imp (fun first second hnext ↦ ?_) h
    omega
  exact List.pairwise_map.mp hmapped.pairwise

/-- A consecutive selection that starts at the head leaves nothing out. -/
theorem Consecutive.prefix_of_subset (hitems : Consecutive key items)
    (hselected : Consecutive key selected) (hsubset : selected ⊆ items)
    (hhead : ∀ first ∈ selected.head?, first ∈ items.head?) : selected <+: items := by
  induction selected generalizing items with
  | nil => exact List.nil_prefix
  | cons first rest ih =>
    obtain ⟨tail, rfl⟩ : ∃ tail, items = first :: tail := by
      have hfirst := hhead first rfl
      cases items with
      | nil => simp at hfirst
      | cons head tail => exact ⟨tail, by rw [Option.mem_some_iff.mp hfirst]⟩
    have habove := hitems.pairwise
    have hrest := hselected.pairwise
    rw [List.pairwise_cons] at habove hrest
    -- a selected item after the first has a higher key, so it comes from the tail
    have hsubsetTail : rest ⊆ tail := fun item hitem ↦ by
      rcases List.mem_cons.mp (hsubset (List.mem_cons_of_mem first hitem)) with rfl | htail
      · exact absurd (hrest.1 item hitem) (Int.lt_irrefl _)
      · exact htail
    refine List.cons_prefix_cons.mpr ⟨rfl, ih hitems.tail hselected.tail hsubsetTail ?_⟩
    intro second hsecond
    -- the least key of the tail is the successor of the first
    cases tail with
    | nil => exact absurd (hsubsetTail (List.mem_of_mem_head? hsecond)) List.not_mem_nil
    | cons next later =>
      have hkey : key second = key first + 1 := hselected.rel_head? hsecond
      have hnext : key next = key first + 1 := (List.isChain_cons_cons.mp hitems).1
      rcases List.mem_cons.mp (hsubsetTail (List.mem_of_mem_head? hsecond)) with rfl | hlater
      · rfl
      · have hless := (List.pairwise_cons.mp habove.2).1 second hlater
        omega

end RelytIngest.Foundations
