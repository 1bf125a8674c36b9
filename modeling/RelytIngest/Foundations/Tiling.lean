import Mathlib.Data.List.Flatten
import Mathlib.Data.Int.Order.Basic
import Mathlib.Order.Basic

/-!
# Intervals laid end to end

`Tiled lo hi start items` says that the intervals `[lo item, hi item]` of a list begin at `start`
and each begins right behind the one before it: they are in increasing order, disjoint and without a
gap. `tiledTo` is the number behind the last one. Everything from the start to there is covered
(`Tiled.covers`), and where the intervals of a list are made of blocks of tiles, the list is tiled
itself (`Tiled.blocks`).
-/

set_option autoImplicit false
set_option relaxedAutoImplicit false

namespace RelytIngest.Foundations

variable {α γ : Type*} {lo hi : α → Int} {start : Int} {items : List α}

/-- The intervals begin at `start`, each right behind the one before it. -/
def Tiled (lo hi : α → Int) : Int → List α → Prop
  | _, [] => True
  | start, item :: rest => lo item = start ∧ start ≤ hi item ∧ Tiled lo hi (hi item + 1) rest

/-- Each number from the start to the limit is in one of the intervals. -/
def Covers (lo hi : α → Int) (start : Int) (items : List α) (limit : Int) : Prop :=
  ∀ o, start ≤ o → o < limit → ∃ item ∈ items, lo item ≤ o ∧ o ≤ hi item

/-- The number behind the last interval. -/
def tiledTo (hi : α → Int) (start : Int) (items : List α) : Int :=
  (items.getLast?.map fun item ↦ hi item + 1).getD start

@[simp] theorem tiledTo_nil : tiledTo hi start [] = start := rfl

theorem tiledTo_cons (item : α) (rest : List α) :
    tiledTo hi start (item :: rest) = tiledTo hi (hi item + 1) rest := by
  cases rest with
  | nil => rfl
  | cons next later =>
    simp only [tiledTo, List.getLast?_cons_cons]
    cases hlast : (next :: later).getLast? with
    | none => simp at hlast
    | some last => rfl

@[simp] theorem tiledTo_concat (item : α) : tiledTo hi start (items ++ [item]) = hi item + 1 := by
  simp [tiledTo]

theorem tiledTo_append (more : List α) :
    tiledTo hi start (items ++ more) = tiledTo hi (tiledTo hi start items) more := by
  induction items generalizing start with
  | nil => rfl
  | cons item rest ih => rw [List.cons_append, tiledTo_cons, tiledTo_cons, ih]

theorem tiled_append {more : List α} :
    Tiled lo hi start (items ++ more) ↔
      Tiled lo hi start items ∧ Tiled lo hi (tiledTo hi start items) more := by
  induction items generalizing start with
  | nil => simp [Tiled]
  | cons item rest ih => simp only [List.cons_append, Tiled, tiledTo_cons, ih, and_assoc]

theorem tiled_concat {item : α} :
    Tiled lo hi start (items ++ [item]) ↔
      Tiled lo hi start items ∧ lo item = tiledTo hi start items ∧ lo item ≤ hi item := by
  rw [tiled_append, Tiled, Tiled, and_true]
  exact and_congr_right fun _ ↦ and_congr_right fun heq ↦ by rw [heq]

theorem tiled_map {items : List γ} (f : γ → α) :
    Tiled lo hi start (items.map f) ↔
      Tiled (fun item ↦ lo (f item)) (fun item ↦ hi (f item)) start items := by
  induction items generalizing start with
  | nil => exact Iff.rfl
  | cons item rest ih => simp only [List.map_cons, Tiled, ih]

theorem Tiled.leading {selected : List α} (h : Tiled lo hi start items)
    (hleading : selected <+: items) : Tiled lo hi start selected := by
  obtain ⟨rest, rfl⟩ := hleading
  exact (tiled_append.mp h).1

theorem Tiled.le_tiledTo (h : Tiled lo hi start items) : start ≤ tiledTo hi start items := by
  induction items generalizing start with
  | nil => exact le_rfl
  | cons item rest ih =>
    rw [tiledTo_cons]
    have := ih h.2.2
    have := h.2.1
    omega

/-- An interval lies between the start and the number behind the last one. -/
theorem Tiled.bounds (h : Tiled lo hi start items) {item : α} (hitem : item ∈ items) :
    start ≤ lo item ∧ lo item ≤ hi item ∧ hi item < tiledTo hi start items := by
  obtain ⟨earlier, later, rfl⟩ := List.append_of_mem hitem
  obtain ⟨hearlier, hlo, hle, hlater⟩ := tiled_append.mp h
  rw [tiledTo_append, tiledTo_cons]
  have := hearlier.le_tiledTo
  have := hlater.le_tiledTo
  omega

/-- The intervals cover everything to the number behind the last one. -/
theorem Tiled.covers (h : Tiled lo hi start items) :
    Covers lo hi start items (tiledTo hi start items) := by
  intro o hstart hend
  induction items generalizing start with
  | nil => exact absurd hend (not_lt.mpr hstart)
  | cons item rest ih =>
    obtain ⟨hlo, -, hrest⟩ := h
    by_cases hin : o ≤ hi item
    · exact ⟨item, List.mem_cons_self, hlo.trans_le hstart, hin⟩
    · rw [tiledTo_cons] at hend
      obtain ⟨other, hother, hcover⟩ := ih hrest (by omega) hend
      exact ⟨other, List.mem_cons_of_mem item hother, hcover⟩

/-- The earlier intervals cover everything below a later one. -/
theorem Tiled.covers_earlier {earlier later : List α} {item : α}
    (h : Tiled lo hi start (earlier ++ item :: later)) : Covers lo hi start earlier (lo item) := by
  obtain ⟨hearlier, hlo, -⟩ := tiled_append.mp h
  exact hlo ▸ hearlier.covers

/-- They cover nothing behind it. -/
theorem Tiled.le_of_covers (h : Tiled lo hi start items) {limit : Int}
    (hcovers : Covers lo hi start items limit) : limit ≤ tiledTo hi start items := by
  by_contra hlt
  rw [not_le] at hlt
  obtain ⟨item, hitem, -, hle⟩ := hcovers (tiledTo hi start items) h.le_tiledTo hlt
  have := (h.bounds hitem).2.2
  omega

section Covers

variable {more : List α} {limit : Int}

theorem Covers.mono (h : Covers lo hi start items limit) (hmore : ∀ item ∈ items, item ∈ more)
    {lower : Int} (hle : lower ≤ limit) : Covers lo hi start more lower := by
  intro o hstart hend
  obtain ⟨item, hitem, hcover⟩ := h o hstart (hend.trans_le hle)
  exact ⟨item, hmore item hitem, hcover⟩

/-- An interval right behind what is covered covers more. -/
theorem Covers.extend {item : α} (h : Covers lo hi start items (lo item)) (hitem : item ∈ items) :
    Covers lo hi start items (hi item + 1) := by
  intro o hstart hend
  by_cases hbefore : o < lo item
  · exact h o hstart hbefore
  · exact ⟨item, hitem, not_lt.mp hbefore, Int.lt_add_one_iff.mp hend⟩

/-- What covers up to a number and from there on covers all of it. -/
theorem Covers.trans {middle : Int} (h : Covers lo hi start items middle)
    (hnext : Covers lo hi middle items limit) : Covers lo hi start items limit := by
  intro o hstart hend
  by_cases hbefore : o < middle
  · exact h o hstart hbefore
  · exact hnext o (not_lt.mp hbefore) hend

end Covers

/-- Intervals that are each made of tiles, where the tiles of all of them are laid end to end. -/
theorem Tiled.blocks {blocks : List γ} {tiles : γ → List α} {first last : γ → Int}
    (hfirst : ∀ block ∈ blocks, (tiles block).head?.map lo = some (first block))
    (hlast : ∀ block ∈ blocks, (tiles block).getLast?.map hi = some (last block))
    (h : Tiled lo hi start (blocks.flatMap tiles)) :
    Tiled first last start blocks ∧
      tiledTo last start blocks = tiledTo hi start (blocks.flatMap tiles) := by
  induction blocks generalizing start with
  | nil => exact ⟨trivial, rfl⟩
  | cons block rest ih =>
    rw [List.forall_mem_cons] at hfirst hlast
    rw [List.flatMap_cons] at h ⊢
    obtain ⟨htiles, hrest⟩ := tiled_append.mp h
    have hend : tiledTo hi start (tiles block) = last block + 1 := by
      obtain ⟨tile, htile, heq⟩ := Option.map_eq_some_iff.mp hlast.1
      rw [tiledTo, htile, Option.map_some, Option.getD_some, heq]
    rw [hend] at hrest
    obtain ⟨hblocks, hto⟩ := ih hfirst.2 hlast.2 hrest
    refine ⟨⟨?_, ?_, hblocks⟩, ?_⟩
    · cases hblock : tiles block with
      | nil => simp [hblock] at hfirst
      | cons tile later =>
        rw [hblock] at hfirst htiles
        exact (Option.some.inj hfirst.1).symm.trans htiles.1
    · obtain ⟨tile, htile, heq⟩ := Option.map_eq_some_iff.mp hlast.1
      obtain ⟨hstart, hle, -⟩ := htiles.bounds (List.mem_of_getLast? htile)
      omega
    · rw [tiledTo_cons, tiledTo_append, hend, hto]

end RelytIngest.Foundations
