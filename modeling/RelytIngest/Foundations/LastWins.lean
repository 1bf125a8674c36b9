import Mathlib.Data.List.AList
import Mathlib.Data.List.Induction
import Mathlib.Data.List.Sort
import Mathlib.Logic.Function.Basic

/-!
# The last occurrence of every key

`lastWins key items` keeps of every key its last item, in the order of the items. It is what a map
from keys to their latest item holds (`latest_entries_perm`), and applying only the kept items as
upserts to a table gives the same table as applying all of them (`foldl_upsert_lastWins`).
-/

set_option autoImplicit false
set_option relaxedAutoImplicit false

namespace RelytIngest.Foundations

variable {α κ ρ : Type*} [DecidableEq κ]

/-- The items that no later item of the same key follows. -/
def lastWins (key : α → κ) : List α → List α
  | [] => []
  | item :: rest =>
    if ∃ later ∈ rest, key later = key item then lastWins key rest
    else item :: lastWins key rest

variable (key : α → κ)

theorem lastWins_sublist (items : List α) : (lastWins key items).Sublist items := by
  induction items with
  | nil => exact List.Sublist.refl _
  | cons item rest ih =>
    rw [lastWins]
    split_ifs
    · exact ih.cons item
    · exact ih.cons_cons item

/-- An item is kept at its place exactly when no later one has its key. -/
theorem mem_lastWins_iff (items : List α) (item : α) :
    item ∈ lastWins key items ↔
      ∃ earlier later, items = earlier ++ item :: later ∧
        ∀ other ∈ later, key other ≠ key item := by
  induction items with
  | nil => simp [lastWins]
  | cons first rest ih =>
    constructor
    · intro hmem
      rw [lastWins] at hmem
      split_ifs at hmem with hrepeated
      · obtain ⟨earlier, later, hsplit, hlast⟩ := ih.mp hmem
        exact ⟨first :: earlier, later, by rw [hsplit, List.cons_append], hlast⟩
      · rcases List.mem_cons.mp hmem with rfl | hrest
        · push Not at hrepeated
          exact ⟨[], rest, rfl, hrepeated⟩
        · obtain ⟨earlier, later, hsplit, hlast⟩ := ih.mp hrest
          exact ⟨first :: earlier, later, by rw [hsplit, List.cons_append], hlast⟩
    · rintro ⟨earlier, later, hsplit, hlast⟩
      cases earlier with
      | nil =>
        obtain ⟨rfl, rfl⟩ := List.cons.inj hsplit
        have hnot : ¬ ∃ other ∈ rest, key other = key first := by
          push Not
          exact hlast
        rw [lastWins, if_neg hnot]
        exact List.mem_cons_self
      | cons head tail =>
        obtain ⟨rfl, rfl⟩ := List.cons.inj hsplit
        have hmem := ih.mpr ⟨tail, later, rfl, hlast⟩
        rw [lastWins]
        split_ifs
        · exact hmem
        · exact List.mem_cons_of_mem _ hmem

/-- In a list ordered by `before`, an item is kept when no item after it has its key. -/
theorem mem_lastWins_iff_of_pairwise {before : α → α → Prop} {items : List α}
    (hitems : items.Pairwise before) (hasymm : ∀ first second, before first second →
      ¬ before second first) (item : α) :
    item ∈ lastWins key items ↔
      item ∈ items ∧ ∀ other ∈ items, before item other → key other ≠ key item := by
  rw [mem_lastWins_iff]
  constructor
  · rintro ⟨earlier, later, rfl, hlast⟩
    rw [List.pairwise_append] at hitems
    refine ⟨List.mem_append_right _ List.mem_cons_self, fun other hother hbefore ↦ ?_⟩
    rcases List.mem_append.mp hother with hearlier | hrest
    · exact absurd hbefore (hasymm _ _ (hitems.2.2 other hearlier item List.mem_cons_self))
    · rcases List.mem_cons.mp hrest with rfl | hlater
      · exact absurd hbefore (hasymm _ _ hbefore)
      · exact hlast other hlater
  · rintro ⟨hmem, hlast⟩
    obtain ⟨earlier, later, rfl⟩ := List.append_of_mem hmem
    rw [List.pairwise_append, List.pairwise_cons] at hitems
    exact ⟨earlier, later, rfl, fun other hother ↦
      hlast other (by simp [hother]) (hitems.2.1.1 other hother)⟩

/-- The kept items have different keys. -/
theorem pairwise_lastWins (items : List α) :
    (lastWins key items).Pairwise fun first second ↦ key first ≠ key second := by
  induction items with
  | nil => exact List.Pairwise.nil
  | cons item rest ih =>
    rw [lastWins]
    split_ifs with hrepeated
    · exact ih
    · push Not at hrepeated
      refine List.pairwise_cons.mpr ⟨fun later hlater ↦ ?_, ih⟩
      exact (hrepeated later ((lastWins_sublist key rest).subset hlater)).symm

/-- One more item replaces the one kept for its key. -/
theorem lastWins_append_singleton (items : List α) (item : α) :
    lastWins key (items ++ [item]) =
      (lastWins key items).filter (fun kept ↦ key kept ≠ key item) ++ [item] := by
  induction items with
  | nil => simp [lastWins]
  | cons first rest ih =>
    have hsplit : (∃ later ∈ rest ++ [item], key later = key first) ↔
        (∃ later ∈ rest, key later = key first) ∨ key item = key first := by
      simp [or_and_right, exists_or]
    rw [List.cons_append, lastWins, lastWins, ih]
    by_cases hrest : ∃ later ∈ rest, key later = key first
    · rw [if_pos (hsplit.mpr (Or.inl hrest)), if_pos hrest]
    · by_cases hitem : key item = key first
      · rw [if_pos (hsplit.mpr (Or.inr hitem)), if_neg hrest,
          List.filter_cons_of_neg (by simpa using hitem.symm)]
      · rw [if_neg (hsplit.not.mpr (not_or.mpr ⟨hrest, hitem⟩)), if_neg hrest,
          List.filter_cons_of_pos (by simpa using Ne.symm hitem), List.cons_append]

/-- Keys that agree on which items they identify keep the same items. -/
theorem lastWins_congr {κ' : Type*} [DecidableEq κ'] {key : α → κ} {key' : α → κ'} {items : List α}
    (hagree : ∀ first ∈ items, ∀ second ∈ items,
      key first = key second ↔ key' first = key' second) :
    lastWins key items = lastWins key' items := by
  induction items with
  | nil => rfl
  | cons item rest ih =>
    have hrest := ih fun first hfirst second hsecond ↦
      hagree first (List.mem_cons_of_mem _ hfirst) second (List.mem_cons_of_mem _ hsecond)
    have hrepeated : (∃ later ∈ rest, key later = key item) ↔
        ∃ later ∈ rest, key' later = key' item := by
      refine exists_congr fun later ↦ and_congr_right fun hlater ↦ ?_
      exact hagree later (List.mem_cons_of_mem _ hlater) item List.mem_cons_self
    rw [lastWins, lastWins, hrest]
    exact if_congr hrepeated rfl rfl

/-! ### The map of latest items -/

variable {ν : Type*} (value : α → ν)

/-- The map from each key to the value of its latest item. -/
def latest (items : List α) : AList fun _ : κ ↦ ν :=
  items.foldl (fun map item ↦ map.insert (key item) (value item)) ∅

theorem kerase_eq_filter (k : κ) {entries : List (Σ _ : κ, ν)} (hkeys : entries.NodupKeys) :
    entries.kerase k = entries.filter fun entry ↦ entry.1 ≠ k := by
  induction entries with
  | nil => rfl
  | cons entry rest ih =>
    obtain ⟨hentry, hrest⟩ := List.nodupKeys_cons.mp hkeys
    by_cases hk : k = entry.1
    · rw [List.kerase_cons_eq hk, List.filter_cons_of_neg (by simpa using hk.symm), hk]
      refine (List.filter_eq_self.mpr fun other hother ↦ ?_).symm
      have : other.1 ≠ entry.1 := fun heq ↦ hentry (heq ▸ List.mem_keys_of_mem hother)
      simpa using this
    · rw [List.kerase_cons_ne hk, List.filter_cons_of_pos (by simpa using Ne.symm hk), ih hrest]

/-- The map holds the kept items, in some order. -/
theorem latest_entries_perm (items : List α) :
    List.Perm (latest key value items).entries
      ((lastWins key items).map fun item ↦ ⟨key item, value item⟩) := by
  induction items using List.reverseRecOn with
  | nil => exact List.Perm.refl _
  | append_singleton items item ih =>
    have hstep : latest key value (items ++ [item]) =
        (latest key value items).insert (key item) (value item) := by
      simp [latest, List.foldl_append]
    rw [hstep, AList.entries_insert, kerase_eq_filter _ (latest key value items).nodupKeys,
      lastWins_append_singleton, List.map_append, List.map_singleton]
    refine (List.Perm.cons _ ?_).trans (List.perm_append_singleton _ _).symm
    have hfilter := ih.filter fun entry ↦ decide (entry.1 ≠ key item)
    rwa [List.filter_map] at hfilter

/-! ### Upserts -/

variable (row : α → ρ)

/-- A table with one item applied: the item's row replaces the one of its key. -/
def upsert (table : κ → Option ρ) (item : α) : κ → Option ρ :=
  Function.update table (key item) (some (row item))

theorem foldl_upsert_filter (items : List α) (table : κ → Option ρ) {k k' : κ} (hk : k ≠ k') :
    (items.filter fun item ↦ key item ≠ k').foldl (upsert key row) table k =
      items.foldl (upsert key row) table k := by
  induction items using List.reverseRecOn with
  | nil => rfl
  | append_singleton items item ih =>
    rw [List.filter_append, List.foldl_append, List.foldl_append]
    by_cases hitem : key item = k'
    · have hother : k ≠ key item := hitem ▸ hk
      simpa [hitem, upsert, hk] using ih
    · by_cases hsame : k = key item
      · simp [hitem, upsert, hsame]
      · simpa [hitem, upsert, hsame] using ih

/-- Applying only the kept items gives the table that applying all items gives. -/
theorem foldl_upsert_lastWins (items : List α) (table : κ → Option ρ) :
    (lastWins key items).foldl (upsert key row) table = items.foldl (upsert key row) table := by
  induction items using List.reverseRecOn with
  | nil => rfl
  | append_singleton items item ih =>
    rw [lastWins_append_singleton, List.foldl_append, List.foldl_append, List.foldl_cons,
      List.foldl_nil, List.foldl_cons, List.foldl_nil]
    funext k
    by_cases hk : k = key item
    · rw [upsert, upsert, hk, Function.update_self, Function.update_self]
    · rw [upsert, upsert, Function.update_of_ne hk, Function.update_of_ne hk,
        foldl_upsert_filter key row _ table hk, ih]

/-! ### Tables as lists of rows -/

/-- Keeping the last of each key is done on the keys alone. -/
theorem lastWins_map {γ : Type*} (f : γ → α) (items : List γ) :
    lastWins key (items.map f) = (lastWins (fun item ↦ key (f item)) items).map f := by
  induction items with
  | nil => rfl
  | cons item rest ih =>
    have hlater : (∃ later ∈ rest.map f, key later = key (f item)) ↔
        ∃ later ∈ rest, key (f later) = key (f item) := by simp
    rw [List.map_cons, lastWins, lastWins]
    by_cases hrepeated : ∃ later ∈ rest, key (f later) = key (f item)
    · rw [if_pos (hlater.mpr hrepeated), if_pos hrepeated, ih]
    · rw [if_neg (mt hlater.mp hrepeated), if_neg hrepeated, ih, List.map_cons]

/-- One item applied to a table: it comes in place of those of its key. -/
def replace (table : List α) (item : α) : List α :=
  (table.filter fun other ↦ decide (key other ≠ key item)) ++ [item]

/-- Of the items of a key, the table remembers nothing once another one comes in their place. -/
theorem filter_foldl_replace (items table : List α) (k : κ) :
    (((items.filter fun item ↦ decide (key item ≠ k)).foldl (replace key) table).filter
        fun other ↦ decide (key other ≠ k)) =
      (items.foldl (replace key) table).filter fun other ↦ decide (key other ≠ k) := by
  induction items using List.reverseRecOn with
  | nil => rfl
  | append_singleton items item ih =>
    rw [List.filter_append, List.foldl_append, List.foldl_append]
    by_cases hitem : key item = k
    · subst hitem
      simpa [replace, List.filter_filter] using ih
    · have hcomm (table : List α) :
          (table.filter fun other ↦ decide (key other ≠ key item)).filter
              (fun other ↦ decide (key other ≠ k)) =
            (table.filter fun other ↦ decide (key other ≠ k)).filter
              fun other ↦ decide (key other ≠ key item) := List.filter_comm ..
      have hkept : [item].filter (fun item ↦ decide (key item ≠ k)) = [item] := by simp [hitem]
      rw [hkept, List.foldl_cons, List.foldl_nil, List.foldl_cons, List.foldl_nil, replace, replace,
        List.filter_append, List.filter_append, hcomm, hcomm, ih]

/-- A table in which only the last item of each key is applied is the one of applying all. -/
theorem foldl_replace_lastWins (items table : List α) :
    (lastWins key items).foldl (replace key) table = items.foldl (replace key) table := by
  induction items using List.reverseRecOn with
  | nil => rfl
  | append_singleton items item ih =>
    rw [lastWins_append_singleton, List.foldl_append, List.foldl_append, List.foldl_cons,
      List.foldl_nil, List.foldl_cons, List.foldl_nil, replace, replace, filter_foldl_replace, ih]

end RelytIngest.Foundations
