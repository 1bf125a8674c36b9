import RelytIngest.Foundations.DecimalText
import Mathlib.Data.List.DropRight

/-!
# Cutting texts

`splitOnce` cuts a text at the first occurrence of a character, and `splitOnce_eq_some_iff` says
that it finds the one cut whose front has no such character. `trimMatches` takes a character off
both ends: what is left neither begins nor ends with it, and a text like that is left alone
(`trimMatches_of_edges`). `segments` are the parts of a path that are not empty, and a path is put
together from them again exactly when it has no empty part (`asDirectory_segments_eq_iff`).
-/

set_option autoImplicit false
set_option relaxedAutoImplicit false

namespace RelytIngest.Foundations

/-! ### At the first occurrence of a character -/

/-- `str::split_once` at a character. -/
def splitOnce (separator : Char) : Text → Option (Text × Text)
  | [] => none
  | c :: rest =>
    if c = separator then some ([], rest)
    else (splitOnce separator rest).map fun cut ↦ (c :: cut.1, cut.2)

theorem splitOnce_eq_none_iff {separator : Char} {text : Text} :
    splitOnce separator text = none ↔ separator ∉ text := by
  induction text with
  | nil => simp [splitOnce]
  | cons c rest ih =>
    rw [splitOnce]
    by_cases hc : c = separator
    · simp [hc]
    · rw [if_neg hc, Option.map_eq_none_iff, ih, List.mem_cons, not_or]
      exact ⟨fun h ↦ ⟨Ne.symm hc, h⟩, fun h ↦ h.2⟩

@[simp] theorem splitOnce_append {separator : Char} {front back : Text}
    (hfront : separator ∉ front) :
    splitOnce separator (front ++ separator :: back) = some (front, back) := by
  induction front with
  | nil => simp [splitOnce]
  | cons c rest ih =>
    rw [List.mem_cons, not_or] at hfront
    rw [List.cons_append, splitOnce, if_neg (Ne.symm hfront.1), ih hfront.2]
    rfl

theorem splitOnce_eq_some_iff {separator : Char} {text front back : Text} :
    splitOnce separator text = some (front, back) ↔
      text = front ++ separator :: back ∧ separator ∉ front := by
  constructor
  · intro h
    induction text generalizing front with
    | nil => simp [splitOnce] at h
    | cons c rest ih =>
      rw [splitOnce] at h
      by_cases hc : c = separator
      · rw [if_pos hc, Option.some.injEq, Prod.mk.injEq] at h
        obtain ⟨rfl, rfl⟩ := h
        exact ⟨by rw [hc, List.nil_append], List.not_mem_nil⟩
      · rw [if_neg hc, Option.map_eq_some_iff] at h
        obtain ⟨⟨front', back'⟩, hcut, hpair⟩ := h
        rw [Prod.mk.injEq] at hpair
        obtain ⟨rfl, rfl⟩ := hpair
        obtain ⟨htext, hfront⟩ := ih hcut
        rw [htext, List.cons_append]
        exact ⟨rfl, by rw [List.mem_cons, not_or]; exact ⟨Ne.symm hc, hfront⟩⟩
  · rintro ⟨rfl, hfront⟩
    exact splitOnce_append hfront

/-- `str::rsplit_once` at a character: the last occurrence cuts. -/
def rsplitOnce (separator : Char) (text : Text) : Option (Text × Text) :=
  (splitOnce separator text.reverse).map fun cut ↦ (cut.2.reverse, cut.1.reverse)

/-! ### Off the ends -/

/-- `str::trim_start_matches` of a character. -/
def trimStartMatches (c : Char) (text : Text) : Text := text.dropWhile (· == c)

/-- `str::trim_matches` of a character. -/
def trimMatches (c : Char) (text : Text) : Text := (trimStartMatches c text).rdropWhile (· == c)

/-- The text neither begins nor ends with the character. -/
def BareOf (c : Char) (text : Text) : Prop := text.head? ≠ some c ∧ text.getLast? ≠ some c

instance (c : Char) (text : Text) : Decidable (BareOf c text) :=
  inferInstanceAs (Decidable (_ ∧ _))

theorem trimStartMatches_head? (c : Char) (text : Text) :
    (trimStartMatches c text).head? ≠ some c := by
  intro hhead
  have hkept := List.head?_dropWhile_not (· == c) text
  rw [trimStartMatches] at hhead
  rw [hhead] at hkept
  simp at hkept

theorem trimStartMatches_of_head? {c : Char} {text : Text} (hhead : text.head? ≠ some c) :
    trimStartMatches c text = text :=
  List.dropWhile_beq_eq_self_of_head?_ne hhead

/-- What is left is bare of the character. -/
theorem bareOf_trimMatches (c : Char) (text : Text) : BareOf c (trimMatches c text) := by
  constructor
  · intro hhead
    obtain ⟨rest, hrest⟩ := List.rdropWhile_prefix (· == c) (trimStartMatches c text)
    refine trimStartMatches_head? c text ?_
    rw [← hrest]
    exact List.head?_append_of_ne_nil _ (List.ne_nil_of_mem (List.mem_of_mem_head? hhead)) ▸ hhead
  · intro hlast
    have hne : trimMatches c text ≠ [] := List.ne_nil_of_mem (List.mem_of_getLast? hlast)
    have hkept := List.rdropWhile_last_not (· == c) (trimStartMatches c text) hne
    rw [List.getLast?_eq_some_getLast hne, Option.some.injEq] at hlast
    exact hkept (beq_iff_eq.mpr hlast)

/-- A text that is bare of the character is left alone. -/
theorem trimMatches_of_edges {c : Char} {text : Text} (h : BareOf c text) :
    trimMatches c text = text := by
  rw [trimMatches, trimStartMatches_of_head? h.1, List.rdropWhile_eq_self_iff]
  intro hne hlast
  refine h.2 ?_
  rw [List.getLast?_eq_some_getLast hne, beq_iff_eq.mp hlast]

@[simp] theorem trimMatches_trimMatches (c : Char) (text : Text) :
    trimMatches c (trimMatches c text) = trimMatches c text :=
  trimMatches_of_edges (bareOf_trimMatches c text)

/-! ### The segments of a path -/

/-- The parts between the slashes that are not empty. -/
def segments (path : Text) : List Text := (path.splitOn '/').filter fun segment ↦ segment ≠ []

/-- Each segment with a slash behind it. -/
def asDirectory (parts : List Text) : Text := parts.flatMap fun part ↦ part ++ ['/']

theorem asDirectory_splitOn (path : Text) : asDirectory (path.splitOn '/') = path ++ ['/'] := by
  induction path with
  | nil => rfl
  | cons c rest ih =>
    rw [List.splitOn_cons_eq_if_modifyHead]
    by_cases hc : c = '/'
    · rw [if_pos (beq_iff_eq.mpr hc), hc]
      exact congrArg (List.cons '/') ih
    · rw [if_neg (by simpa using hc)]
      cases hparts : rest.splitOn '/' with
      | nil => exact absurd hparts (List.splitOn_ne_nil _ _)
      | cons part parts =>
        rw [hparts] at ih
        exact congrArg (List.cons c) ih

/-- Slashes around a path add no segment. -/
theorem segments_between (path : Text) : segments ('/' :: (path ++ ['/'])) = segments path := by
  have hfront : '/' :: (path ++ ['/']) = [] ++ '/' :: (path ++ '/' :: []) := rfl
  unfold segments
  rw [hfront, List.splitOn_append_cons_self, List.splitOn_append_cons_self, List.splitOn_nil]
  simp

/-- Leaving out the empty parts leaves out their slashes. -/
theorem length_asDirectory_filter (parts : List Text) :
    (asDirectory (parts.filter fun part ↦ part ≠ [])).length + parts.count [] =
      (asDirectory parts).length := by
  induction parts with
  | nil => rfl
  | cons part parts ih =>
    unfold asDirectory at ih ⊢
    by_cases hempty : part = []
    · subst hempty
      simp only [List.filter_cons, List.count_cons_self, List.flatMap_cons, List.length_append,
        ne_eq, not_true_eq_false, decide_false, Bool.false_eq_true, if_false, List.length_nil,
        List.length_singleton] at ih ⊢
      omega
    · simp only [List.filter_cons, List.count_cons_of_ne hempty, List.flatMap_cons,
        List.length_append, ne_eq, hempty, not_false_eq_true, decide_true, if_true] at ih ⊢
      omega

theorem length_asDirectory_segments_le (path : Text) :
    (asDirectory (segments path)).length ≤ path.length + 1 := by
  have hlength := length_asDirectory_filter (path.splitOn '/')
  rw [asDirectory_splitOn, List.length_append, List.length_singleton] at hlength
  exact Nat.le.intro hlength

/-- The segments make up the path exactly when none of its parts is empty. -/
theorem asDirectory_segments_eq_iff (path : Text) :
    asDirectory (segments path) = path ++ ['/'] ↔ [] ∉ path.splitOn '/' := by
  constructor
  · intro heq hmem
    have hlength := length_asDirectory_filter (path.splitOn '/')
    have hcount := List.count_pos_iff.mpr hmem
    rw [asDirectory_splitOn, ← heq] at hlength
    unfold segments at hlength
    omega
  · intro hnone
    have hall : segments path = path.splitOn '/' := by
      refine List.filter_eq_self.mpr fun part hpart ↦ ?_
      rw [decide_eq_true_eq]
      rintro rfl
      exact hnone hpart
    rw [hall, asDirectory_splitOn]

end RelytIngest.Foundations
