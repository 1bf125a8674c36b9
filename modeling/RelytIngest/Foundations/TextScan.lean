import RelytIngest.Foundations.TextCut

/-!
# Scanning texts

`findText` is the first place where a text occurs in another one. A scan goes through a text from
the front: in each round it writes something out and is left with the rest, until a round has
nothing to do and writes what is left as it stands. When every round leaves a shorter text, a scan
is its first round followed by the scan of the rest (`scan_of_some`), and a property of texts
follows from one round (`scan_induct`).
-/

set_option autoImplicit false
set_option relaxedAutoImplicit false

namespace RelytIngest.Foundations

/-! ### Characters -/

/-- `char::is_whitespace`: the characters with the property `White_Space`. -/
def isWhitespace (c : Char) : Bool :=
  (9 ≤ c.toNat && c.toNat ≤ 13) || (0x2000 ≤ c.toNat && c.toNat ≤ 0x200A) ||
    c.toNat ∈ [0x20, 0x85, 0xA0, 0x1680, 0x2028, 0x2029, 0x202F, 0x205F, 0x3000]

/-- `str::to_ascii_lowercase`. -/
def asciiLowercase (text : Text) : Text := text.map Char.toLower

@[simp] theorem asciiLowercase_append (front back : Text) :
    asciiLowercase (front ++ back) = asciiLowercase front ++ asciiLowercase back :=
  List.map_append

@[simp] theorem length_asciiLowercase (text : Text) : (asciiLowercase text).length = text.length :=
  List.length_map _

/-! ### Up to a character that stops -/

theorem takeWhile_append_stop {p : Char → Bool} {stop : Char} (hstop : p stop = false)
    (front back : Text) : (front ++ stop :: back).takeWhile p = front.takeWhile p := by
  induction front with
  | nil => rw [List.nil_append, List.takeWhile_cons, hstop, List.takeWhile_nil]; rfl
  | cons c rest ih => rw [List.cons_append, List.takeWhile_cons, List.takeWhile_cons, ih]

theorem dropWhile_append_stop {p : Char → Bool} {stop : Char} (hstop : p stop = false)
    (front back : Text) :
    (front ++ stop :: back).dropWhile p = front.dropWhile p ++ stop :: back := by
  induction front with
  | nil => rw [List.nil_append, List.dropWhile_cons, hstop, List.dropWhile_nil]; rfl
  | cons c rest ih =>
    rw [List.cons_append, List.dropWhile_cons, List.dropWhile_cons, ih]
    by_cases hc : p c
    · rw [if_pos hc, if_pos hc]
    · rw [if_neg hc, if_neg hc, List.cons_append]

/-! ### The first occurrence of a text -/

/-- A text without the character cannot reach over it. -/
theorem prefix_append_stop_iff {needle front back : Text} {stop : Char} (hstop : stop ∉ needle) :
    needle <+: front ++ stop :: back ↔ needle <+: front := by
  refine ⟨?_, fun h ↦ h.trans (List.prefix_append _ _)⟩
  rintro ⟨rest, hrest⟩
  rcases List.append_eq_append_iff.mp hrest with ⟨more, hfront, -⟩ | ⟨more, hneedle, hmore⟩
  · exact ⟨more, hfront.symm⟩
  · cases more with
    | nil => exact ⟨[], by rw [hneedle, List.append_nil, List.append_nil]⟩
    | cons c more =>
      rw [List.cons_append, List.cons.injEq] at hmore
      exact absurd (hneedle ▸ List.mem_append_right _ (hmore.1 ▸ List.mem_cons_self)) hstop

/-- It occurs in front of the character or behind it. -/
theorem prefix_drop_append_stop_iff {needle front back : Text} {stop : Char}
    (hstop : stop ∉ needle) (hne : needle ≠ []) (i : Nat) :
    needle <+: (front ++ stop :: back).drop i ↔
      needle <+: front.drop i ∨ ∃ j, i = front.length + 1 + j ∧ needle <+: back.drop j := by
  by_cases hi : i ≤ front.length
  · rw [List.drop_append_of_le_length hi, prefix_append_stop_iff hstop]
    refine ⟨Or.inl, ?_⟩
    rintro (h | ⟨j, rfl, -⟩)
    · exact h
    · omega
  · obtain ⟨j, rfl⟩ : ∃ j, i = front.length + 1 + j := ⟨i - (front.length + 1), by omega⟩
    have hfront : front.drop (front.length + 1 + j) = [] := List.drop_eq_nil_of_le (by omega)
    have hback : front.length + 1 + j - front.length = j + 1 := by omega
    rw [List.drop_append, hfront, hback, List.nil_append, List.drop_succ_cons]
    constructor
    · exact fun h ↦ Or.inr ⟨j, rfl, h⟩
    · rintro (h | ⟨k, hk, h⟩)
      · exact absurd (List.prefix_nil.mp h) hne
      · exact (Nat.add_left_cancel hk : j = k) ▸ h

/-- `str::find` of a text. -/
def findText (needle text : Text) : Option Nat :=
  (List.range (text.length + 1)).find? fun i ↦ needle.isPrefixOf (text.drop i)

theorem findText_eq_none_iff {needle text : Text} :
    findText needle text = none ↔ ∀ i, ¬needle <+: text.drop i := by
  simp only [findText, List.find?_eq_none, List.mem_range, Nat.lt_succ_iff,
    List.isPrefixOf_iff_prefix]
  refine ⟨fun h i ↦ ?_, fun h i _ ↦ h i⟩
  by_cases hi : i ≤ text.length
  · exact h i hi
  · rw [List.drop_eq_nil_of_le (Nat.le_of_not_le hi), ← List.drop_length (l := text)]
    exact h text.length le_rfl

theorem findText_eq_some_iff {needle text : Text} {i : Nat} :
    findText needle text = some i ↔ needle <+: text.drop i ∧ ∀ j < i, ¬needle <+: text.drop j := by
  simp only [findText, List.find?_range_eq_some, List.mem_range, Nat.lt_succ_iff, Bool.not_eq_true',
    ← Bool.not_eq_true, List.isPrefixOf_iff_prefix]
  refine ⟨fun h ↦ ⟨h.1, h.2.2⟩, fun h ↦ ⟨h.1, ?_, h.2⟩⟩
  by_contra hlong
  refine h.2 text.length (Nat.lt_of_not_le hlong) ?_
  rw [List.drop_length, ← List.drop_eq_nil_of_le (Nat.le_of_not_le hlong)]
  exact h.1

/-- What is appended does not move the first occurrence. -/
theorem findText_append {needle front : Text} {i : Nat} (hne : needle ≠ [])
    (h : findText needle front = some i) (back : Text) :
    findText needle (front ++ back) = some i := by
  obtain ⟨hhere, hearliest⟩ := findText_eq_some_iff.mp h
  have hlength := hhere.length_le
  have hpos := List.length_pos_iff.mpr hne
  rw [List.length_drop] at hlength
  refine findText_eq_some_iff.mpr ⟨?_, fun j hj hthere ↦ hearliest j hj ?_⟩
  · rw [List.drop_append_of_le_length (by omega)]
    exact hhere.trans (List.prefix_append _ _)
  · rw [List.drop_append_of_le_length (by omega)] at hthere
    refine List.prefix_of_prefix_length_le hthere (List.prefix_append _ _) ?_
    rw [List.length_drop]
    omega

/-! ### Round by round -/

/-- A round that writes something out leaves a shorter text. -/
def Shortens (next : Text → Option (Text × Text)) : Prop :=
  ∀ text out rest, next text = some (out, rest) → rest.length < text.length

def scanRounds (next : Text → Option (Text × Text)) : Nat → Text → Text
  | 0, text => text
  | rounds + 1, text =>
    match next text with
    | none => text
    | some (out, rest) => out ++ scanRounds next rounds rest

/-- The text has no more rounds than characters. -/
def scan (next : Text → Option (Text × Text)) (text : Text) : Text :=
  scanRounds next text.length text

variable {next : Text → Option (Text × Text)}

theorem Shortens.next_nil (hnext : Shortens next) : next [] = none := by
  cases h : next [] with
  | none => rfl
  | some round => exact absurd (hnext [] round.1 round.2 h) (Nat.not_lt_zero _)

/-- More rounds than characters change nothing. -/
theorem scanRounds_eq_scan (hnext : Shortens next) {rounds : Nat} {text : Text}
    (hrounds : text.length ≤ rounds) : scanRounds next rounds text = scan next text := by
  suffices henough : ∀ m n, text.length ≤ m → text.length ≤ n →
      scanRounds next m text = scanRounds next n text from henough _ _ hrounds le_rfl
  clear hrounds
  intro m
  induction m generalizing text with
  | zero =>
    intro n hm hn
    rw [List.length_eq_zero_iff.mp (Nat.le_zero.mp hm)]
    cases n with
    | zero => rfl
    | succ n => rw [scanRounds, scanRounds, hnext.next_nil]
  | succ m ih =>
    intro n hm hn
    cases n with
    | zero =>
      rw [List.length_eq_zero_iff.mp (Nat.le_zero.mp hn), scanRounds, scanRounds, hnext.next_nil]
    | succ n =>
      rw [scanRounds, scanRounds]
      cases h : next text with
      | none => rfl
      | some round =>
        have hshort := hnext text round.1 round.2 h
        exact congrArg (round.1 ++ ·) (ih n (by omega) (by omega))

theorem scan_of_none (hnext : Shortens next) {text : Text} (h : next text = none) :
    scan next text = text := by
  rw [← scanRounds_eq_scan hnext (Nat.le_succ text.length), scanRounds, h]

theorem scan_of_some (hnext : Shortens next) {text out rest : Text}
    (h : next text = some (out, rest)) : scan next text = out ++ scan next rest := by
  have hshort := hnext text out rest h
  rw [← scanRounds_eq_scan hnext (Nat.le_succ text.length), scanRounds, h]
  exact congrArg (out ++ ·) (scanRounds_eq_scan hnext (Nat.le_of_lt hshort))

/-- What a scan leaves alone has the property, and a round hands it on from the rest. -/
theorem scan_induct (hnext : Shortens next) {motive : Text → Prop}
    (hnone : ∀ text, next text = none → motive text)
    (hsome : ∀ text out rest, next text = some (out, rest) → motive rest → motive text)
    (text : Text) : motive text := by
  induction hlength : text.length using Nat.strong_induction_on generalizing text with
  | _ n ih =>
    subst hlength
    cases h : next text with
    | none => exact hnone text h
    | some round =>
      exact hsome text round.1 round.2 h (ih _ (hnext text round.1 round.2 h) round.2 rfl)

end RelytIngest.Foundations
