import RelytIngest.Config.Staging
import RelytIngest.Foundations.TextScan
import Mathlib.Data.Bool.AllAny
import Mathlib.Data.List.MinMax

/-!
# Masking the job options

The options of a job are a flat list of `k=v` that carries both credentials of the staging location.
`maskOptions` shows such a list in a log with its credential values masked, each up to the first
comma, quote or whitespace. The list is masked value by value and nothing else of it is altered
(`maskOptions_buildCopyOptions`); `options_masked_exactly` says which of the credentials that are
accepted are masked as a whole.
-/

set_option autoImplicit false
set_option relaxedAutoImplicit false

namespace RelytIngest

open Foundations

/-! ### The options and their mask -/

/-- `mask_secret`: the middle is hidden behind a mask of one length. -/
def maskSecret (v : Text) : Text :=
  let n := v.length
  if n ≤ 8 then "******".toList
  else
    let keep := if n ≤ 15 then 2 else 3
    v.take keep ++ ("***".toList ++ v.drop (n - keep))

/-- `build_copy_options`. -/
def buildCopyOptions (accessKeyId secretAccessKey : Text) (delimiter : Char) (upsert : Bool) :
    Text :=
  "access_key_id=".toList ++ accessKeyId ++ ",secret_access_key=".toList ++ secretAccessKey ++
    ",format=csv,header=true,delimiter=\"".toList ++ [delimiter, '"'] ++
    if upsert then ",mode=upsert".toList else []

/-- The keys whose values `mask_options` masks. -/
def KEYS : List Text := ["access_key_id".toList, "secret_access_key".toList]

/-- The quotes and the whitespace that may open a value. -/
def opensValue (c : Char) : Bool := c == '\'' || c == '"' || isWhitespace c

def endsValue (c : Char) : Bool := c == ',' || c == '\'' || c == '"' || isWhitespace c

/-- The earliest occurrence of a key, in any case, and the length of the key. -/
def firstKey (text : Text) : Option (Nat × Nat) :=
  (KEYS.filterMap fun key ↦
    (findText key (asciiLowercase text)).map fun i ↦ (i, key.length)).argmin Prod.fst

/-- What `mask_options` pushes behind a key, and what is left. The quotes and the whitespace that
open the value are kept. -/
def maskAssigned (afterKey : Text) : Text × Text :=
  match splitOnce '=' afterKey with
  | some (gap, afterEq) =>
    if gap.all isWhitespace then
      let valueStart := afterEq.dropWhile opensValue
      (gap ++ '=' :: (afterEq.takeWhile opensValue ++
          maskSecret (valueStart.takeWhile fun c ↦ !endsValue c)),
        valueStart.dropWhile fun c ↦ !endsValue c)
    else ([], afterKey)
  | none => ([], afterKey)

/-- One round of the loop of `mask_options`. -/
def nextOption (text : Text) : Option (Text × Text) :=
  (firstKey text).map fun (i, klen) ↦
    let (out, rest) := maskAssigned (text.drop (i + klen))
    (text.take (i + klen) ++ out, rest)

/-- `mask_options`. -/
def maskOptions (options : Text) : Text := scan nextOption options

/-! ### The earliest key -/

/-- The key occurs at the place, and no key occurs before it. -/
structure FirstKeyAt (text : Text) (i : Nat) (key : Text) : Prop where
  known : key ∈ KEYS
  here : key <+: (asciiLowercase text).drop i
  earliest : ∀ other ∈ KEYS, ∀ j < i, ¬other <+: (asciiLowercase text).drop j

theorem access_key_id_mem : "access_key_id".toList ∈ KEYS := List.mem_cons_self

theorem secret_access_key_mem : "secret_access_key".toList ∈ KEYS :=
  List.mem_cons_of_mem _ List.mem_cons_self

theorem key_length {key : Text} (hkey : key ∈ KEYS) : 13 ≤ key.length := by
  revert key
  decide

theorem key_ne_nil {key : Text} (hkey : key ∈ KEYS) : key ≠ [] := by
  revert key
  decide

theorem comma_not_mem_key {key : Text} (hkey : key ∈ KEYS) : ',' ∉ key := by
  revert key
  decide

theorem two_underscores {key : Text} (hkey : key ∈ KEYS) : 2 ≤ key.count '_' := by
  revert key
  decide

/-- Two keys never begin at one place. -/
theorem key_unique {key other text : Text} (hkey : key ∈ KEYS) (hother : other ∈ KEYS)
    (hhere : key <+: text) (hthere : other <+: text) : key = other := by
  have hheads : ∀ key ∈ KEYS, ∀ other ∈ KEYS, key.head? = other.head? → key = other := by decide
  refine hheads key hkey other hother ?_
  have hhead {front : Text} (hfront : front ∈ KEYS) (hbegins : front <+: text) :
      front.head? = text.head? := by
    obtain ⟨back, rfl⟩ := hbegins
    refine (List.head?_append_of_ne_nil _ fun hnil ↦ ?_).symm
    have hlength := key_length hfront
    rw [hnil] at hlength
    exact absurd hlength (by decide)
  rw [hhead hkey hhere, hhead hother hthere]

theorem firstKey_eq_none_iff {text : Text} :
    firstKey text = none ↔ ∀ key ∈ KEYS, ∀ i, ¬key <+: (asciiLowercase text).drop i := by
  simp only [firstKey, List.argmin_eq_none, List.filterMap_eq_nil_iff, Option.map_eq_none_iff,
    findText_eq_none_iff]

theorem firstKey_eq_some_iff {text : Text} {i klen : Nat} :
    firstKey text = some (i, klen) ↔ ∃ key, FirstKeyAt text i key ∧ klen = key.length := by
  have hmem {hit : Nat × Nat} (h : firstKey text = some hit) :
      ∃ key, FirstKeyAt text hit.1 key ∧ hit.2 = key.length := by
    have hhit := List.argmin_mem (Option.mem_def.mpr h)
    obtain ⟨key, hkey, hfound⟩ := List.mem_filterMap.mp hhit
    obtain ⟨i, hfind, rfl⟩ := Option.map_eq_some_iff.mp hfound
    refine ⟨key, ⟨hkey, (findText_eq_some_iff.mp hfind).1, fun other hother j hj hthere ↦ ?_⟩, rfl⟩
    cases hfirst : findText other (asciiLowercase text) with
    | none => exact findText_eq_none_iff.mp hfirst j hthere
    | some k =>
      have hk : k ≤ j := Nat.le_of_not_lt fun h ↦ (findText_eq_some_iff.mp hfirst).2 j h hthere
      have hin : (k, other.length) ∈ KEYS.filterMap fun key ↦
          (findText key (asciiLowercase text)).map fun i ↦ (i, key.length) :=
        List.mem_filterMap.mpr ⟨other, hother, by rw [hfirst]; rfl⟩
      have hle : i ≤ k := List.le_of_mem_argmin hin (Option.mem_def.mpr h)
      omega
  refine ⟨fun h ↦ hmem h, ?_⟩
  rintro ⟨key, hat, rfl⟩
  cases h : firstKey text with
  | none => exact absurd hat.here (firstKey_eq_none_iff.mp h key hat.known i)
  | some hit =>
    obtain ⟨other, hother, hlength⟩ := hmem h
    have hle := Nat.le_of_not_lt fun hlt ↦ hother.earliest key hat.known i hlt hat.here
    have hge := Nat.le_of_not_lt fun hlt ↦ hat.earliest other hother.known hit.1 hlt hother.here
    have hplace : hit.1 = i := le_antisymm hle hge
    have hsame := key_unique hat.known hother.known hat.here (hplace ▸ hother.here)
    rw [Option.some.injEq, Prod.ext_iff]
    exact ⟨hplace, by rw [hlength, hsame]⟩

theorem FirstKeyAt.firstKey_eq {text key : Text} {i : Nat} (hat : FirstKeyAt text i key) :
    firstKey text = some (i, key.length) :=
  firstKey_eq_some_iff.mpr ⟨key, hat, rfl⟩

/-- The key lies within the text. -/
theorem FirstKeyAt.le_length {text key : Text} {i : Nat} (hat : FirstKeyAt text i key) :
    i + key.length ≤ text.length := by
  have hlength := hat.here.length_le
  have hkey := key_length hat.known
  rw [List.length_drop, length_asciiLowercase] at hlength
  omega

/-- A key in front of a comma is still the earliest one. -/
theorem FirstKeyAt.append_comma {front key : Text} {i : Nat} (hat : FirstKeyAt front i key)
    (back : Text) : FirstKeyAt (front ++ ',' :: back) i key := by
  have hplace := hat.le_length
  have hlower : asciiLowercase (',' :: back) = ',' :: asciiLowercase back := rfl
  refine ⟨hat.known, ?_, fun other hother j hj ↦ ?_⟩
  · rw [asciiLowercase_append, hlower,
      prefix_drop_append_stop_iff (comma_not_mem_key hat.known) (key_ne_nil hat.known)]
    exact Or.inl hat.here
  · rw [asciiLowercase_append, hlower,
      prefix_drop_append_stop_iff (comma_not_mem_key hother) (key_ne_nil hother), not_or]
    refine ⟨hat.earliest other hother j hj, ?_⟩
    rintro ⟨k, rfl, -⟩
    rw [length_asciiLowercase] at hj
    omega

/-- Without a key in front of the comma, the keys are those behind it. -/
theorem firstKey_behind_comma {front : Text} (hfront : firstKey front = none) (back : Text) :
    firstKey (front ++ ',' :: back) =
      (firstKey back).map fun hit ↦ (front.length + 1 + hit.1, hit.2) := by
  have hlower : asciiLowercase (',' :: back) = ',' :: asciiLowercase back := rfl
  have hoccurs {key : Text} (hkey : key ∈ KEYS) (i : Nat) :
      key <+: (asciiLowercase (front ++ ',' :: back)).drop i ↔
        ∃ j, i = front.length + 1 + j ∧ key <+: (asciiLowercase back).drop j := by
    rw [asciiLowercase_append, hlower,
      prefix_drop_append_stop_iff (comma_not_mem_key hkey) (key_ne_nil hkey),
      length_asciiLowercase]
    exact or_iff_right (firstKey_eq_none_iff.mp hfront key hkey i)
  cases h : firstKey back with
  | none =>
    refine firstKey_eq_none_iff.mpr fun key hkey i hhere ↦ ?_
    obtain ⟨j, -, hthere⟩ := (hoccurs hkey i).mp hhere
    exact firstKey_eq_none_iff.mp h key hkey j hthere
  | some hit =>
    obtain ⟨key, hat, hlength⟩ := firstKey_eq_some_iff.mp h
    refine firstKey_eq_some_iff.mpr ⟨key, ⟨hat.known, ?_, fun other hother j hj hhere ↦ ?_⟩,
      hlength⟩
    · exact (hoccurs hat.known _).mpr ⟨hit.1, rfl, hat.here⟩
    · obtain ⟨k, rfl, hthere⟩ := (hoccurs hother j).mp hhere
      exact hat.earliest other hother k (by omega) hthere

/-! ### One round -/

@[simp] theorem comma_not_opens : opensValue ',' = false := by decide

/-- A comma ends what is masked behind a key. -/
theorem maskAssigned_append_comma (front back : Text) :
    maskAssigned (front ++ ',' :: back) =
      ((maskAssigned front).1, (maskAssigned front).2 ++ ',' :: back) := by
  unfold maskAssigned
  cases h : splitOnce '=' front with
  | some cut =>
    obtain ⟨gap, afterEq⟩ := cut
    obtain ⟨rfl, hgap⟩ := splitOnce_eq_some_iff.mp h
    rw [List.append_assoc, List.cons_append, splitOnce_append hgap]
    by_cases hblank : gap.all isWhitespace
    · have hends : (!endsValue ',') = false := by decide
      simp only [hblank, if_true, takeWhile_append_stop comma_not_opens,
        dropWhile_append_stop comma_not_opens,
        takeWhile_append_stop (p := fun c ↦ !endsValue c) hends,
        dropWhile_append_stop (p := fun c ↦ !endsValue c) hends]
    · simp only [hblank, Bool.false_eq_true, if_false, List.append_assoc, List.cons_append]
  | none =>
    -- the first equals sign, if any, is behind the comma, so the gap is not blank
    cases hcut : splitOnce '=' (front ++ ',' :: back) with
    | none => rfl
    | some cut =>
      obtain ⟨gap, afterEq⟩ := cut
      obtain ⟨htext, hgap⟩ := splitOnce_eq_some_iff.mp hcut
      have hcomma : ',' ∈ gap := by
        rcases List.append_eq_append_iff.mp htext with ⟨more, rfl, hmore⟩ | ⟨more, rfl, hmore⟩
        · cases more with
          | nil => exact absurd (List.cons.inj hmore).1 (by decide)
          | cons c more =>
            rw [List.cons_append, List.cons.injEq] at hmore
            exact List.mem_append_right _ (hmore.1 ▸ List.mem_cons_self)
        · refine absurd ?_ (splitOnce_eq_none_iff.mp h)
          cases more with
          | nil => exact absurd (List.cons.inj hmore).1 (by decide)
          | cons c more =>
            rw [List.cons_append, List.cons.injEq] at hmore
            exact List.mem_append_right _ (hmore.1 ▸ List.mem_cons_self)
      have hblank : gap.all isWhitespace = false :=
        Bool.eq_false_iff.mpr fun hall ↦
          absurd (List.all_eq_true.mp hall ',' hcomma) (by decide)
      simp only [hblank, Bool.false_eq_true, if_false]

theorem length_maskSecret (v : Text) : 6 ≤ (maskSecret v).length ∧ (maskSecret v).length ≤ 9 := by
  simp only [maskSecret]
  split_ifs <;> simp only [List.length_append, List.length_take, List.length_drop,
    show "******".toList.length = 6 from rfl, show "***".toList.length = 3 from rfl] <;> omega

/-- A round shows the key alone, or an assignment with a mask in it. -/
theorem maskAssigned_cases (afterKey : Text) :
    maskAssigned afterKey = ([], afterKey) ∨ 7 ≤ (maskAssigned afterKey).1.length ∧
      (maskAssigned afterKey).2.length ≤ afterKey.length := by
  unfold maskAssigned
  split
  · next gap afterEq hcut =>
    obtain ⟨rfl, -⟩ := splitOnce_eq_some_iff.mp hcut
    split
    · refine Or.inr ⟨?_, ?_⟩
      · have hmask := (length_maskSecret
          ((afterEq.dropWhile opensValue).takeWhile fun c ↦ !endsValue c)).1
        simp only [List.length_append, List.length_cons]
        omega
      · have hinner := (List.dropWhile_sublist (fun c ↦ !endsValue c)
          (l := afterEq.dropWhile opensValue)).length_le
        have houter := (List.dropWhile_sublist opensValue (l := afterEq)).length_le
        simp only [List.length_append, List.length_cons]
        omega
    · exact Or.inl rfl
  · exact Or.inl rfl

theorem nextOption_eq_none_iff {text : Text} : nextOption text = none ↔ firstKey text = none :=
  Option.map_eq_none_iff

theorem FirstKeyAt.nextOption_eq {text key : Text} {i : Nat} (hat : FirstKeyAt text i key) :
    nextOption text = some (text.take (i + key.length) ++
      (maskAssigned (text.drop (i + key.length))).1,
        (maskAssigned (text.drop (i + key.length))).2) := by
  rw [nextOption, hat.firstKey_eq]
  rfl

/-- A round that finds a key. -/
theorem nextOption_cases {text out rest : Text} (h : nextOption text = some (out, rest)) :
    ∃ i key, FirstKeyAt text i key ∧ out = text.take (i + key.length) ++
      (maskAssigned (text.drop (i + key.length))).1 ∧
        rest = (maskAssigned (text.drop (i + key.length))).2 := by
  obtain ⟨⟨i, klen⟩, hhit, -⟩ := Option.map_eq_some_iff.mp h
  obtain ⟨key, hat, -⟩ := firstKey_eq_some_iff.mp hhit
  rw [hat.nextOption_eq, Option.some.injEq, Prod.mk.injEq] at h
  exact ⟨i, key, hat, h.1.symm, h.2.symm⟩

theorem shortens_nextOption : Shortens nextOption := by
  intro text out rest h
  obtain ⟨i, key, hat, -, rfl⟩ := nextOption_cases h
  have hkey := key_length hat.known
  have hplace := hat.le_length
  have hdrop : (text.drop (i + key.length)).length = text.length - (i + key.length) :=
    List.length_drop
  rcases maskAssigned_cases (text.drop (i + key.length)) with hcase | ⟨-, hcase⟩
  · simp only [hcase, hdrop]
    omega
  · omega

/-! ### All rounds -/

theorem maskOptions_of_none {text : Text} (h : firstKey text = none) : maskOptions text = text :=
  scan_of_none shortens_nextOption (nextOption_eq_none_iff.mpr h)

theorem FirstKeyAt.maskOptions_eq {text key : Text} {i : Nat} (hat : FirstKeyAt text i key) :
    maskOptions text = text.take (i + key.length) ++
      ((maskAssigned (text.drop (i + key.length))).1 ++
        maskOptions (maskAssigned (text.drop (i + key.length))).2) := by
  rw [maskOptions, scan_of_some shortens_nextOption hat.nextOption_eq, List.append_assoc]
  rfl

/-- The parts of a list are masked on their own. -/
theorem maskOptions_append_comma (front back : Text) :
    maskOptions (front ++ ',' :: back) = maskOptions front ++ ',' :: maskOptions back := by
  induction front using scan_induct shortens_nextOption with
  | hnone front h =>
    have hfront := nextOption_eq_none_iff.mp h
    rw [maskOptions_of_none hfront]
    cases hback : firstKey back with
    | none =>
      have hwhole := firstKey_behind_comma hfront back
      rw [hback] at hwhole
      rw [maskOptions_of_none hback, maskOptions_of_none hwhole]
    | some hit =>
      obtain ⟨i, klen⟩ := hit
      have hwhole := firstKey_behind_comma hfront back
      rw [hback, Option.map_some] at hwhole
      obtain ⟨key, hat, rfl⟩ := firstKey_eq_some_iff.mp hback
      obtain ⟨other, hother, hlength⟩ := firstKey_eq_some_iff.mp hwhole
      have hplace : front.length + 1 + i + other.length = front.length + (i + key.length + 1) := by
        omega
      rw [hother.maskOptions_eq, hat.maskOptions_eq, hplace, List.take_length_add_append,
        List.drop_length_add_append, List.take_succ_cons, List.drop_succ_cons, List.append_assoc,
        List.cons_append]
  | hsome front out rest h ih =>
    obtain ⟨i, key, hat, rfl, rfl⟩ := nextOption_cases h
    rw [(hat.append_comma back).maskOptions_eq, hat.maskOptions_eq,
      List.take_append_of_le_length hat.le_length, List.drop_append_of_le_length hat.le_length,
      maskAssigned_append_comma]
    simp only [ih, List.append_assoc]

/-- A text is shown as it is, or with a mask behind a key. -/
theorem maskOptions_cases (text : Text) :
    maskOptions text = text ∨ 20 ≤ (maskOptions text).length := by
  induction text using scan_induct shortens_nextOption with
  | hnone text h => exact Or.inl (maskOptions_of_none (nextOption_eq_none_iff.mp h))
  | hsome text out rest h ih =>
    obtain ⟨i, key, hat, rfl, rfl⟩ := nextOption_cases h
    have hkey := key_length hat.known
    have hplace := hat.le_length
    have htake : (text.take (i + key.length)).length = i + key.length :=
      List.length_take_of_le hplace
    rw [hat.maskOptions_eq]
    simp only [List.length_append, htake]
    rcases maskAssigned_cases (text.drop (i + key.length)) with hcase | ⟨hmask, -⟩
    · rw [hcase] at ih ⊢
      rcases ih with hsame | hlong
      · exact Or.inl (by rw [hsame, List.nil_append, List.take_append_drop])
      · exact Or.inr (le_trans hlong (by omega))
    · exact Or.inr (by omega)

/-- No key fits into a text that short. -/
theorem maskOptions_of_short {text : Text} (hshort : text.length < 13) :
    maskOptions text = text := by
  refine maskOptions_of_none (firstKey_eq_none_iff.mpr fun key hkey i hhere ↦ ?_)
  have hlength := hhere.length_le
  have hkey := key_length hkey
  rw [List.length_drop, length_asciiLowercase] at hlength
  omega

/-- Both keys have two underscores. -/
theorem maskOptions_of_count {text : Text} (hcount : (asciiLowercase text).count '_' < 2) :
    maskOptions text = text := by
  refine maskOptions_of_none (firstKey_eq_none_iff.mpr fun key hkey i hhere ↦ ?_)
  have hkey := two_underscores hkey
  have hle := (hhere.sublist.trans (List.drop_sublist _ _)).count_le '_'
  omega

/-- No comma comes from masking. -/
theorem comma_not_mem_maskSecret {v : Text} (hcomma : ',' ∉ v) : ',' ∉ maskSecret v := by
  have htake (n : Nat) : ',' ∉ v.take n := fun h ↦ hcomma (List.mem_of_mem_take h)
  have hdrop (n : Nat) : ',' ∉ v.drop n := fun h ↦ hcomma (List.mem_of_mem_drop h)
  have hstars : ',' ∉ "***".toList := by decide
  simp only [maskSecret]
  split
  · decide
  · rw [List.mem_append, List.mem_append]
    exact fun h ↦ h.elim (htake _) fun h ↦ h.elim hstars (hdrop _)

theorem comma_not_mem_maskAssigned {text : Text} (hcomma : ',' ∉ text) :
    ',' ∉ (maskAssigned text).1 ∧ ',' ∉ (maskAssigned text).2 := by
  unfold maskAssigned
  split
  · next gap afterEq hcut =>
    obtain ⟨rfl, -⟩ := splitOnce_eq_some_iff.mp hcut
    rw [List.mem_append, List.mem_cons, not_or, not_or] at hcomma
    obtain ⟨hgap, -, hafter⟩ := hcomma
    split
    · have hstart : ',' ∉ afterEq.dropWhile opensValue := fun h ↦
        hafter ((List.dropWhile_sublist _).subset h)
      have hvalue : ',' ∉ (afterEq.dropWhile opensValue).takeWhile fun c ↦ !endsValue c := fun h ↦
        hstart ((List.takeWhile_sublist _).subset h)
      refine ⟨?_, fun h ↦ hstart ((List.dropWhile_sublist _).subset h)⟩
      rw [List.mem_append, List.mem_cons, List.mem_append]
      rintro (h | h | h | h)
      · exact hgap h
      · exact absurd h (by decide)
      · exact hafter ((List.takeWhile_sublist _).subset h)
      · exact comma_not_mem_maskSecret hvalue h
    · refine ⟨List.not_mem_nil, ?_⟩
      rw [List.mem_append, List.mem_cons]
      rintro (h | h | h)
      · exact hgap h
      · exact absurd h (by decide)
      · exact hafter h
  · exact ⟨List.not_mem_nil, hcomma⟩

theorem comma_not_mem_maskOptions {text : Text} (hcomma : ',' ∉ text) :
    ',' ∉ maskOptions text := by
  induction text using scan_induct shortens_nextOption with
  | hnone text h => exact (maskOptions_of_none (nextOption_eq_none_iff.mp h)).symm ▸ hcomma
  | hsome text out rest h ih =>
    obtain ⟨i, key, hat, rfl, rfl⟩ := nextOption_cases h
    obtain ⟨hout, hrest⟩ := comma_not_mem_maskAssigned
      fun h : ',' ∈ text.drop (i + key.length) ↦ hcomma (List.mem_of_mem_drop h)
    rw [hat.maskOptions_eq, List.mem_append, List.mem_append]
    rintro (h | h | h)
    · exact hcomma (List.mem_of_mem_take h)
    · exact hout h
    · exact ih hrest h

/-! ### The two credentials -/

/-- The quotes and the whitespace in front of the value that is masked. -/
def valueLead (v : Text) : Text := v.takeWhile opensValue

/-- The value that is masked, up to the first character that ends one. -/
def valueCore (v : Text) : Text := (v.dropWhile opensValue).takeWhile fun c ↦ !endsValue c

/-- What is behind the value that is masked. -/
def valueTail (v : Text) : Text := (v.dropWhile opensValue).dropWhile fun c ↦ !endsValue c

/-- What is shown of a value. -/
def shownValue (v : Text) : Text :=
  valueLead v ++ (maskSecret (valueCore v) ++ maskOptions (valueTail v))

/-- The options behind the credentials. -/
def formatOptions (delimiter : Char) (upsert : Bool) : Text :=
  "format=csv,header=true,delimiter=\"".toList ++ ([delimiter, '"'] ++
    if upsert then ",mode=upsert".toList else [])

theorem value_parts (v : Text) : valueLead v ++ (valueCore v ++ valueTail v) = v := by
  unfold valueLead valueCore valueTail
  rw [List.takeWhile_append_dropWhile, List.takeWhile_append_dropWhile]

theorem maskOptions_assignment {key : Text} (hkey : key ∈ KEYS) (v : Text) :
    maskOptions (key ++ '=' :: v) = key ++ '=' :: shownValue v := by
  have hlower : ∀ key ∈ KEYS, asciiLowercase key = key := by decide
  have hat : FirstKeyAt (key ++ '=' :: v) 0 key := by
    refine ⟨hkey, ?_, fun _ _ j hj ↦ absurd hj (Nat.not_lt_zero j)⟩
    rw [List.drop_zero, asciiLowercase_append, hlower key hkey]
    exact List.prefix_append _ _
  have hassigned : maskAssigned ('=' :: v) =
      ('=' :: (valueLead v ++ maskSecret (valueCore v)), valueTail v) := rfl
  rw [hat.maskOptions_eq, Nat.zero_add, List.take_left, List.drop_left, hassigned, shownValue,
    List.cons_append, List.append_assoc]

theorem buildCopyOptions_eq (accessKeyId secretAccessKey : Text) (delimiter : Char)
    (upsert : Bool) :
    buildCopyOptions accessKeyId secretAccessKey delimiter upsert =
      ("access_key_id".toList ++ '=' :: accessKeyId) ++ ',' ::
        (("secret_access_key".toList ++ '=' :: secretAccessKey) ++ ',' ::
          formatOptions delimiter upsert) := by
  have haccess : "access_key_id=".toList = "access_key_id".toList ++ ['='] := by decide +kernel
  have hsecret : ",secret_access_key=".toList = ',' :: ("secret_access_key".toList ++ ['=']) := by
    decide +kernel
  have hformat : ",format=csv,header=true,delimiter=\"".toList =
      ',' :: "format=csv,header=true,delimiter=\"".toList := by decide +kernel
  unfold buildCopyOptions formatOptions
  generalize "access_key_id".toList = access at *
  generalize "secret_access_key".toList = secret at *
  generalize "format=csv,header=true,delimiter=\"".toList = format at *
  simp only [haccess, hsecret, hformat, List.append_assoc, List.cons_append, List.nil_append]

/-- No key is among the other options, whatever the delimiter. -/
theorem maskOptions_formatOptions (delimiter : Char) (upsert : Bool) :
    maskOptions (formatOptions delimiter upsert) = formatOptions delimiter upsert := by
  refine maskOptions_of_count ?_
  have hfront : (asciiLowercase "format=csv,header=true,delimiter=\"".toList).count '_' = 0 := by
    decide +kernel
  have hback (upsert : Bool) :
      (asciiLowercase (if upsert then ",mode=upsert".toList else [])).count '_' = 0 := by
    revert upsert
    decide +kernel
  have hdelimiter : (asciiLowercase [delimiter, '"']).count '_' ≤ 1 := by
    have hquote : (asciiLowercase ['"']).count '_' = 0 := by decide
    have hone := List.count_le_length (a := '_') (l := [delimiter.toLower])
    have hsplit : asciiLowercase [delimiter, '"'] =
        [delimiter.toLower] ++ asciiLowercase ['"'] := rfl
    rw [hsplit, List.count_append, hquote]
    exact hone
  unfold formatOptions
  simp only [asciiLowercase_append, List.count_append, hfront, hback]
  omega

/-- The list is masked value by value, and nothing else of it. -/
theorem maskOptions_buildCopyOptions (accessKeyId secretAccessKey : Text) (delimiter : Char)
    (upsert : Bool) :
    maskOptions (buildCopyOptions accessKeyId secretAccessKey delimiter upsert) =
      buildCopyOptions (shownValue accessKeyId) (shownValue secretAccessKey) delimiter upsert := by
  rw [buildCopyOptions_eq, buildCopyOptions_eq, maskOptions_append_comma,
    maskOptions_append_comma, maskOptions_formatOptions, maskOptions_assignment access_key_id_mem,
    maskOptions_assignment secret_access_key_mem]

/-- Values without a comma can be told from the list. -/
theorem buildCopyOptions_inj {access access' secret secret' : Text} (haccess : ',' ∉ access)
    (haccess' : ',' ∉ access') (hsecret : ',' ∉ secret) (hsecret' : ',' ∉ secret')
    (delimiter : Char) (upsert : Bool) :
    buildCopyOptions access secret delimiter upsert =
        buildCopyOptions access' secret' delimiter upsert ↔
      access = access' ∧ secret = secret' := by
  refine ⟨fun h ↦ ?_, fun ⟨haccess, hsecret⟩ ↦ by rw [haccess, hsecret]⟩
  have hplain {key v : Text} (hkey : key ∈ KEYS) (hv : ',' ∉ v) : ',' ∉ key ++ '=' :: v := by
    rw [List.mem_append, List.mem_cons, not_or, not_or]
    exact ⟨comma_not_mem_key hkey, by decide, hv⟩
  rw [buildCopyOptions_eq, buildCopyOptions_eq] at h
  have hcut := congrArg (splitOnce ',') h
  rw [splitOnce_append (hplain access_key_id_mem haccess),
    splitOnce_append (hplain access_key_id_mem haccess'), Option.some.injEq, Prod.mk.injEq,
    List.append_right_inj, List.cons.injEq] at hcut
  obtain ⟨⟨-, hsame⟩, hrest⟩ := hcut
  have hcut' := congrArg (splitOnce ',') hrest
  rw [splitOnce_append (hplain secret_access_key_mem hsecret),
    splitOnce_append (hplain secret_access_key_mem hsecret'), Option.some.injEq, Prod.mk.injEq,
    List.append_right_inj, List.cons.injEq] at hcut'
  exact ⟨hsame, hcut'.1.2⟩

theorem comma_not_mem_shownValue {v : Text} (hcomma : ',' ∉ v) : ',' ∉ shownValue v := by
  have hparts := value_parts v
  have hlead : ',' ∉ valueLead v := fun h ↦ hcomma (hparts ▸ List.mem_append_left _ h)
  have hcore : ',' ∉ valueCore v := fun h ↦
    hcomma (hparts ▸ List.mem_append_right _ (List.mem_append_left _ h))
  have htail : ',' ∉ valueTail v := fun h ↦
    hcomma (hparts ▸ List.mem_append_right _ (List.mem_append_right _ h))
  rw [shownValue, List.mem_append, List.mem_append]
  rintro (h | h | h)
  · exact hlead h
  · exact comma_not_mem_maskSecret hcore h
  · exact comma_not_mem_maskOptions htail h

/-! ### When the mask covers a credential -/

/-- The lengths and asterisks with which a mask that leaves out so many characters in front and
behind looks like the mask of the whole text. -/
def LooksWhole (v : Text) : Nat → Nat → Prop
  | 0, 0 => True
  | 1, 0 => v.length = 9 ∧ ∀ i ∈ [1, 7, 8], v[i]? = some '*'
  | 0, 1 => v.length = 9 ∧ ∀ i ∈ [0, 1, 7], v[i]? = some '*'
  | 1, 1 => v.length = 16 ∨ v.length = 17
  | 2, 0 => (v.length = 16 ∨ v.length = 17) ∧ ∀ i ∈ [3, v.length - 3], v[i]? = some '*'
  | 0, 2 => (v.length = 16 ∨ v.length = 17) ∧ ∀ i ∈ [2, v.length - 4], v[i]? = some '*'
  | _, _ => False

/-- The mask of a credential in the list is the mask of the whole: it has no quotes and whitespace,
or its lengths and asterisks happen to make up for them. -/
def MasksWhole (v : Text) : Prop := LooksWhole v (valueLead v).length (valueTail v).length

theorem masksWhole_of_plain {v : Text} (hcomma : ',' ∉ v) (hplain : ∀ c ∈ v, opensValue c = false) :
    MasksWhole v := by
  have hends : ∀ c ∈ v, endsValue c = false := by
    intro c hc
    have hne : (c == ',') = false := beq_eq_false_iff_ne.mpr fun h ↦ hcomma (h ▸ hc)
    have hopens := hplain c hc
    unfold opensValue at hopens
    unfold endsValue
    rw [hne, Bool.false_or]
    exact hopens
  have hlead : valueLead v = [] := by
    cases v with
    | nil => rfl
    | cons c rest => exact List.takeWhile_cons_of_neg (by simp [hplain c List.mem_cons_self])
  have htail : valueTail v = [] := by
    rw [valueTail, List.dropWhile_eq_nil_iff]
    intro c hc
    rw [hends c ((List.dropWhile_sublist opensValue).subset hc)]
    rfl
  unfold MasksWhole
  rw [hlead, htail]
  trivial

theorem length_maskSecret_eq (v : Text) :
    (maskSecret v).length = if v.length ≤ 8 then 6 else if v.length ≤ 15 then 7 else 9 := by
  have hsix : "******".toList.length = 6 := rfl
  have hthree : "***".toList.length = 3 := rfl
  simp only [maskSecret]
  split_ifs <;> simp only [List.length_append, List.length_take, List.length_drop, hsix, hthree] <;>
    omega

/-- Only a few lengths make a masked part as long as the mask of the whole. -/
theorem lengths_of_looks_whole {lead core tail : Text}
    (h : lead ++ (maskSecret core ++ tail) = maskSecret (lead ++ (core ++ tail))) :
    lead.length + tail.length = 0 ∨ (lead.length + tail.length = 1 ∧ core.length = 8) ∨
      (lead.length + tail.length = 2 ∧ (core.length = 14 ∨ core.length = 15)) := by
  have hlength := congrArg List.length h
  simp only [List.length_append, length_maskSecret_eq] at hlength
  split_ifs at hlength <;> omega

theorem looksWhole_of_one {lead core tail : Text} (hlength : lead.length + tail.length = 1)
    (hcore : core.length = 8) :
    lead ++ (maskSecret core ++ tail) = maskSecret (lead ++ (core ++ tail)) ↔
      LooksWhole (lead ++ (core ++ tail)) lead.length tail.length := by
  match core, hcore with
  | [_, _, _, _, _, _, _, _], _ =>
    rcases Nat.add_eq_one_iff.mp hlength with ⟨hlead, htail⟩ | ⟨hlead, htail⟩
    · match lead, hlead, tail, htail with
      | [], _, [_], _ => simp [maskSecret, LooksWhole, eq_comm]
    · match lead, hlead, tail, htail with
      | [_], _, [], _ => simp [maskSecret, LooksWhole, eq_comm]

theorem looksWhole_of_two {lead core tail : Text} (hlength : lead.length + tail.length = 2)
    (hcore : core.length = 14 ∨ core.length = 15) :
    lead ++ (maskSecret core ++ tail) = maskSecret (lead ++ (core ++ tail)) ↔
      LooksWhole (lead ++ (core ++ tail)) lead.length tail.length := by
  rcases Nat.add_eq_two_iff.mp hlength with ⟨hlead, htail⟩ | ⟨hlead, htail⟩ | ⟨hlead, htail⟩
  · match lead, hlead, tail, htail, core, hcore with
    | [], _, [_, _], _, [_, _, _, _, _, _, _, _, _, _, _, _, _, _], _ =>
      simp [maskSecret, LooksWhole, eq_comm]
    | [], _, [_, _], _, [_, _, _, _, _, _, _, _, _, _, _, _, _, _, _], _ =>
      simp [maskSecret, LooksWhole, eq_comm]
  · match lead, hlead, tail, htail, core, hcore with
    | [_], _, [_], _, [_, _, _, _, _, _, _, _, _, _, _, _, _, _], _ => simp [maskSecret, LooksWhole]
    | [_], _, [_], _, [_, _, _, _, _, _, _, _, _, _, _, _, _, _, _], _ =>
      simp [maskSecret, LooksWhole]
  · match lead, hlead, tail, htail, core, hcore with
    | [_, _], _, [], _, [_, _, _, _, _, _, _, _, _, _, _, _, _, _], _ =>
      simp [maskSecret, LooksWhole, eq_comm]
    | [_, _], _, [], _, [_, _, _, _, _, _, _, _, _, _, _, _, _, _, _], _ =>
      simp [maskSecret, LooksWhole, eq_comm]

theorem looksWhole_iff (lead core tail : Text) :
    lead ++ (maskSecret core ++ tail) = maskSecret (lead ++ (core ++ tail)) ↔
      LooksWhole (lead ++ (core ++ tail)) lead.length tail.length := by
  by_cases hlengths : lead.length + tail.length = 0 ∨
      (lead.length + tail.length = 1 ∧ core.length = 8) ∨
      (lead.length + tail.length = 2 ∧ (core.length = 14 ∨ core.length = 15))
  · rcases hlengths with hnone | ⟨hone, hcore⟩ | ⟨htwo, hcore⟩
    · rw [Nat.add_eq_zero_iff, List.length_eq_zero_iff, List.length_eq_zero_iff] at hnone
      rw [hnone.1, hnone.2, List.append_nil, List.append_nil]
      exact iff_of_true rfl trivial
    · exact looksWhole_of_one hone hcore
    · exact looksWhole_of_two htwo hcore
  · refine iff_of_false (fun h ↦ hlengths (lengths_of_looks_whole h)) fun h ↦ hlengths ?_
    unfold LooksWhole at h
    simp only [List.length_append] at h
    split at h
    · exact Or.inl (by omega)
    · exact Or.inr (Or.inl (by omega))
    · exact Or.inr (Or.inl (by omega))
    · exact Or.inr (Or.inr (by omega))
    · exact Or.inr (Or.inr (by omega))
    · exact Or.inr (Or.inr (by omega))
    · exact h.elim

/-- A credential is shown as its mask exactly then. -/
theorem shownValue_eq_iff (v : Text) : shownValue v = maskSecret v ↔ MasksWhole v := by
  have hparts := looksWhole_iff (valueLead v) (valueCore v) (valueTail v)
  rw [value_parts] at hparts
  refine Iff.trans ⟨fun h ↦ ?_, fun h ↦ ?_⟩ hparts
  · have hlength := congrArg List.length h
    have hshort := (length_maskSecret v).2
    rw [shownValue, List.length_append, List.length_append] at hlength
    rcases maskOptions_cases (valueTail v) with hsame | hlong
    · rwa [shownValue, hsame] at h
    · omega
  · have hshort : (valueTail v).length < 13 := by
      have hlengths := congrArg List.length h
      have hmask := (length_maskSecret v).2
      rw [List.length_append, List.length_append] at hlengths
      omega
    rw [shownValue, maskOptions_of_short hshort]
    exact h

/-- The list of a location that is accepted is masked as if its credentials had been masked first
exactly when their quotes and whitespace leave each mask whole. -/
theorem options_masked_exactly (cfg : StagingConfig) (delimiter : Char) (upsert : Bool)
    (hvalid : validateStaging cfg = .ok ()) :
    maskOptions (buildCopyOptions cfg.accessKeyId cfg.secretAccessKey delimiter upsert) =
        buildCopyOptions (maskSecret cfg.accessKeyId) (maskSecret cfg.secretAccessKey) delimiter
          upsert ↔
      MasksWhole cfg.accessKeyId ∧ MasksWhole cfg.secretAccessKey := by
  obtain ⟨haccess, hsecret, -⟩ := (validateStaging_eq_ok_iff cfg).mp hvalid
  obtain ⟨-, haccess, -⟩ := (validateCredential_eq_ok_iff _ _).mp haccess
  obtain ⟨-, hsecret, -⟩ := (validateCredential_eq_ok_iff _ _).mp hsecret
  rw [maskOptions_buildCopyOptions, buildCopyOptions_inj (comma_not_mem_shownValue haccess)
    (comma_not_mem_maskSecret haccess) (comma_not_mem_shownValue hsecret)
    (comma_not_mem_maskSecret hsecret), shownValue_eq_iff, shownValue_eq_iff]

theorem options_masked_exactly_plain :
    maskOptions (buildCopyOptions "LTAI5tAbCdEfGh".toList "D3g5mSAkhvADz9Py".toList ',' true) =
      buildCopyOptions (maskSecret "LTAI5tAbCdEfGh".toList)
        (maskSecret "D3g5mSAkhvADz9Py".toList) ',' true :=
  (options_masked_exactly ⟨"oss-cn-hangzhou.aliyuncs.com".toList, ['b'], [],
    "LTAI5tAbCdEfGh".toList, "D3g5mSAkhvADz9Py".toList, .oss, none⟩ ',' true (by decide)).mpr
    ⟨masksWhole_of_plain (by decide) (List.all_iff_forall_prop.mp (by decide)),
      masksWhole_of_plain (by decide) (List.all_iff_forall_prop.mp (by decide))⟩

/-- A secret with a blank in it is accepted, and what is behind the blank is shown. -/
theorem secret_shown_behind_blank :
    validateStaging ⟨"oss-cn-hangzhou.aliyuncs.com".toList, ['b'], [], "LTAI5tAbCdEfGh".toList,
        "abcdefghij klm".toList, .oss, none⟩ = .ok () ∧
      maskOptions (buildCopyOptions "LTAI5tAbCdEfGh".toList "abcdefghij klm".toList ',' false) =
        buildCopyOptions "LT***Gh".toList "ab***ij klm".toList ',' false ∧
      maskOptions (buildCopyOptions "LTAI5tAbCdEfGh".toList "abcdefghij klm".toList ',' false) ≠
        buildCopyOptions (maskSecret "LTAI5tAbCdEfGh".toList)
          (maskSecret "abcdefghij klm".toList) ',' false :=
  ⟨by decide, by decide +kernel, by decide +kernel⟩

end RelytIngest
