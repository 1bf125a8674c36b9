import Mathlib.Data.List.Basic
import Mathlib.Data.Set.Function
import Mathlib.Data.Int.ModEq
import Mathlib.Tactic.Positivity

/-!
# Self-delimiting encodings

An encoding is self-delimiting on a relation when, for two related values, the word of one can be
cut off the front of a longer text only if the values are equal (`SelfDelimiting`). Injective
encodings of one length are, a length prefix makes any injective encoding so, and lists of values
encoded one after the other are then told apart (`SelfDelimiting.flatMap_injective`).

`bigEndian` writes a number in a given count of bytes, most significant first.
-/

set_option autoImplicit false
set_option relaxedAutoImplicit false

namespace RelytIngest.Foundations

variable {α β : Type*}

/-- Words of related values end where they end: equal fronts mean equal values. -/
def SelfDelimiting (encode : α → List β) (related : α → α → Prop) : Prop :=
  ∀ ⦃a b⦄, related a b → ∀ x y, encode a ++ x = encode b ++ y → a = b ∧ x = y

variable {encode : α → List β} {related : α → α → Prop}

/-- Words of equal length that differ for different values. -/
theorem selfDelimiting_of_length
    (hlength : ∀ ⦃a b⦄, related a b → (encode a).length = (encode b).length)
    (hinjective : ∀ ⦃a b⦄, related a b → encode a = encode b → a = b) :
    SelfDelimiting encode related := by
  intro a b hrelated x y heq
  obtain ⟨hword, hrest⟩ := List.append_inj heq (hlength hrelated)
  exact ⟨hinjective hrelated hword, hrest⟩

/-- A word that carries its body's length in front, written in a fixed width. -/
theorem selfDelimiting_lengthPrefixed {writeLength : Nat → List β} {body : α → List β}
    {width bound : Nat} (hwidth : ∀ n, (writeLength n).length = width)
    (hwrite : ∀ n m, n < bound → m < bound → writeLength n = writeLength m → n = m)
    (hbound : ∀ ⦃a b⦄, related a b → (body a).length < bound ∧ (body b).length < bound)
    (hbody : ∀ ⦃a b⦄, related a b → body a = body b → a = b) :
    SelfDelimiting (fun a ↦ writeLength (body a).length ++ body a) related := by
  intro a b hrelated x y heq
  simp only [List.append_assoc] at heq
  obtain ⟨hlengths, hrest⟩ := List.append_inj heq (by rw [hwidth, hwidth])
  obtain ⟨ha, hb⟩ := hbound hrelated
  obtain ⟨hword, hback⟩ := List.append_inj hrest (hwrite _ _ ha hb hlengths)
  exact ⟨hbody hrelated hword, hback⟩

/-- A fixed text before and after every word. -/
theorem SelfDelimiting.framed (hencode : SelfDelimiting encode related) (front back : List β) :
    SelfDelimiting (fun a ↦ front ++ encode a ++ back) related := by
  intro a b hrelated x y heq
  simp only [List.append_assoc, List.append_cancel_left_eq] at heq
  obtain ⟨rfl, hrest⟩ := hencode hrelated _ _ heq
  exact ⟨rfl, List.append_cancel_left hrest⟩

/-- Lists of pairwise related values are told apart by their concatenated words. -/
theorem SelfDelimiting.flatMap_injective (hencode : SelfDelimiting encode related)
    {first second : List α} (hrelated : List.Forall₂ related first second)
    (heq : first.flatMap encode = second.flatMap encode) : first = second := by
  induction hrelated with
  | nil => rfl
  | cons hhead _ ih =>
    rw [List.flatMap_cons, List.flatMap_cons] at heq
    obtain ⟨rfl, hrest⟩ := hencode hhead _ _ heq
    rw [ih hrest]

/-! ### Big-endian bytes -/

/-- The lowest `count` bytes of a number, most significant first. -/
def bigEndian : Nat → Nat → List UInt8
  | 0, _ => []
  | count + 1, value => bigEndian count (value / 256) ++ [UInt8.ofNat (value % 256)]

@[simp] theorem length_bigEndian (count value : Nat) : (bigEndian count value).length = count := by
  induction count generalizing value with
  | zero => rfl
  | succ count ih => rw [bigEndian, List.length_append, ih, List.length_singleton]

theorem bigEndian_inj {count first second : Nat} (hfirst : first < 256 ^ count)
    (hsecond : second < 256 ^ count) (heq : bigEndian count first = bigEndian count second) :
    first = second := by
  induction count generalizing first second with
  | zero =>
    rw [Nat.pow_zero, Nat.lt_one_iff] at hfirst hsecond
    rw [hfirst, hsecond]
  | succ count ih =>
    obtain ⟨hfront, hlast⟩ := List.append_inj heq (by simp)
    have hquotient := ih (Nat.div_lt_of_lt_mul (by rwa [← Nat.pow_succ']))
      (Nat.div_lt_of_lt_mul (by rwa [← Nat.pow_succ'])) hfront
    have hremainder : first % 256 = second % 256 := by
      have := congrArg UInt8.toNat (List.singleton_injective hlast)
      simpa using this
    omega

/-- The bytes of a `width`-bit two's-complement number, `width` being eight times `count`. -/
def bigEndianSigned (count : Nat) (value : Int) : List UInt8 :=
  bigEndian count (value % 256 ^ count).toNat

@[simp] theorem length_bigEndianSigned (count : Nat) (value : Int) :
    (bigEndianSigned count value).length = count :=
  length_bigEndian _ _

theorem bigEndianSigned_inj {count : Nat} {first second : Int}
    (hfirst : -256 ^ count ≤ 2 * first ∧ 2 * first < 256 ^ count)
    (hsecond : -256 ^ count ≤ 2 * second ∧ 2 * second < 256 ^ count)
    (heq : bigEndianSigned count first = bigEndianSigned count second) : first = second := by
  have hpos : (0 : Int) < 256 ^ count := by positivity
  have hword (value : Int) : (value % 256 ^ count).toNat < 256 ^ count := by
    rw [Int.toNat_lt' (by positivity)]
    exact_mod_cast Int.emod_lt_of_pos value hpos
  have hmod : first % 256 ^ count = second % 256 ^ count := by
    rw [← Int.toNat_of_nonneg (Int.emod_nonneg first hpos.ne'),
      ← Int.toNat_of_nonneg (Int.emod_nonneg second hpos.ne'),
      bigEndian_inj (hword first) (hword second) heq]
  have hdvd : (256 ^ count : Int) ∣ second - first := Int.ModEq.dvd hmod
  have hzero := Int.eq_zero_of_abs_lt_dvd hdvd (by rw [abs_lt]; omega)
  omega

end RelytIngest.Foundations
