import RelytIngest.Foundations.DecimalText

/-!
# Reading decimal texts

`readDecimal` gives a run of digits its value. Runs of one length are equal when their values are
(`eq_of_readDecimal_eq`), and their lexicographic order is the order of their values
(`map_lt_map_iff`), so texts that begin with fields of a fixed width are ordered field by field
(`append_lt_append_iff`).

`parseUnsigned` and `parseSigned` read an integer of a bounded type: a sign in front is taken, zeros
in front are skipped, and a value out of range is refused. `Canonical` is the one spelling of a
number that `paddedDecimal` writes (`paddedDecimal_eq_iff`).
-/

set_option autoImplicit false
set_option relaxedAutoImplicit false

namespace RelytIngest.Foundations

/-! ### Values -/

theorem readDecimal_cons (c : Char) (digits : Text) :
    readDecimal (c :: digits) = 10 ^ digits.length * (c.toNat - 48) + readDecimal digits := by
  have happend := readDecimal_append [c] digits
  have hdigit : readDecimal [c] = c.toNat - 48 := by
    simp [readDecimal, Nat.ofDigitChars_cons]
  rwa [List.singleton_append, hdigit] at happend

/-- The number of a digit, between the characters `0` and `9`. -/
theorem toNat_of_isDigit {c : Char} (hc : c.isDigit) : 48 ≤ c.toNat ∧ c.toNat ≤ 57 := by
  simp only [Char.isDigit, Bool.and_eq_true, decide_eq_true_eq, ge_iff_le] at hc
  exact ⟨hc.1, hc.2⟩

theorem readDecimal_lt {digits : Text} (hdigits : ∀ c ∈ digits, c.isDigit) :
    readDecimal digits < 10 ^ digits.length := by
  induction digits with
  | nil => exact Nat.one_pos
  | cons c rest ih =>
    rw [List.forall_mem_cons] at hdigits
    have hrest := ih hdigits.2
    have hc : c.toNat - 48 ≤ 9 := by
      have := toNat_of_isDigit hdigits.1
      omega
    have hhead : 10 ^ rest.length * (c.toNat - 48) ≤ 10 ^ rest.length * 9 :=
      Nat.mul_le_mul_left _ hc
    rw [readDecimal_cons, List.length_cons, Nat.pow_succ]
    omega

/-- Between two numbers written in positional notation the leading digit decides. -/
theorem positional_lt_iff {base a b x y : Nat} (hx : x < base) (hy : y < base) :
    base * a + x < base * b + y ↔ a < b ∨ a = b ∧ x < y := by
  constructor
  · intro hlt
    rcases Nat.lt_trichotomy a b with hab | rfl | hab
    · exact .inl hab
    · exact .inr ⟨rfl, by omega⟩
    · have : base * (b + 1) ≤ base * a := Nat.mul_le_mul_left base hab
      rw [Nat.mul_add] at this
      omega
  · rintro (hab | ⟨rfl, hxy⟩)
    · have : base * (a + 1) ≤ base * b := Nat.mul_le_mul_left base hab
      rw [Nat.mul_add] at this
      omega
    · omega

/-- Runs of digits of one length are told apart by their values. -/
theorem eq_of_readDecimal_eq {first second : Text} (hlength : first.length = second.length)
    (hfirst : ∀ c ∈ first, c.isDigit) (hsecond : ∀ c ∈ second, c.isDigit)
    (hvalue : readDecimal first = readDecimal second) : first = second := by
  induction first generalizing second with
  | nil => exact (List.length_eq_zero_iff.mp hlength.symm).symm
  | cons c rest ih =>
    cases second with
    | nil => simp at hlength
    | cons d rest' =>
      rw [List.length_cons, List.length_cons, Nat.add_right_cancel_iff] at hlength
      rw [List.forall_mem_cons] at hfirst hsecond
      rw [readDecimal_cons, readDecimal_cons, ← hlength] at hvalue
      have hrest := readDecimal_lt hfirst.2
      have hrest' := readDecimal_lt hsecond.2
      rw [← hlength] at hrest'
      have hless := positional_lt_iff (a := c.toNat - 48) (b := d.toNat - 48) hrest hrest'
      have hmore := positional_lt_iff (a := d.toNat - 48) (b := c.toNat - 48) hrest' hrest
      have hc := toNat_of_isDigit hfirst.1
      have hd := toNat_of_isDigit hsecond.1
      have hhead : c = d := Char.toNat_inj.mp (by omega)
      subst hhead
      rw [ih hlength hfirst.2 hsecond.2 (Nat.add_left_cancel hvalue)]

section Order

variable {κ : Type*} [LT κ] {code : Char → κ}

/-- Digits of one length are in the order of their values. -/
theorem map_lt_map_iff (hcode : ∀ c d : Char, c.isDigit → d.isDigit →
      (code c < code d ↔ c.toNat < d.toNat) ∧ (code c = code d → c = d))
    {first second : Text} (hlength : first.length = second.length)
    (hfirst : ∀ c ∈ first, c.isDigit) (hsecond : ∀ c ∈ second, c.isDigit) :
    first.map code < second.map code ↔ readDecimal first < readDecimal second := by
  induction first generalizing second with
  | nil =>
    rw [List.length_nil, eq_comm, List.length_eq_zero_iff] at hlength
    subst hlength
    simp
  | cons c rest ih =>
    cases second with
    | nil => simp at hlength
    | cons d rest' =>
      rw [List.length_cons, List.length_cons, Nat.add_right_cancel_iff] at hlength
      rw [List.forall_mem_cons] at hfirst hsecond
      obtain ⟨hlt, hinjective⟩ := hcode c d hfirst.1 hsecond.1
      have hc := toNat_of_isDigit hfirst.1
      have hd := toNat_of_isDigit hsecond.1
      have heq : code c = code d ↔ c.toNat - 48 = d.toNat - 48 := by
        constructor
        · intro heq
          rw [hinjective heq]
        · intro heq
          have hsame : c.toNat = d.toNat := by omega
          rw [Char.toNat_inj.mp hsame]
      have hless : code c < code d ↔ c.toNat - 48 < d.toNat - 48 := by
        rw [hlt]
        omega
      rw [List.map_cons, List.map_cons, List.cons_lt_cons_iff, readDecimal_cons, readDecimal_cons,
        ← hlength, positional_lt_iff (readDecimal_lt hfirst.2) (hlength ▸ readDecimal_lt hsecond.2),
        hless, heq, ih hlength hfirst.2 hsecond.2]

/-- A field of a fixed width in front decides, and where it is the same what follows does. -/
theorem append_lt_append_iff {first second back back' : List κ}
    (hlength : first.length = second.length) :
    first ++ back < second ++ back' ↔ first < second ∨ first = second ∧ back < back' := by
  induction first generalizing second with
  | nil =>
    rw [List.length_nil, eq_comm, List.length_eq_zero_iff] at hlength
    subst hlength
    simp
  | cons a rest ih =>
    cases second with
    | nil => simp at hlength
    | cons b rest' =>
      rw [List.length_cons, List.length_cons, Nat.add_right_cancel_iff] at hlength
      rw [List.cons_append, List.cons_append, List.cons_lt_cons_iff, List.cons_lt_cons_iff,
        ih hlength, List.cons.injEq]
      tauto

end Order

/-! ### Parsing -/

/-- The value of a text that is a run of digits. -/
def digitsValue (digits : Text) : Option Nat :=
  if digits ≠ [] ∧ digits.all Char.isDigit then some (readDecimal digits) else none

/-- The text without a plus sign in front. -/
def stripPlus : Text → Text
  | '+' :: digits => digits
  | text => text

/-- `str::parse` at an unsigned type with the given maximum. -/
def parseUnsigned (maximum : Nat) (text : Text) : Option Nat :=
  (digitsValue (stripPlus text)).filter fun value ↦ decide (value ≤ maximum)

/-- `str::parse` at the signed type whose least number is `-bound`. -/
def parseSigned (bound : Nat) : Text → Option Int
  | '-' :: digits =>
    ((digitsValue digits).filter fun value ↦ decide (value ≤ bound)).map fun value : Nat ↦
      -(value : Int)
  | text => (parseUnsigned (bound - 1) text).map fun value : Nat ↦ (value : Int)

theorem digitsValue_eq_some_iff {digits : Text} {value : Nat} :
    digitsValue digits = some value ↔
      digits ≠ [] ∧ (∀ c ∈ digits, c.isDigit) ∧ readDecimal digits = value := by
  simp [digitsValue, and_assoc]

theorem parseUnsigned_eq_some_iff {maximum : Nat} {text : Text} {value : Nat} :
    parseUnsigned maximum text = some value ↔
      digitsValue (stripPlus text) = some value ∧ value ≤ maximum := by
  simp [parseUnsigned, Option.filter_eq_some_iff]

/-- A text without a plus sign has none to take off. -/
theorem stripPlus_of_not_mem {text : Text} (hplus : '+' ∉ text) : stripPlus text = text := by
  unfold stripPlus
  split
  · exact absurd List.mem_cons_self hplus
  · rfl

/-- What is parsed has no separator in it. -/
theorem not_mem_of_parseUnsigned {maximum value : Nat} {text : Text} {c : Char}
    (hparse : parseUnsigned maximum text = some value) (hdigit : c.isDigit = false)
    (hplus : c ≠ '+') : c ∉ text := by
  intro hmem
  obtain ⟨hvalue, -⟩ := parseUnsigned_eq_some_iff.mp hparse
  obtain ⟨-, hdigits, -⟩ := digitsValue_eq_some_iff.mp hvalue
  have hrest : c ∉ stripPlus text := fun hrest ↦ by simp [hdigits c hrest] at hdigit
  unfold stripPlus at hrest
  split at hrest
  · rcases List.mem_cons.mp hmem with rfl | hmem
    · exact hplus rfl
    · exact hrest hmem
  · exact hrest hmem

/-- Padded and plain numbers in range are read back. -/
theorem parseUnsigned_paddedDecimal {width maximum n : Nat} (hn : n ≤ maximum) :
    parseUnsigned maximum (paddedDecimal width n) = some n := by
  have hdigits : ∀ c ∈ paddedDecimal width n, c.isDigit :=
    fun _ hc ↦ isDigit_of_mem_paddedDecimal hc
  rw [parseUnsigned_eq_some_iff, stripPlus_of_not_mem (not_mem_paddedDecimal (by decide)),
    digitsValue_eq_some_iff]
  exact ⟨⟨paddedDecimal_ne_nil width n, hdigits, readDecimal_paddedDecimal width n⟩, hn⟩

theorem parseSigned_of_digits {bound : Nat} {text : Text} (hminus : '-' ∉ text) :
    parseSigned bound text =
      (parseUnsigned (bound - 1) text).map fun value : Nat ↦ (value : Int) := by
  unfold parseSigned
  split
  · exact absurd List.mem_cons_self hminus
  · rfl

/-- The pieces a text is cut into have no separator in them. -/
theorem not_mem_of_mem_splitOn {separator : Char} {text piece : Text}
    (hpiece : piece ∈ text.splitOn separator) : separator ∉ piece := by
  induction text generalizing piece with
  | nil =>
    rw [List.splitOn_nil, List.mem_singleton] at hpiece
    simp [hpiece]
  | cons c rest ih =>
    rw [List.splitOn_cons_eq_if_modifyHead] at hpiece
    split at hpiece
    · rcases List.mem_cons.mp hpiece with rfl | hrest
      · exact List.not_mem_nil
      · exact ih hrest
    · next hc =>
      cases hpieces : rest.splitOn separator with
      | nil => exact absurd hpieces (List.splitOn_ne_nil _ _)
      | cons first others =>
        rw [hpieces, List.modifyHead_cons] at hpiece
        rcases List.mem_cons.mp hpiece with rfl | hother
        · have hfirst := ih (hpieces ▸ List.mem_cons_self : first ∈ rest.splitOn separator)
          simp only [List.mem_cons, not_or]
          exact ⟨fun heq ↦ hc (by simp [heq]), hfirst⟩
        · exact ih (hpieces ▸ List.mem_cons_of_mem _ hother)

/-! ### The spelling of a number -/

/-- The text is spelled as `paddedDecimal` spells numbers: no plus sign, at least as long as the
width, and no zero in front of what exceeds it. -/
def Canonical (width : Nat) (text : Text) : Prop :=
  '+' ∉ text ∧ width ≤ text.length ∧ (width < text.length → text.head? ≠ some '0')

instance (width : Nat) (text : Text) : Decidable (Canonical width text) :=
  inferInstanceAs (Decidable (_ ∧ _))

theorem length_paddedDecimal_eq (width n : Nat) :
    (paddedDecimal width n).length = max width (decimal n).length := by
  rw [paddedDecimal, List.length_append, List.length_replicate]
  omega

/-- A number has at least one digit. -/
theorem paddedDecimal_one (n : Nat) : paddedDecimal 1 n = decimal n := by
  have hlength := List.length_pos_iff.mpr (decimal_ne_nil n)
  rw [paddedDecimal, Nat.sub_eq_zero_of_le hlength, List.replicate_zero, List.nil_append]

theorem signedDecimal_natCast (n : Nat) : signedDecimal n = paddedDecimal 1 n := by
  rw [paddedDecimal_one, signedDecimal, if_neg (by omega), Int.natAbs_natCast]

theorem lt_length_decimal_iff {width n : Nat} (hwidth : 0 < width) :
    width < (decimal n).length ↔ 10 ^ width ≤ n := by
  have := Nat.length_toDigits_le_iff (b := 10) (n := n) (by decide) hwidth
  rw [decimal]
  omega

/-- The writer's own spelling is canonical. -/
theorem canonical_paddedDecimal {width : Nat} (hwidth : 0 < width) (n : Nat) :
    Canonical width (paddedDecimal width n) := by
  refine ⟨not_mem_paddedDecimal (by decide), ?_, fun hlonger hzero ↦ ?_⟩
  · rw [length_paddedDecimal_eq]
    exact Nat.le_max_left _ _
  · have hlength : width < (decimal n).length := by
      rw [length_paddedDecimal_eq] at hlonger
      omega
    have hplain : paddedDecimal width n = decimal n := by
      rw [paddedDecimal, Nat.sub_eq_zero_of_le (Nat.le_of_lt hlength), List.replicate_zero,
        List.nil_append]
    rw [hplain, List.head?_eq_some_iff] at hzero
    obtain ⟨rest, hrest⟩ := hzero
    rw [hrest, List.length_cons] at hlength
    have hdigits : ∀ c ∈ rest, c.isDigit := fun c hc ↦
      isDigit_of_mem_decimal (n := n) (by rw [hrest]; exact List.mem_cons_of_mem _ hc)
    have hvalue : n = readDecimal rest := by
      have hread := readDecimal_decimal n
      rw [hrest, readDecimal_cons] at hread
      simpa using hread.symm
    have hbound := readDecimal_lt hdigits
    have hlong : 10 ^ rest.length ≤ n := by
      rw [← lt_length_decimal_iff (by omega), hrest, List.length_cons]
      omega
    omega

/-- A canonical run of digits is as long as the padded text of its value. -/
theorem length_of_canonical {width : Nat} {digits : Text} (hwidth : 0 < width)
    (hdigits : ∀ c ∈ digits, c.isDigit) (hcanonical : Canonical width digits) :
    (paddedDecimal width (readDecimal digits)).length = digits.length := by
  obtain ⟨-, hlength, hhead⟩ := hcanonical
  have hupper : (decimal (readDecimal digits)).length ≤ digits.length :=
    length_decimal_le (by omega) (readDecimal_lt hdigits)
  rw [length_paddedDecimal_eq]
  rcases Nat.lt_or_ge width digits.length with hlonger | hfits
  · cases digits with
    | nil => simp at hlonger
    | cons c rest =>
      have hc : c ≠ '0' := fun hzero ↦ hhead hlonger (by rw [hzero]; rfl)
      have hdigit := toNat_of_isDigit (hdigits c List.mem_cons_self)
      have hpositive : 0 < c.toNat - 48 := by
        have : c.toNat ≠ 48 := fun heq ↦ hc (Char.toNat_inj.mp heq)
        omega
      have hlong : 10 ^ rest.length ≤ readDecimal (c :: rest) := by
        rw [readDecimal_cons]
        exact Nat.le_trans (Nat.le_mul_of_pos_right _ hpositive) (Nat.le_add_right _ _)
      rw [List.length_cons] at hlonger hupper ⊢
      have hlower := (lt_length_decimal_iff (by omega)).mpr hlong
      omega
  · omega

/-- Of the texts that are read as a number, `paddedDecimal` writes the canonical one. -/
theorem paddedDecimal_eq_iff {width maximum n : Nat} {text : Text} (hwidth : 0 < width)
    (hparse : parseUnsigned maximum text = some n) :
    paddedDecimal width n = text ↔ Canonical width text := by
  constructor
  · rintro rfl
    exact canonical_paddedDecimal hwidth n
  · intro hcanonical
    obtain ⟨hvalue, -⟩ := parseUnsigned_eq_some_iff.mp hparse
    rw [stripPlus_of_not_mem hcanonical.1] at hvalue
    obtain ⟨-, hdigits, rfl⟩ := digitsValue_eq_some_iff.mp hvalue
    exact eq_of_readDecimal_eq (length_of_canonical hwidth hdigits hcanonical)
      (fun _ hc ↦ isDigit_of_mem_paddedDecimal hc) hdigits (readDecimal_paddedDecimal _ _)

end RelytIngest.Foundations
