import RelytIngest.Arrow.RecordBatch
import RelytIngest.Foundations.DecimalValue
import RelytIngest.Foundations.TextScan

/-!
# Declared columns

A table's columns come from the catalog with their types as the server prints them, and
`pgTypeToArrow` reads these texts. `PgType` is what a column can be declared as, `formatType` the
text the server prints for it, and `DeclaredType.arrow` what the column is written as, if at all.
`pgTypeToArrow_formatType` says that each declaration is read as what it is, with its parameters, or
refused with its column and its text in the error. Arrays are refused unless their elements are
texts with a length: these are taken for texts.
-/

set_option autoImplicit false
set_option relaxedAutoImplicit false

namespace RelytIngest

open Foundations

/-! ### Reading a declaration -/

/-- `str::trim`. -/
def trim (text : Text) : Text := (text.dropWhile isWhitespace).rdropWhile isWhitespace

/-- `str::strip_suffix` of one character. -/
def stripLast (c : Char) (text : Text) : Option Text :=
  if text.getLast? = some c then some text.dropLast else none

/-- `parse::<i8>`. -/
def parseScale (text : Text) : Option (Signed 8) :=
  (parseSigned 128 text).bind fun value ↦
    if h : -2 ^ (8 - 1) ≤ value ∧ value < 2 ^ (8 - 1) then some ⟨value, h.1, h.2⟩ else none

def DECIMAL128_MAX_PRECISION : Nat := 38

/-- A declaration that is not on the whitelist. -/
def rejectType (column pg : Text) (reason : String) : Except Error DataType :=
  .error (.unsupportedType (String.ofList column) (String.ofList pg ++ " (" ++ reason ++ ")"))

/-- The parameters of `numeric`: a lone precision has scale 0. -/
def numericToArrow (column pg parameters : Text) : Except Error DataType :=
  let pieces := parameters.splitOn ','
  let precision := pieces.head?.bind fun piece ↦ parseUnsigned 255 (trim piece)
  let scale := match pieces[1]? with
    | some piece => parseScale (trim piece)
    | none => some ⟨0, by decide, by decide⟩
  match precision, scale with
  | some precision, some scale =>
    if 1 ≤ precision ∧ precision ≤ DECIMAL128_MAX_PRECISION then .ok (.decimal128 precision scale)
    else rejectType column pg ("precision " ++ toString precision ++
      " exceeds the Decimal128 maximum of " ++ toString DECIMAL128_MAX_PRECISION)
  | _, _ => rejectType column pg "unparseable numeric parameters"

def utc : Text := "UTC".toList

/-- What stands behind the precision of a timestamp. -/
def zoneToArrow (tail : Text) : Option DataType :=
  if trim tail = "without time zone".toList then some (.timestamp .microsecond none)
  else if trim tail = "with time zone".toList then some (.timestamp .microsecond (some utc))
  else none

/-- A timestamp with a precision: the precision is left out. -/
def timestampToArrow (pg : Text) : Option DataType :=
  ("timestamp(".toList.isPrefixOf? pg).bind fun rest ↦
    (splitOnce ')' rest).bind fun cut ↦ zoneToArrow cut.2

/-- The declarations that are looked up as a whole. -/
def plainTypes : List (Text × DataType) :=
  [("boolean".toList, .boolean), ("smallint".toList, .int16), ("integer".toList, .int32),
    ("bigint".toList, .int64), ("real".toList, .float32), ("double precision".toList, .float64),
    ("text".toList, .utf8), ("character varying".toList, .utf8), ("date".toList, .date32),
    ("bytea".toList, .binary),
    ("timestamp without time zone".toList, .timestamp .microsecond none),
    ("timestamp with time zone".toList, .timestamp .microsecond (some utc))]

def pgTypeToArrow (column pg : Text) : Except Error DataType :=
  match ("numeric(".toList.isPrefixOf? pg).bind (stripLast ')') with
  | some parameters => numericToArrow column pg parameters
  | none =>
    if pg = "numeric".toList then
      rejectType column pg ("numeric without precision has no fixed-width arrow mapping; " ++
        "declare numeric(p,s) with p <= 38")
    else
      match timestampToArrow pg with
      | some dataType => .ok dataType
      | none =>
        match plainTypes.find? fun row ↦ row.1 == pg with
        | some row => .ok row.2
        | none =>
          if "character varying(".toList.isPrefixOf pg then .ok .utf8
          else if "character(".toList.isPrefixOf pg then .ok .utf8
          else rejectType column pg "outside the supported type whitelist"

/-! ### What can be declared -/

/-- The texts that a declaration with parameters begins with. -/
def typeHeads : List Text :=
  ["numeric(".toList, "timestamp(".toList, "character varying(".toList, "character(".toList]

/-- A type name that says nothing to the client. -/
structure OtherName (name : Text) : Prop where
  heads : ∀ head ∈ typeHeads, ¬ head <+: name
  numeric : name ≠ "numeric".toList
  plain : name ∉ plainTypes.map Prod.fst

/-- A type that is not an array. -/
inductive ScalarType
  | boolean
  | smallint
  | integer
  | bigint
  | real
  | doublePrecision
  | text
  | date
  | bytea
  | varying (length : Option Nat)
  | character (length : Nat)
  | numeric (parameters : Option (Nat × Int))
  | timestamp (precision : Option Nat) (zone : Bool)
  | other (name : Text) (unknown : OtherName name)

/-- What a column can be declared as. -/
inductive PgType
  | scalar (element : ScalarType)
  | array (element : ScalarType)

def parenthesized (text : Text) : Text := '(' :: text ++ [')']

def zoneText (zone : Bool) : Text :=
  if zone then "with time zone".toList else "without time zone".toList

/-- `format_type` of the server. -/
def ScalarType.formatType : ScalarType → Text
  | .boolean => "boolean".toList
  | .smallint => "smallint".toList
  | .integer => "integer".toList
  | .bigint => "bigint".toList
  | .real => "real".toList
  | .doublePrecision => "double precision".toList
  | .text => "text".toList
  | .date => "date".toList
  | .bytea => "bytea".toList
  | .varying none => "character varying".toList
  | .varying (some length) => "character varying".toList ++ parenthesized (decimal length)
  | .character length => "character".toList ++ parenthesized (decimal length)
  | .numeric none => "numeric".toList
  | .numeric (some (precision, scale)) =>
    "numeric".toList ++ parenthesized (decimal precision ++ ',' :: signedDecimal scale)
  | .timestamp none false => "timestamp without time zone".toList
  | .timestamp none true => "timestamp with time zone".toList
  | .timestamp (some precision) zone =>
    "timestamp".toList ++ parenthesized (decimal precision) ++ ' ' :: zoneText zone
  | .other name _ => name

def PgType.formatType : PgType → Text
  | .scalar element => element.formatType
  | .array element => element.formatType ++ "[]".toList

/-- A scale that fits the eight bits of a decimal type's. -/
def scaleOf (scale : Int) : Option (Signed 8) :=
  if h : -2 ^ (8 - 1) ≤ scale ∧ scale < 2 ^ (8 - 1) then some ⟨scale, h.1, h.2⟩ else none

/-- The column type that is written for a declared type. -/
def ScalarType.arrow : ScalarType → Option DataType
  | .boolean => some .boolean
  | .smallint => some .int16
  | .integer => some .int32
  | .bigint => some .int64
  | .real => some .float32
  | .doublePrecision => some .float64
  | .text | .varying _ | .character _ => some .utf8
  | .date => some .date32
  | .bytea => some .binary
  | .numeric none | .other _ _ => none
  | .numeric (some (precision, scale)) =>
    if 1 ≤ precision ∧ precision ≤ DECIMAL128_MAX_PRECISION then
      (scaleOf scale).map (.decimal128 precision)
    else none
  | .timestamp _ zone => some (.timestamp .microsecond (if zone then some utc else none))

def PgType.arrow : PgType → Option DataType
  | .scalar element => element.arrow
  | .array (.varying (some _)) | .array (.character _) => some .utf8
  | .array _ => none

/-! ### How a declaration is read -/

section Reading

variable (column : Text) {pg : Text}

theorem trim_of_edges {text : Text} (hhead : ∀ c ∈ text.head?, isWhitespace c = false)
    (hlast : ∀ c ∈ text.getLast?, isWhitespace c = false) : trim text = text := by
  have hfront : text.dropWhile isWhitespace = text := by
    cases text with
    | nil => rfl
    | cons c rest => rw [List.dropWhile_cons_of_neg (by simp [hhead c rfl])]
  rw [trim, hfront, List.rdropWhile_eq_self_iff]
  intro hne
  simp [hlast _ (List.getLast?_eq_some_getLast hne)]

/-- Each declaration of the table is found in it and can be written, and none has a parenthesis or
a bracket. -/
theorem plainTypes_spec : ∀ row ∈ plainTypes, '(' ∉ row.1 ∧ '[' ∉ row.1 ∧
    row.1 ≠ "numeric".toList ∧ isSupportedType row.2 ∧
      plainTypes.find? (fun other ↦ other.1 == row.1) = some row := by
  decide +kernel

theorem typeHeads_spec : ∀ head ∈ typeHeads, '(' ∈ head ∧ '[' ∉ head := by
  decide +kernel

/-- No head begins another. -/
theorem typeHeads_apart :
    typeHeads.Pairwise fun head other ↦ ¬ head <+: other ∧ ¬ other <+: head := by
  decide +kernel

theorem numeric_plain : '(' ∉ "numeric".toList ∧ '[' ∉ "numeric".toList := by
  decide

theorem find?_plainTypes_of_mem {c : Char} (hc : c = '(' ∨ c = '[') (hmem : c ∈ pg) :
    plainTypes.find? (fun row ↦ row.1 == pg) = none := by
  rw [List.find?_eq_none]
  intro row hrow heq
  rw [beq_iff_eq] at heq
  subst heq
  obtain ⟨hparen, hbracket, -⟩ := plainTypes_spec row hrow
  rcases hc with rfl | rfl
  · exact hparen hmem
  · exact hbracket hmem

/-- A declaration with parameters has a parenthesis. -/
theorem heads_of_not_mem (hparen : '(' ∉ pg) : ∀ head ∈ typeHeads, ¬ head <+: pg :=
  fun head hhead hleading ↦ hparen (hleading.subset (typeHeads_spec head hhead).1)

theorem isPrefixOf?_eq_none {head text : Text} (h : ¬ head <+: text) :
    head.isPrefixOf? text = none := by
  rw [Option.eq_none_iff_forall_ne_some]
  intro rest hrest
  rw [List.isPrefixOf?_eq_some_iff_append_eq] at hrest
  exact h ⟨rest, hrest⟩

/-- A declaration without parameters is looked up. -/
theorem pgTypeToArrow_of_heads (hheads : ∀ head ∈ typeHeads, ¬ head <+: pg)
    (hnumeric : pg ≠ "numeric".toList) :
    pgTypeToArrow column pg = match plainTypes.find? fun row ↦ row.1 == pg with
      | some row => .ok row.2
      | none => rejectType column pg "outside the supported type whitelist" := by
  simp only [typeHeads, List.forall_mem_cons] at hheads
  obtain ⟨hnumber, htime, hvarying, hcharacter, -⟩ := hheads
  have hno {head : Text} (h : ¬ head <+: pg) : ¬ head.isPrefixOf pg = true := by
    rwa [List.isPrefixOf_iff_prefix]
  simp only [pgTypeToArrow, timestampToArrow, isPrefixOf?_eq_none hnumber,
    isPrefixOf?_eq_none htime, Option.bind_none, if_neg hnumeric, if_neg (hno hvarying),
    if_neg (hno hcharacter)]

/-- A declaration begins with one head only, and has its parenthesis. -/
theorem not_prefix_of_head (i : Nat) {head : Text} (hhead : typeHeads[i]? = some head)
    (hleading : head <+: pg) : (∀ j other, typeHeads[j]? = some other → j ≠ i → ¬ other <+: pg) ∧
      pg ≠ "numeric".toList ∧ '(' ∈ pg := by
  have hparen := hleading.subset (typeHeads_spec head (List.mem_of_getElem? hhead)).1
  refine ⟨fun j other hother hne hclash ↦ ?_, fun heq ↦ numeric_plain.1 (heq ▸ hparen), hparen⟩
  obtain ⟨hi, rfl⟩ := List.getElem?_eq_some_iff.mp hhead
  obtain ⟨hj, rfl⟩ := List.getElem?_eq_some_iff.mp hother
  have hapart := List.pairwise_iff_getElem.mp typeHeads_apart
  have hboth := List.prefix_or_prefix_of_prefix hclash hleading
  rcases lt_or_gt_of_ne hne with hlt | hgt
  · exact hboth.elim (hapart j i hj hi hlt).1 (hapart j i hj hi hlt).2
  · exact hboth.elim (hapart i j hi hj hgt).2 (hapart i j hi hj hgt).1

/-- A text with a length is a text, whatever follows. -/
theorem pgTypeToArrow_text (h : "character varying(".toList <+: pg ∨ "character(".toList <+: pg) :
    pgTypeToArrow column pg = .ok .utf8 := by
  have hclear : ¬ "numeric(".toList <+: pg ∧ ¬ "timestamp(".toList <+: pg ∧
      pg ≠ "numeric".toList ∧ '(' ∈ pg := by
    rcases h with h | h
    · obtain ⟨hother, hplain⟩ := not_prefix_of_head 2 rfl h
      exact ⟨hother 0 _ rfl (by decide), hother 1 _ rfl (by decide), hplain⟩
    · obtain ⟨hother, hplain⟩ := not_prefix_of_head 3 rfl h
      exact ⟨hother 0 _ rfl (by decide), hother 1 _ rfl (by decide), hplain⟩
  obtain ⟨hnumber, htime, hnumeric, hparen⟩ := hclear
  simp only [pgTypeToArrow, timestampToArrow, isPrefixOf?_eq_none hnumber,
    isPrefixOf?_eq_none htime, Option.bind_none, if_neg hnumeric,
    find?_plainTypes_of_mem (Or.inl rfl) hparen, List.isPrefixOf_iff_prefix]
  rcases h with h | h
  · rw [if_pos h]
  · rw [if_pos h, ite_self]

/-- A declaration that nothing of the whitelist covers is refused. -/
theorem pgTypeToArrow_rejects
    (hnumber : ("numeric(".toList.isPrefixOf? pg).bind (stripLast ')') = none)
    (hnumeric : pg ≠ "numeric".toList) (htime : timestampToArrow pg = none)
    (hplain : plainTypes.find? (fun row ↦ row.1 == pg) = none)
    (hvarying : ¬ "character varying(".toList <+: pg) (hcharacter : ¬ "character(".toList <+: pg) :
    pgTypeToArrow column pg = rejectType column pg "outside the supported type whitelist" := by
  simp only [pgTypeToArrow, hnumber, if_neg hnumeric, htime, hplain, List.isPrefixOf_iff_prefix,
    if_neg hvarying, if_neg hcharacter]

theorem isPrefixOf?_append (head rest : Text) : head.isPrefixOf? (head ++ rest) = some rest :=
  List.isPrefixOf?_eq_some_iff_append_eq.mpr rfl

theorem numeric_parenthesized (parameters rest : Text) :
    "numeric(".toList.isPrefixOf? ("numeric".toList ++ parenthesized parameters ++ rest) =
      some (parameters ++ ')' :: rest) := by
  have hcut : "numeric".toList ++ parenthesized parameters ++ rest =
      "numeric(".toList ++ (parameters ++ ')' :: rest) := by
    simp [parenthesized]
  rw [hcut, isPrefixOf?_append]

theorem pgTypeToArrow_numeric (parameters : Text) :
    pgTypeToArrow column ("numeric".toList ++ parenthesized parameters) =
      numericToArrow column ("numeric".toList ++ parenthesized parameters) parameters := by
  have hcut := numeric_parenthesized parameters []
  rw [List.append_nil] at hcut
  have hstrip : stripLast ')' (parameters ++ [')']) = some parameters := by
    rw [stripLast, List.getLast?_concat, if_pos rfl, List.dropLast_concat]
  simp only [pgTypeToArrow, hcut, Option.bind_some, hstrip]

theorem timestampToArrow_parenthesized (precision : Nat) (rest : Text) :
    timestampToArrow ("timestamp".toList ++ parenthesized (decimal precision) ++ rest) =
      zoneToArrow rest := by
  have hcut : "timestamp".toList ++ parenthesized (decimal precision) ++ rest =
      "timestamp(".toList ++ (decimal precision ++ ')' :: rest) := by
    simp [parenthesized]
  rw [timestampToArrow, hcut, isPrefixOf?_append, Option.bind_some,
    splitOnce_append (not_mem_decimal (by decide)), Option.bind_some]

/-! ### The parameters of a number -/

theorem trim_of_digits {text : Text} (hdigits : ∀ c ∈ text, c.isDigit ∨ c = '-') :
    trim text = text := by
  have hplain {c : Char} (hc : c ∈ text) : isWhitespace c = false := by
    rcases hdigits c hc with hdigit | rfl
    · obtain ⟨hlow, hhigh⟩ := toNat_of_isDigit hdigit
      simp [isWhitespace]
      omega
    · decide
  exact trim_of_edges (fun c hc ↦ hplain (List.mem_of_mem_head? hc)) fun c hc ↦
    hplain (List.mem_of_mem_getLast? hc)

theorem digitsValue_decimal (n : Nat) : digitsValue (decimal n) = some n :=
  digitsValue_eq_some_iff.mpr
    ⟨decimal_ne_nil n, fun _ hc ↦ isDigit_of_mem_decimal hc, readDecimal_decimal n⟩

theorem parseUnsigned_decimal (maximum n : Nat) :
    parseUnsigned maximum (decimal n) = if n ≤ maximum then some n else none := by
  rw [parseUnsigned, stripPlus_of_not_mem (not_mem_decimal (by decide)), digitsValue_decimal]
  simp [Option.filter_some]

theorem parseSigned_signedDecimal {bound : Nat} (hbound : 0 < bound) (n : Int) :
    parseSigned bound (signedDecimal n) =
      if -(bound : Int) ≤ n ∧ n < bound then some n else none := by
  unfold signedDecimal
  by_cases hn : n < 0
  · rw [if_pos hn, parseSigned, digitsValue_decimal, Option.filter_some]
    by_cases hfits : n.natAbs ≤ bound
    · rw [if_pos (decide_eq_true hfits), if_pos (by omega), Option.map_some]
      congr 1
      omega
    · rw [if_neg (by simpa using hfits), if_neg (by omega), Option.map_none]
  · rw [if_neg hn, parseSigned_of_digits (not_mem_decimal (by decide)), parseUnsigned_decimal]
    by_cases hfits : n.natAbs ≤ bound - 1
    · rw [if_pos hfits, if_pos (by omega), Option.map_some]
      congr 1
      omega
    · rw [if_neg hfits, if_neg (by omega), Option.map_none]

/-- A printed scale is read as itself where it fits. -/
theorem parseScale_signedDecimal (scale : Int) :
    parseScale (signedDecimal scale) = scaleOf scale := by
  rw [parseScale, parseSigned_signedDecimal (by decide), scaleOf]
  by_cases hfits : -2 ^ (8 - 1) ≤ scale ∧ scale < 2 ^ (8 - 1)
  · rw [if_pos (by simpa using hfits), Option.bind_some]
  · rw [if_neg (by simpa using hfits), Option.bind_none, dif_neg hfits]

/-- Printed parameters are read as themselves. -/
theorem numericToArrow_printed (precision : Nat) (scale : Int) :
    numericToArrow column pg (decimal precision ++ ',' :: signedDecimal scale) =
      match (if precision ≤ 255 then some precision else none), scaleOf scale with
      | some precision, some scale =>
        if 1 ≤ precision ∧ precision ≤ DECIMAL128_MAX_PRECISION then
          .ok (.decimal128 precision scale)
        else rejectType column pg ("precision " ++ toString precision ++
          " exceeds the Decimal128 maximum of " ++ toString DECIMAL128_MAX_PRECISION)
      | _, _ => rejectType column pg "unparseable numeric parameters" := by
  have hpieces : (decimal precision ++ ',' :: signedDecimal scale).splitOn ',' =
      [decimal precision, signedDecimal scale] := by
    rw [List.splitOn_append_cons_self_of_not_mem (not_mem_decimal (by decide)),
      List.splitOn_eq_singleton (not_mem_signedDecimal (by decide) (by decide))]
  have hprecision : trim (decimal precision) = decimal precision :=
    trim_of_digits fun _ hc ↦ Or.inl (isDigit_of_mem_decimal hc)
  have hscale : trim (signedDecimal scale) = signedDecimal scale := by
    refine trim_of_digits fun c hc ↦ ?_
    unfold signedDecimal at hc
    split_ifs at hc
    · rcases List.mem_cons.mp hc with rfl | hdigit
      · exact Or.inr rfl
      · exact Or.inl (isDigit_of_mem_decimal hdigit)
    · exact Or.inl (isDigit_of_mem_decimal hc)
  simp only [numericToArrow, hpieces, List.head?_cons, Option.bind_some, hprecision,
    parseUnsigned_decimal, List.getElem?_cons_succ, List.getElem?_cons_zero, hscale,
    parseScale_signedDecimal]

end Reading

/-! ### What is read of a printed declaration -/

section Printed

variable (column : Text)

/-- The declaration is read as what it is written as, or refused. -/
def ReadAs (column pg : Text) : Option DataType → Prop
  | some dataType => pgTypeToArrow column pg = .ok dataType
  | none => ∃ reason, pgTypeToArrow column pg = rejectType column pg reason

theorem readAs_ok {pg : Text} {dataType : DataType}
    (h : pgTypeToArrow column pg = .ok dataType) : ReadAs column pg (some dataType) := h

theorem readAs_reject {pg : Text} {reason : String}
    (h : pgTypeToArrow column pg = rejectType column pg reason) : ReadAs column pg none :=
  ⟨reason, h⟩

/-- A declaration of the table is read as what it stands for. -/
theorem readAs_plain {pg : Text} {dataType : DataType} (i : Nat)
    (h : plainTypes[i]? = some (pg, dataType)) : ReadAs column pg (some dataType) := by
  obtain ⟨hparen, -, hnumeric, -, hfound⟩ := plainTypes_spec _ (List.mem_of_getElem? h)
  refine readAs_ok column ?_
  rw [pgTypeToArrow_of_heads column (heads_of_not_mem hparen) hnumeric, hfound]

/-- An array is not on the whitelist. -/
theorem readAs_bracket {pg : Text} (hheads : ∀ head ∈ typeHeads, ¬ head <+: pg)
    (hbracket : '[' ∈ pg) : ReadAs column pg none := by
  have hnumeric : pg ≠ "numeric".toList := fun heq ↦ numeric_plain.2 (heq ▸ hbracket)
  have hread := pgTypeToArrow_of_heads column hheads hnumeric
  rw [find?_plainTypes_of_mem (Or.inr rfl) hbracket] at hread
  exact readAs_reject column hread

theorem mem_array (text : Text) : '[' ∈ text ++ "[]".toList :=
  List.mem_append_right _ List.mem_cons_self

theorem not_mem_array {text : Text} (h : '(' ∉ text) : '(' ∉ text ++ "[]".toList := fun hmem ↦
  (List.mem_append.mp hmem).elim h (by decide)

theorem readAs_plain_array {pg : Text} {dataType : DataType} (i : Nat)
    (h : plainTypes[i]? = some (pg, dataType)) : ReadAs column (pg ++ "[]".toList) none := by
  obtain ⟨hparen, -⟩ := plainTypes_spec _ (List.mem_of_getElem? h)
  exact readAs_bracket column (heads_of_not_mem (not_mem_array hparen)) (mem_array pg)

theorem readAs_other {name : Text} (h : OtherName name) : ReadAs column name none := by
  have hnone : plainTypes.find? (fun row ↦ row.1 == name) = none := by
    rw [List.find?_eq_none]
    intro row hrow heq
    exact h.plain (List.mem_map.mpr ⟨row, hrow, beq_iff_eq.mp heq⟩)
  have hread := pgTypeToArrow_of_heads column h.heads h.numeric
  rw [hnone] at hread
  exact readAs_reject column hread

theorem readAs_other_array {name : Text} (h : OtherName name) :
    ReadAs column (name ++ "[]".toList) none := by
  refine readAs_bracket column (fun head hhead hleading ↦ h.heads head hhead ?_) (mem_array name)
  exact (prefix_append_stop_iff (typeHeads_spec head hhead).2).mp hleading

theorem readAs_numeric (precision : Nat) (scale : Int) :
    ReadAs column
      ("numeric".toList ++ parenthesized (decimal precision ++ ',' :: signedDecimal scale))
      (if 1 ≤ precision ∧ precision ≤ DECIMAL128_MAX_PRECISION then
        (scaleOf scale).map (.decimal128 precision)
      else none) := by
  have hread := pgTypeToArrow_numeric column
    (decimal precision ++ ',' :: signedDecimal scale)
  rw [numericToArrow_printed] at hread
  by_cases hprecision : 1 ≤ precision ∧ precision ≤ DECIMAL128_MAX_PRECISION
  · have hsmall : precision ≤ 255 := hprecision.2.trans (by decide)
    rw [if_pos hsmall] at hread
    rw [if_pos hprecision]
    cases hscale : scaleOf scale with
    | none =>
      simp only [hscale] at hread
      exact readAs_reject column hread
    | some fitting =>
      simp only [hscale, if_pos hprecision] at hread
      exact readAs_ok column hread
  · rw [if_neg hprecision]
    by_cases hsmall : precision ≤ 255
    · rw [if_pos hsmall] at hread
      cases hscale : scaleOf scale with
      | none =>
        simp only [hscale] at hread
        exact readAs_reject column hread
      | some fitting =>
        simp only [hscale, if_neg hprecision] at hread
        exact readAs_reject column hread
    · rw [if_neg hsmall] at hread
      exact readAs_reject column hread

/-- An array of numbers with parameters does not end like one number. -/
theorem readAs_numeric_array (parameters : Text) :
    ReadAs column ("numeric".toList ++ parenthesized parameters ++ "[]".toList) none := by
  have hhead : "numeric(".toList <+: "numeric".toList ++ parenthesized parameters ++ "[]".toList :=
    ⟨parameters ++ ')' :: "[]".toList, by simp [parenthesized]⟩
  obtain ⟨hother, hnumeric, hparen⟩ := not_prefix_of_head 0 rfl hhead
  refine readAs_reject column (pgTypeToArrow_rejects column ?_ hnumeric ?_
    (find?_plainTypes_of_mem (Or.inl rfl) hparen) (hother 2 _ rfl (by decide))
    (hother 3 _ rfl (by decide)))
  · rw [numeric_parenthesized, Option.bind_some, stripLast, if_neg]
    simp
  · rw [timestampToArrow, isPrefixOf?_eq_none (hother 1 _ rfl (by decide)), Option.bind_none]

/-- A timestamp with a precision is read by what follows the precision. -/
theorem readAs_timestamp (precision : Nat) {rest : Text} {found : Option DataType}
    (hfound : zoneToArrow rest = found) :
    ReadAs column ("timestamp".toList ++ parenthesized (decimal precision) ++ rest) found := by
  have hread := (timestampToArrow_parenthesized precision rest).trans hfound
  have hhead : "timestamp(".toList <+:
      "timestamp".toList ++ parenthesized (decimal precision) ++ rest :=
    ⟨decimal precision ++ ')' :: rest, by simp [parenthesized]⟩
  obtain ⟨hother, hnumeric, hparen⟩ := not_prefix_of_head 1 rfl hhead
  have hnumber : "numeric(".toList.isPrefixOf?
      ("timestamp".toList ++ parenthesized (decimal precision) ++ rest) = none :=
    isPrefixOf?_eq_none (hother 0 _ rfl (by decide))
  cases found with
  | some dataType =>
    refine readAs_ok column ?_
    simp only [pgTypeToArrow, hnumber, Option.bind_none, if_neg hnumeric, hread]
  | none =>
    exact readAs_reject column (pgTypeToArrow_rejects column
      (by rw [hnumber, Option.bind_none]) hnumeric hread
      (find?_plainTypes_of_mem (Or.inl rfl) hparen)
      (hother 2 _ rfl (by decide)) (hother 3 _ rfl (by decide)))

theorem readAs_varying (length : Nat) (rest : Text) :
    ReadAs column ("character varying".toList ++ parenthesized (decimal length) ++ rest)
      (some .utf8) :=
  readAs_ok column (pgTypeToArrow_text column (Or.inl
    ⟨decimal length ++ ')' :: rest, by simp [parenthesized]⟩))

theorem readAs_character (length : Nat) (rest : Text) :
    ReadAs column ("character".toList ++ parenthesized (decimal length) ++ rest) (some .utf8) :=
  readAs_ok column (pgTypeToArrow_text column (Or.inr
    ⟨decimal length ++ ')' :: rest, by simp [parenthesized]⟩))

/-- The zone is read, unless an array's brackets follow. -/
theorem zoneToArrow_zoneText : ∀ zone : Bool,
    zoneToArrow (' ' :: zoneText zone) =
        some (.timestamp .microsecond (if zone then some utc else none)) ∧
      zoneToArrow (' ' :: zoneText zone ++ "[]".toList) = none := by
  decide +kernel

theorem readAs_scalar (element : ScalarType) : ReadAs column element.formatType element.arrow := by
  cases element with
  | boolean => exact readAs_plain column 0 rfl
  | smallint => exact readAs_plain column 1 rfl
  | integer => exact readAs_plain column 2 rfl
  | bigint => exact readAs_plain column 3 rfl
  | real => exact readAs_plain column 4 rfl
  | doublePrecision => exact readAs_plain column 5 rfl
  | text => exact readAs_plain column 6 rfl
  | date => exact readAs_plain column 8 rfl
  | bytea => exact readAs_plain column 9 rfl
  | varying length =>
    cases length with
    | none => exact readAs_plain column 7 rfl
    | some length =>
      have hread := readAs_varying column length []
      rw [List.append_nil] at hread
      exact hread
  | character length =>
    have hread := readAs_character column length []
    rw [List.append_nil] at hread
    exact hread
  | numeric parameters =>
    rcases parameters with _ | ⟨precision, scale⟩
    · exact ⟨_, rfl⟩
    · exact readAs_numeric column precision scale
  | timestamp precision zone =>
    cases precision with
    | none =>
      cases zone with
      | false => exact readAs_plain column 10 rfl
      | true => exact readAs_plain column 11 rfl
    | some precision => exact readAs_timestamp column precision (zoneToArrow_zoneText zone).1
  | other name unknown => exact readAs_other column unknown

theorem readAs_array (element : ScalarType) :
    ReadAs column (PgType.array element).formatType (PgType.array element).arrow := by
  cases element with
  | boolean => exact readAs_plain_array column 0 rfl
  | smallint => exact readAs_plain_array column 1 rfl
  | integer => exact readAs_plain_array column 2 rfl
  | bigint => exact readAs_plain_array column 3 rfl
  | real => exact readAs_plain_array column 4 rfl
  | doublePrecision => exact readAs_plain_array column 5 rfl
  | text => exact readAs_plain_array column 6 rfl
  | date => exact readAs_plain_array column 8 rfl
  | bytea => exact readAs_plain_array column 9 rfl
  | varying length =>
    cases length with
    | none => exact readAs_plain_array column 7 rfl
    | some length => exact readAs_varying column length _
  | character length => exact readAs_character column length _
  | numeric parameters =>
    rcases parameters with _ | ⟨precision, scale⟩
    · exact readAs_bracket column (heads_of_not_mem (not_mem_array numeric_plain.1)) (mem_array _)
    · exact readAs_numeric_array column _
  | timestamp precision zone =>
    cases precision with
    | none =>
      cases zone with
      | false => exact readAs_plain_array column 10 rfl
      | true => exact readAs_plain_array column 11 rfl
    | some precision =>
      have hread := readAs_timestamp column precision (zoneToArrow_zoneText zone).2
      rw [← List.append_assoc] at hread
      exact hread
  | other name unknown => exact readAs_other_array column unknown

/-- Every type that a column can be declared with, as the server prints it, is read as what it is:
with its precision and scale, its time zone, or as a text. All others are refused with the column
and the declaration, arrays too, unless their elements are texts with a length: these are taken for
texts. -/
theorem pgTypeToArrow_formatType (column : Text) (declared : PgType) :
    ReadAs column declared.formatType declared.arrow := by
  cases declared with
  | scalar element => exact readAs_scalar column element
  | array element => exact readAs_array column element

/-- Whatever the declaration, what it is read as can be written. -/
theorem pgTypeToArrow_supported {pg : Text} {dataType : DataType}
    (h : pgTypeToArrow column pg = .ok dataType) : isSupportedType dataType := by
  unfold pgTypeToArrow at h
  split at h
  · simp only [numericToArrow, rejectType] at h
    split at h
    · split_ifs at h
      obtain rfl := Except.ok.inj h
      rfl
    · simp at h
  · split at h
    · simp [rejectType] at h
    · split at h
      · next htime =>
        obtain rfl := Except.ok.inj h
        simp only [timestampToArrow, Option.bind_eq_some_iff, zoneToArrow] at htime
        obtain ⟨rest, -, cut, -, hzone⟩ := htime
        split_ifs at hzone <;>
          · obtain rfl := Option.some.inj hzone
            rfl
      · split at h
        · next row hfound =>
          obtain rfl := Except.ok.inj h
          exact (plainTypes_spec row (List.mem_of_find?_eq_some hfound)).2.2.2.1
        · split at h
          · obtain rfl := Except.ok.inj h
            rfl
          · split at h
            · obtain rfl := Except.ok.inj h
              rfl
            · simp [rejectType] at h

end Printed

end RelytIngest
