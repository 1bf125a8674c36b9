import RelytIngest.Naming.KeyLayout
import RelytIngest.Foundations.DecimalValue
import Mathlib.Data.Nat.Log

/-!
# The names a server sees

A job carries the serial group of its writer, which orders it together with the serial seq of its
file, and an identifier, which is its idempotency key. A validated writer id has no colon, so the
colons cut both texts in one way, and two files share an identifier exactly when they share the
group and the seq (`identifier_matches_order`). An identifier always fits its 128 bytes. The group
is taken to fit 64 bytes and does so for short writer ids only (`serial_group_fits`).
-/

set_option autoImplicit false
set_option relaxedAutoImplicit false

namespace RelytIngest

open Foundations

/-- `str::len`: the length in bytes. -/
def byteLength (text : Text) : Nat := (text.map Char.utf8Size).sum

/-- The server's cap on a serial group, as `serial_group` and `Error::Naming` give it. -/
def serialGroupCap : Nat := 64

@[simp] theorem byteLength_append (front back : Text) :
    byteLength (front ++ back) = byteLength front + byteLength back := by
  simp [byteLength]

@[simp] theorem byteLength_cons (c : Char) (rest : Text) :
    byteLength (c :: rest) = c.utf8Size + byteLength rest := by
  simp [byteLength]

/-- Digits take one byte each. -/
theorem byteLength_digits {digits : Text} (hdigits : ∀ c ∈ digits, c.isDigit) :
    byteLength digits = digits.length := by
  induction digits with
  | nil => rfl
  | cons c rest ih =>
    rw [List.forall_mem_cons] at hdigits
    have hsize : c.utf8Size = 1 := by
      have hbound : c.toNat ≤ 127 := (toNat_of_isDigit hdigits.1).2.trans (by decide)
      exact Char.utf8Size_eq_one_iff.mpr (UInt32.le_iff_toNat_le.mpr hbound)
    rw [byteLength_cons, ih hdigits.2, hsize, List.length_cons, Nat.add_comm]

@[simp] theorem byteLength_decimal (n : Nat) : byteLength (decimal n) = (decimal n).length :=
  byteLength_digits fun _ ↦ isDigit_of_mem_decimal

/-- A number has one digit more than its logarithm. -/
theorem length_decimal_eq_log (n : Nat) : (decimal n).length = Nat.log 10 n + 1 := by
  have hupper := length_decimal_le (Nat.succ_pos _) (Nat.lt_pow_succ_log_self (by decide) n)
  refine le_antisymm hupper ?_
  by_cases hlog : Nat.log 10 n = 0
  · rw [hlog]
    exact List.length_pos_iff.mpr (decimal_ne_nil n)
  · refine (lt_length_decimal_iff (Nat.pos_of_ne_zero hlog)).mpr (Nat.pow_log_le_self 10 ?_)
    rintro rfl
    exact hlog (Nat.log_zero_right 10)

namespace WriterIdentity

/-- The OIDs are 32-bit numbers. -/
def OidsFit (ident : WriterIdentity) : Prop := ident.dbOid < 2 ^ 32 ∧ ident.relOid < 2 ^ 32

instance (ident : WriterIdentity) : Decidable ident.OidsFit :=
  inferInstanceAs (Decidable (_ ∧ _))

theorem byteLength_serialGroup (ident : WriterIdentity) :
    byteLength ident.serialGroup =
      Nat.log 10 ident.dbOid + Nat.log 10 ident.relOid + byteLength ident.writerId + 4 := by
  have hcolon : (':' : Char).utf8Size = 1 := rfl
  simp only [serialGroup, byteLength_append, byteLength_cons, byteLength_decimal,
    length_decimal_eq_log, hcolon]
  omega

/-- A 32-bit number has at most ten digits. -/
theorem log_oid_le {oid : Nat} (hoid : oid < 2 ^ 32) : Nat.log 10 oid ≤ 9 :=
  Nat.le_of_lt_succ (Nat.log_lt_of_lt_pow' (by decide) (by omega))

/-- A validated writer id has at most 64 bytes and no colon. -/
theorem writerId_of_valid {writerId : Text} (hvalid : validateWriterId writerId = .ok ()) :
    byteLength writerId ≤ 64 ∧ ':' ∉ writerId := by
  have hsegment := ((validateWriterId_eq_ok_iff _).mp hvalid).1
  obtain ⟨-, hlength, -, hchars⟩ := (validatePathSegment_eq_ok_iff _ _).mp hsegment
  exact ⟨hlength, fun hmem ↦ absurd (hchars ':' hmem) (by decide)⟩

/-- A serial group is cut in one way, also in front of what the identifier appends to it. -/
theorem serialGroup_append_inj {first second : WriterIdentity} {rest rest' : Text}
    (hfirst : ':' ∉ first.writerId) (hsecond : ':' ∉ second.writerId)
    (h : first.serialGroup ++ ':' :: rest = second.serialGroup ++ ':' :: rest') :
    first.serialGroup = second.serialGroup ∧ rest = rest' := by
  simp only [serialGroup, List.append_assoc, List.cons_append] at h
  obtain ⟨hdb, h⟩ := append_cons_inj (not_mem_decimal (by decide)) (not_mem_decimal (by decide)) h
  obtain ⟨hrel, h⟩ := append_cons_inj (not_mem_decimal (by decide)) (not_mem_decimal (by decide)) h
  obtain ⟨hwriter, hrest⟩ := append_cons_inj hfirst hsecond h
  exact ⟨by rw [serialGroup, serialGroup, hdb, hrel, hwriter], hrest⟩

end WriterIdentity

namespace StagedFile

/-- Files whose names encode have one packed value exactly when they have one epoch and one seq. -/
theorem packed_eq_iff {first second : StagedFile} (hfirst : first.seq ≤ MAX_SEQ)
    (hsecond : second.seq ≤ MAX_SEQ) :
    first.packed = second.packed ↔ first.epochMs = second.epochMs ∧ first.seq = second.seq := by
  have := maxSeq_eq
  simp only [packed]
  omega

/-- The identifier of a file whose seq encodes is never too long. -/
theorem identifier_fits {file : StagedFile} {ident : WriterIdentity} {value : Int}
    (hwriter : validateWriterId ident.writerId = .ok ()) (hoids : ident.OidsFit)
    (hencodes : file.serialSeq = .ok value) :
    file.identifier ident = .ok (file.identifierText ident) := by
  obtain ⟨hepoch, hseq, -⟩ := (serialSeq_eq_ok_iff file value).mp hencodes
  rw [maxEpochMs_eq] at hepoch
  rw [maxSeq_eq] at hseq
  have hgroup := ident.byteLength_serialGroup
  have hdb := WriterIdentity.log_oid_le hoids.1
  have hrel := WriterIdentity.log_oid_le hoids.2
  have hid := (WriterIdentity.writerId_of_valid hwriter).1
  have hepochLength : (decimal file.epochMs).length ≤ 13 := length_decimal_le (by decide) (by omega)
  have hseqLength : (decimal file.seq).length ≤ 7 := length_decimal_le (by decide) (by omega)
  have hcolon : (':' : Char).utf8Size = 1 := rfl
  have hlength : byteLength (file.identifierText ident) ≤ IDENTIFIER_MAX_LEN := by
    simp only [identifierText, byteLength_append, byteLength_cons, byteLength_decimal, hcolon,
      IDENTIFIER_MAX_LEN]
    omega
  exact if_neg (Nat.not_lt.mpr hlength)

/-- Two identifiers are equal exactly when the groups and the numbers within them are. -/
theorem identifierText_eq_iff {file other : StagedFile} {first second : WriterIdentity}
    (hfirst : ':' ∉ first.writerId) (hsecond : ':' ∉ second.writerId) :
    file.identifierText first = other.identifierText second ↔
      first.serialGroup = second.serialGroup ∧
        file.epochMs = other.epochMs ∧ file.seq = other.seq := by
  constructor
  · intro h
    simp only [identifierText, List.append_assoc, List.cons_append] at h
    obtain ⟨hgroup, h⟩ := WriterIdentity.serialGroup_append_inj hfirst hsecond h
    obtain ⟨hepoch, hseq⟩ := append_cons_inj (not_mem_decimal (by decide))
      (not_mem_decimal (by decide)) h
    exact ⟨hgroup, decimal_injective hepoch, decimal_injective hseq⟩
  · rintro ⟨hgroup, hepoch, hseq⟩
    rw [identifierText, identifierText, hgroup, hepoch, hseq]

end StagedFile

/-- The idempotency key of a file and the key it is ordered by tell the same files apart. -/
theorem identifier_matches_order (first second : WriterIdentity) (file other : StagedFile)
    (serialSeq serialSeq' : Int) (hfirst : validateWriterId first.writerId = .ok ())
    (hsecond : validateWriterId second.writerId = .ok ()) (hfirstOids : first.OidsFit)
    (hsecondOids : second.OidsFit) (hfile : file.serialSeq = .ok serialSeq)
    (hother : other.serialSeq = .ok serialSeq') :
    ∃ identifier identifier', file.identifier first = .ok identifier ∧
      other.identifier second = .ok identifier' ∧
      (identifier = identifier' ↔
        first.serialGroup = second.serialGroup ∧ serialSeq = serialSeq') := by
  refine ⟨_, _, StagedFile.identifier_fits hfirst hfirstOids hfile,
    StagedFile.identifier_fits hsecond hsecondOids hother, ?_⟩
  obtain ⟨-, hseq, rfl⟩ := (StagedFile.serialSeq_eq_ok_iff file serialSeq).mp hfile
  obtain ⟨-, hseq', rfl⟩ := (StagedFile.serialSeq_eq_ok_iff other serialSeq').mp hother
  rw [StagedFile.identifierText_eq_iff (WriterIdentity.writerId_of_valid hfirst).2
    (WriterIdentity.writerId_of_valid hsecond).2, StagedFile.packed_eq_iff hseq hseq']

/-- The writers `w-0` and `w-1` of one table, at the largest seq of an epoch and the next one. -/
theorem identifier_matches_order_neighbours :
    ∃ identifier identifier',
      StagedFile.identifier ⟨7, 1048575, 0, 9, false⟩ ⟨['c'], 4294967295, 2, "w-0".toList⟩ =
        .ok identifier ∧
      StagedFile.identifier ⟨8, 0, 0, 9, false⟩ ⟨['c'], 4294967295, 2, "w-1".toList⟩ =
        .ok identifier' ∧
      (identifier = identifier' ↔
        WriterIdentity.serialGroup ⟨['c'], 4294967295, 2, "w-0".toList⟩ =
            WriterIdentity.serialGroup ⟨['c'], 4294967295, 2, "w-1".toList⟩ ∧
          (8388607 : Int) = 8388608) :=
  identifier_matches_order ⟨['c'], 4294967295, 2, "w-0".toList⟩
    ⟨['c'], 4294967295, 2, "w-1".toList⟩ ⟨7, 1048575, 0, 9, false⟩ ⟨8, 0, 0, 9, false⟩
    8388607 8388608 (by decide) (by decide) (by decide) (by decide) (by decide) (by decide)

/-- The serial group of a writer id fits the cap exactly when the id is short enough next to the
digits of the two OIDs, and for every pair of OIDs when it has at most 42 bytes. -/
theorem serial_group_fits (clusterId writerId : Text) :
    (∀ dbOid < 2 ^ 32, ∀ relOid < 2 ^ 32,
      (byteLength (WriterIdentity.serialGroup ⟨clusterId, dbOid, relOid, writerId⟩) ≤
          serialGroupCap ↔
        byteLength writerId ≤ 60 - (Nat.log 10 dbOid + Nat.log 10 relOid))) ∧
      ((∀ dbOid < 2 ^ 32, ∀ relOid < 2 ^ 32,
        byteLength (WriterIdentity.serialGroup ⟨clusterId, dbOid, relOid, writerId⟩) ≤
          serialGroupCap) ↔ byteLength writerId ≤ 42) := by
  have hfits (dbOid relOid : Nat) (hdb : dbOid < 2 ^ 32) (hrel : relOid < 2 ^ 32) :
      byteLength (WriterIdentity.serialGroup ⟨clusterId, dbOid, relOid, writerId⟩) ≤
          serialGroupCap ↔
        byteLength writerId ≤ 60 - (Nat.log 10 dbOid + Nat.log 10 relOid) := by
    have hlog := WriterIdentity.log_oid_le hdb
    have hlog' := WriterIdentity.log_oid_le hrel
    simp only [WriterIdentity.byteLength_serialGroup, serialGroupCap]
    omega
  refine ⟨fun dbOid hdb relOid hrel ↦ hfits dbOid relOid hdb hrel, fun hall ↦ ?_,
    fun hshort dbOid hdb relOid hrel ↦ (hfits dbOid relOid hdb hrel).mpr ?_⟩
  · have hlargest : 4294967295 < 2 ^ 32 := by decide
    have hlog : Nat.log 10 4294967295 = 9 :=
      Nat.log_eq_of_pow_le_of_lt_pow (by decide) (by decide)
    have hbound := (hfits _ _ hlargest hlargest).mp (hall _ hlargest _ hlargest)
    rwa [hlog] at hbound
  · have hlog := WriterIdentity.log_oid_le hdb
    have hlog' := WriterIdentity.log_oid_le hrel
    omega

/-- An id of 64 characters is accepted, and its group has 86 bytes with the largest OIDs. -/
theorem serial_group_too_long :
    validateWriterId (List.replicate 64 'w') = .ok () ∧
      ¬byteLength (WriterIdentity.serialGroup
        ⟨['c'], 4294967295, 4294967295, List.replicate 64 'w'⟩) ≤ serialGroupCap := by
  decide

end RelytIngest
