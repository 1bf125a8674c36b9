import RelytIngest.Naming

/-!
# The layout of the keys

Staged files live under `staging/`, the state file and the lease of a writer under `_meta/`, each
below one directory per identity. `validateWriterId` and `validateClusterId` keep the free-form
segments of a path apart from its separators, and that is all the layout rests on: `key_layout` says
that a staging directory contains the keys of its own identity only, that no key of a staged file is
a prefix of the key of another one, whatever their widths and suffixes, and that no bookkeeping key
is in the way of a staged file.
-/

set_option autoImplicit false
set_option relaxedAutoImplicit false

namespace RelytIngest

open Foundations

/-! ### What a path segment may be -/

def WRITER_ID_MAX_LEN : Nat := 64

/-- `[A-Za-z0-9._-]`. -/
def segmentChar (c : Char) : Bool := c.isAlphanum || c == '.' || c == '_' || c == '-'

/-- `validate_path_segment`; the length is counted in bytes. -/
def validatePathSegment (kind : String) (value : Text) : Except Error Unit :=
  if value = [] ∨ WRITER_ID_MAX_LEN < (value.map Char.utf8Size).sum then
    .error (.config (kind ++ " must be 1..=" ++ toString WRITER_ID_MAX_LEN ++ " chars, got " ++
      toString (value.map Char.utf8Size).sum))
  else if value.all (· == '.') then
    .error (.config (kind ++ " `" ++ String.ofList value ++ "` is not a valid path segment"))
  else
    match value.find? fun c ↦ !segmentChar c with
    | some bad =>
      .error (.config (kind ++ " contains `" ++ bad.toString ++
        "`; allowed characters are [A-Za-z0-9._-]"))
    | none => .ok ()

def validateWriterId (writerId : Text) : Except Error Unit := do
  validatePathSegment "writer_id" writerId
  if writerId.head? = some '_' then
    .error (.config "writer_id must not start with '_' (reserved for bookkeeping)")
  else .ok ()

def validateClusterId (clusterId : Text) : Except Error Unit :=
  validatePathSegment "cluster_id" clusterId

theorem validatePathSegment_eq_ok_iff (kind : String) (value : Text) :
    validatePathSegment kind value = .ok () ↔
      value ≠ [] ∧ (value.map Char.utf8Size).sum ≤ WRITER_ID_MAX_LEN ∧
        (∃ c ∈ value, c ≠ '.') ∧ ∀ c ∈ value, segmentChar c := by
  unfold validatePathSegment
  by_cases hlength : value = [] ∨ WRITER_ID_MAX_LEN < (value.map Char.utf8Size).sum
  · rw [if_pos hlength]
    refine iff_of_false (by simp) fun hvalid ↦ ?_
    rcases hlength with hempty | hlong
    · exact hvalid.1 hempty
    · exact absurd hvalid.2.1 (Nat.not_le.mpr hlong)
  rw [if_neg hlength]
  rw [not_or, Nat.not_lt] at hlength
  by_cases hdots : value.all (· == '.') = true
  · rw [if_pos hdots]
    refine iff_of_false (by simp) fun hvalid ↦ ?_
    obtain ⟨c, hc, hdot⟩ := hvalid.2.2.1
    exact hdot (by simpa using List.all_eq_true.mp hdots c hc)
  rw [if_neg hdots]
  have hother : ∃ c ∈ value, c ≠ '.' := by simpa using hdots
  split
  · next bad hbad =>
    refine iff_of_false (by simp) fun hvalid ↦ ?_
    have hsegment := hvalid.2.2.2 bad (List.mem_of_find?_eq_some hbad)
    have hrejected := List.find?_some hbad
    simp [hsegment] at hrejected
  · next hnone =>
    refine iff_of_true rfl ⟨hlength.1, hlength.2, hother, fun c hc ↦ ?_⟩
    simpa using List.find?_eq_none.mp hnone c hc

theorem validateWriterId_eq_ok_iff (writerId : Text) :
    validateWriterId writerId = .ok () ↔
      validatePathSegment "writer_id" writerId = .ok () ∧ writerId.head? ≠ some '_' := by
  unfold validateWriterId
  cases validatePathSegment "writer_id" writerId with
  | error err => simp [bind, Except.bind]
  | ok _ =>
    by_cases hreserved : writerId.head? = some '_' <;> simp [bind, Except.bind, hreserved]

/-- A valid segment has no separator in it. -/
theorem slash_not_mem {kind : String} {value : Text}
    (hvalid : validatePathSegment kind value = .ok ()) : '/' ∉ value := by
  intro hmem
  have hsegment := ((validatePathSegment_eq_ok_iff kind value).mp hvalid).2.2.2 '/' hmem
  exact absurd hsegment (by decide)

namespace WriterIdentity

/-- `_meta/<cluster_id>/<db_oid>/<rel_oid>/<writer_id>/state.json`. -/
def stateKey (ident : WriterIdentity) : Text :=
  "_meta/".toList ++ ident.clusterId ++ '/' :: decimal ident.dbOid ++ '/' ::
    decimal ident.relOid ++ '/' :: ident.writerId ++ "/state.json".toList

/-- `_meta/<cluster_id>/<db_oid>/<rel_oid>/<writer_id>/lock`. -/
def lockKey (ident : WriterIdentity) : Text :=
  "_meta/".toList ++ ident.clusterId ++ '/' :: decimal ident.dbOid ++ '/' ::
    decimal ident.relOid ++ '/' :: ident.writerId ++ "/lock".toList

/-- The ids of the identity passed validation. -/
structure Valid (ident : WriterIdentity) : Prop where
  clusterId : validateClusterId ident.clusterId = .ok ()
  writerId : validateWriterId ident.writerId = .ok ()

theorem Valid.slash_not_mem_clusterId {ident : WriterIdentity} (h : ident.Valid) :
    '/' ∉ ident.clusterId := by
  have hvalid := h.clusterId
  rw [validateClusterId] at hvalid
  exact slash_not_mem hvalid

theorem Valid.slash_not_mem_writerId {ident : WriterIdentity} (h : ident.Valid) :
    '/' ∉ ident.writerId :=
  slash_not_mem ((validateWriterId_eq_ok_iff _).mp h.writerId).1

/-- Below the staging directories of valid identities every path has one owner. -/
theorem stagingDir_append_inj {first second : WriterIdentity} {path path' : Text}
    (hfirst : first.Valid) (hsecond : second.Valid)
    (h : first.stagingDir ++ path = second.stagingDir ++ path') :
    first = second ∧ path = path' := by
  unfold stagingDir at h
  generalize "staging/".toList = root at h
  simp only [List.append_assoc, List.append_cancel_left_eq, List.cons_append, List.nil_append] at h
  obtain ⟨hcluster, h⟩ :=
    append_cons_inj hfirst.slash_not_mem_clusterId hsecond.slash_not_mem_clusterId h
  obtain ⟨hdb, h⟩ := append_cons_inj (not_mem_decimal (by decide)) (not_mem_decimal (by decide)) h
  obtain ⟨hrel, h⟩ := append_cons_inj (not_mem_decimal (by decide)) (not_mem_decimal (by decide)) h
  obtain ⟨hwriter, hpath⟩ :=
    append_cons_inj hfirst.slash_not_mem_writerId hsecond.slash_not_mem_writerId h
  refine ⟨?_, hpath⟩
  cases first
  cases second
  simp only at hcluster hdb hrel hwriter
  rw [hcluster, decimal_injective hdb, decimal_injective hrel, hwriter]

end WriterIdentity

/-! ### Staged files -/

/-- The dashes cut the epoch and the seq out of a name, whatever follows. -/
theorem StagedFile.basename_append_inj {first second : StagedFile} {rest rest' : Text}
    (h : first.basename ++ rest = second.basename ++ rest') :
    first.epochMs = second.epochMs ∧ first.seq = second.seq := by
  simp only [basename, List.append_assoc, List.cons_append] at h
  obtain ⟨hepoch, h⟩ :=
    append_cons_inj (not_mem_paddedDecimal (by decide)) (not_mem_paddedDecimal (by decide)) h
  have hdash : "-o".toList = ['-', 'o'] := rfl
  rw [hdash] at h
  obtain ⟨hseq, -⟩ :=
    append_cons_inj (not_mem_paddedDecimal (by decide)) (not_mem_paddedDecimal (by decide)) h
  exact ⟨paddedDecimal_injective _ hepoch, paddedDecimal_injective _ hseq⟩

/-- A key of a staged file in front of another one has the same owner, epoch and seq. -/
theorem StagedFile.objectKey_prefix {first second : WriterIdentity} {file other : StagedFile}
    (hfirst : first.Valid) (hsecond : second.Valid)
    (hfront : file.objectKey first <+: other.objectKey second) :
    first = second ∧ file.epochMs = other.epochMs ∧ file.seq = other.seq := by
  obtain ⟨rest, hrest⟩ := hfront
  rw [objectKey, objectKey, List.append_assoc] at hrest
  obtain ⟨hident, hname⟩ := WriterIdentity.stagingDir_append_inj hfirst hsecond hrest
  rw [← List.append_nil other.basename] at hname
  exact ⟨hident, basename_append_inj hname⟩

/-- How the keys of two files of two writers lie. -/
structure KeysApart (first second : WriterIdentity) (file other : StagedFile) : Prop where
  /-- A staging directory holds the keys of one identity. -/
  directory : first.stagingDir <+: other.objectKey second → first = second
  /-- Different files are not in front of each other. -/
  files : first ≠ second ∨ (file.epochMs, file.seq) ≠ (other.epochMs, other.seq) →
    ¬file.objectKey first <+: other.objectKey second ∧
      ¬other.objectKey second <+: file.objectKey first
  /-- Bookkeeping keys are in front of no file. -/
  bookkeeping : ∀ ident : WriterIdentity, ¬ident.stateKey <+: file.objectKey first ∧
    ¬ident.lockKey <+: file.objectKey first

/-- The state file and the lease live under `_meta/`. -/
theorem WriterIdentity.bookkeeping_keys (ident : WriterIdentity) :
    (∃ path, ident.stateKey = "_meta/".toList ++ path) ∧
      ∃ path, ident.lockKey = "_meta/".toList ++ path := by
  unfold stateKey lockKey
  generalize "_meta/".toList = root
  simp only [List.append_assoc]
  exact ⟨⟨_, rfl⟩, _, rfl⟩

/-- A key under `_meta/` is in front of no key under `staging/`. -/
theorem not_in_front_of_staged {key path : Text} (hkey : key = "_meta/".toList ++ path)
    (file : StagedFile) (ident : WriterIdentity) : ¬key <+: file.objectKey ident := by
  have hmeta : "_meta/".toList = '_' :: "meta/".toList := rfl
  have hstaging : "staging/".toList = 's' :: "taging/".toList := rfl
  unfold StagedFile.objectKey WriterIdentity.stagingDir
  rw [hkey, hmeta, hstaging]
  rintro ⟨rest, hrest⟩
  have hhead : '_' = 's' := List.head_eq_of_cons_eq hrest
  exact absurd hhead (by decide)

/-- The keys of valid identities keep apart, with any offsets and whether compressed or not. -/
theorem key_layout {first second : WriterIdentity} (hfirst : first.Valid) (hsecond : second.Valid)
    (file other : StagedFile) : KeysApart first second file other where
  directory := by
    rintro ⟨rest, hrest⟩
    exact (WriterIdentity.stagingDir_append_inj hfirst hsecond hrest).1
  files := by
    intro hdifferent
    have hsame (hident : first = second) (hepoch : file.epochMs = other.epochMs)
        (hseq : file.seq = other.seq) : False := by
      rcases hdifferent with hne | hne
      · exact hne hident
      · exact hne (by rw [hepoch, hseq])
    constructor
    · intro hfront
      obtain ⟨hident, hepoch, hseq⟩ := StagedFile.objectKey_prefix hfirst hsecond hfront
      exact hsame hident hepoch hseq
    · intro hfront
      obtain ⟨hident, hepoch, hseq⟩ := StagedFile.objectKey_prefix hsecond hfirst hfront
      exact hsame hident.symm hepoch.symm hseq.symm
  bookkeeping := by
    intro ident
    obtain ⟨⟨_, hstate⟩, _, hlock⟩ := ident.bookkeeping_keys
    exact ⟨not_in_front_of_staged hstate file first, not_in_front_of_staged hlock file first⟩

theorem key_layout_suffixes :
    KeysApart ⟨"1.0".toList, 1, 23, "w".toList⟩ ⟨"1.0".toList, 12, 3, "w".toList⟩
      ⟨1, 2, 0, 9, false⟩ ⟨1, 2, 0, 9, true⟩ :=
  key_layout ⟨rfl, rfl⟩ ⟨rfl, rfl⟩ _ _

end RelytIngest
