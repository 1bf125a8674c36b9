import RelytIngest.Foundations.DecimalValue
import RelytIngest.Foundations.MachineInteger
import RelytIngest.Naming

/-!
# Reading names back

Recovery knows of a staged file what `parseBasename` makes of its name. `ParsedAs` is the shape of a
name that is accepted, with the texts its four numbers are spelled as (`parseBasename_eq_some_iff`).

`parseBasename_objectKey` is the round trip: what the writer names is read back whole, whatever the
width of its numbers. The parser accepts more than the writer spells, so the way back is not free:
`basename_eq_iff` says of every accepted name that it is the name of the parsed file exactly when
its numbers are in the writer's spelling (`CanonicalName`).
-/

set_option autoImplicit false
set_option relaxedAutoImplicit false

namespace RelytIngest

open Foundations

/-- The suffixes that are taken off a name, the longer one first. -/
def stripExtension (name : Text) : Option (Text × Bool) :=
  match ".csv.gz".toList.isSuffixOf? name with
  | some stem => some (stem, true)
  | none => (".csv".toList.isSuffixOf? name).map fun stem ↦ (stem, false)

/-- The start offset, behind its `o`. -/
def parseStart : Text → Option Int
  | 'o' :: offset => parseSigned (2 ^ 63) offset
  | _ => none

/-- `parse_basename`. -/
def parseBasename (name : Text) : Option StagedFile := do
  let (stem, compressed) ← stripExtension name
  match stem.splitOn '-' with
  | [epoch, seq, start, last] =>
    let epochMs ← parseUnsigned (2 ^ 64 - 1) epoch
    let seq ← parseUnsigned (2 ^ 32 - 1) seq
    let startOffset ← parseStart start
    let endOffset ← parseSigned (2 ^ 63) last
    return ⟨epochMs, seq, startOffset, endOffset, compressed⟩
  | _ => none

/-- The text of a key after its last slash. -/
def afterLastSlash (key : Text) : Text := (key.splitOn '/').getLastD []

/-! ### Names that are accepted -/

/-- The extension of a file's name. -/
def StagedFile.extension (file : StagedFile) : Text :=
  if file.compressed then ".csv.gz".toList else ".csv".toList

/-- A name with its four numbers as it spells them. -/
structure ParsedAs (name : Text) (file : StagedFile) (epoch seq start last : Text) : Prop where
  name_eq : name = epoch ++ '-' :: (seq ++ '-' :: 'o' :: (start ++ '-' :: (last ++ file.extension)))
  epochMs : parseUnsigned (2 ^ 64 - 1) epoch = some file.epochMs
  seq : parseUnsigned (2 ^ 32 - 1) seq = some file.seq
  startOffset : ∃ value : Nat, parseUnsigned (2 ^ 63 - 1) start = some value ∧
    file.startOffset = value
  endOffset : ∃ value : Nat, parseUnsigned (2 ^ 63 - 1) last = some value ∧ file.endOffset = value

theorem stripExtension_eq_some {name stem : Text} {compressed : Bool}
    (hstrip : stripExtension name = some (stem, compressed)) :
    name = stem ++ (if compressed then ".csv.gz".toList else ".csv".toList) := by
  unfold stripExtension at hstrip
  split at hstrip
  · next front hfront =>
    simp only [Option.some.injEq, Prod.mk.injEq] at hstrip
    obtain ⟨rfl, rfl⟩ := hstrip
    exact (List.isSuffixOf?_eq_some_iff_append_eq.mp hfront).symm
  · obtain ⟨front, hfront, heq⟩ := Option.map_eq_some_iff.mp hstrip
    obtain ⟨rfl, rfl⟩ := Prod.mk.inj heq
    exact (List.isSuffixOf?_eq_some_iff_append_eq.mp hfront).symm

theorem stripExtension_append (stem : Text) (compressed : Bool) :
    stripExtension (stem ++ (if compressed then ".csv.gz".toList else ".csv".toList)) =
      some (stem, compressed) := by
  cases compressed with
  | true =>
    have hlong : ".csv.gz".toList.isSuffixOf? (stem ++ ".csv.gz".toList) = some stem :=
      List.isSuffixOf?_eq_some_iff_append_eq.mpr rfl
    rw [if_pos rfl, stripExtension, hlong]
  | false =>
    have hlong : ".csv.gz".toList.isSuffixOf? (stem ++ ".csv".toList) = none := by
      have hgz : ".csv.gz".toList = ".csv.g".toList ++ ['z'] := rfl
      have hcsv : ".csv".toList = ".cs".toList ++ ['v'] := rfl
      rw [Option.eq_none_iff_forall_ne_some]
      intro front hfront
      have happend := List.isSuffixOf?_eq_some_iff_append_eq.mp hfront
      rw [hgz, hcsv, ← List.append_assoc, ← List.append_assoc] at happend
      have hlast : ['z'] = ['v'] := List.append_inj_right' happend rfl
      exact absurd hlast (by decide)
    have hshort : ".csv".toList.isSuffixOf? (stem ++ ".csv".toList) = some stem :=
      List.isSuffixOf?_eq_some_iff_append_eq.mpr rfl
    rw [if_neg Bool.false_ne_true, stripExtension, hlong, hshort]
    rfl

/-- A text cut in four at its dashes. -/
theorem splitOn_dash_eq_iff {stem epoch seq start last : Text} :
    stem.splitOn '-' = [epoch, seq, start, last] ↔
      stem = epoch ++ '-' :: (seq ++ '-' :: (start ++ '-' :: last)) ∧
        '-' ∉ epoch ∧ '-' ∉ seq ∧ '-' ∉ start ∧ '-' ∉ last := by
  constructor
  · intro hsplit
    have hpieces : ∀ piece ∈ [epoch, seq, start, last], '-' ∉ piece :=
      fun piece hpiece ↦ not_mem_of_mem_splitOn (hsplit ▸ hpiece)
    have hstem : ['-'].intercalate (stem.splitOn '-') = stem := List.intercalate_splitOn '-'
    rw [hsplit] at hstem
    refine ⟨?_, by simpa using hpieces⟩
    simpa [List.intercalate, List.intersperse] using hstem.symm
  · rintro ⟨rfl, hepoch, hseq, hstart, hlast⟩
    rw [List.splitOn_append_cons_self_of_not_mem hepoch,
      List.splitOn_append_cons_self_of_not_mem hseq,
      List.splitOn_append_cons_self_of_not_mem hstart, List.splitOn_eq_singleton hlast]

theorem parseStart_eq_some_iff {text : Text} {value : Int} :
    parseStart text = some value ↔
      ∃ offset, text = 'o' :: offset ∧ parseSigned (2 ^ 63) offset = some value := by
  unfold parseStart
  split
  · next offset => simp
  · next hother => simpa using fun offset heq ↦ absurd heq (hother offset)

/-- An offset that was cut out at dashes has no sign but a plus. -/
theorem parseSigned_eq_some_iff {text : Text} {value : Int} (hminus : '-' ∉ text) :
    parseSigned (2 ^ 63) text = some value ↔
      ∃ offset : Nat, parseUnsigned (2 ^ 63 - 1) text = some offset ∧ value = offset := by
  rw [parseSigned_of_digits hminus, Option.map_eq_some_iff]
  exact exists_congr fun offset ↦ and_congr_right fun _ ↦ eq_comm

section ParsedAs

variable {name epoch seq start last : Text} {file : StagedFile}

/-- The text of a number that was read has no dash in it. -/
theorem dash_not_mem {maximum value : Nat} {text : Text}
    (hparse : parseUnsigned maximum text = some value) : '-' ∉ text :=
  not_mem_of_parseUnsigned hparse (by decide) (by decide)

/-- The pieces of an accepted name are the texts of its numbers. -/
theorem ParsedAs.pieces (h : ParsedAs name file epoch seq start last) :
    ∃ stem, stripExtension name = some (stem, file.compressed) ∧
      stem.splitOn '-' = [epoch, seq, 'o' :: start, last] := by
  obtain ⟨_, hstart, -⟩ := h.startOffset
  obtain ⟨_, hlast, -⟩ := h.endOffset
  have hbehind : '-' ∉ 'o' :: start := by simpa using dash_not_mem hstart
  refine ⟨_, ?_, splitOn_dash_eq_iff.mpr
    ⟨rfl, dash_not_mem h.epochMs, dash_not_mem h.seq, hbehind, dash_not_mem hlast⟩⟩
  rw [← stripExtension_append, h.name_eq]
  simp only [List.append_assoc, List.cons_append, StagedFile.extension]

/-- What the parser accepts, and what it makes of it. -/
theorem parseBasename_eq_some_iff :
    parseBasename name = some file ↔
      ∃ epoch seq start last, ParsedAs name file epoch seq start last := by
  constructor
  · intro hparse
    obtain ⟨⟨stem, compressed⟩, hstrip, hparse⟩ := Option.bind_eq_some_iff.mp hparse
    dsimp only at hparse
    split at hparse
    · next epoch seq start last hsplit =>
      simp only [Option.bind_eq_bind, Option.bind_eq_some_iff, Option.pure_def,
        Option.some.injEq] at hparse
      obtain ⟨epochMs, hepoch, seqValue, hseq, startOffset, hstart, endOffset, hend, rfl⟩ := hparse
      obtain ⟨hstem, -, -, hdash, hdash'⟩ := splitOn_dash_eq_iff.mp hsplit
      obtain ⟨offset, rfl, hstart⟩ := parseStart_eq_some_iff.mp hstart
      refine ⟨epoch, seq, offset, last, ?_, hepoch, hseq, ?_, ?_⟩
      · rw [stripExtension_eq_some hstrip, hstem]
        simp only [List.append_assoc, List.cons_append, StagedFile.extension]
      · exact (parseSigned_eq_some_iff fun hmem ↦ hdash (List.mem_cons_of_mem _ hmem)).mp hstart
      · exact (parseSigned_eq_some_iff hdash').mp hend
    · simp at hparse
  · rintro ⟨epoch, seq, start, last, h⟩
    obtain ⟨stem, hstrip, hsplit⟩ := h.pieces
    obtain ⟨-, -, -, hdash, hdash'⟩ := splitOn_dash_eq_iff.mp hsplit
    have hoffset := (parseSigned_eq_some_iff fun hmem ↦ hdash (List.mem_cons_of_mem _ hmem)).mpr
      h.startOffset
    have hstart := parseStart_eq_some_iff.mpr ⟨start, rfl, hoffset⟩
    have hend := (parseSigned_eq_some_iff hdash').mpr h.endOffset
    simp only [parseBasename, hstrip, Option.bind_eq_bind, Option.bind_some, hsplit, h.epochMs,
      h.seq, hstart, hend]
    rfl

/-! ### The way from a file to its name and back -/

/-- A file a name can be written for: a 64-bit epoch, a 32-bit seq and non-negative 64-bit offsets.
-/
structure StagedFile.Nameable (file : StagedFile) : Prop where
  epochMs : file.epochMs < 2 ^ 64
  seq : file.seq < 2 ^ 32
  startOffset : 0 ≤ file.startOffset ∧ file.startOffset ≤ i64Max
  endOffset : 0 ≤ file.endOffset ∧ file.endOffset ≤ i64Max

/-- The name the writer gives a file with non-negative offsets. -/
theorem basename_eq {startOffset endOffset : Nat} (hstart : file.startOffset = startOffset)
    (hend : file.endOffset = endOffset) :
    file.basename = paddedDecimal EPOCH_PAD file.epochMs ++ '-' ::
      (paddedDecimal SEQ_PAD file.seq ++ '-' :: 'o' :: (paddedDecimal 1 startOffset ++ '-' ::
        (paddedDecimal 1 endOffset ++ file.extension))) := by
  have hdash : "-o".toList = ['-', 'o'] := rfl
  rw [StagedFile.basename, hdash, hstart, hend, signedDecimal_natCast, signedDecimal_natCast]
  simp only [List.append_assoc, List.cons_append, List.nil_append, StagedFile.extension]

/-- The names the writer gives are read back, wider than their padding or not. -/
theorem parseBasename_basename (h : file.Nameable) : parseBasename file.basename = some file := by
  obtain ⟨hepoch, hseq, hstart, hend⟩ := h
  simp only [i64Max] at hstart hend
  have hstart' : file.startOffset = file.startOffset.toNat := by omega
  have hend' : file.endOffset = file.endOffset.toNat := by omega
  refine parseBasename_eq_some_iff.mpr ⟨_, _, _, _, basename_eq hstart' hend', ?_, ?_, ?_, ?_⟩
  · exact parseUnsigned_paddedDecimal (by omega)
  · exact parseUnsigned_paddedDecimal (by omega)
  · exact ⟨_, parseUnsigned_paddedDecimal (by omega), hstart'⟩
  · exact ⟨_, parseUnsigned_paddedDecimal (by omega), hend'⟩

/-- The four numbers of a name as it spells them. -/
def spelledNumbers (name : Text) : Option (List Text) :=
  (stripExtension name).map fun parts ↦ parts.1.splitOn '-'

/-- The numbers of a name are spelled as the writer spells them: no plus signs, the epoch and the
seq padded with zeros to their widths and no further, the offsets without zeros in front. -/
def CanonicalName (name : Text) : Prop :=
  match spelledNumbers name with
  | some [epoch, seq, 'o' :: start, last] =>
    Canonical EPOCH_PAD epoch ∧ Canonical SEQ_PAD seq ∧ Canonical 1 start ∧ Canonical 1 last
  | _ => False

theorem ParsedAs.canonical_iff (h : ParsedAs name file epoch seq start last) :
    CanonicalName name ↔ Canonical EPOCH_PAD epoch ∧ Canonical SEQ_PAD seq ∧
      Canonical 1 start ∧ Canonical 1 last := by
  obtain ⟨stem, hstrip, hsplit⟩ := h.pieces
  have hspelled : spelledNumbers name = some [epoch, seq, 'o' :: start, last] := by
    rw [spelledNumbers, hstrip, Option.map_some, hsplit]
  rw [CanonicalName, hspelled]
  exact Iff.rfl

/-- A parsed name is the name of its file exactly when its numbers are in the writer's spelling. -/
theorem basename_eq_iff (hparse : parseBasename name = some file) :
    file.basename = name ↔ CanonicalName name := by
  obtain ⟨epoch, seq, start, last, h⟩ := parseBasename_eq_some_iff.mp hparse
  obtain ⟨startOffset, hstart, hstartOffset⟩ := h.startOffset
  obtain ⟨endOffset, hlast, hendOffset⟩ := h.endOffset
  rw [h.canonical_iff, basename_eq hstartOffset hendOffset, h.name_eq,
    ← paddedDecimal_eq_iff (by decide) h.epochMs, ← paddedDecimal_eq_iff (by decide) h.seq,
    ← paddedDecimal_eq_iff (by decide) hstart, ← paddedDecimal_eq_iff (by decide) hlast]
  have hpadded (width n : Nat) : '-' ∉ paddedDecimal width n := not_mem_paddedDecimal (by decide)
  constructor
  · intro heq
    obtain ⟨hepoch, heq⟩ := append_cons_inj (hpadded _ _) (dash_not_mem h.epochMs) heq
    obtain ⟨hseq, heq⟩ := append_cons_inj (hpadded _ _) (dash_not_mem h.seq) heq
    obtain ⟨hfirst, heq⟩ :=
      append_cons_inj (hpadded _ _) (dash_not_mem hstart) (List.tail_eq_of_cons_eq heq)
    exact ⟨hepoch, hseq, hfirst, List.append_cancel_right heq⟩
  · rintro ⟨hepoch, hseq, hfirst, hend⟩
    rw [hepoch, hseq, hfirst, hend]

end ParsedAs

/-! ### Keys -/

theorem slash_not_mem_basename (file : StagedFile) : '/' ∉ file.basename := by
  have hextension : '/' ∉ (if file.compressed then ".csv.gz".toList else ".csv".toList) := by
    split <;> decide
  have hdash : '/' ∉ "-o".toList := by decide
  have hpadded (width n : Nat) : '/' ∉ paddedDecimal width n := not_mem_paddedDecimal (by decide)
  have hsigned (n : Int) : '/' ∉ signedDecimal n := not_mem_signedDecimal (by decide) (by decide)
  have hseparator : '/' ≠ '-' := by decide
  unfold StagedFile.basename
  simp only [List.mem_append, List.mem_cons, not_or]
  exact ⟨⟨⟨⟨⟨hpadded _ _, hseparator, hpadded _ _⟩, hdash⟩, hsigned _⟩, hseparator, hsigned _⟩,
    hextension⟩

theorem afterLastSlash_append {front back : Text} (hback : '/' ∉ back) :
    afterLastSlash (front ++ '/' :: back) = back := by
  rw [afterLastSlash, List.splitOn_append_cons_self, List.splitOn_eq_singleton hback,
    List.getLastD_concat]

/-- The name of a file is what follows the last slash of its key. -/
theorem afterLastSlash_objectKey (file : StagedFile) (ident : WriterIdentity) :
    afterLastSlash (file.objectKey ident) = file.basename := by
  unfold StagedFile.objectKey WriterIdentity.stagingDir
  rw [List.append_assoc _ ['/'], List.singleton_append]
  exact afterLastSlash_append (slash_not_mem_basename file)

/-- Recovery reads back every name a writer can produce. -/
theorem parseBasename_objectKey (ident : WriterIdentity) {file : StagedFile}
    (hfile : file.Nameable) :
    parseBasename (afterLastSlash (file.objectKey ident)) = some file := by
  rw [afterLastSlash_objectKey]
  exact parseBasename_basename hfile

theorem parseBasename_objectKey_largest :
    parseBasename (afterLastSlash (StagedFile.objectKey
      ⟨2 ^ 64 - 1, 2 ^ 32 - 1, 0, i64Max, true⟩ ⟨"c".toList, 1, 2, "w-0.csv".toList⟩)) =
        some ⟨2 ^ 64 - 1, 2 ^ 32 - 1, 0, i64Max, true⟩ :=
  parseBasename_objectKey _ ⟨by decide, by decide, by decide, by decide⟩

end RelytIngest
