import RelytIngest.Naming.ParseName
import RelytIngest.Writer.Machine

/-!
# The staged files of a listing

`listStaged` keeps of a listed object what its name parses to and nothing else, so whatever is done
with the object afterwards goes by a key built again from the parsed file: the request of the
backfill (`backfillRequest`) and the deletes of the GC (`deletedKey`).

For the objects a writer put that is harmless: they are listed as the files they are
(`listStaged_written`), and announced again exactly as the writer announced them
(`backfillRequest_of_sealMeta`). For an object with any other name that parses, `addressed_iff` says
when the key built again is its own.
-/

set_option autoImplicit false
set_option relaxedAutoImplicit false

namespace RelytIngest

open Foundations

/-- An entry of a listing of a directory, by its name below the directory. -/
structure ListEntry where
  name : Text
  isDir : Bool
  deriving DecidableEq, Repr

/-- One step of the loop of `list_staged`. -/
def listEntry (found : List StagedFile × List Text) (entry : ListEntry) :
    List StagedFile × List Text :=
  if entry.isDir then found
  else
    match parseBasename entry.name with
    | some file => (found.1 ++ [file], found.2)
    | none => (found.1, found.2 ++ [entry.name])

/-- `list_staged`: the staged files, and the names that are not theirs. -/
def listStaged (entries : List ListEntry) : List StagedFile × List Text :=
  entries.foldl listEntry ([], [])

/-- The key `delete_staged` deletes. -/
def deletedKey (ident : WriterIdentity) (file : StagedFile) : Text := file.objectKey ident

/-- The request `open_table` enqueues for a file of the backfill. -/
def backfillRequest {β : Type} (cfg : WriterConfig β) (file : StagedFile) :
    Except Error NotifyRequest := do
  let identifier ← file.identifier cfg.ident
  let serialSeq ← file.serialSeq
  return {
    serialGroup := cfg.ident.serialGroup
    endOffset := file.endOffset
    identifier := identifier
    sourceUrl := cfg.urlBase ++ '/' :: file.objectKey cfg.ident
    target := cfg.ident.relOid
    delimiter := cfg.delimiter
    upsert := cfg.upsert
    serialSeq := serialSeq
    retryMax := cfg.retryMax <|> some (-1) }

section Listing

variable {β : Type} {cfg : WriterConfig β} {name : Text} {file : StagedFile}

/-! ### The writer's own objects -/

/-- A directory of a writer's own files is listed as these files, in the order listed. -/
theorem listStaged_written {files : List StagedFile} (hfiles : ∀ file ∈ files, file.Nameable) :
    listStaged (files.map fun file ↦ ⟨file.basename, false⟩) = (files, []) := by
  have hloop (found : List StagedFile) :
      (files.map fun file ↦ (⟨file.basename, false⟩ : ListEntry)).foldl listEntry (found, []) =
        (found ++ files, []) := by
    induction files generalizing found with
    | nil => rw [List.map_nil, List.foldl_nil, List.append_nil]
    | cons file rest ih =>
      rw [List.forall_mem_cons] at hfiles
      obtain ⟨hfile, hrest⟩ := hfiles
      have hparse := parseBasename_basename hfile
      have hstep : listEntry (found, []) ⟨file.basename, false⟩ = (found ++ [file], []) := by
        simp [listEntry, hparse]
      rw [List.map_cons, List.foldl_cons, hstep, ih hrest, List.append_assoc,
        List.singleton_append]
  exact hloop []

/-- The request of a file whose names encode. -/
theorem backfillRequest_eq_ok_iff {request : NotifyRequest} :
    backfillRequest cfg file = .ok request ↔
      ∃ identifier, file.identifier cfg.ident = .ok identifier ∧
        ∃ serialSeq, file.serialSeq = .ok serialSeq ∧
          request = notifyRequest cfg ⟨file, serialSeq, identifier, file.objectKey cfg.ident⟩ := by
  simp only [backfillRequest, except_bind_eq_ok_iff]
  refine exists_congr fun identifier ↦ and_congr_right fun _ ↦ exists_congr fun serialSeq ↦
    and_congr_right fun _ ↦ ?_
  exact ⟨fun h ↦ (Except.ok.inj h).symm, fun h ↦ h ▸ rfl⟩

/-- A file of the backfill is announced as its writer announced it. -/
theorem backfillRequest_of_sealMeta {m : FileMeta}
    (hmeta : WriterState.sealMeta cfg file = .ok m) :
    backfillRequest cfg file = .ok (notifyRequest cfg m) := by
  simp only [WriterState.sealMeta, except_bind_eq_ok_iff] at hmeta
  obtain ⟨serialSeq, hserial, identifier, hidentifier, hm⟩ := hmeta
  obtain rfl := Except.ok.inj hm
  exact backfillRequest_eq_ok_iff.mpr ⟨identifier, hidentifier, serialSeq, hserial, rfl⟩

/-! ### Every object of a listing -/

/-- A listed object is addressed by its own key. -/
structure Addressed (cfg : WriterConfig β) (name : Text) (file : StagedFile) : Prop where
  key : file.objectKey cfg.ident = cfg.ident.stagingDir ++ name
  /-- The backfill announces the object that was listed. -/
  announced : ∀ request, backfillRequest cfg file = .ok request →
    request.sourceUrl = cfg.urlBase ++ '/' :: (cfg.ident.stagingDir ++ name)
  /-- The GC deletes the object that was listed. -/
  deleted : deletedKey cfg.ident file = cfg.ident.stagingDir ++ name

/-- Of the names that parse, those in the writer's spelling are addressed by their own key. -/
theorem addressed_iff (cfg : WriterConfig β) (hparse : parseBasename name = some file) :
    Addressed cfg name file ↔ CanonicalName name := by
  rw [← basename_eq_iff hparse]
  constructor
  · intro h
    exact List.append_cancel_left h.key
  · intro hname
    have hkey : file.objectKey cfg.ident = cfg.ident.stagingDir ++ name := by
      rw [StagedFile.objectKey, hname]
    refine ⟨hkey, fun request hrequest ↦ ?_, hkey⟩
    obtain ⟨identifier, -, serialSeq, -, rfl⟩ := backfillRequest_eq_ok_iff.mp hrequest
    rw [notifyRequest, hkey]

theorem addressed_iff_padded :
    Addressed sampleConfig "0000000000001-0000002-o3-4.csv".toList ⟨1, 2, 3, 4, false⟩ ↔
      CanonicalName "0000000000001-0000002-o3-4.csv".toList :=
  addressed_iff sampleConfig (by decide +kernel)

/-- A name without padding is accepted, and the key built again is another one. -/
theorem unpadded_not_addressed :
    parseBasename "1-2-o3-4.csv".toList = some ⟨1, 2, 3, 4, false⟩ ∧
      ¬Addressed sampleConfig "1-2-o3-4.csv".toList ⟨1, 2, 3, 4, false⟩ :=
  ⟨by decide +kernel, fun h ↦ absurd h.key (by decide +kernel)⟩

end Listing

end RelytIngest
