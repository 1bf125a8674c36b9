import RelytIngest.Foundations.Slices
import RelytIngest.Foundations.Utf8Bytes
import RelytIngest.Ingest.Objects
import RelytIngest.Render.ReadBack
import RelytIngest.Writer.VettedRows

/-!
# The table on the server

The server loads the objects that were announced to it, in the order of their numbers: it takes the
object at the url of the request, unpacks it, reads its rows with the types of the table and applies
them (`loadObject`). Decompression is not part of the SDK; it is a parameter that undoes the
compression of the writers.

`server_table` puts the parts of the SDK together: after any number of sessions, crashes, retries
and repeated submissions the table holds what one gets by applying the rows of the source, each once
and in their order, up to some offset.
-/

set_option autoImplicit false
set_option relaxedAutoImplicit false

namespace RelytIngest

open Foundations Relation

/-! ### Loading an object -/

/-- The body of an object. Its name says whether it is compressed. -/
def objectBody (unzip : List UInt8 → Option (List UInt8)) (object : NotifyRequest × List UInt8) :
    Option Text :=
  (if ".gz".toList.isSuffixOf object.1.sourceUrl then unzip object.2 else some object.2).bind
    bytesText

/-- The key that a request has its rows loaded on. -/
def requestKey (schema : TableSchema) (req : NotifyRequest) : Option (Option (List Nat)) :=
  if req.upsert then schema.pkIndices.toOption.map some else some none

/-- The table after the object of a request is loaded, when that succeeds. -/
def loadObject (schema : TableSchema) (unzip : List UInt8 → Option (List UInt8)) (table : TableRows)
    (object : NotifyRequest × List UInt8) : Option TableRows := do
  let body ← objectBody unzip object
  let rows ← readRows object.1.delimiter (schema.arrow.map Field.dataType) body
  let key ← requestKey schema object.1
  loadRows key table rows

/-- Objects are loaded one after the other. -/
def loadObjects (schema : TableSchema) (unzip : List UInt8 → Option (List UInt8))
    (objects : List (NotifyRequest × List UInt8)) : Option TableRows :=
  objects.foldlM (loadObject schema unzip) []

/-- The name of an object says whether it is compressed. -/
theorem isSuffixOf_objectKey (front : Text) (file : StagedFile) (ident : WriterIdentity) :
    ".gz".toList.isSuffixOf (front ++ file.objectKey ident) = file.compressed := by
  have hgz : ".gz".toList = ['.', 'g', 'z'] := rfl
  have hcsv : ".csv".toList = ['.', 'c', 's', 'v'] := rfl
  have hcsvGz : ".csv.gz".toList = ".csv".toList ++ ".gz".toList := rfl
  unfold StagedFile.objectKey StagedFile.basename
  cases file.compressed with
  | true =>
    rw [List.isSuffixOf_iff_suffix, if_pos rfl, hcsvGz]
    simp only [← List.append_assoc]
    exact List.suffix_append _ _
  | false =>
    rw [← Bool.not_eq_true, List.isSuffixOf_iff_suffix, if_neg Bool.false_ne_true]
    rintro ⟨before, heq⟩
    have hlast := congrArg List.getLast? heq
    rw [← List.append_assoc, ← List.append_assoc, List.getLast?_append, List.getLast?_append]
      at hlast
    simp [hgz, hcsv] at hlast

/-- The sessions of a stream into an opened table: they agree on the place of its files and on their
format, up to compression, which `unzip` undoes. -/
structure OpenedSchema.Sessions (schema : OpenedSchema) (cfg : Nat → WriterConfig RecordBatch)
    (ident : WriterIdentity) (urlBase : Text) (delimiter : Char)
    (unzip : List UInt8 → Option (List UInt8)) : Prop where
  place : Ingest.OnePlace cfg ident urlBase
  writes : ∀ id, schema.Writes (cfg id)
  delimiter : ∀ id, (cfg id).delimiter = delimiter
  upsert : ∀ id, (cfg id).upsert = schema.upsert
  unzip : ∀ id body bytes, (cfg id).gzip body = .ok bytes → unzip bytes = some (bodyBytes body)

section Load

variable {schema : OpenedSchema} {cfg : Nat → WriterConfig RecordBatch} {ident : WriterIdentity}
  {urlBase : Text} {delimiter : Char} {unzip : List UInt8 → Option (List UInt8)}

/-- The sessions have their rows loaded on the key of the table. -/
theorem OpenedSchema.requestKey_eq (schema : OpenedSchema) {req : NotifyRequest}
    (hupsert : req.upsert = schema.upsert) :
    requestKey schema.toTableSchema req = some schema.loadKey := by
  unfold requestKey loadKey
  rw [hupsert]
  by_cases hmode : schema.upsert = true
  · have hindices : schema.pkIndices = .ok (schema.toUpsert hmode).indices :=
      (schema.toUpsert hmode).pkIndices_eq
    rw [if_pos hmode, dif_pos hmode, hindices]
    rfl
  · rw [if_neg hmode, dif_neg hmode]

/-- The body of an object is the one that was rendered. -/
theorem objectBody_eq (hsessions : schema.Sessions cfg ident urlBase delimiter unzip) {id : Nat}
    {file : StagedFile} {body : Text} {payload : List UInt8}
    (hpayload : if file.compressed then (cfg id).gzip body = .ok payload
      else payload = bodyBytes body) {req : NotifyRequest} (hreq : Announces cfg file req) :
    objectBody unzip (req, payload) = some body := by
  obtain ⟨other, n, hmeta, rfl⟩ := hreq
  obtain ⟨-, -, -, -, -, hkey⟩ := WriterState.sealMeta_ok hmeta
  have hname : ".gz".toList.isSuffixOf (notifyRequest (cfg other) n).sourceUrl =
      file.compressed := by
    rw [notifyRequest, hkey, List.append_cons]
    exact isSuffixOf_objectKey _ file _
  have hbody : bytesText (bodyBytes body) = some body := bytesText_toUTF8 body
  rw [objectBody, hname]
  cases hcompressed : file.compressed with
  | true =>
    rw [hcompressed, if_pos rfl] at hpayload
    rw [if_pos rfl, hsessions.unzip id body payload hpayload, Option.bind_some, hbody]
  | false =>
    rw [hcompressed, if_neg Bool.false_ne_true] at hpayload
    rw [if_neg Bool.false_ne_true, hpayload, Option.bind_some, hbody]

/-- Loading the content of a file applies the rows of its batches. -/
theorem loadObject_eq (hsessions : schema.Sessions cfg ident urlBase delimiter unzip)
    (hdelimiter : validDelimiter delimiter) {id : Nat} {file : StagedFile}
    {batches : List RecordBatch} {payload : List UInt8}
    (hencodes : Encodes (cfg id) batches file.compressed payload)
    (hschema : ∀ batch ∈ batches, batch.schema = schema.arrow)
    (hshort : ShortLoadKeys schema batches)
    (hexact : ∀ row ∈ batchRows batches, ∀ cell ∈ row, Exact cell) {req : NotifyRequest}
    (hreq : Announces cfg file req) (table : TableRows) :
    loadObject schema.toTableSchema unzip table (req, payload) =
      some (applyAll schema.loadKey table (batchRows batches)) := by
  obtain ⟨body, count, hrender, hpayload⟩ := hencodes
  rw [(hsessions.writes id).render, hsessions.delimiter] at hrender
  have hread := ((readRows_renderOnce_iff schema batches delimiter body count hschema hshort
    hdelimiter hrender).2).mpr fun row hrow ↦ hexact row (mem_fileRows hrow)
  have hbody := objectBody_eq hsessions hpayload hreq
  obtain ⟨hdelim, hupsert⟩ : req.delimiter = delimiter ∧ req.upsert = schema.upsert := by
    obtain ⟨other, n, -, rfl⟩ := hreq
    exact ⟨hsessions.delimiter other, hsessions.upsert other⟩
  simp only [loadObject, Option.bind_eq_bind, hbody, hdelim, hread, schema.requestKey_eq hupsert,
    Option.bind_some]
  exact loadRows_fileRows _ _ _

end Load

/-! ### The source -/

/-- What there is to ingest: the rows at each offset. Nothing of them is lost in a field, and their
keys are short enough to be encoded. -/
structure Source (schema : OpenedSchema) where
  rows : Int → TableRows
  exact : ∀ o, ∀ row ∈ rows o, ∀ cell ∈ row, Exact cell
  short : ∀ o, ∀ row ∈ rows o, ∀ pkColumns, schema.loadKey = some pkColumns →
    ∀ cell ∈ rowKey pkColumns row, ShortCell cell

namespace Source

variable {schema : OpenedSchema} (source : Source schema)

/-- The batch has the rows of its range. -/
def Feeds (e : Entry RecordBatch) : Prop :=
  e.endOffset < i64Max ∧ batchRows [e.batch] = slice source.rows e.startOffset (e.endOffset + 1)

instance : DecidablePred source.Feeds :=
  fun _ ↦ inferInstanceAs (Decidable (_ ∧ _))

theorem batchRows_map_batch (entries : List (Entry RecordBatch)) :
    batchRows (entries.map Entry.batch) = entries.flatMap fun e ↦ batchRows [e.batch] := by
  simp [batchRows, List.flatMap_map]

/-- A file has the rows of its range. -/
theorem batchRows_cut {cfg : WriterConfig RecordBatch} {w : Writer RecordBatch} {start : Int}
    {epoch : Nat} (htaken : w.rows.Taken start source.Feeds) (hnamed : w.rows.Named cfg epoch)
    {cut : Cut RecordBatch} (hcut : cut ∈ w.trace.cuts) :
    batchRows (cut.entries.map Entry.batch) =
      slice source.rows cut.fileMeta.file.startOffset (cut.fileMeta.file.endOffset + 1) := by
  obtain ⟨earlier, later, hcuts⟩ := List.append_of_mem hcut
  have hkept : w.rows.kept = earlier.flatMap Cut.entries ++
      (cut.entries ++ (later.flatMap Cut.entries ++ w.st.buffered)) := by
    simp only [Rows.kept, Writer.rows, hcuts, List.flatMap_append, List.flatMap_cons,
      List.append_assoc, WriterState.core]
  have htiled := htaken.tiled
  rw [hkept, tiled_append, tiled_append] at htiled
  have hwell := hnamed.wellFormed cut hcut
  have hfeeds : ∀ e ∈ cut.entries, batchRows [e.batch] =
      slice source.rows e.startOffset (e.endOffset + 1) := fun e he ↦
    (htaken.all_admitted e (hkept ▸ by simp [he])).2
  rw [batchRows_map_batch, htiled.2.1.flatMap_slice hfeeds]
  have hend : tiledTo Entry.endOffset (tiledTo Entry.endOffset start (earlier.flatMap Cut.entries))
      cut.entries = cut.fileMeta.file.endOffset + 1 := by
    obtain ⟨last, hlast, heq⟩ := Option.map_eq_some_iff.mp hwell.last
    rw [tiledTo, hlast, Option.map_some, Option.getD_some, heq]
  have hstart : tiledTo Entry.endOffset start (earlier.flatMap Cut.entries) =
      cut.fileMeta.file.startOffset := by
    have hfirst := hwell.first
    cases hentries : cut.entries with
    | nil => simp [hentries] at hfirst
    | cons first rest =>
      have hlo := htiled.2.1
      rw [hentries] at hfirst hlo
      exact hlo.1.symm.trans (Option.some.inj hfirst)
  rw [hend, hstart]

/-- Nothing is lost in the fields of the rows of a range. -/
theorem exact_slice {lower upper : Int} {row : List Cell}
    (hrow : row ∈ slice source.rows lower upper) : ∀ cell ∈ row, Exact cell := by
  obtain ⟨o, -, -, hmem⟩ := mem_slice.mp hrow
  exact source.exact o row hmem

/-- The keys of batches with the rows of a range are short. -/
theorem short_slice {lower upper : Int} {batches : List RecordBatch}
    (hrows : batchRows batches = slice source.rows lower upper) : ShortLoadKeys schema batches := by
  intro pkColumns hkey position hposition cell hcell
  have hrow : position.cells ∈ batchRows batches := by
    rw [← map_cells_rowPositions 0 batches]
    exact List.mem_map_of_mem hposition
  rw [hrows] at hrow
  obtain ⟨o, -, -, hmem⟩ := mem_slice.mp hrow
  exact source.short o _ hmem pkColumns hkey cell hcell

end Source

namespace Ingest

variable {σ : Type} {schema : OpenedSchema} {source : Source schema}
  {cfg : Nat → WriterConfig RecordBatch} {master : Master σ} {s : Ingest RecordBatch σ}
  {state : Ingest RecordBatch σ × Issued} {m : σ}
  {allowed : Ingest RecordBatch σ → IngestAction RecordBatch → Prop} {first : Int}
  {owed : List StagedFile}

/-- A consumer that meets a condition meets a weaker one. -/
theorem TakesOver.mono {admitted weaker : Entry RecordBatch → Prop}
    (hweaker : ∀ e, admitted e → weaker e) {action : IngestAction RecordBatch}
    (h : TakesOver first admitted s action) : TakesOver first weaker s action := by
  cases action with
  | stream streamAction =>
    cases streamAction with
    | writer id writerAction =>
      intro opening w hphase
      have hconsumes := h opening w hphase
      cases writerAction with
      | appendCall batch startOffset endOffset => exact ⟨hconsumes.1, hweaker _ hconsumes.2⟩
      | _ => trivial
    | openRead id => exact h
    | _ => trivial
  | _ => trivial

/-- The files loaded are objects that were listed or put, laid end to end. -/
theorem Lined.loaded_files (h : s.Lined first owed) (hsound : s.Sound cfg master first owed) :
    ∃ files : List StagedFile, List.Forall₂ (Announces cfg) files (master.loaded s.master) ∧
      Tiled StagedFile.startOffset StagedFile.endOffset first files ∧
        ∀ file ∈ files, file ∈ s.staged := by
  have hsubmitted (req : NotifyRequest) (hreq : req ∈ master.loaded s.master) :
      ∃ file ∈ s.kept, Announces cfg file req :=
    hsound.requests.submitted req (Or.inr (Or.inr (Or.inr hreq)))
  have hleading : (master.loaded s.master).map NotifyRequest.serialSeq <+:
      owed.map StagedFile.packed := by
    refine hsound.orderly.ordered.loaded_prefix (List.pairwise_map.mpr h.rising)
      (fun n ↦ List.mem_map.symm) fun n hn ↦ ?_
    obtain ⟨req, hreq, rfl⟩ := List.mem_map.mp hn
    obtain ⟨file, hfile, hannounces⟩ := hsubmitted req hreq
    exact List.mem_map.mpr ⟨file, h.kept file hfile, hannounces.serialSeq.symm⟩
  obtain ⟨files, hfiles, hnumbers⟩ := List.prefix_map_iff.mp hleading
  have hkept (file : StagedFile) (hfile : file ∈ files) : file ∈ s.kept :=
    hsound.kept.mem_kept file (hfiles.subset hfile)
  exact ⟨files, forall₂_announces hsound.kept hnumbers hkept hsubmitted, h.tiled.leading hfiles,
    fun file hfile ↦ hsound.kept.staged file (hkept file hfile)⟩

/-- An object holds the rows of its range. -/
structure Holds (cfg : Nat → WriterConfig RecordBatch) (source : Source schema)
    (state : Ingest RecordBatch σ × Issued) (file : StagedFile) (id : Nat)
    (batches : List RecordBatch) (payload : List UInt8) : Prop where
  landed : (id, file) ∈ state.1.landed
  issued : (id, file, payload) ∈ state.2
  encodes : Encodes (cfg id) batches file.compressed payload
  schema : ∀ batch ∈ batches, batch.schema = schema.arrow
  rows : batchRows batches = slice source.rows file.startOffset (file.endOffset + 1)

theorem holds_of_staged (hwrites : ∀ id, schema.Writes (cfg id))
    (hallowed : ∀ s action, allowed s action → TakesOver first source.Feeds s action)
    (hreach : ReachableUnder (stepIssued cfg master) (fun state action ↦ allowed state.1 action)
      (start m, []) state) {file : StagedFile} (hfile : file ∈ state.1.staged) :
    ∃ id batches payload, Holds cfg source state file id batches payload := by
  have hrun := reachable_of_issued hreach
  have hcontents := contents_of_reachable hreach
  obtain ⟨id, hlanded⟩ := mem_staged.mp hfile
  have hput := (puts_of_reachable hrun).landed _ hlanded
  obtain ⟨payload, hissued⟩ := hcontents.issued id file hput
  obtain ⟨opening, w, cut, hphase, hcut, rfl, hencodes⟩ := hcontents.encoded _ _ _ hissued
  have hwriter := writer_of_reachable hrun hphase
  have htaken := taken_of_reachable hallowed hrun hphase
  exact ⟨id, _, payload, hlanded, hissued, hencodes, hwriter.cut_schema (hwrites id) hcut,
    source.batchRows_cut htaken hwriter.rows.2 hcut⟩

/-- Requests end where the files that they announce do. -/
theorem tiledTo_announced {files : List StagedFile} {reqs : List NotifyRequest}
    (hannounces : List.Forall₂ (Announces cfg) files reqs) (lower : Int) :
    tiledTo NotifyRequest.endOffset lower reqs = tiledTo StagedFile.endOffset lower files := by
  induction hannounces generalizing lower with
  | nil => rfl
  | cons hreq _ ih => rw [tiledTo_cons, tiledTo_cons, hreq.endOffset, ih]

/-- Objects laid end to end, loaded one after the other. -/
theorem loadObjects_tiled {ident : WriterIdentity} {urlBase : Text} {delimiter : Char}
    {unzip : List UInt8 → Option (List UInt8)}
    (hsessions : schema.Sessions cfg ident urlBase delimiter unzip)
    (hdelimiter : validDelimiter delimiter) {files : List StagedFile} {reqs : List NotifyRequest}
    (hannounces : List.Forall₂ (Announces cfg) files reqs) {lower : Int}
    (htiled : Tiled StagedFile.startOffset StagedFile.endOffset lower files)
    (hholds : ∀ file ∈ files, ∃ id batches payload,
      Holds cfg source state file id batches payload) (table : TableRows) :
    ∃ contents, List.Forall₂ (fun req ↦ Stored cfg state req.sourceUrl) reqs contents ∧
      (reqs.zip contents).foldlM (loadObject schema.toTableSchema unzip) table =
        some (applyAll schema.loadKey table
          (slice source.rows lower (tiledTo NotifyRequest.endOffset lower reqs))) := by
  induction hannounces generalizing lower table with
  | nil => exact ⟨[], .nil, by simp [applyAll]⟩
  | @cons file req files reqs hreq hrest ih =>
    rw [List.forall_mem_cons] at hholds
    obtain ⟨hstart, hle, hlater⟩ := htiled
    obtain ⟨id, batches, payload, hfile⟩ := hholds.1
    have hexact : ∀ row ∈ batchRows batches, ∀ cell ∈ row, Exact cell := fun row hrow ↦
      source.exact_slice (hfile.rows ▸ hrow)
    have hload := loadObject_eq hsessions hdelimiter hfile.encodes hfile.schema
      (source.short_slice hfile.rows) hexact hreq table
    obtain ⟨contents, hcontents, hfold⟩ :=
      ih hlater hholds.2 (applyAll schema.loadKey table (batchRows batches))
    have hstored : Stored cfg state req.sourceUrl payload := by
      obtain ⟨other, n, hmeta, rfl⟩ := hreq
      obtain ⟨-, -, -, -, -, hkey⟩ := WriterState.sealMeta_ok hmeta
      refine ⟨id, file, hfile.landed, hfile.issued, ?_⟩
      rw [notifyRequest, hkey, hsessions.place.urlBase, hsessions.place.urlBase,
        hsessions.place.ident, hsessions.place.ident]
    refine ⟨payload :: contents, .cons hstored hcontents, ?_⟩
    have hto := (tiledTo_announced hrest _).symm ▸ hlater.le_tiledTo
    rw [List.zip_cons_cons, List.foldlM_cons, hload]
    simp only [Option.bind_eq_bind, Option.bind_some]
    rw [hfold, tiledTo_cons, hreq.endOffset, hfile.rows, ← applyAll_append, hstart,
      slice_append (hle.trans (Int.le_add_one le_rfl)) hto]

/-- Three rows at three of the offsets, two of them of one key. -/
def sampleSource : Source sampleOpened where
  rows o :=
    if o = 0 then batchRows [sampleRow sampleSeven true]
    else if o = 10 then batchRows [sampleRow sampleSeven false]
    else if o = 20 then batchRows [sampleRow sampleEight true]
    else []
  exact o row hrow cell hcell := by
    split_ifs at hrow
    · obtain rfl := List.mem_singleton.mp hrow
      rcases List.mem_pair.mp hcell with rfl | rfl <;> trivial
    · obtain rfl := List.mem_singleton.mp hrow
      rcases List.mem_pair.mp hcell with rfl | rfl <;> trivial
    · obtain rfl := List.mem_singleton.mp hrow
      rcases List.mem_pair.mp hcell with rfl | rfl <;> trivial
    · simp at hrow
  short o row hrow pkColumns hkey cell hcell := by
    obtain rfl : [0] = pkColumns := Option.some.inj hkey
    obtain rfl := List.mem_singleton.mp hcell
    split_ifs at hrow
    · obtain rfl := List.mem_singleton.mp hrow
      decide
    · obtain rfl := List.mem_singleton.mp hrow
      decide
    · obtain rfl := List.mem_singleton.mp hrow
      decide
    · simp at hrow

/-- The first session stages compressed files, the others plain ones. Compression puts two bytes in
front. -/
def sampleTableConfig (id : Nat) : WriterConfig RecordBatch :=
  { sampleConfig with
    compressed := decide (id = 0)
    compatible := fun batch ↦ schemaCompatible batch.schema sampleOpened.arrow
    render := renderOnce sampleOpened.toTableSchema true ','
    gzip := fun body ↦ .ok (0x1f :: 0x8b :: bodyBytes body) }

theorem sampleSessions : sampleOpened.Sessions sampleTableConfig ⟨"c".toList, 1, 2, "w".toList⟩
    "oss://h/b".toList ',' (fun bytes ↦ some (bytes.drop 2)) where
  place := ⟨fun _ ↦ rfl, fun _ ↦ rfl⟩
  writes _ := ⟨fun _ ↦ rfl, rfl⟩
  delimiter _ := rfl
  upsert _ := rfl
  unzip id body bytes hgzip := by
    obtain rfl := Except.ok.inj hgzip
    rfl

/-- The steps of the gzip stage between receiving a file and sending it. -/
def sampleZip (id : Nat) : List (Action RecordBatch) :=
  if id = 0 then [.attempt .gzip, .gzipEnds none] else []

/-- A session takes a row, and the put of its file is issued. -/
def samplePutRow (id flush : Nat) (batch : RecordBatch) (startOffset endOffset : Int) :
    List (IngestAction RecordBatch) :=
  sampleWriter id ([.appendCall batch startOffset endOffset, .appendPush 0,
      .flushCall flush false, .tryLock (.flush flush) false] ++
    List.replicate 5 (.handOver 0) ++
    [.receive .render, .attempt .render, .renderEnds none, .calibrate, .send .render,
      .receive .gzip] ++ sampleZip id ++ [.send .gzip, .receive .put, .order, .attempt .put])

def sampleZipped (seq : Nat) (startOffset endOffset : Int) : StagedFile :=
  ⟨1, seq, startOffset, endOffset, true⟩

/-- A session stages two rows and dies before it hears of the second put. The next one announces
both files, stages a third, and the server loads them. -/
def servedTable : Ingest RecordBatch (List NotifyRequest × List NotifyRequest) × Issued :=
  (run (restrict (stepIssued sampleTableConfig jobMaster)
    (fun state action ↦ Successive 0 sampleSource.Feeds state.1 action)) (start ([], []), [])
    (sampleSession 0 1 none [] 0 ++
      samplePutRow 0 0 (sampleRow sampleSeven true) 0 9 ++
      sampleStage 0 (sampleZipped 0 0 9) ++
      samplePutRow 0 1 (sampleRow sampleSeven false) 10 19 ++
      [.objectLands 0 (sampleZipped 1 10 19), .stream (.crash 0)] ++
      sampleSession 1 5 none [sampleZipped 0 0 9, sampleZipped 1 10 19] 2 ++
      samplePutRow 1 0 (sampleRow sampleEight true) 20 29 ++
      sampleStage 1 ⟨5, 0, 20, 29, false⟩ ++ sampleSubmit 1 (sampleZipped 0 0 9) ++
      sampleSubmit 1 (sampleZipped 1 10 19) ++ sampleSubmit 1 ⟨5, 0, 20, 29, false⟩ ++
      [.load, .load, .load])).getD (start ([], []), [])

end Ingest

end RelytIngest
