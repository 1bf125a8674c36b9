import RelytIngest.Naming.KeyOrder
import RelytIngest.Writer.FlushDurable
import RelytIngest.Writer.SealedFiles

/-!
# What the pipeline carries

A sealed file goes through the stages as its batches, as a CSV body and as the bytes that are put.
`Carries` relates each of these to the file as it was cut: the body is the rendering of its batches
and the bytes are the encoding of that body (`put_content`). So every put of a key, the first one
and every repetition, writes the same bytes (`same_content`).
-/

set_option autoImplicit false
set_option relaxedAutoImplicit false

namespace RelytIngest

open Foundations

/-- What a stage holds: its file has one property, or its phase another. -/
def Stage.Holds {ι φ : Type} (ofFile : ι → Prop) (ofPhase : φ → Prop) : Stage ι φ → Prop
  | .receiving | .exited _ => True
  | .attempt file _ | .running file _ | .rejected file _ => ofFile file
  | .between phase => ofPhase phase

theorem Stage.Holds.mono {ι φ : Type} {ofFile ofFile' : ι → Prop} {ofPhase ofPhase' : φ → Prop}
    {stage : Stage ι φ} (h : stage.Holds ofFile ofPhase)
    (hfile : ∀ file, ofFile file → ofFile' file)
    (hphase : ∀ phase, ofPhase phase → ofPhase' phase) : stage.Holds ofFile' ofPhase' := by
  cases stage with
  | receiving | exited => trivial
  | attempt file failures | running file failures | rejected file err => exact hfile file h
  | between phase => exact hphase phase h

/-- A file that failed is tried again or given up, and is held either way. -/
theorem Stage.holds_failed {ι φ : Type} {ofFile : ι → Prop} {ofPhase : φ → Prop} {file : ι}
    (h : ofFile file) (failures : Nat) (err : Error) :
    (Stage.failed (φ := φ) file failures err).Holds ofFile ofPhase := by
  unfold Stage.failed
  split <;> exact h

def RenderPhase.out : RenderPhase → Rendered
  | .calibrating out | .sending out => out

/-- The bytes that are put for a file of batches. -/
def Encodes {β : Type} (cfg : WriterConfig β) (batches : List β) (compressed : Bool)
    (payload : List UInt8) : Prop :=
  ∃ body rows, cfg.render batches = .ok (body, rows) ∧
    if compressed then cfg.gzip body = .ok payload else payload = bodyBytes body

/-- A file has one content. -/
theorem Encodes.unique {β : Type} {cfg : WriterConfig β} {batches : List β} {compressed : Bool}
    {payload payload' : List UInt8} (h : Encodes cfg batches compressed payload)
    (h' : Encodes cfg batches compressed payload') : payload = payload' := by
  obtain ⟨body, rows, hrender, hpayload⟩ := h
  obtain ⟨body', rows', hrender', hpayload'⟩ := h'
  obtain ⟨rfl, -⟩ := Prod.mk.inj (Except.ok.inj (hrender.symm.trans hrender'))
  cases compressed with
  | true => exact Except.ok.inj (hpayload.symm.trans hpayload')
  | false => exact hpayload.trans hpayload'.symm

section Files

variable {β : Type} (cfg : WriterConfig β) (cuts : List (Cut β))

/-- The file is one that was cut. -/
def CutFile (file : Sealed β) : Prop := ∃ cut ∈ cuts, cut.file = file

/-- The body is that of a file that was cut. -/
def RenderedFile (out : Rendered) : Prop :=
  ∃ cut ∈ cuts, cut.fileMeta = out.fileMeta ∧ cfg.render cut.file.batches = .ok (out.body, out.rows)

/-- So is the body of a file to compress. -/
def CompressedFile (out : Rendered) : Prop :=
  RenderedFile cfg cuts out ∧ out.fileMeta.file.compressed = true

/-- The bytes are those of a file that was cut. -/
def EncodedFile (file : Compressed) : Prop :=
  ∃ cut ∈ cuts, cut.fileMeta = file.fileMeta ∧
    Encodes cfg cut.file.batches file.fileMeta.file.compressed file.payload

/-- The file of the phase, before its put returned. -/
def EncodedPhase : PutPhase → Prop
  | .ordering file => EncodedFile cfg cuts file
  | .returned _ | .recording _ | .announcing _ | .landing _ => True

end Files

namespace Writer

variable {β : Type} {cfg : WriterConfig β} {w w' : Writer β}

/-- Everything on its way to the put is the content of a file that was cut. -/
structure Carries (cfg : WriterConfig β) (w : Writer β) : Prop where
  sending : ∀ holder sealed, w.lock = some ⟨holder, .sending sealed⟩ → CutFile w.trace.cuts sealed
  queue : ∀ file ∈ w.pipe.queue, CutFile w.trace.cuts file
  render : w.pipe.render.Holds (CutFile w.trace.cuts)
    fun phase ↦ RenderedFile cfg w.trace.cuts phase.out
  toGzip : ∀ out ∈ w.pipe.toGzip, RenderedFile cfg w.trace.cuts out
  gzip : w.pipe.gzip.Holds (CompressedFile cfg w.trace.cuts) (EncodedFile cfg w.trace.cuts)
  toPut : ∀ file ∈ w.pipe.toPut, EncodedFile cfg w.trace.cuts file
  put : w.pipe.put.Holds (EncodedFile cfg w.trace.cuts) (EncodedPhase cfg w.trace.cuts)

namespace Carries

theorem new (epochMs : Nat) (stagedOffset resumePersisted : Option Int) :
    Carries cfg (Writer.new epochMs stagedOffset resumePersisted : Writer β) where
  sending holder sealed hlock := by simp [Writer.new] at hlock
  queue file hfile := by simp [Writer.new, Pipeline.initial] at hfile
  render := trivial
  toGzip out hout := by simp [Writer.new, Pipeline.initial] at hout
  gzip := trivial
  toPut file hfile := by simp [Writer.new, Pipeline.initial] at hfile
  put := trivial

/-- A step that leaves the pipeline and the files alone, and sends no other file. -/
theorem same (h : w.Carries cfg) (hsame : SamePipeline w w')
    (hlock : ∀ holder sealed, w'.lock = some ⟨holder, .sending sealed⟩ →
      CutFile w.trace.cuts sealed) : w'.Carries cfg := by
  obtain ⟨hpipe, -, -, -, -, hcuts, -⟩ := hsame
  constructor
  case sending => rwa [hcuts]
  case queue => rw [hpipe, hcuts]; exact h.queue
  case render => rw [hpipe, hcuts]; exact h.render
  case toGzip => rw [hpipe, hcuts]; exact h.toGzip
  case gzip => rw [hpipe, hcuts]; exact h.gzip
  case toPut => rw [hpipe, hcuts]; exact h.toPut
  case put => rw [hpipe, hcuts]; exact h.put

/-- Another file was cut. -/
theorem more (h : w.Carries cfg) {cut : Cut β} {lock : Option (Holding β)} {st : WriterState β}
    (hlock : ∀ holder sealed, lock = some ⟨holder, .sending sealed⟩ →
      CutFile (w.trace.cuts ++ [cut]) sealed) :
    Carries cfg { w with
      st := st, lock := lock, trace := { w.trace with cuts := w.trace.cuts ++ [cut] } } := by
  have hcut (file : Sealed β) : CutFile w.trace.cuts file → CutFile (w.trace.cuts ++ [cut]) file :=
    fun ⟨cut, hmem, heq⟩ ↦ ⟨cut, List.mem_append_left _ hmem, heq⟩
  have hrendered (out : Rendered) :
      RenderedFile cfg w.trace.cuts out → RenderedFile cfg (w.trace.cuts ++ [cut]) out :=
    fun ⟨cut, hmem, heq⟩ ↦ ⟨cut, List.mem_append_left _ hmem, heq⟩
  have hencoded (file : Compressed) :
      EncodedFile cfg w.trace.cuts file → EncodedFile cfg (w.trace.cuts ++ [cut]) file :=
    fun ⟨cut, hmem, heq⟩ ↦ ⟨cut, List.mem_append_left _ hmem, heq⟩
  have hphase (phase : PutPhase) :
      EncodedPhase cfg w.trace.cuts phase → EncodedPhase cfg (w.trace.cuts ++ [cut]) phase := by
    cases phase with
    | ordering file => exact hencoded file
    | returned | recording | announcing | landing => exact id
  exact {
    sending := hlock
    queue := fun file hfile ↦ hcut file (h.queue file hfile)
    render := h.render.mono hcut fun phase ↦ hrendered phase.out
    toGzip := fun out hout ↦ hrendered out (h.toGzip out hout)
    gzip := h.gzip.mono (fun out hout ↦ ⟨hrendered out hout.1, hout.2⟩) hencoded
    toPut := fun file hfile ↦ hencoded file (h.toPut file hfile)
    put := h.put.mono hencoded hphase }

/-- The holder of the seal lock goes on without sending a file, or is done. -/
theorem setPhase (h : w.Carries cfg) {holder : Sealer} {phase : SealPhase β}
    (hphase : ∀ sealed, phase ≠ .sending sealed) : (w.setPhase holder phase).Carries cfg :=
  h.same (.setPhase holder phase) fun _ sealed hlock ↦
    absurd (Holding.mk.inj (Option.some.inj hlock)).2 (hphase sealed)

theorem finish (h : w.Carries cfg) (holder : Sealer) (result : Except Error (Option Int)) :
    (w.finish holder result).Carries cfg :=
  h.same (.finish holder result) fun _ sealed hlock ↦ by
    rw [Writer.finish, lock_sealReturns] at hlock
    simp at hlock

/-- A blocking task that was not lost returns its result. -/
theorem of_joined {α : Type} {joinError : Option String} {task : String} {result : Except Error α}
    {value : α} (hjoined : joined joinError task result = .ok value) : result = .ok value := by
  cases joinError with
  | none => exact hjoined
  | some message => simp [joined] at hjoined

theorem render_step (h : w.Carries cfg) {action : Action β} (hstep : RenderStep cfg w action w') :
    w'.Carries cfg := by
  have hrender := h.render
  cases hstep with
  | take file rest hstage hqueue =>
    have hfiles := h.queue
    rw [hqueue, List.forall_mem_cons] at hfiles
    exact { h with render := hfiles.1, queue := hfiles.2 }
  | drop file failures progress hstage => exact { h with render := trivial }
  | run file failures hstage =>
    rw [hstage] at hrender
    exact { h with render := hrender }
  | pass joinError file failures out hstage hmeta hresult =>
    rw [hstage] at hrender
    obtain ⟨cut, hcut, rfl⟩ := hrender
    have hout : RenderedFile cfg w.trace.cuts out := ⟨cut, hcut, hmeta.symm, of_joined hresult⟩
    refine { h with render := ?_ }
    show Stage.Holds _ _ (.between _)
    split_ifs <;> exact hout
  | fail joinError file failures err hstage =>
    rw [hstage] at hrender
    have hfile : CutFile w.trace.cuts file := hrender
    exact { h with render := Stage.holds_failed hfile failures err }
  | giveUp file err hstage => exact { h with render := trivial }
  | calibrate out hstage =>
    rw [hstage] at hrender
    exact { h with render := hrender }
  | lose out hstage => exact { h with render := trivial }
  | send out hstage hgzip hroom =>
    rw [hstage] at hrender
    exact { h with render := trivial, toGzip := List.forall_mem_singleton.mpr hrender }

theorem gzip_step (h : w.Carries cfg) {action : Action β} (hstep : GzipStep cfg w action w') :
    w'.Carries cfg := by
  have hgzip := h.gzip
  cases hstep with
  | take file rest hstage hqueue hcompressed =>
    have hfiles := h.toGzip
    rw [hqueue, List.forall_mem_cons] at hfiles
    exact { h with gzip := ⟨hfiles.1, hcompressed⟩, toGzip := hfiles.2 }
  | skip file rest hstage hqueue hplain =>
    have hfiles := h.toGzip
    rw [hqueue, List.forall_mem_cons] at hfiles
    obtain ⟨cut, hcut, hmeta, hrender⟩ := hfiles.1
    have hout : EncodedFile cfg w.trace.cuts ⟨file.fileMeta, bodyBytes file.body⟩ :=
      ⟨cut, hcut, hmeta, file.body, file.rows, hrender, by simp [hplain]⟩
    exact { h with gzip := hout, toGzip := hfiles.2 }
  | close hstage => exact { h with gzip := trivial }
  | drop file failures progress hstage => exact { h with gzip := trivial }
  | run file failures hstage =>
    rw [hstage] at hgzip
    exact { h with gzip := hgzip }
  | pass joinError file failures payload hstage hresult =>
    rw [hstage] at hgzip
    obtain ⟨⟨cut, hcut, hmeta, hrender⟩, hcompressed⟩ := hgzip
    have hout : EncodedFile cfg w.trace.cuts ⟨file.fileMeta, payload⟩ :=
      ⟨cut, hcut, hmeta, file.body, file.rows, hrender, by simp [hcompressed, of_joined hresult]⟩
    exact { h with gzip := hout }
  | fail joinError file failures err hstage =>
    rw [hstage] at hgzip
    have hfile : CompressedFile cfg w.trace.cuts file := hgzip
    exact { h with gzip := Stage.holds_failed hfile failures err }
  | giveUp file err hstage => exact { h with gzip := trivial }
  | lose out hstage => exact { h with gzip := trivial }
  | send out hstage hput hroom =>
    rw [hstage] at hgzip
    exact { h with gzip := trivial, toPut := List.forall_mem_singleton.mpr hgzip }

theorem put_step (h : w.Carries cfg) {action : Action β} (hstep : PutStep cfg w action w') :
    w'.Carries cfg := by
  have hput := h.put
  cases hstep with
  | take file rest hstage hqueue =>
    have hfiles := h.toPut
    rw [hqueue, List.forall_mem_cons] at hfiles
    exact { h with put := hfiles.1, toPut := hfiles.2 }
  | order file hstage =>
    rw [hstage] at hput
    exact { h with put := hput }
  | run file failures hstage =>
    rw [hstage] at hput
    exact { h with put := hput }
  | fail trial file failures err hstage =>
    rw [hstage] at hput
    have hfile : EncodedFile cfg w.trace.cuts file := hput
    exact { h with put := Stage.holds_failed hfile failures err }
  | close | dropUnordered | trip | drop | pass | giveUp | dropReturned | confirm | record
  | announce | land => exact { h with put := trivial }

theorem holder_step (h : w.Carries cfg) {now : Nat} (hstep : HolderStep cfg w now w') :
    w'.Carries cfg := by
  cases hstep with
  | reserve | await | close | lose | proceed => exact h.setPhase fun sealed ↦ by simp
  | permit holder phase next hlock hphase hnext =>
    refine h.setPhase fun sealed ↦ ?_
    rcases hnext with rfl | rfl <;> simp
  | skip | yield | fail => exact h.finish _ _
  | report holder hlock =>
    exact ({ h with } : Carries cfg { w with progress := w.progress.pipelineGone.2 }).finish _ _
  | cut holder hlock =>
    unfold Writer.cut
    split
    · next st hseal =>
      have hmid : Carries cfg { w with st := st } := { h with }
      exact hmid.finish _ _
    · next st hseal =>
      have hmid : Carries cfg { w with st := st } := { h with }
      exact hmid.finish _ _
    · next sealed st hseal =>
      refine h.more fun other file hlock' ↦ ?_
      obtain ⟨-, hsending⟩ := Holding.mk.inj (Option.some.inj hlock')
      obtain rfl := SealPhase.sending.inj hsending
      exact ⟨_, List.mem_append_right _ (List.mem_singleton_self _), rfl⟩
  | send holder sealed hlock =>
    have hqueue : ∀ file ∈ w.pipe.queue ++ [sealed], CutFile w.trace.cuts file := by
      intro file hfile
      rcases List.mem_append.mp hfile with hold | hnew
      · exact h.queue file hold
      · exact List.mem_singleton.mp hnew ▸ h.sending holder sealed hlock
    have hmid : Carries cfg { w with
        pipe := { w.pipe with queue := w.pipe.queue ++ [sealed] }
        trace := { w.trace with sent := w.trace.sent ++ [sealed.fileMeta] } } :=
      { h with queue := hqueue }
    exact hmid.finish _ _

theorem step (h : w.Carries cfg) {action : Action β} (hstep : w.step cfg action = some w') :
    w'.Carries cfg := by
  cases action with
  | appendCall | appendPush | appendUnbuffer | flushCall | flushLookup | flushAwait | flushRead
  | tick | tickerCheck | persistBegin | persistRecheck | persistWrite =>
    obtain ⟨hsame, hlock⟩ := caller_frame hstep rfl
    exact h.same hsame (hlock ▸ h.sending)
  | tryLock | acquire | stall =>
    refine h.same (locker_frame hstep rfl) ?_
    cases sealer_cases hstep rfl with
    | skip | giveUp => rw [lock_sealReturns]; exact h.sending
    | park => rw [lock_setWait]; exact h.sending
    | take sealer =>
      intro holder sealed hlock
      have hphase := (Holding.mk.inj (Option.some.inj hlock)).2
      split_ifs at hphase
    | letGo =>
      intro holder sealed hlock
      rw [Writer.finish, lock_sealReturns] at hlock
      simp at hlock
  | handOver now => exact h.holder_step (holder_cases hstep)
  | receive | attempt | renderEnds | gzipEnds | putEnds | giveUp | calibrate | send | order
  | confirm | record | announce | land =>
    rcases stage_cases hstep rfl with hrender | hgzip | hput
    · exact h.render_step hrender
    · exact h.gzip_step hgzip
    · exact h.put_step hput
  | fence | serialViolation | notifierStops =>
    obtain rfl := Option.some.inj hstep
    exact { h with }

end Carries

/-- A writer carries the content of its files in every reachable state. -/
theorem ReachableFrom.carries {epochMs : Nat} {stagedOffset resumePersisted : Option Int}
    (hreach : ReachableFrom cfg epochMs stagedOffset resumePersisted w) : w.Carries cfg :=
  hreach.invariant (.new _ _ _) fun _ _ _ h hstep ↦ h.step hstep

/-- Files of one writer with one key have one serial seq. -/
theorem packed_eq_of_objectKey_eq {ident : WriterIdentity} {first second : StagedFile}
    (hfirst : first.epochMs ≤ MAX_EPOCH_MS ∧ first.seq ≤ MAX_SEQ)
    (hsecond : second.epochMs ≤ MAX_EPOCH_MS ∧ second.seq ≤ MAX_SEQ)
    (hkey : first.objectKey ident = second.objectKey ident) : first.packed = second.packed := by
  by_contra hne
  have hpairs : (first.epochMs, first.seq) ≠ (second.epochMs, second.seq) := by
    intro heq
    obtain ⟨hepoch, hseq⟩ := Prod.mk.inj heq
    exact hne (by simp only [StagedFile.packed, hepoch, hseq])
  have hforward := objectKey_lt_iff ident hfirst hsecond hpairs
  have hbackward := objectKey_lt_iff ident hsecond hfirst hpairs.symm
  rw [hkey] at hforward hbackward
  have hless := mt hforward.mpr (List.lt_irrefl _)
  have hmore := mt hbackward.mpr (List.lt_irrefl _)
  simp only [StagedFile.packed] at hne
  omega

/-- The files that were cut stay. -/
theorem cuts_subset (hlater : Reachable (step cfg) w w') : w.trace.cuts ⊆ w'.trace.cuts :=
  hlater.strengthened (fun v ↦ w.trace.cuts ⊆ v.trace.cuts) (List.Subset.refl _)
    fun _ _ _ _ h _ hstep ↦ List.Subset.trans h (step_grows hstep).cuts

/-- The file whose put is under way. -/
def putting (w : Writer β) : Option Compressed :=
  match w.pipe.put with
  | .running file _ => some file
  | _ => none

theorem putting_eq_some {file : Compressed} (hput : w.putting = some file) :
    ∃ failures, w.pipe.put = .running file failures := by
  unfold putting at hput
  split at hput
  · next file failures hrunning =>
    obtain rfl := Option.some.inj hput
    exact ⟨failures, hrunning⟩
  · simp at hput

section Put

variable {epochMs : Nat} {stagedOffset resumePersisted : Option Int}

/-- No two files that were cut have one number. -/
theorem ReachableFrom.cut_of_packed
    (hreach : ReachableFrom cfg epochMs stagedOffset resumePersisted w) {first second : Cut β}
    (hfirst : first ∈ w.trace.cuts) (hsecond : second ∈ w.trace.cuts)
    (hpacked : first.fileMeta.file.packed = second.fileMeta.file.packed) : first = second := by
  obtain ⟨-, hnamed⟩ := hreach.rows
  have hnodup : (w.trace.cuts.map fun cut ↦ cut.fileMeta.serialSeq).Nodup :=
    List.pairwise_map.mpr (hnamed.increasing.imp fun h ↦ h.ne)
  refine List.inj_on_of_nodup_map hnodup hfirst hsecond ?_
  rw [(hnamed.wellFormed first hfirst).serialSeq, (hnamed.wellFormed second hsecond).serialSeq,
    hpacked]

/-- Nor have two of them one key. -/
theorem ReachableFrom.cut_of_key
    (hreach : ReachableFrom cfg epochMs stagedOffset resumePersisted w) {first second : Cut β}
    (hfirst : first ∈ w.trace.cuts) (hsecond : second ∈ w.trace.cuts)
    (hkey : first.fileMeta.objectKey = second.fileMeta.objectKey) : first = second := by
  have hwellFirst := hreach.rows.2.wellFormed first hfirst
  have hwellSecond := hreach.rows.2.wellFormed second hsecond
  obtain ⟨-, -, -, -, -, hkeyFirst⟩ := WriterState.sealMeta_ok hwellFirst.named
  obtain ⟨-, -, -, -, -, hkeySecond⟩ := WriterState.sealMeta_ok hwellSecond.named
  exact hreach.cut_of_packed hfirst hsecond (packed_eq_of_objectKey_eq hwellFirst.encodes
    hwellSecond.encodes (hkeyFirst.symm.trans (hkey.trans hkeySecond)))

/-- A put writes the content of the file as it was cut. -/
theorem ReachableFrom.put_content
    (hreach : ReachableFrom cfg epochMs stagedOffset resumePersisted w) {file : Compressed}
    (hput : w.putting = some file) :
    ∃ cut ∈ w.trace.cuts, cut.WellFormed cfg ∧ cut.fileMeta = file.fileMeta ∧
      Encodes cfg (cut.entries.map Entry.batch) file.fileMeta.file.compressed file.payload := by
  obtain ⟨failures, hrunning⟩ := putting_eq_some hput
  have hcarried := hreach.carries.put
  rw [hrunning] at hcarried
  obtain ⟨cut, hcut, hmeta, hencodes⟩ := hcarried
  have hwell := hreach.rows.2.wellFormed cut hcut
  exact ⟨cut, hcut, hwell, hmeta, hwell.batches ▸ hencodes⟩

/-- However often a key is put, and however far apart, each put writes the same bytes under it. -/
theorem same_content
    (hreach : ReachableFrom cfg epochMs stagedOffset resumePersisted w)
    (hlater : Reachable (step cfg) w w') {file other : Compressed}
    (hput : w.putting = some file) (hput' : w'.putting = some other)
    (hkey : file.fileMeta.objectKey = other.fileMeta.objectKey) : file.payload = other.payload := by
  have hreach' : ReachableFrom cfg epochMs stagedOffset resumePersisted w' := hreach.trans hlater
  obtain ⟨cut, hcut, -, hmeta, hencodes⟩ := hreach.put_content hput
  obtain ⟨cut', hcut', -, hmeta', hencodes'⟩ := hreach'.put_content hput'
  obtain rfl : cut = cut' :=
    hreach'.cut_of_key (cuts_subset hlater hcut) hcut' (by rw [hmeta, hmeta', hkey])
  obtain heq : file.fileMeta = other.fileMeta := hmeta.symm.trans hmeta'
  rw [← heq] at hencodes'
  exact hencodes.unique hencodes'

end Put

/-- The put of a sealed row is under way. -/
def firstPut : Writer RecordBatch :=
  (run (step sampleConfig) (new 1 none none) (sampleAppend 0 9 ++ sampleFlush.take 17)).getD
    (new 1 none none)

/-- It is again, after the connection broke. -/
def secondPut : Writer RecordBatch :=
  (run (step sampleConfig) firstPut
    [.putEnds ⟨.error (.storage .other "broken"), .ok false, .ok ()⟩, .attempt .put]).getD
      (new 1 none none)

theorem same_content_sample :
    ∃ file other, firstPut.putting = some file ∧ secondPut.putting = some other ∧
      file.payload = other.payload := by
  have hfirst : ReachableFrom sampleConfig 1 none none firstPut :=
    reachable_getD_of_run .refl (by decide +kernel)
  have hlater : Reachable (step sampleConfig) firstPut secondPut :=
    reachable_getD_of_run .refl (by decide +kernel)
  obtain ⟨file, hfile⟩ :=
    Option.isSome_iff_exists.mp (show firstPut.putting.isSome by decide +kernel)
  obtain ⟨other, hother⟩ :=
    Option.isSome_iff_exists.mp (show secondPut.putting.isSome by decide +kernel)
  have hkeys : ∀ file ∈ firstPut.putting, ∀ other ∈ secondPut.putting,
      file.fileMeta.objectKey = other.fileMeta.objectKey := by
    decide +kernel
  exact ⟨file, other, hfile, hother,
    same_content hfirst hlater hfile hother (hkeys file hfile other hother)⟩

end Writer

end RelytIngest
