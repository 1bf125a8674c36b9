import RelytIngest.Writer.Progress
import RelytIngest.Writer.State

/-!
# The rotation pipeline

The render, gzip and put stages are one task each, joined by bounded channels, and every task works
through its files in the order it receives them. `Stage` is such a task: it waits for a file, runs
its retry loop on it, goes through phases of its own, and ends when the writer is fenced, when a
file is rejected for good, or when a neighbour has ended. `Pipeline.line` lists the files that are
somewhere between the seal channel and the return of their put, oldest first.

The stages hold the writer weakly; a writer that is dropped is not modelled, so the upgrade always
succeeds. A file an ended stage held is remembered: it stays in the line and never moves again.
-/

set_option autoImplicit false
set_option relaxedAutoImplicit false

namespace RelytIngest

open Foundations

/-- Render stage output. -/
structure Rendered where
  fileMeta : FileMeta
  body : Text
  rows : Nat
  deriving DecidableEq, Repr

/-- Gzip stage output. -/
structure Compressed where
  fileMeta : FileMeta
  payload : List UInt8
  deriving DecidableEq, Repr

inductive StageName
  | render
  | gzip
  | put
  deriving DecidableEq, Repr

def StageName.label : StageName → String
  | render => "render"
  | gzip => "gzip"
  | put => "put"

/-- A stage task over files `ι` with phases `φ` of its own. -/
inductive Stage (ι φ : Type)
  | receiving
  /-- At the top of the retry loop, after so many failed attempts. -/
  | attempt (file : ι) (failures : Nat)
  | running (file : ι) (failures : Nat)
  /-- A permanent failure was reported; the terminal entry is still to be published. -/
  | rejected (file : ι) (err : Error)
  | between (phase : φ)
  | exited (dropped : List FileMeta)
  deriving DecidableEq, Repr

/-- What the render stage does with a rendered file. -/
inductive RenderPhase
  | calibrating (out : Rendered)
  | sending (out : Rendered)
  deriving DecidableEq, Repr

/-- What the put stage does around the put of a file. -/
inductive PutPhase
  | ordering (file : Compressed)
  | returned (m : FileMeta)
  | recording (m : FileMeta)
  | announcing (m : FileMeta)
  | landing (m : FileMeta)
  deriving DecidableEq, Repr

/-- The channels and the stage tasks of a writer. -/
structure Pipeline (β : Type) where
  queue : List (Sealed β)
  render : Stage (Sealed β) RenderPhase
  toGzip : List Rendered
  gzip : Stage Rendered Compressed
  toPut : List Compressed
  put : Stage Compressed PutPhase
  /-- (epoch, seq, end offset) of the last file the put stage made durable. -/
  prev : Option (Nat × Nat × Int)
  deriving DecidableEq, Repr

/-- The outcome of `put_once`: a put that is denied is repeated once the credentials were
refreshed to a different key. -/
structure PutTrial where
  first : Except Error Unit
  refreshed : Except Error Bool
  second : Except Error Unit
  deriving Repr

/-- `put_once`. -/
def PutTrial.result (trial : PutTrial) : Except Error Unit :=
  match trial.first with
  | .ok () => .ok ()
  | .error (.storage .permissionDenied message) => do
    let refreshed ← trial.refreshed
    if refreshed then trial.second else .error (.storage .permissionDenied message)
  | .error err => .error err

/-- `check_order`: the file that reaches the put stage continues the last durable one. -/
def checkOrder (prev : Option (Nat × Nat × Int)) (next : StagedFile) : Except String Unit :=
  match prev with
  | none => .ok ()
  | some (epoch, seq, endOffset) =>
    if if next.epochMs = epoch then next.seq = (seq + 1) % 2 ^ 32
        else epoch < next.epochMs ∧ next.seq = 0 then
      .ok ()
    else
      let why :=
        if next.epochMs = epoch ∧ (seq + 1) % 2 ^ 32 < next.seq then
          "seqs " ++ toString ((seq + 1) % 2 ^ 32) ++ "..=" ++ toString (next.seq - 1) ++
            " of epoch " ++ toString epoch ++ " never arrived"
        else
          "expected seq " ++ toString ((seq + 1) % 2 ^ 32) ++ " of epoch " ++ toString epoch ++
            " (or seq 0 of a later epoch)"
      let gap :=
        if nextOffset endOffset < next.startOffset then
          "; Kafka offsets " ++ toString (nextOffset endOffset) ++ "..=" ++
            toString (wrapI64 (next.startOffset - 1)) ++ " are not in staging"
        else ""
      .error ("file epoch " ++ toString next.epochMs ++ " seq " ++ toString next.seq ++
        " (Kafka offsets [" ++ toString next.startOffset ++ ", " ++ toString next.endOffset ++
        "]) reached the upload stage after epoch " ++ toString epoch ++ " seq " ++ toString seq ++
        " (offsets up to " ++ toString endOffset ++ "): " ++ why ++ gap ++
        ". A restart resumes after the highest staged offset and will NOT re-stage that gap. " ++
        "Stop consuming this stream, do not commit its Kafka offsets, roll back or upgrade the " ++
        "SDK, then rewind the consumer to the start of the gap (GUIDE.md, \"Error handling\").")

namespace Stage

variable {ι φ : Type} (metaOf : ι → FileMeta) (phaseMeta : φ → List FileMeta)

/-- The task has ended. -/
def hasExited : Stage ι φ → Bool
  | exited _ => true
  | _ => false

/-- The file the task holds, as long as its put has not returned. -/
def inHand : Stage ι φ → List FileMeta
  | receiving => []
  | attempt file _ | running file _ | rejected file _ => [metaOf file]
  | between phase => phaseMeta phase
  | exited dropped => dropped

/-- A failed attempt: the file is tried again unless the failure is permanent. -/
def failed (file : ι) (failures : Nat) (err : Error) : Stage ι φ :=
  if err.isPermanent then .rejected file err else .attempt file (failures + 1)

@[simp] theorem inHand_failed (file : ι) (failures : Nat) (err : Error) :
    (failed (φ := φ) file failures err).inHand metaOf phaseMeta = [metaOf file] := by
  unfold failed
  split <;> rfl

end Stage

namespace RenderPhase

/-- The file of the phase. -/
def files : RenderPhase → List FileMeta
  | calibrating out | sending out => [out.fileMeta]

end RenderPhase

namespace PutPhase

/-- The file of the phase, before its put returned. -/
def files : PutPhase → List FileMeta
  | ordering file => [file.fileMeta]
  | returned _ | recording _ | announcing _ | landing _ => []

end PutPhase

namespace Pipeline

variable {β : Type}

/-- The pipeline of a new writer. -/
def initial : Pipeline β where
  queue := []
  render := .receiving
  toGzip := []
  gzip := .receiving
  toPut := []
  put := .receiving
  prev := none

/-- The files between the seal channel and the return of their put, oldest first. -/
def line (pipe : Pipeline β) : List FileMeta :=
  pipe.put.inHand Compressed.fileMeta PutPhase.files ++ pipe.toPut.map Compressed.fileMeta ++
    pipe.gzip.inHand Rendered.fileMeta (fun out ↦ [out.fileMeta]) ++
    pipe.toGzip.map Rendered.fileMeta ++
    pipe.render.inHand Sealed.fileMeta RenderPhase.files ++ pipe.queue.map Sealed.fileMeta

end Pipeline

end RelytIngest
