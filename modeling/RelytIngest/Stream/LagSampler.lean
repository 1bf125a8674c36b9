import RelytIngest.Foundations.Pruned
import RelytIngest.Ingest.Sessions
import Mathlib.Data.Int.ConditionallyCompleteOrder

/-!
# The lag samplers of a stream

The sessions of a stream, the clock that each of them reads, the watermark of the server, and the
lag sampler of each writer: it asks the server for the watermark, reads the clock, and measures with
`lag_of` the files it knows. A writer starts from the files that its open recovered, stamped with
the epoch in their name, and adds each file that it seals, stamped with the clock.

When each file was really sealed is history, and so is what each sample was taken of.
-/

set_option autoImplicit false
set_option relaxedAutoImplicit false

namespace RelytIngest

open Foundations

/-- The watermark as a bound on serial seqs. -/
def watermarkBound : Option Int → WithBot Int
  | none => ⊥
  | some w => w

theorem aboveWatermark_iff (watermark : Option Int) (serialSeq : Int) :
    aboveWatermark watermark serialSeq = true ↔ watermarkBound watermark < serialSeq := by
  cases watermark with
  | none => simp [aboveWatermark, watermarkBound]
  | some w => simp [aboveWatermark, watermarkBound]

theorem watermarkBound_le_iff (watermark : Option Int) (serialSeq : Int) :
    watermarkBound watermark ≤ serialSeq ↔
      (watermark.all fun w ↦ decide (w ≤ serialSeq)) = true := by
  cases watermark with
  | none => simp [watermarkBound]
  | some w => simp [watermarkBound]

/-- `lag_of`: the entries that are left, how many they are, and the age of the oldest in seconds. -/
def lagOf (known : List (Int × Nat)) (watermark : Option Int) (nowMs : Nat) :
    List (Int × Nat) × Nat × Nat :=
  let known := known.filter fun entry ↦ aboveWatermark watermark entry.1
  let oldest := (known.map Prod.snd).min?
  (known, known.length, (oldest.map fun sealedAtMs ↦ (nowMs - sealedAtMs) / 1000).getD 0)

theorem lagOf_eq (known : List (Int × Nat)) (watermark : Option Int) (nowMs : Nat) :
    lagOf known watermark nowMs = (remaining (watermarkBound watermark) known,
      (remaining (watermarkBound watermark) known).length,
      (((remaining (watermarkBound watermark) known).map Prod.snd).min?.map
        fun sealedAtMs ↦ (nowMs - sealedAtMs) / 1000).getD 0) := by
  have hleft : (known.filter fun entry ↦ aboveWatermark watermark entry.1) =
      remaining (watermarkBound watermark) known := by
    refine List.filter_congr fun entry _ ↦ ?_
    rw [Bool.eq_iff_iff, aboveWatermark_iff, decide_eq_true_eq]
  rw [lagOf, hleft]

example : lagOf [(10, 999910000), (11, 999970000), (12, 999995000)] (some 11) 1000000000 =
    ([(12, 999995000)], 1, 5) := by
  decide

/-- The files that the open of a running session recovered. -/
def StreamSession.recovered {β : Type} (session : StreamSession β) : List StagedFile :=
  match session.phase with
  | .running opening _ => opening.plan.backfill
  | _ => []

/-- The files that the writer of a running session has sealed. -/
def StreamSession.metas {β : Type} (session : StreamSession β) : List FileMeta :=
  match session.phase with
  | .running _ w => w.files.cuts
  | _ => []

/-- A file sealed by a session, and when: real time, whatever the clock of the session said. -/
structure Sealing where
  session : Nat
  file : StagedFile
  atMs : Nat
  deriving DecidableEq

/-- Where a sampler is in its round. -/
inductive Sampling
  | idle
  /-- The server has answered. -/
  | queried (watermark : Option Int)
  /-- The clock is read. -/
  | timed (watermark : Option Int) (nowMs : Nat)
  deriving DecidableEq

structure Monitor where
  knownFiles : List (Int × Nat)
  sampling : Sampling

/-- A sample, and what it was taken of. -/
structure LagSample where
  session : Nat
  watermark : Option Int
  nowMs : Nat
  lagFiles : Nat
  lagSeconds : Nat
  recovered : List StagedFile
  sealed : List StagedFile
  deriving DecidableEq

structure Lag (β : Type) where
  stream : Stream β
  realMs : Nat
  /-- What the server has consumed. -/
  watermark : Option Int
  sealings : List Sealing
  monitors : Nat → Monitor
  samples : List LagSample

inductive LagAction (β : Type)
  | stream (action : StreamAction β)
  | wait (ms : Nat)
  | consume (serialSeq : Int)
  | query (id : Nat)
  | readClock (id : Nat)
  | sample (id : Nat)

namespace Lag

variable {β : Type}

def start (json : Option StateFile) (realMs : Nat) (watermark : Option Int) : Lag β where
  stream := .start json
  realMs := realMs
  watermark := watermark
  sealings := []
  monitors _ := ⟨[], .idle⟩
  samples := []

def setMonitor (lag : Lag β) (id : Nat) (monitor : Monitor) : Lag β :=
  { lag with monitors := Function.update lag.monitors id monitor }

/-- What an open is handed: the clock of its session, a watermark that the server has or had, and
files that were sealed. -/
def admits (clock : Nat → Nat → Nat) (lag : Lag β) : StreamAction β → Bool
  | .openDecide id nowMs watermark staged =>
    decide (nowMs = clock id lag.realMs) &&
      (watermark.all fun w ↦ lag.watermark.any fun consumed ↦ decide (w ≤ consumed)) &&
      staged.all fun file ↦ lag.sealings.any fun sealing ↦ decide (sealing.file = file)
  | _ => true

/-- `plan.backfill.iter().filter_map(|f| f.serial_seq().ok().map(|s| (s, f.epoch_ms)))`. -/
def seeds (recovered : List StagedFile) : List (Int × Nat) :=
  recovered.filterMap fun file ↦
    file.serialSeq.toOption.map fun serialSeq ↦ (serialSeq, file.epochMs)

/-- The files that a session sealed in a step. -/
def sealedBy (before after : StreamSession β) : List FileMeta :=
  after.metas.drop before.metas.length

/-- What a step of the stream does to `known_files`. -/
def follow (clock : Nat → Nat → Nat) (lag : Lag β) (after : Stream β) : StreamAction β → Lag β
  | .openReturns id _ =>
    { lag.setMonitor id { lag.monitors id with
        knownFiles := seeds (after.sessions id).recovered } with
      stream := after }
  | .writer id _ =>
    let files := sealedBy (lag.stream.sessions id) (after.sessions id)
    { lag.setMonitor id { lag.monitors id with
        knownFiles := (lag.monitors id).knownFiles ++
          files.map fun m ↦ (m.serialSeq, clock id lag.realMs) } with
      stream := after
      sealings := lag.sealings ++ files.map fun m ↦ ⟨id, m.file, lag.realMs⟩ }
  | _ => { lag with stream := after }

/-- The sampler has found its writer not fenced, and the server has answered. -/
def query (lag : Lag β) (id : Nat) : Option (Lag β) :=
  match (lag.stream.sessions id).phase, (lag.monitors id).sampling with
  | .running _ w, .idle =>
    if (lag.stream.sessions id).alive && w.health.fenced.isNone then
      some (lag.setMonitor id { lag.monitors id with sampling := .queried lag.watermark })
    else none
  | _, _ => none

/-- `let now_ms = crate::lock::now_ms();`. -/
def readClock (clock : Nat → Nat → Nat) (lag : Lag β) (id : Nat) : Option (Lag β) :=
  match (lag.monitors id).sampling with
  | .queried watermark =>
    if (lag.stream.sessions id).alive then
      some (lag.setMonitor id { lag.monitors id with
        sampling := .timed watermark (clock id lag.realMs) })
    else none
  | _ => none

/-- `lag_of` under the state lock. -/
def sample (lag : Lag β) (id : Nat) : Option (Lag β) :=
  match (lag.monitors id).sampling with
  | .timed watermark nowMs =>
    if (lag.stream.sessions id).alive then
      let (known, lagFiles, lagSeconds) := lagOf (lag.monitors id).knownFiles watermark nowMs
      some { lag.setMonitor id ⟨known, .idle⟩ with
        samples := lag.samples ++ [{
          session := id
          watermark := watermark
          nowMs := nowMs
          lagFiles := lagFiles
          lagSeconds := lagSeconds
          recovered := (lag.stream.sessions id).recovered
          sealed := (lag.stream.sessions id).metas.map FileMeta.file }] }
    else none
  | _ => none

def step (cfg : Nat → WriterConfig β) (clock : Nat → Nat → Nat) (lag : Lag β) :
    LagAction β → Option (Lag β)
  | .stream action =>
    if lag.admits clock action then
      (lag.stream.step cfg action).map fun after ↦ lag.follow clock after action
    else none
  | .wait ms => some { lag with realMs := lag.realMs + ms }
  | .consume serialSeq =>
    if lag.watermark.all fun w ↦ decide (w ≤ serialSeq) then
      some { lag with watermark := some serialSeq }
    else none
  | .query id => lag.query id
  | .readClock id => lag.readClock clock id
  | .sample id => lag.sample id

/-! ### What a step can do -/

variable {cfg : Nat → WriterConfig β} {clock : Nat → Nat → Nat} {lag lag' : Lag β}

theorem query_eq_some {id : Nat} (hstep : lag.query id = some lag') :
    (lag.monitors id).sampling = .idle ∧
      lag' = lag.setMonitor id { lag.monitors id with sampling := .queried lag.watermark } := by
  unfold query at hstep
  split at hstep
  · next hidle =>
    split_ifs at hstep
    exact ⟨hidle, (Option.some.inj hstep).symm⟩
  · simp at hstep

theorem readClock_eq_some {id : Nat} (hstep : lag.readClock clock id = some lag') :
    ∃ watermark, (lag.monitors id).sampling = .queried watermark ∧
      lag' = lag.setMonitor id { lag.monitors id with
        sampling := .timed watermark (clock id lag.realMs) } := by
  unfold readClock at hstep
  split at hstep
  · next watermark hqueried =>
    split_ifs at hstep
    exact ⟨watermark, hqueried, (Option.some.inj hstep).symm⟩
  · simp at hstep

/-- The sample that `lag_of` makes of a bound and a time. -/
def sampleOf (lag : Lag β) (id : Nat) (watermark : Option Int) (nowMs : Nat) : LagSample where
  session := id
  watermark := watermark
  nowMs := nowMs
  lagFiles := (lagOf (lag.monitors id).knownFiles watermark nowMs).2.1
  lagSeconds := (lagOf (lag.monitors id).knownFiles watermark nowMs).2.2
  recovered := (lag.stream.sessions id).recovered
  sealed := (lag.stream.sessions id).metas.map FileMeta.file

theorem sample_eq_some {id : Nat} (hstep : lag.sample id = some lag') :
    ∃ watermark nowMs, (lag.monitors id).sampling = .timed watermark nowMs ∧
      lag' = { lag.setMonitor id
          ⟨remaining (watermarkBound watermark) (lag.monitors id).knownFiles, .idle⟩ with
        samples := lag.samples ++ [lag.sampleOf id watermark nowMs] } := by
  unfold sample at hstep
  split at hstep
  · next watermark nowMs htimed =>
    split_ifs at hstep
    refine ⟨watermark, nowMs, htimed, ?_⟩
    rw [lagOf_eq] at hstep
    rw [← Option.some.inj hstep, sampleOf, lagOf_eq]
  · simp at hstep

theorem streamStep_eq_some {action : StreamAction β}
    (hstep : step cfg clock lag (.stream action) = some lag') :
    lag.admits clock action ∧ ∃ after, lag.stream.step cfg action = some after ∧
      lag' = lag.follow clock after action := by
  rw [step, Option.ite_none_right_eq_some] at hstep
  obtain ⟨after, hafter, heq⟩ := Option.map_eq_some_iff.mp hstep.2
  exact ⟨hstep.1, after, hafter, heq.symm⟩

theorem consume_eq_some {serialSeq : Int}
    (hstep : step cfg clock lag (.consume serialSeq) = some lag') :
    watermarkBound lag.watermark ≤ serialSeq ∧ lag' = { lag with watermark := some serialSeq } := by
  rw [step, Option.ite_none_right_eq_some] at hstep
  exact ⟨(watermarkBound_le_iff _ _).mpr hstep.1, (Option.some.inj hstep.2).symm⟩

@[simp] theorem follow_stream (after : Stream β) (action : StreamAction β) :
    (lag.follow clock after action).stream = after := by
  cases action <;> rfl

/-- A run of the samplers is one of the sessions of the stream. -/
theorem stream_reachable {json : Option StateFile} {realMs : Nat} {watermark : Option Int}
    (hreach : Reachable (step cfg clock) (start json realMs watermark) lag) :
    Reachable (Stream.step cfg) (Stream.start json) lag.stream := by
  refine hreach.strengthened
    (fun lag ↦ Reachable (Stream.step cfg) (Stream.start json) lag.stream) ?_ ?_
  · exact .refl
  intro before action after _ hbefore _ hstep
  cases action with
  | stream action =>
    obtain ⟨-, next, hnext, rfl⟩ := streamStep_eq_some hstep
    rw [follow_stream]
    exact hbefore.snoc hnext
  | wait ms => exact Option.some.inj hstep ▸ hbefore
  | consume serialSeq => exact (consume_eq_some hstep).2 ▸ hbefore
  | query id => exact (query_eq_some hstep).2 ▸ hbefore
  | readClock id =>
    obtain ⟨watermark, -, rfl⟩ := readClock_eq_some hstep
    exact hbefore
  | sample id =>
    obtain ⟨watermark, nowMs, -, rfl⟩ := sample_eq_some hstep
    exact hbefore

end Lag

end RelytIngest
