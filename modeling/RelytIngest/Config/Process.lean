import RelytIngest.Config.StagingUrl
import RelytIngest.Foundations.LabelledRun
import RelytIngest.Notify.Loop
import RelytIngest.Notify.MaskOptions

/-!
# A process over its staging location

Under Relyt-managed staging the master hands out the location and a pair of credentials, and its
operator may provision others at any time. `Process` is one process over the location in use: tasks
that upload objects (`put_once`), refreshes started on a timer or by a denied upload, each of which
asks the master, reads the snapshot in use and installs what it was handed, and the submissions that
carry the credentials. `step` interleaves them freely, and `apply` reads and writes the snapshot in
two steps, as the source does under a lock that it gives up in between.

A step is one of a few moves (`step_moves`): most of them take a task further or end what it did and
leave the location alone (`Returns`).
-/

set_option autoImplicit false
set_option relaxedAutoImplicit false

namespace RelytIngest

open Foundations

/-! ### The answers of the control connection -/

/-- A query that failed, with its SQLSTATE where the server answered. -/
structure SqlFailure where
  code : Option String
  message : String
  deriving DecidableEq, Repr

def SqlFailure.isUndefinedFunction (e : SqlFailure) : Bool := e.code == some "42883"

def SqlFailure.isInsufficientPrivilege (e : SqlFailure) : Bool := e.code == some "42501"

/-- A row of `relyt_get_ingest_staging_config()`. -/
structure ManagedRow where
  url : Text
  accessKeyId : Text
  secretAccessKey : Text
  deriving DecidableEq, Repr

def fetchManagedStaging (answer : Except SqlFailure ManagedRow) : Except Error StagingConfig :=
  match answer with
  | .error e =>
    if e.isUndefinedFunction then
      .error (.config ("this server has no relyt_get_ingest_staging_config(): it predates " ++
        "Relyt-managed ingest staging. Upgrade the instance, or set Staging::Customer(..) with " ++
        "your own bucket."))
    else if e.isInsufficientPrivilege then
      .error (.config ("the ingest account may not execute relyt_get_ingest_staging_config(); " ++
        "ask the Relyt administrator to grant it, or use your own bucket."))
    else .error (.database e.message)
  | .ok row => do
    let staging ← parseStagingUrl row.url row.accessKeyId row.secretAccessKey
    validateStaging staging
    return staging

/-- Whose bucket the files are staged in. -/
inductive Staging
  | relyt
  | customer (cfg : StagingConfig)
  deriving DecidableEq, Repr

/-- What `ClientConfig::validate` checks of it before the server has answered. -/
def Staging.validate : Staging → Except Error Unit
  | .customer cfg => validateStaging cfg
  | .relyt => .ok ()

def resolveStaging (staging : Staging) (answer : Except SqlFailure ManagedRow) :
    Except Error StagingConfig :=
  match staging with
  | .customer cfg => .ok cfg
  | .relyt => fetchManagedStaging answer

/-! ### What a submission carries -/

def ADD_BY_INGEST_RS_SDK : Nat := 4

def STATUS_READY : Nat := 2

def SOURCE_TYPE_S3 : Nat := 1

def TARGET_TYPE_HEAP : Nat := 3

/-- The arguments of `zdb_add_async_load_job`. -/
structure AddJob where
  identifier : Text
  addBy : Nat
  status : Nat
  version : Nat
  sourceType : Nat
  source : Text
  targetType : Nat
  target : Nat
  priority : Nat
  options : Text
  msg : Option Text
  sourceDetail : Option Text
  serialGroup : Text
  serialSeq : Int
  retryMax : Option Int
  deriving DecidableEq, Repr

/-- The arguments `submit` sends for a request: the credentials are the ones in use by then. -/
def submitArgs (cfg : StagingConfig) (req : NotifyRequest) : AddJob where
  identifier := req.identifier
  addBy := ADD_BY_INGEST_RS_SDK
  status := STATUS_READY
  version := 1
  sourceType := SOURCE_TYPE_S3
  source := req.sourceUrl
  targetType := TARGET_TYPE_HEAP
  target := req.target
  priority := 1
  options := buildCopyOptions cfg.accessKeyId cfg.secretAccessKey req.delimiter req.upsert
  msg := none
  sourceDetail := none
  serialGroup := req.serialGroup
  serialSeq := req.serialSeq
  retryMax := req.retryMax

/-! ### The process -/

/-- Where a task is. A refresh knows the put that was denied and its error, if one started it. -/
inductive Task (σ : Type)
  | idle
  /-- `put_once` is about to take the store in use, for the first time or again. -/
  | putting (key : Text) (again : Bool)
  | uploading (key : Text) (again : Bool) (store : σ)
  | asking (denied : Option (Text × Error))
  | fetched (denied : Option (Text × Error)) (fresh : StagingConfig)
  /-- `apply` has read the snapshot in use and has not written it. -/
  | comparing (denied : Option (Text × Error)) (fresh : StagingConfig) (cur : StagingLive σ)

/-- A process over its staging location. -/
structure Process (σ : Type) where
  /-- What the master hands out. -/
  master : ManagedRow
  /-- All that it has handed out so far. -/
  provisioned : List ManagedRow
  live : StagingLive σ
  managed : Bool
  task : Nat → Task σ
  /-- The uploads begun: the key of the object and the store it is put in. -/
  uploads : List (Text × σ)
  /-- What `put_once` returned. -/
  puts : List (Text × Except Error Unit)
  /-- What `refresh_managed_staging` returned. -/
  refreshes : List (Except Error Bool)
  jobs : List AddJob

inductive ProcessAction
  | provision (row : ManagedRow)
  | put (id : Nat) (key : Text)
  | takeStore (id : Nat)
  | uploadEnds (id : Nat) (result : Except Error Unit)
  | refresh (id : Nat)
  | connectFails (id : Nat) (e : Error)
  | answered (id : Nat) (failure : Option SqlFailure)
  | current (id : Nat)
  | apply (id : Nat)
  | submit (req : NotifyRequest)

/-- The master's operator provisions something. -/
def ProcessAction.provisions : ProcessAction → Bool
  | .provision _ => true
  | _ => false

def Error.isDenied : Error → Bool
  | .storage .permissionDenied _ => true
  | _ => false

namespace Process

variable {σ : Type}

def setTask (p : Process σ) (id : Nat) (task : Task σ) : Process σ :=
  { p with task := Function.update p.task id task }

def returnPut (p : Process σ) (id : Nat) (key : Text) (result : Except Error Unit) : Process σ :=
  { p with task := Function.update p.task id .idle, puts := p.puts ++ [(key, result)] }

/-- A refresh ends: the denied upload is tried again only where other credentials were installed. -/
def returnRefresh (p : Process σ) (id : Nat) (denied : Option (Text × Error))
    (result : Except Error Bool) : Process σ :=
  let p := { p with refreshes := p.refreshes ++ [result] }
  match denied, result with
  | none, _ => p.setTask id .idle
  | some (key, _), .ok true => p.setTask id (.putting key true)
  | some (key, e), .ok false => p.returnPut id key (.error e)
  | some (key, _), .error e => p.returnPut id key (.error e)

/-- The refresh of a bucket whose credentials the master does not manage has nothing to ask. -/
def beginRefresh (p : Process σ) (id : Nat) (denied : Option (Text × Error)) : Process σ :=
  if p.managed then p.setTask id (.asking denied) else p.returnRefresh id denied (.ok false)

/-- An upload of `put_once` ends. -/
def endUpload (p : Process σ) (id : Nat) (key : Text) (again : Bool) (result : Except Error Unit) :
    Process σ :=
  match result with
  | .ok () => p.returnPut id key (.ok ())
  | .error e =>
    if !again && e.isDenied then p.beginRefresh id (some (key, e))
    else p.returnPut id key (.error e)

variable (operator : StagingConfig → Option Text → Except Error σ)

/-- `apply` writes the snapshot that its comparison asks for. -/
def install (p : Process σ) (id : Nat) (denied : Option (Text × Error)) (fresh : StagingConfig)
    (cur : StagingLive σ) : Process σ :=
  match cur.apply operator fresh with
  | .error e => p.returnRefresh id denied (.error e)
  | .ok (true, live) => { p with live }.returnRefresh id denied (.ok true)
  | .ok (false, _) => p.returnRefresh id denied (.ok false)

def step (p : Process σ) : ProcessAction → Option (Process σ)
  | .provision row => some { p with master := row, provisioned := p.provisioned ++ [row] }
  | .put id key =>
    match p.task id with
    | .idle => some (p.setTask id (.putting key false))
    | _ => none
  | .takeStore id =>
    match p.task id with
    | .putting key again =>
      some ({ p with uploads := p.uploads ++ [(key, p.live.store)] }.setTask id
        (.uploading key again p.live.store))
    | _ => none
  | .uploadEnds id result =>
    match p.task id with
    | .uploading key again _ => some (p.endUpload id key again result)
    | _ => none
  | .refresh id =>
    match p.task id with
    | .idle => some (p.beginRefresh id none)
    | _ => none
  | .connectFails id e =>
    match p.task id with
    | .asking denied => some (p.returnRefresh id denied (.error e))
    | _ => none
  | .answered id failure =>
    match p.task id with
    | .asking denied =>
      match fetchManagedStaging (match failure with
        | some e => .error e
        | none => .ok p.master) with
      | .ok fresh => some (p.setTask id (.fetched denied fresh))
      | .error e => some (p.returnRefresh id denied (.error e))
    | _ => none
  | .current id =>
    match p.task id with
    | .fetched denied fresh => some (p.setTask id (.comparing denied fresh p.live))
    | _ => none
  | .apply id =>
    match p.task id with
    | .comparing denied fresh cur => some (p.install operator id denied fresh cur)
    | _ => none
  | .submit req => some { p with jobs := p.jobs ++ [submitArgs p.live.cfg req] }

/-- `Client::connect`, as far as staging goes. -/
def connect (staging : Staging) (master : ManagedRow) (failure : Option SqlFailure) :
    Except Error (Process σ) := do
  staging.validate
  let cfg ← resolveStaging staging (match failure with
    | some e => .error e
    | none => .ok master)
  let live ← StagingLive.build operator cfg
  return ⟨master, [master], live, decide (staging = .relyt), fun _ ↦ .idle, [], [], [], []⟩

end Process

/-! ### What a configuration in use is -/

/-- The parts of a configuration that published paths and identifiers are made of. -/
structure StagingConfig.SameLocation (cfg other : StagingConfig) : Prop where
  endpoint : other.endpoint = cfg.endpoint
  bucket : other.bucket = cfg.bucket
  pathPrefix : other.pathPrefix = cfg.pathPrefix
  service : other.service = cfg.service

namespace StagingConfig.SameLocation

variable {cfg other third : StagingConfig}

theorem refl (cfg : StagingConfig) : cfg.SameLocation cfg := ⟨rfl, rfl, rfl, rfl⟩

theorem trans (h : cfg.SameLocation other) (h' : other.SameLocation third) :
    cfg.SameLocation third :=
  ⟨h'.endpoint.trans h.endpoint, h'.bucket.trans h.bucket, h'.pathPrefix.trans h.pathPrefix,
    h'.service.trans h.service⟩

theorem stagingUrlBase (h : cfg.SameLocation other) :
    RelytIngest.stagingUrlBase other = RelytIngest.stagingUrlBase cfg := by
  simp only [RelytIngest.stagingUrlBase, h.endpoint, h.bucket, h.pathPrefix]

end StagingConfig.SameLocation

/-- The configuration is the one of a row that the master has handed out. -/
def HandedOut (rows : List ManagedRow) (cfg : StagingConfig) : Prop :=
  ∃ row ∈ rows, fetchManagedStaging (.ok row) = .ok cfg

/-- A configuration that a process may work with: the location it began with, and credentials that
passed the check and were handed out together. -/
structure Usable (origin : StagingConfig) (rows : List ManagedRow) (cfg : StagingConfig) :
    Prop where
  location : origin.SameLocation cfg
  checked : validateStaging cfg = .ok ()
  handedOut : cfg = origin ∨ HandedOut rows cfg

theorem HandedOut.mono {rows more : List ManagedRow} {cfg : StagingConfig}
    (hrows : rows ⊆ more) (h : HandedOut rows cfg) : HandedOut more cfg := by
  obtain ⟨row, hrow, hfetch⟩ := h
  exact ⟨row, hrows hrow, hfetch⟩

theorem Usable.mono {origin cfg : StagingConfig} {rows more : List ManagedRow}
    (hrows : rows ⊆ more) (h : Usable origin rows cfg) : Usable origin more cfg :=
  ⟨h.location, h.checked, h.handedOut.imp_right fun hout ↦ hout.mono hrows⟩

theorem fetchManagedStaging_checked {answer : Except SqlFailure ManagedRow} {cfg : StagingConfig}
    (h : fetchManagedStaging answer = .ok cfg) : validateStaging cfg = .ok () := by
  cases answer with
  | error e =>
    simp only [fetchManagedStaging] at h
    split_ifs at h
  | ok row =>
    simp only [fetchManagedStaging, except_bind_eq_ok_iff] at h
    obtain ⟨staging, -, _, hchecked, hresult⟩ := h
    obtain rfl := Except.ok.inj hresult
    exact hchecked

section Snapshots

variable {σ : Type} {operator : StagingConfig → Option Text → Except Error σ}
  {cfg fresh : StagingConfig} {cur live : StagingLive σ} {changed : Bool}

theorem StagingLive.build_eq_ok_iff :
    StagingLive.build operator cfg = .ok live ↔
      live.cfg = cfg ∧ cfg.newStore operator = .ok live.store ∧
        live.urlBase = stagingUrlBase cfg := by
  obtain ⟨liveCfg, store, urlBase⟩ := live
  simp only [StagingLive.build, except_bind_eq_ok_iff]
  constructor
  · rintro ⟨built, hstore, hresult⟩
    obtain ⟨rfl, rfl, rfl⟩ := StagingLive.mk.inj (Except.ok.inj hresult)
    exact ⟨rfl, hstore, rfl⟩
  · rintro ⟨rfl, hstore, rfl⟩
    exact ⟨store, hstore, rfl⟩

/-- `apply` keeps the location, and keeps the snapshot where it has all that it is handed. -/
theorem StagingLive.apply_ok (h : cur.apply operator fresh = .ok (changed, live)) :
    cur.cfg.SameLocation fresh ∧
      (changed = false ∧ cur.cfg = fresh ∨
        changed = true ∧ StagingLive.build operator fresh = .ok live) := by
  unfold StagingLive.apply at h
  split_ifs at h with hmoved hsame
  · push Not at hmoved
    obtain ⟨hendpoint, hbucket, hprefix, hservice⟩ := hmoved
    obtain ⟨haccess, hsecret, hregion⟩ := hsame
    obtain ⟨rfl, -⟩ := Prod.mk.inj (Except.ok.inj h)
    refine ⟨⟨hendpoint, hbucket, hprefix, hservice⟩, Or.inl ⟨rfl, ?_⟩⟩
    cases fresh
    cases hcfg : cur.cfg
    simp only [hcfg] at *
    simp [*]
  · push Not at hmoved
    obtain ⟨hendpoint, hbucket, hprefix, hservice⟩ := hmoved
    obtain ⟨built, hbuild, hresult⟩ := except_bind_eq_ok_iff.mp h
    obtain ⟨rfl, rfl⟩ := Prod.mk.inj (Except.ok.inj hresult)
    exact ⟨⟨hendpoint, hbucket, hprefix, hservice⟩, Or.inr ⟨rfl, hbuild⟩⟩

end Snapshots

/-! ### Steps that leave the location alone -/

section Tasks

variable {σ : Type}

/-- A task that holds neither a store nor an answer of the master. There is a master to ask only
where it manages the credentials. -/
def Task.Bare (managed : Bool) : Task σ → Prop
  | .idle | .putting _ _ => True
  | .asking _ => managed = true
  | _ => False

/-- A task that holds an answer of the master. -/
def Task.Holds : Task σ → Prop
  | .fetched _ _ | .comparing _ _ _ => True
  | _ => False

def Task.Refreshing : Task σ → Prop
  | .asking _ | .fetched _ _ | .comparing _ _ _ => True
  | _ => False

end Tasks

namespace Process

variable {σ : Type} {operator : StagingConfig → Option Text → Except Error σ}
  {p p' : Process σ} {action : ProcessAction}

/-- A task moves on or returns, and apart from what it returned nothing changes. -/
structure Returns (p p' : Process σ) : Prop where
  master : p'.master = p.master
  provisioned : p'.provisioned = p.provisioned
  live : p'.live = p.live
  managed : p'.managed = p.managed
  uploads : p'.uploads = p.uploads
  jobs : p'.jobs = p.jobs
  task : ∀ id, p'.task id = p.task id ∨ (p'.task id).Bare p.managed

theorem forall_task_setTask (p : Process σ) (id : Nat) {task : Task σ}
    (hbare : task.Bare p.managed) (other : Nat) :
    Function.update p.task id task other = p.task other ∨
      (Function.update p.task id task other).Bare p.managed := by
  by_cases hother : other = id
  · rw [hother, Function.update_self]
    exact Or.inr hbare
  · exact Or.inl (Function.update_of_ne hother _ _)

theorem returns_setTask (p : Process σ) (id : Nat) {task : Task σ} (hbare : task.Bare p.managed) :
    Returns p (p.setTask id task) :=
  ⟨rfl, rfl, rfl, rfl, rfl, rfl, forall_task_setTask p id hbare⟩

theorem returns_returnPut (p : Process σ) (id : Nat) (key : Text) (result : Except Error Unit) :
    Returns p (p.returnPut id key result) :=
  ⟨rfl, rfl, rfl, rfl, rfl, rfl, forall_task_setTask p id trivial⟩

theorem returns_returnRefresh (p : Process σ) (id : Nat) (denied : Option (Text × Error))
    (result : Except Error Bool) : Returns p (p.returnRefresh id denied result) := by
  rcases denied with _ | ⟨key, e⟩ <;> rcases result with e' | _ | _ <;>
    exact ⟨rfl, rfl, rfl, rfl, rfl, rfl, forall_task_setTask p id trivial⟩

theorem returns_beginRefresh (p : Process σ) (id : Nat) (denied : Option (Text × Error)) :
    Returns p (p.beginRefresh id denied) := by
  unfold beginRefresh
  split
  · next hmanaged => exact returns_setTask p id hmanaged
  · exact returns_returnRefresh p id denied _

theorem returns_endUpload (p : Process σ) (id : Nat) (key : Text) (again : Bool)
    (result : Except Error Unit) : Returns p (p.endUpload id key again result) := by
  unfold endUpload
  split
  · exact returns_returnPut p id key _
  · split
    · exact returns_beginRefresh p id _
    · exact returns_returnPut p id key _

/-! ### What is returned -/

@[simp] theorem returnRefresh_refreshes (p : Process σ) (id : Nat)
    (denied : Option (Text × Error)) (result : Except Error Bool) :
    (p.returnRefresh id denied result).refreshes = p.refreshes ++ [result] := by
  rcases denied with _ | ⟨key, e⟩ <;> rcases result with e' | _ | _ <;> rfl

theorem refreshes_beginRefresh (hmanaged : p.managed = true) (id : Nat)
    (denied : Option (Text × Error)) : (p.beginRefresh id denied).refreshes = p.refreshes := by
  rw [beginRefresh, if_pos hmanaged]
  rfl

theorem refreshes_endUpload (hmanaged : p.managed = true) (id : Nat) (key : Text) (again : Bool)
    (result : Except Error Unit) : (p.endUpload id key again result).refreshes = p.refreshes := by
  unfold endUpload
  split
  · rfl
  · split
    · exact refreshes_beginRefresh hmanaged id _
    · rfl

/-- A refresh for a denied upload never makes it a successful one. -/
theorem puts_returnRefresh {id : Nat} {denied : Option (Text × Error)}
    {result : Except Error Bool} {key : Text}
    (h : (key, .ok ()) ∈ (p.returnRefresh id denied result).puts) : (key, .ok ()) ∈ p.puts := by
  rcases denied with _ | ⟨key', e⟩ <;> rcases result with e' | _ | _ <;>
    simpa [returnRefresh, setTask, returnPut] using h

theorem puts_beginRefresh {id : Nat} {denied : Option (Text × Error)} {key : Text}
    (h : (key, .ok ()) ∈ (p.beginRefresh id denied).puts) : (key, .ok ()) ∈ p.puts := by
  unfold beginRefresh at h
  split at h
  · exact h
  · exact puts_returnRefresh h

theorem puts_endUpload {id : Nat} {key key' : Text} {again : Bool} {result : Except Error Unit}
    (h : (key, .ok ()) ∈ (p.endUpload id key' again result).puts) :
    (key, .ok ()) ∈ p.puts ∨ key = key' := by
  unfold endUpload at h
  split at h
  · simpa [returnPut] using h
  · split at h
    · exact Or.inl (puts_beginRefresh h)
    · exact Or.inl (by simpa [returnPut] using h)

/-- What a step does. -/
inductive Moves (operator : StagingConfig → Option Text → Except Error σ) (p : Process σ) :
    ProcessAction → Process σ → Prop
  | provisions (row : ManagedRow) : Moves operator p (.provision row)
      { p with master := row, provisioned := p.provisioned ++ [row] }
  | submits (req : NotifyRequest) : Moves operator p (.submit req)
      { p with jobs := p.jobs ++ [submitArgs p.live.cfg req] }
  | takes {id : Nat} {key : Text} {again : Bool} (htask : p.task id = .putting key again) :
      Moves operator p (.takeStore id)
        ({ p with uploads := p.uploads ++ [(key, p.live.store)] }.setTask id
          (.uploading key again p.live.store))
  | returns {action : ProcessAction} {p' : Process σ} (hreturns : Returns p p')
      (hputs : ∀ key, (key, .ok ()) ∈ p'.puts → (key, .ok ()) ∈ p.puts ∨
        ∃ id again store, p.task id = .uploading key again store)
      (hrefreshes : p.managed = true →
        p'.refreshes = p.refreshes ∨ ∃ e, p'.refreshes = p.refreshes ++ [.error e]) :
      Moves operator p action p'
  | receives {id : Nat} {denied : Option (Text × Error)} {fresh : StagingConfig}
      (htask : p.task id = .asking denied)
      (hfetch : fetchManagedStaging (.ok p.master) = .ok fresh) :
      Moves operator p (.answered id none) (p.setTask id (.fetched denied fresh))
  | reads {id : Nat} {denied : Option (Text × Error)} {fresh : StagingConfig}
      (htask : p.task id = .fetched denied fresh) :
      Moves operator p (.current id) (p.setTask id (.comparing denied fresh p.live))
  | installs {id : Nat} {denied : Option (Text × Error)} {fresh : StagingConfig}
      {cur : StagingLive σ} (htask : p.task id = .comparing denied fresh cur) :
      Moves operator p (.apply id) (p.install operator id denied fresh cur)

theorem step_moves (hstep : p.step operator action = some p') : Moves operator p action p' := by
  cases action with
  | provision row =>
    obtain rfl := Option.some.inj hstep
    exact .provisions row
  | submit req =>
    obtain rfl := Option.some.inj hstep
    exact .submits req
  | put id key =>
    simp only [step] at hstep
    split at hstep
    · obtain rfl := Option.some.inj hstep
      exact .returns (returns_setTask p id trivial) (fun _ hkey ↦ Or.inl hkey) fun _ ↦ Or.inl rfl
    · simp at hstep
  | takeStore id =>
    simp only [step] at hstep
    split at hstep
    · next htask =>
      obtain rfl := Option.some.inj hstep
      exact .takes htask
    · simp at hstep
  | uploadEnds id result =>
    simp only [step] at hstep
    split at hstep
    · next key again store htask =>
      obtain rfl := Option.some.inj hstep
      refine .returns (returns_endUpload p id key again result) (fun key' hkey ↦ ?_) fun hmanaged ↦
        Or.inl (refreshes_endUpload hmanaged id key again result)
      rcases puts_endUpload hkey with hold | rfl
      · exact Or.inl hold
      · exact Or.inr ⟨id, again, store, htask⟩
    · simp at hstep
  | refresh id =>
    simp only [step] at hstep
    split at hstep
    · obtain rfl := Option.some.inj hstep
      exact .returns (returns_beginRefresh p id none)
        (fun _ hkey ↦ Or.inl (puts_beginRefresh hkey)) fun hmanaged ↦
          Or.inl (refreshes_beginRefresh hmanaged id none)
    · simp at hstep
  | connectFails id e =>
    simp only [step] at hstep
    split at hstep
    · obtain rfl := Option.some.inj hstep
      exact .returns (returns_returnRefresh p id _ _)
        (fun _ hkey ↦ Or.inl (puts_returnRefresh hkey)) fun _ ↦
          Or.inr ⟨e, returnRefresh_refreshes p id _ _⟩
    · simp at hstep
  | answered id failure =>
    simp only [step] at hstep
    split at hstep
    · next denied htask =>
      split at hstep
      · next fresh hfetch =>
        obtain rfl := Option.some.inj hstep
        cases failure with
        | none => exact .receives htask hfetch
        | some e =>
          simp only [fetchManagedStaging] at hfetch
          split_ifs at hfetch
      · next e _ =>
        obtain rfl := Option.some.inj hstep
        exact .returns (returns_returnRefresh p id _ _)
          (fun _ hkey ↦ Or.inl (puts_returnRefresh hkey)) fun _ ↦
            Or.inr ⟨e, returnRefresh_refreshes p id _ _⟩
    · simp at hstep
  | current id =>
    simp only [step] at hstep
    split at hstep
    · next htask =>
      obtain rfl := Option.some.inj hstep
      exact .reads htask
    · simp at hstep
  | apply id =>
    simp only [step] at hstep
    split at hstep
    · next htask =>
      obtain rfl := Option.some.inj hstep
      exact .installs htask
    · simp at hstep

end Process

end RelytIngest
