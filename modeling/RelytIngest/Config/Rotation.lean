import RelytIngest.Config.Process

/-!
# Credentials that are rotated

`Process.one_location` is what every interleaving keeps: objects are put and requests are submitted
under the location that the process began with, with credentials that were handed out together.
`Process.rotation_settles` is how a rotation ends: an answer that was fetched before it can still be
installed over a newer one, but once none of these is left, the first refresh that succeeds installs
what the master holds, and this stays.
-/

set_option autoImplicit false
set_option relaxedAutoImplicit false

namespace RelytIngest

open Foundations

namespace Process

variable {σ : Type} {operator : StagingConfig → Option Text → Except Error σ}
  {p p' : Process σ} {action : ProcessAction}

/-! ### One location -/

/-- A snapshot that is made of a configuration the process may work with. -/
structure Installed (operator : StagingConfig → Option Text → Except Error σ)
    (origin : StagingConfig) (rows : List ManagedRow) (live : StagingLive σ) : Prop where
  usable : Usable origin rows live.cfg
  built : StagingLive.build operator live.cfg = .ok live

theorem Installed.mono {origin : StagingConfig} {rows more : List ManagedRow}
    {live : StagingLive σ} (hrows : rows ⊆ more) (h : Installed operator origin rows live) :
    Installed operator origin more live :=
  ⟨h.usable.mono hrows, h.built⟩

/-- What a task holds was taken from the snapshot in use or handed out by the master. -/
def TaskSound (operator : StagingConfig → Option Text → Except Error σ) (origin : StagingConfig)
    (rows : List ManagedRow) (uploads : List (Text × σ)) : Task σ → Prop
  | .uploading key _ store => (key, store) ∈ uploads
  | .fetched _ fresh => HandedOut rows fresh
  | .comparing _ fresh cur => HandedOut rows fresh ∧ Installed operator origin rows cur
  | _ => True

theorem TaskSound.of_bare {origin : StagingConfig} {rows : List ManagedRow}
    {uploads : List (Text × σ)} {managed : Bool} {task : Task σ} (h : task.Bare managed) :
    TaskSound operator origin rows uploads task := by
  cases task <;> trivial

theorem TaskSound.mono {origin : StagingConfig} {rows more : List ManagedRow}
    {uploads begun : List (Text × σ)} (hrows : rows ⊆ more) (huploads : uploads ⊆ begun)
    {task : Task σ} (h : TaskSound operator origin rows uploads task) :
    TaskSound operator origin more begun task := by
  cases task with
  | uploading key again store => exact huploads h
  | fetched denied fresh => exact HandedOut.mono hrows h
  | comparing denied fresh cur => exact ⟨h.1.mono hrows, h.2.mono hrows⟩
  | idle | putting | asking => trivial

/-- All that a process works with is of the location it began with. -/
structure Sound (operator : StagingConfig → Option Text → Except Error σ)
    (origin : StagingConfig) (p : Process σ) : Prop where
  master : p.master ∈ p.provisioned
  live : Installed operator origin p.provisioned p.live
  tasks : ∀ id, TaskSound operator origin p.provisioned p.uploads (p.task id)
  uploads : ∀ key store, (key, store) ∈ p.uploads →
    ∃ cfg, Usable origin p.provisioned cfg ∧ cfg.newStore operator = .ok store
  puts : ∀ key, (key, .ok ()) ∈ p.puts → ∃ store, (key, store) ∈ p.uploads
  jobs : ∀ job ∈ p.jobs, ∃ cfg req, Usable origin p.provisioned cfg ∧ job = submitArgs cfg req

namespace Sound

variable {origin : StagingConfig}

/-- What is returned keeps a process sound. -/
theorem returns (h : Sound operator origin p) (hreturns : Returns p p')
    (hputs : ∀ key, (key, .ok ()) ∈ p'.puts → ∃ store, (key, store) ∈ p.uploads) :
    Sound operator origin p' where
  master := by
    rw [hreturns.master, hreturns.provisioned]
    exact h.master
  live := by
    rw [hreturns.live, hreturns.provisioned]
    exact h.live
  tasks id := by
    rw [hreturns.provisioned, hreturns.uploads]
    rcases hreturns.task id with hsame | hbare
    · exact hsame ▸ h.tasks id
    · exact .of_bare hbare
  uploads := by
    rw [hreturns.uploads, hreturns.provisioned]
    exact h.uploads
  puts := by
    rw [hreturns.uploads]
    exact hputs
  jobs := by
    rw [hreturns.jobs, hreturns.provisioned]
    exact h.jobs

/-- A task that is given something sound keeps a process sound. -/
theorem setTask (h : Sound operator origin p) (id : Nat) {task : Task σ}
    (htask : TaskSound operator origin p.provisioned p.uploads task) :
    Sound operator origin (p.setTask id task) where
  master := h.master
  live := h.live
  tasks other := by
    change TaskSound operator origin p.provisioned p.uploads (Function.update p.task id task other)
    by_cases hother : other = id
    · rw [hother, Function.update_self]
      exact htask
    · rw [Function.update_of_ne hother]
      exact h.tasks other
  uploads := h.uploads
  puts := h.puts
  jobs := h.jobs

theorem returnRefresh (h : Sound operator origin p) (id : Nat) (denied : Option (Text × Error))
    (result : Except Error Bool) : Sound operator origin (p.returnRefresh id denied result) :=
  h.returns (returns_returnRefresh p id denied result) fun key hkey ↦
    h.puts key (puts_returnRefresh hkey)

theorem install (h : Sound operator origin p) (id : Nat) (denied : Option (Text × Error))
    {fresh : StagingConfig} {cur : StagingLive σ} (hfresh : HandedOut p.provisioned fresh)
    (hcur : Installed operator origin p.provisioned cur) :
    Sound operator origin (p.install operator id denied fresh cur) := by
  unfold Process.install
  split
  · exact h.returnRefresh id denied _
  · next live hlive =>
    obtain ⟨hlocation, hsame | ⟨-, hbuild⟩⟩ := StagingLive.apply_ok hlive
    · simp at hsame
    obtain ⟨row, hrow, hfetch⟩ := hfresh
    have hcfg : live.cfg = fresh := (StagingLive.build_eq_ok_iff.mp hbuild).1
    have hinstalled : Installed operator origin p.provisioned live :=
      ⟨hcfg ▸ ⟨hcur.usable.location.trans hlocation, fetchManagedStaging_checked hfetch,
        Or.inr ⟨row, hrow, hfetch⟩⟩, hcfg ▸ hbuild⟩
    have hwritten : Sound operator origin { p with live } :=
      ⟨h.master, hinstalled, h.tasks, h.uploads, h.puts, h.jobs⟩
    exact hwritten.returnRefresh id denied _
  · exact h.returnRefresh id denied _

theorem step (h : Sound operator origin p) (hstep : p.step operator action = some p') :
    Sound operator origin p' := by
  have hheld {id : Nat} {task : Task σ} (htask : p.task id = task) :
      TaskSound operator origin p.provisioned p.uploads task := htask ▸ h.tasks id
  cases step_moves hstep with
  | provisions row =>
    have hrows : p.provisioned ⊆ p.provisioned ++ [row] := List.subset_append_left _ _
    exact ⟨by simp, h.live.mono hrows, fun id ↦ (h.tasks id).mono hrows (List.Subset.refl _),
      fun key store hmem ↦ (h.uploads key store hmem).imp fun _ hcfg ↦ ⟨hcfg.1.mono hrows, hcfg.2⟩,
      h.puts, fun job hjob ↦ (h.jobs job hjob).imp fun _ ⟨req, hcfg, heq⟩ ↦
        ⟨req, hcfg.mono hrows, heq⟩⟩
  | submits req =>
    refine ⟨h.master, h.live, h.tasks, h.uploads, h.puts, fun job hjob ↦ ?_⟩
    rcases List.mem_append.mp hjob with hold | hnew
    · exact h.jobs job hold
    · exact ⟨p.live.cfg, req, h.live.usable, List.mem_singleton.mp hnew⟩
  | @takes id key again htask =>
    have hbegun : p.uploads ⊆ p.uploads ++ [(key, p.live.store)] := List.subset_append_left _ _
    have hadded : Sound operator origin
        { p with uploads := p.uploads ++ [(key, p.live.store)] } := by
      refine ⟨h.master, h.live, fun id ↦ (h.tasks id).mono (List.Subset.refl _) hbegun, ?_,
        fun key hkey ↦ (h.puts key hkey).imp fun _ hmem ↦ hbegun hmem, h.jobs⟩
      intro key' store hmem
      rcases List.mem_append.mp hmem with hold | hnew
      · exact h.uploads key' store hold
      · obtain ⟨rfl, rfl⟩ := Prod.mk.inj (List.mem_singleton.mp hnew)
        exact ⟨p.live.cfg, h.live.usable, (StagingLive.build_eq_ok_iff.mp h.live.built).2.1⟩
    exact hadded.setTask id (List.mem_append_right _ (List.mem_singleton_self _))
  | returns hreturns hputs _ =>
    refine h.returns hreturns fun key hkey ↦ ?_
    rcases hputs key hkey with hold | ⟨id, again, store, htask⟩
    · exact h.puts key hold
    · exact ⟨store, hheld htask⟩
  | receives htask hfetch => exact h.setTask _ ⟨p.master, h.master, hfetch⟩
  | reads htask => exact h.setTask _ ⟨hheld htask, h.live⟩
  | installs htask => exact h.install _ _ (hheld htask).1 (hheld htask).2

end Sound

/-- What `connect` begins with. -/
theorem connect_sound {staging : Staging} {master : ManagedRow} {failure : Option SqlFailure}
    {start : Process σ} (hconnect : connect operator staging master failure = .ok start) :
    Sound operator start.live.cfg start ∧ start.managed = decide (staging = .relyt) ∧
      ∀ id, start.task id = .idle := by
  simp only [connect, except_bind_eq_ok_iff] at hconnect
  obtain ⟨_, hgiven, cfg, hresolve, live, hbuild, hresult⟩ := hconnect
  obtain rfl := Except.ok.inj hresult
  have hchecked : validateStaging cfg = .ok () := by
    cases staging with
    | relyt => exact fetchManagedStaging_checked hresolve
    | customer given =>
      obtain rfl := Except.ok.inj hresolve
      exact hgiven
  have hcfg : live.cfg = cfg := (StagingLive.build_eq_ok_iff.mp hbuild).1
  refine ⟨⟨by simp, ⟨⟨.refl _, ?_, Or.inl rfl⟩, ?_⟩, fun id ↦ trivial, by simp, by simp, by simp⟩,
    rfl, fun id ↦ rfl⟩
  · exact hcfg.symm ▸ hchecked
  · exact hcfg.symm ▸ hbuild

/-- The credentials of a bucket that the master does not manage are never refreshed. -/
structure Unmanaged (live : StagingLive σ) (p : Process σ) : Prop where
  managed : p.managed = false
  live : p.live = live
  tasks : ∀ id, ¬ (p.task id).Refreshing

namespace Unmanaged

variable {live : StagingLive σ}

theorem returns (h : Unmanaged live p) (hreturns : Returns p p') : Unmanaged live p' where
  managed := hreturns.managed.trans h.managed
  live := hreturns.live.trans h.live
  tasks id := by
    rcases hreturns.task id with hsame | hbare
    · exact hsame ▸ h.tasks id
    · rw [h.managed] at hbare
      cases htask : p'.task id <;> simp_all [Task.Bare, Task.Refreshing]

theorem step (h : Unmanaged live p) (hstep : p.step operator action = some p') :
    Unmanaged live p' := by
  have hno {id : Nat} {task : Task σ} (htask : p.task id = task) : ¬ task.Refreshing :=
    htask ▸ h.tasks id
  cases step_moves hstep with
  | provisions row | submits req => exact ⟨h.managed, h.live, h.tasks⟩
  | @takes id key again htask =>
    refine ⟨h.managed, h.live, fun other ↦ ?_⟩
    change ¬ (Function.update p.task id (.uploading key again p.live.store) other).Refreshing
    by_cases hother : other = id
    · rw [hother, Function.update_self]
      exact fun hrefreshing ↦ hrefreshing
    · rw [Function.update_of_ne hother]
      exact h.tasks other
  | returns hreturns _ _ => exact h.returns hreturns
  | receives htask | reads htask | installs htask => exact absurd trivial (hno htask)

end Unmanaged

/-- A store that tells which key it was built with. -/
def keyStore (cfg : StagingConfig) (_ : Option Text) : Except Error Text := .ok cfg.accessKeyId

def sampleRow (key : String) : ManagedRow :=
  ⟨"s3://oss-cn-hangzhou.aliyuncs.com/bucket/ingest".toList, key.toList, "secret".toList⟩

def sampleManaged (key : String) : StagingConfig where
  endpoint := "oss-cn-hangzhou.aliyuncs.com".toList
  bucket := "bucket".toList
  pathPrefix := "ingest".toList
  accessKeyId := key.toList
  secretAccessKey := "secret".toList
  service := .oss
  region := none

def sampleProcess : Process Text :=
  ⟨sampleRow "first", [sampleRow "first"],
    ⟨sampleManaged "first", "first".toList, stagingUrlBase (sampleManaged "first")⟩, true,
    fun _ ↦ .idle, [], [], [], []⟩

theorem fetchManagedStaging_first :
    fetchManagedStaging (.ok (sampleRow "first")) = .ok (sampleManaged "first") := by
  decide +kernel

theorem connect_sample : connect keyStore .relyt (sampleRow "first") none = .ok sampleProcess := by
  rw [connect, resolveStaging, fetchManagedStaging_first]
  rfl

def denied : Error := .storage .permissionDenied "403"

/-- The second refresh fetches before the rotation and installs after it. -/
def overtaken : Process Text :=
  (run (step keyStore) sampleProcess
    [.put 0 "file".toList, .takeStore 0, .refresh 1, .answered 1 none,
      .provision (sampleRow "second"), .uploadEnds 0 (.error denied), .answered 0 none, .current 0,
      .apply 0, .takeStore 0, .current 1, .apply 1, .uploadEnds 0 (.ok ()), .put 0 "next".toList,
      .takeStore 0]).getD sampleProcess

/-- What a task holds is what the master holds, and a comparison that found this in use is right. -/
def TaskCurrent (master : ManagedRow) (live : StagingLive σ) : Task σ → Prop
  | .fetched _ fresh => fetchManagedStaging (.ok master) = .ok fresh
  | .comparing _ fresh cur =>
    fetchManagedStaging (.ok master) = .ok fresh ∧ (cur.cfg = fresh → live.cfg = fresh)
  | _ => True

/-- No answer is left that the master gave before, and the refreshes that succeeded since installed
what it holds. -/
structure Settling (operator : StagingConfig → Option Text → Except Error σ)
    (origin p : Process σ) : Prop where
  built : StagingLive.build operator p.live.cfg = .ok p.live
  master : p.master = origin.master
  managed : p.managed = true
  tasks : ∀ id, TaskCurrent p.master p.live (p.task id)
  refreshes : ∃ more, p.refreshes = origin.refreshes ++ more ∧ ∀ changed, .ok changed ∈ more →
    fetchManagedStaging (.ok p.master) = .ok p.live.cfg

theorem TaskCurrent.of_bare {master : ManagedRow} {live : StagingLive σ} {managed : Bool}
    {task : Task σ} (h : task.Bare managed) : TaskCurrent master live task := by
  cases task <;> trivial

theorem TaskCurrent.setTask {live : StagingLive σ} (h : ∀ id, TaskCurrent p.master live (p.task id))
    (id : Nat) {task : Task σ} (htask : TaskCurrent p.master live task) (other : Nat) :
    TaskCurrent p.master live ((p.setTask id task).task other) := by
  change TaskCurrent p.master live (Function.update p.task id task other)
  by_cases hother : other = id
  · rw [hother, Function.update_self]
    exact htask
  · rw [Function.update_of_ne hother]
    exact h other

namespace Settling

variable {origin : Process σ}

/-- A refresh that returns installed what the master holds, or failed. -/
theorem returnRefresh (h : Settling operator origin p) (id : Nat) (denied : Option (Text × Error))
    {result : Except Error Bool} (hresult : ∀ changed, result = .ok changed →
      fetchManagedStaging (.ok p.master) = .ok p.live.cfg) :
    Settling operator origin (p.returnRefresh id denied result) := by
  obtain ⟨hmaster, -, hlive, hmanaged, -, -, htask⟩ := returns_returnRefresh p id denied result
  obtain ⟨more, hmore, hok⟩ := h.refreshes
  refine ⟨hlive ▸ h.built, hmaster.trans h.master, hmanaged.trans h.managed, fun other ↦ ?_,
    more ++ [result], ?_, fun changed hchanged ↦ ?_⟩
  · rw [hmaster, hlive]
    rcases htask other with hsame | hbare
    · exact hsame ▸ h.tasks other
    · exact .of_bare hbare
  · rw [returnRefresh_refreshes, hmore, List.append_assoc]
  · rw [hmaster, hlive]
    rcases List.mem_append.mp hchanged with hold | hnew
    · exact hok changed hold
    · exact hresult changed (List.mem_singleton.mp hnew).symm

/-- What `apply` writes is what the master holds. -/
theorem install_live (h : Settling operator origin p) {id : Nat}
    {denied : Option (Text × Error)} {fresh : StagingConfig} {cur : StagingLive σ}
    (htask : p.task id = .comparing denied fresh cur) :
    (p.install operator id denied fresh cur).live = p.live ∨
      fetchManagedStaging (.ok p.master) = .ok fresh ∧
        StagingLive.build operator fresh = .ok (p.install operator id denied fresh cur).live := by
  have hcurrent : TaskCurrent p.master p.live (.comparing denied fresh cur) := htask ▸ h.tasks id
  unfold install
  split
  · exact Or.inl (returns_returnRefresh p id denied _).live
  · next live hlive =>
    obtain ⟨-, hsame | ⟨-, hbuild⟩⟩ := StagingLive.apply_ok hlive
    · simp at hsame
    · refine Or.inr ⟨hcurrent.1, ?_⟩
      rw [(returns_returnRefresh { p with live } id denied _).live]
      exact hbuild
  · exact Or.inl (returns_returnRefresh p id denied _).live

theorem install (h : Settling operator origin p) {id : Nat} {denied : Option (Text × Error)}
    {fresh : StagingConfig} {cur : StagingLive σ}
    (htask : p.task id = .comparing denied fresh cur) :
    Settling operator origin (p.install operator id denied fresh cur) := by
  have hcurrent : TaskCurrent p.master p.live (.comparing denied fresh cur) := htask ▸ h.tasks id
  obtain ⟨more, hmore, hok⟩ := h.refreshes
  unfold Process.install
  split
  · exact h.returnRefresh id denied (by simp)
  · next live hlive =>
    obtain ⟨-, hsame | ⟨-, hbuild⟩⟩ := StagingLive.apply_ok hlive
    · simp at hsame
    have hcfg : live.cfg = fresh := (StagingLive.build_eq_ok_iff.mp hbuild).1
    have hfetch : fetchManagedStaging (.ok p.master) = .ok live.cfg := hcfg ▸ hcurrent.1
    have hwritten : Settling operator origin { p with live } := by
      refine ⟨hcfg ▸ hbuild, h.master, h.managed, fun other ↦ ?_, more, hmore, fun _ _ ↦ hfetch⟩
      have hother := h.tasks other
      change TaskCurrent p.master live (p.task other)
      cases htask' : p.task other with
      | comparing denied' fresh' cur' =>
        rw [htask'] at hother
        exact ⟨hother.1, fun _ ↦ Except.ok.inj (hfetch.symm.trans hother.1)⟩
      | fetched denied' fresh' =>
        rw [htask'] at hother
        exact hother
      | idle | putting | uploading | asking => trivial
    exact hwritten.returnRefresh id denied fun _ _ ↦ hfetch
  · next hlive =>
    obtain ⟨-, ⟨-, hsame⟩ | hbuild⟩ := StagingLive.apply_ok hlive
    · refine h.returnRefresh id denied fun _ _ ↦ ?_
      rw [hcurrent.2 hsame]
      exact hcurrent.1
    · simp at hbuild

theorem step (h : Settling operator origin p) (hcalm : action.provisions = false)
    (hstep : p.step operator action = some p') : Settling operator origin p' := by
  cases step_moves hstep with
  | provisions row => simp [ProcessAction.provisions] at hcalm
  | submits req => exact ⟨h.built, h.master, h.managed, h.tasks, h.refreshes⟩
  | @takes id key again htask =>
    exact ⟨h.built, h.master, h.managed, TaskCurrent.setTask h.tasks id trivial, h.refreshes⟩
  | returns hreturns _ hrefreshes =>
    obtain ⟨hmaster, -, hlive, hmanaged, -, -, htask⟩ := hreturns
    refine ⟨hlive ▸ h.built, hmaster.trans h.master, hmanaged.trans h.managed, fun other ↦ ?_, ?_⟩
    · rw [hmaster, hlive]
      rcases htask other with hsame | hbare
      · exact hsame ▸ h.tasks other
      · exact .of_bare hbare
    · rw [hmaster, hlive]
      obtain ⟨more, hmore, hok⟩ := h.refreshes
      rcases hrefreshes h.managed with hsame | ⟨e, hfailed⟩
      · exact ⟨more, hsame.trans hmore, hok⟩
      · refine ⟨more ++ [.error e], ?_, fun changed hchanged ↦ hok changed ?_⟩
        · rw [hfailed, hmore, List.append_assoc]
        · simpa using hchanged
  | receives htask hfetch =>
    exact ⟨h.built, h.master, h.managed, TaskCurrent.setTask h.tasks _ hfetch, h.refreshes⟩
  | @reads id denied fresh htask =>
    have hfresh : TaskCurrent p.master p.live (.fetched denied fresh) := htask ▸ h.tasks id
    exact ⟨h.built, h.master, h.managed,
      TaskCurrent.setTask h.tasks id ⟨hfresh, fun hsame ↦ hsame⟩, h.refreshes⟩
  | installs htask => exact h.install htask

/-- What is in use stays in use once it is what the master holds. -/
theorem step_live (h : Settling operator origin p)
    (hcurrent : fetchManagedStaging (.ok p.master) = .ok p.live.cfg)
    (hstep : p.step operator action = some p') : p'.live = p.live := by
  cases step_moves hstep with
  | provisions | submits | takes | receives | reads => rfl
  | returns hreturns _ _ => exact hreturns.live
  | installs htask =>
    rcases h.install_live htask with hsame | ⟨hfetch, hbuild⟩
    · exact hsame
    · obtain rfl := Except.ok.inj (hfetch.symm.trans hcurrent)
      exact Except.ok.inj (hbuild.symm.trans h.built)

end Settling

/-- A submission is the only step that adds one, with the credentials in use. -/
theorem step_jobs (hstep : p.step operator action = some p') :
    p'.jobs = p.jobs ∨ ∃ req, p'.jobs = p.jobs ++ [submitArgs p.live.cfg req] := by
  cases step_moves hstep with
  | submits req => exact Or.inr ⟨req, rfl⟩
  | provisions | takes | receives | reads => exact Or.inl rfl
  | returns hreturns _ _ => exact Or.inl hreturns.jobs
  | @installs id denied fresh cur htask =>
    left
    unfold install
    split
    · exact (returns_returnRefresh p id denied _).jobs
    · next live _ => exact (returns_returnRefresh { p with live } id denied _).jobs
    · exact (returns_returnRefresh p id denied _).jobs

/-- What is in use stays in use, and the submissions carry its credentials. -/
structure Stays (operator : StagingConfig → Option Text → Except Error σ)
    (origin refreshed p : Process σ) : Prop where
  settling : Settling operator origin p
  live : p.live = refreshed.live
  jobs : ∃ more, p.jobs = refreshed.jobs ++ more ∧
    ∀ job ∈ more, ∃ req, job = submitArgs refreshed.live.cfg req

theorem Stays.step {origin refreshed : Process σ} (h : Stays operator origin refreshed p)
    (hcurrent : fetchManagedStaging (.ok origin.master) = .ok refreshed.live.cfg)
    (hcalm : action.provisions = false) (hstep : p.step operator action = some p') :
    Stays operator origin refreshed p' := by
  obtain ⟨hsettling, hlive, more, hjobs, hmore⟩ := h
  have hkept := hsettling.step_live (by rw [hsettling.master, hlive, hcurrent]) hstep
  refine ⟨hsettling.step hcalm hstep, hkept.trans hlive, ?_⟩
  rcases step_jobs hstep with hsame | ⟨req, hadded⟩
  · exact ⟨more, hsame.trans hjobs, hmore⟩
  · refine ⟨more ++ [submitArgs p.live.cfg req], ?_, fun job hjob ↦ ?_⟩
    · rw [hadded, hjobs, List.append_assoc]
    · rcases List.mem_append.mp hjob with hold | hnew
      · exact hmore job hold
      · exact ⟨req, hlive ▸ List.mem_singleton.mp hnew⟩

/-- Once the master's operator provisions nothing new and no answer from before is left, a refresh
that succeeds installs what the master holds. From then on it stays in use, and every submission
carries it. -/
theorem rotation_settles {staging : Staging} {master : ManagedRow} {failure : Option SqlFailure}
    {start quiet refreshed : Process σ}
    (hconnect : connect operator staging master failure = .ok start)
    (hreach : Reachable (step operator) start quiet) (hmanaged : quiet.managed = true)
    (hquiet : ∀ id, ¬ (quiet.task id).Holds)
    (hrun : ReachableUnder (step operator) (fun _ action ↦ action.provisions = false) quiet
      refreshed)
    (hrefreshed : ∃ changed, .ok changed ∈ refreshed.refreshes.drop quiet.refreshes.length)
    {p : Process σ}
    (hlater : ReachableUnder (step operator) (fun _ action ↦ action.provisions = false) refreshed
      p) :
    fetchManagedStaging (.ok quiet.master) = .ok p.live.cfg ∧ p.live = refreshed.live ∧
      ∀ job ∈ p.jobs.drop refreshed.jobs.length, ∃ req, job = submitArgs p.live.cfg req := by
  have hsound : Sound operator start.live.cfg quiet :=
    hreach.invariant (connect_sound hconnect).1 fun _ _ _ h hstep ↦ h.step hstep
  have hbegin : Settling operator quiet quiet := by
    refine ⟨hsound.live.built, rfl, hmanaged, fun id ↦ ?_, [], by simp, by simp⟩
    cases htask : quiet.task id with
    | fetched | comparing =>
      refine absurd ?_ (hquiet id)
      rw [htask]
      trivial
    | idle | putting | uploading | asking => trivial
  have hsettling : Settling operator quiet refreshed :=
    hrun.invariant hbegin fun _ _ _ h hcalm hstep ↦ h.step hcalm hstep
  have hcurrent : fetchManagedStaging (.ok quiet.master) = .ok refreshed.live.cfg := by
    obtain ⟨more, hmore, hok⟩ := hsettling.refreshes
    obtain ⟨changed, hchanged⟩ := hrefreshed
    rw [hmore, List.drop_left] at hchanged
    rw [← hsettling.master]
    exact hok changed hchanged
  have hstays : Stays operator quiet refreshed p :=
    hlater.invariant ⟨hsettling, rfl, [], by simp, by simp⟩ fun _ _ _ h hcalm hstep ↦
      h.step hcurrent hcalm hstep
  obtain ⟨-, hlive, more, hjobs, hmore⟩ := hstays
  refine ⟨hlive ▸ hcurrent, hlive, fun job hjob ↦ ?_⟩
  rw [hjobs, List.drop_left] at hjob
  rw [hlive]
  exact hmore job hjob

/-- The master has rotated and no task holds an answer. -/
def rotated : Process Text :=
  { sampleProcess with
    master := sampleRow "second"
    provisioned := [sampleRow "first", sampleRow "second"] }

def settled : Process Text :=
  (run (restrict (step keyStore) fun _ action ↦ action.provisions = false) rotated
    [.refresh 0, .refresh 1, .answered 0 none, .answered 1 none, .current 1, .current 0, .apply 0,
      .apply 1]).getD rotated

theorem rotation_settles_second :
    sampleProcess.live.cfg = sampleManaged "first" ∧ settled.refreshes = [.ok true, .ok true] ∧
      fetchManagedStaging (.ok (sampleRow "second")) = .ok settled.live.cfg := by
  have hrefreshes : settled.refreshes = [.ok true, .ok true] := by decide +kernel
  have hrotated : Reachable (step keyStore) sampleProcess rotated :=
    Reachable.snoc .refl (rfl : sampleProcess.step keyStore (.provision (sampleRow "second")) = _)
  have hsettled : ReachableUnder (step keyStore) (fun _ action ↦ action.provisions = false) rotated
      settled := reachableUnder_getD_of_restrict .refl (by decide +kernel)
  have hsucceeded : ∃ changed, .ok changed ∈ settled.refreshes.drop rotated.refreshes.length :=
    ⟨true, by rw [hrefreshes]; simp [rotated, sampleProcess]⟩
  exact ⟨rfl, hrefreshes, (rotation_settles connect_sample hrotated rfl (fun _ hholds ↦ hholds)
    hsettled hsucceeded .refl).1⟩

end Process

end RelytIngest
