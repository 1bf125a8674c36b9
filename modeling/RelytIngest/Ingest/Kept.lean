import RelytIngest.Ingest.Sessions

/-!
# The files that have to be loaded

An object that a session finds when it lists the directory, or puts itself, has to be loaded. So has
one that appeared in between, unless it comes too late: `nextOwed` collects these files along a run.
`Kept` relates them to the objects and the writers: what the last session listed lies below its
epoch, and the rest are the first of the files it sealed.
-/

set_option autoImplicit false
set_option relaxedAutoImplicit false

namespace RelytIngest

open Foundations Relation

namespace Writer

variable {β : Type} {cfg : WriterConfig β} {w : Writer β} {epochMs : Nat}
  {stagedOffset resumePersisted : Option Int}

/-- The names of a sealed file encode, and its number is one of the session. -/
theorem ReachableFrom.sealed_meta
    (hreach : ReachableFrom cfg epochMs stagedOffset resumePersisted w) {file : StagedFile}
    (hfile : file ∈ w.sealedFiles) :
    (∃ m, WriterState.sealMeta cfg file = .ok m) ∧ (epochMs : Int) * 2 ^ 20 ≤ file.packed := by
  obtain ⟨-, hnamed⟩ := hreach.rows
  obtain ⟨cut, hcut, rfl⟩ := List.mem_map.mp hfile
  have hepoch := hnamed.epochs cut hcut
  refine ⟨⟨_, (hnamed.wellFormed cut hcut).named⟩, ?_⟩
  simp only [StagedFile.packed]
  omega

theorem ReachableFrom.sealed_rising
    (hreach : ReachableFrom cfg epochMs stagedOffset resumePersisted w) :
    w.sealedFiles.Pairwise fun first second ↦ first.packed < second.packed := by
  obtain ⟨-, hnamed⟩ := hreach.rows
  refine List.pairwise_map.mpr
    (hnamed.increasing.imp_of_mem fun {first second} hfirst hsecond h ↦ ?_)
  rwa [(hnamed.wellFormed first hfirst).serialSeq,
    (hnamed.wellFormed second hsecond).serialSeq] at h

/-- The number of a sealed file is its own. -/
theorem ReachableFrom.sealed_inj
    (hreach : ReachableFrom cfg epochMs stagedOffset resumePersisted w) {first second : StagedFile}
    (hfirst : first ∈ w.sealedFiles) (hsecond : second ∈ w.sealedFiles)
    (heq : first.packed = second.packed) : first = second := by
  have hnodup : (w.sealedFiles.map StagedFile.packed).Nodup :=
    List.pairwise_map.mpr (hreach.sealed_rising.imp fun h ↦ h.ne)
  exact List.inj_on_of_nodup_map hnodup hfirst hsecond heq

/-- A file past the fence carries the names that encode it. -/
theorem ReachableFrom.cleared_meta
    (hreach : ReachableFrom cfg epochMs stagedOffset resumePersisted w) {m : FileMeta}
    (hm : m ∈ w.trace.putReturned) :
    m.file ∈ w.sealedFiles ∧ WriterState.sealMeta cfg m.file = .ok m ∧
      m.serialSeq = m.file.packed := by
  obtain ⟨landed, later, hcuts, hreturned⟩ := hreach.landed
  rw [hreturned] at hm
  obtain ⟨cut, hcut, rfl⟩ := List.mem_map.mp hm
  have hmem : cut ∈ w.trace.cuts := hcuts ▸ List.mem_append_left later hcut
  have hwell := hreach.rows.2.wellFormed cut hmem
  exact ⟨List.mem_map.mpr ⟨cut, hmem, rfl⟩, hwell.named, hwell.serialSeq⟩

/-- A sealed file that is not past the fence comes behind those that are. -/
theorem ReachableFrom.lt_of_not_cleared
    (hreach : ReachableFrom cfg epochMs stagedOffset resumePersisted w) {file : StagedFile}
    (hfile : file ∈ w.sealedFiles) (hnot : ∀ m ∈ w.cleared, m.file ≠ file) {m : FileMeta}
    (hm : m ∈ w.cleared) : m.serialSeq < file.packed := by
  obtain ⟨later, hlater⟩ := hreach.files.cleared_prefix
  obtain ⟨rest, hrest⟩ := hreach.sealed_split
  have hsplit : w.sealedFiles =
      w.cleared.map FileMeta.file ++ (later.map FileMeta.file ++ rest) := by
    rw [hrest, ← List.append_assoc, ← List.map_append]
    exact congrArg (fun put ↦ List.map FileMeta.file put ++ rest) hlater.symm
  have hrising := hreach.sealed_rising
  rw [hsplit] at hfile hrising
  have hput : m ∈ w.trace.putReturned := hreach.files.cleared_prefix.subset hm
  rw [(hreach.cleared_meta hput).2.2]
  rcases List.mem_append.mp hfile with hcleared | hbehind
  · obtain ⟨n, hn, rfl⟩ := List.mem_map.mp hcleared
    exact absurd rfl (hnot n hn)
  · exact (List.pairwise_append.mp hrising).2.2 _ (List.mem_map_of_mem hm) _ hbehind

end Writer

namespace Ingest

variable {β σ : Type} {cfg : Nat → WriterConfig β} {master : Master σ} {s s' : Ingest β σ}
  {allowed : Ingest β σ → IngestAction β → Prop} {m : σ} {first : Int} {admitted : Entry β → Prop}

theorem puts_of_reachable (hreach : ReachableUnder (step cfg master) allowed (start m) s) :
    s.Puts := by
  refine hreach.strengthened Puts ⟨by simp [start], by simp [start], ?_⟩ ?_
  · intro id opening w hphase
    simp [start, session, Stream.start] at hphase
  intro before action after hbefore h hstepAllowed hstep
  have hafter : ReachableUnder (step cfg master) allowed (start m) after :=
    hbefore.snoc hstepAllowed hstep
  obtain ⟨hputs, hlanded⟩ := puts_mono hstep
  constructor
  case issued =>
    intro id file hput
    rcases mem_puts_step hstep hput with hold | ⟨writerAction, m, rfl, hunder, rfl⟩
    · exact h.issued_step hstep hold
    · obtain ⟨opening, w, file, failures, hphase, hrunning, rfl⟩ := putUnderWay_eq_some hunder
      exact ⟨opening, w, hphase, (writer_of_reachable hafter hphase).mem_maybePut hrunning⟩
  case landed =>
    intro put hput
    rcases mem_landed_step hstep hput with hold | ⟨-, hissued⟩
    · exact hputs put (h.landed put hold)
    · exact hputs put hissued
  case returned =>
    intro id opening w hphase n hn
    rcases step_cases hstep with ⟨streamAction, next, rfl, -, hnext, heffected, rfl⟩ |
      ⟨other, file, rfl, -, rfl⟩ | ⟨-, -, houtside⟩
    · have hchange := Stream.phase_step hnext id
      rw [session, followed_stream] at hphase
      rw [hphase] at hchange
      generalize hold : (before.stream.sessions id).phase = old at hchange
      cases hchange with
      | same => exact hlanded _ (h.returned id opening w hold n hn)
      | returned => simp [Writer.new] at hn
      | stepped writerAction =>
        simp only [effected, StreamSession.putReturned, hphase, List.all_eq_true,
          decide_eq_true_eq] at heffected
        exact heffected n hn
    · exact hlanded _ (h.returned id opening w hphase n hn)
    · rw [session, houtside.stream] at hphase
      exact hlanded _ (h.returned id opening w hphase n hn)

/-- The files that have to be loaded after a step: an object that appeared since the directory was
listed is one of them as long as its number is above all that the master may have. -/
def nextOwed (master : Master σ) (s : Ingest β σ) (owed : List StagedFile) :
    IngestAction β → List StagedFile
  | .objectLands id file => if s.lister = some id ∧ file ∉ owed then owed ++ [file] else owed
  | .stream (.openDecide _ _ _ _) =>
    owed ++ s.staged.filter fun file ↦
      decide (file ∉ s.kept ∧ ∀ n ∈ s.moving master, n < file.packed)
  | _ => owed

structure Kept (s : Ingest β σ) (owed : List StagedFile) : Prop where
  mem_kept : ∀ file ∈ owed, file ∈ s.kept
  staged : ∀ file ∈ s.kept, file ∈ s.staged
  own : ∀ id, s.lister = some id → ∀ file, (id, file) ∈ s.landed → file ∈ owed
  below : ∀ id opening, s.lister = some id → (s.session id).opened = some opening →
    ∀ file ∈ s.kept, file.packed < (opening.epoch : Int) * 2 ^ 20 ∨ (id, file) ∈ s.landed
  distinct : ∀ file ∈ s.kept, ∀ other ∈ s.kept, file.packed = other.packed → file = other
  cleared : ∀ id opening w, (s.session id).phase = .running opening w →
    ∀ m ∈ w.cleared, m.file ∈ owed

namespace Kept

variable {owed : List StagedFile}

theorem start : (start m : Ingest β σ).Kept [] where
  mem_kept file hfile := by simp at hfile
  staged file hfile := by simp [Ingest.start] at hfile
  own id hlister := by simp [Ingest.start] at hlister
  below id opening hlister := by simp [Ingest.start] at hlister
  distinct file hfile := by simp [Ingest.start] at hfile
  cleared id opening w hphase := by simp [Ingest.start, session, Stream.start] at hphase

theorem objectLands (h : s.Kept owed) (hputs : s.Puts)
    (hwriter : ∀ id opening w, (s.session id).phase = .running opening w →
      w.ReachableFrom (cfg id) opening.epoch (recoveredOffset opening.plan.kafkaResumeOffset)
        opening.newState.resumeOffset) {id : Nat} {file : StagedFile}
    (hstep : s.objectLands id file = some s') :
    s'.Kept (s.nextOwed master owed (.objectLands id file)) := by
  obtain ⟨hput, rfl⟩ := objectLands_eq_some hstep
  have hmore {f : StagedFile} (hf : f ∈ owed) :
      f ∈ s.nextOwed master owed (.objectLands id file) := by
    simp only [nextOwed]
    split_ifs
    · exact List.mem_append_left _ hf
    · exact hf
  -- the new object, put by the session that listed the directory
  have hown (hlister : s.lister = some id) :
      file ∈ s.nextOwed master owed (.objectLands id file) := by
    by_cases hfile : file ∈ owed
    · exact hmore hfile
    · simp [nextOwed, hlister, hfile]
  have hkept {f : StagedFile} (hf : f ∈ if s.lister = some id ∧ file ∉ s.kept then s.kept ++ [file]
      else s.kept) : f ∈ s.kept ∨ s.lister = some id ∧ f = file := by
    split_ifs at hf with hnew
    · rcases List.mem_append.mp hf with hold | hlast
      · exact Or.inl hold
      · exact Or.inr ⟨hnew.1, List.mem_singleton.mp hlast⟩
    · exact Or.inl hf
  have hkeep {f : StagedFile} (hf : f ∈ s.kept ∨ s.lister = some id ∧ f = file) :
      f ∈ if s.lister = some id ∧ file ∉ s.kept then s.kept ++ [file] else s.kept := by
    split_ifs with hnew
    · rcases hf with hold | ⟨-, rfl⟩
      · exact List.mem_append_left _ hold
      · exact List.mem_append_right _ (List.mem_singleton_self f)
    · rcases hf with hold | ⟨hlister, rfl⟩
      · exact hold
      · exact not_not.mp fun hnot ↦ hnew ⟨hlister, hnot⟩
  have hstaged {f : StagedFile} (hf : f ∈ s.staged) :
      ∃ other, (other, f) ∈ s.landed ++ [(id, file)] := by
    obtain ⟨other, hother⟩ := mem_staged.mp hf
    exact ⟨other, List.mem_append_left _ hother⟩
  constructor
  case mem_kept =>
    intro f hf
    refine hkeep ?_
    simp only [nextOwed] at hf
    split_ifs at hf with hnew
    · rcases List.mem_append.mp hf with hold | hlast
      · exact Or.inl (h.mem_kept f hold)
      · exact Or.inr ⟨hnew.1, List.mem_singleton.mp hlast⟩
    · exact Or.inl (h.mem_kept f hf)
  case staged =>
    intro f hf
    refine mem_staged.mpr ?_
    rcases hkept hf with hold | ⟨-, rfl⟩
    · exact hstaged (h.staged f hold)
    · exact ⟨id, List.mem_append_right _ (List.mem_singleton_self _)⟩
  case own =>
    intro other hlister f hf
    rcases List.mem_append.mp hf with hold | hlast
    · exact hmore (h.own other hlister f hold)
    · obtain ⟨rfl, rfl⟩ := Prod.mk.inj (List.mem_singleton.mp hlast)
      exact hown hlister
  case below =>
    intro other opening hlister hopened f hf
    rcases hkept hf with hold | ⟨hself, rfl⟩
    · exact (h.below other opening hlister hopened f hold).imp_right (List.mem_append_left _)
    · obtain rfl : other = id := Option.some.inj (hlister.symm.trans hself)
      exact Or.inr (List.mem_append_right _ (List.mem_singleton_self _))
  case distinct =>
    -- a kept file with the number of the new object is that object
    have hsame {f : StagedFile} (hf : f ∈ s.kept) (hlister : s.lister = some id)
        (heq : f.packed = file.packed) : f = file := by
      obtain ⟨opening, w, hphase, hfile⟩ := hputs.issued id file hput
      have hreach := hwriter id opening w hphase
      have hsealed := Writer.mem_sealedFiles_of_maybePut hfile
      rcases h.below id opening hlister (by simp [StreamSession.opened, hphase]) f hf with
        hbelow | hlanded
      · have := (hreach.sealed_meta hsealed).2
        omega
      · obtain ⟨_, _, hphase', hother⟩ := hputs.issued id f (hputs.landed _ hlanded)
        obtain ⟨rfl, rfl⟩ := SessionPhase.running.inj (hphase.symm.trans hphase')
        exact hreach.sealed_inj (Writer.mem_sealedFiles_of_maybePut hother) hsealed heq
    intro f hf g hg heq
    rcases hkept hf with hfOld | ⟨hlister, rfl⟩
    · rcases hkept hg with hgOld | ⟨hlister, rfl⟩
      · exact h.distinct f hfOld g hgOld heq
      · exact hsame hfOld hlister heq
    · rcases hkept hg with hgOld | ⟨-, rfl⟩
      · exact (hsame hgOld hlister heq.symm).symm
      · rfl
  case cleared =>
    exact fun other opening w hphase n hn ↦ hmore (h.cleared other opening w hphase n hn)

/-- A session lists the directory. -/
theorem listed (h : s.Kept owed) (hputs : s.Puts) {id nowMs : Nat} {watermark : Option Int}
    {staged : List StagedFile} (henabled : s.enabled cfg (.openDecide id nowMs watermark staged))
    (hdistinct : ∀ file ∈ s.staged, ∀ other ∈ s.staged, file.packed = other.packed → file = other)
    {next : Stream β} (hnext : s.stream.openDecide id nowMs watermark staged = some next) :
    (s.followed next (.openDecide id nowMs watermark staged)).Kept
      (s.nextOwed master owed (.stream (.openDecide id nowMs watermark staged))) := by
  obtain ⟨state, hphase, hresult⟩ := Stream.openDecide_eq_some hnext
  simp only [enabled, Bool.and_eq_true, decide_eq_true_eq] at henabled
  constructor
  case mem_kept =>
    intro f hf
    rcases List.mem_append.mp hf with hold | hnew
    · exact h.staged f (h.mem_kept f hold)
    · exact List.mem_of_mem_filter hnew
  case staged => exact fun f hf ↦ hf
  case own =>
    intro other hlister f hlanded
    obtain rfl := Option.some.inj hlister
    obtain ⟨opening, w, hrunning, -⟩ := hputs.issued id f (hputs.landed _ hlanded)
    have : (s.session id).phase = .reading state := hphase
    simp [this] at hrunning
  case below =>
    intro other opening hlister hopened f hf
    obtain rfl := Option.some.inj hlister
    rcases hresult with ⟨opening', hopen, rfl⟩ | ⟨err, rfl⟩
    · obtain rfl : opening' = opening := by
        simpa [followed, session, StreamSession.opened, Stream.setSession] using hopened
      have hmem : f ∈ staged := henabled.2.mem_iff.mpr hf
      have hepoch := (openDecisions_epoch hopen).1 f hmem
      obtain ⟨plan, hplan, -⟩ := openDecisions_eq_ok_iff.mp hopen
      have hseq := ((planRecovery_ok hplan).1 f hmem).2
      have := maxSeq_eq
      simp only [StagedFile.packed]
      omega
    · simp [followed, session, StreamSession.opened, Stream.setSession] at hopened
  case distinct => exact hdistinct
  case cleared =>
    intro other opening w hrunning n hn
    refine List.mem_append_left _ ?_
    have hstep : s.stream.step cfg (.openDecide id nowMs watermark staged) = some next := hnext
    have hchange := Stream.phase_step hstep other
    change (next.sessions other).phase = _ at hrunning
    rw [hrunning] at hchange
    generalize hold : (s.stream.sessions other).phase = old at hchange
    cases hchange with
    | same => exact h.cleared other opening w hold n hn

/-- Any other step of the stream keeps the same objects, and the fence lets only the session that
listed the directory clear a file. -/
theorem stream (h : s.Kept owed) (hputs : s.Puts) (hsuccession : s.Succession)
    (hwriter : ∀ id opening w, (s.session id).phase = .running opening w →
      w.ReachableFrom (cfg id) opening.epoch (recoveredOffset opening.plan.kafkaResumeOffset)
        opening.newState.resumeOffset) {action : StreamAction β}
    (haction : ∀ id nowMs watermark staged, action ≠ .openDecide id nowMs watermark staged)
    {next : Stream β} (hnext : s.stream.step cfg action = some next) :
    (s.followed next action).Kept owed := by
  have hkept : (s.followed next action).kept = s.kept := by
    cases action with
    | openDecide id nowMs watermark staged => exact absurd rfl (haction id nowMs watermark staged)
    | _ => rfl
  have hlister : (s.followed next action).lister = s.lister := by
    cases action with
    | openDecide id nowMs watermark staged => exact absurd rfl (haction id nowMs watermark staged)
    | _ => rfl
  have hlanded : (s.followed next action).landed = s.landed := by
    cases action <;> rfl
  have hstaged : (s.followed next action).staged = s.staged := by
    rw [Ingest.staged, Ingest.staged, hlanded]
  constructor
  case mem_kept => rw [hkept]; exact h.mem_kept
  case staged => rw [hkept, hstaged]; exact h.staged
  case own => rw [hlister, hlanded]; exact h.own
  case below =>
    rw [hlister, hlanded, hkept]
    intro id opening hid hopened
    refine h.below id opening hid ?_
    rw [session, followed_stream] at hopened
    rcases Stream.opened_step hnext hopened with hold | ⟨nowMs, watermark, staged, _, heq, -⟩
    · exact hold
    · exact absurd heq (haction id nowMs watermark staged)
  case distinct => rw [hkept]; exact h.distinct
  case cleared =>
    intro id opening w hrunning n hn
    rw [session, followed_stream] at hrunning
    have hchange := Stream.phase_step hnext id
    rw [hrunning] at hchange
    generalize hold : (s.stream.sessions id).phase = old at hchange
    cases hchange with
    | same => exact h.cleared id opening w hold n hn
    | returned => rw [Writer.cleared_new] at hn; simp at hn
    | stepped writerAction _ w₀ _ hstep =>
      have hreach := hwriter id opening w₀ hold
      rcases Writer.announcements_step hreach hstep with ⟨-, -, hsame, -⟩ |
        ⟨n', hfenced, hreturned, -, hmore, -⟩ | ⟨-, -, hsame, -⟩
      · exact h.cleared id opening w₀ hold n (hsame ▸ hn)
      · rw [hmore] at hn
        rcases List.mem_append.mp hn with hn | hn
        · exact h.cleared id opening w₀ hold n hn
        · obtain rfl := List.mem_singleton.mp hn
          have halive : (s.session id).alive = true := Stream.alive_of_writer hnext
          have hphase : (s.session id).phase = .running opening w₀ := hold
          have hcurrent : ¬ (s.session id).Superseded := by
            rintro (hended | ⟨err, hfailed⟩ | ⟨_, _, hrunning, hfence⟩)
            · simp [halive] at hended
            · simp [hphase] at hfailed
            · obtain ⟨rfl, rfl⟩ := SessionPhase.running.inj (hphase.symm.trans hrunning)
              simp [hfenced] at hfence
          have hopened : (s.session id).opened ≠ none := by simp [StreamSession.opened, hphase]
          refine h.own id (hsuccession.lister hopened hcurrent) _ ?_
          refine hputs.returned id opening w₀ hphase n ?_
          have hput : w₀.trace.putReturned = w₀.cleared ++ [n] := hreach.files.returned_eq hreturned
          rw [hput]
          exact List.mem_append_right _ (List.mem_singleton_self n)
      · exact h.cleared id opening w₀ hold n (hsame ▸ hn)

theorem outside (h : s.Kept owed) (houtside : Outside s s') : s'.Kept owed := by
  have hstaged : s'.staged = s.staged := by rw [Ingest.staged, Ingest.staged, houtside.landed]
  obtain ⟨hmem, hsub, hown, hbelow, hdistinct, hcleared⟩ := h
  simp only [session] at hbelow hcleared
  constructor <;> simp only [session, houtside.stream, houtside.lister, houtside.landed,
    houtside.kept, hstaged] <;> assumption

theorem step (h : s.Kept owed)
    (hreach : ReachableUnder (step cfg master) allowed (Ingest.start m) s)
    (hallowed : ∀ s action, allowed s action → TakesOver first admitted s action)
    {action : IngestAction β}
    (hdistinct : ∀ id nowMs watermark staged,
      action = .stream (.openDecide id nowMs watermark staged) →
        ∀ file ∈ s.staged, ∀ other ∈ s.staged, file.packed = other.packed → file = other)
    (hstep : s.step cfg master action = some s') : s'.Kept (s.nextOwed master owed action) := by
  have hputs := puts_of_reachable hreach
  have hwriter {id : Nat} {opening : Opening} {w : Writer β}
      (hphase : (s.session id).phase = .running opening w) := writer_of_reachable hreach hphase
  rcases step_cases hstep with ⟨streamAction, next, rfl, henabled, hnext, -, rfl⟩ |
    ⟨id, file, rfl, -, -⟩ | ⟨hstream, hlands, houtside⟩
  · by_cases hdecide : ∃ id nowMs watermark staged,
        streamAction = .openDecide id nowMs watermark staged
    · obtain ⟨id, nowMs, watermark, staged, rfl⟩ := hdecide
      exact h.listed hputs henabled (hdistinct id nowMs watermark staged rfl) hnext
    · have hother (id nowMs : Nat) (watermark : Option Int) (staged : List StagedFile) :
          streamAction ≠ .openDecide id nowMs watermark staged :=
        fun heq ↦ hdecide ⟨id, nowMs, watermark, staged, heq⟩
      have hsame : s.nextOwed master owed (.stream streamAction) = owed := by
        cases streamAction with
        | openDecide id nowMs watermark staged =>
          exact absurd rfl (hother id nowMs watermark staged)
        | _ => rfl
      rw [hsame]
      exact h.stream hputs (succession_of_reachable hallowed hreach)
        (fun id opening w hphase ↦ hwriter hphase) hother hnext
  · exact h.objectLands hputs (fun id opening w hphase ↦ hwriter hphase) hstep
  · have hsame : s.nextOwed master owed action = owed := by
      cases action with
      | stream streamAction => exact absurd rfl (hstream streamAction)
      | objectLands id file => exact absurd rfl (hlands id file)
      | _ => rfl
    rw [hsame]
    exact h.outside houtside

/-- What is kept stays kept. -/
theorem mono (h : s.Kept owed) {action : IngestAction β}
    (hstep : s.step cfg master action = some s') {file : StagedFile} (hfile : file ∈ s.kept) :
    file ∈ s'.kept := by
  rcases step_cases hstep with ⟨streamAction, next, rfl, -, -, -, rfl⟩ |
    ⟨id, other, rfl, -, rfl⟩ | ⟨-, -, houtside⟩
  · cases streamAction with
    | openDecide => exact h.staged file hfile
    | _ => exact hfile
  · dsimp only
    split_ifs
    · exact List.mem_append_left _ hfile
    · exact hfile
  · rwa [houtside.kept]

end Kept

end Ingest

end RelytIngest
