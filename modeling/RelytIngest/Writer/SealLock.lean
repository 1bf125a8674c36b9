import RelytIngest.Writer.Machine

/-!
# The steps at the seal lock

A sealer takes the seal lock, waits for it or gives up on it (`SealerStep`), and the holder looks at
the buffer, reserves room in the queue, cuts and sends (`HolderStep`). Each of the two lists all
that such a step can do, with the guards under which it does it.
-/

set_option autoImplicit false
set_option relaxedAutoImplicit false

namespace RelytIngest

variable {β : Type} {cfg : WriterConfig β} {w w' : Writer β}

namespace Writer

/-- What a sealer short of the seal lock can do in one step. -/
inductive SealerStep (cfg : WriterConfig β) (w : Writer β) : Writer β → Prop
  | skip (hwait : w.waitOf .ticker = some .trying) :
      SealerStep cfg w (w.sealReturns (.ok none) .ticker)
  | park (sealer : Sealer) (hwait : w.waitOf sealer = some .trying) (hother : sealer ≠ .ticker) :
      SealerStep cfg w (w.setWait .parked sealer)
  | take (sealer : Sealer) (wait : SealWait) (hwait : w.waitOf sealer = some wait)
      (hwants : wait ≠ .holding) (hfree : w.lock = none) : SealerStep cfg w (w.grant sealer)
  | giveUp (sealer : Sealer) (err : Error) (hstalled : w.stalled cfg = some err)
      (hwait : w.waitOf sealer = some .parked) :
      SealerStep cfg w (w.sealReturns (.error err) sealer)
  | letGo (sealer : Sealer) (err : Error) (hstalled : w.stalled cfg = some err)
      (hroom : w.awaitsRoom sealer = true) : SealerStep cfg w (w.finish sealer (.error err))

theorem sealer_cases {action : Action β} (hstep : w.step cfg action = some w')
    (hsealer : action matches .tryLock _ _ | .acquire _ | .stall _) : SealerStep cfg w w' := by
  cases action <;> simp only [reduceCtorEq] at hsealer <;> simp only [step] at hstep
  case tryLock sealer busy =>
    unfold tryLock at hstep
    split_ifs at hstep with hwait _ hticker hfree <;> obtain rfl := Option.some.inj hstep
    · subst hticker
      exact .skip hwait
    · exact .park sealer hwait hticker
    · exact .take sealer .trying hwait (by simp) (Option.isNone_iff_eq_none.mp hfree)
  case acquire sealer =>
    unfold acquire at hstep
    split_ifs at hstep with hwait
    obtain rfl := Option.some.inj hstep
    exact .take sealer .parked hwait.1 (by simp) (Option.isNone_iff_eq_none.mp hwait.2)
  case stall sealer =>
    unfold stall at hstep
    split at hstep
    · simp at hstep
    · next err hstalled =>
      split_ifs at hstep with hwait hroom <;> obtain rfl := Option.some.inj hstep
      · exact .giveUp sealer err hstalled hwait
      · exact .letGo sealer err hstalled hroom

/-- What the holder of the seal lock can do in one step. -/
inductive HolderStep (cfg : WriterConfig β) (w : Writer β) (now : Nat) : Writer β → Prop
  | reserve (holder : Sealer) (hlock : w.lock = some ⟨holder, .entered⟩)
      (hsealable : w.st.sealable cfg now false = true) :
      HolderStep cfg w now (w.setPhase holder .reserving)
  | skip (holder : Sealer) (hlock : w.lock = some ⟨holder, .entered⟩)
      (hsealable : w.st.sealable cfg now false = false) :
      HolderStep cfg w now (w.finish holder (.ok none))
  /-- The ticker does not wait for room and reports no closed channel. -/
  | yield (hlock : w.lock = some ⟨.ticker, .reserving⟩)
      (hqueue : w.pipe.render.hasExited = true ∨ ¬ w.pipe.queue.length < cfg.queueDepth) :
      HolderStep cfg w now (w.finish .ticker (.ok none))
  | await (holder : Sealer) (hlock : w.lock = some ⟨holder, .reserving⟩)
      (hrender : w.pipe.render.hasExited = false)
      (hroom : ¬ w.pipe.queue.length < cfg.queueDepth) :
      HolderStep cfg w now (w.setPhase holder .awaitingRoom)
  | permit (holder : Sealer) (phase next : SealPhase β) (hlock : w.lock = some ⟨holder, phase⟩)
      (hphase : phase = .reserving ∨ phase = .awaitingRoom)
      (hnext : next = .permitted ∨ next = .cutting) (hrender : w.pipe.render.hasExited = false)
      (hroom : w.pipe.queue.length < cfg.queueDepth) :
      HolderStep cfg w now (w.setPhase holder next)
  | close (holder : Sealer) (phase : SealPhase β) (hlock : w.lock = some ⟨holder, phase⟩)
      (hphase : phase = .reserving ∨ phase = .awaitingRoom)
      (hrender : w.pipe.render.hasExited = true) :
      HolderStep cfg w now (w.setPhase holder .closed)
  | fail (holder : Sealer) (phase : SealPhase β) (err : Error)
      (hlock : w.lock = some ⟨holder, phase⟩) (hphase : phase = .closed ∨ phase = .permitted)
      (hfatal : w.fatalState cfg = some err) : HolderStep cfg w now (w.finish holder (.error err))
  | lose (holder : Sealer) (hlock : w.lock = some ⟨holder, .closed⟩)
      (hfatal : w.fatalState cfg = none) : HolderStep cfg w now (w.setPhase holder .gone)
  | report (holder : Sealer) (hlock : w.lock = some ⟨holder, .gone⟩) :
      HolderStep cfg w now ({ w with progress := w.progress.pipelineGone.2 }.finish holder
        (.error w.progress.pipelineGone.1))
  | proceed (holder : Sealer) (hlock : w.lock = some ⟨holder, .permitted⟩)
      (hfatal : w.fatalState cfg = none) : HolderStep cfg w now (w.setPhase holder .cutting)
  | cut (holder : Sealer) (hlock : w.lock = some ⟨holder, .cutting⟩) :
      HolderStep cfg w now (w.cut cfg holder now)
  | send (holder : Sealer) (sealed : Sealed β) (hlock : w.lock = some ⟨holder, .sending sealed⟩) :
      HolderStep cfg w now ({ w with
        pipe := { w.pipe with queue := w.pipe.queue ++ [sealed] }
        trace := { w.trace with sent := w.trace.sent ++ [sealed.fileMeta] }
        }.finish holder (.ok (some sealed.fileMeta.serialSeq)))

theorem holder_cases {now : Nat} (hstep : w.handOver cfg now = some w') :
    HolderStep cfg w now w' := by
  unfold handOver at hstep
  split at hstep
  · simp at hstep
  · next holder phase hlock =>
    cases phase with
    | entered =>
      dsimp only at hstep
      split_ifs at hstep with hsealable <;> obtain rfl := Option.some.inj hstep
      · exact .reserve holder hlock hsealable
      · exact .skip holder hlock (by simpa using hsealable)
    | reserving =>
      dsimp only at hstep
      split_ifs at hstep with hrender hticker hroom hticker hticker <;>
        obtain rfl := Option.some.inj hstep
      · subst hticker
        exact .yield hlock (Or.inl hrender)
      · exact .close holder .reserving hlock (Or.inl rfl) hrender
      · exact .permit holder .reserving .cutting hlock (Or.inl rfl) (Or.inr rfl)
          (by simpa using hrender) hroom
      · exact .permit holder .reserving .permitted hlock (Or.inl rfl) (Or.inl rfl)
          (by simpa using hrender) hroom
      · subst hticker
        exact .yield hlock (Or.inr hroom)
      · exact .await holder hlock (by simpa using hrender) hroom
    | awaitingRoom =>
      dsimp only at hstep
      split_ifs at hstep with hrender hroom <;> obtain rfl := Option.some.inj hstep
      · exact .close holder .awaitingRoom hlock (Or.inr rfl) hrender
      · exact .permit holder .awaitingRoom .permitted hlock (Or.inr rfl) (Or.inl rfl)
          (by simpa using hrender) hroom
    | closed =>
      dsimp only at hstep
      split at hstep <;> obtain rfl := Option.some.inj hstep
      · next err hfatal => exact .fail holder .closed err hlock (Or.inl rfl) hfatal
      · next hfatal => exact .lose holder hlock hfatal
    | gone =>
      obtain rfl := Option.some.inj hstep
      exact .report holder hlock
    | permitted =>
      dsimp only at hstep
      split at hstep <;> obtain rfl := Option.some.inj hstep
      · next err hfatal => exact .fail holder .permitted err hlock (Or.inr rfl) hfatal
      · next hfatal => exact .proceed holder hlock hfatal
    | cutting =>
      obtain rfl := Option.some.inj hstep
      exact .cut holder hlock
    | sending sealed =>
      obtain rfl := Option.some.inj hstep
      exact .send holder sealed hlock

end Writer

end RelytIngest
