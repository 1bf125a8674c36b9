import RelytIngest.Writer.Machine

/-!
# The steps of the stages

What the render stage, the gzip stage and the put stage can do in one step (`RenderStep`,
`GzipStep`, `PutStep`), with the guards under which they do it. Every step of the pipeline is one of
theirs (`stage_cases`).
-/

set_option autoImplicit false
set_option relaxedAutoImplicit false

namespace RelytIngest

variable {β : Type} {cfg : WriterConfig β} {w w' : Writer β}

namespace Writer

/-- What the render stage can do in one step. -/
inductive RenderStep (cfg : WriterConfig β) (w : Writer β) : Action β → Writer β → Prop
  | take (file : Sealed β) (rest : List (Sealed β)) (hrender : w.pipe.render = .receiving)
      (hqueue : w.pipe.queue = file :: rest) :
      RenderStep cfg w (.receive .render)
        { w with pipe := { w.pipe with render := .attempt file 0, queue := rest } }
  | drop (file : Sealed β) (failures : Nat) (progress : Progress)
      (hrender : w.pipe.render = .attempt file failures) (hfenced : w.fencedExit = some progress) :
      RenderStep cfg w (.attempt .render)
        ({ w with progress := progress }.setRender (.exited [file.fileMeta]))
  | run (file : Sealed β) (failures : Nat) (hrender : w.pipe.render = .attempt file failures)
      (hfenced : w.fencedExit = none) :
      RenderStep cfg w (.attempt .render) (w.setRender (.running file failures))
  | pass (joinError : Option String) (file : Sealed β) (failures : Nat) (out : Rendered)
      (hrender : w.pipe.render = .running file failures) (hmeta : out.fileMeta = file.fileMeta)
      (hresult : joined joinError "render" (cfg.render file.batches) = .ok (out.body, out.rows)) :
      RenderStep cfg w (.renderEnds joinError)
        ({ w with progress := w.passed failures file.fileMeta }.setRender
          (.between (if 0 < out.rows then .calibrating out else .sending out)))
  | fail (joinError : Option String) (file : Sealed β) (failures : Nat) (err : Error)
      (hrender : w.pipe.render = .running file failures)
      (hresult : joined joinError "render" (cfg.render file.batches) = .error err) :
      RenderStep cfg w (.renderEnds joinError)
        ({ w with progress := w.failing .render failures file.fileMeta err }.setRender
          (.failed file failures err))
  | giveUp (file : Sealed β) (err : Error) (hrender : w.pipe.render = .rejected file err) :
      RenderStep cfg w (.giveUp .render)
        ({ w with progress := w.rejection .render err }.setRender (.exited [file.fileMeta]))
  | calibrate (out : Rendered) (hrender : w.pipe.render = .between (.calibrating out)) :
      RenderStep cfg w .calibrate
        ({ w with st := { w.st with avgRowBytes := some ((bodyBytes out.body).length, out.rows) }
          }.setRender (.between (.sending out)))
  | lose (out : Rendered) (hrender : w.pipe.render = .between (.sending out))
      (hgzip : w.pipe.gzip.hasExited = true) :
      RenderStep cfg w (.send .render) (w.setRender (.exited [out.fileMeta]))
  | send (out : Rendered) (hrender : w.pipe.render = .between (.sending out))
      (hgzip : w.pipe.gzip.hasExited = false) (hroom : w.pipe.toGzip = []) :
      RenderStep cfg w (.send .render)
        { w with pipe := { w.pipe with render := .receiving, toGzip := [out] } }

/-- What the gzip stage can do in one step. -/
inductive GzipStep (cfg : WriterConfig β) (w : Writer β) : Action β → Writer β → Prop
  | take (file : Rendered) (rest : List Rendered) (hgzip : w.pipe.gzip = .receiving)
      (hqueue : w.pipe.toGzip = file :: rest) (hcompressed : file.fileMeta.file.compressed = true) :
      GzipStep cfg w (.receive .gzip)
        { w with pipe := { w.pipe with gzip := .attempt file 0, toGzip := rest } }
  /-- A plain file is not compressed. -/
  | skip (file : Rendered) (rest : List Rendered) (hgzip : w.pipe.gzip = .receiving)
      (hqueue : w.pipe.toGzip = file :: rest) (hplain : file.fileMeta.file.compressed = false) :
      GzipStep cfg w (.receive .gzip)
        { w with pipe := { w.pipe with
          gzip := .between ⟨file.fileMeta, bodyBytes file.body⟩, toGzip := rest } }
  | close (hgzip : w.pipe.gzip = .receiving) (hqueue : w.pipe.toGzip = [])
      (hrender : w.pipe.render.hasExited = true) :
      GzipStep cfg w (.receive .gzip) (w.setGzip (.exited []))
  | drop (file : Rendered) (failures : Nat) (progress : Progress)
      (hgzip : w.pipe.gzip = .attempt file failures) (hfenced : w.fencedExit = some progress) :
      GzipStep cfg w (.attempt .gzip)
        ({ w with progress := progress }.setGzip (.exited [file.fileMeta]))
  | run (file : Rendered) (failures : Nat) (hgzip : w.pipe.gzip = .attempt file failures)
      (hfenced : w.fencedExit = none) :
      GzipStep cfg w (.attempt .gzip) (w.setGzip (.running file failures))
  | pass (joinError : Option String) (file : Rendered) (failures : Nat) (payload : List UInt8)
      (hgzip : w.pipe.gzip = .running file failures)
      (hresult : joined joinError "gzip" (cfg.gzip file.body) = .ok payload) :
      GzipStep cfg w (.gzipEnds joinError)
        ({ w with progress := w.passed failures file.fileMeta }.setGzip
          (.between ⟨file.fileMeta, payload⟩))
  | fail (joinError : Option String) (file : Rendered) (failures : Nat) (err : Error)
      (hgzip : w.pipe.gzip = .running file failures)
      (hresult : joined joinError "gzip" (cfg.gzip file.body) = .error err) :
      GzipStep cfg w (.gzipEnds joinError)
        ({ w with progress := w.failing .gzip failures file.fileMeta err }.setGzip
          (.failed file failures err))
  | giveUp (file : Rendered) (err : Error) (hgzip : w.pipe.gzip = .rejected file err) :
      GzipStep cfg w (.giveUp .gzip)
        ({ w with progress := w.rejection .gzip err }.setGzip (.exited [file.fileMeta]))
  | lose (out : Compressed) (hgzip : w.pipe.gzip = .between out)
      (hput : w.pipe.put.hasExited = true) :
      GzipStep cfg w (.send .gzip) (w.setGzip (.exited [out.fileMeta]))
  | send (out : Compressed) (hgzip : w.pipe.gzip = .between out)
      (hput : w.pipe.put.hasExited = false) (hroom : w.pipe.toPut = []) :
      GzipStep cfg w (.send .gzip)
        { w with pipe := { w.pipe with gzip := .receiving, toPut := [out] } }

/-- What the put stage can do in one step. -/
inductive PutStep (cfg : WriterConfig β) (w : Writer β) : Action β → Writer β → Prop
  | take (file : Compressed) (rest : List Compressed) (hput : w.pipe.put = .receiving)
      (hqueue : w.pipe.toPut = file :: rest) :
      PutStep cfg w (.receive .put)
        { w with pipe := { w.pipe with put := .between (.ordering file), toPut := rest } }
  | close (hput : w.pipe.put = .receiving) (hqueue : w.pipe.toPut = [])
      (hgzip : w.pipe.gzip.hasExited = true) :
      PutStep cfg w (.receive .put) (w.setPut (.exited []))
  | dropUnordered (file : Compressed) (progress : Progress)
      (hput : w.pipe.put = .between (.ordering file)) (hfenced : w.fencedExit = some progress) :
      PutStep cfg w .order ({ w with progress := progress }.setPut (.exited [file.fileMeta]))
  | order (file : Compressed) (hput : w.pipe.put = .between (.ordering file))
      (hfenced : w.fencedExit = none)
      (horder : checkOrder w.pipe.prev file.fileMeta.file = .ok ()) :
      PutStep cfg w .order (w.setPut (.attempt file 0))
  | trip (file : Compressed) (detail : String) (hput : w.pipe.put = .between (.ordering file))
      (hfenced : w.fencedExit = none)
      (horder : checkOrder w.pipe.prev file.fileMeta.file = .error detail) :
      PutStep cfg w .order ({ w with
        health := { w.health with orderFatal := w.health.orderFatal <|> some detail }
        progress := w.progress.publishTerminal .orderViolation "pipeline" none detail
        }.setPut (.exited [file.fileMeta]))
  | drop (file : Compressed) (failures : Nat) (progress : Progress)
      (hput : w.pipe.put = .attempt file failures) (hfenced : w.fencedExit = some progress) :
      PutStep cfg w (.attempt .put)
        ({ w with progress := progress }.setPut (.exited [file.fileMeta]))
  | run (file : Compressed) (failures : Nat) (hput : w.pipe.put = .attempt file failures)
      (hfenced : w.fencedExit = none) :
      PutStep cfg w (.attempt .put) (w.setPut (.running file failures))
  | pass (trial : PutTrial) (file : Compressed) (failures : Nat)
      (hput : w.pipe.put = .running file failures) (hresult : trial.result = .ok ()) :
      PutStep cfg w (.putEnds trial) ({ w with
        progress := w.passed failures file.fileMeta
        trace := { w.trace with putReturned := w.trace.putReturned ++ [file.fileMeta] }
        }.setPut (.between (.returned file.fileMeta)))
  | fail (trial : PutTrial) (file : Compressed) (failures : Nat) (err : Error)
      (hput : w.pipe.put = .running file failures) (hresult : trial.result = .error err) :
      PutStep cfg w (.putEnds trial)
        ({ w with progress := w.failing .put failures file.fileMeta err }.setPut
          (.failed file failures err))
  | giveUp (file : Compressed) (err : Error) (hput : w.pipe.put = .rejected file err) :
      PutStep cfg w (.giveUp .put)
        ({ w with progress := w.rejection .put err }.setPut (.exited [file.fileMeta]))
  | dropReturned (m : FileMeta) (progress : Progress) (hput : w.pipe.put = .between (.returned m))
      (hfenced : w.fencedExit = some progress) :
      PutStep cfg w .confirm ({ w with progress := progress }.setPut (.exited []))
  | confirm (m : FileMeta) (hput : w.pipe.put = .between (.returned m))
      (hfenced : w.fencedExit = none) :
      PutStep cfg w .confirm (w.setPut (.between (.recording m)))
  | record (m : FileMeta) (hput : w.pipe.put = .between (.recording m)) :
      PutStep cfg w .record ({ w with
        st := w.st.recordDurable m
        trace := { w.trace with recorded := w.trace.recorded ++ [m] }
        }.setPut (.between (.announcing m)))
  | announce (m : FileMeta) (hput : w.pipe.put = .between (.announcing m)) :
      PutStep cfg w .announce ({ w with
        trace := { w.trace with
          notified := if w.health.notifierGone then w.trace.notified
            else w.trace.notified ++ [notifyRequest cfg m] }
        }.setPut (.between (.landing m)))
  | land (m : FileMeta) (hput : w.pipe.put = .between (.landing m)) :
      PutStep cfg w .land { w with
        pipe := { w.pipe with
          put := .receiving
          prev := some (m.file.epochMs, m.file.seq, m.file.endOffset) }
        progress := w.progress.land m.serialSeq }

theorem render_cases {action : Action β} (hstep : w.step cfg action = some w')
    (haction : action matches .receive .render | .attempt .render | .renderEnds _ |
      .giveUp .render | .calibrate | .send .render) : RenderStep cfg w action w' := by
  cases action with
  | receive stage =>
    obtain rfl : stage = .render := by cases stage <;> first | rfl | simp at haction
    simp only [step, receive] at hstep
    split at hstep
    · next file rest hrender hqueue =>
      exact Option.some.inj hstep ▸ .take file rest hrender hqueue
    · simp at hstep
  | attempt stage =>
    obtain rfl : stage = .render := by cases stage <;> first | rfl | simp at haction
    simp only [step, attempt] at hstep
    split at hstep
    · next file failures hrender =>
      split at hstep
      · next progress hfenced =>
        exact Option.some.inj hstep ▸ .drop file failures progress hrender hfenced
      · next hfenced => exact Option.some.inj hstep ▸ .run file failures hrender hfenced
    · simp at hstep
  | renderEnds joinError =>
    simp only [step, renderEnds] at hstep
    split at hstep
    · next file failures hrender =>
      obtain rfl := Option.some.inj hstep
      split
      · next body rows hresult =>
        exact .pass joinError file failures ⟨file.fileMeta, body, rows⟩ hrender rfl hresult
      · next err hresult => exact .fail joinError file failures err hrender hresult
    · simp at hstep
  | giveUp stage =>
    obtain rfl : stage = .render := by cases stage <;> first | rfl | simp at haction
    simp only [step, giveUp] at hstep
    split at hstep
    · next file err hrender => exact Option.some.inj hstep ▸ .giveUp file err hrender
    · simp at hstep
  | calibrate =>
    simp only [step, calibrate] at hstep
    split at hstep
    · next out hrender => exact Option.some.inj hstep ▸ .calibrate out hrender
    · simp at hstep
  | send stage =>
    obtain rfl : stage = .render := by cases stage <;> first | rfl | simp at haction
    simp only [step, send] at hstep
    split at hstep
    · next out hrender =>
      split_ifs at hstep with hgzip hroom <;> obtain rfl := Option.some.inj hstep
      · exact .lose out hrender hgzip
      · exact .send out hrender (by simpa using hgzip) hroom
    · simp at hstep
  | _ => simp at haction

theorem gzip_cases {action : Action β} (hstep : w.step cfg action = some w')
    (haction : action matches .receive .gzip | .attempt .gzip | .gzipEnds _ | .giveUp .gzip |
      .send .gzip) : GzipStep cfg w action w' := by
  cases action with
  | receive stage =>
    obtain rfl : stage = .gzip := by cases stage <;> first | rfl | simp at haction
    simp only [step, receive] at hstep
    split at hstep
    · next file rest hgzip hqueue =>
      obtain rfl := Option.some.inj hstep
      by_cases hcompressed : file.fileMeta.file.compressed = true
      · rw [if_pos hcompressed]
        exact .take file rest hgzip hqueue hcompressed
      · rw [if_neg hcompressed]
        exact .skip file rest hgzip hqueue (by simpa using hcompressed)
    · next hgzip hqueue =>
      split_ifs at hstep with hrender
      exact Option.some.inj hstep ▸ .close hgzip hqueue hrender
    · simp at hstep
  | attempt stage =>
    obtain rfl : stage = .gzip := by cases stage <;> first | rfl | simp at haction
    simp only [step, attempt] at hstep
    split at hstep
    · next file failures hgzip =>
      split at hstep
      · next progress hfenced =>
        exact Option.some.inj hstep ▸ .drop file failures progress hgzip hfenced
      · next hfenced => exact Option.some.inj hstep ▸ .run file failures hgzip hfenced
    · simp at hstep
  | gzipEnds joinError =>
    simp only [step, gzipEnds] at hstep
    split at hstep
    · next file failures hgzip =>
      obtain rfl := Option.some.inj hstep
      split
      · next payload hresult => exact .pass joinError file failures payload hgzip hresult
      · next err hresult => exact .fail joinError file failures err hgzip hresult
    · simp at hstep
  | giveUp stage =>
    obtain rfl : stage = .gzip := by cases stage <;> first | rfl | simp at haction
    simp only [step, giveUp] at hstep
    split at hstep
    · next file err hgzip => exact Option.some.inj hstep ▸ .giveUp file err hgzip
    · simp at hstep
  | send stage =>
    obtain rfl : stage = .gzip := by cases stage <;> first | rfl | simp at haction
    simp only [step, send] at hstep
    split at hstep
    · next out hgzip =>
      split_ifs at hstep with hput hroom <;> obtain rfl := Option.some.inj hstep
      · exact .lose out hgzip hput
      · exact .send out hgzip (by simpa using hput) hroom
    · simp at hstep
  | _ => simp at haction

theorem put_cases {action : Action β} (hstep : w.step cfg action = some w')
    (haction : action matches .receive .put | .attempt .put | .putEnds _ | .giveUp .put | .order |
      .confirm | .record | .announce | .land) : PutStep cfg w action w' := by
  cases action with
  | receive stage =>
    obtain rfl : stage = .put := by cases stage <;> first | rfl | simp at haction
    simp only [step, receive] at hstep
    split at hstep
    · next file rest hput hqueue => exact Option.some.inj hstep ▸ .take file rest hput hqueue
    · next hput hqueue =>
      split_ifs at hstep with hgzip
      exact Option.some.inj hstep ▸ .close hput hqueue hgzip
    · simp at hstep
  | attempt stage =>
    obtain rfl : stage = .put := by cases stage <;> first | rfl | simp at haction
    simp only [step, attempt] at hstep
    split at hstep
    · next file failures hput =>
      split at hstep
      · next progress hfenced =>
        exact Option.some.inj hstep ▸ .drop file failures progress hput hfenced
      · next hfenced => exact Option.some.inj hstep ▸ .run file failures hput hfenced
    · simp at hstep
  | putEnds trial =>
    simp only [step, putEnds] at hstep
    split at hstep
    · next file failures hput =>
      obtain rfl := Option.some.inj hstep
      split
      · next hresult => exact .pass trial file failures hput hresult
      · next err hresult => exact .fail trial file failures err hput hresult
    · simp at hstep
  | giveUp stage =>
    obtain rfl : stage = .put := by cases stage <;> first | rfl | simp at haction
    simp only [step, giveUp] at hstep
    split at hstep
    · next file err hput => exact Option.some.inj hstep ▸ .giveUp file err hput
    · simp at hstep
  | order =>
    simp only [step, order] at hstep
    split at hstep
    · next file hput =>
      split at hstep
      · next progress hfenced =>
        exact Option.some.inj hstep ▸ .dropUnordered file progress hput hfenced
      · next hfenced =>
        split at hstep
        · next horder => exact Option.some.inj hstep ▸ .order file hput hfenced horder
        · next detail horder =>
          exact Option.some.inj hstep ▸ .trip file detail hput hfenced horder
    · simp at hstep
  | confirm =>
    simp only [step, confirm] at hstep
    split at hstep
    · next m hput =>
      split at hstep
      · next progress hfenced =>
        exact Option.some.inj hstep ▸ .dropReturned m progress hput hfenced
      · next hfenced => exact Option.some.inj hstep ▸ .confirm m hput hfenced
    · simp at hstep
  | record =>
    simp only [step, record] at hstep
    split at hstep
    · next m hput => exact Option.some.inj hstep ▸ .record m hput
    · simp at hstep
  | announce =>
    simp only [step, announce] at hstep
    split at hstep
    · next m hput => exact Option.some.inj hstep ▸ .announce m hput
    · simp at hstep
  | land =>
    simp only [step, land] at hstep
    split at hstep
    · next m hput => exact Option.some.inj hstep ▸ .land m hput
    · simp at hstep
  | _ => simp at haction

/-- Every step of the pipeline is one of a stage. -/
theorem stage_cases {action : Action β} (hstep : w.step cfg action = some w')
    (hstage : action matches .receive _ | .attempt _ | .renderEnds _ | .gzipEnds _ | .putEnds _ |
      .giveUp _ | .calibrate | .send _ | .order | .confirm | .record | .announce | .land) :
    RenderStep cfg w action w' ∨ GzipStep cfg w action w' ∨ PutStep cfg w action w' := by
  cases action with
  | receive stage | attempt stage | giveUp stage =>
    cases stage with
    | render => exact Or.inl (render_cases hstep rfl)
    | gzip => exact Or.inr (Or.inl (gzip_cases hstep rfl))
    | put => exact Or.inr (Or.inr (put_cases hstep rfl))
  | send stage =>
    cases stage with
    | render => exact Or.inl (render_cases hstep rfl)
    | gzip => exact Or.inr (Or.inl (gzip_cases hstep rfl))
    | put => simp [step, send] at hstep
  | renderEnds | calibrate => exact Or.inl (render_cases hstep rfl)
  | gzipEnds => exact Or.inr (Or.inl (gzip_cases hstep rfl))
  | putEnds | order | confirm | record | announce | land =>
    exact Or.inr (Or.inr (put_cases hstep rfl))
  | _ => simp at hstage

end Writer

end RelytIngest
