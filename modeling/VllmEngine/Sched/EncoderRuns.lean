import VllmEngine.Sched.EncoderCalls

/-!
# Runs of the scheduler, seen by the encoder cache

The entry points of the scheduler, each a sequence of calls of the encoder cache
manager, and the slots of the cache over whole runs, with the encoder cache
reset at any time between the calls.

> `step_encoder`: a call of the scheduler is a sequence of calls of the manager,
> `encoder_slots_run`: in a run in which the inputs with one hash agree on their
> size, the counters of the encoder cache are right at all times.
-/

set_option linter.unusedSectionVars false

namespace VllmEngine

open EncoderRound

variable {H : Type} [DecidableEq H] {Q : MultiModalFeatureSpec → Prop}

namespace Scheduler

variable {cfg : SchedulerConfig H} {env : ScheduleEnv}

/-! ## `schedule` -/

variable {s s' : Scheduler H} {out out' : SchedulerOutput} {entry : ReqId × Int}
  {replies : FreeReplies} {ref : ReqRef} {mro : ModelRunnerOutput} {failed : List ReqId}

theorem advanceComputed_encoder (h : advanceComputed (s, out) entry = .ok (s', out')) :
    s'.encoderCacheManager = s.encoderCacheManager := by
  unfold advanceComputed at h
  simp only [Raises.bind_eq_ok, Raises.pure_eq_ok] at h
  obtain ⟨ref, -, heq⟩ := h
  obtain ⟨rfl, -⟩ := Prod.mk.inj heq
  rfl

theorem addPlaceholders_encoder (h : addPlaceholders cfg (s, out) entry = .ok (s', out')) :
    s'.encoderCacheManager = s.encoderCacheManager := by
  unfold addPlaceholders at h
  simp only [Raises.bind_eq_ok] at h
  obtain ⟨ref, -, h⟩ := h
  split at h
  · obtain ⟨rfl, -⟩ := Prod.mk.inj (Except.ok.inj h)
    rfl
  · obtain ⟨rfl, -⟩ := Prod.mk.inj (Except.ok.inj h)
    rfl

theorem updateAfterSchedule_encoder (h : s.updateAfterSchedule cfg out = .ok (s', out')) :
    s'.encoderCacheManager = s.encoderCacheManager := by
  unfold updateAfterSchedule at h
  rw [Raises.bind_eq_ok] at h
  obtain ⟨⟨s₁, out₁⟩, hadv, h⟩ := h
  have h₁ : s₁.encoderCacheManager = s.encoderCacheManager :=
    Raises.foldlM_inv (I := fun st => st.1.encoderCacheManager = s.encoderCacheManager) _ _
      (s₁, out₁) (fun _ _ _ _ ht hstep => (advanceComputed_encoder hstep).trans ht) rfl hadv
  dsimp only at h
  split at h
  · exact Raises.foldlM_inv (I := fun st => st.1.encoderCacheManager = s.encoderCacheManager) _ _
      (s', out') (fun _ _ _ _ ht hstep => (addPlaceholders_encoder hstep).trans ht) h₁ h
  · obtain ⟨rfl, -⟩ := Prod.mk.inj (Except.ok.inj h)
    exact h₁

theorem makeOutput_encoder {p : Pass} (h : s.makeOutput cfg p = .ok (s', out)) :
    s'.encoderCacheManager = s.encoderCacheManager.getFreedMmHashes.2 := by
  unfold makeOutput at h
  simp only [Raises.bind_eq_ok, Raises.pure_eq_ok] at h
  obtain ⟨newData, -, cached, -, heq⟩ := h
  obtain ⟨rfl, -⟩ := Prod.mk.inj heq
  obtain ⟨kv, hkv⟩ := takeNewBlockIds_effect cfg
    { s with prevStepScheduledReqIds := p.numScheduledTokens.keys }
  rw [hkv]

/-- **`schedule`** asks for inputs, releases and allocates them, and takes the
list of evicted entries. -/
theorem schedule_between (hs : Offered Q s)
    (hflag : s.encoderCacheManager.isEncoderDecoder = cfg.isEncoderDecoder)
    (h : s.schedule cfg env = .ok (s', out)) : Between cfg Q s s' [] := by
  unfold schedule at h
  simp only [Raises.bind_eq_ok] at h
  obtain ⟨⟨s₂, p⟩, hpasses, ⟨⟩, -, ⟨s₃, out₁⟩, hout, hafter⟩ := h
  have hstart : Between cfg Q s { s with kvCacheManager := s.kvCacheManager.newStepStarts } [] :=
    ⟨hs, hflag, Calls.refl _⟩
  unfold schedulePasses at hpasses
  simp only [Raises.bind_eq_ok] at hpasses
  obtain ⟨⟨s₁, p₁⟩, hpass, p₂, -, hwait⟩ := hpasses
  have h₁ := runningPass_rule (encoder_runningRule s) _ _ _ _ _ hstart hpass
  have h₂ : Between cfg Q s s₂ [] := waitingPass_rule (encoder_waitingRule s)
    (fun t q w hI => hI.same rfl (SameFixed.refl t)) h₁ hwait
  have ho := makeOutput_effect hout
  have hm := makeOutput_encoder hout
  have h₃ : Between cfg Q s s₃ [] := by
    refine h₂.next (h₂.offered.sameFixed fun r => by rw [ho.obj]) ?_
    rw [hm]
    exact Calls.single Issue.takeFreed
  exact h₃.same (updateAfterSchedule_encoder hafter) (updateAfterSchedule_effect hafter).fixed

/-! ## Freeing and finishing -/

theorem connectorFinished_step {b : Bool} (h : s.connectorFinished cfg replies ref = .ok (s', b)) :
    EncoderStep Q s s' := by
  unfold connectorFinished at h
  split at h
  · obtain ⟨rfl, -⟩ := Prod.mk.inj (Except.ok.inj h)
    exact EncoderStep.refl s
  · simp only [Raises.bind_eq_ok, Raises.pure_eq_ok] at h
    obtain ⟨kv, -, ⟨⟩, -, heq⟩ := h
    obtain ⟨rfl, -⟩ := Prod.mk.inj heq
    exact EncoderStep.of_eq rfl rfl

theorem freeBlocks_step (h : s.freeBlocks ref = .ok s') : EncoderStep Q s s' := by
  unfold freeBlocks at h
  simp only [Raises.bind_eq_ok, Raises.pure_eq_ok] at h
  obtain ⟨⟨⟩, -, kv, -, r, -, rfl⟩ := h
  exact EncoderStep.of_eq rfl rfl

theorem freeRequest_step {delay : Bool} (h : s.freeRequest cfg replies ref delay = .ok s') :
    EncoderStep Q s s' := by
  unfold freeRequest at h
  rw [Raises.bind_eq_ok] at h
  obtain ⟨⟨⟩, -, h⟩ := h
  rw [Raises.bind_eq_ok] at h
  obtain ⟨⟨s₁, connectorDelay⟩, hcon, h⟩ := h
  have h₁ : EncoderStep Q s (s₁.freeEncoder cfg ref) :=
    (connectorFinished_step hcon).trans (freeEncoder_step s₁ ref)
  have h₂ : EncoderStep Q s { s₁.freeEncoder cfg ref with
      finishedReqIds := if ((s₁.freeEncoder cfg ref).obj ref).requestId
          ∈ (s₁.freeEncoder cfg ref).finishedReqIds then (s₁.freeEncoder cfg ref).finishedReqIds
        else (s₁.freeEncoder cfg ref).finishedReqIds
          ++ [((s₁.freeEncoder cfg ref).obj ref).requestId] } :=
    h₁.trans (EncoderStep.of_eq rfl rfl)
  dsimp only at h
  split at h
  · obtain rfl := Except.ok.inj h
    exact h₂
  · exact h₂.trans (freeBlocks_step h)

theorem finishRequest_step {status : RequestStatus}
    (h : finishRequest cfg replies status s ref = .ok s') : EncoderStep Q s s' := by
  unfold finishRequest at h
  dsimp only at h
  refine EncoderStep.trans ?_ (freeRequest_step h)
  refine EncoderStep.trans ?_ (EncoderStep.modify _ ref fun hr => hr.of_eq rfl rfl)
  split
  · exact EncoderStep.of_eq rfl rfl
  · exact EncoderStep.refl s

theorem foldlM_step {α : Type} {f : Scheduler H → α → Except Python.Error (Scheduler H)}
    (hf : ∀ s a s', f s a = .ok s' → EncoderStep Q s s') {l : List α} (h : l.foldlM f s = .ok s') :
    EncoderStep Q s s' :=
  Raises.foldlM_inv (I := fun t => EncoderStep Q s t) l s s'
    (fun a _ t t' ht hstep => ht.trans (hf t a t' hstep)) (EncoderStep.refl s) h

theorem finishRequests_step {ids : Option (List ReqId)} {status : RequestStatus}
    (h : s.finishRequests cfg replies ids status = .ok s') : EncoderStep Q s s' := by
  unfold finishRequests at h
  rw [Raises.bind_eq_ok] at h
  obtain ⟨⟨⟩, -, h⟩ := h
  refine EncoderStep.trans ?_ (foldlM_step (fun _ _ _ => finishRequest_step) h)
  exact EncoderStep.of_eq rfl rfl

/-! ## `add_request` -/

theorem updateSession_step (hQ : Placeless Q) {u : StreamingUpdate} (hu : ∀ f ∈ u.newFeatures, Q f)
    (h : s.updateSession cfg ref u = .ok s') : EncoderStep Q s s' := by
  unfold updateSession at h
  simp only [Raises.bind_eq_ok, Raises.pure_eq_ok] at h
  obtain ⟨session, hsession, rfl⟩ := h
  have h₁ : EncoderStep Q s (s.modify ref fun _ => session) :=
    EncoderStep.modify s ref fun hr => hr.session hQ hu hsession
  split
  · exact h₁.trans (EncoderStep.of_eq rfl rfl)
  · exact h₁

theorem enqueueWaitingRequest_step (s : Scheduler H) (ref : ReqRef) :
    EncoderStep Q s (s.enqueueWaitingRequest cfg ref) := by
  unfold enqueueWaitingRequest
  split
  · exact EncoderStep.of_eq rfl rfl
  · exact EncoderStep.of_eq rfl rfl

theorem addUpdate_step (hQ : Placeless Q) {existing : ReqRef} {request : Request H}
    (hr : ∀ f ∈ request.mmFeatures, Q f) (h : s.addUpdate cfg replies existing request = .ok s') :
    EncoderStep Q s s' := by
  unfold addUpdate at h
  dsimp only at h
  split at h
  · split at h
    · cases h
    next queue hqueue =>
      obtain rfl := Except.ok.inj h
      refine EncoderStep.modify s existing fun hold => ⟨hold.features, fun queue' heq u hu => ?_⟩
      obtain rfl := Option.some.inj heq
      obtain hu | hu := List.mem_append.mp hu
      · exact hold.queued queue hqueue u hu
      · exact updateOf_offers hr (List.mem_singleton.mp hu).symm
  · split at h
    next u hu => exact updateSession_step hQ (updateOf_offers hr hu) h
    · exact finishRequests_step h

theorem addNew_step {request : Request H} (hr : request.Offers Q) :
    EncoderStep Q s (s.addNew cfg request) := by
  unfold addNew
  have hx : ((if request.resumable then { request with streamingQueue := some [] } else request :
      Request H)).Offers Q := by
    split
    · exact ⟨hr.features, fun queue heq u hu => by
        obtain rfl := Option.some.inj heq
        cases hu⟩
    · exact hr
  refine EncoderStep.trans (EncoderStep.of_same ?_ fun r hold => ?_)
    (EncoderStep.trans (enqueueWaitingRequest_step _ s.numObjs)
      (EncoderStep.of_eq rfl rfl))
  · rfl
  · show (Function.update s.obj s.numObjs _ r).Offers Q
    by_cases heq : r = s.numObjs
    · rw [heq, Function.update_self]
      exact hx
    · rw [Function.update_of_ne heq]
      exact hold

theorem addRequest_step (hQ : Placeless Q) {e : EngineCoreRequest} (he : ∀ f ∈ e.mmFeatures, Q f)
    (h : s.addRequest cfg replies e = .ok s') : EncoderStep Q s s' := by
  unfold addRequest at h
  rw [Raises.bind_eq_ok] at h
  obtain ⟨request, hrequest, h⟩ := h
  obtain ⟨hfeatures, hqueue⟩ := fromEngineCoreRequest_offers he hrequest
  split at h
  · exact addUpdate_step hQ hfeatures h
  · obtain rfl := Except.ok.inj h
    exact addNew_step ⟨hfeatures, fun queue heq => by rw [hqueue] at heq; cases heq⟩

/-! ## `update_from_output` -/

theorem freeEncoderInputs_step (s : Scheduler H) (ref : ReqRef) :
    EncoderStep Q s (s.freeEncoderInputs cfg ref) :=
  ⟨id, fun hs => Calls.freeInputs (hs ref).features [] _ _⟩

theorem handleStop_step (hQ : Placeless Q) {acc acc' : UpdateAcc} {before : RequestStatus}
    (h : s.handleStop cfg mro acc ref before = .ok (s', acc')) (hs : Offered Q s) :
    EncoderStep Q s s' := by
  unfold handleStop at h
  simp only [Raises.bind_eq_ok] at h
  obtain ⟨⟨s₁, finished⟩, hstopped, s₂, hfree, heq⟩ := h
  obtain ⟨rfl, -⟩ := Prod.mk.inj (Except.ok.inj heq)
  have h₁ : EncoderStep Q s s₁ := by
    unfold handleStoppedRequest at hstopped
    split at hstopped
    · obtain ⟨rfl, -⟩ := Prod.mk.inj (Except.ok.inj hstopped)
      exact EncoderStep.refl s
    · split at hstopped
      next update rest hqueue =>
        have hpop : EncoderStep Q s (s.modify ref fun r => { r with streamingQueue := some rest }) :=
          EncoderStep.modify s ref fun hr => hr.pop hqueue
        dsimp only at hstopped
        cases update with
        | none =>
          obtain ⟨rfl, -⟩ := Prod.mk.inj (Except.ok.inj hstopped)
          exact hpop
        | some u =>
          simp only [Raises.bind_eq_ok, Raises.pure_eq_ok] at hstopped
          obtain ⟨s₃, hsession, heq⟩ := hstopped
          obtain ⟨rfl, -⟩ := Prod.mk.inj heq
          have hu : ∀ f ∈ u.newFeatures, Q f :=
            (hs ref).queued _ hqueue u List.mem_cons_self
          exact (hpop.trans (updateSession_step hQ hu hsession)).trans
            (enqueueWaitingRequest_step s₃ ref)
      · obtain ⟨rfl, -⟩ := Prod.mk.inj (Except.ok.inj hstopped)
        have hwait : EncoderStep Q s
            (s.modify ref fun r => { r with status := .waitingForStreamingReq }) :=
          EncoderStep.modify s ref fun hr => hr.of_eq rfl rfl
        refine EncoderStep.trans ?_ (enqueueWaitingRequest_step _ ref)
        exact hwait.trans (EncoderStep.of_eq rfl rfl)
  dsimp only at hfree
  split at hfree
  · exact h₁.trans (freeRequest_step hfree)
  · obtain rfl := Except.ok.inj hfree
    exact h₁

theorem updateRequest_step (hQ : Placeless Q) {acc acc' : UpdateAcc} (hs : Offered Q s)
    (h : s.updateRequest cfg out mro acc ref = .ok (s', acc')) : EncoderStep Q s s' := by
  unfold updateRequest at h
  have hreject : EncoderStep Q s (s.modify ref (rejectDrafts out mro)) :=
    EncoderStep.modify s ref fun hr => hr.of_lasting (rejectDrafts_lasting out mro _)
  -- the state before the output is received
  obtain ⟨s₁, hs₁⟩ : ∃ s₁, s₁ = (if ((s.modify ref (rejectDrafts out mro)).obj ref).hasEncoderInputs
      then (s.modify ref (rejectDrafts out mro)).freeEncoderInputs cfg ref
      else s.modify ref (rejectDrafts out mro)) := ⟨_, rfl⟩
  have h₁ : EncoderStep Q s s₁ := by
    rw [hs₁]
    split
    · exact hreject.trans (freeEncoderInputs_step _ ref)
    · exact hreject
  dsimp only at h
  rw [← hs₁] at h
  simp only [Raises.bind_eq_ok] at h
  obtain ⟨⟨r₁, toks, stopped₁⟩, hreceive, s₃, hcache, ⟨s₄, acc₁⟩, hstop, heq⟩ := h
  obtain ⟨kv, rfl⟩ := cacheNewTokens_effect hcache
  obtain ⟨rfl, -⟩ := Prod.mk.inj (Except.ok.inj heq)
  have h₂ : EncoderStep Q s (s₁.modify ref fun _ => r₁) :=
    h₁.trans (EncoderStep.modify s₁ ref fun hr => hr.of_lasting (receiveOutput_lasting hreceive))
  have h₃ : EncoderStep Q s { s₁.modify ref (fun _ => r₁) with kvCacheManager := kv } :=
    h₂.trans (EncoderStep.of_eq rfl rfl)
  have h₄ : EncoderStep Q s
      (Scheduler.modify { s₁.modify ref (fun _ => r₁) with kvCacheManager := kv } ref
        fun _ => (checkGrammar mro r₁ toks stopped₁).1) := by
    refine h₃.trans (EncoderStep.modify _ ref fun hr => ?_)
    have hr : (((s₁.modify ref fun _ => r₁).obj ref)).Offers Q := hr
    rw [modify_obj_self] at hr
    exact hr.of_lasting (checkGrammar_lasting mro r₁ toks stopped₁)
  dsimp only at hstop
  split at hstop
  · exact h₄.trans (handleStop_step hQ hstop (h₄.offered hs))
  · obtain ⟨rfl, -⟩ := Prod.mk.inj (Except.ok.inj hstop)
    exact h₄

theorem updateEntry_step (hQ : Placeless Q) {st st' : Scheduler H × UpdateAcc} (hs : Offered Q st.1)
    (h : updateEntry cfg out mro failed st entry = .ok st') : EncoderStep Q st.1 st'.1 := by
  unfold updateEntry at h
  rw [Raises.bind_eq_ok] at h
  obtain ⟨⟨⟩, -, h⟩ := h
  split at h
  · obtain rfl := Except.ok.inj h
    exact EncoderStep.refl _
  · split at h
    · obtain rfl := Except.ok.inj h
      exact EncoderStep.refl _
    · split at h
      · obtain rfl := Except.ok.inj h
        exact EncoderStep.refl _
      · exact updateRequest_step hQ hs h

theorem scanRequest_encoder {invalid : List BlockId} {num : Dict ReqId Int} {evict : Bool}
    {st st' : Scheduler H × InvalidScan} (h : scanRequest cfg invalid num evict st ref = .ok st') :
    st'.1.encoderCacheManager = st.1.encoderCacheManager := by
  unfold scanRequest at h
  dsimp only at h
  split at h
  · split at h
    · obtain rfl := Except.ok.inj h
      rfl
    · obtain rfl := Except.ok.inj h
      rfl
  · cases h

theorem updateRequestsWithInvalidBlocks_encoder {refs : List ReqRef} {invalid : List BlockId}
    {num : Dict ReqId Int} {evict : Bool} {scan : InvalidScan}
    (h : s.updateRequestsWithInvalidBlocks cfg refs invalid num evict = .ok (s', scan)) :
    s'.encoderCacheManager = s.encoderCacheManager := by
  unfold updateRequestsWithInvalidBlocks at h
  exact Raises.foldlM_inv (I := fun st => st.1.encoderCacheManager = s.encoderCacheManager) refs _
    (s', scan) (fun _ _ _ _ ht hstep => (scanRequest_encoder hstep).trans ht) rfl h

theorem reportedFailures_encoder (h : s.reportedFailures cfg out mro = .ok (s', failed)) :
    s'.encoderCacheManager = s.encoderCacheManager := by
  unfold reportedFailures at h
  split at h
  · obtain ⟨rfl, -⟩ := Prod.mk.inj (Except.ok.inj h)
    rfl
  · split at h
    · unfold handleInvalidBlocks at h
      simp only [Raises.bind_eq_ok] at h
      obtain ⟨⟨s₁, scan₁⟩, h₁, ⟨s₂, scan₂⟩, h₂, h⟩ := h
      have hscan : s₂.encoderCacheManager = s.encoderCacheManager :=
        (updateRequestsWithInvalidBlocks_encoder h₂).trans
          (updateRequestsWithInvalidBlocks_encoder h₁)
      dsimp only at h
      split at h
      · obtain ⟨rfl, -⟩ := Prod.mk.inj (Except.ok.inj h)
        exact hscan
      · rw [Raises.bind_eq_ok] at h
        obtain ⟨s₃, hevict, h⟩ := h
        have hevicted : s₃.encoderCacheManager = s₂.encoderCacheManager := by
          unfold evictInvalid at hevict
          split at hevict
          · simp only [Raises.bind_eq_ok, Raises.pure_eq_ok] at hevict
            obtain ⟨kv, -, rfl⟩ := hevict
            rfl
          · obtain rfl := Except.ok.inj hevict
            rfl
        split at h
        · obtain ⟨rfl, -⟩ := Prod.mk.inj (Except.ok.inj h)
          exact hevicted.trans hscan
        · obtain ⟨rfl, -⟩ := Prod.mk.inj (Except.ok.inj h)
          exact hevicted.trans hscan
    · obtain ⟨rfl, -⟩ := Prod.mk.inj (Except.ok.inj h)
      rfl

theorem finishRecving_step {reqId : ReqId} (h : s.finishRecving reqId = .ok s') :
    EncoderStep Q s s' := by
  unfold finishRecving at h
  simp only [Raises.bind_eq_ok] at h
  obtain ⟨⟨⟩, -, ref, -, h⟩ := h
  split at h
  · obtain rfl := Except.ok.inj h
    exact EncoderStep.of_eq rfl rfl
  · rw [Raises.bind_eq_ok] at h
    obtain ⟨⟨⟩, -, h⟩ := h
    exact freeBlocks_step h

theorem finishSending_step {reqId : ReqId} (h : s.finishSending reqId = .ok s') :
    EncoderStep Q s s' := by
  unfold finishSending at h
  simp only [Raises.bind_eq_ok] at h
  obtain ⟨⟨⟩, -, ref, -, h⟩ := h
  exact freeBlocks_step h

theorem updateFromKvXferFinished_step (h : s.updateFromKvXferFinished mro = .ok s') :
    EncoderStep Q s s' := by
  unfold updateFromKvXferFinished at h
  split at h
  · obtain rfl := Except.ok.inj h
    exact EncoderStep.refl s
  · rw [Raises.bind_eq_ok] at h
    obtain ⟨s₁, h₁, h₂⟩ := h
    exact (foldlM_step (fun _ _ _ => finishRecving_step) h₁).trans
      (foldlM_step (fun _ _ _ => finishSending_step) h₂)

theorem failRequests_step {outs : List EngineCoreOutput}
    (h : s.failRequests cfg mro failed = .ok (s', outs)) : EncoderStep Q s s' := by
  unfold failRequests at h
  split at h
  · simp only [Raises.bind_eq_ok, Raises.pure_eq_ok] at h
    obtain ⟨refs, -, s₁, h₁, heq⟩ := h
    obtain ⟨rfl, -⟩ := Prod.mk.inj heq
    exact finishRequests_step h₁
  · obtain ⟨rfl, -⟩ := Prod.mk.inj (Except.ok.inj h)
    exact EncoderStep.refl s

/-- **`update_from_output`** only releases inputs. -/
theorem updateFromOutput_step (hQ : Placeless Q) {outs : List EngineCoreOutput} (hs : Offered Q s)
    (h : s.updateFromOutput cfg out mro = .ok (s', outs)) : EncoderStep Q s s' := by
  unfold updateFromOutput at h
  simp only [Raises.bind_eq_ok, Raises.pure_eq_ok] at h
  obtain ⟨⟨s₁, failed⟩, hfailures, ⟨s₂, acc⟩, hloop, ⟨s₃, failures⟩, hfail, s₄, hxfer, heq⟩ := h
  obtain ⟨rfl, -⟩ := Prod.mk.inj heq
  have h₁ : EncoderStep Q s s₁ := EncoderStep.of_same (reportedFailures_encoder hfailures)
    fun r hr => hr.of_stopView ((reportedFailures_rewound hfailures).stopView r)
  have h₂ : EncoderStep Q s s₂ :=
    Raises.foldlM_inv (I := fun st => EncoderStep Q s st.1) _ _ (s₂, acc)
      (fun _ _ _ _ ht hstep => ht.trans (updateEntry_step hQ (ht.offered hs) hstep)) h₁ hloop
  have h₃ : EncoderStep Q s (s₂.removeStopped cfg acc) := h₂.trans (EncoderStep.of_eq rfl rfl)
  exact (h₃.trans (failRequests_step hfail)).trans (updateFromKvXferFinished_step hxfer)

/-! ## The other entry points -/

theorem updateDraftTokenIds_step {validate : ReqId → List Token → List Token}
    (drafts : List (ReqId × List Token)) :
    ∀ s : Scheduler H, EncoderStep Q s (s.updateDraftTokenIds validate drafts) := by
  unfold updateDraftTokenIds
  induction drafts with
  | nil => intro s; exact EncoderStep.refl s
  | cons d ds ih =>
    intro s
    rw [List.foldl_cons]
    refine EncoderStep.trans ?_ (ih _)
    unfold updateDraft
    split
    · exact EncoderStep.refl s
    · dsimp only
      split
      · exact EncoderStep.refl s
      · split
        · exact EncoderStep.modify s _ fun hr => hr.of_eq rfl rfl
        · exact EncoderStep.modify s _ fun hr => hr.of_eq rfl rfl

theorem preemptAll_step :
    ∀ (bound : Nat) (s s' : Scheduler H), preemptAll cfg bound s = .ok s' → EncoderStep Q s s' := by
  intro bound
  induction bound with
  | zero =>
    intro s s' h
    obtain rfl := Except.ok.inj h
    exact EncoderStep.refl s
  | succ bound ih =>
    intro s s' h
    rw [preemptAll] at h
    split at h
    · obtain rfl := Except.ok.inj h
      exact EncoderStep.refl s
    next ref _ =>
      rw [Raises.bind_eq_ok] at h
      obtain ⟨s₁, hpre, h⟩ := h
      have hpop : EncoderStep Q s { s with running := s.running.dropLast } :=
        EncoderStep.of_eq rfl rfl
      refine (hpop.trans (preemptRequest_step hpre)).trans ?_
      exact (EncoderStep.modify s₁ ref fun hr => hr.of_eq rfl rfl).trans (ih _ s' h)

theorem resetPrefixCache_step {reset b : Bool} (h : s.resetPrefixCache cfg reset = .ok (s', b)) :
    EncoderStep Q s s' := by
  unfold resetPrefixCache at h
  rw [Raises.bind_eq_ok] at h
  obtain ⟨s₁, h₁, h⟩ := h
  have hstep : EncoderStep Q s s₁ := by
    split at h₁
    · exact preemptAll_step _ _ _ h₁
    · obtain rfl := Except.ok.inj h₁
      exact EncoderStep.refl s
  have hclear : EncoderStep Q s₁
      (if reset = true then { s₁ with prevStepScheduledReqIds := [] } else s₁) := by
    split
    · exact EncoderStep.of_eq rfl rfl
    · exact EncoderStep.refl s₁
  generalize (if reset = true then ({ s₁ with prevStepScheduledReqIds := [] } : Scheduler H)
    else s₁) = t at h hclear
  dsimp only at h
  split at h
  · rw [Raises.bind_eq_ok] at h
    obtain ⟨_, hthrow, _⟩ := h
    exact absurd hthrow Raises.throw_ne_ok
  · obtain ⟨rfl, -⟩ := Prod.mk.inj (Except.ok.inj h)
    exact (hstep.trans hclear).trans (EncoderStep.of_eq rfl rfl)

end Scheduler

/-! ## Runs -/

/-- A call of the scheduler, or a reset of the encoder cache. -/
inductive EncoderOp
  | call (op : SchedOp)
  | resetEncoderCache

/-- One call; `reset_encoder_cache` resets the manager and nothing else. -/
def EncoderOp.step (cfg : SchedulerConfig H) (e : Engine H) :
    EncoderOp → Except Python.Error (Engine H)
  | .call op => Engine.step cfg e op
  | .resetEncoderCache => .ok { e with scheduler := { e.scheduler with
      encoderCacheManager := e.scheduler.encoderCacheManager.reset } }

/-- Every feature that the call brings has `Q`. -/
def EncoderOp.Brings (Q : MultiModalFeatureSpec → Prop) : EncoderOp → Prop
  | .call (.addRequest req _) => ∀ f ∈ req.mmFeatures, Q f
  | _ => True

/-- **A call** of the scheduler is a sequence of calls of the manager. -/
theorem step_encoder (hQ : Placeless Q) {cfg : SchedulerConfig H} {e e' : Engine H}
    {op : SchedOp} (hbrings : (EncoderOp.call op).Brings Q)
    (hs : Scheduler.Offered Q e.scheduler)
    (hflag : e.scheduler.encoderCacheManager.isEncoderDecoder = cfg.isEncoderDecoder)
    (h : Engine.step cfg e op = .ok e') :
    Scheduler.Between cfg Q e.scheduler e'.scheduler [] := by
  have hstart : Scheduler.Between cfg Q e.scheduler e.scheduler [] := ⟨hs, hflag, Calls.refl _⟩
  have hof : ∀ s, Scheduler.EncoderStep Q e.scheduler s →
      Scheduler.Between cfg Q e.scheduler s [] :=
    fun s hstep => hstart.next (hstep.offered hs) (hstep.calls hs)
  cases op with
  | addRequest req replies =>
    simp only [Engine.step, Raises.bind_eq_ok, Raises.pure_eq_ok] at h
    obtain ⟨s, hs', rfl⟩ := h
    exact hof s (Scheduler.addRequest_step hQ hbrings hs')
  | schedule env =>
    simp only [Engine.step, Raises.bind_eq_ok, Raises.pure_eq_ok] at h
    obtain ⟨⟨s, out⟩, hs', rfl⟩ := h
    exact Scheduler.schedule_between hs hflag hs'
  | updateFromOutput mro =>
    rw [Engine.step] at h
    cases hq : e.inFlight with
    | nil => rw [hq] at h; cases h
    | cons out rest =>
      rw [hq] at h
      simp only [Raises.bind_eq_ok, Raises.pure_eq_ok] at h
      obtain ⟨⟨s, outs⟩, hs', rfl⟩ := h
      exact hof s (Scheduler.updateFromOutput_step hQ hs hs')
  | finishRequests ids st replies =>
    simp only [Engine.step, Raises.bind_eq_ok, Raises.pure_eq_ok] at h
    obtain ⟨s, hs', rfl⟩ := h
    exact hof s (Scheduler.finishRequests_step hs')
  | updateDraftTokenIds drafts validate =>
    obtain rfl := Except.ok.inj h
    exact hof _ (Scheduler.updateDraftTokenIds_step drafts e.scheduler)
  | updateDraftTokenIdsInOutput drafts validate =>
    rw [Engine.step] at h
    split at h
    · cases h
    · obtain rfl := Except.ok.inj h
      exact hstart
  | setPauseState st =>
    obtain rfl := Except.ok.inj h
    exact hof _ (Scheduler.EncoderStep.of_eq rfl rfl)
  | resetPrefixCache reset =>
    simp only [Engine.step, Raises.bind_eq_ok, Raises.pure_eq_ok] at h
    obtain ⟨⟨s, b⟩, hs', rfl⟩ := h
    exact hof s (Scheduler.resetPrefixCache_step hs')

/-- What holds of the encoder cache at the end of a run: its manager was reached
by calls from a new one, since the last reset. -/
structure EncoderReached (cfg : SchedulerConfig H) (Q : MultiModalFeatureSpec → Prop)
    (e : Engine H) : Prop where
  offered : Scheduler.Offered Q e.scheduler
  flag : e.scheduler.encoderCacheManager.isEncoderDecoder = cfg.isEncoderDecoder
  capacity : e.scheduler.encoderCacheManager.cacheSize = cfg.encoderCacheSize
  calls : Calls (Request.Featured Q (H := H))
    ⟨EncoderCacheManager.init cfg.isEncoderDecoder cfg.encoderCacheSize, []⟩
    ⟨e.scheduler.encoderCacheManager, []⟩

theorem init_encoderReached {cfg : SchedulerConfig H} {specs : List KVCacheSpec} {numBlocks : Nat}
    {enableCaching : Bool} {e : Engine H}
    (h : Engine.init cfg specs numBlocks enableCaching = .ok e) : EncoderReached cfg Q e := by
  unfold Engine.init Scheduler.init at h
  simp only [Raises.bind_eq_ok, Raises.pure_eq_ok] at h
  obtain ⟨s, ⟨kv, -, rfl⟩, rfl⟩ := h
  refine ⟨fun r => ⟨fun f hf => ?_, fun queue hq => ?_⟩, rfl, rfl, Calls.refl _⟩
  · cases hf
  · cases hq

/-- One call keeps the encoder cache reached by calls. -/
theorem EncoderReached.step (hQ : Placeless Q) {cfg : SchedulerConfig H} {e e' : Engine H}
    {op : EncoderOp} (he : EncoderReached cfg Q e) (hbrings : op.Brings Q)
    (h : op.step cfg e = .ok e') : EncoderReached cfg Q e' := by
  cases op with
  | call op =>
    have hb := step_encoder hQ hbrings he.offered he.flag h
    obtain ⟨es, hes⟩ := hb.calls
    exact ⟨hb.offered, hb.flag, hes.cacheSize.trans he.capacity, he.calls.trans hb.calls⟩
  | resetEncoderCache =>
    obtain rfl := Except.ok.inj h
    refine ⟨he.offered, he.flag, he.capacity, ?_⟩
    show Calls _ _ ⟨e.scheduler.encoderCacheManager.reset, []⟩
    rw [EncoderCacheManager.reset_eq_init, he.flag, he.capacity]
    exact Calls.refl _

/-- **Every run** reaches its encoder cache by calls of a round. -/
theorem run_encoderReached (hQ : Placeless Q) {cfg : SchedulerConfig H} {e₀ e : Engine H}
    {ops : List EncoderOp} (h₀ : EncoderReached cfg Q e₀) (hbrings : ∀ op ∈ ops, op.Brings Q)
    (h : Run.exec (fun e op => EncoderOp.step cfg e op) e₀ ops = .ok e) :
    EncoderReached cfg Q e := by
  have hkeeps : ∀ e op e', EncoderReached cfg Q e → EncoderOp.Brings Q op →
      EncoderOp.step cfg e op = .ok e' → EncoderReached cfg Q e' :=
    fun e op e' hI hg hstep => hI.step hQ hg hstep
  refine Run.exec_inv hkeeps ops e₀ e h₀ ?_ h
  exact (Run.Guarded.and_mem ops e₀ hbrings (Run.Guarded.of_forall (fun _ _ => trivial) ops e₀)).mono
    fun _ _ hg => hg.1

/-! ### The slots -/

/-- The size of a feature's embeddings is the one that its hash stands for. -/
def HasSize (size : String → Nat) (f : MultiModalFeatureSpec) : Prop :=
  f.mmPosition.getNumEmbeds = size f.identifier

theorem hasSize_placeless (size : String → Nat) : Placeless (HasSize size) :=
  ⟨fun _ _ hf => hf⟩

/-- **The slots of the encoder cache.** The scheduler only makes calls of a
round, and after any calls of a round the slots are in order, if the inputs
with one hash have one size. -/
theorem encoder_slots_run {cfg : SchedulerConfig H} {specs : List KVCacheSpec} {numBlocks : Nat}
    {enableCaching : Bool} {e₀ : Engine H} {ops : List EncoderOp} {size : String → Nat}
    (hcfg : cfg.isEncoderDecoder = false)
    (hinit : Engine.init cfg specs numBlocks enableCaching = .ok e₀)
    (hsize : ∀ op ∈ ops, op.Brings (HasSize size)) :
    (∀ e, Run.exec (fun e op => EncoderOp.step cfg e op) e₀ ops = .ok e →
      Calls (Request.Featured (HasSize size) (H := H))
        ⟨EncoderCacheManager.init false cfg.encoderCacheSize, []⟩
        ⟨e.scheduler.encoderCacheManager, []⟩) ∧
    ∀ t, Calls (Request.Featured (HasSize size) (H := H))
        ⟨EncoderCacheManager.init false cfg.encoderCacheSize, []⟩ t →
      t.manager.SlotsInOrder H size := by
  refine ⟨fun e hrun => ?_, fun t ht => ?_⟩
  · have hreached := run_encoderReached (hasSize_placeless size) (init_encoderReached hinit) hsize
      hrun
    rw [← hcfg]
    exact hreached.calls
  · obtain ⟨es, hes⟩ := ht
    have hkept : Kept size cfg.encoderCacheSize t := Issued.kept hes
    exact hkept.accounted.slotsInOrder hkept.nonneg

/-! ### Two sizes of one hash -/

/-- A prompt that starts with the picture `"x"`. -/
def picturePrompt (requestId : ReqId) (toks : List Token) (numEmbeds : Nat) : EngineCoreRequest :=
  { plainPrompt requestId toks with mmFeatures := [⟨"x", ⟨0, numEmbeds, none⟩⟩] }

/-- Two requests whose pictures have one hash, finished in the order of their
arrival. -/
def pictureOps (small large : Nat) : List EncoderOp :=
  [.call (addPrompt (picturePrompt "a" [1, 2] small)),
    .call (addPrompt (picturePrompt "b" [1, 1, 1, 1, 1, 1, 1, 1] large)),
    .call (.schedule quietEnv),
    .call (.finishRequests (some ["a"]) .finishedAborted fun _ => false),
    .call (.finishRequests (some ["b"]) .finishedAborted fun _ => false)]

/-- The manager after a run of the small engine. -/
def pictureRun (ops : List EncoderOp) : Except Python.Error (Engine Digest) := do
  let e ← Engine.init smallConfig [fullSpec 4 1] 9 true
  Run.exec (fun e op => EncoderOp.step smallConfig e op) e ops

theorem pictureRun_counters : (pictureRun (pictureOps 2 8)).map (fun e =>
    (e.scheduler.encoderCacheManager.numFreeableSlots, e.scheduler.encoderCacheManager.cacheSize))
      = .ok (14, 8) := by
  decide +kernel

/-- With two sizes the entry gives back more slots than it took. -/
theorem two_sizes_overflow :
    ¬ ∀ (cfg : SchedulerConfig Digest) (specs : List KVCacheSpec) (numBlocks : Nat)
      (enableCaching : Bool) (e₀ e : Engine Digest) (ops : List EncoderOp),
      cfg.isEncoderDecoder = false → Engine.init cfg specs numBlocks enableCaching = .ok e₀ →
      Run.exec (fun e op => EncoderOp.step cfg e op) e₀ ops = .ok e →
      e.scheduler.encoderCacheManager.numFreeableSlots
        ≤ e.scheduler.encoderCacheManager.cacheSize := by
  intro h
  have hcounters := pictureRun_counters
  unfold pictureRun at hcounters
  cases hinit : Engine.init smallConfig [fullSpec 4 1] 9 true with
  | error err => rw [hinit] at hcounters; cases hcounters
  | ok e₀ =>
    rw [hinit, Raises.ok_bind] at hcounters
    cases hrun : Run.exec (fun e op => EncoderOp.step smallConfig e op) e₀ (pictureOps 2 8) with
    | error err => rw [hrun] at hcounters; cases hcounters
    | ok e =>
      rw [hrun] at hcounters
      obtain ⟨hfreeable, hsize⟩ := Prod.mk.inj (Except.ok.inj hcounters)
      have hle := h _ _ _ _ e₀ e _ rfl hinit hrun
      rw [hfreeable, hsize] at hle
      omega

theorem pictureRun_inOrder : ∃ e : Engine Digest, pictureRun (pictureOps 2 2) = .ok e ∧
    e.scheduler.encoderCacheManager.SlotsInOrder Digest fun _ => 2 := by
  obtain ⟨e₀, hinit⟩ := Raises.exists_of_isOk
    (x := Engine.init smallConfig [fullSpec 4 1] 9 true) (by decide +kernel)
  obtain ⟨e, hrun⟩ := Raises.exists_of_isOk (x := pictureRun (pictureOps 2 2)) (by decide +kernel)
  have hsize : ∀ op ∈ pictureOps 2 2, op.Brings (HasSize fun _ => 2) := by
    intro op hop
    simp only [pictureOps, List.mem_cons, List.not_mem_nil, or_false] at hop
    obtain rfl | rfl | rfl | rfl | rfl := hop
    · intro f hf
      obtain rfl := List.mem_singleton.mp hf
      rfl
    · intro f hf
      obtain rfl := List.mem_singleton.mp hf
      rfl
    · trivial
    · trivial
    · trivial
  obtain ⟨hcalls, horder⟩ := encoder_slots_run rfl hinit hsize
  refine ⟨e, hrun, horder _ (hcalls e ?_)⟩
  unfold pictureRun at hrun
  rw [hinit, Raises.ok_bind] at hrun
  exact hrun

end VllmEngine
