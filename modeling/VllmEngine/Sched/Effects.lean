import VllmEngine.Sched.Schedule

/-!
# What the steps of the two passes do

One description for each step that the passes are made of: which objects,
queues and local variables it changes, and how. The encoder cache is left out of
these descriptions.

What `schedule` never changes of a request is its `fixed` part.
-/

set_option linter.unusedSectionVars false

namespace VllmEngine

open List

variable {H : Type} [DecidableEq H]

/-- A request with the fields blanked that `schedule` assigns. -/
def Request.fixed (r : Request H) : Request H :=
  { r with status := .waiting
           numComputedTokens := 0
           specTokenIds := []
           numPreemptions := 0
           isPrefillChunk := false
           numOutputPlaceholders := 0 }

/-- The ids of the requests in an output. -/
def SchedulerOutput.reqIds (out : SchedulerOutput) : List ReqId :=
  out.scheduledNewReqs.map (·.reqId) ++ out.scheduledCachedReqs.reqIds

namespace Scheduler

variable {cfg : SchedulerConfig H} {env : ScheduleEnv}

/-- Two schedulers whose requests differ in what `schedule` assigns only. -/
def SameFixed (s s' : Scheduler H) : Prop := ∀ r, (s'.obj r).fixed = (s.obj r).fixed

theorem SameFixed.refl (s : Scheduler H) : SameFixed s s := fun _ => rfl

variable {s s' s'' : Scheduler H} {ref victim : ReqRef} {p p' : Pass} {plan : EncoderPlan}
  {c : ComputedTokens} {out out' : SchedulerOutput}

theorem SameFixed.trans (h : SameFixed s s') (h' : SameFixed s' s'') :
    SameFixed s s'' := fun r => (h' r).trans (h r)

theorem SameFixed.of_update {x : Request H} (h : s'.obj = Function.update s.obj ref x)
    (hx : x.fixed = (s.obj ref).fixed) : SameFixed s s' := by
  intro r
  rw [h]
  by_cases hr : r = ref
  · rw [hr, Function.update_self, hx]
  · rw [Function.update_of_ne hr]

/-- The queues and the requests that are known. -/
structure SameQueues (s s' : Scheduler H) : Prop where
  numObjs : s'.numObjs = s.numObjs
  requests : s'.requests = s.requests
  waiting : s'.waiting = s.waiting
  skippedWaiting : s'.skippedWaiting = s.skippedWaiting
  running : s'.running = s.running
  prevStep : s'.prevStepScheduledReqIds = s.prevStepScheduledReqIds
  pauseState : s'.pauseState = s.pauseState

theorem SameQueues.refl (s : Scheduler H) : SameQueues s s := ⟨rfl, rfl, rfl, rfl, rfl, rfl, rfl⟩

theorem SameQueues.trans (h : SameQueues s s') (h' : SameQueues s' s'') : SameQueues s s'' :=
  ⟨h'.numObjs.trans h.numObjs, h'.requests.trans h.requests, h'.waiting.trans h.waiting,
    h'.skippedWaiting.trans h.skippedWaiting, h'.running.trans h.running,
    h'.prevStep.trans h.prevStep, h'.pauseState.trans h.pauseState⟩

theorem SameQueues.queue (h : SameQueues s s') (q : WaitingQueue) : s'.queue q = s.queue q := by
  cases q with
  | waiting => exact h.waiting
  | skippedWaiting => exact h.skippedWaiting

/-- Everything but the objects, the blocks and the encoder cache. -/
structure SameFrame (s s' : Scheduler H) : Prop extends SameQueues s s' where
  finishedReqIds : s'.finishedReqIds = s.finishedReqIds

theorem SameFrame.refl (s : Scheduler H) : SameFrame s s := ⟨SameQueues.refl s, rfl⟩

theorem SameFrame.trans (h : SameFrame s s') (h' : SameFrame s' s'') : SameFrame s s'' :=
  ⟨h.toSameQueues.trans h'.toSameQueues, h'.finishedReqIds.trans h.finishedReqIds⟩

/-- Only the encoder cache differs. -/
structure OnlyEncoder (s s' : Scheduler H) : Prop where
  queues : SameFrame s s'
  obj : s'.obj = s.obj
  kv : s'.kvCacheManager = s.kvCacheManager

theorem OnlyEncoder.refl (s : Scheduler H) : OnlyEncoder s s := ⟨SameFrame.refl s, rfl, rfl⟩

theorem OnlyEncoder.trans (h : OnlyEncoder s s') (h' : OnlyEncoder s' s'') :
    OnlyEncoder s s'' := ⟨h.queues.trans h'.queues, h'.obj.trans h.obj, h'.kv.trans h.kv⟩

theorem OnlyEncoder.of_manager (s : Scheduler H) (m : EncoderCacheManager) :
    OnlyEncoder s { s with encoderCacheManager := m } :=
  ⟨⟨⟨rfl, rfl, rfl, rfl, rfl, rfl, rfl⟩, rfl⟩, rfl, rfl⟩

/-! ## Encoder inputs -/

theorem allocateEncoderInputs_effect {inputs : List Nat}
    (h : s.allocateEncoderInputs ref inputs = .ok s') : OnlyEncoder s s' := by
  unfold allocateEncoderInputs at h
  simp only [Raises.bind_eq_ok, Raises.pure_eq_ok] at h
  obtain ⟨m, -, rfl⟩ := h
  exact OnlyEncoder.of_manager s m

/-- The local variables other than those of the encoder inputs. -/
structure SamePass (p p' : Pass) : Prop where
  scheduledNewReqs : p'.scheduledNewReqs = p.scheduledNewReqs
  scheduledResumedReqs : p'.scheduledResumedReqs = p.scheduledResumedReqs
  scheduledRunningReqs : p'.scheduledRunningReqs = p.scheduledRunningReqs
  preemptedReqs : p'.preemptedReqs = p.preemptedReqs
  reqToNewBlocks : p'.reqToNewBlocks = p.reqToNewBlocks
  numScheduledTokens : p'.numScheduledTokens = p.numScheduledTokens
  tokenBudget : p'.tokenBudget = p.tokenBudget
  scheduledSpecDecodeTokens : p'.scheduledSpecDecodeTokens = p.scheduledSpecDecodeTokens
  scheduledLoras : p'.scheduledLoras = p.scheduledLoras
  stepSkippedWaiting : p'.stepSkippedWaiting = p.stepSkippedWaiting
  reqIndex : p'.reqIndex = p.reqIndex
  revoked : p'.revoked = p.revoked

theorem SamePass.refl (p : Pass) : SamePass p p :=
  ⟨rfl, rfl, rfl, rfl, rfl, rfl, rfl, rfl, rfl, rfl, rfl, rfl⟩

theorem commitEncoderInputs_effect (h : s.commitEncoderInputs p ref plan = .ok (s', p')) :
    OnlyEncoder s s' ∧ SamePass p p' := by
  unfold commitEncoderInputs at h
  split at h
  · simp only [Raises.bind_eq_ok, Raises.pure_eq_ok] at h
    obtain ⟨s₁, h₁, heq⟩ := h
    obtain ⟨rfl, rfl⟩ := Prod.mk.inj heq
    exact ⟨allocateEncoderInputs_effect h₁,
      ⟨rfl, rfl, rfl, rfl, rfl, rfl, rfl, rfl, rfl, rfl, rfl, rfl⟩⟩
  · obtain ⟨rfl, rfl⟩ := Prod.mk.inj (Except.ok.inj h)
    exact ⟨OnlyEncoder.refl s, SamePass.refl p⟩

/-! ## Running requests -/

/-- The token count of a running request comes from its plan. -/
theorem planRunning_effect {n : Int} (h : s.planRunning cfg env p ref = .ok (s', n, plan)) :
    OnlyEncoder s s' ∧
      s.tryScheduleEncoderInputs cfg env ref (s.obj ref).numComputedTokens
        (runningNewTokens cfg (s.obj ref) p.tokenBudget) p.encoderComputeBudget = .ok plan ∧
      alignSplit cfg (s.obj ref) plan.numNewTokens 0 0 = .ok n := by
  unfold planRunning at h
  simp only [Raises.bind_eq_ok, Raises.pure_eq_ok] at h
  obtain ⟨plan', hplan, n', halign, heq⟩ := h
  simp only [Prod.mk.injEq] at heq
  obtain ⟨rfl, rfl, rfl⟩ := heq
  exact ⟨OnlyEncoder.of_manager s _, hplan, halign⟩

/-- A preemption: the victim leaves the running queue, its blocks and, if it was
scheduled in this call, the output. -/
structure Preempted (cfg : SchedulerConfig H) (s : Scheduler H) (p : Pass) (victim : ReqRef)
    (s' : Scheduler H) (p' : Pass) : Prop where
  pop : s.popVictim cfg = .ok (victim, s'.running)
  status : (s.obj victim).status = .running
  obj : s'.obj = Function.update s.obj victim (resetForPreemption (s.obj victim))
  free : s.kvCacheManager.free (s.obj victim).requestId = .ok s'.kvCacheManager
  numObjs : s'.numObjs = s.numObjs
  requests : s'.requests = s.requests
  waiting : s'.waiting ~ victim :: s.waiting
  skippedWaiting : s'.skippedWaiting = s.skippedWaiting
  prevStep : s'.prevStepScheduledReqIds = s.prevStepScheduledReqIds
  pauseState : s'.pauseState = s.pauseState
  finishedReqIds : s'.finishedReqIds = s.finishedReqIds
  pass : ∃ p₁, s.revoke cfg p victim = .ok p₁ ∧
    p' = { p₁ with
      preemptedReqs := p₁.preemptedReqs ++ [victim]
      revoked := if victim ∈ p.scheduledRunningReqs then p.revoked ++ [victim] else p.revoked }

theorem preemptVictim_effect (h : s.preemptVictim cfg p = .ok (s', p', victim)) :
    Preempted cfg s p victim s' p' := by
  unfold preemptVictim at h
  simp only [Raises.bind_eq_ok, Raises.pure_eq_ok] at h
  obtain ⟨⟨v, rest⟩, hpop, p₁, hrevoke, s₁, hpre, heq⟩ := h
  simp only [Prod.mk.injEq] at heq
  obtain ⟨rfl, rfl, rfl⟩ := heq
  unfold preemptRequest at hpre
  simp only [Raises.bind_eq_ok, Raises.pure_eq_ok] at hpre
  obtain ⟨⟨⟩, hreq, kv, hfree, rfl⟩ := hpre
  exact
    { pop := hpop
      status := by simpa using require_ok hreq
      obj := rfl
      free := hfree
      numObjs := rfl
      requests := rfl
      waiting := RequestQueue.prependRequest_perm s.waiting v
      skippedWaiting := rfl
      prevStep := rfl
      pauseState := rfl
      finishedReqIds := rfl
      pass := ⟨p₁, hrevoke, rfl⟩ }

/-- What a revocation leaves alone. -/
structure Revoked (cfg : SchedulerConfig H) (s : Scheduler H) (p : Pass) (victim : ReqRef) (p' : Pass) : Prop where
  scheduledNewReqs : p'.scheduledNewReqs = p.scheduledNewReqs
  scheduledResumedReqs : p'.scheduledResumedReqs = p.scheduledResumedReqs
  preemptedReqs : p'.preemptedReqs = p.preemptedReqs
  scheduledLoras : p'.scheduledLoras = p.scheduledLoras
  stepSkippedWaiting : p'.stepSkippedWaiting = p.stepSkippedWaiting
  /-- the output keeps the victim, or loses all of it -/
  cases : (p' = p) ∨
    (cfg.policy = .priority ∧ victim ∈ p.scheduledRunningReqs ∧
      (p.reqToNewBlocks.get? (s.obj victim).requestId).isSome = true ∧
      ∃ numTokens, p.numScheduledTokens.get? (s.obj victim).requestId = some numTokens ∧
        p'.scheduledRunningReqs = p.scheduledRunningReqs.erase victim ∧
        p'.tokenBudget = p.tokenBudget + numTokens ∧
        p'.numScheduledTokens = p.numScheduledTokens.erase (s.obj victim).requestId ∧
        p'.reqToNewBlocks = p.reqToNewBlocks.erase (s.obj victim).requestId ∧
        p'.scheduledSpecDecodeTokens
          = p.scheduledSpecDecodeTokens.erase (s.obj victim).requestId ∧
        p'.reqIndex = p.reqIndex - 1)

theorem revoke_effect (h : s.revoke cfg p victim = .ok p') : Revoked cfg s p victim p' := by
  unfold revoke at h
  split at h
  next hv =>
    dsimp only at h
    cases hn : p.numScheduledTokens.get? (s.obj victim).requestId with
    | none => rw [hn] at h; cases h
    | some numTokens =>
      cases hb : p.reqToNewBlocks.get? (s.obj victim).requestId with
      | none => rw [hn, hb] at h; cases h
      | some blocks =>
        rw [hn, hb] at h
        obtain rfl := Except.ok.inj h
        exact ⟨rfl, rfl, rfl, rfl, rfl,
          Or.inr ⟨hv.1, hv.2, by rw [hb]; rfl, numTokens, hn, rfl, rfl, rfl, rfl, rfl, rfl⟩⟩
  next hv =>
    obtain rfl := Except.ok.inj h
    exact ⟨rfl, rfl, rfl, rfl, rfl, Or.inl rfl⟩

/-- A running request enters the output. -/
structure CommittedRunning (s : Scheduler H) (p : Pass) (ref : ReqRef) (n : Int)
    (newBlocks : List (List BlockId)) (s' : Scheduler H) (p' : Pass) : Prop where
  queues : SameFrame s s'
  kv : s'.kvCacheManager = s.kvCacheManager
  obj : s'.obj = Function.update s.obj ref { s.obj ref with specTokenIds := [] }
  scheduledNewReqs : p'.scheduledNewReqs = p.scheduledNewReqs
  scheduledResumedReqs : p'.scheduledResumedReqs = p.scheduledResumedReqs
  scheduledRunningReqs : p'.scheduledRunningReqs = p.scheduledRunningReqs ++ [ref]
  preemptedReqs : p'.preemptedReqs = p.preemptedReqs
  reqToNewBlocks : p'.reqToNewBlocks = p.reqToNewBlocks.set (s.obj ref).requestId newBlocks
  numScheduledTokens : p'.numScheduledTokens = p.numScheduledTokens.set (s.obj ref).requestId n
  tokenBudget : p'.tokenBudget = p.tokenBudget - n
  scheduledLoras : p'.scheduledLoras = p.scheduledLoras
  stepSkippedWaiting : p'.stepSkippedWaiting = p.stepSkippedWaiting
  reqIndex : p'.reqIndex = p.reqIndex + 1
  revoked : p'.revoked = p.revoked
  spec : p'.scheduledSpecDecodeTokens =
    if (s.obj ref).specTokenIds ≠ [] ∧ 0 < n + (s.obj ref).numComputedTokens
        - (s.obj ref).numTokens - (s.obj ref).numOutputPlaceholders then
      p.scheduledSpecDecodeTokens.set (s.obj ref).requestId
        ((s.obj ref).specTokenIds.take (n + (s.obj ref).numComputedTokens
          - (s.obj ref).numTokens - (s.obj ref).numOutputPlaceholders).toNat)
    else p.scheduledSpecDecodeTokens

/-- The draft tokens are taken off the request, scheduled or not. -/
theorem commitSpecTokens_obj (s : Scheduler H) (p : Pass) (ref : ReqRef) (n : Int) :
    (s.commitSpecTokens p ref n).1
      = s.modify ref fun r => { r with specTokenIds := [] } := by
  unfold commitSpecTokens
  dsimp only
  split
  next hnil =>
    have hsame : ({ s.obj ref with specTokenIds := [] } : Request H) = s.obj ref := by rw [← hnil]
    show s = s.modify ref _
    rw [modify, hsame, Function.update_eq_self]
  next hnil =>
    split
    · rfl
    · rfl

theorem commitRunning_effect {n : Int} {newBlocks : List (List BlockId)}
    (h : s.commitRunning p ref n plan newBlocks = .ok (s', p')) :
    CommittedRunning s p ref n newBlocks s' p' := by
  unfold commitRunning at h
  simp only [Raises.bind_eq_ok, Raises.pure_eq_ok] at h
  obtain ⟨⟨s₁, p₁⟩, h₁, s₂, h₂, heq⟩ := h
  obtain ⟨rfl, rfl⟩ := Prod.mk.inj heq
  obtain ⟨henc, hpass⟩ := commitEncoderInputs_effect h₁
  have henc := henc.trans (allocateEncoderInputs_effect h₂)
  rw [commitSpecTokens_obj] at henc
  -- the variables after the draft tokens
  obtain ⟨q, hq⟩ : ∃ q, q = (s.commitSpecTokens { p with
    scheduledRunningReqs := p.scheduledRunningReqs ++ [ref]
    reqToNewBlocks := p.reqToNewBlocks.set (s.obj ref).requestId newBlocks
    numScheduledTokens := p.numScheduledTokens.set (s.obj ref).requestId n
    tokenBudget := p.tokenBudget - n
    reqIndex := p.reqIndex + 1 } ref n).2 := ⟨_, rfl⟩
  rw [← hq] at hpass
  have hq' : q = { p with
      scheduledRunningReqs := p.scheduledRunningReqs ++ [ref]
      reqToNewBlocks := p.reqToNewBlocks.set (s.obj ref).requestId newBlocks
      numScheduledTokens := p.numScheduledTokens.set (s.obj ref).requestId n
      tokenBudget := p.tokenBudget - n
      reqIndex := p.reqIndex + 1
      scheduledSpecDecodeTokens :=
        if (s.obj ref).specTokenIds ≠ [] ∧ 0 < n + (s.obj ref).numComputedTokens
            - (s.obj ref).numTokens - (s.obj ref).numOutputPlaceholders then
          p.scheduledSpecDecodeTokens.set (s.obj ref).requestId
            ((s.obj ref).specTokenIds.take (n + (s.obj ref).numComputedTokens
              - (s.obj ref).numTokens - (s.obj ref).numOutputPlaceholders).toNat)
        else p.scheduledSpecDecodeTokens } := by
    rw [hq]
    unfold commitSpecTokens
    dsimp only
    split
    next hnil => rw [if_neg fun hc => hc.1 hnil]
    next hnil =>
      split
      next hpos => rw [if_pos ⟨hnil, hpos⟩]
      next hpos => rw [if_neg fun hc => hpos hc.2]
  rw [hq'] at hpass
  have hobj : s₂.obj = Function.update s.obj ref { s.obj ref with specTokenIds := [] } := henc.obj
  exact { henc, hpass with
    queues := { henc.queues with }
    obj := hobj
    spec := hpass.scheduledSpecDecodeTokens }

/-! ## Waiting requests -/

/-- Only the blocks, one object and the notes on transfers differ. -/
structure Touched (s : Scheduler H) (ref : ReqRef) (s' : Scheduler H) : Prop where
  queues : SameFrame s s'
  encoder : s'.encoderCacheManager = s.encoderCacheManager
  obj : ∀ r, r ≠ ref → s'.obj r = s.obj r
  fixed : (s'.obj ref).fixed = (s.obj ref).fixed

theorem Touched.refl (s : Scheduler H) (ref : ReqRef) : Touched s ref s :=
  ⟨SameFrame.refl s, rfl, fun _ _ => rfl, rfl⟩

theorem Touched.trans (h : Touched s ref s') (h' : Touched s' ref s'') : Touched s ref s'' :=
  ⟨h.queues.trans h'.queues, h'.encoder.trans h.encoder, fun r hr => (h'.obj r hr).trans (h.obj r hr), h'.fixed.trans h.fixed⟩

theorem Touched.sameFixed (h : Touched s ref s') : SameFixed s s' := by
  intro r
  by_cases hr : r = ref
  · rw [hr, h.fixed]
  · rw [h.obj r hr]

theorem Touched.modify (s : Scheduler H) (ref : ReqRef) {f : Request H → Request H}
    (hf : (f (s.obj ref)).fixed = (s.obj ref).fixed) : Touched s ref (s.modify ref f) :=
  ⟨⟨⟨rfl, rfl, rfl, rfl, rfl, rfl, rfl⟩, rfl⟩, rfl, fun r hr => modify_obj_ne s f hr, by
    rw [modify_obj_self, hf]⟩

theorem settleRecvedBlocks_effect (h : s.settleRecvedBlocks ref = .ok s') : Touched s ref s' := by
  unfold settleRecvedBlocks at h
  dsimp only at h
  split at h
  · simp only [Raises.bind_eq_ok, Raises.pure_eq_ok] at h
    obtain ⟨kv, -, rfl⟩ := h
    exact ⟨⟨⟨rfl, rfl, rfl, rfl, rfl, rfl, rfl⟩, rfl⟩, rfl, fun _ _ => rfl, rfl⟩
  · simp only [Raises.bind_eq_ok, Raises.pure_eq_ok] at h
    obtain ⟨kv, -, rfl⟩ := h
    have hkv : Touched s ref { s with kvCacheManager := kv } :=
      ⟨⟨⟨rfl, rfl, rfl, rfl, rfl, rfl, rfl⟩, rfl⟩, rfl, fun _ _ => rfl, rfl⟩
    split
    · exact hkv.trans (Touched.modify _ ref rfl)
    · exact hkv

theorem updateWaitingForRemoteKv_effect (h : s.updateWaitingForRemoteKv cfg ref = .ok s') :
    Touched s ref s' := by
  unfold updateWaitingForRemoteKv at h
  simp only [Raises.bind_eq_ok, Raises.pure_eq_ok] at h
  obtain ⟨⟨⟩, -, s₁, h₁, rfl⟩ := h
  have ht := settleRecvedBlocks_effect h₁
  exact { ht with queues := { ht.queues with } }

theorem tryPromote_effect {round : Nat} {b : Bool}
    (h : s.tryPromoteBlockedWaitingRequest cfg env round ref = .ok (s', b)) : Touched s ref s' := by
  unfold tryPromoteBlockedWaitingRequest at h
  split at h
  · split at h
    · simp only [Raises.bind_eq_ok, Raises.pure_eq_ok] at h
      obtain ⟨s₁, h₁, heq⟩ := h
      obtain ⟨rfl, -⟩ := Prod.mk.inj heq
      exact (updateWaitingForRemoteKv_effect h₁).trans (Touched.modify s₁ ref rfl)
    · obtain ⟨rfl, -⟩ := Prod.mk.inj (Except.ok.inj h)
      exact Touched.refl s ref
  · split at h
    · obtain ⟨rfl, -⟩ := Prod.mk.inj (Except.ok.inj h)
      exact Touched.modify s ref rfl
    · obtain ⟨rfl, -⟩ := Prod.mk.inj (Except.ok.inj h)
      exact Touched.refl s ref
  · simp only [Raises.bind_eq_ok, Raises.pure_eq_ok] at h
    obtain ⟨⟨⟩, -, heq⟩ := h
    obtain ⟨rfl, -⟩ := Prod.mk.inj heq
    exact Touched.refl s ref
  · cases h

/-- A request that goes on is within the LoRA limit and has its computed tokens
looked up. -/
theorem examineWaiting_effect {round : Nat} {v : Verdict ComputedTokens}
    (h : s.examineWaiting cfg env round p ref = .ok (s', v)) :
    Touched s ref s' ∧ ∀ c, v = .proceed c → exceedsMaxLoras cfg p (s'.obj ref) = false ∧
      s'.findComputedTokens cfg env round ref = .ok (.proceed c) := by
  unfold examineWaiting at h
  rw [Raises.bind_eq_ok] at h
  obtain ⟨⟨s₁, promoted⟩, h₁, h⟩ := h
  have ht : Touched s ref s₁ := by
    split at h₁
    · exact tryPromote_effect h₁
    · obtain ⟨rfl, -⟩ := Prod.mk.inj (Except.ok.inj h₁)
      exact Touched.refl s ref
  dsimp only at h
  split at h
  · obtain ⟨rfl, rfl⟩ := Prod.mk.inj (Except.ok.inj h)
    exact ⟨ht, fun c hc => by cases hc⟩
  · split at h
    · obtain ⟨rfl, rfl⟩ := Prod.mk.inj (Except.ok.inj h)
      exact ⟨ht, fun c hc => by cases hc⟩
    next hlora =>
      simp only [Raises.bind_eq_ok, Raises.pure_eq_ok] at h
      obtain ⟨v', hv, heq⟩ := h
      obtain ⟨rfl, rfl⟩ := Prod.mk.inj heq
      refine ⟨ht, fun c hc => ⟨by simpa using hlora, ?_⟩⟩
      rw [← hc]
      exact hv

/-- A skipped request moves from its queue to the skipped ones. -/
theorem skipRequest_effect {q : WaitingQueue} (h : s.skipRequest cfg p q ref = .ok (s', p')) :
    ∃ r rest, RequestQueue.peekRequest cfg.policy (s.queue q) = .ok r ∧ s.queue q ~ r :: rest ∧
      s' = s.setQueue rest q ∧ ∃ skipped, skipped ~ ref :: p.stepSkippedWaiting ∧
        p' = { p with stepSkippedWaiting := skipped } := by
  unfold skipRequest at h
  simp only [Raises.bind_eq_ok, Raises.pure_eq_ok] at h
  obtain ⟨⟨r, rest⟩, hpop, heq⟩ := h
  obtain ⟨rfl, rfl⟩ := Prod.mk.inj heq
  obtain ⟨hpeek, hperm⟩ := RequestQueue.popRequest_ok hpop
  exact ⟨r, rest, hpeek, hperm, rfl, _, RequestQueue.prependRequest_perm _ ref, rfl⟩

/-- The plan of a waiting request: nothing while a transfer runs, else what the
budget and the encoder inputs leave of its tokens. -/
theorem planWaiting_effect {res : Option EncoderPlan}
    (h : s.planWaiting cfg env p ref c = .ok (s', res)) :
    OnlyEncoder s s' ∧ ∀ plan, res = some plan →
      (c.loadKvAsync = true ∧ c.numExternalComputedTokens > 0 ∧
        plan = .nothing s.encoderCacheManager 0 p.encoderComputeBudget) ∨
      (c.loadKvAsync = false ∧
        0 < min (capPrefill cfg ((s.obj ref).numTokens - c.numComputedTokens)) p.tokenBudget ∧
        s.tryScheduleEncoderInputs cfg env ref c.numComputedTokens
          (min (capPrefill cfg ((s.obj ref).numTokens - c.numComputedTokens)) p.tokenBudget)
          p.encoderComputeBudget = .ok plan ∧
        ((s.obj ref).hasEncoderInputs = true → plan.numNewTokens ≠ 0)) := by
  unfold planWaiting at h
  dsimp only at h
  split at h
  next hasync =>
    simp only [Raises.bind_eq_ok, Raises.pure_eq_ok] at h
    obtain ⟨⟨⟩, hreq, heq⟩ := h
    obtain ⟨rfl, rfl⟩ := Prod.mk.inj heq
    refine ⟨OnlyEncoder.refl s, fun plan hplan => Or.inl ⟨hasync, ?_, (Option.some.inj hplan).symm⟩⟩
    simpa using require_ok hreq
  next hasync =>
    split at h
    · obtain ⟨rfl, rfl⟩ := Prod.mk.inj (Except.ok.inj h)
      exact ⟨OnlyEncoder.refl s, fun plan hplan => by cases hplan⟩
    · simp only [Raises.bind_eq_ok, Raises.pure_eq_ok] at h
      obtain ⟨⟨⟩, hreq, plan', hplan', heq⟩ := h
      obtain ⟨rfl, rfl⟩ := Prod.mk.inj heq
      refine ⟨OnlyEncoder.of_manager s _, fun plan hplan => Or.inr ⟨by simpa using hasync, ?_, ?_⟩⟩
      · exact of_decide_eq_true (require_ok hreq)
      · split at hplan
        · cases hplan
        next hzero =>
          obtain rfl := Option.some.inj hplan
          refine ⟨hplan', fun henc hn => hzero ?_⟩
          rw [henc, hn]
          rfl

theorem reserveWaiting_effect {a : KVCacheManager.SlotArgs} {b : Bool}
    (h : s.reserveWaiting cfg ref a = .ok (s', b)) :
    SameFrame s s' ∧ s'.obj = s.obj ∧
      ((b = false ∧ s'.kvCacheManager = s.kvCacheManager) ∨
        ∃ blocks, b = blocks.isSome ∧
          s.kvCacheManager.allocateSlots (s.obj ref) a = .ok (s'.kvCacheManager, blocks)) := by
  have hdrop : ∀ t : Scheduler H, SameFrame t (t.dropEncoder cfg ref) ∧
      (t.dropEncoder cfg ref).obj = t.obj ∧
      (t.dropEncoder cfg ref).kvCacheManager = t.kvCacheManager := by
    intro t
    unfold dropEncoder
    split
    · exact ⟨⟨⟨rfl, rfl, rfl, rfl, rfl, rfl, rfl⟩, rfl⟩, rfl, rfl⟩
    · exact ⟨SameFrame.refl t, rfl, rfl⟩
  unfold reserveWaiting at h
  rw [Raises.bind_eq_ok] at h
  obtain ⟨tooLong, -, h⟩ := h
  split at h
  · obtain ⟨rfl, rfl⟩ := Prod.mk.inj (Except.ok.inj h)
    obtain ⟨hq, ho, hk⟩ := hdrop s
    exact ⟨hq, ho, Or.inl ⟨rfl, hk⟩⟩
  · rw [Raises.bind_eq_ok] at h
    obtain ⟨⟨kv, blocks⟩, halloc, h⟩ := h
    have hkv : SameFrame s { s with kvCacheManager := kv } := ⟨⟨rfl, rfl, rfl, rfl, rfl, rfl, rfl⟩, rfl⟩
    cases blocks with
    | none =>
      obtain ⟨rfl, rfl⟩ := Prod.mk.inj (Except.ok.inj h)
      obtain ⟨hq, ho, hk⟩ := hdrop { s with kvCacheManager := kv }
      exact ⟨hkv.trans hq, ho, Or.inr ⟨none, rfl, by rw [hk]; exact halloc⟩⟩
    | some b =>
      obtain ⟨rfl, rfl⟩ := Prod.mk.inj (Except.ok.inj h)
      exact ⟨hkv, rfl, Or.inr ⟨some b, rfl, halloc⟩⟩

/-- The tokens and blocks of a waiting request. -/
structure Prepared (cfg : SchedulerConfig H) (env : ScheduleEnv) (s : Scheduler H) (p : Pass)
    (ref : ReqRef) (c : ComputedTokens) (n : Int) (plan : EncoderPlan) : Prop where
  planned : ∃ s₁, s.planWaiting cfg env p ref c = .ok (s₁, some plan)
  align : alignWaiting cfg (s.obj ref) c plan.numNewTokens = .ok (some n)

theorem prepareWaiting_effect {res : Option (Int × EncoderPlan)}
    (h : s.prepareWaiting cfg env p ref c = .ok (s', res)) :
    SameFrame s s' ∧ s'.obj = s.obj ∧
      ((res = none ∧ s'.kvCacheManager = s.kvCacheManager) ∨
        ∃ n plan blocks, Prepared cfg env s p ref c n plan ∧
          s.kvCacheManager.allocateSlots (s.obj ref) (waitingSlotArgs cfg (s.obj ref) c n plan)
            = .ok (s'.kvCacheManager, blocks) ∧
          res = if blocks.isSome then some (n, plan) else none) := by
  unfold prepareWaiting at h
  rw [Raises.bind_eq_ok] at h
  obtain ⟨⟨s₁, plan⟩, hplan, h⟩ := h
  have hs₁ := (planWaiting_effect hplan).1
  cases plan with
  | none =>
    obtain ⟨rfl, rfl⟩ := Prod.mk.inj (Except.ok.inj h)
    exact ⟨hs₁.queues, hs₁.obj, Or.inl ⟨rfl, hs₁.kv⟩⟩
  | some plan =>
    dsimp only at h
    rw [Raises.bind_eq_ok] at h
    obtain ⟨aligned, halign, h⟩ := h
    rw [hs₁.obj] at halign
    cases aligned with
    | none =>
      obtain ⟨rfl, rfl⟩ := Prod.mk.inj (Except.ok.inj h)
      exact ⟨hs₁.queues, hs₁.obj, Or.inl ⟨rfl, hs₁.kv⟩⟩
    | some n =>
      simp only [Raises.bind_eq_ok, Raises.pure_eq_ok] at h
      obtain ⟨⟨s₂, b⟩, hres, heq⟩ := h
      obtain ⟨rfl, rfl⟩ := Prod.mk.inj heq
      obtain ⟨hq, ho, hcases⟩ := reserveWaiting_effect hres
      refine ⟨hs₁.queues.trans hq, ho.trans hs₁.obj, ?_⟩
      obtain ⟨rfl, hk⟩ | ⟨blocks, rfl, halloc⟩ := hcases
      · exact Or.inl ⟨rfl, hk.trans hs₁.kv⟩
      · rw [hs₁.obj, hs₁.kv] at halloc
        exact Or.inr ⟨n, plan, blocks, ⟨⟨s₁, hplan⟩, halign⟩, halloc, rfl⟩

/-- A waiting request starts to run and enters the output. -/
structure CommittedWaiting (cfg : SchedulerConfig H) (s : Scheduler H) (p : Pass) (ref : ReqRef)
    (c : ComputedTokens) (n : Int) (s' : Scheduler H) (p' : Pass) : Prop where
  status : (s.obj ref).status = .waiting ∨ (s.obj ref).status = .preempted
  running : s'.running = s.running ++ [ref]
  numObjs : s'.numObjs = s.numObjs
  requests : s'.requests = s.requests
  waiting : s'.waiting = s.waiting
  skippedWaiting : s'.skippedWaiting = s.skippedWaiting
  prevStep : s'.prevStepScheduledReqIds = s.prevStepScheduledReqIds
  pauseState : s'.pauseState = s.pauseState
  finishedReqIds : s'.finishedReqIds = s.finishedReqIds
  kv : s'.kvCacheManager = s.kvCacheManager
  obj : s'.obj = Function.update s.obj ref
    { s.obj ref with status := .running, numComputedTokens := c.numComputedTokens }
  scheduledNewReqs : p'.scheduledNewReqs =
    if (s.obj ref).status = .waiting then p.scheduledNewReqs ++ [ref] else p.scheduledNewReqs
  scheduledResumedReqs : p'.scheduledResumedReqs =
    if (s.obj ref).status = .waiting then p.scheduledResumedReqs
    else p.scheduledResumedReqs ++ [ref]
  scheduledRunningReqs : p'.scheduledRunningReqs = p.scheduledRunningReqs
  preemptedReqs : p'.preemptedReqs = p.preemptedReqs
  reqToNewBlocks : p'.reqToNewBlocks = p.reqToNewBlocks.set (s.obj ref).requestId
    (s.kvCacheManager.getBlocks (s.obj ref).requestId)
  numScheduledTokens : p'.numScheduledTokens = p.numScheduledTokens.set (s.obj ref).requestId n
  tokenBudget : p'.tokenBudget = p.tokenBudget - n
  scheduledSpecDecodeTokens : p'.scheduledSpecDecodeTokens = p.scheduledSpecDecodeTokens
  scheduledLoras : p'.scheduledLoras = (addLora cfg p (s.obj ref)).scheduledLoras
  stepSkippedWaiting : p'.stepSkippedWaiting = p.stepSkippedWaiting
  revoked : p'.revoked = p.revoked

/-- Filing a request puts it on one of two lists. -/
theorem fileScheduled_effect {st : RequestStatus} (h : fileScheduled p ref st = .ok p') :
    (st = .waiting ∨ st = .preempted) ∧
      p' = { p with
        scheduledNewReqs := if st = .waiting then p.scheduledNewReqs ++ [ref]
          else p.scheduledNewReqs
        scheduledResumedReqs := if st = .waiting then p.scheduledResumedReqs
          else p.scheduledResumedReqs ++ [ref] } := by
  unfold fileScheduled at h
  split at h
  · obtain rfl := Except.ok.inj h
    exact ⟨Or.inl rfl, rfl⟩
  · obtain rfl := Except.ok.inj h
    exact ⟨Or.inr rfl, rfl⟩
  · cases h

/-- `addLora` changes the LoRAs only, and the same way whatever the other
variables are. -/
theorem addLora_eq (p : Pass) (r : Request H) :
    addLora cfg p r = { p with scheduledLoras := (addLora cfg p r).scheduledLoras } := by
  unfold addLora
  split
  · rfl
  · rfl

theorem addLora_congr (h : p'.scheduledLoras = p.scheduledLoras) (r : Request H) :
    (addLora cfg p' r).scheduledLoras = (addLora cfg p r).scheduledLoras := by
  unfold addLora
  split
  · dsimp only
    rw [h]
  · exact h

theorem commitWaiting_effect {n : Int} (h : s.commitWaiting cfg p ref c n plan = .ok (s', p')) :
    CommittedWaiting cfg s p ref c n s' p' := by
  unfold commitWaiting at h
  simp only [Raises.bind_eq_ok, Raises.pure_eq_ok] at h
  obtain ⟨p₁, hfile, ⟨s₂, p₂⟩, henc, s₃, halloc, heq⟩ := h
  obtain ⟨rfl, rfl⟩ := Prod.mk.inj heq
  obtain ⟨hst, hp₁⟩ := fileScheduled_effect hfile
  obtain ⟨henc, hpass⟩ := commitEncoderInputs_effect henc
  have henc := henc.trans (allocateEncoderInputs_effect halloc)
  have hlora : (addLora cfg p₁ (s.obj ref)).scheduledLoras
      = (addLora cfg p (s.obj ref)).scheduledLoras := by
    refine addLora_congr ?_ _
    rw [hp₁]
  rw [addLora_eq p₁, hlora, hp₁] at hpass
  exact { henc.queues, henc, hpass with status := hst }

/-- The end of a round: the request that was peeked is popped and left to a
transfer, or it starts to run. -/
theorem takeWaiting_effect {q : WaitingQueue} {n : Int}
    (hpeek : RequestQueue.peekRequest cfg.policy (s.queue q) = .ok ref)
    (h : s.takeWaiting cfg p q c n plan = .ok (s', p')) :
    ∃ rest, s.queue q ~ ref :: rest ∧
      ((c.loadKvAsync = true ∧ (s', p') = (s.setQueue rest q).awaitRemoteKvs cfg p ref c) ∨
        (c.loadKvAsync = false ∧ CommittedWaiting cfg (s.setQueue rest q) p ref c n s' p')) := by
  unfold takeWaiting at h
  rw [Raises.bind_eq_ok] at h
  obtain ⟨⟨r, rest⟩, hpop, h⟩ := h
  obtain ⟨hpeek', hperm⟩ := RequestQueue.popRequest_ok hpop
  obtain rfl := Except.ok.inj (hpeek'.symm.trans hpeek)
  refine ⟨rest, hperm, ?_⟩
  dsimp only at h
  split at h
  next hasync => exact Or.inl ⟨hasync, (Except.ok.inj h).symm⟩
  next hasync => exact Or.inr ⟨by simpa using hasync, commitWaiting_effect h⟩

/-! ## The output -/

/-- The requests of the output, in the order of its two lists. -/
def outputReqs (cfg : SchedulerConfig H) (p : Pass) : List ReqRef :=
  if cfg.useV2ModelRunner then
    p.scheduledNewReqs ++ p.scheduledResumedReqs ++ p.scheduledRunningReqs
  else p.scheduledNewReqs ++ (p.scheduledRunningReqs ++ p.scheduledResumedReqs)

theorem newRequestData_reqId {d : NewRequestData} (h : s.newRequestData cfg p ref = .ok d) :
    d.reqId = (s.obj ref).requestId := by
  unfold newRequestData at h
  simp only [Raises.bind_eq_ok, Raises.pure_eq_ok] at h
  obtain ⟨blocks, -, rfl⟩ := h
  rfl

theorem newRequestData_reqIds {refs : List ReqRef} {ds : List NewRequestData}
    (h : refs.mapM (s.newRequestData cfg p) = .ok ds) :
    ds.map (·.reqId) = refs.map fun r => (s.obj r).requestId := by
  have hall := Raises.mapM_ok h
  clear h
  induction hall with
  | nil => rfl
  | cons hd hrest ih => rw [List.map_cons, List.map_cons, newRequestData_reqId hd, ih]

theorem addCachedRequest_reqIds {d d' : CachedRequestData} {entry : ReqRef × Bool}
    (h : s.addCachedRequest cfg p d entry = .ok d') :
    d'.reqIds = d.reqIds ++ [(s.obj entry.1).requestId] := by
  unfold addCachedRequest at h
  simp only [Raises.bind_eq_ok, Raises.pure_eq_ok] at h
  obtain ⟨⟨⟩, -, blocks, -, rfl⟩ := h
  rfl

theorem cachedRequests_reqIds :
    ∀ (l : List (ReqRef × Bool)) (d d' : CachedRequestData),
      l.foldlM (s.addCachedRequest cfg p) d = .ok d' →
      d'.reqIds = d.reqIds ++ l.map fun e => (s.obj e.1).requestId := by
  intro l
  induction l with
  | nil =>
    intro d d' h
    obtain rfl := Raises.foldlM_nil_ok.mp h
    simp
  | cons e l ih =>
    intro d d' h
    obtain ⟨d₁, h₁, h₂⟩ := Raises.foldlM_cons_ok.mp h
    rw [ih d₁ d' h₂, addCachedRequest_reqIds h₁, List.map_cons, List.append_assoc]
    rfl

/-- The output lists the scheduled requests with their token counts. -/
structure Output (cfg : SchedulerConfig H) (s : Scheduler H) (p : Pass) (s' : Scheduler H)
    (out : SchedulerOutput) : Prop where
  obj : s'.obj = s.obj
  numObjs : s'.numObjs = s.numObjs
  requests : s'.requests = s.requests
  waiting : s'.waiting = s.waiting
  skippedWaiting : s'.skippedWaiting = s.skippedWaiting
  running : s'.running = s.running
  reqIds : out.reqIds = (outputReqs cfg p).map fun r => (s.obj r).requestId
  numScheduledTokens : out.numScheduledTokens = p.numScheduledTokens
  totalNumScheduledTokens : out.totalNumScheduledTokens = totalScheduled p
  scheduledSpecDecodeTokens : out.scheduledSpecDecodeTokens = p.scheduledSpecDecodeTokens

/-- Taking the ids to zero only touches the managers. -/
theorem takeNewBlockIds_effect (cfg : SchedulerConfig H) (s : Scheduler H) :
    ∃ kv, (s.takeNewBlockIds cfg).1 = { s with kvCacheManager := kv } := by
  unfold takeNewBlockIds
  split
  · exact ⟨_, rfl⟩
  · exact ⟨s.kvCacheManager, rfl⟩

theorem makeOutput_effect (h : s.makeOutput cfg p = .ok (s', out)) : Output cfg s p s' out := by
  unfold makeOutput at h
  simp only [Raises.bind_eq_ok, Raises.pure_eq_ok] at h
  obtain ⟨newData, hnew, cached, hcached, heq⟩ := h
  obtain ⟨rfl, rfl⟩ := Prod.mk.inj heq
  obtain ⟨kv, hkv⟩ := takeNewBlockIds_effect cfg
    { s with prevStepScheduledReqIds := p.numScheduledTokens.keys }
  refine ⟨by rw [hkv], by rw [hkv], by rw [hkv], by rw [hkv], by rw [hkv], by rw [hkv], ?_,
    rfl, rfl, rfl⟩
  have hc := cachedRequests_reqIds _ _ _ hcached
  have hn := newRequestData_reqIds hnew
  show newData.map (·.reqId) ++ cached.reqIds = _
  rw [hn, hc]
  unfold outputReqs
  split
  · simp [Function.comp_def]
  · simp [Function.comp_def]

/-! ## After the passes -/

/-- What the bookkeeping after the passes leaves alone: the queues, the fixed
part of the requests and the request lists of the output. -/
structure AfterSchedule (s s' : Scheduler H) (out out' : SchedulerOutput) : Prop where
  queues : SameQueues s s'
  kv : s'.kvCacheManager = s.kvCacheManager
  fixed : SameFixed s s'
  newReqs : out'.scheduledNewReqs = out.scheduledNewReqs
  cachedReqs : out'.scheduledCachedReqs = out.scheduledCachedReqs
  numScheduledTokens : out'.numScheduledTokens = out.numScheduledTokens
  totalNumScheduledTokens : out'.totalNumScheduledTokens = out.totalNumScheduledTokens
  scheduledSpecDecodeTokens : out'.scheduledSpecDecodeTokens = out.scheduledSpecDecodeTokens

theorem AfterSchedule.trans {out'' : SchedulerOutput} (h : AfterSchedule s s' out out')
    (h' : AfterSchedule s' s'' out' out'') : AfterSchedule s s'' out out'' :=
  ⟨h.queues.trans h'.queues, h'.kv.trans h.kv, h.fixed.trans h'.fixed, h'.newReqs.trans h.newReqs,
    h'.cachedReqs.trans h.cachedReqs, h'.numScheduledTokens.trans h.numScheduledTokens,
    h'.totalNumScheduledTokens.trans h.totalNumScheduledTokens,
    h'.scheduledSpecDecodeTokens.trans h.scheduledSpecDecodeTokens⟩

theorem advanceComputed_effect {entry : ReqId × Int}
    (h : advanceComputed (s, out) entry = .ok (s', out')) : AfterSchedule s s' out out' := by
  unfold advanceComputed at h
  simp only [Raises.bind_eq_ok, Raises.pure_eq_ok] at h
  obtain ⟨ref, -, heq⟩ := h
  obtain ⟨rfl, rfl⟩ := Prod.mk.inj heq
  exact ⟨⟨rfl, rfl, rfl, rfl, rfl, rfl, rfl⟩, rfl, (Touched.modify s ref rfl).sameFixed,
    rfl, rfl, rfl, rfl, rfl⟩

theorem addPlaceholders_effect {entry : ReqId × Int}
    (h : addPlaceholders cfg (s, out) entry = .ok (s', out')) : AfterSchedule s s' out out' := by
  unfold addPlaceholders at h
  simp only [Raises.bind_eq_ok] at h
  obtain ⟨ref, -, h⟩ := h
  split at h
  · obtain ⟨rfl, rfl⟩ := Prod.mk.inj (Except.ok.inj h)
    exact ⟨SameQueues.refl s, rfl, SameFixed.refl s, rfl, rfl, rfl, rfl, rfl⟩
  · obtain ⟨rfl, rfl⟩ := Prod.mk.inj (Except.ok.inj h)
    exact ⟨⟨rfl, rfl, rfl, rfl, rfl, rfl, rfl⟩, rfl, (Touched.modify s ref rfl).sameFixed,
      rfl, rfl, rfl, rfl, rfl⟩

theorem AfterSchedule.fold
    {f : Scheduler H × SchedulerOutput → ReqId × Int → Except Python.Error (Scheduler H × SchedulerOutput)}
    (hf : ∀ s out entry s' out', f (s, out) entry = .ok (s', out') → AfterSchedule s s' out out')
    {l : List (ReqId × Int)} (h : l.foldlM f (s, out) = .ok (s', out')) :
    AfterSchedule s s' out out' := by
  refine Raises.foldlM_inv (I := fun st => AfterSchedule s st.1 out st.2) l (s, out) (s', out')
    (fun entry _ t t' ht hstep => ?_)
    ⟨SameQueues.refl s, rfl, SameFixed.refl s, rfl, rfl, rfl, rfl, rfl⟩ h
  exact ht.trans (hf t.1 t.2 entry t'.1 t'.2 hstep)

theorem updateAfterSchedule_effect (h : s.updateAfterSchedule cfg out = .ok (s', out')) :
    AfterSchedule s s' out out' := by
  unfold updateAfterSchedule at h
  rw [Raises.bind_eq_ok] at h
  obtain ⟨⟨s₁, out₁⟩, hadv, h⟩ := h
  have h₁ := AfterSchedule.fold (fun _ _ _ _ _ => advanceComputed_effect) hadv
  have hclear : AfterSchedule s { s₁ with finishedReqIds := [] } out out₁ :=
    ⟨⟨h₁.queues.numObjs, h₁.queues.requests, h₁.queues.waiting, h₁.queues.skippedWaiting,
      h₁.queues.running, h₁.queues.prevStep, h₁.queues.pauseState⟩, h₁.kv, h₁.fixed, h₁.newReqs,
      h₁.cachedReqs, h₁.numScheduledTokens, h₁.totalNumScheduledTokens,
      h₁.scheduledSpecDecodeTokens⟩
  dsimp only at h
  split at h
  · exact hclear.trans (AfterSchedule.fold (fun _ _ _ _ _ => addPlaceholders_effect) h)
  · obtain ⟨rfl, rfl⟩ := Prod.mk.inj (Except.ok.inj h)
    exact hclear

/-- **`schedule`** taken apart. -/
theorem schedule_parts (h : s.schedule cfg env = .ok (s', out)) :
    ∃ s₁ p s₂ out₁, s.schedulePasses cfg env = .ok (s₁, p) ∧ s₁.constraintsOk cfg p = true ∧
      Output cfg s₁ p s₂ out₁ ∧ s₂.updateAfterSchedule cfg out₁ = .ok (s', out) := by
  unfold schedule at h
  simp only [Raises.bind_eq_ok] at h
  obtain ⟨⟨s₁, p⟩, hpasses, ⟨⟩, hreq, ⟨s₂, out₁⟩, hout, hafter⟩ := h
  exact ⟨s₁, p, s₂, out₁, hpasses, require_ok hreq, makeOutput_effect hout, hafter⟩

/-! ## The victim of a preemption -/

theorem lowestPriority_mem {l : List ReqRef} (h : s.lowestPriority l = some victim) :
    victim ∈ l := by
  cases l with
  | nil => cases h
  | cons r rs =>
    obtain rfl := Option.some.inj h
    -- the best so far is the first request or one of those seen
    have hfold : ∀ (l : List ReqRef) (f : ReqRef → ReqRef → ReqRef) (b : ReqRef),
        (∀ a c, f a c = a ∨ f a c = c) → l.foldl f b = b ∨ l.foldl f b ∈ l := by
      intro l f
      induction l with
      | nil => intro b _; exact Or.inl rfl
      | cons c l ih =>
        intro b hf
        rw [List.foldl_cons]
        obtain hb | hm := ih (f b c) hf
        · rw [hb]
          obtain hb | hc := hf b c
          · exact Or.inl hb
          · exact Or.inr (by rw [hc]; exact List.mem_cons_self)
        · exact Or.inr (List.mem_cons_of_mem c hm)
    obtain hb | hm := hfold rs s.lowerPriority r (fun a c => by unfold lowerPriority; split <;> simp)
    · rw [hb]
      exact List.mem_cons_self
    · exact List.mem_cons_of_mem r hm

theorem popVictim_perm {rest : List ReqRef} (h : s.popVictim cfg = .ok (victim, rest)) :
    s.running ~ victim :: rest := by
  unfold popVictim at h
  cases hp : cfg.policy with
  | priority =>
    rw [hp] at h
    dsimp only at h
    cases hv : s.lowestPriority s.running with
    | none => rw [hv] at h; cases h
    | some v =>
      rw [hv] at h
      obtain ⟨rfl, rfl⟩ := Prod.mk.inj (Except.ok.inj h)
      exact List.perm_cons_erase (lowestPriority_mem hv)
  | fcfs =>
    rw [hp] at h
    dsimp only at h
    cases hv : s.running.getLast? with
    | none => rw [hv] at h; cases h
    | some v =>
      rw [hv] at h
      obtain ⟨rfl, rfl⟩ := Prod.mk.inj (Except.ok.inj h)
      obtain ⟨front, hfront⟩ := List.getLast?_eq_some_iff.mp hv
      rw [hfront, List.dropLast_concat]
      exact List.perm_append_singleton v front

end Scheduler

end VllmEngine
