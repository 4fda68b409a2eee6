import Mathlib.Data.List.Dedup
import Mathlib.Data.List.Perm.Subperm
import VllmEngine.Sched.Effects
import VllmEngine.Sched.Update

/-!
# The number of LoRA adapters in a step

`max_loras` bounds the adapters that the workers hold at once. The waiting pass
counts the adapters of the requests scheduled in the same call, the assertion
after the running pass counts those of the running requests that the call
schedules. A running request that a call passes over is counted by neither, so
the running requests can come to use more adapters than a step may.

> `lora_limit_run`: in a run in which the running requests never use more than
> `max_loras` adapters before a `schedule` call, no call trips the assertion and
> no output has more than `max_loras` adapters.
-/

set_option linter.unusedSectionVars false

namespace VllmEngine

open List

variable {H : Type} [DecidableEq H]

namespace Scheduler

variable {cfg : SchedulerConfig H} {env : ScheduleEnv}

/-- The adapter of a request: `lora_int_id`, where it is positive. -/
def adapter (s : Scheduler H) (r : ReqRef) : Option Nat :=
  ((s.obj r).loraRequest.map (·.loraIntId)).filter (0 < ·)

/-- The distinct adapters of some requests. -/
def adapters (s : Scheduler H) (refs : List ReqRef) : List Nat := (refs.filterMap s.adapter).dedup

/-- The requests that the passes scheduled. -/
def scheduledReqs (p : Pass) : List ReqRef :=
  p.scheduledNewReqs ++ p.scheduledResumedReqs ++ p.scheduledRunningReqs

variable {s s' : Scheduler H} {p : Pass} {maxLoras : Nat}

theorem mem_adapters {refs : List ReqRef} {a : Nat} :
    a ∈ s.adapters refs ↔ ∃ r ∈ refs, s.adapter r = some a := by
  rw [adapters, List.mem_dedup, List.mem_filterMap]

theorem SameFixed.adapter (h : SameFixed s s') (r : ReqRef) : s'.adapter r = s.adapter r := by
  have hl := congrArg Request.loraRequest (h r)
  change (s'.obj r).loraRequest = (s.obj r).loraRequest at hl
  rw [Scheduler.adapter, Scheduler.adapter, hl]

/-- Requests whose adapters are all on a list have at most as many. -/
theorem adapters_length_le {refs : List ReqRef} {l : List Nat}
    (h : ∀ r ∈ refs, ∀ a, s.adapter r = some a → a ∈ l) : (s.adapters refs).length ≤ l.length := by
  refine (List.Nodup.subperm (List.nodup_dedup _) fun a ha => ?_).length_le
  obtain ⟨r, hr, hra⟩ := mem_adapters.mp ha
  exact h r hr a hra

/-! ## The running pass -/

/-- The running pass schedules running requests only and adds none. -/
structure FromRunning (s₀ s : Scheduler H) (p : Pass) : Prop where
  fixed : SameFixed s₀ s
  running : ∀ r ∈ s.running, r ∈ s₀.running
  scheduled : ∀ r ∈ p.scheduledRunningReqs, r ∈ s₀.running
  new : p.scheduledNewReqs = []
  resumed : p.scheduledResumedReqs = []

theorem popVictim_subset {victim : ReqRef} {rest : List ReqRef}
    (h : s.popVictim cfg = .ok (victim, rest)) : ∀ r ∈ rest, r ∈ s.running := by
  unfold popVictim at h
  split at h
  · split at h
    · cases h
    · obtain ⟨rfl, rfl⟩ := Prod.mk.inj (Except.ok.inj h)
      exact fun r hr => List.mem_of_mem_erase hr
  · split at h
    · cases h
    · obtain ⟨rfl, rfl⟩ := Prod.mk.inj (Except.ok.inj h)
      exact fun r hr => List.dropLast_subset _ hr

theorem Preempted.fromRunning {s₀ : Scheduler H} {p' : Pass} {victim : ReqRef}
    (h : FromRunning s₀ s p) (hp : Preempted cfg s p victim s' p') : FromRunning s₀ s' p' := by
  obtain ⟨p₁, hrevoke, rfl⟩ := hp.pass
  have hr := revoke_effect hrevoke
  refine ⟨h.fixed.trans (SameFixed.of_update hp.obj rfl),
    fun r hr' => h.running r (popVictim_subset hp.pop r hr'), fun r hr' => ?_,
    hr.scheduledNewReqs.trans h.new, hr.scheduledResumedReqs.trans h.resumed⟩
  obtain rfl | ⟨-, -, -, _, -, hsched, -⟩ := hr.cases
  · exact h.scheduled r hr'
  · dsimp only at hr'
    rw [hsched] at hr'
    exact h.scheduled r (List.mem_of_mem_erase hr')

theorem OnlyEncoder.fromRunning {s₀ : Scheduler H} (h : FromRunning s₀ s p) (he : OnlyEncoder s s') :
    FromRunning s₀ s' p := by
  refine ⟨fun r => ?_, ?_, h.scheduled, h.new, h.resumed⟩
  · rw [he.obj]
    exact h.fixed r
  · rw [he.queues.running]
    exact h.running

theorem fromRunning_rule (s₀ : Scheduler H) : RunningRule cfg env (FromRunning s₀)
    (fun ref _ _ s p => FromRunning s₀ s p ∧ ref ∈ s₀.running) where
  reached s p ref hI _ _ _ := ⟨hI.fixed, hI.running, hI.scheduled, hI.new, hI.resumed⟩
  zero s p ref s' plan hI _ _ _ hplan := by
    have h' := (planRunning_effect hplan).1.fromRunning hI
    exact ⟨h'.fixed, h'.running, h'.scheduled, h'.new, h'.resumed⟩
  plan s p ref s' n plan hI href _ _ hplan _ :=
    ⟨(planRunning_effect hplan).1.fromRunning hI, hI.running ref (List.mem_of_getElem? href)⟩
  preempt ref n plan s p kv s' p' victim hJ _ hpre _ := by
    have hkv : FromRunning s₀ { s with kvCacheManager := kv } p :=
      ⟨hJ.1.fixed, hJ.1.running, hJ.1.scheduled, hJ.1.new, hJ.1.resumed⟩
    exact ⟨(preemptVictim_effect hpre).fromRunning hkv, hJ.2⟩
  preemptSelf ref n plan s p kv s' p' hJ _ hpre := by
    have hkv : FromRunning s₀ { s with kvCacheManager := kv } p :=
      ⟨hJ.1.fixed, hJ.1.running, hJ.1.scheduled, hJ.1.new, hJ.1.resumed⟩
    exact (preemptVictim_effect hpre).fromRunning hkv
  commit ref n plan s p kv blocks s' p' hJ _ hcommit := by
    have hc := commitRunning_effect hcommit
    refine ⟨hJ.1.fixed.trans (SameFixed.of_update hc.obj rfl), ?_, ?_,
      hc.scheduledNewReqs.trans hJ.1.new, hc.scheduledResumedReqs.trans hJ.1.resumed⟩
    · rw [hc.queues.running]
      exact hJ.1.running
    · intro r hr
      rw [hc.scheduledRunningReqs, List.mem_append, List.mem_singleton] at hr
      obtain hr | rfl := hr
      · exact hJ.1.scheduled r hr
      · exact hJ.2

/-! ## The waiting pass -/

/-- The adapters of the scheduled requests are among the `maxLoras` counted
ones. -/
structure CountedLoras (maxLoras : Nat) (s : Scheduler H) (p : Pass) : Prop where
  counted : ∀ r ∈ scheduledReqs p, ∀ a, s.adapter r = some a → a ∈ p.scheduledLoras
  limit : p.scheduledLoras.length ≤ maxLoras

theorem CountedLoras.congr {p' : Pass} (h : CountedLoras maxLoras s p) (hs : SameFixed s s')
    (hp : scheduledReqs p' = scheduledReqs p) (hl : p'.scheduledLoras = p.scheduledLoras) :
    CountedLoras maxLoras s' p' := by
  refine ⟨fun r hr a ha => ?_, hl ▸ h.limit⟩
  rw [hl]
  rw [hp] at hr
  rw [hs.adapter] at ha
  exact h.counted r hr a ha

/-- The request is within the limit, so adding its adapter keeps it. -/
theorem addLora_counted (hm : cfg.maxLoras = some maxLoras) {r : Request H}
    (hlimit : p.scheduledLoras.length ≤ maxLoras) (hex : exceedsMaxLoras cfg p r = false) :
    (addLora cfg p r).scheduledLoras.length ≤ maxLoras ∧
      (∀ a ∈ p.scheduledLoras, a ∈ (addLora cfg p r).scheduledLoras) ∧
      ∀ lora, r.loraRequest = some lora → lora.loraIntId ∈ (addLora cfg p r).scheduledLoras := by
  unfold exceedsMaxLoras at hex
  unfold addLora
  rw [hm] at hex ⊢
  cases hl : r.loraRequest with
  | none => exact ⟨hlimit, fun a ha => ha, fun lora h => nomatch h⟩
  | some lora =>
    rw [hl] at hex
    dsimp only at hex ⊢
    rw [decide_eq_false_iff_not] at hex
    by_cases hmem : lora.loraIntId ∈ p.scheduledLoras
    · rw [if_pos hmem]
      exact ⟨hlimit, fun a ha => ha, fun lora' h => by cases h; exact hmem⟩
    · rw [if_neg hmem]
      have hlt : p.scheduledLoras.length ≠ maxLoras := fun heq => hex ⟨heq, hmem⟩
      refine ⟨?_, fun a ha => List.mem_append_left _ ha, fun lora' h => ?_⟩
      · rw [List.length_append, List.length_singleton]
        omega
      · cases h
        exact List.mem_append_right _ (List.mem_singleton_self _)

theorem setQueue_sameFixed (s : Scheduler H) (rest : RequestQueue) (q : WaitingQueue) :
    SameFixed s (s.setQueue rest q) := by
  cases q with
  | waiting => exact SameFixed.refl s
  | skippedWaiting => exact SameFixed.refl s

theorem setQueue_obj (s : Scheduler H) (rest : RequestQueue) (q : WaitingQueue) :
    (s.setQueue rest q).obj = s.obj := by
  cases q with
  | waiting => rfl
  | skippedWaiting => rfl

theorem mem_scheduledReqs_commitWaiting {p' : Pass} {ref : ReqRef} {c : ComputedTokens} {n : Int}
    (h : CommittedWaiting cfg s p ref c n s' p') {r : ReqRef} (hr : r ∈ scheduledReqs p') :
    r = ref ∨ r ∈ scheduledReqs p := by
  unfold scheduledReqs at hr ⊢
  rw [h.scheduledNewReqs, h.scheduledResumedReqs, h.scheduledRunningReqs] at hr
  split at hr
  · simp only [List.mem_append, List.mem_singleton] at hr ⊢
    tauto
  · simp only [List.mem_append, List.mem_singleton] at hr ⊢
    tauto

theorem countedLoras_rule (hm : cfg.maxLoras = some maxLoras) :
    WaitingRule cfg env (CountedLoras maxLoras) where
  skip s p q ref round s₁ s' p' hI _ hex hskip := by
    obtain ⟨r, rest, -, -, rfl, skipped, -, rfl⟩ := skipRequest_effect hskip
    exact (hI.congr (examineWaiting_effect hex).1.sameFixed rfl rfl).congr
      (setQueue_sameFixed s₁ rest q) rfl rfl
  stop s p q ref round s₁ c s' hI _ hex hprep := by
    have ht := (examineWaiting_effect hex).1.sameFixed
    refine hI.congr (ht.trans fun r => ?_) rfl rfl
    rw [(prepareWaiting_effect hprep).2.1]
  take s p q ref round s₁ c s₂ n plan s' p' hI hpeek hex hprep htake := by
    obtain ⟨ht, hgo⟩ := examineWaiting_effect hex
    obtain ⟨hqueues, hobj, -⟩ := prepareWaiting_effect hprep
    have hpeek₂ : RequestQueue.peekRequest cfg.policy (s₂.queue q) = .ok ref := by
      rw [hqueues.queue, ht.queues.queue]
      exact hpeek.peek
    have hfixed : SameFixed s s₂ := ht.sameFixed.trans fun r => by rw [hobj]
    obtain ⟨rest, -, ⟨-, heq⟩ | ⟨-, hc⟩⟩ := takeWaiting_effect hpeek₂ htake
    · obtain ⟨rfl, rfl⟩ := Prod.mk.inj heq
      refine hI.congr (hfixed.trans fun r => ?_) rfl rfl
      have h₁ := Touched.modify (s₂.setQueue rest q) ref
        (f := fun r => { r with status := .waitingForRemoteKvs }) rfl
      have h₂ := Touched.modify ((s₂.setQueue rest q).modify ref
        fun r => { r with status := .waitingForRemoteKvs }) ref
        (f := fun r => { r with numComputedTokens := c.numComputedTokens }) rfl
      rw [← setQueue_sameFixed s₂ rest q r]
      exact (h₁.trans h₂).sameFixed r
    · have hreq : (s₂.setQueue rest q).obj ref = s₁.obj ref := by rw [setQueue_obj, hobj]
      obtain ⟨hlimit, hold, hnew⟩ := addLora_counted hm hI.limit (hgo c rfl).1
      rw [← hreq] at hlimit hold hnew
      have hfixed' : SameFixed s s' :=
        (hfixed.trans (setQueue_sameFixed s₂ rest q)).trans (SameFixed.of_update hc.obj rfl)
      refine ⟨fun r hr a ha => ?_, hc.scheduledLoras ▸ hlimit⟩
      rw [hc.scheduledLoras]
      obtain rfl | hr := mem_scheduledReqs_commitWaiting hc hr
      · -- the adapter was just added
        have ha' : (s₂.setQueue rest q).adapter r = some a := by
          rw [← (SameFixed.of_update hc.obj rfl).adapter r]
          exact ha
        unfold Scheduler.adapter at ha'
        rw [Option.filter_eq_some_iff, Option.map_eq_some_iff] at ha'
        obtain ⟨⟨lora, hl, rfl⟩, -⟩ := ha'
        exact hnew lora hl
      · rw [hfixed'.adapter] at ha
        exact hold a (hI.counted r hr a ha)

/-! ## A call of `schedule` -/

/-- The LoRA limit of one call: the assertion after the running pass holds, and
the requests in the output have at most `maxLoras` adapters. -/
structure LoraLimited (cfg : SchedulerConfig H) (env : ScheduleEnv) (maxLoras : Nat)
    (s : Scheduler H) : Prop where
  asserted : ∀ s₁ p₁, runningPass cfg env s.running.length
      { s with kvCacheManager := s.kvCacheManager.newStepStarts } (s.startPass cfg)
        = .ok (s₁, p₁) → (s₁.recordLoras cfg p₁).isOk = true
  output : ∀ s' out, s.schedule cfg env = .ok (s', out) →
    ∃ s₁ p, s.schedulePasses cfg env = .ok (s₁, p) ∧
      out.reqIds = (outputReqs cfg p).map (fun r => (s'.obj r).requestId) ∧
      (s'.adapters (outputReqs cfg p)).length ≤ maxLoras

theorem recordLoras_ok (hm : cfg.maxLoras = some maxLoras)
    (h : (s.adapters p.scheduledRunningReqs).length ≤ maxLoras) :
    s.recordLoras cfg p = .ok { p with scheduledLoras := s.adapters p.scheduledRunningReqs } := by
  unfold recordLoras
  rw [hm]
  dsimp only
  have hreq : Python.require (decide ((s.adapters p.scheduledRunningReqs).length ≤ maxLoras)) ""
      = .ok () := by
    rw [Python.require, if_pos (decide_eq_true h)]
  exact Raises.bind_eq_ok.mpr ⟨(), hreq, rfl⟩

/-- The running pass schedules no more adapters than the running requests use. -/
theorem fromRunning_adapters {s₀ : Scheduler H} (h : FromRunning s₀ s p) :
    (s.adapters p.scheduledRunningReqs).length ≤ (s₀.adapters s₀.running).length := by
  refine adapters_length_le fun r hr a ha => ?_
  rw [h.fixed.adapter] at ha
  exact mem_adapters.mpr ⟨r, h.scheduled r hr, ha⟩

theorem outputReqs_subset {r : ReqRef} (h : r ∈ outputReqs cfg p) : r ∈ scheduledReqs p := by
  unfold outputReqs at h
  unfold scheduledReqs
  split at h
  · exact h
  · simp only [List.mem_append] at h ⊢
    tauto

/-- A call keeps the limit when the running requests do. -/
theorem schedule_loraLimited (hm : cfg.maxLoras = some maxLoras)
    (h : (s.adapters s.running).length ≤ maxLoras) : LoraLimited cfg env maxLoras s := by
  have hstart : FromRunning s { s with kvCacheManager := s.kvCacheManager.newStepStarts }
      (s.startPass cfg) :=
    ⟨SameFixed.refl s, fun r hr => hr, fun r hr => (nomatch hr), rfl, rfl⟩
  have hrunning : ∀ s₁ p₁, runningPass cfg env s.running.length
      { s with kvCacheManager := s.kvCacheManager.newStepStarts } (s.startPass cfg)
        = .ok (s₁, p₁) → FromRunning s s₁ p₁ ∧
          s₁.recordLoras cfg p₁
            = .ok { p₁ with scheduledLoras := s₁.adapters p₁.scheduledRunningReqs } := by
    intro s₁ p₁ hpass
    have hfrom := runningPass_rule (fromRunning_rule s) _ _ _ _ _ hstart hpass
    exact ⟨hfrom, recordLoras_ok hm (Nat.le_trans (fromRunning_adapters hfrom) h)⟩
  constructor
  · intro s₁ p₁ hpass
    rw [(hrunning s₁ p₁ hpass).2]
    rfl
  · intro s' out hsched
    obtain ⟨s₂, p, s₃, out₁, hparts, -, hout, hafter⟩ := schedule_parts hsched
    have hpasses := hparts
    unfold schedulePasses at hpasses
    simp only [Raises.bind_eq_ok] at hpasses
    obtain ⟨⟨s₁, p₁⟩, hpass, p₂, hrecord, hwait⟩ := hpasses
    obtain ⟨hfrom, hok⟩ := hrunning s₁ p₁ hpass
    rw [hok] at hrecord
    obtain rfl := Except.ok.inj hrecord
    have hcounted : CountedLoras maxLoras s₁
        { p₁ with scheduledLoras := s₁.adapters p₁.scheduledRunningReqs } := by
      refine ⟨fun r hr a ha => ?_, Nat.le_trans (fromRunning_adapters hfrom) h⟩
      unfold scheduledReqs at hr
      dsimp only at hr
      rw [hfrom.new, hfrom.resumed] at hr
      exact mem_adapters.mpr ⟨r, hr, ha⟩
    have hdone := waitingPass_rule (countedLoras_rule hm)
      (fun t q w hI => hI.congr (SameFixed.refl t) rfl rfl) hcounted hwait
    have ha := updateAfterSchedule_effect hafter
    have hfixed : SameFixed s₂ s' := fun r => by rw [ha.fixed r, hout.obj]
    refine ⟨s₂, p, hparts, ?_, ?_⟩
    · have hids : out.reqIds = out₁.reqIds := by
        unfold SchedulerOutput.reqIds
        rw [ha.newReqs, ha.cachedReqs]
      rw [hids, hout.reqIds]
      refine List.map_congr_left fun r _ => ?_
      exact (congrArg Request.requestId (hfixed r)).symm
    · refine Nat.le_trans (adapters_length_le fun r hr a hra => ?_) hdone.limit
      rw [hfixed.adapter] at hra
      exact hdone.counted r (outputReqs_subset hr) a hra

end Scheduler

/-! ## Runs -/

/-- Before a `schedule` call the running requests use at most `maxLoras`
adapters. -/
def FewRunningAdapters (maxLoras : Nat) (e : Engine H) : SchedOp → Prop
  | .schedule _ => (e.scheduler.adapters e.scheduler.running).length ≤ maxLoras
  | _ => True

instance (maxLoras : Nat) (e : Engine H) (op : SchedOp) :
    Decidable (FewRunningAdapters maxLoras e op) := by
  cases op <;> unfold FewRunningAdapters <;> infer_instance

/-- A `schedule` call keeps the LoRA limit. -/
def KeepsLoraLimit (cfg : SchedulerConfig H) (maxLoras : Nat) (e : Engine H) : SchedOp → Prop
  | .schedule env => Scheduler.LoraLimited cfg env maxLoras e.scheduler
  | _ => True

/-- **The LoRA limit.** In a run in which the running requests use at most
`maxLoras` adapters before every `schedule` call, every call keeps the limit. -/
theorem lora_limit_run {cfg : SchedulerConfig H} {maxLoras : Nat}
    (hm : cfg.maxLoras = some maxLoras) {e₀ : Engine H} {ops : List SchedOp}
    (hfew : Run.Guarded (Engine.step cfg) (FewRunningAdapters maxLoras) e₀ ops) :
    Run.Guarded (Engine.step cfg) (KeepsLoraLimit cfg maxLoras) e₀ ops := by
  refine Run.Guarded.mono (fun e op hop => ?_) ops e₀ hfew
  cases op with
  | schedule env => exact Scheduler.schedule_loraLimited hm hop
  | addRequest e replies => trivial
  | updateFromOutput mro => trivial
  | finishRequests ids st replies => trivial
  | updateDraftTokenIds drafts validate => trivial
  | updateDraftTokenIdsInOutput drafts validate => trivial
  | setPauseState st => trivial
  | resetPrefixCache reset => trivial

/-! ## A run that exceeds the limit -/

/-- One adapter, and encoder inputs for one image in a step. -/
def loraConfig : SchedulerConfig Digest :=
  { smallConfig with
    maxNumEncoderInputTokens := 4
    longPrefillTokenThreshold := 4
    maxLoras := some 1 }

/-- Four text tokens and an image of four. -/
def imagePrompt (requestId : ReqId) (lora : Option LoRARequest) : EngineCoreRequest :=
  { plainPrompt requestId [1, 2, 3, 4, 5, 5, 5, 5] with
    mmFeatures := [⟨requestId, ⟨4, 4, none⟩⟩]
    loraRequest := lora }

/-- Two requests with an image and a third without. In the second step the
encoder budget is spent on the first image, so the request with adapter `1` gets
no tokens, and the third request enters with adapter `2`. -/
def twoAdapterOps : List SchedOp :=
  [addPrompt (imagePrompt "x" none), addPrompt (imagePrompt "a" (some ⟨"one", 1⟩)),
    .schedule quietEnv, .updateFromOutput (sampled fun _ => []),
    addPrompt { plainPrompt "b" [1, 2] with loraRequest := some ⟨"two", 2⟩ },
    .schedule quietEnv, .updateFromOutput (sampled fun id => if id = "a" then [] else [7])]

/-- The engine after some calls, without prefix caching. -/
def loraRun (ops : List SchedOp) : Except Python.Error (Engine Digest) := do
  let e ← Engine.init loraConfig [fullSpec 4 1] 16 false
  Engine.run loraConfig e ops

/-- Whether the assertion after the running pass holds in the next call. -/
def loraAssertion (e : Engine Digest) : Bool :=
  match Scheduler.runningPass loraConfig quietEnv e.scheduler.running.length
      { e.scheduler with kvCacheManager := e.scheduler.kvCacheManager.newStepStarts }
      (e.scheduler.startPass loraConfig) with
  | .ok (s, p) => (s.recordLoras loraConfig p).isOk
  | .error _ => true

theorem twoAdapters_fail : (loraRun twoAdapterOps).map loraAssertion = .ok false := by
  decide +kernel

/-- In the third step both adapters are scheduled and the assertion fails. -/
theorem skipped_request_breaks_limit :
    ¬ ∀ (cfg : SchedulerConfig Digest) (maxLoras : Nat) (specs : List KVCacheSpec)
      (numBlocks : Nat) (enableCaching : Bool) (e₀ : Engine Digest) (ops : List SchedOp),
      cfg.maxLoras = some maxLoras → Engine.init cfg specs numBlocks enableCaching = .ok e₀ →
      Run.Guarded (Engine.step cfg) (KeepsLoraLimit cfg maxLoras) e₀ ops := by
  intro h
  obtain ⟨e₀, hinit⟩ := Raises.exists_of_isOk
    (x := Engine.init loraConfig [fullSpec 4 1] 16 false) (by decide +kernel)
  have hg := h loraConfig 1 _ _ _ e₀ (twoAdapterOps ++ [.schedule quietEnv]) rfl hinit
  have hfail := twoAdapters_fail
  unfold loraRun at hfail
  rw [hinit, Raises.ok_bind] at hfail
  cases hrun : Engine.run loraConfig e₀ twoAdapterOps with
  | error err => rw [hrun] at hfail; cases hfail
  | ok e =>
    rw [hrun] at hfail
    have hlast := Run.Guarded.after hrun hg
    have hbad := Except.ok.inj hfail
    unfold loraAssertion at hbad
    split at hbad
    next s p hpass =>
      rw [hlast.asserted s p hpass] at hbad
      cases hbad
    · cases hbad

/-- Up to the call that admits the third request the running requests use one
adapter, and the calls keep the limit. -/
theorem oneAdapter_limited : ∃ e₀ : Engine Digest,
    Engine.init loraConfig [fullSpec 4 1] 16 false = .ok e₀ ∧
      Run.Guarded (Engine.step loraConfig) (KeepsLoraLimit loraConfig 1) e₀ twoAdapterOps := by
  obtain ⟨e₀, -, hinit, hfew, -, -⟩ := Run.Guarded.of_started (Engine.step loraConfig)
    (fun e op => decide (FewRunningAdapters 1 e op)) (Engine.init loraConfig [fullSpec 4 1] 16 false)
    id twoAdapterOps (fun _ => ()) () (by decide +kernel) (fun e op h => of_decide_eq_true h)
  exact ⟨e₀, hinit, lora_limit_run rfl hfew⟩

end VllmEngine
