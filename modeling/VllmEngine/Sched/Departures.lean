import VllmEngine.Sched.Lora

/-!
# Who leaves the running list in `schedule`

A request that runs before `schedule` and not after it was preempted, and the output says so; the
requests that the output brings as new run afterwards; who runs afterwards ran or waited before; and
the finished ids that the output reports are all that were noted before.

> `schedule_departures`
-/

set_option linter.unusedSectionVars false

namespace VllmEngine

open List

variable {H : Type} [DecidableEq H]

namespace Scheduler

variable {cfg : SchedulerConfig H} {env : ScheduleEnv}

variable {s s' : Scheduler H} {ref : ReqRef} {p p' : Pass} {plan : EncoderPlan}

theorem setQueue_finished (s : Scheduler H) (rest : RequestQueue) (q : WaitingQueue) :
    (s.setQueue rest q).finishedReqIds = s.finishedReqIds := by
  cases q with
  | waiting => rfl
  | skippedWaiting => rfl

theorem setQueue_running (s : Scheduler H) (rest : RequestQueue) (q : WaitingQueue) :
    (s.setQueue rest q).running = s.running := by
  cases q with
  | waiting => rfl
  | skippedWaiting => rfl

/-! ## The passes -/

/-- The requests that run or wait. -/
def inQueues (s : Scheduler H) : List ReqRef := s.running ++ (s.waiting ++ s.skippedWaiting)

/-- What a pass has done to the requests that ran before it, and to those it starts. -/
structure Departed (s₀ s : Scheduler H) (p : Pass) : Prop where
  fixed : SameFixed s₀ s
  finished : s.finishedReqIds = s₀.finishedReqIds
  stays : ∀ r ∈ s₀.running, r ∈ s.running ∨ r ∈ p.preemptedReqs
  started : ∀ r ∈ p.scheduledNewReqs ++ p.scheduledResumedReqs, r ∈ s.running
  came : ∀ r ∈ s.running, r ∈ s₀.inQueues

/-- Who waits ran or waited before. -/
def Queued (s₀ s : Scheduler H) : Prop := ∀ r ∈ s.waiting ++ s.skippedWaiting, r ∈ s₀.inQueues

theorem Queued.congr {s₀ : Scheduler H} (h : Queued s₀ s) (hq : SameFrame s s') : Queued s₀ s' := by
  intro r hr
  rw [hq.waiting, hq.skippedWaiting] at hr
  exact h r hr

theorem Queued.pop {s₀ : Scheduler H} {q : WaitingQueue} {ref : ReqRef} {rest : RequestQueue}
    (h : Queued s₀ s) (hperm : s.queue q ~ ref :: rest) :
    Queued s₀ (s.setQueue rest q) ∧ ref ∈ s₀.inQueues := by
  cases q with
  | waiting =>
    have hmem : ∀ r ∈ ref :: rest, r ∈ s₀.inQueues := fun r hr =>
      h r (List.mem_append_left _ (hperm.mem_iff.mpr hr))
    refine ⟨fun r hr => ?_, hmem ref List.mem_cons_self⟩
    obtain hr | hr := List.mem_append.mp hr
    · exact hmem r (List.mem_cons_of_mem ref hr)
    · exact h r (List.mem_append_right _ hr)
  | skippedWaiting =>
    have hmem : ∀ r ∈ ref :: rest, r ∈ s₀.inQueues := fun r hr =>
      h r (List.mem_append_right _ (hperm.mem_iff.mpr hr))
    refine ⟨fun r hr => ?_, hmem ref List.mem_cons_self⟩
    obtain hr | hr := List.mem_append.mp hr
    · exact h r (List.mem_append_left _ hr)
    · exact hmem r (List.mem_cons_of_mem ref hr)

/-- Nothing is started yet. -/
structure DepartedFirst (s₀ s : Scheduler H) (p : Pass) : Prop where
  departed : Departed s₀ s p
  queued : Queued s₀ s
  none : p.scheduledNewReqs ++ p.scheduledResumedReqs = []

theorem SameFixed.requestId (h : SameFixed s s') (r : ReqRef) :
    (s'.obj r).requestId = (s.obj r).requestId := by
  have hr : (s'.obj r).fixed.requestId = (s.obj r).fixed.requestId := by rw [h r]
  exact hr

theorem Departed.congr {s₀ : Scheduler H} (h : Departed s₀ s p) (hf : SameFixed s s')
    (hfin : s'.finishedReqIds = s.finishedReqIds) (hrun : s'.running = s.running)
    (hpre : p'.preemptedReqs = p.preemptedReqs)
    (hnew : p'.scheduledNewReqs ++ p'.scheduledResumedReqs = p.scheduledNewReqs ++ p.scheduledResumedReqs) :
    Departed s₀ s' p' where
  fixed := h.fixed.trans hf
  finished := hfin.trans h.finished
  stays := by
    rw [hrun, hpre]
    exact h.stays
  started := by
    rw [hrun, hnew]
    exact h.started
  came := by
    rw [hrun]
    exact h.came

theorem Preempted.departed {s₀ : Scheduler H} {victim : ReqRef}
    (hp : Preempted cfg s p victim s' p') (h : DepartedFirst s₀ s p) : DepartedFirst s₀ s' p' := by
  obtain ⟨p₁, hrevoke, heq⟩ := hp.pass
  have hr := revoke_effect hrevoke
  have hperm := popVictim_perm hp.pop
  have hnone : p'.scheduledNewReqs ++ p'.scheduledResumedReqs = [] := by
    rw [heq]
    show p₁.scheduledNewReqs ++ p₁.scheduledResumedReqs = []
    rw [hr.scheduledNewReqs, hr.scheduledResumedReqs]
    exact h.none
  have hpre : p'.preemptedReqs = p.preemptedReqs ++ [victim] := by
    rw [heq]
    show p₁.preemptedReqs ++ [victim] = _
    rw [hr.preemptedReqs]
  refine ⟨⟨h.departed.fixed.trans (SameFixed.of_update hp.obj rfl), hp.finishedReqIds.trans h.departed.finished,
    fun r hr => ?_, fun r hr => ?_, fun r hr => ?_⟩, fun r hr => ?_, hnone⟩
  · rw [hpre]
    obtain hrun | hrun := h.departed.stays r hr
    · obtain hv | hrest := List.mem_cons.mp (hperm.mem_iff.mp hrun)
      · exact Or.inr (List.mem_append_right _ (List.mem_singleton.mpr hv))
      · exact Or.inl hrest
    · exact Or.inr (List.mem_append_left _ hrun)
  · rw [hnone] at hr
    cases hr
  · exact h.departed.came r (hperm.mem_iff.mpr (List.mem_cons_of_mem victim hr))
  · rw [hp.skippedWaiting] at hr
    obtain hr | hr := List.mem_append.mp hr
    · obtain rfl | hr := List.mem_cons.mp (hp.waiting.mem_iff.mp hr)
      · exact h.departed.came r (hperm.mem_iff.mpr List.mem_cons_self)
      · exact h.queued r (List.mem_append_left _ hr)
    · exact h.queued r (List.mem_append_right _ hr)

theorem departed_runningRule (s₀ : Scheduler H) :
    RunningRule cfg env (DepartedFirst s₀) (fun _ _ _ s p => DepartedFirst s₀ s p) where
  reached _ _ _ hI _ _ _ := ⟨hI.departed.congr (SameFixed.refl _) rfl rfl rfl rfl, hI.queued, hI.none⟩
  zero _ _ _ _ _ hI _ _ _ hplan := by
    have h' := (planRunning_effect hplan).1
    exact ⟨hI.departed.congr (fun r => by rw [h'.obj]) h'.queues.finishedReqIds h'.queues.running rfl rfl,
      hI.queued.congr h'.queues, hI.none⟩
  plan _ _ _ _ _ _ hI _ _ _ hplan _ := by
    have h' := (planRunning_effect hplan).1
    exact ⟨hI.departed.congr (fun r => by rw [h'.obj]) h'.queues.finishedReqIds h'.queues.running rfl rfl,
      hI.queued.congr h'.queues, hI.none⟩
  preempt _ _ _ s p kv _ _ _ hJ _ hpre _ :=
    (preemptVictim_effect hpre).departed
      ⟨hJ.departed.congr (SameFixed.refl _) rfl rfl rfl rfl, hJ.queued, hJ.none⟩
  preemptSelf _ _ _ s p kv _ _ hJ _ hpre :=
    (preemptVictim_effect hpre).departed
      ⟨hJ.departed.congr (SameFixed.refl _) rfl rfl rfl rfl, hJ.queued, hJ.none⟩
  commit ref _ _ s p kv _ s' p' hJ _ hcommit := by
    have hc := commitRunning_effect hcommit
    have hnew : p'.scheduledNewReqs ++ p'.scheduledResumedReqs
        = p.scheduledNewReqs ++ p.scheduledResumedReqs := by
      rw [hc.scheduledNewReqs, hc.scheduledResumedReqs]
    have hkv : Departed s₀ { s with kvCacheManager := kv } p :=
      hJ.departed.congr (SameFixed.refl _) rfl rfl rfl rfl
    exact ⟨hkv.congr (SameFixed.of_update hc.obj rfl) hc.queues.finishedReqIds hc.queues.running
      hc.preemptedReqs hnew, Queued.congr (s := { s with kvCacheManager := kv }) hJ.queued hc.queues,
      hnew.trans hJ.none⟩

theorem departed_waitingRule (s₀ : Scheduler H) : WaitingRule cfg env
    (fun s p => Departed s₀ s p ∧ Queued s₀ s) where
  skip s p q ref round s₁ s' p' hI _ hex hskip := by
    obtain ⟨r, rest, -, hperm, rfl, skipped, -, rfl⟩ := skipRequest_effect hskip
    have ht := (examineWaiting_effect hex).1
    refine ⟨hI.1.congr (ht.sameFixed.trans (setQueue_sameFixed s₁ rest q)) ?_ ?_ rfl rfl,
      ((hI.2.congr ht.queues).pop hperm).1⟩
    · rw [setQueue_finished]
      exact ht.queues.finishedReqIds
    · rw [setQueue_running]
      exact ht.queues.running
  stop s p q ref round s₁ c s' hI _ hex hprep := by
    have ht := (examineWaiting_effect hex).1
    obtain ⟨hqueues, hobj, -⟩ := prepareWaiting_effect hprep
    exact ⟨hI.1.congr (ht.sameFixed.trans fun r => by rw [hobj])
      (hqueues.finishedReqIds.trans ht.queues.finishedReqIds)
      (hqueues.running.trans ht.queues.running) rfl rfl, hI.2.congr (ht.queues.trans hqueues)⟩
  take s p q ref round s₁ c s₂ n plan s' p' hI hpeek hex hprep htake := by
    have ht := (examineWaiting_effect hex).1
    obtain ⟨hqueues, hobj, -⟩ := prepareWaiting_effect hprep
    have hpeek₂ : RequestQueue.peekRequest cfg.policy (s₂.queue q) = .ok ref := by
      rw [hqueues.queue, ht.queues.queue]
      exact hpeek.peek
    have hfixed : SameFixed s s₂ := ht.sameFixed.trans fun r => by rw [hobj]
    have hfin : ∀ rest, (s₂.setQueue rest q).finishedReqIds = s.finishedReqIds :=
      fun rest => (setQueue_finished s₂ rest q).trans (hqueues.finishedReqIds.trans ht.queues.finishedReqIds)
    have hrun₂ : s₂.running = s.running := hqueues.running.trans ht.queues.running
    obtain ⟨rest, hperm, ⟨-, heq⟩ | ⟨-, hc⟩⟩ := takeWaiting_effect hpeek₂ htake
    · obtain ⟨rfl, rfl⟩ := Prod.mk.inj heq
      have hpop := ((hI.2.congr (ht.queues.trans hqueues)).pop hperm).1
      refine ⟨hI.1.congr (hfixed.trans fun r => ?_) (hfin rest) ?_ rfl rfl, hpop⟩
      · have h₁ := Touched.modify (s₂.setQueue rest q) ref
          (f := fun r => { r with status := .waitingForRemoteKvs }) rfl
        have h₂ := Touched.modify ((s₂.setQueue rest q).modify ref
          fun r => { r with status := .waitingForRemoteKvs }) ref
          (f := fun r => { r with numComputedTokens := c.numComputedTokens }) rfl
        rw [← setQueue_sameFixed s₂ rest q r]
        exact (h₁.trans h₂).sameFixed r
      · show (s₂.setQueue rest q).running = s.running
        rw [setQueue_running, hrun₂]
    · have hrun' : s'.running = s.running ++ [ref] := by
        rw [hc.running, setQueue_running, hrun₂]
      obtain ⟨hrest, href⟩ := (hI.2.congr (ht.queues.trans hqueues)).pop hperm
      refine ⟨⟨(hI.1.fixed.trans hfixed).trans ((setQueue_sameFixed s₂ rest q).trans
        (SameFixed.of_update hc.obj rfl)), (hc.finishedReqIds.trans (hfin rest)).trans hI.1.finished, fun r hr => ?_, fun r hr => ?_,
        fun r hr => ?_⟩, fun r hr => ?_⟩
      · rw [hrun', hc.preemptedReqs]
        exact (hI.1.stays r hr).imp_left (List.mem_append_left _)
      · rw [hrun']
        rw [hc.scheduledNewReqs, hc.scheduledResumedReqs] at hr
        -- The request was filed under the new or the resumed ones.
        have hcases : r ∈ p.scheduledNewReqs ++ p.scheduledResumedReqs ∨ r = ref := by
          split at hr
          · simp only [List.mem_append, List.mem_singleton] at hr ⊢
            tauto
          · simp only [List.mem_append, List.mem_singleton] at hr ⊢
            tauto
        obtain hr | hr := hcases
        · exact List.mem_append_left _ (hI.1.started r hr)
        · exact List.mem_append_right _ (List.mem_singleton.mpr hr)
      · rw [hrun'] at hr
        obtain hr | hr := List.mem_append.mp hr
        · exact hI.1.came r hr
        · rw [List.mem_singleton.mp hr]
          exact href
      · rw [hc.waiting, hc.skippedWaiting] at hr
        exact hrest r hr

theorem schedulePasses_departed (h : s.schedulePasses cfg env = .ok (s', p)) : Departed s s' p := by
  unfold schedulePasses at h
  simp only [Raises.bind_eq_ok] at h
  obtain ⟨⟨s₁, p₁⟩, hrunning, p₂, hloras, hwaiting⟩ := h
  have hstart : DepartedFirst s { s with kvCacheManager := s.kvCacheManager.newStepStarts } (s.startPass cfg) :=
    ⟨⟨SameFixed.refl _, rfl, fun r hr => Or.inl hr, fun r hr => (by cases hr),
      fun r hr => List.mem_append_left _ hr⟩, fun r hr => List.mem_append_right _ hr, rfl⟩
  have hfirst := runningPass_rule (departed_runningRule s) _ _ _ _ _ hstart hrunning
  have hsame : p₂.preemptedReqs = p₁.preemptedReqs
      ∧ p₂.scheduledNewReqs ++ p₂.scheduledResumedReqs = p₁.scheduledNewReqs ++ p₁.scheduledResumedReqs := by
    unfold recordLoras at hloras
    split at hloras
    · obtain rfl := Except.ok.inj hloras
      exact ⟨rfl, rfl⟩
    · simp only [Raises.bind_eq_ok, Raises.pure_eq_ok] at hloras
      obtain ⟨⟨⟩, -, rfl⟩ := hloras
      exact ⟨rfl, rfl⟩
  have hbetween : Departed s s₁ p₂ := hfirst.departed.congr (SameFixed.refl _) rfl rfl hsame.1 hsame.2
  -- Who waits is only followed through the loop: the pass merges the skipped requests at its end.
  unfold waitingPass at hwaiting
  split at hwaiting
  · rw [Raises.bind_eq_ok] at hwaiting
    obtain ⟨⟨s₂, p₃⟩, hloop, hwaiting⟩ := hwaiting
    obtain ⟨rfl, rfl⟩ := Prod.mk.inj (Except.ok.inj hwaiting)
    exact (waitingLoop_rule (departed_waitingRule s) _ _ _ _ _ ⟨hbetween, hfirst.queued⟩ hloop).1.congr
      (SameFixed.refl _) rfl rfl rfl rfl
  · obtain ⟨rfl, rfl⟩ := Prod.mk.inj (Except.ok.inj hwaiting)
    exact hbetween

/-! ## The output -/

/-- What the bookkeeping after the passes leaves of the reported ids. -/
theorem updateAfterSchedule_reported {out out' : SchedulerOutput}
    (h : s.updateAfterSchedule cfg out = .ok (s', out')) :
    out'.preemptedReqIds = out.preemptedReqIds ∧ out'.finishedReqIds = out.finishedReqIds
      ∧ s'.finishedReqIds = [] := by
  have hadvance : ∀ (st st' : Scheduler H × SchedulerOutput) (entry : ReqId × Int),
      advanceComputed st entry = .ok st' → st'.2.preemptedReqIds = st.2.preemptedReqIds
        ∧ st'.2.finishedReqIds = st.2.finishedReqIds := by
    intro st st' entry hst
    unfold advanceComputed at hst
    simp only [Raises.bind_eq_ok, Raises.pure_eq_ok] at hst
    obtain ⟨ref, -, rfl⟩ := hst
    exact ⟨rfl, rfl⟩
  have hplaceholders : ∀ (st st' : Scheduler H × SchedulerOutput) (entry : ReqId × Int),
      addPlaceholders cfg st entry = .ok st' → st'.2.preemptedReqIds = st.2.preemptedReqIds
        ∧ st'.2.finishedReqIds = st.2.finishedReqIds ∧ st'.1.finishedReqIds = st.1.finishedReqIds := by
    intro st st' entry hst
    unfold addPlaceholders at hst
    simp only [Raises.bind_eq_ok] at hst
    obtain ⟨ref, -, hst⟩ := hst
    split at hst
    · obtain rfl := Except.ok.inj hst
      exact ⟨rfl, rfl, rfl⟩
    · obtain rfl := Except.ok.inj hst
      exact ⟨rfl, rfl, rfl⟩
  unfold updateAfterSchedule at h
  rw [Raises.bind_eq_ok] at h
  obtain ⟨⟨s₁, out₁⟩, hadv, h⟩ := h
  have h₁ := Raises.foldlM_inv
    (I := fun st => st.2.preemptedReqIds = out.preemptedReqIds ∧ st.2.finishedReqIds = out.finishedReqIds)
    _ _ _ (fun entry _ t t' ht hstep => ⟨(hadvance t t' entry hstep).1.trans ht.1,
      (hadvance t t' entry hstep).2.trans ht.2⟩) ⟨rfl, rfl⟩ hadv
  dsimp only at h
  split at h
  · have h₂ := Raises.foldlM_inv
      (I := fun st => st.2.preemptedReqIds = out.preemptedReqIds ∧ st.2.finishedReqIds = out.finishedReqIds
        ∧ st.1.finishedReqIds = [])
      _ _ _ (fun entry _ t t' ht hstep => ⟨(hplaceholders t t' entry hstep).1.trans ht.1,
        (hplaceholders t t' entry hstep).2.1.trans ht.2.1, (hplaceholders t t' entry hstep).2.2.trans ht.2.2⟩)
      ⟨h₁.1, h₁.2, rfl⟩ h
    exact h₂
  · obtain ⟨rfl, rfl⟩ := Prod.mk.inj (Except.ok.inj h)
    exact ⟨h₁.1, h₁.2, rfl⟩

/-- **Departures**: the requests that ran before run or were preempted, the new ones of the output run,
at most `max_num_running_reqs` run and all of them ran or waited, and all finished ids are reported. -/
theorem schedule_departures {out : SchedulerOutput} (h : s.schedule cfg env = .ok (s', out)) :
    (∀ r ∈ s.running, r ∈ s'.running ∨ (s.obj r).requestId ∈ out.preemptedReqIds)
      ∧ (∀ d ∈ out.scheduledNewReqs, ∃ r ∈ s'.running, (s'.obj r).requestId = d.reqId)
      ∧ s'.running.length ≤ cfg.maxNumRunningReqs ∧ (∀ r ∈ s'.running, r ∈ s.inQueues)
      ∧ SameFixed s s' ∧ out.finishedReqIds = s.finishedReqIds ∧ s'.finishedReqIds = [] := by
  unfold schedule at h
  simp only [Raises.bind_eq_ok] at h
  obtain ⟨⟨s₁, p⟩, hpasses, ⟨⟩, hasserted, ⟨s₂, out₁⟩, hout, hafter⟩ := h
  have hdeparted := schedulePasses_departed hpasses
  have heffect := updateAfterSchedule_effect hafter
  obtain ⟨hpre, hfin, hclear⟩ := updateAfterSchedule_reported hafter
  have houtput := makeOutput_effect hout
  unfold makeOutput at hout
  simp only [Raises.bind_eq_ok, Raises.pure_eq_ok] at hout
  obtain ⟨newData, hnew, cached, -, heq⟩ := hout
  have hrun : s'.running = s₁.running := heffect.queues.running.trans houtput.running
  have hsame : SameFixed s₁ s₂ := fun r => by rw [houtput.obj]
  have hfixed : SameFixed s₁ s' := SameFixed.trans hsame heffect.fixed
  have hnewIds := newRequestData_reqIds hnew
  obtain ⟨kv, hkv⟩ := takeNewBlockIds_effect cfg { s₁ with prevStepScheduledReqIds := p.numScheduledTokens.keys }
  have hout₁ : out₁.scheduledNewReqs = newData
      ∧ out₁.preemptedReqIds = p.preemptedReqs.map (fun r => (s₁.obj r).requestId)
      ∧ out₁.finishedReqIds = s₁.finishedReqIds := by
    obtain ⟨-, rfl⟩ := Prod.mk.inj heq
    dsimp only
    rw [hkv]
    exact ⟨rfl, rfl, rfl⟩
  have hasserted := require_ok hasserted
  unfold constraintsOk at hasserted
  rw [decide_eq_true_eq] at hasserted
  refine ⟨fun r hr => ?_, fun d hd => ?_, hrun ▸ hasserted.2.2.1, hrun ▸ hdeparted.came,
    hdeparted.fixed.trans hfixed, ?_, hclear⟩
  · rw [hrun, hpre, hout₁.2.1]
    refine (hdeparted.stays r hr).imp_right fun hr' => ?_
    rw [← hdeparted.fixed.requestId r]
    exact List.mem_map_of_mem hr'
  · rw [heffect.newReqs, hout₁.1] at hd
    have hid : d.reqId ∈ newData.map (·.reqId) := List.mem_map_of_mem hd
    rw [hnewIds] at hid
    obtain ⟨r, hr, hrd⟩ := List.mem_map.mp hid
    have hr' : r ∈ p.scheduledNewReqs ++ p.scheduledResumedReqs := by
      cases hv : cfg.useV2ModelRunner with
      | true =>
        rw [hv] at hr
        exact hr
      | false =>
        rw [hv] at hr
        exact List.mem_append_left _ hr
    refine ⟨r, ?_, ?_⟩
    · rw [hrun]
      exact hdeparted.started r hr'
    · rw [hfixed.requestId]
      exact hrd
  · rw [hfin, hout₁.2.2, hdeparted.finished]

end Scheduler

end VllmEngine
