import VllmEngine.Runner.RequestState
import VllmEngine.Sched.Departures

/-!
# The rows of the V2 runner against the scheduler

The scheduler bounds its running list, the worker frees a row when an output lists the request as
finished or preempted, or brings it again as new. A request that leaves the running list in another
way (a session that stops to wait for its next chunk, a forced reset of the prefix cache) keeps its
row for the time being: it is stale.

> `rows_never_run_out`: as long as no request is stale when `schedule` is called, or the requests that
> have a row, run or wait are at most `max_num_seqs`, there is always a free row, and the rows are
> partitioned.
-/

set_option linter.unusedSectionVars false

namespace VllmEngine.Runner

open Scheduler

variable {H : Type} [DecidableEq H]

/-- An error of one of the two sides. -/
inductive ServeError
  | scheduler (e : Python.Error)
  | worker (e : Python.Error)

/-- The scheduler and the V2 runner, which executes the outputs in order. -/
structure Served (H : Type) where
  engine : Engine H
  rows : RequestState

/-- The ids of some requests. -/
def idsOf (s : Scheduler H) (refs : List ReqRef) : List ReqId := refs.map fun r => (s.obj r).requestId

/-- The ids that the worker still hears of: they run, or the next output lists them as finished. -/
def announced (s : Scheduler H) : List ReqId := idsOf s s.running ++ s.finishedReqIds

namespace Served

variable {cfg : SchedulerConfig H}

def init (cfg : SchedulerConfig H) (numSpeculativeSteps : Nat) (e : Engine H) : Served H where
  engine := e
  rows := RequestState.init cfg.maxNumRunningReqs numSpeculativeSteps

/-- Calls other than `schedule` leave the worker alone. -/
def call (cfg : SchedulerConfig H) (s : Served H) (op : SchedOp) : Except ServeError (Served H) :=
  match Engine.step cfg s.engine op with
  | .error e => .error (.scheduler e)
  | .ok e' => .ok { s with engine := e' }

/-- A call of the scheduler; the output of `schedule` goes to the worker. -/
def step (cfg : SchedulerConfig H) (s : Served H) : SchedOp → Except ServeError (Served H)
  | .schedule env =>
    match s.engine.scheduler.schedule cfg env with
    | .error e => .error (.scheduler e)
    | .ok (sched, out) =>
      match s.rows.updateStates cfg.requestIdOrder out with
      | .error e => .error (.worker e)
      | .ok rows =>
        .ok { engine := { scheduler := sched, inFlight := s.engine.inFlight ++ [out] }
              rows := rows }
  | .addRequest req replies => s.call cfg (.addRequest req replies)
  | .updateFromOutput mro => s.call cfg (.updateFromOutput mro)
  | .finishRequests ids status replies => s.call cfg (.finishRequests ids status replies)
  | .updateDraftTokenIds drafts validate => s.call cfg (.updateDraftTokenIds drafts validate)
  | .updateDraftTokenIdsInOutput drafts validate => s.call cfg (.updateDraftTokenIdsInOutput drafts validate)
  | .setPauseState pauseState => s.call cfg (.setPauseState pauseState)
  | .resetPrefixCache reset => s.call cfg (.resetPrefixCache reset)

/-- The requests whose row the worker keeps without hearing of them. -/
def stale (s : Served H) : List ReqId :=
  s.rows.reqIdToIndex.keys.filter fun id => decide (id ∉ announced s.engine.scheduler)

/-- The requests that have a row, run or wait. -/
def claimants (s : Served H) : List ReqId :=
  (s.rows.reqIdToIndex.keys ++ idsOf s.engine.scheduler s.engine.scheduler.inQueues).dedup

/-- Before `schedule` no request is stale, or there is a row for every request. -/
def RowsFit (cfg : SchedulerConfig H) (s : Served H) : SchedOp → Prop
  | .schedule _ => s.stale = [] ∨ s.claimants.length ≤ cfg.maxNumRunningReqs
  | _ => True

instance (cfg : SchedulerConfig H) (s : Served H) : (op : SchedOp) → Decidable (RowsFit cfg s op)
  | .schedule _ => inferInstanceAs (Decidable (s.stale = [] ∨ s.claimants.length ≤ cfg.maxNumRunningReqs))
  | .addRequest _ _ | .updateFromOutput _ | .finishRequests _ _ _ | .updateDraftTokenIds _ _
  | .updateDraftTokenIdsInOutput _ _ | .setPauseState _ | .resetPrefixCache _ => isTrue trivial

/-! ## The partition of the rows -/

/-- The rows are partitioned. -/
def Partitioned (cfg : SchedulerConfig H) (s : Served H) : Prop :=
  RequestState.RowsPartition cfg.maxNumRunningReqs s.rows

theorem call_spec {s : Served H} {op : SchedOp} (hI : Partitioned cfg s) :
    (∀ s', s.call cfg op = .ok s' → Partitioned cfg s') ∧ s.call cfg op ≠ .error (.worker noFreeIndices) := by
  unfold Served.call
  cases Engine.step cfg s.engine op with
  | error e =>
    constructor
    · intro s' h
      cases h
    · intro h
      cases h
  | ok e' =>
    constructor
    · intro s' h
      cases h
      exact hI
    · intro h
      cases h

/-- A request that is not stale and keeps its row through a step runs afterwards. -/
theorem mem_running_of_kept {s sched : Scheduler H} {out : SchedulerOutput} {env : ScheduleEnv}
    (h : s.schedule cfg env = .ok (sched, out)) {id : ReqId} (hid : id ∈ announced s)
    (hfinished : id ∉ out.finishedReqIds) (hpreempted : id ∉ out.preemptedReqIds) :
    id ∈ idsOf sched sched.running := by
  obtain ⟨hstays, -, -, -, hfixed, hreported, -⟩ := schedule_departures h
  obtain hrunning | hfin := List.mem_append.mp hid
  · obtain ⟨r, hr, hrid⟩ := List.mem_map.mp hrunning
    obtain hr' | hpre := hstays r hr
    · refine List.mem_map.mpr ⟨r, hr', ?_⟩
      rw [hfixed.requestId]
      exact hrid
    · rw [hrid] at hpre
      exact absurd hpre hpreempted
  · rw [← hreported] at hfin
    exact absurd hfin hfinished

/-- The requests that have or need a row after the step fit in the rows. -/
theorem RowsFit.bound {s : Served H} {sched : Scheduler H} {out : SchedulerOutput} {env : ScheduleEnv}
    (hfit : RowsFit cfg s (.schedule env)) (h : s.engine.scheduler.schedule cfg env = .ok (sched, out)) :
    ∃ bound : List ReqId, bound.length ≤ cfg.maxNumRunningReqs ∧
      (∀ id ∈ s.rows.reqIdToIndex.keys, id ∉ out.finishedReqIds → id ∉ out.preemptedReqIds → id ∈ bound) ∧
      ∀ d ∈ out.scheduledNewReqs, d.reqId ∈ bound := by
  obtain ⟨-, hnew, hroom, hcame, hfixed, -⟩ := schedule_departures h
  obtain hnone | hall := hfit
  · -- The rows are those of running requests, which `schedule` bounds.
    refine ⟨idsOf sched sched.running, ?_, fun id hid hfinished hpreempted => ?_, fun d hd => ?_⟩
    · unfold idsOf
      rw [List.length_map]
      exact hroom
    · have hann : id ∈ announced s.engine.scheduler := by
        by_contra hnot
        exact List.filter_eq_nil_iff.mp hnone id hid (decide_eq_true hnot)
      exact mem_running_of_kept h hann hfinished hpreempted
    · obtain ⟨r, hr, hrid⟩ := hnew d hd
      exact List.mem_map.mpr ⟨r, hr, hrid⟩
  · refine ⟨s.claimants, hall, fun id hid _ _ => ?_, fun d hd => ?_⟩
    · exact List.mem_dedup.mpr (List.mem_append_left _ hid)
    · obtain ⟨r, hr, hrid⟩ := hnew d hd
      rw [hfixed.requestId] at hrid
      exact List.mem_dedup.mpr (List.mem_append_right _ (List.mem_map.mpr ⟨r, hcame r hr, hrid⟩))

theorem step_spec {s : Served H} {op : SchedOp} (hI : Partitioned cfg s) (hfit : RowsFit cfg s op) :
    (∀ s', s.step cfg op = .ok s' → Partitioned cfg s') ∧ s.step cfg op ≠ .error (.worker noFreeIndices) := by
  have hcall : (∀ s', s.call cfg op = .ok s' → Partitioned cfg s')
      ∧ s.call cfg op ≠ .error (.worker noFreeIndices) := call_spec hI
  cases op with
  | schedule env =>
    simp only [Served.step]
    cases hsched : s.engine.scheduler.schedule cfg env with
    | error e =>
      constructor
      · intro s' h
        cases h
      · intro h
        cases h
    | ok result =>
      obtain ⟨sched, out⟩ := result
      obtain ⟨bound, hbound, hkept, hnews⟩ := hfit.bound hsched
      dsimp only
      obtain ⟨rows, hrows, hpartition⟩ | ⟨e, herror, hne⟩ :=
        RequestState.updateStates_spec hI cfg.requestIdOrder out hbound hkept hnews
      · rw [hrows]
        constructor
        · intro s' h
          cases h
          exact hpartition
        · intro h
          cases h
      · rw [herror]
        constructor
        · intro s' h
          cases h
        · intro h
          cases h
          exact hne rfl
  | addRequest req replies => exact hcall
  | updateFromOutput mro => exact hcall
  | finishRequests ids status replies => exact hcall
  | updateDraftTokenIds drafts validate => exact hcall
  | updateDraftTokenIdsInOutput drafts validate => exact hcall
  | setPauseState pauseState => exact hcall
  | resetPrefixCache reset => exact hcall

/-- **The rows never run out**, and they are partitioned in every state reached. -/
theorem rows_never_run_out (e₀ : Engine H) (numSpeculativeSteps : Nat) {ops : List SchedOp}
    (hfit : Run.Guarded (step cfg) (RowsFit cfg) (init cfg numSpeculativeSteps e₀) ops) :
    Run.exec (step cfg) (init cfg numSpeculativeSteps e₀) ops ≠ .error (.worker noFreeIndices) ∧
      ∀ s, Run.exec (step cfg) (init cfg numSpeculativeSteps e₀) ops = .ok s →
        (∀ id id' row, s.rows.reqIdToIndex.get? id = some row → s.rows.reqIdToIndex.get? id' = some row →
          id = id') ∧
        (s.rows.freeIndices ++ s.rows.reqIdToIndex.values).Perm (List.range cfg.maxNumRunningReqs) := by
  have hstart : Partitioned cfg (init cfg numSpeculativeSteps e₀) := RequestState.RowsPartition.init _ _
  refine ⟨Run.exec_ne_error (fun s op s' hs hg h => (step_spec hs hg).1 s' h) (fun s op hs hg => (step_spec hs hg).2)
    ops _ hstart hfit, fun s hs => ?_⟩
  have hI := Run.exec_inv (fun s op s' hs hg h => (step_spec hs hg).1 s' h) ops _ s hstart hfit hs
  refine ⟨fun id id' row hid hid' => ?_, hI.rows⟩
  have hname := (hI.named row id).mpr hid
  rw [(hI.named row id').mpr hid'] at hname
  exact (Option.some.inj hname).symm

/-! ## A session that keeps the only row -/

/-- One request at a time. -/
def oneRowConfig : SchedulerConfig Digest :=
  { smallConfig with
    maxNumRunningReqs := 1
    useV2ModelRunner := true }

/-- A chunk of a streaming session; the token `99` ends its output. -/
def streamPrompt (requestId : ReqId) (toks : List Token) : EngineCoreRequest :=
  { plainPrompt requestId toks with
    resumable := true
    samplingParams := some
      { maxTokens := 16
        minTokens := 0
        eosTokenId := some 99
        stopTokenIds := []
        repetitionDetection := none
        structuredOutputs := false
        skipReadingPrefixCache := none } }

/-- The session is done with its chunk and waits for the next one, while another request is
scheduled. -/
def keptRowOps : List SchedOp :=
  [addPrompt (streamPrompt "a" [11, 12]), .schedule quietEnv, .updateFromOutput (sampled fun _ => [99]),
    addPrompt (plainPrompt "b" [1, 2]), .schedule quietEnv]

def rowsRun (ops : List SchedOp) : Except ServeError (Served Digest) :=
  match Engine.init oneRowConfig [fullSpec 4 1] 4 true with
  | .error e => .error (.scheduler e)
  | .ok e => Run.exec (step oneRowConfig) (init oneRowConfig 0 e) ops

/-- Whether the assertion about free rows failed. -/
def ranOut : Except ServeError (Served Digest) → Bool
  | .error (.worker (.assertion text)) => decide (text = "No free indices")
  | _ => false

theorem keptRow_ranOut : ranOut (rowsRun keptRowOps) = true := by
  decide +kernel

/-- The second request finds no free row. -/
theorem waiting_session_keeps_row :
    ¬ ∀ (cfg : SchedulerConfig Digest) (specs : List KVCacheSpec) (numBlocks : Nat) (enableCaching : Bool)
      (e₀ : Engine Digest) (ops : List SchedOp), cfg.useV2ModelRunner = true →
      Engine.init cfg specs numBlocks enableCaching = .ok e₀ →
      Run.exec (step cfg) (init cfg 0 e₀) ops ≠ .error (.worker noFreeIndices) := by
  intro h
  have hout := keptRow_ranOut
  unfold rowsRun at hout
  cases hinit : Engine.init oneRowConfig [fullSpec 4 1] 4 true with
  | error err =>
    rw [hinit] at hout
    cases hout
  | ok e₀ =>
    rw [hinit] at hout
    have hrun := h oneRowConfig [fullSpec 4 1] 4 true e₀ keptRowOps rfl hinit
    revert hout
    dsimp only
    unfold ranOut
    split
    next text heq =>
      intro htext
      rw [of_decide_eq_true htext] at heq
      exact absurd heq hrun
    next =>
      intro hfalse
      cases hfalse

/-- The session goes on with its next chunk and ends before the other request comes; in between its
row is stale. -/
def resumedRowOps : List SchedOp :=
  [addPrompt (streamPrompt "a" [11, 12]), .schedule quietEnv, .updateFromOutput (sampled fun _ => [99]),
    .schedule quietEnv, addPrompt (streamPrompt "a" [13]), .schedule quietEnv,
    .finishRequests (some ["a"]) .finishedAborted (fun _ => false),
    addPrompt (plainPrompt "b" [1, 2]), .schedule quietEnv]

theorem resumed_session_rows : ∃ e₀ : Engine Digest, ∃ s : Served Digest,
    Engine.init oneRowConfig [fullSpec 4 1] 4 true = .ok e₀
      ∧ Run.exec (step oneRowConfig) (init oneRowConfig 0 e₀) resumedRowOps = .ok s
      ∧ s.rows.reqIdToIndex.get? "b" = some 0
      ∧ (s.rows.freeIndices ++ s.rows.reqIdToIndex.values).Perm (List.range 1) := by
  obtain ⟨e₀, s, hinit, hfit, hrun, hrow⟩ := Run.Guarded.of_started (step oneRowConfig)
    (fun s op => decide (RowsFit oneRowConfig s op)) (Engine.init oneRowConfig [fullSpec 4 1] 4 true)
    (init oneRowConfig 0) resumedRowOps (fun s => s.rows.reqIdToIndex.get? "b") (some 0)
    (by decide +kernel) (fun s op h => of_decide_eq_true h)
  exact ⟨e₀, s, hinit, hrun, hrow, ((rows_never_run_out e₀ 0 hfit).2 s hrun).2⟩

end Served

end VllmEngine.Runner
