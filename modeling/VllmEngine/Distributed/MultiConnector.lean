import VllmEngine.Lib.Dict
import VllmEngine.Lib.Run
import VllmEngine.Lib.Python
import Mathlib.Data.List.Count
import Mathlib.Data.List.TakeWhile

/-!
# Several connectors behind one

`MultiConnector` (`kv_connector/v1/multi_connector.py`) stands for a list of child connectors. On the scheduler's
side it chooses the child a request is loaded from and counts the children that save it; the count of the saves
beyond the first travels to the worker with the metadata of a step, and there the reports of the children are
counted down.

Mirroring notes:
- What the children answer and report is an input; their own metadata is left out.
- There is one worker; each worker of an engine is told the same and counts for itself.
- The ids of the finished requests travel with the metadata, as in `SchedulerOutput`. Outputs reach the worker
  in the order they are made.
- A set is a list without duplicates; no result depends on its order.

> `kept_apart`: in a run in which no request that a child once offered tokens for is allocated after a call that
> found none, the blocks go to the child that was chosen last, and every request is reported once, when all the
> children that save it have reported it.
-/

namespace VllmEngine.Distributed.Multi

/-- The scheduler's instance of `MultiConnector`. -/
structure MultiScheduler where
  requestsToConnector : Dict String Nat
  extraAsyncSaves : Dict String Nat
deriving DecidableEq

/-- What a step's output tells the worker; `extraAsyncSaves` is in the `MultiKVConnectorMetadata`. -/
structure StepOutput where
  finishedReqIds : List String
  extraAsyncSaves : Option (Dict String Nat)
deriving DecidableEq

/-- What the latest `get_num_new_matched_tokens` of a request came to. -/
inductive Matched
  | waiting
  | nothing
  | child (index : Nat)
deriving DecidableEq, Repr

/-- A call of `update_state_after_alloc`, with what each child was given. -/
structure Passed where
  matched : Option Matched
  blocks : List (List Nat)
  numExternalTokens : Nat
  calls : List (List (List Nat) × Nat)
deriving DecidableEq

structure MultiLog where
  latest : Dict String Matched
  /-- The calls of `get_num_new_matched_tokens`: the answers of the children and what it returned. -/
  returned : List (List (Option Nat × Bool) × (Option Nat × Bool))
  /-- The requests some child has offered tokens for. -/
  offered : List String
  passed : List Passed
  /-- The children that save a request and have not reported it. -/
  owed : List (String × Nat)
  /-- The requests for which `request_finished` returned `True`. -/
  promised : List String
  finishedSending : List String
deriving DecidableEq

structure MultiState where
  scheduler : MultiScheduler
  /-- The scheduler's `finished_req_ids`. -/
  finishedReqIds : List String
  outputs : List StepOutput
  /-- The worker's `_extra_async_saves`. -/
  extraAsyncSaves : Dict String Nat
  log : MultiLog
deriving DecidableEq

def MultiState.init : MultiState :=
  ⟨⟨Dict.empty, Dict.empty⟩, [], [], Dict.empty, ⟨Dict.empty, [], [], [], [], [], []⟩⟩

/-! ## The scheduler's side -/

/-- The loop of `get_num_new_matched_tokens`, over the children with their answers. -/
def matchFrom (reqId : String) : List ((Option Nat × Bool) × Nat) → Nat × Bool → MultiScheduler →
    (Option Nat × Bool) × MultiScheduler
  | [], toReturn, m => ((some toReturn.1, toReturn.2), m)
  | ((none, _), _) :: _, _, m => ((none, false), m)
  | ((some toks, loadAsync), i) :: rest, toReturn, m =>
    if toReturn.1 = 0 ∧ 0 < toks then
      matchFrom reqId rest (toks, loadAsync) { m with requestsToConnector := m.requestsToConnector.set reqId i }
    else matchFrom reqId rest toReturn m

def MultiScheduler.getNumNewMatchedTokens (m : MultiScheduler) (reqId : String) (answers : List (Option Nat × Bool)) :
    (Option Nat × Bool) × MultiScheduler :=
  matchFrom reqId answers.zipIdx (0, false) m

/-- `KVCacheBlocks.new_empty`. -/
def newEmpty (blocks : List (List Nat)) : List (List Nat) := blocks.map fun _ => []

/-- What `update_state_after_alloc` gives each of the children. -/
def MultiScheduler.updateStateAfterAlloc (m : MultiScheduler) (children : Nat) (reqId : String)
    (blocks : List (List Nat)) (numExternalTokens : Nat) : List (List (List Nat) × Nat) :=
  (List.range children).map fun i =>
    if m.requestsToConnector.get? reqId = some i then (blocks, numExternalTokens) else (newEmpty blocks, 0)

/-- One child in `request_finished`: the count of the saves and the parameters so far. -/
def childFinished {P : Type} (acc : Nat × Option P) (answer : Bool × Option P) :
    Except Python.Error (Nat × Option P) :=
  let asyncSaves := if answer.1 then acc.1 + 1 else acc.1
  match answer.2, acc.2 with
  | none, params => .ok (asyncSaves, params)
  | some params, none => .ok (asyncSaves, some params)
  | some _, some _ => .error (.runtime "Only one connector can produce KV transfer params")

def MultiScheduler.requestFinished {P : Type} (m : MultiScheduler) (reqId : String) (answers : List (Bool × Option P)) :
    Except Python.Error ((Bool × Option P) × MultiScheduler) := do
  let found ← answers.foldlM childFinished (0, none)
  let extraAsyncSaves := if 1 < found.1 then m.extraAsyncSaves.set reqId (found.1 - 1) else m.extraAsyncSaves
  return ((decide (0 < found.1), found.2), {
    requestsToConnector := m.requestsToConnector.erase reqId
    extraAsyncSaves := extraAsyncSaves })

/-- `build_connector_meta`. -/
def MultiScheduler.buildConnectorMeta (m : MultiScheduler) : Option (Dict String Nat) × MultiScheduler :=
  if m.extraAsyncSaves.entries = [] then (none, m)
  else (some m.extraAsyncSaves, { m with extraAsyncSaves := Dict.empty })

/-! ## The worker's side -/

/-- `bind_connector_metadata`. -/
def bindConnectorMetadata (extra : Dict String Nat) (output : StepOutput) : Dict String Nat :=
  match output.extraAsyncSaves with
  | none => extra
  | some saves => extra.update saves

/-- One request a child reports in `get_finished`. -/
def reportSending (acc : List String × Dict String Nat) (reqId : String) :
    Except Python.Error (List String × Dict String Nat) :=
  match acc.2.get? reqId with
  | none => .ok (acc.1.insert reqId, acc.2)
  | some extraPending =>
    if extraPending = 0 then .error (.assertion "")
    else if extraPending = 1 then .ok (acc.1, acc.2.erase reqId)
    else .ok (acc.1, acc.2.set reqId (extraPending - 1))

/-- One child in `get_finished`, with what it reports as sent and as received. -/
def childReports (acc : (List String × List String) × Dict String Nat) (report : List String × List String) :
    Except Python.Error ((List String × List String) × Dict String Nat) :=
  if report.2.isEmpty ∧ report.1.isEmpty then .ok acc
  else do
    let finishedRecving := report.2 ∪ acc.1.2
    let reported ← report.1.foldlM reportSending (acc.1.1, acc.2)
    return ((reported.1, finishedRecving), reported.2)

/-- `s or None`. -/
def orNone (ids : List String) : Option (List String) := if ids.isEmpty then none else some ids

def getFinished (extra : Dict String Nat) (reports : List (List String × List String)) :
    Except Python.Error ((Option (List String) × Option (List String)) × Dict String Nat) := do
  let found ← reports.foldlM childReports (([], []), extra)
  return ((orNone found.1.1, orNone found.1.2), found.2)

/-! ## Steps -/

inductive MultiOp (P : Type)
  | getNumNewMatchedTokens (reqId : String) (answers : List (Option Nat × Bool))
  | updateStateAfterAlloc (reqId : String) (blocks : List (List Nat)) (numExternalTokens : Nat)
  | requestFinished (reqId : String) (answers : List (Bool × Option P))
  | buildConnectorMeta
  | workerStep (reports : List (List String × List String))

/-- What the answers of the children come to: the first that has tokens, if none is still looking. -/
def Matched.of (answers : List (Option Nat × Bool)) : Matched :=
  if answers.any (·.1.isNone) then .waiting
  else match answers.findIdx? (fun answer => 0 < answer.1.getD 0) with
    | none => .nothing
    | some i => .child i

/-- What they are answered with: the chosen child's own answer. -/
def Matched.result (answers : List (Option Nat × Bool)) : Matched → Option Nat × Bool
  | .waiting => (none, false)
  | .nothing => (some 0, false)
  | .child i => answers.getD i (none, false)

/-- Some child that is asked has tokens. -/
def offers (answers : List (Option Nat × Bool)) : Bool :=
  (answers.takeWhile (·.1.isSome)).any fun answer => 0 < answer.1.getD 0

/-- The children that save the request. -/
def savers {P : Type} (reqId : String) (answers : List (Bool × Option P)) : List (String × Nat) :=
  (answers.zipIdx.filter (·.1.1)).map fun e => (reqId, e.2)

/-- The requests with the children that report them. -/
def reportedBy (reports : List (List String × List String)) : List (String × Nat) :=
  reports.zipIdx.flatMap fun e => e.1.1.map fun reqId => (reqId, e.2)

def MultiState.step {P : Type} (children : Nat) (s : MultiState) : MultiOp P → Except Python.Error MultiState
  | .getNumNewMatchedTokens reqId answers =>
    let found := s.scheduler.getNumNewMatchedTokens reqId answers
    .ok { s with
      scheduler := found.2
      log := { s.log with
        latest := s.log.latest.set reqId (Matched.of answers)
        returned := s.log.returned ++ [(answers, found.1)]
        offered := if offers answers then s.log.offered.insert reqId else s.log.offered } }
  | .updateStateAfterAlloc reqId blocks numExternalTokens =>
    let calls := s.scheduler.updateStateAfterAlloc children reqId blocks numExternalTokens
    .ok { s with
      log := { s.log with
        passed := s.log.passed ++ [⟨s.log.latest.get? reqId, blocks, numExternalTokens, calls⟩] } }
  | .requestFinished reqId answers => do
    let finished ← s.scheduler.requestFinished reqId answers
    return { s with
      scheduler := finished.2
      finishedReqIds := s.finishedReqIds ++ [reqId]
      log := { s.log with
        latest := s.log.latest.erase reqId
        offered := s.log.offered.filter (· ≠ reqId)
        owed := s.log.owed ++ savers reqId answers
        promised := if finished.1.1 then s.log.promised ++ [reqId] else s.log.promised } }
  | .buildConnectorMeta =>
    let built := s.scheduler.buildConnectorMeta
    .ok { s with
      scheduler := built.2
      finishedReqIds := []
      outputs := s.outputs ++ [⟨s.finishedReqIds, built.1⟩] }
  | .workerStep reports =>
    match s.outputs with
    | [] => .ok s
    | output :: outputs => do
      let finished ← getFinished (bindConnectorMetadata s.extraAsyncSaves output) reports
      return { s with
        outputs := outputs
        extraAsyncSaves := finished.2
        log := { s.log with
          owed := s.log.owed.diff (reportedBy reports)
          finishedSending := s.log.finishedSending ++ finished.1.1.getD [] } }

/-! ## What is promised -/

/-- Every child answers; blocks are allocated when no child is looking; a request that finishes is not being
saved; and a child reports once each request it saves, when it has been told that the request finished. -/
def Promised {P : Type} (children : Nat) (s : MultiState) : MultiOp P → Prop
  | .getNumNewMatchedTokens _ answers => answers.length = children
  | .updateStateAfterAlloc reqId _ _ => s.log.latest.get? reqId ≠ some .waiting
  | .requestFinished reqId answers => answers.length = children ∧ ∀ i, (reqId, i) ∉ s.log.owed
  | .buildConnectorMeta => True
  | .workerStep reports => reports.length = children ∧ (reportedBy reports).Nodup
      ∧ ∀ e ∈ reportedBy reports, e ∈ s.log.owed
        ∧ e.1 ∉ (s.outputs.tail.flatMap StepOutput.finishedReqIds ++ s.finishedReqIds)

/-- No child has offered tokens before the call that found none. -/
def Fresh {P : Type} (s : MultiState) : MultiOp P → Prop
  | .updateStateAfterAlloc reqId _ _ => s.log.latest.get? reqId = some .nothing → reqId ∉ s.log.offered
  | _ => True

/-- The children that save a request and have not reported it. -/
def owedCount (owed : List (String × Nat)) (reqId : String) : Nat := owed.countP (·.1 = reqId)

/-- The count that is returned is the chosen child's answer. Each call gives the blocks and the count to the
chosen child alone, and a request is in `finished_sending` as often as it was promised, but for the one time
while a child still saves it. -/
structure KeptApart (children : Nat) (s : MultiState) : Prop where
  returned : ∀ e ∈ s.log.returned, e.2 = (Matched.of e.1).result e.1
  passed : ∀ p ∈ s.log.passed, p.calls = (List.range children).map fun i =>
    if p.matched = some (.child i) then (p.blocks, p.numExternalTokens) else (newEmpty p.blocks, 0)
  sent : ∀ reqId, s.log.finishedSending.count reqId + (if owedCount s.log.owed reqId = 0 then 0 else 1)
    = s.log.promised.count reqId

/-! ## The choice of a child -/

/-- Once a child is chosen, the others are only asked whether they are still looking. -/
theorem matchFrom_chosen (reqId : String) (m : MultiScheduler) {toReturn : Nat × Bool} (hpos : toReturn.1 ≠ 0) :
    ∀ (answers : List (Option Nat × Bool)) (k : Nat),
      matchFrom reqId (answers.zipIdx k) toReturn m
        = (if answers.any (·.1.isNone) then (none, false) else (some toReturn.1, toReturn.2), m) := by
  intro answers
  induction answers with
  | nil => intro k; rfl
  | cons answer answers ih =>
    intro k
    obtain ⟨toks, loadAsync⟩ := answer
    rw [List.zipIdx_cons]
    cases toks with
    | none => rfl
    | some toks =>
      rw [matchFrom, if_neg (fun h => hpos h.1), ih]
      rfl

/-- No child that is asked has tokens: no choice is made. -/
theorem matchFrom_of_not_offers (reqId : String) (m : MultiScheduler) :
    ∀ (answers : List (Option Nat × Bool)) (k : Nat), offers answers = false →
      matchFrom reqId (answers.zipIdx k) (0, false) m
        = (if answers.any (·.1.isNone) then (none, false) else (some 0, false), m) := by
  intro answers
  induction answers with
  | nil => intro k _; rfl
  | cons answer answers ih =>
    intro k h
    obtain ⟨toks, loadAsync⟩ := answer
    rw [List.zipIdx_cons]
    cases toks with
    | none => rfl
    | some toks =>
      rw [offers, List.takeWhile_cons_of_pos rfl, List.any_cons, Bool.or_eq_false_iff] at h
      have hzero : ¬ 0 < toks := of_decide_eq_false h.1
      rw [matchFrom, if_neg (fun h => hzero h.2), ih _ h.2]
      rfl

/-- The first child that has tokens is chosen, also when a later one is still looking. -/
theorem matchFrom_of_offers (reqId : String) (m : MultiScheduler) :
    ∀ (answers : List (Option Nat × Bool)) (k : Nat), offers answers = true →
      ∃ i answer, answers.findIdx? (fun answer => 0 < answer.1.getD 0) = some i ∧ answers[i]? = some answer
        ∧ matchFrom reqId (answers.zipIdx k) (0, false) m
          = (if answers.any (·.1.isNone) then (none, false) else answer,
            { m with requestsToConnector := m.requestsToConnector.set reqId (k + i) }) := by
  intro answers
  induction answers with
  | nil => intro k h; cases h
  | cons answer answers ih =>
    intro k h
    obtain ⟨toks, loadAsync⟩ := answer
    rw [List.zipIdx_cons, List.findIdx?_cons]
    cases toks with
    | none => cases h
    | some toks =>
      by_cases hpos : 0 < toks
      · refine ⟨0, _, if_pos (decide_eq_true hpos), rfl, ?_⟩
        rw [matchFrom, if_pos ⟨rfl, hpos⟩, matchFrom_chosen reqId _ (Nat.pos_iff_ne_zero.mp hpos)]
        rfl
      · rw [offers, List.takeWhile_cons_of_pos rfl, List.any_cons, Bool.or_eq_true_iff] at h
        have hrest := h.resolve_left fun h => hpos (of_decide_eq_true h)
        obtain ⟨i, answer, hfind, hget, hmatch⟩ := ih (k + 1) hrest
        refine ⟨i + 1, answer, ?_, hget, ?_⟩
        · rw [hfind]
          exact if_neg fun h => hpos (of_decide_eq_true h)
        · rw [matchFrom, if_neg (fun h => hpos h.2), hmatch, Nat.add_right_comm, Nat.add_assoc]
          rfl

/-- When no child is looking, every child is asked. -/
theorem findIdx?_of_not_offers {answers : List (Option Nat × Bool)} (hnone : answers.any (·.1.isNone) = false)
    (h : offers answers = false) : answers.findIdx? (fun answer => 0 < answer.1.getD 0) = none := by
  have hall : answers.takeWhile (·.1.isSome) = answers := by
    rw [List.takeWhile_eq_self_iff]
    intro answer hmem
    have hsome := List.any_eq_false.mp hnone answer hmem
    cases htoks : answer.1 with
    | none => exact absurd (by rw [htoks]; rfl) hsome
    | some toks => rfl
  rw [offers, hall] at h
  rw [List.findIdx?_eq_none_iff]
  intro answer hmem
  exact Bool.eq_false_iff.mpr (List.any_eq_false.mp h answer hmem)

/-- A call returns what its choice comes to. -/
theorem getNumNewMatchedTokens_returns (m : MultiScheduler) (reqId : String) (answers : List (Option Nat × Bool)) :
    (m.getNumNewMatchedTokens reqId answers).1 = (Matched.of answers).result answers := by
  rw [MultiScheduler.getNumNewMatchedTokens, Matched.of]
  cases hoffers : offers answers with
  | false =>
    rw [matchFrom_of_not_offers reqId m answers 0 hoffers]
    by_cases hnone : answers.any (·.1.isNone) = true
    · rw [if_pos hnone, if_pos hnone]
      rfl
    · rw [if_neg hnone, if_neg hnone, findIdx?_of_not_offers (Bool.eq_false_iff.mpr hnone) hoffers]
      rfl
  | true =>
    obtain ⟨i, answer, hfind, hget, hmatch⟩ := matchFrom_of_offers reqId m answers 0 hoffers
    rw [hmatch, hfind]
    by_cases hnone : answers.any (·.1.isNone) = true
    · rw [if_pos hnone, if_pos hnone]
      rfl
    · rw [if_neg hnone, if_neg hnone]
      show answer = answers.getD i (none, false)
      rw [List.getD_eq_getElem?_getD, hget]
      rfl

/-- A call remembers the child it comes to; without an offer it remembers what was. -/
theorem getNumNewMatchedTokens_remembers (m : MultiScheduler) (reqId : String) (answers : List (Option Nat × Bool)) :
    (offers answers = false ∧ (m.getNumNewMatchedTokens reqId answers).2 = m ∧ ∀ i, Matched.of answers ≠ .child i)
      ∨ (offers answers = true ∧ ∃ i, (∀ j, Matched.of answers = .child j → j = i)
        ∧ (m.getNumNewMatchedTokens reqId answers).2
          = { m with requestsToConnector := m.requestsToConnector.set reqId i }) := by
  rw [MultiScheduler.getNumNewMatchedTokens]
  cases hoffers : offers answers with
  | false =>
    refine Or.inl ⟨rfl, ?_, fun i hi => ?_⟩
    · rw [matchFrom_of_not_offers reqId m answers 0 hoffers]
    · rw [Matched.of] at hi
      by_cases hnone : answers.any (·.1.isNone) = true
      · rw [if_pos hnone] at hi
        cases hi
      · rw [if_neg hnone, findIdx?_of_not_offers (Bool.eq_false_iff.mpr hnone) hoffers] at hi
        cases hi
  | true =>
    obtain ⟨i, answer, hfind, hget, hmatch⟩ := matchFrom_of_offers reqId m answers 0 hoffers
    refine Or.inr ⟨rfl, i, fun j hj => ?_, ?_⟩
    · rw [Matched.of, hfind] at hj
      by_cases hnone : answers.any (·.1.isNone) = true
      · rw [if_pos hnone] at hj
        cases hj
      · rw [if_neg hnone] at hj
        cases hj
        rfl
    · rw [hmatch, Nat.zero_add]

/-! ## The count of the saves -/

/-- The entry of `_extra_async_saves` for a number of saves. -/
def pending (saves : Nat) : Option Nat := if 1 < saves then some (saves - 1) else none

/-- `1` while some child saves the request. -/
def unsent (owed : List (String × Nat)) (reqId : String) : Nat := if owedCount owed reqId = 0 then 0 else 1

theorem owedCount_append (owed owed' : List (String × Nat)) (reqId : String) :
    owedCount (owed ++ owed') reqId = owedCount owed reqId + owedCount owed' reqId :=
  List.countP_append

variable {owed : List (String × Nat)} {reqId : String} {children : Nat} {s : MultiState}

theorem owedCount_eq_zero (h : ∀ i, (reqId, i) ∉ owed) : owedCount owed reqId = 0 := by
  apply List.countP_eq_zero.mpr
  intro e he hid
  have hid := of_decide_eq_true hid
  exact h e.2 (by rw [← hid]; exact he)

theorem owedCount_erase {i : Nat} (h : (reqId, i) ∈ owed) :
    owedCount (owed.erase (reqId, i)) reqId + 1 = owedCount owed reqId := by
  have hpos : 0 < owedCount owed reqId := List.countP_pos_iff.mpr ⟨_, h, decide_eq_true rfl⟩
  have herase : owedCount (owed.erase (reqId, i)) reqId = owedCount owed reqId - 1 := by
    rw [owedCount, List.countP_erase, if_pos ⟨h, decide_eq_true rfl⟩]
    rfl
  omega

theorem owedCount_erase_of_ne (owed : List (String × Nat)) {other : String} (i : Nat)
    (h : other ≠ reqId) : owedCount (owed.erase (reqId, i)) other = owedCount owed other := by
  rw [owedCount, List.countP_erase, if_neg, Nat.sub_zero]
  · rfl
  · intro hmem
    exact h (of_decide_eq_true hmem.2).symm

theorem childFinished_count {P : Type} : ∀ (answers : List (Bool × Option P)) (acc found : Nat × Option P),
    answers.foldlM childFinished acc = .ok found → found.1 = acc.1 + answers.countP (·.1) := by
  intro answers
  induction answers with
  | nil =>
    intro acc found h
    cases h
    rfl
  | cons answer answers ih =>
    intro acc found h
    rw [List.foldlM_cons] at h
    cases hstep : childFinished acc answer with
    | error e => rw [hstep] at h; cases h
    | ok acc' =>
      rw [hstep] at h
      have hrest := ih acc' found h
      have hcount : acc'.1 = acc.1 + (if answer.1 then 1 else 0) := by
        rw [childFinished] at hstep
        split at hstep
        · cases hstep
          show (if answer.1 then acc.1 + 1 else acc.1) = _
          split <;> rfl
        · cases hstep
          show (if answer.1 then acc.1 + 1 else acc.1) = _
          split <;> rfl
        · cases hstep
      rw [hrest, hcount, List.countP_cons]
      omega

/-- The only error of `request_finished`. -/
theorem childFinished_error {P : Type} : ∀ (answers : List (Bool × Option P)) (acc : Nat × Option P)
    (e : Python.Error), answers.foldlM childFinished acc = .error e →
      e = .runtime "Only one connector can produce KV transfer params" := by
  intro answers
  induction answers with
  | nil => intro acc e h; cases h
  | cons answer answers ih =>
    intro acc e h
    rw [List.foldlM_cons] at h
    cases hstep : childFinished acc answer with
    | error e' =>
      rw [hstep] at h
      cases h
      rw [childFinished] at hstep
      split at hstep
      · cases hstep
      · cases hstep
      · cases hstep
        rfl
    | ok acc' =>
      rw [hstep] at h
      exact ih acc' e h

theorem owedCount_savers {P : Type} (reqId other : String) (answers : List (Bool × Option P)) :
    owedCount (savers reqId answers) other = if other = reqId then answers.countP (·.1) else 0 := by
  rw [owedCount, savers, List.countP_map]
  by_cases h : other = reqId
  · rw [if_pos h, List.countP_filter]
    have hall : answers.zipIdx.countP (fun e => (decide ((reqId, e.2).1 = other)) && e.1.1)
        = answers.zipIdx.countP ((·.1) ∘ Prod.fst) := by
      apply List.countP_congr
      intro e _
      rw [Bool.and_eq_true, decide_eq_true_iff]
      exact ⟨fun he => he.2, fun he => ⟨h.symm, he⟩⟩
    calc _ = answers.zipIdx.countP ((·.1) ∘ Prod.fst) := hall
      _ = (answers.zipIdx.map Prod.fst).countP (·.1) := List.countP_map.symm
      _ = answers.countP (·.1) := by rw [List.zipIdx_map_fst]
  · rw [if_neg h]
    apply List.countP_eq_zero.mpr
    intro e _ he
    exact h (of_decide_eq_true he).symm

/-! ## The reports of the children -/

/-- Between two reports of one `get_finished`: the counts are those of the saves that are still owed, and a
request is sent when the last of them is gone. -/
structure Counted (told : String → Prop) (extra₀ : Dict String Nat) (owed₀ : List (String × Nat)) (sent : List String)
    (extra : Dict String Nat) (owed : List (String × Nat)) : Prop where
  counts : ∀ reqId, told reqId → extra.get? reqId = pending (owedCount owed reqId)
  once : ∀ reqId, sent.count reqId + unsent owed reqId = unsent owed₀ reqId
  untold : ∀ reqId, ¬ told reqId →
    extra.get? reqId = extra₀.get? reqId ∧ owedCount owed reqId = owedCount owed₀ reqId

variable {told : String → Prop} {extra₀ : Dict String Nat} {owed₀ : List (String × Nat)}

theorem reportSending_counted {sent : List String} {extra : Dict String Nat}
    (h : Counted told extra₀ owed₀ sent extra owed) {i : Nat} (hmem : (reqId, i) ∈ owed)
    (htold : told reqId) :
    ∃ acc, reportSending (sent, extra) reqId = .ok acc
      ∧ Counted told extra₀ owed₀ acc.1 acc.2 (owed.erase (reqId, i)) := by
  have hcount := owedCount_erase hmem
  have hother : ∀ other, other ≠ reqId → owedCount (owed.erase (reqId, i)) other = owedCount owed other :=
    fun other hne => owedCount_erase_of_ne owed i hne
  have hextra := h.counts reqId htold
  have hsent := h.once reqId
  rw [unsent, if_neg (by omega)] at hsent
  have hle : unsent owed₀ reqId ≤ 1 := by
    rw [unsent]
    split <;> omega
  by_cases hone : 1 < owedCount owed reqId
  · -- Another child still saves the request.
    rw [pending, if_pos hone] at hextra
    have hunsent : unsent (owed.erase (reqId, i)) reqId = 1 := by
      rw [unsent, if_neg (by omega)]
    have hsent' : ∀ other, sent.count other + unsent (owed.erase (reqId, i)) other = unsent owed₀ other := by
      intro other
      by_cases hid : other = reqId
      · rw [hid, hunsent]
        exact hsent
      · rw [unsent, hother other hid]
        exact h.once other
    have huntold : ∀ (extra' : Dict String Nat), (∀ other, other ≠ reqId → extra'.get? other = extra.get? other) →
        ∀ other, ¬ told other → extra'.get? other = extra₀.get? other
          ∧ owedCount (owed.erase (reqId, i)) other = owedCount owed₀ other := by
      intro extra' hframe other hnot
      have hid : other ≠ reqId := fun hid => hnot (by rw [hid]; exact htold)
      rw [hframe other hid, hother other hid]
      exact h.untold other hnot
    have hkeep : ∀ (extra' : Dict String Nat), (∀ other, other ≠ reqId → extra'.get? other = extra.get? other) →
        extra'.get? reqId = pending (owedCount (owed.erase (reqId, i)) reqId) →
        ∀ other, told other → extra'.get? other = pending (owedCount (owed.erase (reqId, i)) other) := by
      intro extra' hframe hself other hother'
      by_cases hid : other = reqId
      · rw [hid]
        exact hself
      · rw [hframe other hid, hother other hid]
        exact h.counts other hother'
    by_cases htwo : owedCount owed reqId - 1 = 1
    · refine ⟨(sent, extra.erase reqId), ?_, ?_, hsent', ?_⟩
      · rw [reportSending, hextra]
        show (if owedCount owed reqId - 1 = 0 then _ else _) = _
        rw [if_neg (by omega), if_pos htwo]
      · apply hkeep _ (fun other hid => Dict.get?_erase_ne extra hid)
        rw [Dict.get?_erase_self, pending, if_neg (by omega)]
      · exact huntold _ (fun other hid => Dict.get?_erase_ne extra hid)
    · refine ⟨(sent, extra.set reqId (owedCount owed reqId - 1 - 1)), ?_, ?_, hsent', ?_⟩
      · rw [reportSending, hextra]
        show (if owedCount owed reqId - 1 = 0 then _ else _) = _
        rw [if_neg (by omega), if_neg htwo]
      · apply hkeep _ (fun other hid => Dict.get?_set_ne extra _ hid)
        rw [Dict.get?_set_self, pending, if_pos (by omega)]
        congr 1
        omega
      · exact huntold _ (fun other hid => Dict.get?_set_ne extra _ hid)
  · -- The last child that saves the request reports it.
    have hzero : owedCount (owed.erase (reqId, i)) reqId = 0 := by omega
    have hnot : reqId ∉ sent := List.count_eq_zero.mp (by omega)
    rw [pending, if_neg hone] at hextra
    refine ⟨(sent.insert reqId, extra), by rw [reportSending, hextra], ?_, ?_, ?_⟩
    · intro other hother'
      by_cases hid : other = reqId
      · rw [hid, hextra, hzero]
        rfl
      · rw [hother other hid]
        exact h.counts other hother'
    · intro other
      show (sent.insert reqId).count other + _ = _
      rw [List.insert_of_not_mem hnot]
      by_cases hid : other = reqId
      · rw [hid, List.count_cons_self, unsent, if_pos hzero]
        exact hsent
      · rw [List.count_cons_of_ne (Ne.symm hid), unsent, hother other hid]
        exact h.once other
    · intro other hnot'
      have hid : other ≠ reqId := fun hid => hnot' (by rw [hid]; exact htold)
      rw [hother other hid]
      exact h.untold other hnot'

/-- One child's reports, in order. -/
theorem reportSending_foldlM (i : Nat) : ∀ (ids : List String) {sent : List String} {extra : Dict String Nat}
    {owed : List (String × Nat)}, Counted told extra₀ owed₀ sent extra owed →
      (∀ reqId ∈ ids, (reqId, i) ∈ owed ∧ told reqId) → ids.Nodup →
      ∃ acc, ids.foldlM reportSending (sent, extra) = .ok acc
        ∧ Counted told extra₀ owed₀ acc.1 acc.2 (owed.diff (ids.map fun reqId => (reqId, i))) := by
  intro ids
  induction ids with
  | nil => intro sent extra owed h _ _; exact ⟨_, rfl, h⟩
  | cons reqId ids ih =>
    intro sent extra owed h hids hnodup
    obtain ⟨hnot, hnodup⟩ := List.nodup_cons.mp hnodup
    obtain ⟨hmem, htold⟩ := hids reqId List.mem_cons_self
    obtain ⟨acc, hstep, hacc⟩ := reportSending_counted h hmem htold
    obtain ⟨acc', hfold, hacc'⟩ := ih hacc
      (fun other hother => by
        obtain ⟨howed, htold'⟩ := hids other (List.mem_cons_of_mem _ hother)
        refine ⟨(List.mem_erase_of_ne ?_).mpr howed, htold'⟩
        intro heq
        exact hnot (by rw [← (Prod.mk.inj heq).1]; exact hother)) hnodup
    refine ⟨acc', ?_, ?_⟩
    · rw [List.foldlM_cons, hstep]
      exact hfold
    · rw [List.map_cons, List.diff_cons]
      exact hacc'

/-- The children's reports, in the order of the children. -/
theorem childReports_foldlM : ∀ (reports : List (List String × List String)) (k : Nat) {sent recving : List String}
    {extra : Dict String Nat} {owed : List (String × Nat)}, Counted told extra₀ owed₀ sent extra owed →
      (∀ e ∈ (reports.zipIdx k).flatMap (fun e => e.1.1.map fun reqId => (reqId, e.2)), e ∈ owed ∧ told e.1) →
      ((reports.zipIdx k).flatMap fun e => e.1.1.map fun reqId => (reqId, e.2)).Nodup →
      ∃ acc, reports.foldlM childReports ((sent, recving), extra) = .ok acc
        ∧ Counted told extra₀ owed₀ acc.1.1 acc.2
          (owed.diff ((reports.zipIdx k).flatMap fun e => e.1.1.map fun reqId => (reqId, e.2))) := by
  intro reports
  induction reports with
  | nil => intro k sent recving extra owed h _ _; exact ⟨_, rfl, h⟩
  | cons report reports ih =>
    intro k sent recving extra owed h hall hnodup
    rw [List.zipIdx_cons, List.flatMap_cons] at hall hnodup ⊢
    have hids : report.1.Nodup := (List.nodup_append.mp hnodup).1.of_map _
    obtain ⟨acc, hfold, hacc⟩ := reportSending_foldlM k report.1 h
      (fun reqId hid => hall (reqId, k) (List.mem_append_left _ (List.mem_map_of_mem hid))) hids
    have hchild : ∃ recving', childReports ((sent, recving), extra) report = .ok ((acc.1, recving'), acc.2) := by
      rw [childReports]
      by_cases hempty : report.2.isEmpty ∧ report.1.isEmpty
      · rw [List.isEmpty_iff.mp hempty.2] at hfold
        cases hfold
        exact ⟨recving, if_pos hempty⟩
      · rw [if_neg hempty]
        show ∃ recving', (do
          let reported ← report.1.foldlM reportSending (sent, extra)
          return ((reported.1, report.2 ∪ recving), reported.2)) = _
        rw [hfold]
        exact ⟨_, rfl⟩
    obtain ⟨recving', hchild⟩ := hchild
    obtain ⟨acc', hrest, hacc'⟩ := @ih (k + 1) acc.1 recving' acc.2 _ hacc
      (fun e he => by
        obtain ⟨howed, htold⟩ := hall e (List.mem_append_right _ he)
        refine ⟨List.mem_diff_of_mem howed fun hfirst => ?_, htold⟩
        exact (List.nodup_append.mp hnodup).2.2 e hfirst e he rfl)
      (List.nodup_append.mp hnodup).2.1
    refine ⟨acc', ?_, ?_⟩
    · rw [List.foldlM_cons, hchild]
      exact hrest
    · rw [List.diff_append]
      exact hacc'

/-! ## Between the steps -/

/-- What the worker will have once it has been told everything. -/
def MultiState.due (s : MultiState) : Dict String Nat :=
  (s.outputs.foldl bindConnectorMetadata s.extraAsyncSaves).update s.scheduler.extraAsyncSaves

/-- The remembered choice is that of the latest call, but for the calls that found nothing after an offer; the
counts under way are those of the saves that are owed, and they are with the ids of the finished requests. -/
structure MultiInv (children : Nat) (s : MultiState) : Prop where
  chosen : ∀ reqId i, s.log.latest.get? reqId = some (.child i) →
    s.scheduler.requestsToConnector.get? reqId = some i
  offered : ∀ reqId, s.scheduler.requestsToConnector.get? reqId ≠ none → reqId ∈ s.log.offered
  asked : ∀ reqId ∈ s.log.offered, s.log.latest.get? reqId ≠ none
  due : ∀ reqId, s.due.get? reqId = pending (owedCount s.log.owed reqId)
  carried : ∀ output ∈ s.outputs, ∀ saves, output.extraAsyncSaves = some saves →
    ∀ reqId, saves.get? reqId ≠ none → reqId ∈ output.finishedReqIds
  waiting : ∀ reqId, s.scheduler.extraAsyncSaves.get? reqId ≠ none → reqId ∈ s.finishedReqIds
  right : KeptApart children s

theorem init_inv (children : Nat) : MultiInv children MultiState.init where
  chosen := fun _ _ h => by cases h
  offered := fun _ h => absurd rfl h
  asked := fun _ h => by cases h
  due := fun _ => rfl
  carried := fun _ h => by cases h
  waiting := fun _ h => absurd rfl h
  right := ⟨fun _ h => (by cases h), fun _ h => (by cases h), fun _ => rfl⟩

/-- The outputs on the way say nothing of a request whose end they do not tell. -/
theorem foldl_bind_get? : ∀ (outputs : List StepOutput) (extra : Dict String Nat),
    (∀ output ∈ outputs, ∀ saves, output.extraAsyncSaves = some saves →
      ∀ reqId, saves.get? reqId ≠ none → reqId ∈ output.finishedReqIds) →
    reqId ∉ outputs.flatMap StepOutput.finishedReqIds →
    (outputs.foldl bindConnectorMetadata extra).get? reqId = extra.get? reqId := by
  intro outputs
  induction outputs with
  | nil => intro extra _ _; rfl
  | cons output outputs ih =>
    intro extra hcarried hnot
    rw [List.flatMap_cons, List.mem_append, not_or] at hnot
    rw [List.foldl_cons, ih _ (fun o ho => hcarried o (List.mem_cons_of_mem _ ho)) hnot.2]
    rw [bindConnectorMetadata]
    cases hsaves : output.extraAsyncSaves with
    | none => rfl
    | some saves =>
      have hnone : saves.get? reqId = none := by
        by_contra hne
        exact hnot.1 (hcarried output List.mem_cons_self saves hsaves reqId hne)
      rw [Dict.get?_update, hnone, Option.none_or]

theorem foldl_bind_congr : ∀ (outputs : List StepOutput) (extra extra' : Dict String Nat),
    extra.get? reqId = extra'.get? reqId →
    (outputs.foldl bindConnectorMetadata extra).get? reqId
      = (outputs.foldl bindConnectorMetadata extra').get? reqId := by
  intro outputs
  induction outputs with
  | nil => intro extra extra' h; exact h
  | cons output outputs ih =>
    intro extra extra' h
    rw [List.foldl_cons, List.foldl_cons]
    apply ih
    rw [bindConnectorMetadata, bindConnectorMetadata]
    cases output.extraAsyncSaves with
    | none => exact h
    | some saves => rw [Dict.get?_update, Dict.get?_update, h]

theorem getNumNewMatchedTokens_inv (h : MultiInv children s) (reqId : String)
    (answers : List (Option Nat × Bool)) :
    MultiInv children { s with
      scheduler := (s.scheduler.getNumNewMatchedTokens reqId answers).2
      log := { s.log with
        latest := s.log.latest.set reqId (Matched.of answers)
        returned := s.log.returned ++ [(answers, (s.scheduler.getNumNewMatchedTokens reqId answers).1)]
        offered := if offers answers then s.log.offered.insert reqId else s.log.offered } } := by
  have hreturned : ∀ e ∈ s.log.returned ++ [(answers, (s.scheduler.getNumNewMatchedTokens reqId answers).1)],
      e.2 = (Matched.of e.1).result e.1 := by
    intro e he
    rcases List.mem_append.mp he with he | he
    · exact h.right.returned e he
    · rw [List.mem_singleton.mp he]
      exact getNumNewMatchedTokens_returns s.scheduler reqId answers
  rcases getNumNewMatchedTokens_remembers s.scheduler reqId answers with ⟨hno, hkeep, hnot⟩ | ⟨hyes, i, hi, hset⟩
  · rw [hno, hkeep]
    refine ⟨fun other i hlatest => ?_, h.offered, fun other hother => ?_, h.due, h.carried, h.waiting,
      hreturned, h.right.passed, h.right.sent⟩
    · have hlatest : (s.log.latest.set reqId (Matched.of answers)).get? other = some (.child i) := hlatest
      rw [Dict.get?_set] at hlatest
      by_cases hid : other = reqId
      · rw [if_pos hid] at hlatest
        exact absurd (Option.some.inj hlatest) (hnot i)
      · rw [if_neg hid] at hlatest
        exact h.chosen other i hlatest
    · show (s.log.latest.set reqId (Matched.of answers)).get? other ≠ none
      rw [Dict.get?_set]
      split
      · exact Option.some_ne_none _
      · exact h.asked other hother
  · rw [hyes, hset]
    refine ⟨fun other j hlatest => ?_, fun other hother => ?_, fun other hother => ?_, h.due, h.carried, h.waiting,
      hreturned, h.right.passed, h.right.sent⟩
    · have hlatest : (s.log.latest.set reqId (Matched.of answers)).get? other = some (.child j) := hlatest
      show (s.scheduler.requestsToConnector.set reqId i).get? other = some j
      rw [Dict.get?_set] at hlatest ⊢
      by_cases hid : other = reqId
      · rw [if_pos hid] at hlatest ⊢
        rw [hi j (Option.some.inj hlatest)]
      · rw [if_neg hid] at hlatest ⊢
        exact h.chosen other j hlatest
    · have hother : (s.scheduler.requestsToConnector.set reqId i).get? other ≠ none := hother
      show other ∈ s.log.offered.insert reqId
      rw [Dict.get?_set] at hother
      by_cases hid : other = reqId
      · exact List.mem_insert_iff.mpr (Or.inl hid)
      · rw [if_neg hid] at hother
        exact List.mem_insert_iff.mpr (Or.inr (h.offered other hother))
    · have hother : other ∈ s.log.offered.insert reqId := hother
      show (s.log.latest.set reqId (Matched.of answers)).get? other ≠ none
      rw [Dict.get?_set]
      split
      · exact Option.some_ne_none _
      · next hid => exact h.asked other ((List.mem_insert_iff.mp hother).resolve_left hid)

/-- The remembered child is the chosen one. -/
theorem remembered_iff (h : MultiInv children s)
    (hlooking : s.log.latest.get? reqId ≠ some .waiting)
    (hfresh : s.log.latest.get? reqId = some .nothing → reqId ∉ s.log.offered) (i : Nat) :
    s.scheduler.requestsToConnector.get? reqId = some i ↔ s.log.latest.get? reqId = some (.child i) := by
  refine ⟨fun hmem => ?_, h.chosen reqId i⟩
  have hoffered := h.offered reqId (by rw [hmem]; exact Option.some_ne_none _)
  cases hlatest : s.log.latest.get? reqId with
  | none => exact absurd hlatest (h.asked reqId hoffered)
  | some matched =>
    cases matched with
    | waiting => exact absurd hlatest hlooking
    | nothing => exact absurd hoffered (hfresh hlatest)
    | child j =>
      have hj := h.chosen reqId j hlatest
      rw [hmem] at hj
      rw [Option.some.inj hj]

theorem updateStateAfterAlloc_inv (h : MultiInv children s)
    (hlooking : s.log.latest.get? reqId ≠ some .waiting)
    (hfresh : s.log.latest.get? reqId = some .nothing → reqId ∉ s.log.offered)
    (blocks : List (List Nat)) (numExternalTokens : Nat) :
    MultiInv children { s with
      log := { s.log with
        passed := s.log.passed ++ [⟨s.log.latest.get? reqId, blocks, numExternalTokens,
          s.scheduler.updateStateAfterAlloc children reqId blocks numExternalTokens⟩] } } := by
  refine ⟨h.chosen, h.offered, h.asked, h.due, h.carried, h.waiting, h.right.returned, fun p hp => ?_, h.right.sent⟩
  rcases List.mem_append.mp hp with hp | hp
  · exact h.right.passed p hp
  · rw [List.mem_singleton.mp hp]
    show s.scheduler.updateStateAfterAlloc children reqId blocks numExternalTokens = _
    apply List.map_congr_left
    intro i _
    have hiff := remembered_iff h hlooking hfresh i
    by_cases hchosen : s.scheduler.requestsToConnector.get? reqId = some i
    · rw [if_pos hchosen, if_pos (hiff.mp hchosen)]
    · rw [if_neg hchosen, if_neg fun hlatest => hchosen (hiff.mpr hlatest)]

/-- A request finishes: its saves are owed, and those beyond the first are noted. -/
theorem requestFinished_inv {P : Type} {s' : MultiState} (h : MultiInv children s)
    {answers : List (Bool × Option P)} (howed : ∀ i, (reqId, i) ∉ s.log.owed)
    (hstep : s.step children (.requestFinished reqId answers) = .ok s') : MultiInv children s' := by
  rw [MultiState.step, MultiScheduler.requestFinished] at hstep
  cases hfold : answers.foldlM childFinished (0, none) with
  | error e => rw [hfold] at hstep; cases hstep
  | ok found =>
    rw [hfold] at hstep
    cases hstep
    have hcount : found.1 = answers.countP (·.1) := by
      rw [childFinished_count answers _ _ hfold, Nat.zero_add]
    have hzero := owedCount_eq_zero howed
    have howed' : ∀ other, owedCount (s.log.owed ++ savers reqId answers) other
        = if other = reqId then found.1 else owedCount s.log.owed other := by
      intro other
      rw [owedCount_append, owedCount_savers]
      by_cases hid : other = reqId
      · rw [if_pos hid, if_pos hid, hid, hzero, Nat.zero_add, hcount]
      · rw [if_neg hid, if_neg hid, Nat.add_zero]
    have hdue : s.due.get? reqId = none := by
      rw [h.due reqId, hzero]
      rfl
    rw [MultiState.due, Dict.get?_update, Option.or_eq_none_iff] at hdue
    have hsaves : ∀ other, (if 1 < found.1 then s.scheduler.extraAsyncSaves.set reqId (found.1 - 1)
        else s.scheduler.extraAsyncSaves).get? other
          = if other = reqId then pending found.1 else s.scheduler.extraAsyncSaves.get? other := by
      intro other
      by_cases hone : 1 < found.1
      · rw [if_pos hone, Dict.get?_set, pending, if_pos hone]
      · rw [if_neg hone, pending, if_neg hone]
        split
        · next hid => rw [hid]; exact hdue.1
        · rfl
    refine ⟨fun other i hlatest => ?_, fun other hother => ?_, fun other hother => ?_, fun other => ?_, h.carried,
      fun other hother => ?_, h.right.returned, h.right.passed, fun other => ?_⟩
    · have hlatest : (s.log.latest.erase reqId).get? other = some (.child i) := hlatest
      show (s.scheduler.requestsToConnector.erase reqId).get? other = some i
      rw [Dict.get?_erase] at hlatest ⊢
      by_cases hid : other = reqId
      · rw [if_pos hid] at hlatest
        cases hlatest
      · rw [if_neg hid] at hlatest ⊢
        exact h.chosen other i hlatest
    · have hother : (s.scheduler.requestsToConnector.erase reqId).get? other ≠ none := hother
      rw [Dict.get?_erase] at hother
      by_cases hid : other = reqId
      · rw [if_pos hid] at hother
        exact absurd rfl hother
      · rw [if_neg hid] at hother
        exact List.mem_filter.mpr ⟨h.offered other hother, decide_eq_true hid⟩
    · obtain ⟨hother, hid⟩ := List.mem_filter.mp hother
      show (s.log.latest.erase reqId).get? other ≠ none
      rw [Dict.get?_erase_ne _ (of_decide_eq_true hid)]
      exact h.asked other hother
    · show Dict.get? ((s.outputs.foldl bindConnectorMetadata s.extraAsyncSaves).update _) other
        = pending (owedCount (s.log.owed ++ savers reqId answers) other)
      rw [Dict.get?_update, hsaves, howed']
      by_cases hid : other = reqId
      · rw [if_pos hid, if_pos hid, hid, hdue.2, Option.or_none]
      · rw [if_neg hid, if_neg hid, ← h.due other, MultiState.due, Dict.get?_update]
    · have hother : (if 1 < found.1 then s.scheduler.extraAsyncSaves.set reqId (found.1 - 1)
        else s.scheduler.extraAsyncSaves).get? other ≠ none := hother
      rw [hsaves] at hother
      by_cases hid : other = reqId
      · rw [hid]
        exact List.mem_append_right _ (List.mem_singleton_self _)
      · rw [if_neg hid] at hother
        exact List.mem_append_left _ (h.waiting other hother)
    · show s.log.finishedSending.count other
          + (if owedCount (s.log.owed ++ savers reqId answers) other = 0 then 0 else 1)
        = (if decide (0 < found.1) then s.log.promised ++ [reqId] else s.log.promised).count other
      have hsent := h.right.sent other
      rw [howed']
      by_cases hid : other = reqId
      · rw [hid, hzero, if_pos rfl] at hsent
        rw [if_pos hid, hid]
        by_cases hpos : 0 < found.1
        · rw [if_neg (by omega), if_pos (decide_eq_true hpos), List.count_append, List.count_singleton_self]
          omega
        · rw [if_pos (by omega), if_neg (by rw [decide_eq_true_iff]; exact hpos)]
          exact hsent
      · rw [if_neg hid, hsent]
        split
        · rw [List.count_append, List.count_singleton, if_neg (by rw [beq_iff_eq]; exact Ne.symm hid), Nat.add_zero]
        · rfl

theorem buildConnectorMeta_inv (h : MultiInv children s) :
    MultiInv children { s with
      scheduler := s.scheduler.buildConnectorMeta.2
      finishedReqIds := []
      outputs := s.outputs ++ [⟨s.finishedReqIds, s.scheduler.buildConnectorMeta.1⟩] } := by
  rw [MultiScheduler.buildConnectorMeta]
  by_cases hempty : s.scheduler.extraAsyncSaves.entries = []
  · rw [if_pos hempty]
    have hnone : ∀ reqId, s.scheduler.extraAsyncSaves.get? reqId = none := by
      intro reqId
      rw [Dict.get?, hempty]
      rfl
    refine ⟨h.chosen, h.offered, h.asked, fun reqId => ?_, fun output houtput saves hsaves => ?_,
      fun reqId hne => absurd (hnone reqId) hne, h.right.returned, h.right.passed, h.right.sent⟩
    · rw [← h.due reqId, MultiState.due, MultiState.due, List.foldl_append]
      rfl
    · rcases List.mem_append.mp houtput with houtput | houtput
      · exact h.carried output houtput saves hsaves
      · rw [List.mem_singleton.mp houtput] at hsaves
        cases hsaves
  · rw [if_neg hempty]
    refine ⟨h.chosen, h.offered, h.asked, fun reqId => ?_, fun output houtput saves hsaves => ?_,
      fun reqId hne => absurd rfl hne, h.right.returned, h.right.passed, h.right.sent⟩
    · rw [← h.due reqId, MultiState.due, MultiState.due, List.foldl_append]
      rfl
    · rcases List.mem_append.mp houtput with houtput | houtput
      · exact h.carried output houtput saves hsaves
      · rw [List.mem_singleton.mp houtput] at hsaves ⊢
        cases hsaves
        exact h.waiting

theorem getD_orNone (ids : List String) : (orNone ids).getD [] = ids := by
  rw [orNone]
  split
  · next h => exact (List.isEmpty_iff.mp h).symm
  · rfl

/-- The worker is told of a step, and the children report. -/
theorem workerStep_inv {P : Type} (h : MultiInv children s) {output : StepOutput}
    {outputs : List StepOutput} (houtputs : s.outputs = output :: outputs)
    {reports : List (List String × List String)} (hnodup : (reportedBy reports).Nodup)
    (hreports : ∀ e ∈ reportedBy reports, e ∈ s.log.owed ∧ e.1 ∉ (outputs.flatMap StepOutput.finishedReqIds ++ s.finishedReqIds)) :
    ∃ s', s.step children (MultiOp.workerStep (P := P) reports) = .ok s' ∧ MultiInv children s' := by
  have hcarried : ∀ o ∈ outputs, ∀ saves, o.extraAsyncSaves = some saves →
      ∀ reqId, saves.get? reqId ≠ none → reqId ∈ o.finishedReqIds := by
    intro o ho
    exact h.carried o (by rw [houtputs]; exact List.mem_cons_of_mem _ ho)
  have hdue : ∀ reqId, ((outputs.foldl bindConnectorMetadata (bindConnectorMetadata s.extraAsyncSaves output)).update
      s.scheduler.extraAsyncSaves).get? reqId = pending (owedCount s.log.owed reqId) := by
    intro reqId
    rw [← h.due reqId, MultiState.due, houtputs, List.foldl_cons]
  -- What the worker has of a request it has been told of is all there is.
  have htold : ∀ (extra : Dict String Nat) (reqId : String),
      reqId ∉ (outputs.flatMap StepOutput.finishedReqIds ++ s.finishedReqIds) →
      ((outputs.foldl bindConnectorMetadata extra).update s.scheduler.extraAsyncSaves).get? reqId
        = extra.get? reqId := by
    intro extra reqId hnot
    rw [List.mem_append, not_or] at hnot
    have hnone : s.scheduler.extraAsyncSaves.get? reqId = none := by
      by_contra hne
      exact hnot.2 (h.waiting reqId hne)
    rw [Dict.get?_update, hnone, Option.none_or, foldl_bind_get? outputs extra hcarried hnot.1]
  have hstart : Counted (fun reqId => reqId ∉ (outputs.flatMap StepOutput.finishedReqIds ++ s.finishedReqIds))
      (bindConnectorMetadata s.extraAsyncSaves output) s.log.owed []
      (bindConnectorMetadata s.extraAsyncSaves output) s.log.owed :=
    ⟨fun reqId hnot => by rw [← hdue reqId, htold _ reqId hnot], fun reqId => Nat.zero_add _,
      fun reqId _ => ⟨rfl, rfl⟩⟩
  obtain ⟨acc, hfold, hacc⟩ := @childReports_foldlM _ _ _ reports 0 [] [] _ _ hstart hreports hnodup
  have hfinished : getFinished (bindConnectorMetadata s.extraAsyncSaves output) reports
      = .ok ((orNone acc.1.1, orNone acc.1.2), acc.2) := by
    rw [getFinished, hfold]
    rfl
  refine ⟨{ s with
      outputs := outputs
      extraAsyncSaves := acc.2
      log := { s.log with
        owed := s.log.owed.diff (reportedBy reports)
        finishedSending := s.log.finishedSending ++ (orNone acc.1.1).getD [] } },
    ?_, h.chosen, h.offered, h.asked, fun reqId => ?_, hcarried, h.waiting, h.right.returned, h.right.passed,
    fun reqId => ?_⟩
  · rw [MultiState.step, houtputs]
    show (getFinished (bindConnectorMetadata s.extraAsyncSaves output) reports >>= fun finished => _) = _
    rw [hfinished]
    rfl
  · show ((outputs.foldl bindConnectorMetadata acc.2).update s.scheduler.extraAsyncSaves).get? reqId
      = pending (owedCount (s.log.owed.diff (reportedBy reports)) reqId)
    by_cases hnot : reqId ∉ (outputs.flatMap StepOutput.finishedReqIds ++ s.finishedReqIds)
    · rw [htold acc.2 reqId hnot]
      exact hacc.counts reqId hnot
    · obtain ⟨hextra, howed⟩ := hacc.untold reqId hnot
      have howed : owedCount (s.log.owed.diff (reportedBy reports)) reqId = owedCount s.log.owed reqId := howed
      rw [howed, ← hdue reqId, Dict.get?_update, Dict.get?_update, foldl_bind_congr outputs _ _ hextra]
  · show (s.log.finishedSending ++ (orNone acc.1.1).getD []).count reqId
        + unsent (s.log.owed.diff (reportedBy reports)) reqId = s.log.promised.count reqId
    have honce : acc.1.1.count reqId + unsent (s.log.owed.diff (reportedBy reports)) reqId
        = unsent s.log.owed reqId := hacc.once reqId
    have hsent : s.log.finishedSending.count reqId + unsent s.log.owed reqId = s.log.promised.count reqId :=
      h.right.sent reqId
    rw [getD_orNone, List.count_append]
    omega

/-! ## Runs -/

variable {P : Type} {children : Nat}

/-- A step keeps the invariant, or raises the one error it can raise. -/
theorem step_ends {op : MultiOp P} {result : Except Python.Error MultiState} (h : MultiInv children s)
    (hguard : Promised children s op ∧ Fresh s op) (hstep : s.step children op = result) :
    match result with
    | .ok s' => MultiInv children s'
    | .error e => e = .runtime "Only one connector can produce KV transfer params" := by
  cases op with
  | getNumNewMatchedTokens reqId answers =>
    cases hstep
    exact getNumNewMatchedTokens_inv h reqId answers
  | updateStateAfterAlloc reqId blocks numExternalTokens =>
    cases hstep
    exact updateStateAfterAlloc_inv h hguard.1 hguard.2 blocks numExternalTokens
  | requestFinished reqId answers =>
    cases result with
    | ok s' => exact requestFinished_inv h hguard.1.2 hstep
    | error e =>
      rw [MultiState.step, MultiScheduler.requestFinished] at hstep
      cases hfold : answers.foldlM childFinished (0, none) with
      | error e' =>
        rw [hfold] at hstep
        cases hstep
        exact childFinished_error answers _ _ hfold
      | ok found =>
        rw [hfold] at hstep
        cases hstep
  | buildConnectorMeta =>
    cases hstep
    exact buildConnectorMeta_inv h
  | workerStep reports =>
    cases houtputs : s.outputs with
    | nil =>
      rw [MultiState.step, houtputs] at hstep
      cases hstep
      exact h
    | cons output outputs =>
      obtain ⟨-, hnodup, hreports⟩ := hguard.1
      rw [houtputs, List.tail_cons] at hreports
      obtain ⟨s₁, hstep₁, hinv⟩ := workerStep_inv h houtputs hnodup hreports
      rw [hstep₁] at hstep
      cases hstep
      exact hinv

/-- A run keeps the children apart, and only two children with transfer parameters for one request stop it. -/
def Ends (children : Nat) : Except Python.Error MultiState → Prop
  | .ok s => KeptApart children s
  | .error e => e = .runtime "Only one connector can produce KV transfer params"

/-- **The transfers of the children are kept apart**, in every run in which no request is allocated after a call
that found nothing when a child once offered tokens for it. -/
theorem kept_apart {ops : List (MultiOp P)}
    (hguard : Run.Guarded (MultiState.step children) (fun s op => Promised children s op ∧ Fresh s op)
      MultiState.init ops) : Ends children (Run.exec (MultiState.step children) MultiState.init ops) := by
  cases hrun : Run.exec (MultiState.step children) MultiState.init ops with
  | ok s =>
    exact (Run.exec_inv (fun s op s' hI hg hs => step_ends hI hg hs) ops _ s (init_inv children) hguard hrun).right
  | error e =>
    by_contra hne
    exact Run.exec_ne_error (fun s op s' hI hg hs => step_ends hI hg hs)
      (fun s op hI hg hs => hne (step_ends hI hg hs)) ops _ (init_inv children) hguard hrun

/-! ## A choice that is not forgotten -/

/-- A request is asked for, and asked for again before its blocks are allocated; then it finishes, and the
children that save it report it in one step. -/
def askedTwice (first second : List (Option Nat × Bool)) (numExternalTokens : Nat) : List (MultiOp Unit) :=
  [.getNumNewMatchedTokens "r" first, .getNumNewMatchedTokens "r" second,
    .updateStateAfterAlloc "r" [[1]] numExternalTokens,
    .requestFinished "r" [(true, none), (true, none)], .buildConnectorMeta,
    .workerStep [(["r"], []), (["r"], [])]]

/-- `Q` says whether the second call may find nothing. -/
theorem askedTwice_guarded {Q : Prop} {first second : List (Option Nat × Bool)} (hfirst : first.length = 2)
    (hsecond : second.length = 2) (hlooking : Matched.of second ≠ .waiting) (hfound : Q → Matched.of second ≠ .nothing)
    (numExternalTokens : Nat) :
    Run.Guarded (MultiState.step 2) (fun s op => Promised 2 s op ∧ (Q → Fresh s op)) MultiState.init
      (askedTwice first second numExternalTokens) := by
  have hlatest : ((Dict.empty.set "r" (Matched.of first)).set "r" (Matched.of second)).get? "r"
      = some (Matched.of second) := Dict.get?_set_self _ _ _
  refine ⟨⟨hfirst, fun _ => trivial⟩, fun s hs => ⟨⟨hsecond, fun _ => trivial⟩, fun s' hs' => ?_⟩⟩
  cases hs
  cases hs'
  refine ⟨⟨fun hwaiting => ?_, fun hq hnothing => ?_⟩, fun s hs => ?_⟩
  · exact hlooking (Option.some.inj (hlatest.symm.trans hwaiting))
  · exact absurd (Option.some.inj (hlatest.symm.trans hnothing)) (hfound hq)
  · cases hs
    refine ⟨⟨⟨rfl, fun i hi => (by cases hi)⟩, fun _ => trivial⟩, fun s hs => ?_⟩
    cases hs
    refine ⟨⟨trivial, fun _ => trivial⟩, fun s hs => ?_⟩
    cases hs
    refine ⟨⟨⟨rfl, ?_, fun e he => ⟨he, fun hmem => ?_⟩⟩, fun _ => trivial⟩, fun s hs => trivial⟩
    · show [("r", 0), ("r", 1)].Nodup
      decide
    · cases hmem

/-- The second time no child has tokens, and the blocks still go to the child that was chosen first. -/
theorem stale_choice_passed :
    ¬ ∀ (P : Type) (children : Nat) (ops : List (MultiOp P)),
      Run.Guarded (MultiState.step children) (Promised children) MultiState.init ops →
      Ends children (Run.exec (MultiState.step children) MultiState.init ops) := by
  intro hclaim
  have hends := hclaim Unit 2 (askedTwice [(some 16, false), (some 0, false)] [(some 0, false), (some 0, false)] 0)
    ((askedTwice_guarded rfl rfl (by decide) False.elim 0).mono (fun s op h => h.1) _ _)
  have hpassed : (Run.exec (MultiState.step 2) MultiState.init
      (askedTwice [(some 16, false), (some 0, false)] [(some 0, false), (some 0, false)] 0)).map (·.log.passed)
        = .ok [⟨some .nothing, [[1]], 0, [([[1]], 0), ([[]], 0)]⟩] := by
    decide +kernel
  cases hrun : Run.exec (MultiState.step 2) MultiState.init
      (askedTwice [(some 16, false), (some 0, false)] [(some 0, false), (some 0, false)] 0) with
  | error e => rw [hrun] at hpassed; cases hpassed
  | ok s =>
    rw [hrun] at hends hpassed
    have hpassed : s.log.passed = [⟨some .nothing, [[1]], 0, [([[1]], 0), ([[]], 0)]⟩] := Except.ok.inj hpassed
    have hcalls := hends.passed ⟨some .nothing, [[1]], 0, [([[1]], 0), ([[]], 0)]⟩
      (by rw [hpassed]; exact List.mem_singleton_self _)
    exact absurd hcalls (by decide)

/-- The second time another child has tokens, and it is given the blocks. -/
theorem second_choice_kept_apart :
    Ends 2 (Run.exec (MultiState.step 2) MultiState.init
      (askedTwice [(some 16, false), (none, false)] [(some 0, false), (some 8, true)] 8)) := by
  have hfound : True → Matched.of [(some 0, false), (some 8, true)] ≠ .nothing := fun _ => by decide
  exact kept_apart ((askedTwice_guarded rfl rfl (by decide) hfound 8).mono (fun s op h => ⟨h.1, h.2 trivial⟩) _ _)

end VllmEngine.Distributed.Multi
