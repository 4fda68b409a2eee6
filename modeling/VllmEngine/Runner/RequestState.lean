import Mathlib.Data.List.Dedup
import Mathlib.Data.List.Perm.Subperm
import VllmEngine.Sched.State

/-!
# The request rows of the V2 model runner

`RequestState` (`vllm/v1/worker/gpu/states.py`): one row of per-request state for each of
`max_num_reqs` indices, and which request has which row; and the part of `GPUModelRunner`
(`vllm/v1/worker/gpu/model_runner.py`) that keeps the rows: `finish_requests` and `add_requests`.

Mirroring notes:
- An array is a function of the row. Staged writes are applied at once: nothing reads the arrays
  before `apply_staged_writes`.
- The other per-request states that are added and removed along with the row (encoder cache, block
  tables, LoRA, sampler) are left out here.
- `finish_requests` walks over a set; `order` gives the order of the walk.
-/

namespace VllmEngine.Runner

structure RequestState where
  reqIdToIndex : Dict ReqId Nat
  indexToReqId : Dict Nat ReqId
  freeIndices : List Nat
  promptLen : Nat → Nat
  prefillLen : Nat → Nat
  totalLen : Nat → Nat
  /-- By row and position. -/
  allTokenIds : Nat → Nat → Token
  numComputedPrefillTokens : Nat → Int
  numComputedTokens : Nat → Int
  lastSampledTokens : Nat → Token
  /-- By row; `num_speculative_steps` tokens. -/
  draftTokens : Nat → List Token
  nextPrefillTokens : Nat → Token

/-- The message of the assertion that a row is free. -/
def noFreeIndices : Python.Error := .assertion "No free indices"

namespace RequestState

def init (maxNumReqs numSpeculativeSteps : Nat) : RequestState where
  reqIdToIndex := Dict.empty
  indexToReqId := Dict.empty
  freeIndices := List.range maxNumReqs
  promptLen := fun _ => 0
  prefillLen := fun _ => 0
  totalLen := fun _ => 0
  allTokenIds := fun _ _ => 0
  numComputedPrefillTokens := fun _ => 0
  numComputedTokens := fun _ => 0
  lastSampledTokens := fun _ => 0
  draftTokens := fun _ => List.replicate numSpeculativeSteps 0
  nextPrefillTokens := fun _ => 0

/-- The row of a new request, once it has one. -/
def writeRow (s : RequestState) (reqIdx promptLen : Nat) (allTokenIds : List Token)
    (numComputedTokens : Int) : RequestState :=
  let prefillLen := allTokenIds.length
  { s with
    promptLen := Function.update s.promptLen reqIdx promptLen
    prefillLen := Function.update s.prefillLen reqIdx prefillLen
    totalLen := Function.update s.totalLen reqIdx prefillLen
    allTokenIds := Function.update s.allTokenIds reqIdx fun pos =>
      allTokenIds.getD pos (s.allTokenIds reqIdx pos)
    numComputedPrefillTokens := Function.update s.numComputedPrefillTokens reqIdx numComputedTokens
    numComputedTokens := Function.update s.numComputedTokens reqIdx numComputedTokens
    lastSampledTokens :=
      -- A resumed request goes on from the last computed token.
      if 0 < numComputedTokens ∧ numComputedTokens ≤ prefillLen then
        Function.update s.lastSampledTokens reqIdx (allTokenIds.getD (numComputedTokens - 1).toNat 0)
      else s.lastSampledTokens
    draftTokens := Function.update s.draftTokens reqIdx ((s.draftTokens reqIdx).map fun _ => 0) }

def addRequest (s : RequestState) (reqId : ReqId) (promptLen : Nat) (allTokenIds : List Token)
    (numComputedTokens : Int) : Except Python.Error RequestState :=
  match s.freeIndices.getLast? with
  | none => .error noFreeIndices
  | some reqIdx =>
    if allTokenIds.length < promptLen then
      .error (.assertion s!"prefill_len {allTokenIds.length} < prompt_len {promptLen}")
    else
      .ok ({ s with
        freeIndices := s.freeIndices.dropLast
        reqIdToIndex := s.reqIdToIndex.set reqId reqIdx
        indexToReqId := s.indexToReqId.set reqIdx reqId }.writeRow reqIdx promptLen allTokenIds
          numComputedTokens)

/-- `remove_request`; a request that is not there is left alone. -/
def removeRequest (s : RequestState) (reqId : ReqId) : RequestState :=
  match s.reqIdToIndex.get? reqId with
  | none => s
  | some reqIdx =>
    { s with
      reqIdToIndex := s.reqIdToIndex.erase reqId
      indexToReqId := s.indexToReqId.erase reqIdx
      freeIndices := s.freeIndices ++ [reqIdx] }

/-- `finish_requests`. -/
def finishRequests (order : SetOrder ReqId) (s : RequestState) (out : SchedulerOutput) : RequestState :=
  (order.walk (out.finishedReqIds ++ out.preemptedReqIds).dedup).foldl removeRequest s

/-- One round of `add_requests`: a session that is there already gets a new row. -/
def addNewRequest (s : RequestState) (newReqData : NewRequestData) : Except Python.Error RequestState :=
  match newReqData.promptTokenIds, newReqData.prefillTokenIds with
  | some promptTokenIds, some prefillTokenIds =>
    (s.removeRequest newReqData.reqId).addRequest newReqData.reqId promptTokenIds.length prefillTokenIds
      newReqData.numComputedTokens
  | _, _ => .error (.assertion "")

/-- `add_requests`. -/
def addRequests (s : RequestState) (out : SchedulerOutput) : Except Python.Error RequestState :=
  out.scheduledNewReqs.foldlM addNewRequest s

/-- The start of `execute_model`. -/
def updateStates (order : SetOrder ReqId) (s : RequestState) (out : SchedulerOutput) :
    Except Python.Error RequestState :=
  (s.finishRequests order out).addRequests out

/-! ## Who has a row -/

/-- The free indices and the rows of the requests are the indices, each once. -/
structure RowsPartition (maxNumReqs : Nat) (s : RequestState) : Prop where
  rows : (s.freeIndices ++ s.reqIdToIndex.values).Perm (List.range maxNumReqs)
  named : ∀ reqIdx reqId, s.indexToReqId.get? reqIdx = some reqId ↔ s.reqIdToIndex.get? reqId = some reqIdx

variable {maxNumReqs : Nat} {s s' : RequestState}

theorem RowsPartition.nodup (h : RowsPartition maxNumReqs s) :
    (s.freeIndices ++ s.reqIdToIndex.values).Nodup :=
  h.rows.nodup_iff.mpr List.nodup_range

/-- Every row is free or taken. -/
theorem RowsPartition.count (h : RowsPartition maxNumReqs s) :
    s.freeIndices.length + s.reqIdToIndex.keys.length = maxNumReqs := by
  have hlen := h.rows.length_eq
  rw [List.length_append, List.length_range] at hlen
  unfold Dict.values at hlen
  unfold Dict.keys
  rw [List.length_map] at hlen ⊢
  exact hlen

theorem RowsPartition.init (maxNumReqs numSpeculativeSteps : Nat) :
    RowsPartition maxNumReqs (init maxNumReqs numSpeculativeSteps) where
  rows := by
    show (List.range maxNumReqs ++ []).Perm _
    rw [List.append_nil]
  named := by
    intro reqIdx reqId
    constructor
    · intro h
      cases h
    · intro h
      cases h

/-- The request gives its row back. -/
theorem RowsPartition.removeRequest (h : RowsPartition maxNumReqs s) (reqId : ReqId) :
    RowsPartition maxNumReqs (s.removeRequest reqId) := by
  unfold RequestState.removeRequest
  cases hget : s.reqIdToIndex.get? reqId with
  | none => exact h
  | some reqIdx =>
    have hperm := Dict.values_erase_perm hget
    constructor
    · show (s.freeIndices ++ [reqIdx] ++ (s.reqIdToIndex.erase reqId).values).Perm _
      rw [List.append_assoc]
      exact ((List.Perm.refl _).append hperm).trans h.rows
    · intro i id
      show (s.indexToReqId.erase reqIdx).get? i = some id ↔ (s.reqIdToIndex.erase reqId).get? id = some i
      have hat := (h.named reqIdx reqId).mpr hget
      rw [Dict.get?_erase, Dict.get?_erase]
      by_cases hi : i = reqIdx
      · rw [if_pos hi]
        constructor
        · intro hn
          cases hn
        · intro hid
          split at hid
          next => cases hid
          next hne =>
            have hid' := (h.named i id).mpr hid
            rw [hi, hat] at hid'
            exact absurd (Option.some.inj hid').symm hne
      · rw [if_neg hi]
        by_cases hid : id = reqId
        · rw [if_pos hid, h.named, hid, hget]
          constructor
          · intro heq
            exact absurd (Option.some.inj heq).symm hi
          · intro hn
            cases hn
        · rw [if_neg hid]
          exact h.named i id

theorem keys_removeRequest (reqId id : ReqId) :
    id ∈ (s.removeRequest reqId).reqIdToIndex.keys ↔ id ∈ s.reqIdToIndex.keys ∧ id ≠ reqId := by
  unfold RequestState.removeRequest
  rw [Dict.mem_keys_iff, Dict.mem_keys_iff]
  cases hget : s.reqIdToIndex.get? reqId with
  | none =>
    constructor
    · intro h
      refine ⟨h, fun heq => ?_⟩
      rw [heq, Dict.contains, hget] at h
      cases h
    · exact fun h => h.1
  | some reqIdx =>
    show (s.reqIdToIndex.erase reqId).contains id = true ↔ _
    unfold Dict.contains
    rw [Dict.get?_erase]
    by_cases hid : id = reqId
    · simp [hid]
    · simp [hid]

theorem RowsPartition.finishRequests (h : RowsPartition maxNumReqs s) (order : SetOrder ReqId)
    (out : SchedulerOutput) : RowsPartition maxNumReqs (s.finishRequests order out) := by
  unfold RequestState.finishRequests
  generalize order.walk _ = ids
  induction ids generalizing s with
  | nil => exact h
  | cons id ids ih => exact ih (h.removeRequest id)

theorem keys_finishRequests (order : SetOrder ReqId) (out : SchedulerOutput) (id : ReqId) :
    id ∈ (s.finishRequests order out).reqIdToIndex.keys ↔
      id ∈ s.reqIdToIndex.keys ∧ id ∉ out.finishedReqIds ∧ id ∉ out.preemptedReqIds := by
  have hfold : ∀ (ids : List ReqId) (s : RequestState),
      id ∈ (ids.foldl RequestState.removeRequest s).reqIdToIndex.keys ↔ id ∈ s.reqIdToIndex.keys ∧ id ∉ ids := by
    intro ids
    induction ids with
    | nil =>
      intro s
      simp
    | cons id' ids ih =>
      intro s
      rw [List.foldl_cons, ih, keys_removeRequest, List.mem_cons, not_or, and_assoc]
  unfold RequestState.finishRequests
  rw [hfold, (order.perm _).mem_iff, List.mem_dedup, List.mem_append, not_or]

/-- With a free row the request gets one. -/
theorem RowsPartition.addRequest (h : RowsPartition maxNumReqs s) {reqId : ReqId} {promptLen : Nat}
    {allTokenIds : List Token} {numComputedTokens : Int} (hnew : reqId ∉ s.reqIdToIndex.keys)
    (hadd : s.addRequest reqId promptLen allTokenIds numComputedTokens = .ok s') :
    RowsPartition maxNumReqs s' ∧ s'.reqIdToIndex.keys = s.reqIdToIndex.keys ++ [reqId] := by
  unfold RequestState.addRequest at hadd
  cases hlast : s.freeIndices.getLast? with
  | none =>
    rw [hlast] at hadd
    cases hadd
  | some reqIdx =>
    rw [hlast] at hadd
    dsimp only at hadd
    split at hadd
    next => cases hadd
    next =>
      cases hadd
      have hfree : s.freeIndices = s.freeIndices.dropLast ++ [reqIdx] :=
        (List.dropLast_append_getLast? reqIdx hlast).symm
      have hvalues : (s.reqIdToIndex.set reqId reqIdx).values = s.reqIdToIndex.values ++ [reqIdx] := by
        show (Dict.insertEntry reqId reqIdx s.reqIdToIndex.entries).map Prod.snd = _
        rw [Dict.insertEntry_of_not_mem reqIdx hnew, List.map_append]
        rfl
      have hget : s.reqIdToIndex.get? reqId = none := by
        rw [Dict.mem_keys_iff, Dict.contains] at hnew
        exact Option.not_isSome_iff_eq_none.mp hnew
      -- The row is free: no request has it.
      have hunused : ∀ id, s.reqIdToIndex.get? id ≠ some reqIdx := by
        intro id hid
        have hmem : reqIdx ∈ s.reqIdToIndex.values := (Dict.mem_values_iff _).mpr ⟨id, hid⟩
        have hfreeMem : reqIdx ∈ s.freeIndices := by
          rw [hfree]
          exact List.mem_append_right _ (List.mem_singleton_self reqIdx)
        exact (List.nodup_append.mp h.nodup).2.2 _ hfreeMem _ hmem rfl
      refine ⟨⟨?_, fun i id => ?_⟩, ?_⟩
      · show (s.freeIndices.dropLast ++ (s.reqIdToIndex.set reqId reqIdx).values).Perm _
        rw [hvalues]
        refine List.Perm.trans ?_ h.rows
        rw [hfree, List.dropLast_concat, List.append_assoc]
        exact (List.Perm.refl _).append List.perm_append_comm
      · show (s.indexToReqId.set reqIdx reqId).get? i = some id ↔
          (s.reqIdToIndex.set reqId reqIdx).get? id = some i
        rw [Dict.get?_set, Dict.get?_set]
        by_cases hi : i = reqIdx
        · rw [if_pos hi]
          by_cases hid : id = reqId
          · rw [if_pos hid, hi, hid]
            exact ⟨fun _ => rfl, fun _ => rfl⟩
          · rw [if_neg hid, hi]
            exact ⟨fun heq => absurd (Option.some.inj heq).symm hid, fun heq => absurd heq (hunused id)⟩
        · rw [if_neg hi]
          by_cases hid : id = reqId
          · rw [if_pos hid, h.named, hid, hget]
            exact ⟨fun hn => (by cases hn), fun heq => absurd (Option.some.inj heq).symm hi⟩
          · rw [if_neg hid]
            exact h.named i id
      · show (s.reqIdToIndex.set reqId reqIdx).keys = _
        rw [Dict.keys_set, if_neg hnew]

/-- The other assertions have other messages. -/
theorem prefill_ne_noFreeIndices (prefillLen promptLen : Nat) :
    Python.Error.assertion s!"prefill_len {prefillLen} < prompt_len {promptLen}" ≠ noFreeIndices := by
  intro h
  have htext : s!"prefill_len {prefillLen} < prompt_len {promptLen}" = "No free indices" := by
    injection h
  have hchars := congrArg (fun text => text.toList.head?) htext
  simp [toString] at hchars

/-- One new request. As long as all requests with rows are among `bound`, which is no longer than the
table, there is a row. -/
theorem addNewRequest_spec (h : RowsPartition maxNumReqs s) {d : NewRequestData} {bound : List ReqId}
    (hbound : bound.length ≤ maxNumReqs) (hkeys : ∀ id ∈ s.reqIdToIndex.keys, id ∈ bound)
    (hd : d.reqId ∈ bound) :
    (∃ s', s.addNewRequest d = .ok s' ∧ RowsPartition maxNumReqs s'
        ∧ ∀ id, id ∈ s'.reqIdToIndex.keys ↔ id ∈ s.reqIdToIndex.keys ∨ id = d.reqId)
      ∨ ∃ e, s.addNewRequest d = .error e ∧ e ≠ noFreeIndices := by
  unfold addNewRequest
  split
  next promptTokenIds prefillTokenIds _ _ =>
    have hremoved := h.removeRequest d.reqId
    have hnew : d.reqId ∉ (s.removeRequest d.reqId).reqIdToIndex.keys := fun hmem =>
      ((keys_removeRequest d.reqId d.reqId).mp hmem).2 rfl
    -- The others with rows and the new request are at most `bound`.
    have hcount : (s.removeRequest d.reqId).reqIdToIndex.keys.length + 1 ≤ bound.length := by
      have hnodup : (d.reqId :: (s.removeRequest d.reqId).reqIdToIndex.keys).Nodup :=
        List.nodup_cons.mpr ⟨hnew, (s.removeRequest d.reqId).reqIdToIndex.nodup⟩
      refine (hnodup.subperm fun id hid => ?_).length_le
      obtain hid | hid := List.mem_cons.mp hid
      · rw [hid]
        exact hd
      · exact hkeys id ((keys_removeRequest d.reqId id).mp hid).1
    cases hadd : (s.removeRequest d.reqId).addRequest d.reqId promptTokenIds.length prefillTokenIds
        d.numComputedTokens with
    | ok s' =>
      obtain ⟨h', hkeys'⟩ := hremoved.addRequest hnew hadd
      refine Or.inl ⟨s', rfl, h', fun id => ?_⟩
      rw [hkeys', List.mem_append, List.mem_singleton, keys_removeRequest]
      by_cases hid : id = d.reqId
      · simp [hid]
      · simp [hid]
    | error e =>
      refine Or.inr ⟨e, rfl, ?_⟩
      unfold addRequest at hadd
      cases hlast : (s.removeRequest d.reqId).freeIndices.getLast? with
      | none =>
        have hempty := List.getLast?_eq_none_iff.mp hlast
        have hall := hremoved.count
        rw [hempty, List.length_nil] at hall
        omega
      | some reqIdx =>
        rw [hlast] at hadd
        dsimp only at hadd
        split at hadd
        next =>
          cases hadd
          exact prefill_ne_noFreeIndices _ _
        next => cases hadd
  next =>
    refine Or.inr ⟨_, rfl, fun heq => ?_⟩
    have htext : "" = "No free indices" := by injection heq
    exact absurd htext (by decide)

theorem addRequests_spec {bound : List ReqId} (hbound : bound.length ≤ maxNumReqs) :
    ∀ (ds : List NewRequestData) {s : RequestState}, RowsPartition maxNumReqs s →
      (∀ id ∈ s.reqIdToIndex.keys, id ∈ bound) → (∀ d ∈ ds, d.reqId ∈ bound) →
      (∃ s', ds.foldlM addNewRequest s = .ok s' ∧ RowsPartition maxNumReqs s')
        ∨ ∃ e, ds.foldlM addNewRequest s = .error e ∧ e ≠ noFreeIndices := by
  intro ds
  induction ds with
  | nil =>
    intro s h _ _
    exact Or.inl ⟨s, rfl, h⟩
  | cons d ds ih =>
    intro s h hkeys hds
    rw [List.foldlM_cons]
    obtain ⟨s₁, hs₁, h₁, hkeys₁⟩ | ⟨e, he, hne⟩ :=
      addNewRequest_spec h hbound hkeys (hds d List.mem_cons_self)
    · rw [hs₁, Raises.ok_bind]
      have hkeys₁' : ∀ id ∈ s₁.reqIdToIndex.keys, id ∈ bound := by
        intro id hid
        obtain hid | hid := (hkeys₁ id).mp hid
        · exact hkeys id hid
        · rw [hid]
          exact hds d List.mem_cons_self
      exact ih h₁ hkeys₁' fun d' hd' => hds d' (List.mem_cons_of_mem d hd')
    · rw [he]
      exact Or.inr ⟨e, rfl, hne⟩

/-- A step keeps the partition, or fails in another way than for want of a row. -/
theorem updateStates_spec (h : RowsPartition maxNumReqs s) (order : SetOrder ReqId) (out : SchedulerOutput)
    {bound : List ReqId} (hbound : bound.length ≤ maxNumReqs)
    (hkept : ∀ id ∈ s.reqIdToIndex.keys, id ∉ out.finishedReqIds → id ∉ out.preemptedReqIds → id ∈ bound)
    (hnew : ∀ d ∈ out.scheduledNewReqs, d.reqId ∈ bound) :
    (∃ s', s.updateStates order out = .ok s' ∧ RowsPartition maxNumReqs s')
      ∨ ∃ e, s.updateStates order out = .error e ∧ e ≠ noFreeIndices := by
  have hkeys : ∀ id ∈ (s.finishRequests order out).reqIdToIndex.keys, id ∈ bound := by
    intro id hid
    obtain ⟨hid, hfinished, hpreempted⟩ := (keys_finishRequests order out id).mp hid
    exact hkept id hid hfinished hpreempted
  exact addRequests_spec hbound out.scheduledNewReqs (h.finishRequests order out) hkeys hnew

end RequestState

end VllmEngine.Runner
