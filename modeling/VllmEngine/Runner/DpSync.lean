import Mathlib.Data.List.Find
import VllmEngine.Runner.CudaGraphs

/-!
# The batch shape of the data-parallel ranks

Before a forward pass the ranks of a data-parallel group exchange the number of
tokens, the graph mode and the uniform query length of their batches by one
`all_reduce`, and each dispatches again with what they have agreed on
(`vllm/v1/worker/gpu/dp_utils.py`). `all_reduce` gives every rank the sum of
the tensors that the ranks pass.

> `ranks_agree`: one mode, and where graphs run one number of tokens, for all ranks.
-/

namespace VllmEngine.Runner

/-- The three rows of the tensor, with one column for each rank. -/
structure SyncTensor where
  numTokens : List Nat
  cgModes : List Nat
  uniformTokenCounts : List Nat
deriving DecidableEq, Repr

/-- A row of zeros with one entry set. -/
def oneHot (n i v : Nat) : List Nat := (List.replicate n 0).set i v

def addRows (a b : List Nat) : List Nat := List.zipWith (· + ·) a b

namespace SyncTensor

def zeros (dpSize : Nat) : SyncTensor :=
  { numTokens := List.replicate dpSize 0
    cgModes := List.replicate dpSize 0
    uniformTokenCounts := List.replicate dpSize 0 }

def add (a b : SyncTensor) : SyncTensor :=
  { numTokens := addRows a.numTokens b.numTokens
    cgModes := addRows a.cgModes b.cgModes
    uniformTokenCounts := addRows a.uniformTokenCounts b.uniformTokenCounts }

/-- What `all_reduce` gives, from what the ranks pass. -/
def sum (dpSize : Nat) (tensors : List SyncTensor) : SyncTensor := tensors.foldr add (zeros dpSize)

end SyncTensor

/-- The tensor that a rank passes; 0 stands for no uniform token count. -/
def syncTensor (desiredBatchDesc : BatchExecutionDescriptor) (numTokens : Nat)
    (uniformTokenCount : Option Nat) (dpSize dpRank : Nat) : Except Python.Error SyncTensor :=
  desiredBatchDesc.cgMode.value.map fun mode =>
    { numTokens := oneHot dpSize dpRank numTokens
      cgModes := oneHot dpSize dpRank mode
      uniformTokenCounts := oneHot dpSize dpRank (uniformTokenCount.getD 0) }

/-- `synced_uniform_token_count`. -/
def syncedUniformTokenCount (uniformTokenCounts : List Nat) : Option Nat :=
  let first := uniformTokenCounts.getD 0 0
  if first = 0 ∨ !uniformTokenCounts.all (fun n => decide (n = first)) then none else some first

/-- `sync_cudagraph_and_dp_padding`: the descriptor, and `num_tokens_across_dp`. -/
def syncCudagraphAndDpPadding (allReduce : SyncTensor → SyncTensor)
    (cudagraphManager : Option CudaGraphManager) (desiredBatchDesc : BatchExecutionDescriptor)
    (numTokens numReqs : Nat) (uniformTokenCount : Option Nat) (dpSize dpRank : Nat) :
    Except Python.Error (BatchExecutionDescriptor × Option (List Nat)) :=
  if dpSize ≤ 1 then .error (.assertion "DP size must be greater than 1")
  else
    match syncTensor desiredBatchDesc numTokens uniformTokenCount dpSize dpRank with
    | .error e => .error e
    | .ok passed =>
      let tensor := allReduce passed
      if tensor.numTokens.all (fun n => decide (n = 0)) then
        .ok
          ({ cgMode := .none, numTokens := 0, numReqs := some 0, uniformTokenCount := none }, none)
      else
        match tensor.cgModes.min? with
        | none => .error (.runtime "min(): expected a non-empty tensor")
        | some mode =>
          match CUDAGraphMode.ofValue mode with
          | .error e => .error e
          | .ok .none =>
            -- one rank runs eagerly, so all do
            .ok
              ({ cgMode := .none
                 numTokens := numTokens
                 numReqs := some numReqs
                 uniformTokenCount := none }, some tensor.numTokens)
          | .ok _ =>
            match cudagraphManager with
            | none => .error (.assertion "cudagraph_manager should only be None during profile run")
            | some manager =>
              let syncedNumTokens := tensor.numTokens.foldr max 0
              let syncedDesc := manager.dispatch numReqs syncedNumTokens
                (syncedUniformTokenCount tensor.uniformTokenCounts)
              .ok (syncedDesc, some (tensor.numTokens.map fun _ => syncedDesc.numTokens))

/-- The descriptor a rank would choose alone. -/
def desiredBatchDesc (cudagraphManager : Option CudaGraphManager) (numReqs numTokens : Nat)
    (uniformTokenCount : Option Nat) (needEager : Bool) : Except Python.Error BatchExecutionDescriptor :=
  if needEager then
    .ok
      { cgMode := .none, numTokens := numTokens, numReqs := some numReqs, uniformTokenCount := none }
  else
    match cudagraphManager with
    | none => .error (.assertion "cudagraph_manager should only be None during profile run")
    | some manager => .ok (manager.dispatch numReqs numTokens uniformTokenCount)

/-- `dispatch_cg_and_sync_dp`. -/
def dispatchCgAndSyncDp (allReduce : SyncTensor → SyncTensor)
    (cudagraphManager : Option CudaGraphManager) (numReqs numTokens : Nat)
    (uniformTokenCount : Option Nat) (dpSize dpRank : Nat) (needEager : Bool) :
    Except Python.Error (BatchExecutionDescriptor × Option (List Nat)) :=
  match desiredBatchDesc cudagraphManager numReqs numTokens uniformTokenCount needEager with
  | .error e => .error e
  | .ok batchDesc =>
    if dpSize = 1 then .ok (batchDesc, none)
    else
      syncCudagraphAndDpPadding allReduce cudagraphManager batchDesc numTokens numReqs
        uniformTokenCount dpSize dpRank

/-! ## The group -/

/-- The batch of a rank: the lengths of its queries, and whether it has to run eagerly. -/
structure RankBatch where
  queryLens : List Nat
  needEager : Bool
deriving DecidableEq, Repr

namespace RankBatch

def numReqs (b : RankBatch) : Nat := b.queryLens.length

def numTokens (b : RankBatch) : Nat := b.queryLens.sum

def maxQueryLen (b : RankBatch) : Nat := b.queryLens.foldr max 0

def uniformTokenCount (b : RankBatch) : Except Python.Error (Option Nat) :=
  getUniformTokenCount b.numReqs b.numTokens b.maxQueryLen

/-- The tensor that the rank passes to `all_reduce`. -/
def tensor (manager : CudaGraphManager) (dpSize : Nat) (b : RankBatch) (dpRank : Nat) :
    Except Python.Error SyncTensor := do
  let u ← b.uniformTokenCount
  let desc ← desiredBatchDesc (some manager) b.numReqs b.numTokens u b.needEager
  syncTensor desc b.numTokens u dpSize dpRank

end RankBatch

/-- The sum of what all ranks pass. -/
def groupTensor (manager : CudaGraphManager) (batches : List RankBatch) : Except Python.Error SyncTensor :=
  (batches.zipIdx.mapM fun (e : RankBatch × Nat) => e.1.tensor manager batches.length e.2).map
    (SyncTensor.sum batches.length)

/-- What rank `dpRank` returns, whose batch is `b`. -/
def dispatchRank (manager : CudaGraphManager) (batches : List RankBatch) (b : RankBatch) (dpRank : Nat) :
    Except Python.Error (BatchExecutionDescriptor × Option (List Nat)) := do
  let u ← b.uniformTokenCount
  let reduced ← groupTensor manager batches
  dispatchCgAndSyncDp (fun _ => reduced) (some manager) b.numReqs b.numTokens u batches.length dpRank
    b.needEager

/-! ## Sums of single columns -/

theorem addRows_zeros_left : ∀ (l : List Nat), addRows (List.replicate l.length 0) l = l := by
  intro l
  induction l with
  | nil => rfl
  | cons a l ih =>
    show (0 + a) :: addRows (List.replicate l.length 0) l = a :: l
    rw [ih, Nat.zero_add]

theorem addRows_append {a b a' b' : List Nat} (h : a.length = b.length) :
    addRows (a ++ a') (b ++ b') = addRows a b ++ addRows a' b' := List.zipWith_append h

theorem oneHot_eq {n i : Nat} (v : Nat) (h : i < n) :
    oneHot n i v = List.replicate i 0 ++ ([v] ++ List.replicate (n - i - 1) 0) := by
  have hsplit : List.replicate n 0 = List.replicate i 0 ++ 0 :: List.replicate (n - i - 1) 0 := by
    rw [← List.replicate_succ, ← List.replicate_add]
    congr 1
    omega
  unfold oneHot
  rw [hsplit, List.set_append_right _ _ (by rw [List.length_replicate]), List.length_replicate,
    Nat.sub_self, List.set_cons_zero]
  rfl

/-- The columns of the ranks add up to the row of their values. The induction is on the ranks that
are left, from column `k`. -/
theorem foldr_oneHot {α : Type} (f : α → Nat) (n : Nat) : ∀ (xs : List α) (k : Nat), k + xs.length ≤ n →
    ((xs.zipIdx k).map fun e => oneHot n e.2 (f e.1)).foldr addRows (List.replicate n 0)
      = List.replicate k 0 ++ (xs.map f ++ List.replicate (n - k - xs.length) 0) := by
  intro xs
  induction xs with
  | nil =>
    intro k hk
    rw [List.length_nil, Nat.add_zero] at hk
    show List.replicate n 0 = List.replicate k 0 ++ ([] ++ List.replicate (n - k - 0) 0)
    rw [List.nil_append, ← List.replicate_add]
    congr 1
    omega
  | cons x xs ih =>
    intro k hk
    rw [List.length_cons] at hk
    have hrest : n - (k + 1) - xs.length = n - k - (x :: xs).length := by
      rw [List.length_cons]
      omega
    have hcolumn : ([f x] : List Nat).length = ([0] : List Nat).length := rfl
    rw [List.zipIdx_cons, List.map_cons, List.foldr_cons, ih (k + 1) (by omega), hrest]
    dsimp only
    rw [oneHot_eq _ (by omega), List.replicate_succ', List.append_assoc, addRows_append rfl,
      addRows_append hcolumn]
    have hzeros : addRows (List.replicate k 0) (List.replicate k 0) = List.replicate k 0 := by
      have hz := addRows_zeros_left (List.replicate k 0)
      rw [List.length_replicate] at hz
      exact hz
    have htail : addRows (List.replicate (n - k - 1) 0)
        (xs.map f ++ List.replicate (n - k - (x :: xs).length) 0)
        = xs.map f ++ List.replicate (n - k - (x :: xs).length) 0 := by
      have hz := addRows_zeros_left (xs.map f ++ List.replicate (n - k - (x :: xs).length) 0)
      rw [List.length_append, List.length_map, List.length_replicate, List.length_cons] at hz
      rw [List.length_cons]
      have hlen : xs.length + (n - k - (xs.length + 1)) = n - k - 1 := by omega
      rw [hlen] at hz
      exact hz
    rw [hzeros, htail]
    rfl

theorem sum_fields (dpSize : Nat) (tensors : List SyncTensor) :
    SyncTensor.sum dpSize tensors =
      { numTokens := (tensors.map (·.numTokens)).foldr addRows (List.replicate dpSize 0)
        cgModes := (tensors.map (·.cgModes)).foldr addRows (List.replicate dpSize 0)
        uniformTokenCounts :=
          (tensors.map (·.uniformTokenCounts)).foldr addRows (List.replicate dpSize 0) } := by
  induction tensors with
  | nil => rfl
  | cons t tensors ih =>
    show SyncTensor.add t (SyncTensor.sum dpSize tensors) = _
    rw [ih]
    rfl

/-! ## One rank -/

/-- The batches a rank can have. -/
structure RankBatch.Valid (maxNumReqs : Nat) (b : RankBatch) : Prop where
  pos : 1 ≤ b.numReqs
  leTokens : b.numReqs ≤ b.numTokens
  leMax : b.numReqs ≤ maxNumReqs

/-- The value of `get_uniform_token_count`. -/
def RankBatch.uniform (b : RankBatch) : Option Nat :=
  if b.maxQueryLen = b.numTokens / b.numReqs ∧ b.numTokens = b.maxQueryLen * b.numReqs then
    some b.maxQueryLen
  else none

theorem RankBatch.uniformTokenCount_eq {b : RankBatch} (h : 1 ≤ b.numReqs) :
    b.uniformTokenCount = .ok b.uniform := by
  unfold RankBatch.uniformTokenCount getUniformTokenCount RankBatch.uniform
  rw [if_neg (Nat.ne_of_gt h)]
  split
  · rfl
  · rfl

theorem RankBatch.numTokens_of_uniform {b : RankBatch} {q : Nat} (h : b.uniform = some q) :
    b.numTokens = q * b.numReqs := by
  unfold RankBatch.uniform at h
  split at h
  next hcond =>
    cases h
    exact hcond.2
  next => cases h

/-- The descriptor of the rank before the exchange. -/
def RankBatch.desc (manager : CudaGraphManager) (b : RankBatch) : BatchExecutionDescriptor :=
  if b.needEager then
    { cgMode := .none, numTokens := b.numTokens, numReqs := some b.numReqs, uniformTokenCount := none }
  else manager.dispatch b.numReqs b.numTokens b.uniform

theorem RankBatch.desiredBatchDesc_eq (manager : CudaGraphManager) (b : RankBatch) :
    desiredBatchDesc (some manager) b.numReqs b.numTokens b.uniform b.needEager
      = .ok (b.desc manager) := by
  unfold desiredBatchDesc RankBatch.desc
  split
  · rfl
  · rfl

/-- What `dispatch` can return: the eager descriptor, or a captured one that fits. -/
theorem dispatch_cases {maxNumReqs decodeQueryLen : Nat} {mode : CUDAGraphMode} {captureSizes : List Nat}
    {graphsCaptured : Bool} {manager : CudaGraphManager}
    (h : CudaGraphManager.new maxNumReqs mode decodeQueryLen captureSizes graphsCaptured = .ok manager)
    (numReqs numTokens : Nat) (u : Option Nat) :
    manager.dispatch numReqs numTokens u =
        { cgMode := .none, numTokens := numTokens, numReqs := some numReqs, uniformTokenCount := none } ∨
      (∃ size, numTokens ≤ size ∧ Captured maxNumReqs mode decodeQueryLen size
          (manager.dispatch numReqs numTokens u)) ∧
        isCompatible (manager.dispatch numReqs numTokens u) numReqs numTokens u = true := by
  obtain ⟨candidates, hcandidates, rfl⟩ := Raises.map_eq_ok.mp h
  unfold CudaGraphManager.dispatch
  dsimp only
  split
  · cases hfind : (candidates.getD numTokens []).find? fun desc =>
        isCompatible desc numReqs numTokens u with
    | none => exact Or.inl rfl
    | some desc =>
      have hfits := List.find?_some hfind
      exact Or.inr ⟨candidates_spec hcandidates (List.mem_of_find?_eq_some hfind), hfits⟩
  · exact Or.inl rfl

theorem Captured.runtime {maxNumReqs decodeQueryLen size : Nat} {mode : CUDAGraphMode}
    {desc : BatchExecutionDescriptor} (h : Captured maxNumReqs mode decodeQueryLen size desc) :
    desc.cgMode = .piecewise ∨ desc.cgMode = .full := by
  cases h with
  | decode hmode _ =>
    right
    cases mode with
    | fullDecodeOnly => rfl
    | fullAndPiecewise => rfl
    | none => cases hmode
    | piecewise => cases hmode
    | full => cases hmode
  | mixed hmode =>
    cases mode with
    | none => exact absurd rfl hmode
    | piecewise => exact Or.inl rfl
    | full => exact Or.inr rfl
    | fullDecodeOnly => exact absurd rfl hmode
    | fullAndPiecewise => exact Or.inl rfl

/-- A captured shape that is large enough for the tokens, and uniform as the batch is, is large
enough for the requests. -/
theorem Captured.fits {maxNumReqs decodeQueryLen size n : Nat} {mode : CUDAGraphMode}
    {desc : BatchExecutionDescriptor} {b : RankBatch} {u : Option Nat}
    (h : Captured maxNumReqs mode decodeQueryLen size desc) (hb : b.Valid maxNumReqs)
    (hle : b.numTokens ≤ n) (hn : n ≤ size) (hu : ∀ q, u = some q → b.uniform = some q) :
    isCompatible desc b.numReqs n u = isCompatible desc 0 n u := by
  have htokens := hb.leTokens
  have hmax := hb.leMax
  cases h with
  | decode hmode hpos =>
    unfold isCompatible
    by_cases huq : u = some decodeQueryLen
    · -- the rank's requests have this many tokens each
      have hmul := b.numTokens_of_uniform (hu _ huq)
      have hdiv : b.numReqs ≤ size / decodeQueryLen := by
        rw [Nat.le_div_iff_mul_le hpos, Nat.mul_comm, ← hmul]
        omega
      simp [hdiv]
    · simp [Ne.symm huq]
  | mixed hmode =>
    unfold isCompatible
    by_cases hfull : mode.mixedMode = .full
    · have hmin : b.numReqs ≤ min size maxNumReqs := by omega
      simp [hfull, hmin]
    · simp [hfull]

/-- The value of a mode a batch can run with. -/
def runtimeValue : CUDAGraphMode → Nat
  | .piecewise => 1
  | .full => 2
  | _ => 0

section Group

variable {maxNumReqs decodeQueryLen : Nat} {mode : CUDAGraphMode} {captureSizes : List Nat}
  {graphsCaptured : Bool} {manager : CudaGraphManager} {batches : List RankBatch}

/-- Before the exchange a rank has a mode that can run, and a batch that fits. -/
theorem RankBatch.desc_spec
    (h : CudaGraphManager.new maxNumReqs mode decodeQueryLen captureSizes graphsCaptured = .ok manager)
    (b : RankBatch) :
    (b.desc manager).cgMode.value = .ok (runtimeValue (b.desc manager).cgMode) ∧
      b.numTokens ≤ (b.desc manager).numTokens ∧
      ∀ n, (b.desc manager).numReqs = some n → b.numReqs ≤ n := by
  have heager : ∀ desc : BatchExecutionDescriptor, desc =
      { cgMode := .none, numTokens := b.numTokens, numReqs := some b.numReqs, uniformTokenCount := none } →
      desc.cgMode.value = .ok (runtimeValue desc.cgMode) ∧ b.numTokens ≤ desc.numTokens ∧
        ∀ n, desc.numReqs = some n → b.numReqs ≤ n := by
    rintro desc rfl
    refine ⟨rfl, Nat.le_refl _, ?_⟩
    intro n hn
    exact Nat.le_of_eq (Option.some.inj hn)
  unfold RankBatch.desc
  split
  · exact heager _ rfl
  · rcases dispatch_cases h b.numReqs b.numTokens b.uniform with hnone | ⟨⟨size, hle, hcaptured⟩, hfits⟩
    · exact heager _ hnone
    · unfold isCompatible at hfits
      rw [Bool.and_eq_true, Bool.and_eq_true] at hfits
      refine ⟨?_, of_decide_eq_true hfits.2, ?_⟩
      · rcases hcaptured.runtime with hmode | hmode
        · rw [hmode]
          rfl
        · rw [hmode]
          rfl
      · intro n hn
        have hreqs := hfits.1.2
        rw [hn] at hreqs
        exact of_decide_eq_true hreqs

/-- What all ranks receive. -/
theorem groupTensor_eq
    (h : CudaGraphManager.new maxNumReqs mode decodeQueryLen captureSizes graphsCaptured = .ok manager)
    (hpos : ∀ b ∈ batches, 1 ≤ b.numReqs) :
    groupTensor manager batches = .ok
      { numTokens := batches.map (·.numTokens)
        cgModes := batches.map fun b => runtimeValue (b.desc manager).cgMode
        uniformTokenCounts := batches.map fun b => b.uniform.getD 0 } := by
  have hpassed : ∀ e ∈ batches.zipIdx, (e.1 : RankBatch).tensor manager batches.length e.2 = .ok
      { numTokens := oneHot batches.length e.2 e.1.numTokens
        cgModes := oneHot batches.length e.2 (runtimeValue (e.1.desc manager).cgMode)
        uniformTokenCounts := oneHot batches.length e.2 (e.1.uniform.getD 0) } := by
    intro e he
    have hmem : e.1 ∈ batches := List.fst_mem_of_mem_zipIdx he
    unfold RankBatch.tensor
    rw [RankBatch.uniformTokenCount_eq (hpos e.1 hmem), Raises.ok_bind, RankBatch.desiredBatchDesc_eq,
      Raises.ok_bind]
    unfold syncTensor
    rw [(RankBatch.desc_spec h e.1).1]
    rfl
  have hcolumns : ∀ f : RankBatch → Nat,
      (batches.zipIdx.map fun e => oneHot batches.length e.2 (f e.1)).foldr addRows
        (List.replicate batches.length 0) = batches.map f := by
    intro f
    rw [foldr_oneHot f batches.length batches 0 (by omega), Nat.sub_zero, Nat.sub_self]
    exact List.append_nil _
  unfold groupTensor
  rw [Raises.mapM_eq_map hpassed]
  show Except.ok _ = _
  rw [sum_fields, List.map_map, List.map_map, List.map_map]
  have htokens := hcolumns fun b => b.numTokens
  have hmodes := hcolumns fun b => runtimeValue (b.desc manager).cgMode
  have hcounts := hcolumns fun b => b.uniform.getD 0
  exact congrArg Except.ok (congr (congr (congrArg SyncTensor.mk htokens) hmodes) hcounts)

/-- What is agreed on holds of every rank. -/
theorem uniform_of_synced {q : Nat}
    (h : syncedUniformTokenCount (batches.map fun b => b.uniform.getD 0) = some q) :
    ∀ b ∈ batches, b.uniform = some q := by
  unfold syncedUniformTokenCount at h
  dsimp only at h
  split at h
  · cases h
  next hcond =>
    rw [not_or, Bool.not_eq_true', Bool.not_eq_false] at hcond
    obtain ⟨hne, hall⟩ := hcond
    cases h
    intro b hb
    have heq := List.all_eq_true.mp hall _ (List.mem_map_of_mem hb)
    have hval := of_decide_eq_true heq
    cases hu : b.uniform with
    | none =>
      rw [hu] at hval
      exact absurd hval.symm hne
    | some q' =>
      rw [hu] at hval
      rw [← hval]
      rfl

/-- After the exchange the ranks' requests make no difference to the shape that is found. -/
theorem dispatch_synced
    (h : CudaGraphManager.new maxNumReqs mode decodeQueryLen captureSizes graphsCaptured = .ok manager)
    {b : RankBatch} (hb : b.Valid maxNumReqs) {n : Nat} {u : Option Nat} (hle : b.numTokens ≤ n)
    (hu : ∀ q, u = some q → b.uniform = some q) :
    manager.dispatch b.numReqs n u =
      if manager.graphsCaptured && decide (0 < n) && decide (n < manager.candidates.length) then
        ((manager.candidates.getD n []).find? fun desc => isCompatible desc 0 n u).getD
          { cgMode := .none, numTokens := n, numReqs := some b.numReqs, uniformTokenCount := none }
      else { cgMode := .none, numTokens := n, numReqs := some b.numReqs, uniformTokenCount := none } := by
  obtain ⟨candidates, hcandidates, rfl⟩ := Raises.map_eq_ok.mp h
  unfold CudaGraphManager.dispatch
  dsimp only
  have hfind : ((candidates.getD n []).find? fun desc => isCompatible desc b.numReqs n u)
      = (candidates.getD n []).find? fun desc => isCompatible desc 0 n u := by
    apply List.find?_congr
    intro desc hdesc
    obtain ⟨size, hn, hcaptured⟩ := candidates_spec hcandidates hdesc
    exact hcaptured.fits hb hle hn hu
  rw [hfind]

/-- The shape that all ranks find for `n` tokens, if there is one. -/
def sharedShape (manager : CudaGraphManager) (n : Nat) (u : Option Nat) :
    Option BatchExecutionDescriptor :=
  if manager.graphsCaptured && decide (0 < n) && decide (n < manager.candidates.length) then
    (manager.candidates.getD n []).find? fun desc => isCompatible desc 0 n u
  else none

theorem dispatch_shared
    (h : CudaGraphManager.new maxNumReqs mode decodeQueryLen captureSizes graphsCaptured = .ok manager)
    {b : RankBatch} (hb : b.Valid maxNumReqs) {n : Nat} {u : Option Nat} (hle : b.numTokens ≤ n)
    (hu : ∀ q, u = some q → b.uniform = some q) :
    manager.dispatch b.numReqs n u = (sharedShape manager n u).getD
      { cgMode := .none, numTokens := n, numReqs := some b.numReqs, uniformTokenCount := none } := by
  rw [dispatch_synced h hb hle hu]
  unfold sharedShape
  split
  · rfl
  · rfl

/-- What the ranks of a group return: rank `r` the descriptor `descs[r]`, and the numbers of tokens
of all. -/
structure RanksAgree (manager : CudaGraphManager) (batches : List RankBatch)
    (descs : List BatchExecutionDescriptor) : Prop where
  length : descs.length = batches.length
  returned : ∀ (r : Nat) (b : RankBatch) (d : BatchExecutionDescriptor), batches[r]? = some b →
    descs[r]? = some d →
    dispatchRank manager batches b r = .ok
      (d, if batches.length = 1 then none else some (descs.map (·.numTokens)))
  mode : ∀ d ∈ descs, ∀ d' ∈ descs, d.cgMode = d'.cgMode
  numTokens : ∀ d ∈ descs, ∀ d' ∈ descs, d.cgMode ≠ .none → d.numTokens = d'.numTokens
  large : ∀ (r : Nat) (b : RankBatch) (d : BatchExecutionDescriptor), batches[r]? = some b →
    descs[r]? = some d → d.cgMode ≠ .none →
    b.numTokens ≤ d.numTokens ∧ ∀ n, d.numReqs = some n → b.numReqs ≤ n

/-- When each rank's descriptor is a function of its batch. -/
theorem RanksAgree.of_map (f : RankBatch → BatchExecutionDescriptor)
    (hreturned : ∀ r, ∀ b ∈ batches, dispatchRank manager batches b r = .ok
      (f b, if batches.length = 1 then none else some (batches.map fun b => (f b).numTokens)))
    (hmode : ∀ b ∈ batches, ∀ b' ∈ batches, (f b).cgMode = (f b').cgMode)
    (htokens : ∀ b ∈ batches, ∀ b' ∈ batches, (f b).cgMode ≠ .none → (f b).numTokens = (f b').numTokens)
    (hlarge : ∀ b ∈ batches, (f b).cgMode ≠ .none →
      b.numTokens ≤ (f b).numTokens ∧ ∀ n, (f b).numReqs = some n → b.numReqs ≤ n) :
    RanksAgree manager batches (batches.map f) := by
  have hat : ∀ {r : Nat} {b : RankBatch} {d : BatchExecutionDescriptor}, batches[r]? = some b →
      (batches.map f)[r]? = some d → b ∈ batches ∧ d = f b := by
    intro r b d hb hd
    rw [List.getElem?_map, hb] at hd
    exact ⟨List.mem_of_getElem? hb, (Option.some.inj hd).symm⟩
  refine ⟨List.length_map _, ?_, ?_, ?_, ?_⟩
  · intro r b d hb hd
    obtain ⟨hmem, rfl⟩ := hat hb hd
    rw [hreturned r b hmem, List.map_map]
    rfl
  · intro d hd d' hd'
    obtain ⟨b, hb, rfl⟩ := List.mem_map.mp hd
    obtain ⟨b', hb', rfl⟩ := List.mem_map.mp hd'
    exact hmode b hb b' hb'
  · intro d hd d' hd'
    obtain ⟨b, hb, rfl⟩ := List.mem_map.mp hd
    obtain ⟨b', hb', rfl⟩ := List.mem_map.mp hd'
    exact htokens b hb b' hb'
  · intro r b d hb hd
    obtain ⟨hmem, rfl⟩ := hat hb hd
    exact hlarge b hmem

theorem le_foldr_max {l : List Nat} {a : Nat} (h : a ∈ l) : a ≤ l.foldr max 0 := by
  induction l with
  | nil => cases h
  | cons c l ih =>
    rcases List.mem_cons.mp h with rfl | h
    · exact Nat.le_max_left _ _
    · exact Nat.le_trans (ih h) (Nat.le_max_right _ _)

/-- Every rank of a group of more than one evaluates the same tensor. -/
theorem dispatchRank_eq
    (h : CudaGraphManager.new maxNumReqs mode decodeQueryLen captureSizes graphsCaptured = .ok manager)
    (hvalid : ∀ b ∈ batches, b.Valid maxNumReqs) (r : Nat) {b : RankBatch} (hb : b ∈ batches) :
    dispatchRank manager batches b r =
      if batches.length = 1 then .ok (b.desc manager, none)
      else syncCudagraphAndDpPadding (fun _ =>
        { numTokens := batches.map (·.numTokens)
          cgModes := batches.map fun b => runtimeValue (b.desc manager).cgMode
          uniformTokenCounts := batches.map fun b => b.uniform.getD 0 })
        (some manager) (b.desc manager) b.numTokens b.numReqs b.uniform batches.length r := by
  unfold dispatchRank
  rw [RankBatch.uniformTokenCount_eq (hvalid b hb).pos, Raises.ok_bind,
    groupTensor_eq h fun b hb => (hvalid b hb).pos, Raises.ok_bind]
  unfold dispatchCgAndSyncDp
  rw [RankBatch.desiredBatchDesc_eq]

/-- Alone, a rank keeps what it has found. -/
theorem RanksAgree.single
    (h : CudaGraphManager.new maxNumReqs mode decodeQueryLen captureSizes graphsCaptured = .ok manager)
    {b : RankBatch} (hb : b.Valid maxNumReqs) : RanksAgree manager [b] [b.desc manager] := by
  have hvalid : ∀ b' ∈ [b], b'.Valid maxNumReqs := by
    intro b' hb'
    rw [List.mem_singleton.mp hb']
    exact hb
  apply RanksAgree.of_map fun b => b.desc manager
  · intro r b' hb'
    have hlen : [b].length = 1 := List.length_singleton
    rw [dispatchRank_eq h hvalid r hb', if_pos hlen, if_pos hlen]
  · intro b₁ h₁ b₂ h₂
    rw [List.mem_singleton.mp h₁, List.mem_singleton.mp h₂]
  · intro b₁ h₁ b₂ h₂ _
    rw [List.mem_singleton.mp h₁, List.mem_singleton.mp h₂]
  · intro b' _ _
    exact (RankBatch.desc_spec h b').2

/-- One rank runs eagerly, so all do. -/
theorem RanksAgree.eager (hone : batches.length ≠ 1)
    (hrun : ∀ r, ∀ b ∈ batches, dispatchRank manager batches b r = .ok
      ({ cgMode := .none
         numTokens := b.numTokens
         numReqs := some b.numReqs
         uniformTokenCount := none }, some (batches.map (·.numTokens)))) :
    ∃ descs, RanksAgree manager batches descs := by
  refine ⟨_, RanksAgree.of_map (fun b =>
    { cgMode := .none
      numTokens := b.numTokens
      numReqs := some b.numReqs
      uniformTokenCount := none }) ?_ ?_ ?_ ?_⟩
  · intro r b hb
    rw [hrun r b hb, if_neg hone]
  · intro b _ b' _
    rfl
  · intro b _ b' _ hne
    exact absurd rfl hne
  · intro b _ hne
    exact absurd rfl hne

/-- All ranks dispatch again, for the same number of tokens. -/
theorem RanksAgree.again
    (h : CudaGraphManager.new maxNumReqs mode decodeQueryLen captureSizes graphsCaptured = .ok manager)
    (hvalid : ∀ b ∈ batches, b.Valid maxNumReqs) (hone : batches.length ≠ 1) {n : Nat} {u : Option Nat}
    (hle : ∀ b ∈ batches, b.numTokens ≤ n) (hu : ∀ b ∈ batches, ∀ q, u = some q → b.uniform = some q)
    (hrun : ∀ r, ∀ b ∈ batches, dispatchRank manager batches b r = .ok
      (manager.dispatch b.numReqs n u,
        some ((batches.map (·.numTokens)).map fun _ => (manager.dispatch b.numReqs n u).numTokens))) :
    ∃ descs, RanksAgree manager batches descs := by
  have hshared : ∀ b ∈ batches, manager.dispatch b.numReqs n u = (sharedShape manager n u).getD
      { cgMode := .none, numTokens := n, numReqs := some b.numReqs, uniformTokenCount := none } :=
    fun b hb => dispatch_shared h (hvalid b hb) (hle b hb) (hu b hb)
  have hsame : ∀ b ∈ batches, ∀ b' ∈ batches,
      (manager.dispatch b.numReqs n u).cgMode = (manager.dispatch b'.numReqs n u).cgMode ∧
      (manager.dispatch b.numReqs n u).numTokens = (manager.dispatch b'.numReqs n u).numTokens := by
    intro b hb b' hb'
    rw [hshared b hb, hshared b' hb']
    cases sharedShape manager n u with
    | none => exact ⟨rfl, rfl⟩
    | some desc => exact ⟨rfl, rfl⟩
  refine ⟨_, RanksAgree.of_map (fun b => manager.dispatch b.numReqs n u) ?_ ?_ ?_ ?_⟩
  · intro r b hb
    rw [hrun r b hb, if_neg hone, List.map_map]
    congr 3
    apply List.map_congr_left
    intro b' hb'
    exact (hsame b hb b' hb').2
  · intro b hb b' hb'
    exact (hsame b hb b' hb').1
  · intro b hb b' hb' _
    exact (hsame b hb b' hb').2
  · intro b hb hne
    rcases dispatch_cases h b.numReqs n u with heq | ⟨-, hfits⟩
    · rw [heq] at hne
      exact absurd rfl hne
    · unfold isCompatible at hfits
      rw [Bool.and_eq_true, Bool.and_eq_true] at hfits
      refine ⟨Nat.le_trans (hle b hb) (of_decide_eq_true hfits.2), ?_⟩
      intro k hk
      have hreqs := hfits.1.2
      rw [hk] at hreqs
      exact of_decide_eq_true hreqs

theorem runtimeValue_ofValue (mode : CUDAGraphMode) :
    ∃ runtime, CUDAGraphMode.ofValue (runtimeValue mode) = .ok runtime := by
  cases mode with
  | none => exact ⟨_, rfl⟩
  | piecewise => exact ⟨_, rfl⟩
  | full => exact ⟨_, rfl⟩
  | fullDecodeOnly => exact ⟨_, rfl⟩
  | fullAndPiecewise => exact ⟨_, rfl⟩

/-- **The ranks agree on the batch shape.** -/
theorem ranks_agree
    (h : CudaGraphManager.new maxNumReqs mode decodeQueryLen captureSizes graphsCaptured = .ok manager)
    (hvalid : ∀ b ∈ batches, b.Valid maxNumReqs) : ∃ descs, RanksAgree manager batches descs := by
  rcases hbatches : batches with _ | ⟨b₀, _ | ⟨b₁, rest⟩⟩
  · refine ⟨_, RanksAgree.of_map (fun b => b.desc manager) ?_ ?_ ?_ ?_⟩
    · intro r b hb
      cases hb
    · intro b hb
      cases hb
    · intro b hb
      cases hb
    · intro b hb
      cases hb
  · rw [hbatches] at hvalid
    exact ⟨_, RanksAgree.single h (hvalid b₀ List.mem_cons_self)⟩
  · rw [← hbatches]
    have hsize : ¬ batches.length ≤ 1 := by
      rw [hbatches, List.length_cons, List.length_cons]
      omega
    have hone : batches.length ≠ 1 := by omega
    have hb₀ : b₀ ∈ batches := hbatches ▸ List.mem_cons_self
    have htokens : (batches.map (·.numTokens)).all (fun n => decide (n = 0)) = false := by
      apply List.all_eq_false.mpr
      refine ⟨b₀.numTokens, List.mem_map_of_mem hb₀, ?_⟩
      have hpos := (hvalid b₀ hb₀).pos
      have hle := (hvalid b₀ hb₀).leTokens
      rw [decide_eq_true_iff]
      omega
    obtain ⟨m, hm⟩ : ∃ m, (batches.map fun b => runtimeValue (b.desc manager).cgMode).min? = some m := by
      rw [hbatches]
      exact ⟨_, rfl⟩
    obtain ⟨runtime, hruntime⟩ : ∃ runtime, CUDAGraphMode.ofValue m = .ok runtime := by
      obtain ⟨b, -, rfl⟩ := List.mem_map.mp (List.min?_mem hm)
      exact runtimeValue_ofValue _
    have hpassed : ∀ r, ∀ b : RankBatch, syncTensor (b.desc manager) b.numTokens b.uniform
        batches.length r = .ok
          { numTokens := oneHot batches.length r b.numTokens
            cgModes := oneHot batches.length r (runtimeValue (b.desc manager).cgMode)
            uniformTokenCounts := oneHot batches.length r (b.uniform.getD 0) } := by
      intro r b
      unfold syncTensor
      rw [(RankBatch.desc_spec h b).1]
      rfl
    by_cases heager : runtime = .none
    · apply RanksAgree.eager hone
      intro r b hb
      rw [dispatchRank_eq h hvalid r hb, if_neg hone]
      unfold syncCudagraphAndDpPadding
      rw [if_neg hsize, hpassed]
      dsimp only
      rw [htokens, if_neg Bool.false_ne_true, hm]
      dsimp only
      rw [hruntime, heager]
    · apply RanksAgree.again h hvalid hone (n := (batches.map (·.numTokens)).foldr max 0)
        (u := syncedUniformTokenCount (batches.map fun b => b.uniform.getD 0))
      · intro b hb
        exact le_foldr_max (List.mem_map_of_mem hb)
      · intro b hb q hq
        exact uniform_of_synced hq b hb
      · intro r b hb
        rw [dispatchRank_eq h hvalid r hb, if_neg hone]
        unfold syncCudagraphAndDpPadding
        rw [if_neg hsize, hpassed]
        dsimp only
        rw [htokens, if_neg Bool.false_ne_true, hm]
        dsimp only
        rw [hruntime]
        cases runtime with
        | none => exact absurd rfl heager
        | piecewise => rfl
        | full => rfl
        | fullDecodeOnly => rfl
        | fullAndPiecewise => rfl

end Group

/-- A uniform decode beside a mixed batch. -/
def twoBatches : List RankBatch :=
  [{ queryLens := [1, 1], needEager := false }, { queryLens := [3], needEager := false }]

theorem twoBatches_agree : ∃ manager, CudaGraphManager.new 4 .fullAndPiecewise 1 [1, 2, 4] true = .ok manager ∧
    ∃ descs, RanksAgree manager twoBatches descs := by
  obtain ⟨manager, hmanager⟩ : ∃ manager,
      CudaGraphManager.new 4 .fullAndPiecewise 1 [1, 2, 4] true = .ok manager := ⟨_, rfl⟩
  refine ⟨manager, hmanager, ranks_agree hmanager ?_⟩
  intro b hb
  rcases List.mem_cons.mp hb with rfl | hb
  · exact ⟨by decide, by decide, by decide⟩
  · rw [List.mem_singleton.mp hb]
    exact ⟨by decide, by decide, by decide⟩

/-- A rank alone does not get the numbers of tokens of the ranks. -/
theorem one_rank_without_tokens :
    ¬ ∀ (maxNumReqs decodeQueryLen : Nat) (mode : CUDAGraphMode) (captureSizes : List Nat)
      (graphsCaptured : Bool) (manager : CudaGraphManager) (batches : List RankBatch),
      CudaGraphManager.new maxNumReqs mode decodeQueryLen captureSizes graphsCaptured = .ok manager →
      (∀ b ∈ batches, b.Valid maxNumReqs) →
      ∃ descs : List BatchExecutionDescriptor, ∀ (r : Nat) (b : RankBatch), batches[r]? = some b →
        ∃ d, descs[r]? = some d ∧
          dispatchRank manager batches b r = .ok (d, some (descs.map (·.numTokens))) := by
  intro hclaim
  obtain ⟨descs, hdescs⟩ := hclaim 1 1 .none [] false
    { maxNumReqs := 1, cudagraphMode := .none, decodeQueryLen := 1, graphsCaptured := false, candidates := [] }
    [{ queryLens := [1], needEager := false }] rfl (by
      intro b hb
      rw [List.mem_singleton.mp hb]
      exact ⟨by decide, by decide, by decide⟩)
  obtain ⟨d, -, hrun⟩ := hdescs 0 { queryLens := [1], needEager := false } rfl
  have hnone : dispatchRank
      { maxNumReqs := 1, cudagraphMode := .none, decodeQueryLen := 1, graphsCaptured := false, candidates := [] }
      [{ queryLens := [1], needEager := false }] { queryLens := [1], needEager := false } 0
      = .ok ({ cgMode := .none, numTokens := 1, numReqs := some 1, uniformTokenCount := none }, none) := rfl
  rw [hnone] at hrun
  cases hrun

end VllmEngine.Runner
