import Mathlib.Data.List.Sort
import VllmEngine.Lib.Dict
import VllmEngine.Lib.Python

/-!
# The shapes of captured graphs

`CudaGraphManager` (`vllm/v1/worker/gpu/cudagraph_utils.py`): which shapes are
captured for a list of capture sizes, and which of them a batch runs with. For
every number of tokens there is a list of candidates, those of the least capture
size that is large enough; the first one that fits the batch is taken.

Mirroring notes:
- Tables that only `capture` reads are left out.
- A mode is the pair of its decode mode and its mixed mode where it has a routine
  for each.

> `candidates_spec`: what the candidates of a number of tokens are.
-/

namespace VllmEngine.Runner

inductive CUDAGraphMode
  | none
  | piecewise
  | full
  | fullDecodeOnly
  | fullAndPiecewise
deriving DecidableEq, Repr

namespace CUDAGraphMode

def separateRoutine : CUDAGraphMode → Bool
  | .fullDecodeOnly | .fullAndPiecewise => true
  | _ => false

def decodeMode : CUDAGraphMode → CUDAGraphMode
  | .fullDecodeOnly | .fullAndPiecewise => .full
  | mode => mode

def mixedMode : CUDAGraphMode → CUDAGraphMode
  | .fullDecodeOnly => .none
  | .fullAndPiecewise => .piecewise
  | mode => mode

/-- `__bool__`. -/
def toBool (mode : CUDAGraphMode) : Bool := decide (mode ≠ .none)

/-- `value`, as an entry of an integer tensor; the tuples cannot be one. -/
def value : CUDAGraphMode → Except Python.Error Nat
  | .none => .ok 0
  | .piecewise => .ok 1
  | .full => .ok 2
  | _ => .error (.type "'tuple' object cannot be interpreted as an integer")

/-- `CUDAGraphMode(i)`. -/
def ofValue : Nat → Except Python.Error CUDAGraphMode
  | 0 => .ok .none
  | 1 => .ok .piecewise
  | 2 => .ok .full
  | i => .error (.value (toString i ++ " is not a valid CUDAGraphMode"))

end CUDAGraphMode

structure BatchExecutionDescriptor where
  cgMode : CUDAGraphMode
  numTokens : Nat
  /-- `None` where requests are not padded. -/
  numReqs : Option Nat
  uniformTokenCount : Option Nat
deriving DecidableEq, Repr

/-- `_is_compatible`. -/
def isCompatible (desc : BatchExecutionDescriptor) (numReqs numTokens : Nat)
    (uniformTokenCount : Option Nat) : Bool :=
  (decide (desc.uniformTokenCount = none) || decide (desc.uniformTokenCount = uniformTokenCount)) &&
    (desc.numReqs.elim true fun n => decide (numReqs ≤ n)) && decide (numTokens ≤ desc.numTokens)

/-- `get_uniform_token_count`. -/
def getUniformTokenCount (numReqs numTokens maxQueryLen : Nat) : Except Python.Error (Option Nat) :=
  if numReqs = 0 then .error (.zeroDivision "integer division or modulo by zero")
  else if maxQueryLen = numTokens / numReqs ∧ numTokens = maxQueryLen * numReqs then
    .ok (some maxQueryLen)
  else .ok none

structure CudaGraphManager where
  maxNumReqs : Nat
  cudagraphMode : CUDAGraphMode
  decodeQueryLen : Nat
  graphsCaptured : Bool
  candidates : List (List BatchExecutionDescriptor)
deriving DecidableEq, Repr

/-- The graph for uniform decodes that one capture size adds, where decodes have a routine of their
own. -/
def decodeDescs (maxNumReqs : Nat) (cudagraphMode : CUDAGraphMode) (decodeQueryLen numTokens : Nat) :
    Except Python.Error (List BatchExecutionDescriptor) :=
  if cudagraphMode.separateRoutine && cudagraphMode.decodeMode.toBool &&
      decide (decodeQueryLen ≤ numTokens) && decide (numTokens ≤ maxNumReqs * decodeQueryLen) then
    if decodeQueryLen = 0 then .error (.zeroDivision "integer division or modulo by zero")
    else
      .ok
        [{ cgMode := cudagraphMode.decodeMode
           numTokens := numTokens
           numReqs := some (numTokens / decodeQueryLen)
           uniformTokenCount := some decodeQueryLen }]
  else .ok []

/-- The graph for mixed batches that one capture size adds; a piecewise graph does not limit the
requests. -/
def mixedDescs (maxNumReqs : Nat) (cudagraphMode : CUDAGraphMode) (numTokens : Nat) :
    List BatchExecutionDescriptor :=
  if cudagraphMode.mixedMode.toBool then
    [{ cgMode := cudagraphMode.mixedMode
       numTokens := numTokens
       numReqs := if cudagraphMode.mixedMode = .full then some (min numTokens maxNumReqs) else none
       uniformTokenCount := none }]
  else []

/-- The descriptors that one capture size adds. -/
def descsOf (maxNumReqs : Nat) (cudagraphMode : CUDAGraphMode) (decodeQueryLen numTokens : Nat) :
    Except Python.Error (List BatchExecutionDescriptor) :=
  (decodeDescs maxNumReqs cudagraphMode decodeQueryLen numTokens).map
    (· ++ mixedDescs maxNumReqs cudagraphMode numTokens)

/-- `descs_by_token_count`: a key is there once a descriptor has been appended under it. -/
def addDescs (byTokenCount : Dict Nat (List BatchExecutionDescriptor)) (numTokens : Nat)
    (descs : List BatchExecutionDescriptor) : Dict Nat (List BatchExecutionDescriptor) :=
  if descs = [] then byTokenCount
  else byTokenCount.set numTokens ((byTokenCount.get? numTokens).getD [] ++ descs)

/-- `sorted`. -/
def sorted (l : List Nat) : List Nat := l.insertionSort (· ≤ ·)

/-- The loop that fills the candidate lists; `start` is `current_range_start`. -/
def fillCandidates (byTokenCount : Dict Nat (List BatchExecutionDescriptor)) :
    List Nat → Nat → List (List BatchExecutionDescriptor) → List (List BatchExecutionDescriptor)
  | [], _, candidates => candidates
  | cgSize :: sizes, start, candidates =>
    let filled := (List.range' start (cgSize + 1 - start)).foldl
      (fun candidates i => candidates.set i ((byTokenCount.get? cgSize).getD [])) candidates
    fillCandidates byTokenCount sizes (cgSize + 1) filled

/-- The candidate lists from the descriptors. -/
def padCandidates (byTokenCount : Dict Nat (List BatchExecutionDescriptor)) :
    List (List BatchExecutionDescriptor) :=
  let sortedPadded := sorted byTokenCount.keys
  match sortedPadded.getLast? with
  | none => []
  | some last => fillCandidates byTokenCount sortedPadded 0 (List.replicate (last + 1) [])

/-- `_init_candidates`. -/
def initCandidates (maxNumReqs : Nat) (cudagraphMode : CUDAGraphMode) (decodeQueryLen : Nat)
    (captureSizes : List Nat) : Except Python.Error (List (List BatchExecutionDescriptor)) :=
  if !(cudagraphMode.toBool && !captureSizes.isEmpty) then .ok []
  else
    ((sorted captureSizes).foldlM (fun byTokenCount numTokens =>
      (descsOf maxNumReqs cudagraphMode decodeQueryLen numTokens).map
        (addDescs byTokenCount numTokens)) Dict.empty).map padCandidates

/-- `__init__`, and whether the graphs have been captured. -/
def CudaGraphManager.new (maxNumReqs : Nat) (cudagraphMode : CUDAGraphMode) (decodeQueryLen : Nat)
    (captureSizes : List Nat) (graphsCaptured : Bool) : Except Python.Error CudaGraphManager :=
  (initCandidates maxNumReqs cudagraphMode decodeQueryLen captureSizes).map fun candidates =>
    { maxNumReqs := maxNumReqs
      cudagraphMode := cudagraphMode
      decodeQueryLen := decodeQueryLen
      graphsCaptured := graphsCaptured
      candidates := candidates }

/-- `CudaGraphManager.dispatch`. -/
def CudaGraphManager.dispatch (manager : CudaGraphManager) (numReqs numTokens : Nat)
    (uniformTokenCount : Option Nat) : BatchExecutionDescriptor :=
  let eager : BatchExecutionDescriptor :=
    { cgMode := .none, numTokens := numTokens, numReqs := some numReqs, uniformTokenCount := none }
  if manager.graphsCaptured && decide (0 < numTokens) &&
      decide (numTokens < manager.candidates.length) then
    ((manager.candidates.getD numTokens []).find? fun desc =>
      isCompatible desc numReqs numTokens uniformTokenCount).getD eager
  else eager

/-! ## What the candidates are -/

/-- A shape captured for `size` tokens. -/
inductive Captured (maxNumReqs : Nat) (mode : CUDAGraphMode) (decodeQueryLen size : Nat) :
    BatchExecutionDescriptor → Prop
  | decode (hmode : mode.separateRoutine = true) (hpos : 0 < decodeQueryLen) :
      Captured maxNumReqs mode decodeQueryLen size
        { cgMode := mode.decodeMode
          numTokens := size
          numReqs := some (size / decodeQueryLen)
          uniformTokenCount := some decodeQueryLen }
  | mixed (hmode : mode.mixedMode ≠ .none) :
      Captured maxNumReqs mode decodeQueryLen size
        { cgMode := mode.mixedMode
          numTokens := size
          numReqs := if mode.mixedMode = .full then some (min size maxNumReqs) else none
          uniformTokenCount := none }

theorem descsOf_captured {maxNumReqs decodeQueryLen size : Nat} {mode : CUDAGraphMode}
    {descs : List BatchExecutionDescriptor} (h : descsOf maxNumReqs mode decodeQueryLen size = .ok descs)
    {desc : BatchExecutionDescriptor} (hdesc : desc ∈ descs) :
    Captured maxNumReqs mode decodeQueryLen size desc := by
  obtain ⟨decode, hdecode, rfl⟩ := Raises.map_eq_ok.mp h
  rcases List.mem_append.mp hdesc with hmem | hmem
  · unfold decodeDescs at hdecode
    split at hdecode
    next hcond =>
      rw [Bool.and_eq_true, Bool.and_eq_true, Bool.and_eq_true] at hcond
      split at hdecode
      · cases hdecode
      next hne =>
        cases hdecode
        rw [List.mem_singleton] at hmem
        rw [hmem]
        exact .decode hcond.1.1.1 (Nat.pos_of_ne_zero hne)
    next =>
      cases hdecode
      cases hmem
  · unfold mixedDescs at hmem
    split at hmem
    next hcond =>
      rw [List.mem_singleton] at hmem
      rw [hmem]
      exact .mixed (of_decide_eq_true hcond)
    next => cases hmem

/-- Under every key stand shapes captured for it. -/
def AllCaptured (maxNumReqs : Nat) (mode : CUDAGraphMode) (decodeQueryLen : Nat)
    (byTokenCount : Dict Nat (List BatchExecutionDescriptor)) : Prop :=
  ∀ size, ∀ desc ∈ (byTokenCount.get? size).getD [], Captured maxNumReqs mode decodeQueryLen size desc

theorem AllCaptured.addDescs {maxNumReqs decodeQueryLen size : Nat} {mode : CUDAGraphMode}
    {byTokenCount : Dict Nat (List BatchExecutionDescriptor)} {descs : List BatchExecutionDescriptor}
    (h : AllCaptured maxNumReqs mode decodeQueryLen byTokenCount)
    (hdescs : ∀ desc ∈ descs, Captured maxNumReqs mode decodeQueryLen size desc) :
    AllCaptured maxNumReqs mode decodeQueryLen (addDescs byTokenCount size descs) := by
  unfold Runner.addDescs
  split
  · exact h
  · intro s desc hdesc
    rw [Dict.get?_set] at hdesc
    split at hdesc
    next heq =>
      rw [heq]
      rcases List.mem_append.mp hdesc with hold | hnew
      · exact h size desc hold
      · exact hdescs desc hnew
    next => exact h s desc hdesc

/-- The loop only assigns candidates of a size to numbers of tokens up to it. -/
theorem mem_fillCandidates {byTokenCount : Dict Nat (List BatchExecutionDescriptor)} :
    ∀ {sizes : List Nat} {start : Nat} {candidates : List (List BatchExecutionDescriptor)} {n : Nat}
      {desc : BatchExecutionDescriptor},
      (∀ i, ∀ d ∈ candidates.getD i [], ∃ size, i ≤ size ∧ d ∈ (byTokenCount.get? size).getD []) →
      desc ∈ (fillCandidates byTokenCount sizes start candidates).getD n [] →
      ∃ size, n ≤ size ∧ desc ∈ (byTokenCount.get? size).getD [] := by
  intro sizes
  induction sizes with
  | nil => intro start candidates n desc hall h; exact hall n desc h
  | cons cgSize sizes ih =>
    intro start candidates n desc hall h
    apply ih _ h
    have hrange : ∀ i ∈ List.range' start (cgSize + 1 - start), i ≤ cgSize := by
      intro i hi
      have hmem := List.mem_range'_1.mp hi
      omega
    revert hall hrange
    clear h
    generalize List.range' start (cgSize + 1 - start) = places
    induction places generalizing candidates with
    | nil => intro hall _; exact hall
    | cons i places ihp =>
      intro hall hrange
      apply ihp
      · intro j d hd
        dsimp only at hd
        by_cases hj : j = i
        · subst hj
          by_cases hlt : j < candidates.length
          · rw [List.getD_eq_getElem?_getD, List.getElem?_set_self hlt, Option.getD_some] at hd
            exact ⟨cgSize, hrange j List.mem_cons_self, hd⟩
          · rw [List.set_eq_of_length_le (Nat.not_lt.mp hlt)] at hd
            exact hall j d hd
        · rw [List.getD_eq_getElem?_getD, List.getElem?_set_ne (Ne.symm hj),
            ← List.getD_eq_getElem?_getD] at hd
          exact hall j d hd
      · intro j hj
        exact hrange j (List.mem_cons_of_mem i hj)

/-- The candidates of a number of tokens are shapes captured for sizes that are large enough. -/
theorem candidates_spec {maxNumReqs decodeQueryLen : Nat} {mode : CUDAGraphMode} {captureSizes : List Nat}
    {candidates : List (List BatchExecutionDescriptor)}
    (h : initCandidates maxNumReqs mode decodeQueryLen captureSizes = .ok candidates) {n : Nat}
    {desc : BatchExecutionDescriptor} (hdesc : desc ∈ candidates.getD n []) :
    ∃ size, n ≤ size ∧ Captured maxNumReqs mode decodeQueryLen size desc := by
  unfold initCandidates at h
  split at h
  · cases h
    cases hdesc
  · obtain ⟨byTokenCount, hdescs, rfl⟩ := Raises.map_eq_ok.mp h
    have hcaptured : AllCaptured maxNumReqs mode decodeQueryLen byTokenCount := by
      apply Raises.foldlM_inv _ _ _ _ _ hdescs
      · intro numTokens _ byTokenCount byTokenCount' hold hstep
        obtain ⟨descs, hdescs, rfl⟩ := Raises.map_eq_ok.mp hstep
        exact hold.addDescs fun desc hd => descsOf_captured hdescs hd
      · intro size desc hd
        cases hd
    unfold padCandidates at hdesc
    dsimp only at hdesc
    split at hdesc
    · cases hdesc
    · obtain ⟨size, hle, hmem⟩ := mem_fillCandidates (by
        intro i d hd
        rw [List.getD_eq_getElem?_getD, List.getElem?_replicate] at hd
        split at hd
        · cases hd
        · cases hd) hdesc
      exact ⟨size, hle, hcaptured size desc hmem⟩

end VllmEngine.Runner
