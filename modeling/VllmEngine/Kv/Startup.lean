import VllmEngine.Lib.Raises
import VllmEngine.Kv.Spec

/-!
# The start-up memory check

`get_kv_cache_configs` (`vllm/v1/core/kv_cache_utils.py`) from the KV cache
groups on: the groups are projected to each worker's layers, `max_model_len` is
fitted to the memory if it was given as `-1`, each worker's memory is checked
against the longest request, and the number of blocks is the smallest one of
all workers.

Mirroring notes:
- A group is its layer names and its spec. `UniformTypeKVCacheSpecs` and
  `num_gpu_blocks_override` are left out, and so are the tensors: of their
  resizing only the division by the old number of blocks is kept.
- The binary search takes the number of its rounds as a bound; it starts with
  the length of the interval, which every round shortens.
- The text of the memory error is kept up to its first figure.

> `startup_numBlocks`: the number of blocks is positive, and it is a bound
> exactly for what fits into every worker's `available_memory // page_size //
> group_size`.
-/

namespace VllmEngine

/-- `KVCacheGroupSpec`. -/
structure KVCacheGroupSpec where
  layerNames : List String
  spec : KVCacheSpec
deriving DecidableEq, Repr

/-- One worker: its layers and the memory it has for the KV cache. -/
structure Worker where
  layerNames : List String
  availableMemory : Int
deriving DecidableEq, Repr

/-- `_project_kv_cache_groups_to_worker`. -/
def projectKvCacheGroupsToWorker (groups : List KVCacheGroupSpec) (workerLayers : List String) :
    List KVCacheGroupSpec :=
  groups.map fun g => { g with layerNames := g.layerNames.filter fun n => decide (n ∈ workerLayers) }

/-- `get_uniform_page_size`. -/
def getUniformPageSize (specs : List KVCacheSpec) : Except Python.Error Nat := do
  let sizes ← specs.mapM (·.pageSizeBytes)
  match sizes with
  | size :: rest => if rest.all (· = size) then return size else throw (.assertion "")
  | [] => throw (.assertion "")

/-- `max(len(group.layer_names) for group in kv_cache_groups)`. -/
def groupSize (groups : List KVCacheGroupSpec) : Nat :=
  (groups.map (·.layerNames.length)).foldl max 0

/-- `cdiv(group.kv_cache_spec.max_memory_usage_bytes(vllm_config), page_size)`. -/
def blocksNeeded (lim : ModelLimits) (pageSize : Nat) (g : KVCacheGroupSpec) :
    Except Python.Error Int := do
  let bytes ← g.spec.maxMemoryUsageBytes lim
  if pageSize = 0 then throw (.zeroDivision "integer division or modulo by zero")
  return Python.cdiv bytes pageSize

/-- `_max_memory_usage_bytes_from_groups`. -/
def maxMemoryUsageBytesFromGroups (lim : ModelLimits) (groups : List KVCacheGroupSpec) :
    Except Python.Error Int :=
  if groups = [] then .ok 0
  else do
    let pageSize ← getUniformPageSize (groups.map (·.spec))
    let blocks ← groups.mapM (blocksNeeded lim pageSize)
    return (groupSize groups : Int) * pageSize * blocks.sum

/-- `fits`. -/
def fits (lim : ModelLimits) (groups : List KVCacheGroupSpec) (availableMemory : Int)
    (modelLen : Nat) : Except Python.Error Bool := do
  let needed ← maxMemoryUsageBytesFromGroups { lim with maxModelLen := modelLen } groups
  return decide (needed ≤ availableMemory)

/-- The binary search for the largest length that fits. -/
def searchLoop (fits : Nat → Except Python.Error Bool) :
    Nat → Nat → Nat → Nat → Except Python.Error Nat
  | 0, _, _, result => .ok result
  | bound + 1, left, right, result =>
    if left ≤ right then do
      let mid := (left + right) / 2
      if ← fits mid then searchLoop fits bound (mid + 1) right mid
      else searchLoop fits bound left (mid - 1) result
    else .ok result

/-- `_estimate_max_model_len_from_groups`. -/
def estimateMaxModelLenFromGroups (lim : ModelLimits) (groups : List KVCacheGroupSpec)
    (availableMemory : Int) : Except Python.Error Nat := do
  if ← fits lim groups availableMemory 1 then
    searchLoop (fits lim groups availableMemory) lim.maxModelLen 1 lim.maxModelLen 1
  else return 0

/-- One round of the loop in `_auto_fit_max_model_len`. -/
def autoFitRound (lim : ModelLimits) (autoFitMax : Nat) (entry : List KVCacheGroupSpec × Int) :
    Except Python.Error Nat :=
  if entry.1 = [] then .ok autoFitMax
  else do
    let workerMax ← estimateMaxModelLenFromGroups lim entry.1 entry.2
    return min autoFitMax workerMax

/-- `_auto_fit_max_model_len`: the new `max_model_len`. -/
def autoFitMaxModelLen (lim : ModelLimits) (entries : List (List KVCacheGroupSpec × Int)) :
    Except Python.Error Nat :=
  if entries.all fun e => decide (e.1 = []) then .ok lim.maxModelLen
  else do
    let autoFitMax ← entries.foldlM (autoFitRound lim) lim.maxModelLen
    if autoFitMax = 0 then
      throw (.value ("Cannot auto-fit max_model_len: not enough GPU memory available "
        ++ "to serve even a single token. Try increasing `gpu_memory_utilization`."))
    return autoFitMax

/-- `_check_enough_kv_cache_memory`. -/
def checkEnoughKvCacheMemory (lim : ModelLimits) (groups : List KVCacheGroupSpec)
    (availableMemory : Int) : Except Python.Error Unit := do
  if availableMemory ≤ 0 then throw (.value "No available memory for the cache blocks. ")
  let needed ← maxMemoryUsageBytesFromGroups lim groups
  if needed > availableMemory then
    throw (.value "To serve at least one request with the models's max seq len ")
  return ()

/-- The check of one worker. -/
def checkWorker (lim : ModelLimits) (entry : List KVCacheGroupSpec × Int) :
    Except Python.Error Unit :=
  if entry.1 = [] then .ok () else checkEnoughKvCacheMemory lim entry.1 entry.2

/-- `get_num_blocks`. -/
def getNumBlocks (numLayers : Nat) (availableMemory : Int) (pageSize : Nat) : Int :=
  max (Int.fdiv (Int.fdiv availableMemory pageSize) numLayers) 0

/-- The number of blocks of `get_kv_cache_config_from_groups`. -/
def numBlocksFromGroups (groups : List KVCacheGroupSpec) (availableMemory : Int) :
    Except Python.Error Int :=
  -- an attention-free model still needs the null block
  if groups = [] then .ok 1
  else do
    let pageSize ← getUniformPageSize (groups.map (·.spec))
    Python.require (decide (groupSize groups > 0)) "group_size must be greater than 0"
    if pageSize = 0 then throw (.zeroDivision "integer division or modulo by zero")
    return getNumBlocks (groupSize groups) availableMemory pageSize

/-- The config of one worker, before the common number of blocks is taken. -/
def workerNumBlocks (groups : List KVCacheGroupSpec) (w : Worker) : Except Python.Error Int := do
  let projected := projectKvCacheGroupsToWorker groups w.layerNames
  Python.require (decide ((projected.map (·.layerNames.length)).sum = w.layerNames.length))
    "Some layers are not assigned to any group."
  let numBlocks ← numBlocksFromGroups projected w.availableMemory
  -- the worker's tensors are resized by the quotient of the block numbers
  if numBlocks = 0 then throw (.zeroDivision "integer division or modulo by zero")
  return numBlocks

/-- The `max_model_len` of the engine; `autoFit` is `original_max_model_len == -1`. -/
def chosenMaxModelLen (lim : ModelLimits) (autoFit : Bool)
    (entries : List (List KVCacheGroupSpec × Int)) : Except Python.Error Nat :=
  if autoFit then autoFitMaxModelLen lim entries else .ok lim.maxModelLen

/-- `get_kv_cache_configs` from the groups on: the number of blocks and the
`max_model_len` of the engine. -/
def getKvCacheConfigs (lim : ModelLimits) (autoFit : Bool) (groups : List KVCacheGroupSpec)
    (workers : List Worker) : Except Python.Error (Int × Nat) := do
  let entries := workers.map fun w =>
    (projectKvCacheGroupsToWorker groups w.layerNames, w.availableMemory)
  let maxModelLen ← chosenMaxModelLen lim autoFit entries
  let _ ← entries.mapM (checkWorker { lim with maxModelLen := maxModelLen })
  let configs ← workers.mapM (workerNumBlocks groups)
  match configs with
  | [] => throw (.value "min() arg is an empty sequence")
  | n :: ns => return (ns.foldl min n, maxModelLen)

/-! ## The common number of blocks -/

theorem le_foldl_min (x : Int) : ∀ (ns : List Int) (n : Int),
    x ≤ ns.foldl min n ↔ x ≤ n ∧ ∀ n' ∈ ns, x ≤ n' := by
  intro ns
  induction ns with
  | nil => intro n; simp
  | cons m ns ih =>
    intro n
    rw [List.foldl_cons, ih]
    simp only [List.forall_mem_cons]
    constructor
    · rintro ⟨h1, h2⟩
      exact ⟨by omega, by omega, h2⟩
    · rintro ⟨h1, h2, h3⟩
      exact ⟨by omega, h3⟩

variable {groups : List KVCacheGroupSpec} {workers : List Worker}

theorem workerNumBlocks_pos {w : Worker} {n : Int} (h : workerNumBlocks groups w = .ok n) :
    1 ≤ n := by
  simp only [workerNumBlocks, Raises.bind_eq_ok] at h
  obtain ⟨-, -, m, hm, h⟩ := h
  split at h
  · cases h
  · obtain rfl := Raises.pure_eq_ok.mp h
    have hnonneg : 0 ≤ m := by
      unfold numBlocksFromGroups at hm
      split at hm
      · obtain rfl := Except.ok.inj hm
        decide
      · simp only [Raises.bind_eq_ok] at hm
        obtain ⟨page, -, -, -, hm⟩ := hm
        split at hm
        · cases hm
        · obtain rfl := Raises.pure_eq_ok.mp hm
          exact Int.le_max_right _ _
    omega

theorem le_all_numBlocks {configs : List Int}
    (hall : List.Forall₂ (fun w n => workerNumBlocks groups w = .ok n) workers configs) (x : Int) :
    (∀ n ∈ configs, x ≤ n) ↔
      ∀ w ∈ workers, ∀ n, workerNumBlocks groups w = .ok n → x ≤ n := by
  induction hall with
  | nil => simp
  | cons hw _ ih =>
    rw [List.forall_mem_cons, List.forall_mem_cons, ih]
    refine and_congr_left fun _ => ⟨fun hx n' hn' => ?_, fun hx => hx _ hw⟩
    obtain rfl := Except.ok.inj (hw.symm.trans hn')
    exact hx

/-- The blocks of the engine are positive in number and bound exactly what
every worker's own number bounds. -/
theorem startup_numBlocks {lim : ModelLimits} {autoFit : Bool} {numBlocks : Int} {maxModelLen : Nat}
    (h : getKvCacheConfigs lim autoFit groups workers = .ok (numBlocks, maxModelLen)) :
    1 ≤ numBlocks ∧ ∀ x, x ≤ numBlocks ↔
      ∀ w ∈ workers, ∀ n, workerNumBlocks groups w = .ok n → x ≤ n := by
  simp only [getKvCacheConfigs, Raises.bind_eq_ok] at h
  obtain ⟨M, -, -, -, configs, hcfg, hm⟩ := h
  cases configs with
  | nil => cases hm
  | cons n ns =>
    obtain ⟨rfl, -⟩ := Prod.mk.inj (Raises.pure_eq_ok.mp hm)
    have hbound : ∀ x, x ≤ ns.foldl min n ↔
        ∀ w ∈ workers, ∀ n, workerNumBlocks groups w = .ok n → x ≤ n := by
      intro x
      rw [le_foldl_min, ← le_all_numBlocks (Raises.mapM_ok hcfg), List.forall_mem_cons]
    exact ⟨(hbound 1).mpr fun w _ n' hn' => workerNumBlocks_pos hn', hbound⟩

theorem startup_workers {lim : ModelLimits} {autoFit : Bool} {res : Int × Nat}
    (h : getKvCacheConfigs lim autoFit groups workers = .ok res) {w : Worker} (hw : w ∈ workers) :
    ∃ n, workerNumBlocks groups w = .ok n := by
  simp only [getKvCacheConfigs, Raises.bind_eq_ok] at h
  obtain ⟨M, -, -, -, configs, hcfg, -⟩ := h
  have hall := Raises.mapM_ok hcfg
  clear hcfg
  induction hall with
  | nil => cases hw
  | cons hone _ ih =>
    rcases List.mem_cons.mp hw with rfl | hw
    · exact ⟨_, hone⟩
    · exact ih hw

/-- The worker's memory holds that many blocks of every layer. -/
def Worker.HoldsBlocks (groups : List KVCacheGroupSpec) (w : Worker) (blocks : Int) : Prop :=
  ∀ pageSize, getUniformPageSize (groups.map (·.spec)) = .ok pageSize →
    blocks * (groupSize (projectKvCacheGroupsToWorker groups w.layerNames) : Int) * pageSize
      ≤ w.availableMemory

/-- The worker's number of blocks is the largest that its memory holds. -/
theorem le_workerNumBlocks {w : Worker} {n x : Int} (hne : groups ≠ []) (hx : 0 < x)
    (h : workerNumBlocks groups w = .ok n) : x ≤ n ↔ w.HoldsBlocks groups x := by
  have hspecs : (projectKvCacheGroupsToWorker groups w.layerNames).map (·.spec)
      = groups.map (·.spec) := by
    rw [projectKvCacheGroupsToWorker, List.map_map]
    rfl
  simp only [workerNumBlocks, Raises.bind_eq_ok] at h
  obtain ⟨-, -, m, hm, h⟩ := h
  split at h
  · cases h
  · obtain rfl := Raises.pure_eq_ok.mp h
    rw [numBlocksFromGroups, if_neg (by simpa [projectKvCacheGroupsToWorker] using hne), hspecs] at hm
    simp only [Raises.bind_eq_ok] at hm
    obtain ⟨page, hpage, ⟨⟩, hsize, hm⟩ := hm
    split at hm
    · cases hm
    · rename_i hpage0
      obtain rfl := Raises.pure_eq_ok.mp hm
      have hgs : 0 < groupSize (projectKvCacheGroupsToWorker groups w.layerNames) := by
        unfold Python.require at hsize
        split at hsize
        · rename_i hgt
          exact of_decide_eq_true hgt
        · cases hsize
      have hpos : (0 : Int) < (groupSize (projectKvCacheGroupsToWorker groups w.layerNames) : Int) := by
        exact_mod_cast hgs
      have hpage1 : (0 : Int) < page := by omega
      have hiff : x ≤ getNumBlocks (groupSize (projectKvCacheGroupsToWorker groups w.layerNames))
          w.availableMemory page ↔
          x * (groupSize (projectKvCacheGroupsToWorker groups w.layerNames) : Int) * page
            ≤ w.availableMemory := by
        rw [getNumBlocks, Int.fdiv_eq_ediv_of_nonneg _ (Int.le_of_lt hpage1),
          Int.fdiv_eq_ediv_of_nonneg _ (Int.le_of_lt hpos), le_max_iff, or_iff_left (by omega),
          Int.le_ediv_iff_mul_le hpos, Int.le_ediv_iff_mul_le hpage1]
      rw [hiff]
      constructor
      · intro hle page' hpage'
        obtain rfl := Except.ok.inj (hpage.symm.trans hpage')
        exact hle
      · intro hall
        exact hall page hpage

end VllmEngine
