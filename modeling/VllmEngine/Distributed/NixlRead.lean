import VllmEngine.Lib.Segments
import VllmEngine.Lib.Python
import VllmEngine.Lib.Raises

/-!
# Reads of a remote prefill

`_read_blocks` (`kv_connector/v1/nixl/worker.py`) and what the scheduler side of the connector gives
it: a consumer reads the blocks of a prompt from the producer, which may have smaller blocks. The
blocks that the consumer has cached are not read.

Mirroring notes:
- There are no mamba groups, and the blocks of both sides are the blocks of their attention kernels.
- A descriptor is its number in the list that was registered: region by region the blocks, or the
  parts of the blocks, in the order of their addresses.
- A read is given by its descriptors; sending it and its failures are another matter.

> `readsPairPositions_iff`: which reads copy every token to its place.
-/

namespace VllmEngine.Distributed.Nixl

/-! ## The scheduler side -/

/-- What the scheduler side asks of a block of the request. -/
structure KvBlock where
  blockId : Nat
  hashed : Bool
  isNull : Bool
deriving DecidableEq, Repr

/-- `get_unhashed_block_ids_all_groups`. -/
def getUnhashedBlockIdsAllGroups (blocks : List (List KvBlock)) : List (List Nat) :=
  blocks.map fun group => (group.filter fun block => !block.hashed && !block.isNull).map (·.blockId)

/-- `get_num_new_matched_tokens`, of a request with `do_remote_prefill`. -/
def getNumNewMatchedTokens (numPromptTokens numComputedTokens : Nat) : Nat × Bool :=
  if numComputedTokens < numPromptTokens then (numPromptTokens - numComputedTokens, true) else (0,
    false)

/-- The block ids that `update_state_after_alloc` has the worker read into. -/
def localBlockIds (blocks : List (List KvBlock)) (numExternalTokens : Nat) : List (List Nat) :=
  if 0 < numExternalTokens then getUnhashedBlockIdsAllGroups blocks else []

/-! ## The worker side -/

/-- What a worker knows of its own cache and of the remote one. -/
structure XferConfig where
  blockSize : Nat
  remoteBlockSize : Nat
  numRegions : Nat
  numBlocks : Nat
  remoteNumBlocks : Nat
  numGroups : Nat
  isHmaRequired : Bool
deriving DecidableEq, Repr

/-- What `_read_blocks` asks of the transfer library. -/
inductive Read
  | notify
  | xfer (localDescs remoteDescs : List Nat)
deriving DecidableEq, Repr

def blockSizeRatio (c : XferConfig) : Except Python.Error Nat := do
  let rest ← if c.remoteBlockSize = 0 then .error (.zeroDivision "integer modulo by zero")
    else .ok (c.blockSize % c.remoteBlockSize)
  Python.require (rest == 0) (s!"Local block size {c.blockSize} is not divisible "
    ++ s!"by remote block size {c.remoteBlockSize} or vice versa.")
  return c.blockSize / c.remoteBlockSize

/-- `get_mapped_blocks`. -/
def getMappedBlocks (blockIds : List Nat) (ratio : Nat) : List Nat :=
  blockIds.flatMap fun block => (List.range ratio).map fun offset => block * ratio + offset

/-- `_get_block_descs_ids`. -/
def getBlockDescsIds (numRegions numBlocks : Nat) (blockIds : List (List Nat)) : List Nat :=
  (List.range numRegions).flatMap fun region => blockIds.flatten.map fun block => region *
    numBlocks + block

/-- The remote blocks of a group that are read: as many as there are local ones, from the end. -/
def trimRemote (remoteGroup localGroup : List Nat) : Except Python.Error (List Nat) := do
  Python.require (localGroup.length ≤ remoteGroup.length) ""
  return if localGroup.length < remoteGroup.length then
    Python.sliceFrom remoteGroup (-(localGroup.length : Int)) else remoteGroup

/-- The branch on `block_size_ratio > 1`: local blocks in parts of the size of the remote blocks. -/
def alignBlocks (c : XferConfig) (ratio : Nat) (localIds remoteIds : List (List Nat)) :
    Except Python.Error (List (List Nat) × List (List Nat)) :=
  if 1 < ratio then do
    Python.require (!c.isHmaRequired) ""
    let remoteIds0 ← Python.getItem remoteIds 0
    let mapped := getMappedBlocks (localIds.headD []) ratio
    let mapped := if remoteIds0.length < mapped.length then mapped.take remoteIds0.length else
      mapped
    return (if mapped.isEmpty then [] else [mapped], [remoteIds0])
  else .ok (localIds, remoteIds)

/-- The rest of `_read_blocks`. -/
def prepareRead (c : XferConfig) (ratio : Nat) (localIds remoteIds : List
    (List Nat)) : Except Python.Error Read := do
  if localIds.length = 0 then return .notify
  Python.require (remoteIds.length == localIds.length && localIds.length == c.numGroups) ""
  let remoteIds ← (remoteIds.zip localIds).mapM fun e => trimRemote e.1 e.2
  let remoteDescs := getBlockDescsIds c.numRegions c.remoteNumBlocks remoteIds
  let localDescs := getBlockDescsIds c.numRegions (c.numBlocks * ratio) localIds
  Python.require (localDescs.length == remoteDescs.length) ""
  return .xfer localDescs remoteDescs

def readBlocks (c : XferConfig) (localIds remoteIds : List
    (List Nat)) : Except Python.Error Read := do
  let ratio ← blockSizeRatio c
  let aligned ← alignBlocks c ratio localIds remoteIds
  prepareRead c ratio aligned.1 aligned.2

/-! ## What a read copies -/

/-- A remote block copied to a part of a local block. -/
structure Copy where
  localRegion : Nat
  localBlock : Nat
  part : Nat
  remoteRegion : Nat
  remoteBlock : Nat
deriving DecidableEq, Repr

/-- The addresses of a pair of descriptors. -/
def copyOf (c : XferConfig) (descs : Nat × Nat) : Copy :=
  let ratio := c.blockSize / c.remoteBlockSize
  { localRegion := descs.1 / (c.numBlocks * ratio)
    localBlock := descs.1 % (c.numBlocks * ratio) / ratio
    part := descs.1 % (c.numBlocks * ratio) % ratio
    remoteRegion := descs.2 / c.remoteNumBlocks
    remoteBlock := descs.2 % c.remoteNumBlocks }

def Read.copies (c : XferConfig) : Read → List Copy
  | .notify => []
  | .xfer localDescs remoteDescs => (localDescs.zip remoteDescs).map (copyOf c)

/-- The blocks of a request, of which the leading ones are cached. -/
def requestBlocks (blocks : List Nat) (cached : Nat) : List KvBlock :=
  (blocks.take cached).map (fun block => ⟨block, true, false⟩)
    ++ (blocks.drop cached).map fun block => ⟨block, false, false⟩

/-- The prompt is read: every remote block goes to the part of a local block that has the same
positions, and every position that is not cached is read. -/
def ReadsPairPositions (c : XferConfig) (blocks remote : List Nat)
    (cached promptLen : Nat) : Prop :=
  ∃ read, readBlocks c (localBlockIds [requestBlocks blocks cached]
      (getNumNewMatchedTokens promptLen (cached * c.blockSize)).1) [remote] = .ok read ∧
    (∀ copy ∈ read.copies c, copy.localRegion = copy.remoteRegion ∧ ∃ i k, cached ≤ i ∧
      blocks[i]? = some copy.localBlock ∧ remote[k]? = some copy.remoteBlock ∧
      i * c.blockSize + copy.part * c.remoteBlockSize = k * c.remoteBlockSize) ∧
    ∀ region < c.numRegions, ∀ pos, cached * c.blockSize ≤ pos → pos < promptLen →
      ∃ copy ∈ read.copies c, copy.localRegion = region ∧ copy.remoteRegion = region ∧
        blocks[pos / c.blockSize]? = some copy.localBlock ∧
          copy.part = pos % c.blockSize / c.remoteBlockSize ∧
        remote[pos / c.remoteBlockSize]? = some copy.remoteBlock

/-- A prompt in the caches of both sides. -/
structure Prompt (c : XferConfig) (ratio : Nat) (blocks remote : List Nat)
    (cached promptLen : Nat) : Prop where
  oneGroup : c.numGroups = 1
  noHma : c.isHmaRequired = false
  regions_pos : 0 < c.numRegions
  remoteBlockSize_pos : 0 < c.remoteBlockSize
  ratio_pos : 0 < ratio
  blockSize_eq : c.blockSize = ratio * c.remoteBlockSize
  length_blocks : blocks.length = (promptLen + c.blockSize - 1) / c.blockSize
  length_remote : remote.length = (promptLen + c.remoteBlockSize - 1) / c.remoteBlockSize
  blocks_lt : ∀ block ∈ blocks, block < c.numBlocks
  remote_lt : ∀ block ∈ remote, block < c.remoteNumBlocks
  remote_nodup : remote.Nodup
  cached_le : cached ≤ blocks.length

/-! ## Blocks and their parts -/

theorem unhashed_requestBlocks (blocks : List Nat) (cached : Nat) :
    getUnhashedBlockIdsAllGroups [requestBlocks blocks cached] = [blocks.drop cached] := by
  have hcached : ((blocks.take cached).map fun block => (⟨block, true, false⟩ : KvBlock)).filter
      (fun block => !block.hashed && !block.isNull) = [] := by
    rw [List.filter_eq_nil_iff]
    intro block hblock
    obtain ⟨id, -, rfl⟩ := List.mem_map.mp hblock
    exact Bool.false_ne_true
  have hrest : ((blocks.drop cached).map fun block => (⟨block, false, false⟩ : KvBlock)).filter
      (fun block => !block.hashed && !block.isNull)
      = (blocks.drop cached).map fun block => (⟨block, false, false⟩ : KvBlock) := by
    rw [List.filter_eq_self]
    intro block hblock
    obtain ⟨id, -, rfl⟩ := List.mem_map.mp hblock
    rfl
  unfold getUnhashedBlockIdsAllGroups requestBlocks
  rw [List.map_singleton, List.filter_append, hcached, hrest, List.nil_append, List.map_map]
  exact congrArg (fun l => [l]) (List.map_id _)

/-- The local blocks in parts, numbered through. -/
theorem getMappedBlocks_eq {ratio : Nat} (hratio : 0 < ratio) (l : List Nat) :
    getMappedBlocks l ratio
      = (List.range (l.length * ratio)).map fun j => l.getD (j / ratio) 0 * ratio + j % ratio := by
  unfold getMappedBlocks
  induction l with
  | nil =>
    rw [List.length_nil, Nat.zero_mul]
    rfl
  | cons block l ih =>
    rw [List.flatMap_cons, ih, List.length_cons, Nat.succ_mul, Nat.add_comm, List.range_add,
      List.map_append,
      List.map_map]
    congr 1
    · refine List.map_congr_left fun j hj => ?_
      have hj := List.mem_range.mp hj
      rw [Nat.div_eq_of_lt hj, Nat.mod_eq_of_lt hj]
      rfl
    · refine List.map_congr_left fun j _ => ?_
      show _ = (block :: l).getD ((ratio + j) / ratio) 0 * ratio + (ratio + j) % ratio
      rw [Nat.add_div_left j hratio, Nat.add_mod_left, List.getD_cons_succ]

theorem getMappedBlocks_one (l : List Nat) : getMappedBlocks l 1 = l := by
  unfold getMappedBlocks
  induction l with
  | nil => rfl
  | cons block l ih =>
    rw [List.flatMap_cons, ih]
    show (block * 1 + 0) :: l = _
    rw [Nat.mul_one, Nat.add_zero]

theorem length_getMappedBlocks (l : List Nat) (ratio : Nat) :
    (getMappedBlocks l ratio).length = l.length * ratio := by
  unfold getMappedBlocks
  rw [List.length_flatMap]
  simp

/-- The descriptors, read as addresses. -/
theorem copies_xfer (c : XferConfig) {ids remoteIds : List Nat}
    (hlen : ids.length = remoteIds.length)
    (hids : ∀ id ∈ ids, id < c.numBlocks * (c.blockSize / c.remoteBlockSize))
    (hremote : ∀ id ∈ remoteIds, id < c.remoteNumBlocks) :
    (Read.xfer (getBlockDescsIds c.numRegions (c.numBlocks *
      (c.blockSize / c.remoteBlockSize)) [ids])
      (getBlockDescsIds c.numRegions c.remoteNumBlocks [remoteIds])).copies c
    = (List.range c.numRegions).flatMap fun region => (ids.zip remoteIds).map fun e =>
        ⟨region, e.1 / (c.blockSize / c.remoteBlockSize), e.1 % (c.blockSize / c.remoteBlockSize),
          region, e.2⟩ := by
  unfold Read.copies getBlockDescsIds
  simp only [List.flatten_cons, List.flatten_nil, List.append_nil]
  rw [Numpy.zip_flatMap fun _ _ => by rw [List.length_map, List.length_map, hlen], List.map_flatMap]
  refine List.flatMap_congr fun region _ => ?_
  rw [List.zip_map, List.map_map]
  refine List.map_congr_left fun e he => ?_
  have hlocal := hids e.1 (List.of_mem_zip he).1
  have hrem := hremote e.2 (List.of_mem_zip he).2
  have hdiv : ∀ {n x : Nat}, x < n → (region * n + x) / n = region ∧ (region * n + x) % n = x := by
    intro n x hx
    rw [Nat.mul_comm, Nat.mul_add_div (Nat.zero_lt_of_lt hx), Nat.div_eq_of_lt hx, Nat.mul_add_mod,
      Nat.mod_eq_of_lt hx]
    exact ⟨rfl, rfl⟩
  show copyOf c (region * (c.numBlocks * (c.blockSize / c.remoteBlockSize)) + e.1,
    region * c.remoteNumBlocks + e.2) = _
  unfold copyOf
  simp only [hdiv hlocal, hdiv hrem]

/-! ## The blocks of a prompt -/

namespace Prompt

variable {c : XferConfig} {ratio : Nat} {blocks remote : List Nat} {cached promptLen : Nat}

theorem div_eq (h : Prompt c ratio blocks remote cached promptLen) : c.blockSize /
    c.remoteBlockSize = ratio := by
  rw [h.blockSize_eq, Nat.mul_div_cancel _ h.remoteBlockSize_pos]

theorem blockSize_pos (h : Prompt c ratio blocks remote cached promptLen) : 0 < c.blockSize := by
  rw [h.blockSize_eq]
  exact Nat.mul_pos h.ratio_pos h.remoteBlockSize_pos

theorem lt_length_blocks (h : Prompt c ratio blocks remote cached promptLen) (i : Nat) :
    i < blocks.length ↔ i * c.blockSize < promptLen := by
  have hpos := h.blockSize_pos
  rw [h.length_blocks, Nat.lt_div_iff_mul_lt hpos]
  omega

theorem lt_length_remote (h : Prompt c ratio blocks remote cached promptLen) (k : Nat) :
    k < remote.length ↔ k * c.remoteBlockSize < promptLen := by
  have hpos := h.remoteBlockSize_pos
  rw [h.length_remote, Nat.lt_div_iff_mul_lt hpos]
  omega

/-- The local blocks have room for the remote ones, and the last one for one at least. -/
theorem remote_bounds (h : Prompt c ratio blocks remote cached promptLen) :
    remote.length ≤ blocks.length * ratio ∧ (0 < blocks.length →
      (blocks.length - 1) * ratio < remote.length) := by
  constructor
  · by_contra hlt
    have hin := (h.lt_length_remote (blocks.length * ratio)).mp (Nat.lt_of_not_le hlt)
    rw [Nat.mul_assoc, ← h.blockSize_eq] at hin
    exact Nat.lt_irrefl _ ((h.lt_length_blocks blocks.length).mpr hin)
  · intro hpos
    have hin := (h.lt_length_blocks (blocks.length - 1)).mp (by omega)
    rw [h.blockSize_eq, ← Nat.mul_assoc] at hin
    exact (h.lt_length_remote _).mpr hin

/-- The parts that are read: as many as there are remote blocks, when nothing is cached. -/
theorem length_parts (blocks remote : List Nat) (ratio cached : Nat) :
    ((getMappedBlocks (blocks.drop cached) ratio).take remote.length).length
      = min remote.length (blocks.length * ratio - cached * ratio) := by
  rw [List.length_take, length_getMappedBlocks, List.length_drop, Nat.sub_mul]

theorem readBlocks_eq (h : Prompt c ratio blocks remote cached promptLen)
    (hcached : cached < blocks.length)
    {ids : List Nat} (hids : ids = (getMappedBlocks
      (blocks.drop cached) ratio).take remote.length) :
    readBlocks c [blocks.drop cached] [remote] = .ok (.xfer
      (getBlockDescsIds c.numRegions (c.numBlocks * (c.blockSize / c.remoteBlockSize)) [ids])
      (getBlockDescsIds c.numRegions c.remoteNumBlocks [remote.drop
        (remote.length - ids.length)])) := by
  obtain ⟨hroom, hlast⟩ := h.remote_bounds
  have hlen : ids.length = min remote.length (blocks.length * ratio - cached * ratio) := by
    rw [hids, length_parts]
  have hspan : (cached + 1) * ratio ≤ blocks.length * ratio := Nat.mul_le_mul_right _ hcached
  rw [Nat.succ_mul] at hspan
  have hratio_pos := h.ratio_pos
  have hremote_pos : 0 < remote.length := Nat.zero_lt_of_lt (hlast (by omega))
  have hpos : 0 < ids.length := by omega
  have hratio : blockSizeRatio c = .ok ratio := by
    have hmod : c.blockSize % c.remoteBlockSize = 0 := by
      rw [h.blockSize_eq]
      exact Nat.mul_mod_left _ _
    unfold blockSizeRatio
    rw [if_neg (Nat.ne_of_gt h.remoteBlockSize_pos), Raises.ok_bind, hmod, h.div_eq]
    rfl
  have htrim : trimRemote remote ids = .ok (remote.drop (remote.length - ids.length)) := by
    have hle : ids.length ≤ remote.length := by omega
    unfold trimRemote
    rw [Python.require, if_pos (decide_eq_true hle), Raises.ok_bind]
    by_cases hlt : ids.length < remote.length
    · rw [if_pos hlt, Python.sliceFrom_neg _ (Nat.ne_of_gt hpos)]
      rfl
    · have heq : remote.length - ids.length = 0 := by omega
      rw [if_neg hlt, heq]
      rfl
  have hdescs : Python.require ((getBlockDescsIds c.numRegions (c.numBlocks * ratio) [ids]).length
      == (getBlockDescsIds c.numRegions c.remoteNumBlocks [remote.drop
        (remote.length - ids.length)]).length) ""
      = .ok () := by
    have hsub : remote.length - (remote.length - ids.length) = ids.length := by omega
    rw [Python.require_eq_ok, beq_iff_eq]
    unfold getBlockDescsIds
    rw [List.length_flatMap, List.length_flatMap]
    simp only [List.flatten_cons, List.flatten_nil, List.append_nil, List.length_map,
      List.length_drop, hsub]
  have hprepare : prepareRead c ratio [ids] [remote] = .ok (.xfer
      (getBlockDescsIds c.numRegions (c.numBlocks * ratio) [ids])
      (getBlockDescsIds c.numRegions c.remoteNumBlocks [remote.drop
        (remote.length - ids.length)])) := by
    have hmap : ([remote].zip [ids]).mapM (fun e => trimRemote e.1 e.2)
        = .ok [remote.drop (remote.length - ids.length)] := by
      show [(remote, ids)].mapM (fun e => trimRemote e.1 e.2) = _
      rw [List.mapM_cons, htrim]
      rfl
    have hgroups : Python.require ([remote].length == [ids].length && [ids].length == c.numGroups)
      "" = .ok () := by
      rw [h.oneGroup]
      rfl
    unfold prepareRead
    rw [if_neg (fun hnil : [ids].length = 0 => Nat.succ_ne_zero 0 hnil), hgroups, Raises.ok_bind,
      hmap,
      Raises.ok_bind]
    dsimp only
    rw [hdescs, Raises.ok_bind]
    rfl
  have halign : alignBlocks c ratio [blocks.drop cached] [remote] = .ok ([ids], [remote]) := by
    unfold alignBlocks
    by_cases hone : 1 < ratio
    · have htake : (if remote.length < (getMappedBlocks (blocks.drop cached) ratio).length then
          (getMappedBlocks (blocks.drop cached) ratio).take remote.length
          else getMappedBlocks (blocks.drop cached) ratio) = ids := by
        rw [hids]
        by_cases hlong : remote.length < (getMappedBlocks (blocks.drop cached) ratio).length
        · rw [if_pos hlong]
        · rw [if_neg hlong, List.take_of_length_le (Nat.le_of_not_lt hlong)]
      have hne : ids.isEmpty = false := by
        cases ids with
        | nil => exact absurd hpos (Nat.lt_irrefl 0)
        | cons id ids => rfl
      rw [if_pos hone, h.noHma]
      show (fun mapped : List Nat => (Except.ok (if mapped.isEmpty = true then [] else [mapped],
        [remote])
        : Except Python.Error (List (List Nat) × List (List Nat))))
          (if remote.length < (getMappedBlocks (blocks.drop cached) ratio).length then
            (getMappedBlocks (blocks.drop cached) ratio).take remote.length
            else getMappedBlocks (blocks.drop cached) ratio) = _
      rw [htake]
      show Except.ok (if ids.isEmpty = true then [] else [ids], [remote]) = _
      rw [hne]
      rfl
    · have hratio1 : ratio = 1 := by omega
      have hshort : (blocks.drop cached).length ≤ remote.length := by
        rw [hratio1, Nat.mul_one] at hlast
        rw [List.length_drop]
        omega
      rw [if_neg hone, hids, hratio1, getMappedBlocks_one, List.take_of_length_le hshort]
  unfold readBlocks
  rw [hratio, Raises.ok_bind, halign, Raises.ok_bind, h.div_eq]
  exact hprepare

/-- The remote block that is read into the first part. -/
def firstRead (ratio : Nat) (blocks remote : List Nat) (cached : Nat) : Nat :=
  remote.length - min remote.length (blocks.length * ratio - cached * ratio)

/-- The copies: parts of the local blocks from the first one that is not cached, remote blocks up to
the last. -/
theorem copies_eq (h : Prompt c ratio blocks remote cached promptLen)
    (hcached : cached < blocks.length) :
    ∃ read, readBlocks c [blocks.drop cached] [remote] = .ok read ∧
      read.copies c = (List.range c.numRegions).flatMap fun region =>
        (List.range (remote.length - firstRead ratio blocks remote cached)).map fun j =>
          ⟨region, blocks.getD ((cached * ratio + j) / ratio) 0, (cached * ratio + j) % ratio,
            region,
            remote.getD (firstRead ratio blocks remote cached + j) 0⟩ := by
  obtain ⟨hroom, hlast⟩ := h.remote_bounds
  obtain ⟨ids, hids⟩ : ∃ ids, ids = (getMappedBlocks
    (blocks.drop cached) ratio).take remote.length := ⟨_, rfl⟩
  have hlen : ids.length = min remote.length (blocks.length * ratio - cached * ratio) := by
    rw [hids, length_parts]
  have hfirst : remote.length - ids.length = firstRead ratio blocks remote cached := by
    unfold firstRead
    rw [hlen]
  have hcount : ids.length = remote.length - firstRead ratio blocks remote cached := by
    unfold firstRead
    omega
  have hget : ids = (List.range ids.length).map fun j =>
      blocks.getD ((cached * ratio + j) / ratio) 0 * ratio + (cached * ratio + j) % ratio := by
    have hmap := getMappedBlocks_eq h.ratio_pos (blocks.drop cached)
    conv => lhs; rw [hids, hmap, ← List.map_take, List.take_range]
    have hmin : min remote.length ((blocks.drop cached).length * ratio) = ids.length := by
      rw [hlen, List.length_drop, Nat.sub_mul]
    rw [hmin]
    refine List.map_congr_left fun j _ => ?_
    have hdiv : (cached * ratio + j) / ratio = cached + j / ratio := by
      rw [Nat.mul_comm, Nat.mul_add_div h.ratio_pos]
    have hmod : (cached * ratio + j) % ratio = j % ratio := by
      rw [Nat.mul_comm, Nat.mul_add_mod]
    rw [hdiv, hmod, List.getD_eq_getElem?_getD, List.getElem?_drop, ← List.getD_eq_getElem?_getD]
  have hremote : remote.drop (remote.length - ids.length) = (List.range ids.length).map fun j =>
      remote.getD (firstRead ratio blocks remote cached + j) 0 := by
    rw [hfirst]
    apply List.ext_getElem
    · rw [List.length_drop, List.length_map, List.length_range, hcount]
    · intro j hj _
      rw [List.length_drop] at hj
      rw [List.getElem_drop, List.getElem_map, List.getElem_range,
        List.getD_eq_getElem _ _ (by omega)]
  have hrange : ∀ id ∈ ids, id < c.numBlocks * (c.blockSize / c.remoteBlockSize) := by
    intro id hid
    rw [hget] at hid
    obtain ⟨j, hj, rfl⟩ := List.mem_map.mp hid
    have hj := List.mem_range.mp hj
    have hin : (cached * ratio + j) / ratio < blocks.length := by
      apply Nat.div_lt_of_lt_mul
      rw [Nat.mul_comm ratio]
      omega
    have hblock := h.blocks_lt _ (List.getElem_mem hin)
    have hmod := Nat.mod_lt (cached * ratio + j) h.ratio_pos
    have hmul : (blocks[(cached * ratio + j) / ratio] + 1) * ratio ≤ c.numBlocks * ratio :=
      Nat.mul_le_mul_right _ hblock
    rw [Nat.succ_mul] at hmul
    rw [h.div_eq, List.getD_eq_getElem _ _ hin]
    omega
  refine ⟨_, h.readBlocks_eq hcached hids, ?_⟩
  rw [copies_xfer c (by rw [List.length_drop]; omega) hrange
    fun id hid => h.remote_lt id (List.mem_of_mem_drop hid), hremote, ← hcount, h.div_eq]
  refine List.flatMap_congr fun region _ => ?_
  conv => lhs; rw [hget]
  rw [List.length_map, List.length_range, List.zip_map', List.map_map]
  refine List.map_congr_left fun j _ => ?_
  have hmod := Nat.mod_lt (cached * ratio + j) h.ratio_pos
  show (⟨region, (_ * ratio + _) / ratio, (_ * ratio + _) % ratio, region, _⟩ : Copy) = _
  rw [Nat.mul_comm _ ratio, Nat.mul_add_div h.ratio_pos, Nat.div_eq_of_lt hmod, Nat.mul_add_mod,
    Nat.mod_mod,
    Nat.add_zero]

/-- With everything cached there is nothing to read. -/
theorem readBlocks_nil (h : Prompt c ratio blocks remote cached promptLen) : readBlocks c []
    [remote] = .ok .notify := by
  have hratio : blockSizeRatio c = .ok ratio := by
    have hmod : c.blockSize % c.remoteBlockSize = 0 := by
      rw [h.blockSize_eq]
      exact Nat.mul_mod_left _ _
    unfold blockSizeRatio
    rw [if_neg (Nat.ne_of_gt h.remoteBlockSize_pos), Raises.ok_bind, hmod, h.div_eq]
    rfl
  have halign : alignBlocks c ratio [] [remote] = .ok ([], [remote]) := by
    unfold alignBlocks
    by_cases hone : 1 < ratio
    · rw [if_pos hone, h.noHma]
      show Except.ok (if (if remote.length < 0 then
        ([] : List Nat).take remote.length else []).isEmpty = true then []
        else _, [remote]) = _
      rw [if_neg (Nat.not_lt_zero _)]
      rfl
    · rw [if_neg hone]
  unfold readBlocks
  rw [hratio, Raises.ok_bind, halign, Raises.ok_bind]
  rfl

/-- The first part goes with the remote block at its position. -/
theorem firstRead_eq_iff (h : Prompt c ratio blocks remote cached promptLen)
    (hcached : cached < blocks.length) :
    firstRead ratio blocks remote cached ≤ cached * ratio ∧
      (firstRead ratio blocks remote cached = cached * ratio ↔ cached
        = 0 ∨ ratio ∣ remote.length) := by
  obtain ⟨hroom, hlast⟩ := h.remote_bounds
  have hlast := hlast (by omega)
  have hstep : (blocks.length - 1) * ratio + ratio = blocks.length * ratio := by
    rw [← Nat.succ_mul]
    congr 1
    omega
  have hle : cached * ratio ≤ (blocks.length - 1) * ratio := Nat.mul_le_mul_right _ (by omega)
  unfold firstRead
  rcases Nat.eq_zero_or_pos cached with rfl | hpos
  · rw [Nat.zero_mul]
    omega
  · have hone : 1 * ratio ≤ cached * ratio := Nat.mul_le_mul_right _ hpos
    rw [Nat.one_mul] at hone
    refine ⟨by omega, ?_, ?_⟩
    · intro heq
      have hfull : remote.length = blocks.length * ratio := by omega
      exact Or.inr ⟨blocks.length, by rw [hfull, Nat.mul_comm]⟩
    · rintro (hzero | hdvd)
      · omega
      · obtain ⟨q, hq⟩ := hdvd
        rw [Nat.mul_comm] at hq
        have hfull : blocks.length = q := by
          rw [hq] at hroom hlast
          have hlow := Nat.lt_of_mul_lt_mul_right hlast
          have hup := Nat.le_of_mul_le_mul_right hroom h.ratio_pos
          omega
        rw [← hfull] at hq
        omega

theorem localBlockIds_eq (h : Prompt c ratio blocks remote cached promptLen) :
    localBlockIds [requestBlocks blocks cached] (getNumNewMatchedTokens promptLen
      (cached * c.blockSize)).1
      = if cached < blocks.length then [blocks.drop cached] else [] := by
  have hlt := h.lt_length_blocks cached
  unfold localBlockIds getNumNewMatchedTokens
  rw [unhashed_requestBlocks]
  by_cases hcached : cached < blocks.length
  · have hlt := hlt.mp hcached
    rw [if_pos hcached, if_pos hlt]
    exact if_pos (Nat.sub_pos_of_lt hlt)
  · rw [if_neg hcached, if_neg fun h => hcached (hlt.mpr h)]
    rfl

end Prompt

/-- A read copies every token to its place where nothing is cached, everything is, or the last local
block is full of remote blocks. -/
theorem readsPairPositions_iff {c : XferConfig} {ratio : Nat} {blocks remote : List Nat} {cached
    promptLen : Nat}
    (h : Prompt c ratio blocks remote cached promptLen) :
    ReadsPairPositions c blocks remote cached promptLen
      ↔ cached = 0 ∨ cached = blocks.length ∨ ratio ∣ remote.length := by
  unfold ReadsPairPositions
  rw [h.localBlockIds_eq]
  by_cases hcached : cached < blocks.length
  · obtain ⟨hfirst, hiff⟩ := h.firstRead_eq_iff hcached
    obtain ⟨read, hread, hcopies⟩ := h.copies_eq hcached
    obtain ⟨hroom, hlast⟩ := h.remote_bounds
    have hcachedLe : cached * ratio ≤ (blocks.length - 1) * ratio :=
      Nat.mul_le_mul_right _ (by omega)
    have hfirstLt : Prompt.firstRead ratio blocks remote cached < remote.length := by
      have := hlast (by omega)
      omega
    rw [if_pos hcached]
    have hmod_pos := h.ratio_pos
    have hmem : ∀ copy, copy ∈ read.copies c ↔ ∃ region < c.numRegions,
        ∃ j < remote.length - Prompt.firstRead ratio blocks remote cached,
          copy = ⟨region, blocks.getD ((cached * ratio + j) / ratio) 0,
            (cached * ratio + j) % ratio, region,
            remote.getD (Prompt.firstRead ratio blocks remote cached + j) 0⟩ := by
      intro copy
      rw [hcopies, List.mem_flatMap]
      constructor
      · rintro ⟨region, hregion, hcopy⟩
        obtain ⟨j, hj, rfl⟩ := List.mem_map.mp hcopy
        exact ⟨region, List.mem_range.mp hregion, j, List.mem_range.mp hj, rfl⟩
      · rintro ⟨region, hregion, j, hj, rfl⟩
        exact ⟨region, List.mem_range.mpr hregion, List.mem_map.mpr ⟨j, List.mem_range.mpr hj, rfl⟩⟩
    constructor
    · rintro ⟨read', hread', hpaired, -⟩
      obtain rfl : read = read' := Except.ok.inj (hread.symm.trans hread')
      obtain ⟨-, i, k, hi, -, hk, heq⟩ := hpaired _ ((hmem _).mpr ⟨0, h.regions_pos, 0,
        Nat.sub_pos_of_lt hfirstLt, rfl⟩)
      have hk : remote[k]? = some (remote.getD (Prompt.firstRead ratio blocks remote cached) 0) :=
        hk
      rw [List.getD_eq_getElem _ _ hfirstLt] at hk
      obtain ⟨hklt, hkeq⟩ := List.getElem?_eq_some_iff.mp hk
      have hindex : k = Prompt.firstRead ratio blocks remote cached :=
        (List.Nodup.getElem_inj_iff h.remote_nodup).mp hkeq
      have heq : i * c.blockSize + cached * ratio % ratio * c.remoteBlockSize
        = k * c.remoteBlockSize := heq
      rw [Nat.mul_mod_left, Nat.zero_mul, Nat.add_zero, h.blockSize_eq, ← Nat.mul_assoc] at heq
      have hstart : i * ratio = k := Nat.eq_of_mul_eq_mul_right h.remoteBlockSize_pos heq
      have hle : cached * ratio ≤ i * ratio := Nat.mul_le_mul_right _ hi
      rcases hiff.mp (by omega) with h0 | hdvd
      · exact Or.inl h0
      · exact Or.inr (Or.inr hdvd)
    · intro hcond
      have haligned : Prompt.firstRead ratio blocks remote cached = cached * ratio := by
        apply hiff.mpr
        rcases hcond with h0 | hlen | hdvd
        · exact Or.inl h0
        · omega
        · exact Or.inr hdvd
      rw [haligned] at hmem
      refine ⟨read, hread, ?_, ?_⟩
      · intro copy hcopy
        obtain ⟨region, -, j, hj, rfl⟩ := (hmem copy).mp hcopy
        have hblock : (cached * ratio + j) / ratio < blocks.length := by
          apply Nat.div_lt_of_lt_mul
          rw [Nat.mul_comm ratio]
          omega
        have hle : cached ≤ (cached * ratio + j) / ratio :=
          (Nat.le_div_iff_mul_le hmod_pos).mpr (Nat.le_add_right _ _)
        refine ⟨rfl, (cached * ratio + j) / ratio, cached * ratio + j, hle, ?_, ?_, ?_⟩
        · show _ = some (blocks.getD _ 0)
          rw [List.getD_eq_getElem _ _ hblock, List.getElem?_eq_getElem hblock]
        · show _ = some (remote.getD _ 0)
          rw [List.getD_eq_getElem _ _ (by omega), List.getElem?_eq_getElem (by omega)]
        · show (cached * ratio + j) / ratio * c.blockSize +
          (cached * ratio + j) % ratio * c.remoteBlockSize = _
          rw [h.blockSize_eq, ← Nat.mul_assoc, ← Nat.add_mul, Nat.div_add_mod']
      · intro region hregion pos hle hlt
        have hlow : cached * ratio ≤ pos / c.remoteBlockSize := by
          rw [Nat.le_div_iff_mul_le h.remoteBlockSize_pos, Nat.mul_assoc, ← h.blockSize_eq]
          exact hle
        have hhigh : pos / c.remoteBlockSize < remote.length :=
          (h.lt_length_remote _).mpr (Nat.lt_of_le_of_lt (Nat.div_mul_le_self _ _) hlt)
        have hnumber : cached * ratio + (pos / c.remoteBlockSize - cached * ratio)
          = pos / c.remoteBlockSize := by omega
        have hblock : pos / c.remoteBlockSize / ratio = pos / c.blockSize := by
          rw [Nat.div_div_eq_div_mul, Nat.mul_comm, ← h.blockSize_eq]
        have hblockLt : pos / c.blockSize < blocks.length :=
          (h.lt_length_blocks _).mpr (Nat.lt_of_le_of_lt (Nat.div_mul_le_self _ _) hlt)
        have hpart : pos / c.remoteBlockSize % ratio = pos % c.blockSize / c.remoteBlockSize := by
          rw [h.blockSize_eq, Nat.mod_mul_left_div_self]
        refine ⟨_, (hmem _).mpr ⟨region, hregion, pos / c.remoteBlockSize - cached * ratio,
          by omega, rfl⟩, rfl, rfl, ?_, ?_, ?_⟩
        · show _ = some (blocks.getD _ 0)
          rw [hnumber, hblock, List.getD_eq_getElem _ _ hblockLt, List.getElem?_eq_getElem hblockLt]
        · show (cached * ratio + (pos / c.remoteBlockSize - cached * ratio)) % ratio = _
          rw [hnumber, hpart]
        · show _ = some (remote.getD _ 0)
          rw [hnumber, List.getD_eq_getElem _ _ hhigh, List.getElem?_eq_getElem hhigh]
  · have hall : cached = blocks.length := by
      have := h.cached_le
      omega
    have hlt := h.lt_length_blocks cached
    rw [if_neg hcached]
    refine ⟨fun _ => Or.inr (Or.inl hall), fun _ => ⟨_, h.readBlocks_nil, ?_, ?_⟩⟩
    · intro copy hcopy
      cases hcopy
    · intro region _ pos hle hpos
      exact absurd (hlt.mpr (Nat.lt_of_le_of_lt hle hpos)) hcached

/-- One layer, local blocks of four tokens and remote blocks of two. -/
def halfBlocks : XferConfig := ⟨4, 2, 1, 10, 10, 1, false⟩

/-- A prompt of five tokens, of which the first four are cached: the tokens two and three are read
into the place of the fifth one. -/
theorem cached_partial_shifted : Prompt halfBlocks 2 [7, 8] [3, 4, 5] 1 5
    ∧ ¬ ReadsPairPositions halfBlocks [7, 8] [3, 4, 5] 1 5 := by
  refine ⟨⟨rfl, rfl, by decide, by decide, by decide, rfl, rfl, rfl, by decide, by decide,
    by decide, by decide⟩, ?_⟩
  rintro ⟨read, hread, hpaired, -⟩
  obtain rfl : Read.xfer [16, 17] [4, 5] = read := Except.ok.inj hread
  obtain ⟨-, i, k, hi, -, hk, heq⟩ := hpaired ⟨0, 8, 0, 0, 4⟩ (by decide)
  have heq : i * 4 + 0 * 2 = k * 2 := heq
  have hk : ([3, 4, 5] : List Nat)[k]? = some 4 := hk
  have hlarge : 2 ≤ k := by omega
  rcases Nat.lt_or_ge k 3 with hlt | hge
  · obtain rfl : k = 2 := by omega
    cases hk
  · rw [List.getElem?_eq_none hge] at hk
    cases hk

/-- With eight tokens the second block is full, and both halves get their own remote block. -/
theorem cached_full_paired : ReadsPairPositions halfBlocks [7, 8] [3, 4, 5, 6] 1 8 :=
  (@readsPairPositions_iff halfBlocks 2 _ _ _ _
    ⟨rfl, rfl, by decide, by decide, by decide, rfl, rfl, rfl, by decide, by decide, by decide,
      by decide⟩).mpr
    (Or.inr (Or.inr ⟨2, rfl⟩))

end VllmEngine.Distributed.Nixl
