import VllmEngine.Lib.Ragged
import VllmEngine.SpecDecode.DraftSteps

/-!
# The inputs of a drafter with extra slots

`set_inputs_first_pass` (`vllm/v1/spec_decode/eagle.py`) where the drafter needs extra input
slots, with `copy_and_expand_eagle_inputs_kernel`, `compute_new_slot_mapping` and
`extend_all_queries_by_N` (`vllm/v1/spec_decode/utils.py`).

Mirroring notes:
- What the callers promise stands in the fields of `EagleBatch`: queries are not empty and lie
  one behind the other, fewer tokens than the query has are rejected (none without
  `num_rejected_tokens_gpu`), the positions of a query are consecutive.
- A tensor on the device is a memory. The four tensors that the kernel stores to at `out_idx`
  are one memory of rows. The stores of a launch are performed in any order.
- Hidden states are followed by their indices, `out_hidden_state_mapping`.
-/

namespace VllmEngine.SpecDecode

open Stores

/-- `next_power_of_2`. -/
def nextPowerOf2 (n : Nat) : Nat :=
  if n = 0 then 1
  else
    let n := n - 1
    let n := n ||| (n >>> 1)
    let n := n ||| (n >>> 2)
    let n := n ||| (n >>> 4)
    let n := n ||| (n >>> 8)
    let n := n ||| (n >>> 16)
    let n := n ||| (n >>> 32)
    n + 1

/-- The arguments of `set_inputs_first_pass`, and what it reads of the proposer. -/
structure EagleBatch where
  batchSize : Nat
  queryStartLoc : Nat → Nat
  maxQueryLen : Nat
  numRejectedTokens : Nat → Nat
  targetTokenIds : Nat → Int
  targetPositions : Nat → Nat
  nextTokenIds : Nat → Int
  extraSlotsPerRequest : Nat
  /-- `pass_hidden_states_to_model`. -/
  shiftInputIds : Bool
  parallelDraftingTokenId : Int
  blockSize : Nat
  maxModelLen : Nat
  nBlocksPerReq : Nat
  blockTable : Nat → Nat
  queryStartLoc_zero : queryStartLoc 0 = 0
  queryStartLoc_lt : ∀ r < batchSize, queryStartLoc r < queryStartLoc (r + 1)
  len_le : ∀ r < batchSize, queryStartLoc (r + 1) - queryStartLoc r ≤ maxQueryLen
  numRejectedTokens_lt : ∀ r < batchSize,
    numRejectedTokens r < queryStartLoc (r + 1) - queryStartLoc r
  targetPositions_add : ∀ r < batchSize, ∀ j < queryStartLoc (r + 1) - queryStartLoc r,
    targetPositions (queryStartLoc r + j) = targetPositions (queryStartLoc r) + j
  extraSlots_pos : 1 ≤ extraSlotsPerRequest

/-- What the kernel stores at `out_idx`. -/
structure EagleRow where
  inputId : Int
  position : Nat
  isRejectedToken : Bool
  isMaskedToken : Bool
deriving DecidableEq

namespace EagleBatch

variable (e : EagleBatch)

/-- `naive_query_lens()`. -/
def queryLen (r : Nat) : Nat := e.queryStartLoc (r + 1) - e.queryStartLoc r

/-- `net_num_new_slots_per_request`. -/
def netNumNewSlots : Nat := e.extraSlotsPerRequest - if e.shiftInputIds then 1 else 0

def totalNumInputTokens : Nat := e.queryStartLoc e.batchSize

def totalNumOutputTokens : Nat := e.totalNumInputTokens + e.netNumNewSlots * e.batchSize

/-! ## The kernel -/

/-- `query_end_loc`. -/
def queryEndLoc (r : Nat) : Nat := e.queryStartLoc (r + 1) - 1 - e.numRejectedTokens r

def numValidTokens (r : Nat) : Nat :=
  if e.shiftInputIds then e.queryEndLoc r - e.queryStartLoc r
  else e.queryEndLoc r - e.queryStartLoc r + 1

def inputOffset : Nat := if e.shiftInputIds then 1 else 0

def outputStart (r : Nat) : Nat :=
  if e.shiftInputIds then e.queryStartLoc r + r * (e.extraSlotsPerRequest - 1)
  else e.queryStartLoc r + r * e.extraSlotsPerRequest

def numRejected (r : Nat) : Nat := e.queryStartLoc (r + 1) - e.queryEndLoc r - 1

def totalOutputTokens (r : Nat) : Nat :=
  e.numValidTokens r + e.extraSlotsPerRequest + e.numRejected r

/-- `is_rejected_region`. -/
def isRejectedRegion (r j : Nat) : Bool :=
  decide (e.numValidTokens r + e.extraSlotsPerRequest ≤ j)

/-- `is_parallel_draft_region`. -/
def isParallelDraftRegion (r j : Nat) : Bool :=
  decide (e.numValidTokens r < j ∧ j < e.numValidTokens r + e.extraSlotsPerRequest)

/-- `token_ids` of a lane. -/
def tokenId (r j : Nat) : Int :=
  let inIdx := e.queryStartLoc r + e.inputOffset + j
  let inIdxClamped := min inIdx (e.totalNumInputTokens - 1)
  let tokenIds :=
    if j < e.numValidTokens r ∧ j < e.totalOutputTokens r then e.targetTokenIds inIdxClamped else 0
  let tokenIds := if j = e.numValidTokens r then e.nextTokenIds r else tokenIds
  let tokenIds := if e.isParallelDraftRegion r j then e.parallelDraftingTokenId else tokenIds
  if e.isRejectedRegion r j then 0 else tokenIds

/-- The row of a lane. -/
def row (r j : Nat) : EagleRow where
  inputId := e.tokenId r j
  position :=
    if e.isRejectedRegion r j then 0 else e.targetPositions (e.queryStartLoc r) + j
  isRejectedToken := e.isRejectedRegion r j && decide (j < e.totalOutputTokens r)
  isMaskedToken := e.isParallelDraftRegion r j && decide (j < e.totalOutputTokens r)

def maxNumTokensPerRequest : Nat := e.maxQueryLen + e.netNumNewSlots

/-- `BLOCK_SIZE_TOKENS`. -/
def blockSizeTokens : Nat := min 256 (nextPowerOf2 e.maxNumTokensPerRequest)

def numBlocks : Nat := (e.maxNumTokensPerRequest + e.blockSizeTokens - 1) / e.blockSizeTokens

/-- The lanes of the programs of a request, those that a mask leaves. -/
def lanes (mask : Nat → Bool) : List Nat :=
  (List.range e.numBlocks).flatMap fun tokenBatchIdx =>
    (List.range' (tokenBatchIdx * e.blockSizeTokens) e.blockSizeTokens).filter mask

/-- The stores of the programs of a request to the tensors of rows. -/
def rowStores (r : Nat) : List (Store EagleRow) :=
  (e.lanes fun j => decide (j < e.totalOutputTokens r)).map fun j =>
    ⟨e.outputStart r + j, e.row r j⟩

/-- To `out_new_token_indices`. -/
def newTokenStores (r : Nat) : List (Store Nat) :=
  (e.lanes fun j => decide ((e.numValidTokens r ≤ j ∧
      j < e.numValidTokens r + e.extraSlotsPerRequest) ∧ j < e.totalOutputTokens r)).map fun j =>
    ⟨r * e.extraSlotsPerRequest + (j - e.numValidTokens r), e.outputStart r + j⟩

/-- To `out_hidden_state_mapping`. -/
def hiddenStateStores (r : Nat) : List (Store Nat) :=
  if e.shiftInputIds then
    (e.lanes fun j => decide (j < e.queryStartLoc (r + 1) - e.queryStartLoc r)).map fun j =>
      ⟨e.queryStartLoc r + j, e.outputStart r + j⟩
  else []

/-- The stores of the launch. -/
def launchStores {α : Type} (stores : Nat → List (Store α)) : List (Store α) :=
  (List.range e.batchSize).flatMap stores

/-! ## The slot mapping and the metadata -/

/-- `req_indices`. -/
def reqIndices : List Nat :=
  Numpy.repeatEach (List.range e.batchSize)
    ((List.range e.batchSize).map fun r => e.queryLen r + e.netNumNewSlots)

/-- `compute_new_slot_mapping`, one row. -/
def newSlotMapping (rows : Nat → EagleRow) (k : Nat) : Int :=
  let newPosition := (rows k).position
  let reqIdx := e.reqIndices.getD k 0
  let clampedPosition := min newPosition (e.maxModelLen - 1)
  let blockTableIndex := cell e.nBlocksPerReq reqIdx (clampedPosition / e.blockSize)
  let blockNum := e.blockTable blockTableIndex
  let blockOffset := clampedPosition % e.blockSize
  let newSlot := ((blockNum * e.blockSize + blockOffset : Nat) : Int)
  let newSlot := if e.maxModelLen ≤ newPosition then paddingSlotId else newSlot
  if (rows k).isRejectedToken then paddingSlotId else newSlot

/-- `new_query_start_loc`. -/
def newQueryStartLoc (r : Nat) : Nat := e.queryStartLoc r + e.netNumNewSlots * r

/-- What `set_inputs_first_pass` leaves. -/
structure FirstPass where
  rows : Nat → EagleRow
  tokenIndicesToSample : Nat → Nat
  hiddenStateMapping : Nat → Nat
  slotMapping : Nat → Int
  queryStartLoc : Nat → Nat
  numTokens : Nat

/-- The tensors before the launch, and the orders of its stores. -/
structure Device where
  rows : Nat → EagleRow
  tokenIndicesToSample : Nat → Nat
  hiddenStateMapping : Nat → Nat
  rowOrder : Order EagleRow
  indexOrder : Order Nat
  mappingOrder : Order Nat

/-- `set_inputs_first_pass` with extra slots. -/
def setInputsFirstPass (d : Device) : FirstPass :=
  let rows := perform d.rowOrder d.rows (e.launchStores e.rowStores)
  { rows := rows
    tokenIndicesToSample :=
      perform d.indexOrder d.tokenIndicesToSample (e.launchStores e.newTokenStores)
    hiddenStateMapping :=
      perform d.mappingOrder d.hiddenStateMapping (e.launchStores e.hiddenStateStores)
    slotMapping := e.newSlotMapping rows
    queryStartLoc := e.newQueryStartLoc
    numTokens := e.totalNumOutputTokens }

end EagleBatch
end VllmEngine.SpecDecode

/-!
## The layout of the expanded inputs

The kernel, the new slot mapping and the new metadata each compute where a request's rows
start. The three agree (`outputStart_eq`, `reqIndices_getD`), so that the rows of the requests
lie one behind the other and nothing is stored twice.

> `laid_out`: the rows of every request, the indices to sample from, the slots and the hidden
> states are where they shall be.
-/

namespace VllmEngine.SpecDecode

open Stores

namespace EagleBatch

variable (e : EagleBatch) {r j : Nat}

/-! ## Lengths -/

theorem queryStartLoc_succ (hr : r < e.batchSize) :
    e.queryStartLoc (r + 1) = e.queryStartLoc r + e.queryLen r := by
  have := e.queryStartLoc_lt r hr
  unfold queryLen
  omega

/-- The tokens kept, without the first one when the ids are shifted. -/
theorem numValidTokens_eq (hr : r < e.batchSize) :
    e.numValidTokens r = e.queryLen r - e.numRejectedTokens r - if e.shiftInputIds then 1 else 0 := by
  have hstart := e.queryStartLoc_succ hr
  have hrej : e.numRejectedTokens r < e.queryLen r := e.numRejectedTokens_lt r hr
  unfold numValidTokens queryEndLoc
  cases e.shiftInputIds <;> simp only [Bool.false_eq_true, if_true, if_false] <;> omega

theorem numRejected_eq (hr : r < e.batchSize) : e.numRejected r = e.numRejectedTokens r := by
  have hstart := e.queryStartLoc_succ hr
  have hrej : e.numRejectedTokens r < e.queryLen r := e.numRejectedTokens_lt r hr
  unfold numRejected queryEndLoc
  omega

theorem totalOutputTokens_eq (hr : r < e.batchSize) :
    e.totalOutputTokens r = e.queryLen r + e.netNumNewSlots := by
  have hrej : e.numRejectedTokens r < e.queryLen r := e.numRejectedTokens_lt r hr
  have hpos := e.extraSlots_pos
  unfold totalOutputTokens netNumNewSlots
  rw [e.numValidTokens_eq hr, e.numRejected_eq hr]
  cases e.shiftInputIds <;> simp only [Bool.false_eq_true, if_true, if_false] <;> omega

/-! ## Starts -/

/-- The kernel and the new metadata agree. -/
theorem outputStart_eq (r : Nat) : e.outputStart r = e.newQueryStartLoc r := by
  unfold outputStart newQueryStartLoc netNumNewSlots
  cases e.shiftInputIds <;>
    simp only [Bool.false_eq_true, if_true, if_false, Nat.sub_zero, Nat.mul_comm]

theorem newQueryStartLoc_succ (hr : r < e.batchSize) :
    e.newQueryStartLoc (r + 1) = e.newQueryStartLoc r + e.totalOutputTokens r := by
  rw [e.totalOutputTokens_eq hr]
  unfold newQueryStartLoc
  rw [e.queryStartLoc_succ hr, Nat.mul_succ]
  omega

theorem outputStart_succ (hr : r < e.batchSize) :
    e.outputStart r + e.totalOutputTokens r ≤ e.outputStart (r + 1) := by
  rw [outputStart_eq, outputStart_eq]
  exact Nat.le_of_eq (e.newQueryStartLoc_succ hr).symm

/-! ## Lanes -/

theorem le_nextPowerOf2 (n : Nat) : 1 ≤ nextPowerOf2 n := by
  unfold nextPowerOf2
  split
  · exact Nat.le_refl 1
  · exact Nat.le_add_left 1 _

theorem blockSizeTokens_pos : 0 < e.blockSizeTokens := by
  have := le_nextPowerOf2 e.maxNumTokensPerRequest
  unfold blockSizeTokens
  omega

/-- The programs of a request have a lane for each of its tokens. -/
theorem mem_lanes {mask : Nat → Bool} (hmask : mask j = true → j < e.maxNumTokensPerRequest) :
    j ∈ e.lanes mask ↔ mask j = true := by
  have hpos := e.blockSizeTokens_pos
  unfold lanes
  rw [List.mem_flatMap]
  constructor
  · rintro ⟨t, -, hj⟩
    exact (List.mem_filter.mp hj).2
  · intro hj
    have hlt := hmask hj
    have hmod := Nat.mod_lt j hpos
    have hdiv := Nat.div_add_mod j e.blockSizeTokens
    refine ⟨j / e.blockSizeTokens, ?_, ?_⟩
    · -- the number of blocks is rounded up
      rw [List.mem_range]
      unfold numBlocks
      apply (Nat.lt_div_iff_mul_lt hpos).mpr
      rw [Nat.mul_comm]
      omega
    · rw [List.mem_filter, List.mem_range'_1]
      rw [Nat.mul_comm] at hdiv
      exact ⟨by omega, hj⟩

theorem lt_maxNumTokens (hr : r < e.batchSize) (hj : j < e.totalOutputTokens r) :
    j < e.maxNumTokensPerRequest := by
  have hlen : e.queryLen r ≤ e.maxQueryLen := e.len_le r hr
  rw [e.totalOutputTokens_eq hr] at hj
  unfold maxNumTokensPerRequest
  omega

theorem mem_rowStores (hr : r < e.batchSize) {s : Store EagleRow} :
    s ∈ e.rowStores r ↔ ∃ j < e.totalOutputTokens r, s = ⟨e.outputStart r + j, e.row r j⟩ := by
  unfold rowStores
  rw [List.mem_map]
  constructor
  · rintro ⟨j, hj, rfl⟩
    rw [e.mem_lanes fun h => e.lt_maxNumTokens hr (of_decide_eq_true h)] at hj
    exact ⟨j, of_decide_eq_true hj, rfl⟩
  · rintro ⟨j, hj, rfl⟩
    refine ⟨j, ?_, rfl⟩
    rw [e.mem_lanes fun h => e.lt_maxNumTokens hr (of_decide_eq_true h)]
    exact decide_eq_true hj

theorem mem_newTokenStores (hr : r < e.batchSize) {s : Store Nat} :
    s ∈ e.newTokenStores r ↔ ∃ k < e.extraSlotsPerRequest,
      s = ⟨r * e.extraSlotsPerRequest + k, e.outputStart r + (e.numValidTokens r + k)⟩ := by
  unfold newTokenStores
  rw [List.mem_map]
  constructor
  · rintro ⟨j, hj, rfl⟩
    rw [e.mem_lanes fun h => e.lt_maxNumTokens hr (of_decide_eq_true h).2] at hj
    obtain ⟨⟨hle, hlt⟩, -⟩ := of_decide_eq_true hj
    refine ⟨j - e.numValidTokens r, by omega, ?_⟩
    rw [Nat.add_sub_cancel' hle]
  · rintro ⟨k, hk, rfl⟩
    refine ⟨e.numValidTokens r + k, ?_, ?_⟩
    · rw [e.mem_lanes fun h => e.lt_maxNumTokens hr (of_decide_eq_true h).2]
      apply decide_eq_true
      unfold totalOutputTokens
      exact ⟨⟨by omega, by omega⟩, by omega⟩
    · rw [Nat.add_sub_cancel_left]

theorem mem_hiddenStateStores (hr : r < e.batchSize) (hshift : e.shiftInputIds = true)
    {s : Store Nat} : s ∈ e.hiddenStateStores r ↔
      ∃ j < e.queryLen r, s = ⟨e.queryStartLoc r + j, e.outputStart r + j⟩ := by
  have hlt : ∀ {j : Nat}, j < e.queryLen r → j < e.maxNumTokensPerRequest := by
    intro j hj
    apply e.lt_maxNumTokens hr
    rw [e.totalOutputTokens_eq hr]
    omega
  unfold hiddenStateStores
  rw [if_pos hshift, List.mem_map]
  constructor
  · rintro ⟨j, hj, rfl⟩
    rw [e.mem_lanes fun h => hlt (of_decide_eq_true h)] at hj
    exact ⟨j, of_decide_eq_true hj, rfl⟩
  · rintro ⟨j, hj, rfl⟩
    refine ⟨j, ?_, rfl⟩
    rw [e.mem_lanes fun h => hlt (of_decide_eq_true h)]
    exact decide_eq_true hj

/-! ## What the launch leaves -/

/-- Stores of the requests to segments one behind the other. -/
theorem perform_launch {α : Type} (order : Order α) (mem : Nat → α)
    {stores : Nat → List (Store α)} {start len : Nat → Nat} {value : Nat → Nat → α}
    (hmem : ∀ r < e.batchSize, ∀ s, s ∈ stores r ↔
      ∃ j < len r, s = ⟨start r + j, value r j⟩)
    (hstart : ∀ r < e.batchSize, start r + len r ≤ start (r + 1)) (hr : r < e.batchSize)
    (hj : j < len r) : perform order mem (e.launchStores stores) (start r + j) = value r j := by
  apply perform_of_agree
  · refine ⟨⟨start r + j, value r j⟩, ?_, rfl⟩
    exact List.mem_flatMap.mpr ⟨r, List.mem_range.mpr hr, (hmem r hr _).mpr ⟨j, hj, rfl⟩⟩
  · intro s hs haddress
    obtain ⟨r', hr', hs⟩ := List.mem_flatMap.mp hs
    rw [List.mem_range] at hr'
    obtain ⟨j', hj', rfl⟩ := (hmem r' hr' s).mp hs
    obtain ⟨rfl, rfl⟩ := segment_inj hstart hr' hr hj' hj haddress
    rfl

variable (d : Device)

theorem rows_eq (hr : r < e.batchSize) (hj : j < e.totalOutputTokens r) :
    (e.setInputsFirstPass d).rows (e.newQueryStartLoc r + j) = e.row r j := by
  rw [← outputStart_eq]
  exact e.perform_launch d.rowOrder d.rows (fun r hr s => e.mem_rowStores hr)
    (fun r hr => e.outputStart_succ hr) hr hj

theorem tokenIndicesToSample_eq (hr : r < e.batchSize) {k : Nat}
    (hk : k < e.extraSlotsPerRequest) :
    (e.setInputsFirstPass d).tokenIndicesToSample (r * e.extraSlotsPerRequest + k) =
      e.newQueryStartLoc r + (e.numValidTokens r + k) := by
  rw [← outputStart_eq]
  have hcells : ∀ r < e.batchSize, r * e.extraSlotsPerRequest + e.extraSlotsPerRequest ≤
      (r + 1) * e.extraSlotsPerRequest :=
    fun r _ => Nat.le_of_eq (Nat.succ_mul r e.extraSlotsPerRequest).symm
  exact e.perform_launch d.indexOrder d.tokenIndicesToSample
    (fun r hr s => e.mem_newTokenStores hr) hcells hr hk

theorem hiddenStateMapping_eq (hr : r < e.batchSize) (hshift : e.shiftInputIds = true)
    (hj : j < e.queryLen r) :
    (e.setInputsFirstPass d).hiddenStateMapping (e.queryStartLoc r + j) =
      e.newQueryStartLoc r + j := by
  rw [← outputStart_eq]
  exact e.perform_launch d.mappingOrder d.hiddenStateMapping
    (fun r hr s => e.mem_hiddenStateStores hr hshift)
    (fun r hr => Nat.le_of_eq (e.queryStartLoc_succ hr).symm) hr hj

/-! ## The request of a row -/

theorem sum_lens : ∀ {r : Nat}, r ≤ e.batchSize →
    ((List.range r).map fun r => e.queryLen r + e.netNumNewSlots).sum = e.newQueryStartLoc r
  | 0, _ => by
    unfold newQueryStartLoc
    rw [e.queryStartLoc_zero]
    rfl
  | r + 1, hr => by
    rw [List.range_succ, List.map_append, List.sum_append, sum_lens (Nat.le_of_lt hr),
      e.newQueryStartLoc_succ hr, e.totalOutputTokens_eq hr]
    rfl

/-- The slot mapping agrees with the kernel on whose row it is. -/
theorem reqIndices_getD (hr : r < e.batchSize) (hj : j < e.totalOutputTokens r) :
    e.reqIndices.getD (e.newQueryStartLoc r + j) 0 = r := by
  have hsplit : List.range e.batchSize =
      List.range r ++ r :: (List.range' (r + 1) (e.batchSize - (r + 1))) := by
    have happend := @List.range'_append_1 0 r (e.batchSize - r)
    rw [Nat.zero_add, Nat.add_sub_cancel' (Nat.le_of_lt hr)] at happend
    rw [List.range_eq_range', List.range_eq_range', ← happend,
      show e.batchSize - r = e.batchSize - (r + 1) + 1 by omega, List.range'_succ]
  have hat : (List.range e.batchSize)[((List.range r).map fun r =>
      e.queryLen r + e.netNumNewSlots).length]? = some r := by
    rw [List.length_map, List.length_range]
    exact List.getElem?_range hr
  rw [e.totalOutputTokens_eq hr] at hj
  have hget := Numpy.getElem?_repeatEach ((List.range r).map fun r =>
    e.queryLen r + e.netNumNewSlots) ((List.range' (r + 1) (e.batchSize - (r + 1))).map fun r =>
    e.queryLen r + e.netNumNewSlots) hat hj
  unfold reqIndices
  rw [← e.sum_lens (Nat.le_of_lt hr), List.getD_eq_getElem?_getD]
  rw [hsplit, List.map_append, List.map_cons]
  rw [hsplit] at hget
  rw [hget]
  rfl

/-! ## The regions of a request -/

/-- The tokens of a request that are kept, without the first one when the ids are shifted. -/
def numKept (r : Nat) : Nat := e.queryLen r - e.numRejectedTokens r - e.inputOffset

theorem numValidTokens_eq_numKept (hr : r < e.batchSize) : e.numValidTokens r = e.numKept r :=
  e.numValidTokens_eq hr

theorem totalOutputTokens_eq_numKept (hr : r < e.batchSize) :
    e.totalOutputTokens r = e.numKept r + e.extraSlotsPerRequest + e.numRejectedTokens r := by
  unfold totalOutputTokens
  rw [e.numValidTokens_eq_numKept hr, e.numRejected_eq hr]

theorem queryStartLoc_le (hr : r < e.batchSize) :
    e.queryStartLoc r + e.queryLen r ≤ e.totalNumInputTokens :=
  segment_le (fun _ hr => Nat.le_of_eq (e.queryStartLoc_succ hr).symm) hr (Nat.le_refl _)

/-- The clamp of the kernel's loads changes nothing for a kept token. -/
theorem row_kept (hr : r < e.batchSize) (hj : j < e.numKept r) :
    e.row r j = ⟨e.targetTokenIds (e.queryStartLoc r + e.inputOffset + j),
      e.targetPositions (e.queryStartLoc r) + j, false, false⟩ := by
  have hend := e.queryStartLoc_le hr
  have htotal := e.totalOutputTokens_eq_numKept hr
  have hvalid := e.numValidTokens_eq_numKept hr
  have hrejected : e.isRejectedRegion r j = false := by
    apply decide_eq_false
    omega
  have hdraft : e.isParallelDraftRegion r j = false := by
    apply decide_eq_false
    omega
  have hclamp : min (e.queryStartLoc r + e.inputOffset + j) (e.totalNumInputTokens - 1) =
      e.queryStartLoc r + e.inputOffset + j := by
    have hj' := hj
    unfold numKept at hj'
    omega
  unfold row tokenId
  simp only [hrejected, hdraft, hclamp, Bool.false_eq_true, if_false, Bool.false_and]
  rw [if_neg (by omega : ¬ j = e.numValidTokens r), if_pos ⟨by omega, by omega⟩]

theorem row_next (hr : r < e.batchSize) :
    e.row r (e.numKept r) = ⟨e.nextTokenIds r,
      e.targetPositions (e.queryStartLoc r) + e.numKept r, false, false⟩ := by
  have hvalid := e.numValidTokens_eq_numKept hr
  have hpos := e.extraSlots_pos
  have hrejected : e.isRejectedRegion r (e.numKept r) = false := by
    apply decide_eq_false
    omega
  have hdraft : e.isParallelDraftRegion r (e.numKept r) = false := by
    apply decide_eq_false
    omega
  unfold row tokenId
  simp only [hrejected, hdraft, Bool.false_eq_true, if_false, Bool.false_and]
  rw [if_pos hvalid.symm]

theorem row_draft (hr : r < e.batchSize) {k : Nat} (hk : 0 < k) (hk' : k < e.extraSlotsPerRequest) :
    e.row r (e.numKept r + k) = ⟨e.parallelDraftingTokenId,
      e.targetPositions (e.queryStartLoc r) + (e.numKept r + k), false, true⟩ := by
  have hvalid := e.numValidTokens_eq_numKept hr
  have htotal := e.totalOutputTokens_eq_numKept hr
  have hrejected : e.isRejectedRegion r (e.numKept r + k) = false := by
    apply decide_eq_false
    omega
  have hdraft : e.isParallelDraftRegion r (e.numKept r + k) = true := by
    apply decide_eq_true
    omega
  have hlt : e.numKept r + k < e.totalOutputTokens r := by omega
  unfold row tokenId
  simp only [hrejected, hdraft, Bool.false_eq_true, if_false, if_true, Bool.false_and,
    Bool.true_and, hlt, decide_true]

theorem row_rejected (hr : r < e.batchSize) {k : Nat} (hk : k < e.numRejectedTokens r) :
    e.row r (e.numKept r + e.extraSlotsPerRequest + k) = ⟨0, 0, true, false⟩ := by
  have hvalid := e.numValidTokens_eq_numKept hr
  have htotal := e.totalOutputTokens_eq_numKept hr
  have hrejected :
      e.isRejectedRegion r (e.numKept r + e.extraSlotsPerRequest + k) = true := by
    apply decide_eq_true
    omega
  have hdraft :
      e.isParallelDraftRegion r (e.numKept r + e.extraSlotsPerRequest + k) = false := by
    apply decide_eq_false
    omega
  have hlt : e.numKept r + e.extraSlotsPerRequest + k < e.totalOutputTokens r := by omega
  unfold row tokenId
  simp only [hrejected, hdraft, if_true, Bool.false_and, Bool.true_and, hlt, decide_true]

/-- Every row before the rejected padding has the position of its index. -/
theorem row_position (hr : r < e.batchSize) (hj : j < e.numKept r + e.extraSlotsPerRequest) :
    (e.row r j).position = e.targetPositions (e.queryStartLoc r) + j ∧
      (e.row r j).isRejectedToken = false := by
  have hvalid := e.numValidTokens_eq_numKept hr
  have hrejected : e.isRejectedRegion r j = false := by
    apply decide_eq_false
    omega
  unfold row
  simp only [hrejected, Bool.false_eq_true, if_false, Bool.false_and]
  trivial

/-! ## Slots -/

/-- The slot of a position of a request. -/
def slotOf (r position : Nat) : Int :=
  ((e.blockTable (cell e.nBlocksPerReq r (position / e.blockSize)) * e.blockSize +
    position % e.blockSize : Nat) : Int)

theorem slotMapping_eq (hr : r < e.batchSize) (hj : j < e.numKept r + e.extraSlotsPerRequest) :
    (e.setInputsFirstPass d).slotMapping (e.newQueryStartLoc r + j) =
      if e.maxModelLen ≤ e.targetPositions (e.queryStartLoc r) + j then paddingSlotId
      else e.slotOf r (e.targetPositions (e.queryStartLoc r) + j) := by
  have htotal := e.totalOutputTokens_eq_numKept hr
  have hj' : j < e.totalOutputTokens r := by omega
  obtain ⟨hposition, hrejected⟩ := e.row_position hr hj
  show e.newSlotMapping (e.setInputsFirstPass d).rows _ = _
  unfold newSlotMapping
  rw [e.rows_eq d hr hj', e.reqIndices_getD hr hj', hposition, hrejected]
  simp only [Bool.false_eq_true, if_false]
  split
  · rfl
  · -- below the limit the clamp changes nothing
    next hmax =>
    rw [Nat.min_eq_left (by omega)]
    rfl

theorem slotMapping_rejected (hr : r < e.batchSize) {k : Nat} (hk : k < e.numRejectedTokens r) :
    (e.setInputsFirstPass d).slotMapping
      (e.newQueryStartLoc r + (e.numKept r + e.extraSlotsPerRequest + k)) = paddingSlotId := by
  have htotal := e.totalOutputTokens_eq_numKept hr
  show e.newSlotMapping (e.setInputsFirstPass d).rows _ = _
  unfold newSlotMapping
  rw [e.rows_eq d hr (by omega), e.row_rejected hr hk]
  rfl

/-! ## The layout -/

theorem newQueryStartLoc_zero : e.newQueryStartLoc 0 = 0 := by
  unfold newQueryStartLoc
  rw [e.queryStartLoc_zero]
  rfl

/-- The programs of a request store to the segment of the request in the new metadata. -/
theorem rowStores_segment (hr : r < e.batchSize) (a : Nat) :
    (∃ s ∈ e.rowStores r, s.address = a) ↔
      e.newQueryStartLoc r ≤ a ∧ a < e.newQueryStartLoc (r + 1) := by
  have hsucc := e.newQueryStartLoc_succ hr
  constructor
  · rintro ⟨s, hs, rfl⟩
    obtain ⟨j, hj, rfl⟩ := (e.mem_rowStores hr).mp hs
    show e.newQueryStartLoc r ≤ e.outputStart r + j ∧ e.outputStart r + j < _
    rw [outputStart_eq]
    omega
  · rintro ⟨hle, hlt⟩
    refine ⟨⟨e.outputStart r + (a - e.newQueryStartLoc r), e.row r (a - e.newQueryStartLoc r)⟩,
      ?_, ?_⟩
    · exact (e.mem_rowStores hr).mpr ⟨_, by omega, rfl⟩
    · show e.outputStart r + (a - e.newQueryStartLoc r) = a
      rw [outputStart_eq]
      omega

/-- Every row below the new start of a request is in the segment of an earlier one. -/
theorem exists_segment {a : Nat} : ∀ {r : Nat}, a < e.newQueryStartLoc r →
    ∃ r' < r, e.newQueryStartLoc r' ≤ a ∧ a < e.newQueryStartLoc (r' + 1)
  | 0, ha => by
    rw [e.newQueryStartLoc_zero] at ha
    exact absurd ha (Nat.not_lt_zero a)
  | r + 1, ha => by
    rcases Nat.lt_or_ge a (e.newQueryStartLoc r) with hlt | hge
    · obtain ⟨r', hr', hseg⟩ := exists_segment hlt
      exact ⟨r', Nat.lt_succ_of_lt hr', hseg⟩
    · exact ⟨r, Nat.lt_succ_self r, hge, ha⟩

/-- What `set_inputs_first_pass` shall leave. -/
structure LaidOut : Prop where
  disjoint : ∀ r < e.batchSize, ∀ r' < e.batchSize, ∀ s ∈ e.rowStores r, ∀ s' ∈ e.rowStores r',
    s.address = s'.address → r = r'
  filled : ∀ a, (∃ r < e.batchSize, ∃ s ∈ e.rowStores r, s.address = a) ↔
    a < (e.setInputsFirstPass d).numTokens
  numTokens : (e.setInputsFirstPass d).numTokens = e.totalNumOutputTokens
  /-- The kernel's segments are those of the new metadata. -/
  segment : ∀ r < e.batchSize, ∀ a, (∃ s ∈ e.rowStores r, s.address = a) ↔
    (e.setInputsFirstPass d).queryStartLoc r ≤ a ∧
      a < (e.setInputsFirstPass d).queryStartLoc (r + 1)
  kept : ∀ r < e.batchSize, ∀ j < e.numKept r,
    (e.setInputsFirstPass d).rows ((e.setInputsFirstPass d).queryStartLoc r + j) =
      ⟨e.targetTokenIds (e.queryStartLoc r + e.inputOffset + j),
        e.targetPositions (e.queryStartLoc r) + j, false, false⟩
  next : ∀ r < e.batchSize,
    (e.setInputsFirstPass d).rows ((e.setInputsFirstPass d).queryStartLoc r + e.numKept r) =
      ⟨e.nextTokenIds r, e.targetPositions (e.queryStartLoc r) + e.numKept r, false, false⟩
  drafts : ∀ r < e.batchSize, ∀ k, 0 < k → k < e.extraSlotsPerRequest →
    (e.setInputsFirstPass d).rows ((e.setInputsFirstPass d).queryStartLoc r + (e.numKept r + k)) =
      ⟨e.parallelDraftingTokenId,
        e.targetPositions (e.queryStartLoc r) + (e.numKept r + k), false, true⟩
  /-- The rejected padding ends where the next request begins. -/
  rejected : ∀ r < e.batchSize,
    (e.setInputsFirstPass d).queryStartLoc (r + 1) = (e.setInputsFirstPass d).queryStartLoc r +
      (e.numKept r + e.extraSlotsPerRequest + e.numRejectedTokens r) ∧
    ∀ k < e.numRejectedTokens r, (e.setInputsFirstPass d).rows
      ((e.setInputsFirstPass d).queryStartLoc r + (e.numKept r + e.extraSlotsPerRequest + k)) =
      ⟨0, 0, true, false⟩
  slot : ∀ r < e.batchSize, ∀ j < e.numKept r + e.extraSlotsPerRequest,
    (e.setInputsFirstPass d).slotMapping ((e.setInputsFirstPass d).queryStartLoc r + j) =
      if e.maxModelLen ≤ e.targetPositions (e.queryStartLoc r) + j then paddingSlotId
      else e.slotOf r (e.targetPositions (e.queryStartLoc r) + j)
  rejectedSlot : ∀ r < e.batchSize, ∀ k < e.numRejectedTokens r,
    (e.setInputsFirstPass d).slotMapping
      ((e.setInputsFirstPass d).queryStartLoc r + (e.numKept r + e.extraSlotsPerRequest + k)) =
      paddingSlotId
  tokenIndices : ∀ r < e.batchSize, ∀ k < e.extraSlotsPerRequest,
    (e.setInputsFirstPass d).tokenIndicesToSample (r * e.extraSlotsPerRequest + k) =
      (e.setInputsFirstPass d).queryStartLoc r + (e.numKept r + k)
  /-- A hidden state goes to the row of its index in the request. -/
  hiddenStates : e.shiftInputIds = true → ∀ r < e.batchSize, ∀ j < e.queryLen r,
    (e.setInputsFirstPass d).hiddenStateMapping (e.queryStartLoc r + j) =
      (e.setInputsFirstPass d).queryStartLoc r + j
  /-- The row has the hidden state's position, when it is no padding. -/
  hiddenPositions : e.shiftInputIds = true → ∀ r < e.batchSize, ∀ j < e.queryLen r,
    j < e.numKept r + e.extraSlotsPerRequest →
    ((e.setInputsFirstPass d).rows
      ((e.setInputsFirstPass d).hiddenStateMapping (e.queryStartLoc r + j))).position =
      e.targetPositions (e.queryStartLoc r + j)

theorem laid_out : e.LaidOut d where
  disjoint := by
    intro r hr r' hr' s hs s' hs' haddress
    obtain ⟨j, hj, rfl⟩ := (e.mem_rowStores hr).mp hs
    obtain ⟨j', hj', rfl⟩ := (e.mem_rowStores hr').mp hs'
    have hinj := @segment_inj e.outputStart e.totalOutputTokens e.batchSize
      fun r hr => e.outputStart_succ hr
    exact (hinj hr hr' hj hj' haddress).1
  filled := by
    intro a
    constructor
    · rintro ⟨r, hr, hs⟩
      have hlt := ((e.rowStores_segment hr a).mp hs).2
      have hend : e.newQueryStartLoc r + e.totalOutputTokens r ≤ e.newQueryStartLoc e.batchSize :=
        segment_le (fun r hr => Nat.le_of_eq (e.newQueryStartLoc_succ hr).symm) hr (Nat.le_refl _)
      rw [e.newQueryStartLoc_succ hr] at hlt
      exact Nat.lt_of_lt_of_le hlt hend
    · intro ha
      have hend : a < e.newQueryStartLoc e.batchSize := ha
      obtain ⟨r, hr, hseg⟩ := e.exists_segment hend
      exact ⟨r, hr, (e.rowStores_segment hr a).mpr hseg⟩
  numTokens := rfl
  segment := fun r hr a => e.rowStores_segment hr a
  kept := by
    intro r hr j hj
    have htotal := e.totalOutputTokens_eq_numKept hr
    exact (e.rows_eq d hr (by omega)).trans (e.row_kept hr hj)
  next := by
    intro r hr
    have htotal := e.totalOutputTokens_eq_numKept hr
    have hpos := e.extraSlots_pos
    exact (e.rows_eq d hr (by omega)).trans (e.row_next hr)
  drafts := by
    intro r hr k hk hk'
    have htotal := e.totalOutputTokens_eq_numKept hr
    exact (e.rows_eq d hr (by omega)).trans (e.row_draft hr hk hk')
  rejected := by
    intro r hr
    have htotal := e.totalOutputTokens_eq_numKept hr
    refine ⟨?_, fun k hk => ?_⟩
    · rw [← htotal]
      exact e.newQueryStartLoc_succ hr
    · exact (e.rows_eq d hr (by omega)).trans (e.row_rejected hr hk)
  slot := fun r hr j hj => e.slotMapping_eq d hr hj
  rejectedSlot := fun r hr k hk => e.slotMapping_rejected d hr hk
  tokenIndices := by
    intro r hr k hk
    rw [e.tokenIndicesToSample_eq d hr hk, e.numValidTokens_eq_numKept hr]
    rfl
  hiddenStates := fun hshift r hr j hj => e.hiddenStateMapping_eq d hr hshift hj
  hiddenPositions := by
    intro hshift r hr j hj hkept
    have htotal := e.totalOutputTokens_eq_numKept hr
    rw [e.hiddenStateMapping_eq d hr hshift hj, e.rows_eq d hr (by omega),
      (e.row_position hr hkept).1]
    exact (e.targetPositions_add r hr j hj).symm

/-! ## A hidden state at the padding -/

/-- Two queries of three tokens with two extra slots each; of the first the last two tokens are rejected. -/
def twoRejected : EagleBatch where
  batchSize := 2
  queryStartLoc := fun r => 3 * r
  maxQueryLen := 3
  numRejectedTokens := fun r => if r = 0 then 2 else 0
  targetTokenIds := fun _ => 5
  targetPositions := fun i => i
  nextTokenIds := fun _ => 6
  extraSlotsPerRequest := 2
  shiftInputIds := true
  parallelDraftingTokenId := 9
  blockSize := 4
  maxModelLen := 8
  nBlocksPerReq := 2
  blockTable := fun i => i
  queryStartLoc_zero := rfl
  queryStartLoc_lt := fun r _ => by omega
  len_le := fun r _ => by omega
  numRejectedTokens_lt := fun r _ => by split <;> omega
  targetPositions_add := fun r hr j _ => by omega
  extraSlots_pos := Nat.le_succ 1

def twoRejectedDevice : Device where
  rows := fun _ => ⟨0, 0, false, false⟩
  tokenIndicesToSample := fun _ => 0
  hiddenStateMapping := fun _ => 0
  rowOrder := .inOrder
  indexOrder := .inOrder
  mappingOrder := .inOrder

theorem twoRejected_laidOut : twoRejected.LaidOut twoRejectedDevice ∧
    (List.range 8).map (fun i => (((twoRejected.setInputsFirstPass twoRejectedDevice).rows i).inputId,
      ((twoRejected.setInputsFirstPass twoRejectedDevice).rows i).position))
      = [(6, 0), (9, 1), (0, 0), (0, 0), (5, 3), (5, 4), (6, 5), (9, 6)] :=
  ⟨laid_out twoRejected twoRejectedDevice, by decide⟩

/-- The hidden state of position 2 goes to a row of the rejected padding, with position 0. -/
theorem hidden_state_at_padding :
    ¬ ∀ j < twoRejected.queryLen 0,
      ((twoRejected.setInputsFirstPass twoRejectedDevice).rows
        ((twoRejected.setInputsFirstPass twoRejectedDevice).hiddenStateMapping
          (twoRejected.queryStartLoc 0 + j))).position =
        twoRejected.targetPositions (twoRejected.queryStartLoc 0 + j) := by
  intro h
  have hlast := h 2 (by decide)
  revert hlast
  decide

end EagleBatch
end VllmEngine.SpecDecode
