import VllmEngine.Lib.Stores

/-!
# The slots of the draft steps

`eagle_step_slot_mapping_metadata_kernel` and its launch
(`vllm/v1/spec_decode/utils.py`), called by the draft loop of `propose`
(`vllm/v1/spec_decode/eagle.py`) once for each further draft token.

The kernel replaces a position that reaches `max_model_len` by 0 and stores the slot
`PADDING_SLOT_ID` for it, and the loop gives the position that the kernel stored to
the next call. So the call after that sees position 1 again:

> `ownSlots_iff`: the slots are those of the positions `p + t` exactly if no request
> goes past its last position before the last call, or `max_model_len` is 1.

Mirroring notes:
- The tensors are functions of the row. `positions` is the tensor that the call reads:
  the loop makes it the one that the call before stored to. A program loads its row of
  it before it stores there.
- The programs run in any order. Each uses its own row only (`program_view`).
- The block table lies in memory row by row, `block_table_stride` apart, and has columns
  for `max_model_len` positions. Block ids and lengths are not negative.
-/

namespace VllmEngine.SpecDecode

open Stores

/-- `PADDING_SLOT_ID`. -/
def paddingSlotId : Int := -1

/-- What a launch reads and what stays the same over the loop. -/
structure DraftLaunch where
  batchSize : Nat
  /-- The batch size with the padding for CUDA graphs. -/
  inputBatchSize : Nat
  blockSize : Nat
  maxModelLen : Nat
  nBlocksPerReq : Nat
  blockTableStride : Nat
  blockTable : Nat → Nat
  batchSize_le : batchSize ≤ inputBatchSize
  blockSize_pos : 0 < blockSize
  maxModelLen_le : maxModelLen ≤ nBlocksPerReq * blockSize
  nBlocksPerReq_le : nBlocksPerReq ≤ blockTableStride

/-- The tensors that a launch writes. -/
structure DraftBuffers where
  positions : Nat → Nat
  slotMapping : Nat → Int
  seqLens : Nat → Nat

/-- An order of the programs. -/
abbrev DraftLaunch.Order (l : DraftLaunch) : Type :=
  {order : List Nat // order.Perm (List.range l.inputBatchSize)}

namespace DraftLaunch

variable (l : DraftLaunch)

/-! ## The kernel -/

/-- `clamped_position` for the position after the given one. -/
def clampedPosition (position : Nat) : Nat :=
  let newPosition := position + 1
  if l.maxModelLen ≤ newPosition then 0 else newPosition

/-- `block_number`. -/
def blockNumber (position : Nat) : Nat :=
  min (l.clampedPosition position / l.blockSize) (l.nBlocksPerReq - 1)

/-- `slot_id`, as it is stored. -/
def slotId (reqIdx position : Nat) : Int :=
  let blockId := l.blockTable (cell l.blockTableStride reqIdx (l.blockNumber position))
  if l.maxModelLen ≤ position + 1 then paddingSlotId
  else ((blockId * l.blockSize + l.clampedPosition position % l.blockSize : Nat) : Int)

/-- `new_seq_len`. -/
def newSeqLen (position seqLen : Nat) : Nat :=
  min (if l.maxModelLen ≤ position + 1 then 1 else seqLen + 1) l.maxModelLen

/-- `eagle_step_slot_mapping_metadata_kernel`, one program. -/
def eagleStepKernel (b : DraftBuffers) (reqIdx : Nat) : DraftBuffers :=
  if l.batchSize ≤ reqIdx then
    { b with slotMapping := Function.update b.slotMapping reqIdx paddingSlotId }
  else
    let position := b.positions reqIdx
    { positions := Function.update b.positions reqIdx (l.clampedPosition position)
      slotMapping := Function.update b.slotMapping reqIdx (l.slotId reqIdx position)
      seqLens := Function.update b.seqLens reqIdx (l.newSeqLen position (b.seqLens reqIdx)) }

/-- `eagle_step_update_slot_mapping_and_metadata`. -/
def eagleStepUpdate (b : DraftBuffers) (order : l.Order) : DraftBuffers :=
  order.1.foldl l.eagleStepKernel b

/-- The calls of the draft loop. -/
def draftLoop (b : DraftBuffers) (orders : List l.Order) : DraftBuffers :=
  orders.foldl l.eagleStepUpdate b

/-! ## One row -/

/-- What a request has in the tensors. -/
def view (r : Nat) (b : DraftBuffers) : Nat × Int × Nat :=
  (b.positions r, b.slotMapping r, b.seqLens r)

/-- What a program makes of its row. -/
def rowStep (r : Nat) : Nat × Int × Nat → Nat × Int × Nat
  | (position, _, seqLen) =>
    if l.batchSize ≤ r then (position, paddingSlotId, seqLen)
    else (l.clampedPosition position, l.slotId r position, l.newSeqLen position seqLen)

theorem program_view (b : DraftBuffers) (r : Nat) :
    view r (l.eagleStepKernel b r) = l.rowStep r (view r b) := by
  unfold eagleStepKernel rowStep view
  by_cases h : l.batchSize ≤ r
  · simp only [if_pos h, Function.update_self]
  · simp only [if_neg h, Function.update_self]

theorem program_other (b : DraftBuffers) (r r' : Nat) (hne : r ≠ r') :
    view r' (l.eagleStepKernel b r) = view r' b := by
  unfold eagleStepKernel view
  by_cases h : l.batchSize ≤ r
  · simp only [if_pos h, Function.update_of_ne hne.symm]
  · simp only [if_neg h, Function.update_of_ne hne.symm]

theorem view_eagleStepUpdate (b : DraftBuffers) (order : l.Order) {r : Nat}
    (hr : r < l.inputBatchSize) :
    view r (l.eagleStepUpdate b order) = l.rowStep r (view r b) := by
  have hnd : order.1.Nodup := order.2.nodup_iff.mpr List.nodup_range
  have hmem : r ∈ order.1 := order.2.mem_iff.mpr (List.mem_range.mpr hr)
  unfold eagleStepUpdate
  rw [view_launch l.program_view l.program_other hnd, if_pos hmem]

variable {l} {b : DraftBuffers} {orders : List l.Order} {r t : Nat}

/-- One more call. -/
theorem view_draftLoop_succ (ht : t < orders.length) (hr : r < l.inputBatchSize) :
    view r (l.draftLoop b (orders.take (t + 1))) =
      l.rowStep r (view r (l.draftLoop b (orders.take t))) := by
  have htake : orders.take (t + 1) = orders.take t ++ [orders[t]] :=
    List.take_succ_eq_append_getElem ht
  unfold draftLoop
  rw [htake, List.foldl_append]
  exact l.view_eagleStepUpdate _ _ hr

/-- One more call, at a request's row. -/
theorem view_draftLoop_own (ht : t < orders.length) (hr : r < l.batchSize) :
    view r (l.draftLoop b (orders.take (t + 1))) =
      let position := (l.draftLoop b (orders.take t)).positions r
      (l.clampedPosition position, l.slotId r position,
        l.newSeqLen position ((l.draftLoop b (orders.take t)).seqLens r)) := by
  rw [view_draftLoop_succ ht (Nat.lt_of_lt_of_le hr l.batchSize_le)]
  exact if_neg (Nat.not_le.mpr hr)

theorem positions_succ (ht : t < orders.length) (hr : r < l.batchSize) :
    (l.draftLoop b (orders.take (t + 1))).positions r =
      l.clampedPosition ((l.draftLoop b (orders.take t)).positions r) :=
  congrArg Prod.fst (view_draftLoop_own ht hr)

theorem slotMapping_succ (ht : t < orders.length) (hr : r < l.batchSize) :
    (l.draftLoop b (orders.take (t + 1))).slotMapping r =
      l.slotId r ((l.draftLoop b (orders.take t)).positions r) :=
  congrArg (fun row => row.2.1) (view_draftLoop_own ht hr)

theorem seqLens_succ (ht : t < orders.length) (hr : r < l.batchSize) :
    (l.draftLoop b (orders.take (t + 1))).seqLens r =
      l.newSeqLen ((l.draftLoop b (orders.take t)).positions r)
        ((l.draftLoop b (orders.take t)).seqLens r) :=
  congrArg (fun row => row.2.2) (view_draftLoop_own ht hr)

/-- The rows of the padding. -/
theorem slotMapping_padded (ht : t < orders.length) (hr : l.batchSize ≤ r)
    (hr' : r < l.inputBatchSize) :
    (l.draftLoop b (orders.take (t + 1))).slotMapping r = paddingSlotId := by
  have h : view r (l.draftLoop b (orders.take (t + 1))) =
      ((l.draftLoop b (orders.take t)).positions r, paddingSlotId,
        (l.draftLoop b (orders.take t)).seqLens r) := by
    rw [view_draftLoop_succ ht hr']
    exact if_pos hr
  exact congrArg (fun row => row.2.1) h

/-! ## Positions over the loop -/

theorem clampedPosition_lt (l : DraftLaunch) (hmax : 0 < l.maxModelLen) (position : Nat) :
    l.clampedPosition position < l.maxModelLen := by
  unfold clampedPosition
  dsimp only
  split <;> omega

theorem clampedPosition_of_lt {position : Nat} (h : position + 1 < l.maxModelLen) :
    l.clampedPosition position = position + 1 :=
  if_neg (Nat.not_le.mpr h)

theorem clampedPosition_of_le {position : Nat} (h : l.maxModelLen ≤ position + 1) :
    l.clampedPosition position = 0 :=
  if_pos h

/-- The loop never gives the kernel a position outside the model. -/
theorem positions_lt (hp : b.positions r < l.maxModelLen) (hr : r < l.batchSize) :
    ∀ {t : Nat}, t ≤ orders.length →
      (l.draftLoop b (orders.take t)).positions r < l.maxModelLen
  | 0, _ => by
    rw [List.take_zero]
    exact hp
  | t + 1, ht => by
    rw [positions_succ ht hr]
    exact l.clampedPosition_lt (Nat.zero_lt_of_lt hp) _

/-- Before the end of the model each call goes one position further. -/
theorem positions_eq_add (hr : r < l.batchSize) :
    ∀ {t : Nat}, t ≤ orders.length → b.positions r + t < l.maxModelLen →
      (l.draftLoop b (orders.take t)).positions r = b.positions r + t
  | 0, _, _ => by
    rw [List.take_zero]
    rfl
  | t + 1, ht, hlt => by
    rw [positions_succ ht hr, positions_eq_add hr (Nat.le_of_lt ht) (Nat.lt_of_succ_lt hlt)]
    exact clampedPosition_of_lt hlt

/-- The call at the end of the model starts over. -/
theorem positions_wrap (hr : r < l.batchSize) (ht : t < orders.length)
    (hend : b.positions r + (t + 1) = l.maxModelLen) :
    (l.draftLoop b (orders.take (t + 1))).positions r = 0 := by
  rw [positions_succ ht hr, positions_eq_add hr (Nat.le_of_lt ht) (by omega)]
  exact clampedPosition_of_le (Nat.le_of_eq hend.symm)

/-! ## Slots and lengths -/

/-- The slot of a position of a request. -/
def slotOf (l : DraftLaunch) (r position : Nat) : Int :=
  ((l.blockTable (cell l.blockTableStride r (position / l.blockSize)) * l.blockSize +
    position % l.blockSize : Nat) : Int)

theorem slotOf_ne_padding (l : DraftLaunch) (r position : Nat) :
    l.slotOf r position ≠ paddingSlotId := by
  unfold slotOf paddingSlotId
  omega

/-- A position of the model lies in a column of the row. -/
theorem column_lt (l : DraftLaunch) {position : Nat} (h : position < l.maxModelLen) :
    position / l.blockSize < l.nBlocksPerReq :=
  (Nat.div_lt_iff_lt_mul l.blockSize_pos).mpr (Nat.lt_of_lt_of_le h l.maxModelLen_le)

theorem blockNumber_lt (l : DraftLaunch) (hmax : 0 < l.maxModelLen) (position : Nat) :
    l.blockNumber position < l.nBlocksPerReq := by
  have h : 0 < l.nBlocksPerReq := Nat.zero_lt_of_lt (l.column_lt hmax)
  unfold blockNumber
  omega

theorem slotId_of_lt {position : Nat} (h : position + 1 < l.maxModelLen) :
    l.slotId r position = l.slotOf r (position + 1) := by
  -- the column is in the row, so the bound on it does nothing
  have hcol : l.blockNumber position = (position + 1) / l.blockSize := by
    have := l.column_lt h
    unfold blockNumber
    rw [clampedPosition_of_lt h]
    omega
  unfold slotId slotOf
  rw [hcol, clampedPosition_of_lt h]
  exact if_neg (Nat.not_le.mpr h)

theorem slotId_of_le {position : Nat} (h : l.maxModelLen ≤ position + 1) :
    l.slotId r position = paddingSlotId :=
  if_pos h

theorem newSeqLen_bounds (l : DraftLaunch) (hmax : 0 < l.maxModelLen) (position seqLen : Nat) :
    1 ≤ l.newSeqLen position seqLen ∧ l.newSeqLen position seqLen ≤ l.maxModelLen := by
  unfold newSeqLen
  split <;> omega

/-- The blocks up to that of position `n` are different ones. -/
def DistinctBlocks (l : DraftLaunch) (r n : Nat) : Prop :=
  ∀ c ≤ n / l.blockSize, ∀ c' ≤ n / l.blockSize,
    l.blockTable (cell l.blockTableStride r c) = l.blockTable (cell l.blockTableStride r c') →
      c = c'

theorem slotOf_ne_of_lt {q n : Nat} (hd : l.DistinctBlocks r n) (hq : q < n) :
    l.slotOf r n ≠ l.slotOf r q := by
  intro heq
  have heq : cell l.blockSize (l.blockTable (cell l.blockTableStride r (n / l.blockSize)))
        (n % l.blockSize) =
      cell l.blockSize (l.blockTable (cell l.blockTableStride r (q / l.blockSize)))
        (q % l.blockSize) := Int.ofNat_inj.mp heq
  obtain ⟨hblock, hoff⟩ := cell_inj (Nat.mod_lt n l.blockSize_pos) (Nat.mod_lt q l.blockSize_pos)
    heq
  have hcol : n / l.blockSize = q / l.blockSize :=
    hd _ (Nat.le_refl _) _ (Nat.div_le_div_right (Nat.le_of_lt hq)) hblock
  -- column and offset give the position
  have hn := Nat.div_add_mod n l.blockSize
  have hqm := Nat.div_add_mod q l.blockSize
  rw [hcol, hoff] at hn
  omega

/-! ## Own slots -/

/-- What the calls of the loop shall leave. Call `t + 1` reads what call `t` left. -/
structure OwnSlots (l : DraftLaunch) (b : DraftBuffers) (orders : List l.Order) : Prop where
  /-- The slot of position `p + t`, and none past the end of the model. -/
  slot : ∀ t < orders.length, ∀ r < l.batchSize,
    (l.draftLoop b (orders.take (t + 1))).slotMapping r =
      if b.positions r + (t + 1) < l.maxModelLen then l.slotOf r (b.positions r + (t + 1))
      else paddingSlotId
  padded : ∀ t < orders.length, ∀ r < l.inputBatchSize, l.batchSize ≤ r →
    (l.draftLoop b (orders.take (t + 1))).slotMapping r = paddingSlotId
  /-- Positions up to `p` keep what they have. -/
  keeps : ∀ t < orders.length, ∀ r < l.batchSize,
    l.DistinctBlocks r (b.positions r + (t + 1)) → ∀ q ≤ b.positions r,
      (l.draftLoop b (orders.take (t + 1))).slotMapping r ≠ l.slotOf r q
  /-- The kernel loads a block id of the request's row. -/
  column : ∀ t < orders.length, ∀ r < l.batchSize,
    l.blockNumber ((l.draftLoop b (orders.take t)).positions r) < l.nBlocksPerReq
  seqLen : ∀ t < orders.length, ∀ r < l.batchSize,
    1 ≤ (l.draftLoop b (orders.take (t + 1))).seqLens r ∧
      (l.draftLoop b (orders.take (t + 1))).seqLens r ≤ l.maxModelLen

/-- A request does not start over, or a second start makes no difference. -/
def Fits (l : DraftLaunch) (b : DraftBuffers) (n : Nat) : Prop :=
  ∀ r < l.batchSize, b.positions r + n ≤ l.maxModelLen ∨ l.maxModelLen = 1

/-- The slot of a call for a request that fits. -/
theorem slotMapping_of_fits (hp : b.positions r < l.maxModelLen) (hr : r < l.batchSize)
    (ht : t < orders.length)
    (hfits : b.positions r + orders.length ≤ l.maxModelLen ∨ l.maxModelLen = 1) :
    (l.draftLoop b (orders.take (t + 1))).slotMapping r =
      if b.positions r + (t + 1) < l.maxModelLen then l.slotOf r (b.positions r + (t + 1))
      else paddingSlotId := by
  rw [slotMapping_succ ht hr]
  rcases hfits with hlen | hone
  · rw [positions_eq_add hr (Nat.le_of_lt ht) (by omega)]
    by_cases hlt : b.positions r + (t + 1) < l.maxModelLen
    · rw [if_pos hlt]
      exact slotId_of_lt hlt
    · rw [if_neg hlt]
      exact slotId_of_le (Nat.not_lt.mp hlt)
  · -- the only position is 0, and the next one is outside
    have hlt : (l.draftLoop b (orders.take t)).positions r < l.maxModelLen :=
      positions_lt hp hr (Nat.le_of_lt ht)
    rw [if_neg (by omega)]
    apply slotId_of_le
    omega

theorem ownSlots_of_fits (hp : ∀ r < l.batchSize, b.positions r < l.maxModelLen)
    (hfits : l.Fits b orders.length) : l.OwnSlots b orders where
  slot t ht r hr := slotMapping_of_fits (hp r hr) hr ht (hfits r hr)
  padded t ht r hr hr' := slotMapping_padded ht hr' hr
  keeps t ht r hr hd q hq := by
    rw [slotMapping_of_fits (hp r hr) hr ht (hfits r hr)]
    by_cases hlt : b.positions r + (t + 1) < l.maxModelLen
    · rw [if_pos hlt]
      exact slotOf_ne_of_lt hd (by omega)
    · rw [if_neg hlt]
      exact (l.slotOf_ne_padding r q).symm
  column t ht r hr := l.blockNumber_lt (Nat.zero_lt_of_lt (hp r hr)) _
  seqLen t ht r hr := by
    rw [seqLens_succ ht hr]
    exact l.newSeqLen_bounds (Nat.zero_lt_of_lt (hp r hr)) _ _

/-- The call after the end of the model stores the slot of position 1. -/
theorem slotMapping_after_end (hr : r < l.batchSize) (hp : b.positions r < l.maxModelLen)
    (hone : 1 < l.maxModelLen) (hlen : l.maxModelLen < b.positions r + orders.length) :
    (l.draftLoop b (orders.take (l.maxModelLen - b.positions r + 1))).slotMapping r =
      l.slotOf r 1 := by
  rw [slotMapping_succ (by omega) hr]
  have hwrap : (l.draftLoop b (orders.take (l.maxModelLen - b.positions r - 1 + 1))).positions r =
      0 := positions_wrap hr (by omega) (by omega)
  rw [show l.maxModelLen - b.positions r - 1 + 1 = l.maxModelLen - b.positions r by omega]
    at hwrap
  rw [hwrap]
  exact slotId_of_lt hone

theorem ownSlots_iff (hp : ∀ r < l.batchSize, b.positions r < l.maxModelLen) :
    l.OwnSlots b orders ↔ l.Fits b orders.length := by
  constructor
  · intro hown r hr
    by_cases hone : l.maxModelLen = 1
    · exact Or.inr hone
    · left
      apply Nat.not_lt.mp
      intro hlen
      have hpr := hp r hr
      -- the slot that the call after the end of the model shall store is none
      have hslot := hown.slot (l.maxModelLen - b.positions r) (by omega) r hr
      rw [slotMapping_after_end hr hpr (by omega) hlen, if_neg (by omega)] at hslot
      exact l.slotOf_ne_padding r 1 hslot
  · exact ownSlots_of_fits hp

/-! ## A request at the end of the model -/

/-- Two requests and a row of padding, with two blocks for four positions. -/
def lastPosition : DraftLaunch where
  batchSize := 2
  inputBatchSize := 3
  blockSize := 2
  maxModelLen := 4
  nBlocksPerReq := 2
  blockTableStride := 2
  blockTable := fun i => 7 + i
  batchSize_le := Nat.le_succ 2
  blockSize_pos := Nat.two_pos
  maxModelLen_le := Nat.le.refl
  nBlocksPerReq_le := Nat.le.refl

/-- The first request is at the given position, the second at position 1. -/
def lastPositionBuffers (position : Nat) : DraftBuffers where
  positions := fun r => if r = 0 then position else 1
  slotMapping := fun _ => 0
  seqLens := fun _ => 2

/-- Two calls, whose programs run in different orders. -/
def lastPositionOrders : List lastPosition.Order :=
  [⟨[2, 0, 1], by decide⟩, ⟨[0, 1, 2], by decide⟩]

/-- The second call overwrites position 1 of the request at its last position. -/
theorem draft_overwrites_last_position :
    (lastPosition.draftLoop (lastPositionBuffers 3) lastPositionOrders).slotMapping 0
        = lastPosition.slotOf 0 1 ∧
      ¬ lastPosition.OwnSlots (lastPositionBuffers 3) lastPositionOrders := by
  have hslot : (lastPosition.draftLoop (lastPositionBuffers 3) lastPositionOrders).slotMapping 0
      = lastPosition.slotOf 0 1 := by decide
  refine ⟨hslot, fun hown => ?_⟩
  have h := hown.slot 1 Nat.one_lt_two 0 Nat.two_pos
  exact lastPosition.slotOf_ne_padding 0 1 (hslot.symm.trans h)

/-- A position earlier both calls fit, and the stores are the requests' own. -/
theorem ownSlots_two : lastPosition.OwnSlots (lastPositionBuffers 2) lastPositionOrders :=
  (ownSlots_iff (by decide)).mpr (by unfold Fits; decide)

end DraftLaunch
end VllmEngine.SpecDecode
