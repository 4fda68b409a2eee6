import Mathlib.Algebra.BigOperators.Ring.Finset
import VllmEngine.Lib.Interleave
import VllmEngine.Worker.BlockTable

/-!
# Slots under context parallelism

`BlockTable.compute_slot_mapping` and its kernel (`vllm/v1/worker/block_table.py`): where a rank of a
context-parallel group writes the keys of a token, or that it does not; and `get_dcp_local_seq_lens`
(`vllm/v1/attention/backends/utils.py`): how many keys of a sequence a rank has.

Mirroring notes:
- The programs of the kernel run one after the other, and so do the tiles of a program. A lane that is
  masked neither stores nor counts as a read.
- `Rank` is a pair of a prefill and a decode rank.

> `slot_mapping_consistent`: the writes of all ranks and the counts agree.
-/

namespace VllmEngine

def padSlotId : Int := -1

/-- The sizes that the ranks of a group share. The block is that of the attention kernel. -/
structure CpLayout where
  blockSize : Nat
  pcpWorldSize : Nat
  dcpWorldSize : Nat
  cpKvCacheInterleaveSize : Nat
  blockSize_pos : 0 < blockSize
  pcpWorldSize_pos : 0 < pcpWorldSize
  dcpWorldSize_pos : 0 < dcpWorldSize
  interleave_dvd : cpKvCacheInterleaveSize ∣ blockSize

namespace CpLayout

def totalCpWorldSize (c : CpLayout) : Nat := c.pcpWorldSize * c.dcpWorldSize

abbrev Rank (c : CpLayout) : Type := Fin c.pcpWorldSize × Fin c.dcpWorldSize

def totalCpRank (c : CpLayout) (rank : c.Rank) : Nat := rank.1 * c.dcpWorldSize + rank.2

variable {c : CpLayout}

theorem totalCpWorldSize_pos : 0 < c.totalCpWorldSize := Nat.mul_pos c.pcpWorldSize_pos c.dcpWorldSize_pos

theorem interleave_pos : 0 < c.cpKvCacheInterleaveSize := Nat.pos_of_dvd_of_pos c.interleave_dvd c.blockSize_pos

theorem totalCpRank_lt (rank : c.Rank) : c.totalCpRank rank < c.totalCpWorldSize := by
  have hsucc : rank.1 * c.dcpWorldSize + c.dcpWorldSize ≤ c.pcpWorldSize * c.dcpWorldSize := by
    rw [← Nat.succ_mul]
    exact Nat.mul_le_mul_right _ rank.1.isLt
  exact Nat.lt_of_lt_of_le (Nat.add_lt_add_left rank.2.isLt _) hsucc

/-- Every number below the size is the rank of one pair. -/
theorem exists_rank {r : Nat} (hr : r < c.totalCpWorldSize) : ∃ rank : c.Rank, c.totalCpRank rank = r := by
  refine ⟨(⟨r / c.dcpWorldSize, Nat.div_lt_of_lt_mul (Nat.mul_comm c.pcpWorldSize _ ▸ hr)⟩,
    ⟨r % c.dcpWorldSize, Nat.mod_lt r c.dcpWorldSize_pos⟩), ?_⟩
  exact Nat.div_add_mod' r c.dcpWorldSize

theorem totalCpRank_injective {rank rank' : c.Rank} (h : c.totalCpRank rank = c.totalCpRank rank') :
    rank = rank' := by
  have hdiv : ∀ rank : c.Rank, c.totalCpRank rank / c.dcpWorldSize = rank.1 := by
    intro rank
    unfold totalCpRank
    rw [Nat.add_comm, Nat.add_mul_div_right _ _ c.dcpWorldSize_pos, Nat.div_eq_of_lt rank.2.isLt, Nat.zero_add]
  have hmod : ∀ rank : c.Rank, c.totalCpRank rank % c.dcpWorldSize = rank.2 := by
    intro rank
    unfold totalCpRank
    rw [Nat.add_comm, Nat.add_mul_mod_self_right, Nat.mod_eq_of_lt rank.2.isLt]
  refine Prod.ext (Fin.ext ?_) (Fin.ext ?_)
  · rw [← hdiv rank, h, hdiv]
  · rw [← hmod rank, h, hmod]

end CpLayout

/-! ## The kernel -/

/-- What a lane stores for a position. -/
def slotId (blockSize totalCpWorldSize totalCpRank interleave : Nat) (row : Nat → Nat) (pos : Nat) : Int :=
  let virtualBlockSize := blockSize * totalCpWorldSize
  let blockIndex := pos / virtualBlockSize
  let blockNumber := row blockIndex
  let virtualBlockOffset := pos - blockIndex * virtualBlockSize
  let isLocal := virtualBlockOffset / interleave % totalCpWorldSize = totalCpRank
  let localBlockOffset :=
    virtualBlockOffset / (totalCpWorldSize * interleave) * interleave + virtualBlockOffset % interleave
  if isLocal then ((blockNumber * blockSize + localBlockOffset : Nat) : Int) else padSlotId

/-- `for i in range(start, stop, BLOCK_SIZE)`: the lanes of a tile store below `stop`. -/
def storeTiles (tile start stop : Nat) (value : Nat → Int) (slots : Nat → Int) : Nat → Int :=
  (List.range' start ((stop - start + (tile - 1)) / tile) tile).foldl
    (fun slots i off => if i ≤ off ∧ off < i + tile ∧ off < stop then value off else slots off) slots

/-- The tokens of a step. The requests have one range of tokens each, one behind the other. -/
structure SlotBatch where
  numReqs : Nat
  queryStartLoc : Nat → Nat
  positions : List Nat
  maxNumTokens : Nat
  sorted : ∀ i < numReqs, queryStartLoc i ≤ queryStartLoc (i + 1)
  fits : queryStartLoc numReqs ≤ positions.length

/-- `BLOCK_SIZE` of the launch. -/
def slotTile : Nat := 1024

/-- `_compute_slot_mapping_kernel`, the program of a request, or the last one, that pads. -/
def computeSlotMappingKernel (c : CpLayout) (rank : c.Rank) (t : BlockTable) (x : SlotBatch)
    (slots : Nat → Int) (reqIdx : Nat) : Nat → Int :=
  if reqIdx = x.numReqs then storeTiles slotTile x.positions.length x.maxNumTokens (fun _ => padSlotId) slots
  else
    storeTiles slotTile (x.queryStartLoc reqIdx) (x.queryStartLoc (reqIdx + 1))
      (fun off => slotId c.blockSize c.totalCpWorldSize (c.totalCpRank rank) c.cpKvCacheInterleaveSize
        (t.blockTable reqIdx) (x.positions.getD off 0)) slots

/-- `compute_slot_mapping`. -/
def BlockTable.computeSlotMapping (t : BlockTable) (c : CpLayout) (rank : c.Rank) (x : SlotBatch)
    (slots : Nat → Int) : Nat → Int :=
  (List.range (x.numReqs + 1)).foldl (computeSlotMappingKernel c rank t x) slots

/-! ## Local sequence lengths -/

/-- One entry of `get_dcp_local_seq_lens`. -/
def dcpLocalSeqLen (interleave dcpSize : Nat) (seqLen rankOffset : Nat) : Int :=
  let base : Int := (seqLen / interleave / dcpSize * interleave : Nat)
  let remainder := (seqLen : Int) - base * dcpSize
  let remainder := min (max (remainder - rankOffset * interleave) 0) interleave
  base + remainder

/-- `get_dcp_local_seq_lens`, a row for each sequence: of one rank, or of all. -/
def getDcpLocalSeqLens (seqLens : List Nat) (dcpSize : Nat) (dcpRank : Option Nat) (interleave : Nat) :
    List (List Int) :=
  let rankOffsets := match dcpRank with
    | none => List.range dcpSize
    | some rank => [rank]
  seqLens.map fun seqLen => rankOffsets.map (dcpLocalSeqLen interleave dcpSize seqLen)

/-! ## One position -/

open Interleave

/-- The lane in terms of the index of the position on its rank. -/
theorem slotId_spec {blockSize world interleave : Nat} (hworld : 0 < world) (hsize : 0 < blockSize)
    (hdvd : interleave ∣ blockSize) (r : Nat) (row : Nat → Nat) (pos : Nat) :
    slotId blockSize world r interleave row pos
      = if rank world interleave pos = r then
          ((row (index world interleave pos / blockSize) * blockSize
            + index world interleave pos % blockSize : Nat) : Int)
        else padSlotId := by
  obtain ⟨rounds, rfl⟩ := hdvd
  have hinterleave : 0 < interleave := Nat.pos_of_mul_pos_right hsize
  have hrounds : 0 < rounds := Nat.pos_of_mul_pos_left hsize
  have hoffset : pos - pos / (interleave * rounds * world) * (interleave * rounds * world)
      = pos % (interleave * rounds * world) := by
    rw [Nat.mul_comm, Nat.mod_def]
  have hrank : pos % (interleave * rounds * world) / interleave % world = rank world interleave pos :=
    rank_mod_block world interleave rounds pos
  have hplace : pos % (interleave * rounds * world) / (world * interleave) * interleave
      + pos % (interleave * rounds * world) % interleave = index world interleave pos % (interleave * rounds) :=
    (index_mod_block hworld hinterleave hrounds pos).symm
  unfold slotId
  dsimp only
  rw [hoffset, hrank, hplace, index_div_block rounds hworld hinterleave pos]

/-- The count of a rank is the number of its positions. -/
theorem dcpLocalSeqLen_eq {world interleave : Nat} (hinterleave : 0 < interleave) {r : Nat} (hr : r < world)
    (seqLen : Nat) : dcpLocalSeqLen interleave world seqLen r = countBelow world interleave r seqLen := by
  have hworld : 0 < world := Nat.lt_of_le_of_lt (Nat.zero_le r) hr
  obtain ⟨q, a, b, ha, hb, hpos⟩ := eq_join hworld hinterleave seqLen
  rw [countBelow_join hr seqLen ha hb hpos]
  have hround : seqLen / interleave / world = q := by
    rw [Nat.div_div_eq_div_mul, Nat.mul_comm, hpos, round_join ha hb]
  -- What is left behind the whole rounds.
  have hrest : (seqLen : Int) - ((q * interleave : Nat) : Int) * world = a * interleave + b := by
    rw [hpos]
    unfold join
    push_cast
    ring
  unfold dcpLocalSeqLen
  dsimp only
  rw [hround, hrest]
  obtain hlt | rfl | hgt := Nat.lt_trichotomy r a
  · rw [if_pos hlt]
    have hroom : ((r : Int) + 1) * interleave ≤ a * interleave :=
      Int.mul_le_mul_of_nonneg_right (by omega) (by omega)
    rw [Int.add_mul, Int.one_mul] at hroom
    have hclip : min (max ((a : Int) * interleave + b - r * interleave) 0) interleave = interleave := by omega
    rw [hclip]
    push_cast
    rfl
  · rw [if_neg (Nat.lt_irrefl r), if_pos rfl]
    have hclip : min (max ((r : Int) * interleave + b - r * interleave) 0) interleave = b := by omega
    rw [hclip]
    push_cast
    rfl
  · rw [if_neg (by omega), if_neg (by omega)]
    have hroom : ((a : Int) + 1) * interleave ≤ r * interleave :=
      Int.mul_le_mul_of_nonneg_right (by omega) (by omega)
    rw [Int.add_mul, Int.one_mul] at hroom
    have hclip : min (max ((a : Int) * interleave + b - r * interleave) 0) interleave = 0 := by omega
    rw [hclip]
    push_cast
    rfl

/-! ## The stores -/

theorem storeTiles_spec {tile : Nat} (htile : 0 < tile) (start stop : Nat) (value slots : Nat → Int) (off : Nat) :
    storeTiles tile start stop value slots off
      = if start ≤ off ∧ off < stop then value off else slots off := by
  -- Behind some tiles: what they cover is stored.
  have hfold : ∀ (n s : Nat) (slots : Nat → Int), (List.range' s n tile).foldl
      (fun slots i off => if i ≤ off ∧ off < i + tile ∧ off < stop then value off else slots off) slots off
      = if s ≤ off ∧ off < s + n * tile ∧ off < stop then value off else slots off := by
    intro n
    induction n with
    | zero =>
      intro s slots
      rw [if_neg (by omega)]
      rfl
    | succ n ih =>
      intro s slots
      rw [List.range'_succ, List.foldl_cons, ih, Nat.succ_mul]
      split_ifs <;> first | rfl | omega
  unfold storeTiles
  rw [hfold]
  refine if_congr ?_ rfl rfl
  have hcover : stop - start ≤ (stop - start + (tile - 1)) / tile * tile := by
    have hdiv := Nat.div_add_mod (stop - start + (tile - 1)) tile
    have hmod := Nat.mod_lt (stop - start + (tile - 1)) htile
    rw [Nat.mul_comm] at hdiv
    omega
  omega

/-- The bounds of the requests do not decrease. -/
theorem SlotBatch.sorted_le (x : SlotBatch) {i j : Nat} (hij : i ≤ j) (hj : j ≤ x.numReqs) :
    x.queryStartLoc i ≤ x.queryStartLoc j := by
  induction j with
  | zero =>
    rw [Nat.le_zero.mp hij]
  | succ j ih =>
    obtain hlt | heq := Nat.lt_or_eq_of_le hij
    · exact Nat.le_trans (ih (Nat.le_of_lt_succ hlt) (by omega)) (x.sorted j hj)
    · rw [heq]

/-- A token of a request is stored by the program of the request only. -/
theorem computeSlotMapping_spec (t : BlockTable) (c : CpLayout) (rank : c.Rank) (x : SlotBatch)
    (slots : Nat → Int) {i off : Nat} (hi : i < x.numReqs)
    (hoff : x.queryStartLoc i ≤ off ∧ off < x.queryStartLoc (i + 1)) :
    t.computeSlotMapping c rank x slots off
      = slotId c.blockSize c.totalCpWorldSize (c.totalCpRank rank) c.cpKvCacheInterleaveSize
          (t.blockTable i) (x.positions.getD off 0) := by
  have htile : 0 < slotTile := Nat.zero_lt_succ _
  have hown : ∀ slots, computeSlotMappingKernel c rank t x slots i off
      = slotId c.blockSize c.totalCpWorldSize (c.totalCpRank rank) c.cpKvCacheInterleaveSize
          (t.blockTable i) (x.positions.getD off 0) := by
    intro slots
    unfold computeSlotMappingKernel
    rw [if_neg (by omega), storeTiles_spec htile, if_pos hoff]
  have hother : ∀ slots j, j ≤ x.numReqs → j ≠ i → computeSlotMappingKernel c rank t x slots j off = slots off := by
    intro slots j hj hne
    unfold computeSlotMappingKernel
    by_cases hpad : j = x.numReqs
    · have hlast := x.sorted_le (i := i + 1) hi (Nat.le_refl _)
      have hfits := x.fits
      rw [if_pos hpad, storeTiles_spec htile, if_neg (by omega)]
    · rw [if_neg hpad, storeTiles_spec htile, if_neg]
      intro hmem
      obtain hlt | hgt := Nat.lt_or_gt_of_ne hne
      · have hle := x.sorted_le (i := j + 1) (j := i) hlt (by omega)
        omega
      · have hle := x.sorted_le (i := i + 1) (j := j) hgt hj
        omega
  -- The programs before the one of the request, it, and those behind it.
  have hafter : ∀ n, i < n → n ≤ x.numReqs + 1 →
      (List.range n).foldl (computeSlotMappingKernel c rank t x) slots off
        = slotId c.blockSize c.totalCpWorldSize (c.totalCpRank rank) c.cpKvCacheInterleaveSize
            (t.blockTable i) (x.positions.getD off 0) := by
    intro n
    induction n with
    | zero => exact fun hlt => absurd hlt (Nat.not_lt_zero i)
    | succ n ih =>
      intro hlt hle
      rw [List.range_succ, List.foldl_append, List.foldl_cons, List.foldl_nil]
      by_cases heq : n = i
      · rw [heq, hown]
      · rw [hother _ n (by omega) heq]
        exact ih (by omega) (by omega)
  exact hafter (x.numReqs + 1) (by omega) (Nat.le_refl _)

/-! ## The ranks together -/

/-- What a rank stores for a position of a request whose blocks are `row`. -/
def CpLayout.slot (c : CpLayout) (rank : c.Rank) (row : Nat → Nat) (pos : Nat) : Int :=
  slotId c.blockSize c.totalCpWorldSize (c.totalCpRank rank) c.cpKvCacheInterleaveSize row pos

/-- The positions below a bound that a rank has a slot for. -/
def CpLayout.localBelow (c : CpLayout) (rank : c.Rank) (row : Nat → Nat) (n : Nat) : Nat :=
  (List.range n).countP fun pos => decide (c.slot rank row pos ≠ padSlotId)

/-- The slot of the `k`-th key of a rank, in the blocks of a row. -/
def CpLayout.localSlot (c : CpLayout) (row : Nat → Nat) (k : Nat) : Nat :=
  row (k / c.blockSize) * c.blockSize + k % c.blockSize

namespace CpLayout

variable {c : CpLayout}

theorem slot_ne_pad_iff (rank : c.Rank) (row : Nat → Nat) (pos : Nat) :
    c.slot rank row pos ≠ padSlotId
      ↔ Interleave.rank c.totalCpWorldSize c.cpKvCacheInterleaveSize pos = c.totalCpRank rank := by
  unfold slot
  rw [slotId_spec totalCpWorldSize_pos c.blockSize_pos c.interleave_dvd]
  split
  next hrank =>
    refine ⟨fun _ => hrank, fun _ => ?_⟩
    unfold padSlotId
    omega
  next hrank => exact ⟨fun h => absurd rfl h, fun h => absurd h hrank⟩

theorem localBelow_eq (rank : c.Rank) (row : Nat → Nat) (n : Nat) :
    c.localBelow rank row n
      = countBelow c.totalCpWorldSize c.cpKvCacheInterleaveSize (c.totalCpRank rank) n := by
  unfold localBelow countBelow
  refine List.countP_congr fun pos _ => ?_
  rw [decide_eq_true_eq, decide_eq_true_eq]
  exact slot_ne_pad_iff rank row pos

/-- A position of a rank is preceded by as many positions of the rank as its index says. -/
theorem localBelow_position {rank : c.Rank} {row : Nat → Nat} {pos : Nat} (h : c.slot rank row pos ≠ padSlotId) :
    c.localBelow rank row pos = index c.totalCpWorldSize c.cpKvCacheInterleaveSize pos := by
  rw [localBelow_eq, ← (slot_ne_pad_iff rank row pos).mp h]
  exact countBelow_position totalCpWorldSize_pos interleave_pos pos

/-- The slot of a position on its rank. -/
theorem slot_eq {rank : c.Rank} {row : Nat → Nat} {pos : Nat} (h : c.slot rank row pos ≠ padSlotId) :
    c.slot rank row pos = c.localSlot row (c.localBelow rank row pos) := by
  rw [localBelow_position h]
  unfold slot
  rw [slotId_spec totalCpWorldSize_pos c.blockSize_pos c.interleave_dvd,
    if_pos ((slot_ne_pad_iff rank row pos).mp h)]
  rfl

/-- A rank counts its positions in order. -/
theorem localBelow_injective {rank : c.Rank} {row : Nat → Nat} {pos pos' : Nat}
    (h : c.slot rank row pos ≠ padSlotId) (h' : c.slot rank row pos' ≠ padSlotId)
    (heq : c.localBelow rank row pos = c.localBelow rank row pos') : pos = pos' := by
  have hrank := (slot_ne_pad_iff rank row pos).mp h
  have hrank' := (slot_ne_pad_iff rank row pos').mp h'
  rw [localBelow_position h, localBelow_position h'] at heq
  exact eq_of_index_eq totalCpWorldSize_pos interleave_pos (hrank.trans hrank'.symm) heq

theorem exists_unique_slot (row : Nat → Nat) (pos : Nat) : ∃! rank, c.slot rank row pos ≠ padSlotId := by
  have hlt : Interleave.rank c.totalCpWorldSize c.cpKvCacheInterleaveSize pos < c.totalCpWorldSize :=
    rank_lt totalCpWorldSize_pos pos
  obtain ⟨rank, hrank⟩ := exists_rank hlt
  refine ⟨rank, (slot_ne_pad_iff rank row pos).mpr hrank.symm, fun rank' hrank' => ?_⟩
  exact totalCpRank_injective (((slot_ne_pad_iff rank' row pos).mp hrank').symm.trans hrank.symm)

/-- Two slots are one only for one key, where the row has no block twice. -/
theorem localSlot_injective {row : Nat → Nat} {k k' : Nat}
    (hrow : row (k / c.blockSize) = row (k' / c.blockSize) → k / c.blockSize = k' / c.blockSize)
    (h : c.localSlot row k = c.localSlot row k') : k = k' := by
  have hdiv : ∀ k, c.localSlot row k / c.blockSize = row (k / c.blockSize) := by
    intro k
    unfold localSlot
    rw [Nat.add_comm, Nat.add_mul_div_right _ _ c.blockSize_pos, Nat.div_eq_of_lt (Nat.mod_lt k c.blockSize_pos),
      Nat.zero_add]
  have hmod : ∀ k, c.localSlot row k % c.blockSize = k % c.blockSize := by
    intro k
    unfold localSlot
    rw [Nat.add_comm, Nat.add_mul_mod_self_right, Nat.mod_mod]
  have hblock := hrow (by rw [← hdiv k, h, hdiv])
  have hplace : k % c.blockSize = k' % c.blockSize := by rw [← hmod k, h, hmod]
  rw [← Nat.div_add_mod k c.blockSize, hblock, hplace, Nat.div_add_mod]

/-- The keys of a sequence that fits in some blocks are in these blocks. -/
theorem localBelow_lt {rank : c.Rank} {row : Nat → Nat} {pos numBlocks : Nat}
    (h : c.slot rank row pos ≠ padSlotId) (hpos : pos < numBlocks * (c.blockSize * c.totalCpWorldSize)) :
    c.localBelow rank row pos / c.blockSize < numBlocks := by
  obtain ⟨rounds, hrounds⟩ := c.interleave_dvd
  have hblock := index_div_block rounds c.totalCpWorldSize_pos c.interleave_pos pos
  rw [← hrounds] at hblock
  rw [localBelow_position h, hblock]
  exact Nat.div_lt_of_lt_mul (Nat.mul_comm numBlocks _ ▸ hpos)

end CpLayout

/-- A batch and the ranks that compute its slots, each into a buffer of its own. -/
def BlockTable.slotMapping (t : BlockTable) (c : CpLayout) (x : SlotBatch) (buffers : c.Rank → Nat → Int)
    (rank : c.Rank) : Nat → Int :=
  t.computeSlotMapping c rank x (buffers rank)

/-- The slots of the tokens of a request: each token has one, on one rank, which is that of the number of
positions that the rank has before it; the slots are in the blocks of the row, and none is there twice if no
block is; and the local sequence lengths are the numbers of positions that the ranks have. -/
theorem slot_mapping_consistent (t : BlockTable) (c : CpLayout) (x : SlotBatch) (buffers : c.Rank → Nat → Int)
    {i : Nat} (hi : i < x.numReqs) :
    let tokens := Set.Ico (x.queryStartLoc i) (x.queryStartLoc (i + 1))
    let slot := t.slotMapping c x buffers
    let pos := fun off => x.positions.getD off 0
    let before := fun rank n => c.localBelow rank (t.blockTable i) n
    (∀ off ∈ tokens, (∃! rank, slot rank off ≠ padSlotId)
        ∧ ∀ rank, slot rank off ≠ padSlotId →
          slot rank off = c.localSlot (t.blockTable i) (before rank (pos off)))
      ∧ (∀ numBlocks, (∀ off ∈ tokens, pos off < numBlocks * (c.blockSize * c.totalCpWorldSize)) →
        (∀ off ∈ tokens, ∀ rank, slot rank off ≠ padSlotId → before rank (pos off) / c.blockSize < numBlocks)
          ∧ (Set.InjOn (t.blockTable i) (Set.Iio numBlocks) → ∀ off ∈ tokens, ∀ off' ∈ tokens, ∀ rank,
            slot rank off ≠ padSlotId → slot rank off = slot rank off' → pos off = pos off'))
      ∧ ∀ seqLen, (∀ rank, getDcpLocalSeqLens [seqLen] c.totalCpWorldSize (some (c.totalCpRank rank))
            c.cpKvCacheInterleaveSize = [[(before rank seqLen : Int)]])
          ∧ (getDcpLocalSeqLens [seqLen] c.totalCpWorldSize none c.cpKvCacheInterleaveSize).flatten.sum
            = seqLen := by
  intro tokens slot pos before
  have hslot : ∀ rank, ∀ off ∈ tokens, slot rank off = c.slot rank (t.blockTable i) (pos off) :=
    fun rank off hoff => computeSlotMapping_spec t c rank x (buffers rank) hi hoff
  refine ⟨fun off hoff => ⟨?_, fun rank hrank => ?_⟩, fun numBlocks hfits => ⟨fun off hoff rank hrank => ?_,
    fun hinj off hoff off' hoff' rank hrank heq => ?_⟩, fun seqLen => ⟨fun rank => ?_, ?_⟩⟩
  · simp only [hslot _ off hoff]
    exact CpLayout.exists_unique_slot (t.blockTable i) (pos off)
  · rw [hslot rank off hoff] at hrank ⊢
    exact CpLayout.slot_eq hrank
  · rw [hslot rank off hoff] at hrank
    exact CpLayout.localBelow_lt hrank (hfits off hoff)
  · have hrank' : slot rank off' ≠ padSlotId := heq ▸ hrank
    rw [hslot rank off hoff] at hrank heq
    rw [hslot rank off' hoff'] at hrank' heq
    rw [CpLayout.slot_eq hrank, CpLayout.slot_eq hrank'] at heq
    have hblock := CpLayout.localBelow_lt hrank (hfits off hoff)
    have hblock' := CpLayout.localBelow_lt hrank' (hfits off' hoff')
    exact CpLayout.localBelow_injective hrank hrank'
      (CpLayout.localSlot_injective (fun hrow => hinj hblock hblock' hrow) (Int.ofNat.inj heq))
  · have hcount := dcpLocalSeqLen_eq (c.interleave_pos) (c.totalCpRank_lt rank) seqLen
    rw [← CpLayout.localBelow_eq rank (t.blockTable i)] at hcount
    show [[dcpLocalSeqLen _ _ seqLen (c.totalCpRank rank)]] = _
    rw [hcount]
  · have hrow : getDcpLocalSeqLens [seqLen] c.totalCpWorldSize none c.cpKvCacheInterleaveSize
        = [(List.range c.totalCpWorldSize).map fun r =>
            (countBelow c.totalCpWorldSize c.cpKvCacheInterleaveSize r seqLen : Int)] := by
      show [(List.range c.totalCpWorldSize).map _] = _
      congr 1
      exact List.map_congr_left fun r hr => dcpLocalSeqLen_eq c.interleave_pos (List.mem_range.mp hr) seqLen
    rw [hrow, List.flatten_singleton]
    show ∑ r ∈ Finset.range c.totalCpWorldSize,
      (countBelow c.totalCpWorldSize c.cpKvCacheInterleaveSize r seqLen : Int) = seqLen
    rw [← Nat.cast_sum, sum_countBelow c.totalCpWorldSize_pos]

/-- Two ranks, the positions dealt singly to blocks of two: the fourth token is the second one of its rank. -/
theorem two_ranks_consistent :
    let c : CpLayout := ⟨2, 1, 2, 1, by decide, by decide, by decide, one_dvd 2⟩
    let t : BlockTable := ⟨1, 1, fun _ _ => 7, fun _ => 1⟩
    let x : SlotBatch := ⟨1, fun i => 4 * i, [0, 1, 2, 3], 4, by decide, by decide⟩
    t.slotMapping c x (fun _ _ => 0) (0, 1) 3 = 15 := by
  intro c t x
  have h := slot_mapping_consistent t c x (fun _ _ => 0) (i := 0) (by decide)
  exact ((h.1 3 ⟨by decide, by decide⟩).2 (0, 1) (by decide)).trans (by decide)

/-- A slot depends on the block of the position and on the place in it. -/
theorem CpLayout.slot_congr (c : CpLayout) (rank : c.Rank) (row : Nat → Nat) (pos : Nat) :
    c.slot rank row pos = c.slot rank (fun _ => row (pos / (c.blockSize * c.totalCpWorldSize)))
      (pos % (c.blockSize * c.totalCpWorldSize)) := by
  have hpos := Nat.mul_pos c.blockSize_pos c.totalCpWorldSize_pos
  unfold slot slotId
  simp only [Nat.div_eq_of_lt (Nat.mod_lt pos hpos), Nat.zero_mul, Nat.sub_zero]
  rw [← Nat.mod_eq_sub_div_mul]

/-- **Slots are shared in one way only.** Two tokens of a batch, of one request or of two, have the same slot
on a rank if and only if they are at the same place of the same block. -/
theorem slotMapping_eq_iff (t : BlockTable) (c : CpLayout) (x : SlotBatch) (buffers : c.Rank → Nat → Int)
    {i j off off' : Nat} (hi : i < x.numReqs) (hj : j < x.numReqs)
    (hoff : off ∈ Set.Ico (x.queryStartLoc i) (x.queryStartLoc (i + 1)))
    (hoff' : off' ∈ Set.Ico (x.queryStartLoc j) (x.queryStartLoc (j + 1))) {rank : c.Rank}
    (hlocal : t.slotMapping c x buffers rank off ≠ padSlotId) :
    let pos := fun off => x.positions.getD off 0
    let size := c.blockSize * c.totalCpWorldSize
    t.slotMapping c x buffers rank off = t.slotMapping c x buffers rank off' ↔
      t.blockTable i (pos off / size) = t.blockTable j (pos off' / size) ∧ pos off % size = pos off' % size := by
  intro pos size
  have hsize : 0 < size := Nat.mul_pos c.blockSize_pos c.totalCpWorldSize_pos
  have hslot : t.slotMapping c x buffers rank off = _ :=
    (computeSlotMapping_spec t c rank x (buffers rank) hi hoff).trans (c.slot_congr rank _ _)
  have hslot' : t.slotMapping c x buffers rank off' = _ :=
    (computeSlotMapping_spec t c rank x (buffers rank) hj hoff').trans (c.slot_congr rank _ _)
  rw [hslot] at hlocal ⊢
  rw [hslot']
  refine ⟨fun heq => ?_, fun ⟨hblock, hplace⟩ => by rw [hblock, hplace]⟩
  have hlocal' := heq ▸ hlocal
  have hfirst : ∀ {row : Nat → Nat} {pos : Nat}, c.slot rank row (pos % size) ≠ padSlotId →
      c.localBelow rank row (pos % size) / c.blockSize = 0 := by
    intro row pos h
    exact Nat.lt_one_iff.mp (CpLayout.localBelow_lt h (by
      rw [Nat.one_mul]
      exact Nat.mod_lt _ hsize))
  rw [CpLayout.slot_eq hlocal, CpLayout.slot_eq hlocal', Int.ofNat_inj] at heq
  have hblock := congrArg (· / c.blockSize) heq
  simp only [CpLayout.localSlot, Nat.mul_comm _ c.blockSize, Nat.mul_add_div c.blockSize_pos,
    Nat.div_eq_of_lt (Nat.mod_lt _ c.blockSize_pos), Nat.add_zero] at hblock
  refine ⟨hblock, ?_⟩
  rw [hblock] at heq hlocal
  exact CpLayout.localBelow_injective hlocal hlocal' (CpLayout.localSlot_injective
    (fun _ => (hfirst hlocal).trans (hfirst hlocal').symm) heq)

/-- Two requests whose rows share their first block. -/
theorem shared_block_slots :
    let c : CpLayout := ⟨2, 1, 2, 1, by decide, by decide, by decide, one_dvd 2⟩
    let t : BlockTable := ⟨2, 1, fun i b => if b = 0 then 7 else i, fun _ => 2⟩
    let x : SlotBatch := ⟨2, fun i => i, [5, 3], 2, by decide, by decide⟩
    t.slotMapping c x (fun _ _ => 0) (0, 1) 0 ≠ t.slotMapping c x (fun _ _ => 0) (0, 1) 1 := by
  intro c t x h
  exact absurd ((slotMapping_eq_iff t c x (fun _ _ => 0) (i := 0) (j := 1) (by decide) (by decide)
    ⟨by decide, by decide⟩ ⟨by decide, by decide⟩ (by decide)).mp h).1 (by decide)

end VllmEngine
