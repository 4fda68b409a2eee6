import VllmEngine.Attention.Metadata

/-!
# Local attention as virtual batches

`make_local_attention_virtual_batches` (`vllm/v1/attention/backends/utils.py`): attention inside
chunks of the sequence, made from causal attention by giving every chunk of every request a row of
its own.

Mirroring notes:
- Arrays are lists of integers; counts of rows and places in them are natural numbers, since none of
  their differences is negative.
- `np.cumsum(a, out=b[1:])` over an array that begins with a zero is a scan.
- Both sizes are positive where the theorem is; `//` and `%` by zero give what `Int.fdiv` and
  `Int.fmod` give until the assertion divides by zero.

> `localBatches_cover`: every token of a query is in one virtual row, in the order of the batch, and
> has there the keys of its chunk up to its own.
-/

namespace VllmEngine.Attention

open Numpy

/-- `np.repeat` refuses a negative count. -/
def repeatCounts (counts : List Int) : Except Python.Error (List Nat) :=
  if counts.any (· < 0) then .error (.value "repeats may not contain negative values.")
  else .ok (counts.map Int.toNat)

/-- `a.max()`, of an array. -/
def npMax (a : List Int) : Except Python.Error Int :=
  match a with
  | [] => .error (.value "zero-size array to reduction operation maximum which has no identity")
  | x :: a => .ok (a.foldl max x)

/-- `block_table[rows, columns].view(virtual_batches, -1)`. -/
def gatherBlocks (rows : List Nat) (columns : List Int) (virtualBatches : Nat) (blockTable : List
    (List Nat)) :
    Except Python.Error (List (List Nat)) := do
  let blocks ← (rows.zip columns).mapM fun e => do
    let row ← Python.getItem blockTable e.1
    Python.getItem row e.2
  return reshapeRows virtualBatches blocks

def makeLocalAttentionVirtualBatches (attnChunkSize : Nat) (m : CommonAttentionMetadata)
    (blockSize : Nat) :
    Except Python.Error (CommonAttentionMetadata × (List (List Nat) →
      Except Python.Error (List (List Nat)))) := do
  let chunk : Int := attnChunkSize
  let seqLensNp := m.seqLensCpu
  let qSeqlens := (m.queryStartLocCpu.drop 1).zipWith (· - ·) m.queryStartLocCpu.dropLast
  let actualBatchSize := seqLensNp.length
  let qTokensInFirstBlock := ((seqLensNp.zipWith
    (· - ·) qSeqlens).map fun n => chunk - n.fmod chunk).zipWith min qSeqlens
  let tokensInLastBlock := seqLensNp.map fun n => chunk + n.fmod (-chunk)
  let localBlocks ← repeatCounts
    ((qSeqlens.zipWith (· - ·) qTokensInFirstBlock).map fun n => 1 + Python.cdiv n chunk)
  let cuNumBlocks := cumsum localBlocks
  let virtualBatches ← Python.getItem cuNumBlocks (-1)
  let blockOffsets := repeatEach (cuNumBlocks.zipWith (· - ·) localBlocks) localBlocks
  let arange := (arange virtualBatches).zipWith (· - ·) blockOffsets
  let rarange := ((repeatEach localBlocks localBlocks).zipWith (· - ·) arange).map (· - 1)
  let seqlensQLocal := repeatEach (qSeqlens.zipWith (· - ·) qTokensInFirstBlock) localBlocks
  let seqlensQLocal := maskAssign seqlensQLocal (arange.map (· == 0)) qTokensInFirstBlock
  let seqlensQLocal := maskAssign seqlensQLocal (arange.map (decide <| 0 < ·)) (compress
    (arange.map (decide <| 0 < ·))
    (seqlensQLocal.zipWith (fun (n : Int) (j : Nat) => min (n - chunk *
      ((j : Int) - 1)) chunk) arange))
  let cuSeqlensQLocal := seqlensQLocal.scanl (· + ·) 0
  let seqlensKLocal := indexAssign (List.replicate virtualBatches chunk) (cuNumBlocks.map
    (· - 1)) tokensInLastBlock
  let numComputedTokensLocal := seqlensKLocal.zipWith (· - ·) seqlensQLocal
  let kSeqstartsAbsolute := (repeatEach seqLensNp localBlocks).zipWith (· - ·)
    (rarange.zipWith (fun (j : Nat) (n : Int) => (j : Int) * chunk + n)
      (repeatEach tokensInLastBlock localBlocks))
  let blockStarts := kSeqstartsAbsolute.map fun n => n.fdiv blockSize
  let rest ← if blockSize = 0 then .error (.zeroDivision "integer modulo by zero")
    else .ok (attnChunkSize % blockSize)
  Python.require (rest == 0)
    s!"attn_chunk_size {attnChunkSize} is not divisible by block_size {blockSize}"
  let pagesPerLocalBatch := attnChunkSize / blockSize
  let width : Int := (m.blockTableTensor.headD []).length
  let blockIndices := (blockStarts.flatMap fun start =>
    (List.range pagesPerLocalBatch).map fun p : Nat => start + (p : Int)).map (min · (width - 1))
  let batchIndices := repeatEach (List.range actualBatchSize) (localBlocks.map
    (· * pagesPerLocalBatch))
  let makeBlockTable := gatherBlocks batchIndices blockIndices virtualBatches
  let blockTableLocal ← makeBlockTable m.blockTableTensor
  let maxSeqLen ← tensorMax seqlensKLocal
  let maxQueryLen ← npMax seqlensQLocal
  return ({
    queryStartLocCpu := cuSeqlensQLocal
    queryStartLoc := cuSeqlensQLocal
    seqLens := seqlensKLocal
    numReqs := seqlensKLocal.length
    numActualTokens := m.numActualTokens
    maxQueryLen
    maxSeqLen
    blockTableTensor := blockTableLocal
    slotMapping := m.slotMapping
    causal := true
    seqLensCpu := seqlensKLocal
    numComputedTokensCpu := numComputedTokensLocal }, makeBlockTable)

/-! ## The chunks of a request -/

namespace AttnRequest

variable (chunk : Nat) (r : AttnRequest)

/-- The position of the first token of the query. -/
def computed : Nat := r.seqLen - r.queryLen

/-- The chunk of the first token of the query. -/
def firstChunk : Nat := r.computed / chunk

/-- The chunks that the query has tokens in. -/
def numChunks : Nat := (r.seqLen - 1) / chunk - r.firstChunk chunk + 1

/-- Where the `j`th of these chunks begins. -/
def chunkStart (j : Nat) : Nat := (r.firstChunk chunk + j) * chunk

/-- Where the tokens of the query in the `j`th chunk begin. -/
def cut (j : Nat) : Nat := Intervals.clamp r.computed r.seqLen (r.chunkStart chunk j)

end AttnRequest

section Chunks

variable {chunk : Nat} {r : AttnRequest}

theorem chunkStart_zero_le (chunk : Nat) (r : AttnRequest) : r.chunkStart chunk 0 ≤ r.computed :=
  Nat.div_mul_le_self _ _

theorem chunkStart_succ (chunk : Nat) (r : AttnRequest) (j : Nat) :
    r.chunkStart chunk (j + 1) = r.chunkStart chunk j + chunk := Nat.succ_mul _ _

theorem chunkStart_mono (chunk : Nat) (r : AttnRequest) {i j : Nat} (h : i ≤ j) :
    r.chunkStart chunk i ≤ r.chunkStart chunk j := Nat.mul_le_mul_right _ (Nat.add_le_add_left h _)

theorem computed_lt_chunkStart_one (hc : 0 < chunk)
    (r : AttnRequest) : r.computed < r.chunkStart chunk 1 := by
  unfold AttnRequest.chunkStart AttnRequest.firstChunk
  rw [Nat.mul_comm]
  exact Nat.lt_mul_div_succ _ hc

/-- The last chunk has the last token. -/
theorem chunkStart_numChunks (hc : 0 < chunk) (r : AttnRequest) :
    r.chunkStart chunk (r.numChunks chunk - 1) < r.seqLen ∧
      r.seqLen ≤ r.chunkStart chunk (r.numChunks chunk) := by
  have hpos := r.queryLen_pos
  have hle := r.queryLen_le
  have hfirst : r.firstChunk chunk ≤ (r.seqLen - 1) / chunk := by
    apply Nat.div_le_div_right
    unfold AttnRequest.computed
    omega
  have hlast : r.firstChunk chunk + (r.numChunks chunk - 1) = (r.seqLen - 1) / chunk := by
    unfold AttnRequest.numChunks
    omega
  have hend : r.firstChunk chunk + r.numChunks chunk = (r.seqLen - 1) / chunk + 1 := by
    unfold AttnRequest.numChunks
    omega
  have hbelow := Nat.div_mul_le_self (r.seqLen - 1) chunk
  have habove := Nat.lt_mul_div_succ (r.seqLen - 1) hc
  unfold AttnRequest.chunkStart
  rw [hlast, hend, Nat.mul_comm ((r.seqLen - 1) / chunk + 1)]
  omega

theorem numChunks_pos (chunk : Nat) (r : AttnRequest) : 0 < r.numChunks chunk := Nat.succ_pos _

/-- `q_tokens_in_first_block`: the tokens before the second chunk. -/
theorem qTokensInFirstBlock_eq (hc : 0 < chunk) (r : AttnRequest) :
    min ((chunk : Int) - ((r.seqLen : Int) - r.queryLen).fmod chunk) r.queryLen
      = ((r.cut chunk 1 - r.cut chunk 0 : Nat) : Int) := by
  have hle := r.queryLen_le
  have hmod : ((r.seqLen : Int) - r.queryLen).fmod chunk = ((r.computed % chunk : Nat) : Int) := by
    rw [Int.fmod_eq_emod_of_nonneg _ (Int.natCast_nonneg chunk), ← Int.ofNat_sub hle]
    rfl
  have hdiv := Nat.div_add_mod' r.computed chunk
  have hlt := Nat.mod_lt r.computed hc
  have hstart : r.chunkStart chunk 0 = r.computed / chunk * chunk := rfl
  have hnext : r.chunkStart chunk 1 = r.chunkStart chunk 0 + chunk := chunkStart_succ chunk r 0
  have hseq : r.computed + r.queryLen = r.seqLen := Nat.sub_add_cancel hle
  rw [hmod]
  unfold AttnRequest.cut Intervals.clamp
  omega

/-- A ceiling, from both sides. -/
theorem cdiv_eq {a b n : Int} (hb : 0 < b) (hlt : n * b - b < a)
    (hle : a ≤ n * b) : Python.cdiv a b = n := by
  have hupper := (Python.cdiv_le_iff hb).mpr hle
  have hlower : n - 1 < Python.cdiv a b := by
    apply (Python.lt_cdiv_iff hb).mpr
    rw [Int.sub_mul, Int.one_mul]
    exact hlt
  omega

/-- `tokens_in_last_block`. -/
theorem tokensInLastBlock_eq (hc : 0 < chunk) (r : AttnRequest) :
    (chunk : Int) + (r.seqLen : Int).fmod (-chunk)
      = ((r.seqLen - r.chunkStart chunk (r.numChunks chunk - 1) : Nat) : Int) := by
  obtain ⟨hlast, hend⟩ := chunkStart_numChunks hc r
  have hsucc : r.chunkStart chunk (r.numChunks chunk) = r.chunkStart chunk
    (r.numChunks chunk - 1) + chunk := by
    have h := chunkStart_succ chunk r (r.numChunks chunk - 1)
    rw [Nat.sub_add_cancel (numChunks_pos chunk r)] at h
    exact h
  have hcdiv : Python.cdiv r.seqLen chunk = (r.firstChunk chunk + r.numChunks chunk : Nat) := by
    have hmul : ((r.firstChunk chunk + r.numChunks chunk : Nat) : Int) * chunk
        = (r.chunkStart chunk (r.numChunks chunk) : Nat) := (Int.natCast_mul _ _).symm
    apply cdiv_eq (by omega)
    · rw [hmul]
      omega
    · rw [hmul]
      omega
  have hmod : (r.seqLen : Int).fmod (-chunk) = r.seqLen - Python.cdiv r.seqLen chunk * chunk := by
    rw [Int.fmod_def, Python.cdiv, Int.neg_mul, Int.neg_mul, Int.mul_comm]
  have hmul : ((r.firstChunk chunk + r.numChunks chunk : Nat) : Int) * chunk
      = (r.chunkStart chunk (r.numChunks chunk) : Nat) := (Int.natCast_mul _ _).symm
  rw [hmod, hcdiv, hmul]
  omega

/-- `local_blocks`. -/
theorem localBlocks_eq (hc : 0 < chunk) (r : AttnRequest) :
    1 + Python.cdiv ((r.queryLen : Int) - (r.cut chunk 1 - r.cut chunk 0 : Nat)) chunk
      = r.numChunks chunk := by
  obtain ⟨hlast, hend⟩ := chunkStart_numChunks hc r
  have hpos := numChunks_pos chunk r
  have hle := r.queryLen_le
  have hone := computed_lt_chunkStart_one hc r
  have hzero := chunkStart_zero_le chunk r
  have hsucc : r.chunkStart chunk (r.numChunks chunk) = r.chunkStart chunk
    (r.numChunks chunk - 1) + chunk := by
    have h := chunkStart_succ chunk r (r.numChunks chunk - 1)
    rw [Nat.sub_add_cancel hpos] at h
    exact h
  have hspan : r.chunkStart chunk (r.numChunks chunk) = r.chunkStart chunk 1 +
    (r.numChunks chunk - 1) * chunk := by
    unfold AttnRequest.chunkStart
    rw [← Nat.add_mul]
    congr 1
    omega
  have hmul : ((r.numChunks chunk - 1 : Nat) : Int) * chunk =
    (((r.numChunks chunk - 1) * chunk : Nat) : Int) :=
    (Int.natCast_mul _ _).symm
  have hseq : r.computed + r.queryLen = r.seqLen := Nat.sub_add_cancel hle
  have hmono : 1 < r.numChunks chunk → r.chunkStart chunk 1 ≤ r.chunkStart chunk
    (r.numChunks chunk - 1) :=
    fun h => chunkStart_mono chunk r (by omega)
  have hcdiv : Python.cdiv ((r.queryLen : Int) - (r.cut chunk 1 - r.cut chunk 0 : Nat)) chunk
      = (r.numChunks chunk - 1 : Nat) := by
    apply cdiv_eq (by omega)
    · rw [hmul]
      unfold AttnRequest.cut Intervals.clamp
      omega
    · rw [hmul]
      unfold AttnRequest.cut Intervals.clamp
      omega
  rw [hcdiv]
  omega

/-- `seqlens_q_local` behind the first chunk. -/
theorem seqlensQLocal_eq (hc : 0 < chunk) (r : AttnRequest) {j : Nat} (hj : 0 < j)
    (hlt : j < r.numChunks chunk) :
    min ((r.queryLen : Int) - (r.cut chunk 1 - r.cut chunk 0 : Nat) - chunk * ((j : Int) - 1)) chunk
      = ((r.cut chunk (j + 1) - r.cut chunk j : Nat) : Int) := by
  have hlast := (chunkStart_numChunks hc r).1
  have hone := computed_lt_chunkStart_one hc r
  have hzero := chunkStart_zero_le chunk r
  have hseq : r.computed + r.queryLen = r.seqLen := Nat.sub_add_cancel r.queryLen_le
  have hfirst := chunkStart_mono chunk r hj
  have hbelow : r.chunkStart chunk j ≤ r.chunkStart chunk (r.numChunks chunk - 1) :=
    chunkStart_mono chunk r (by omega)
  have hsucc := chunkStart_succ chunk r j
  have hspan : r.chunkStart chunk j = r.chunkStart chunk 1 + chunk * (j - 1) := by
    unfold AttnRequest.chunkStart
    rw [Nat.mul_comm chunk, ← Nat.add_mul]
    congr 1
    omega
  have hmul : (chunk : Int) * ((j : Int) - 1) = ((chunk * (j - 1) : Nat) : Int) := by
    rw [Int.natCast_mul, Int.ofNat_sub hj]
    rfl
  rw [hmul]
  unfold AttnRequest.cut Intervals.clamp
  omega

/-- `seqlens_k_local`. -/
theorem seqlensKLocal_eq (hc : 0 < chunk) (t : (AttnRequest × Nat) × Nat)
    (hlt : t.2 < t.1.1.numChunks chunk) :
    (if t.2 + 1 = t.1.1.numChunks chunk then
      ((t.1.1.seqLen - t.1.1.chunkStart chunk (t.1.1.numChunks chunk - 1) : Nat) : Int) else
        (chunk : Int))
      = (min chunk (t.1.1.seqLen - t.1.1.chunkStart chunk t.2) : Nat) := by
  obtain ⟨hlast, hend⟩ := chunkStart_numChunks hc t.1.1
  have hsucc := chunkStart_succ chunk t.1.1 t.2
  by_cases h : t.2 + 1 = t.1.1.numChunks chunk
  · have hindex : t.1.1.numChunks chunk - 1 = t.2 := by omega
    rw [if_pos h, hindex]
    rw [← h, hsucc] at hend
    omega
  · have hbelow : t.1.1.chunkStart chunk (t.2 + 1)
        ≤ t.1.1.chunkStart chunk (t.1.1.numChunks chunk - 1) := chunkStart_mono chunk t.1.1 (by omega)
    rw [if_neg h]
    omega

/-- `k_seqstarts_absolute`. -/
theorem kSeqstartsAbsolute_eq (hc : 0 < chunk) (r : AttnRequest) {j : Nat}
    (hlt : j < r.numChunks chunk) :
    (r.seqLen : Int) - (((r.numChunks chunk - j - 1 : Nat) : Int) * chunk
        + ((r.seqLen - r.chunkStart chunk (r.numChunks chunk - 1) : Nat) : Int))
          = r.chunkStart chunk j := by
  have hlast := (chunkStart_numChunks hc r).1
  have hspan : r.chunkStart chunk (r.numChunks chunk - 1)
      = r.chunkStart chunk j + (r.numChunks chunk - j - 1) * chunk := by
    unfold AttnRequest.chunkStart
    rw [← Nat.add_mul]
    congr 1
    omega
  have hmul : ((r.numChunks chunk - j - 1 : Nat) : Int) * chunk =
    (((r.numChunks chunk - j - 1) * chunk : Nat) : Int) :=
    (Int.natCast_mul _ _).symm
  rw [hmul]
  omega

end Chunks

/-! ## The virtual rows -/

section Rows

variable (chunk blockSize width : Nat)

/-- The rows: the chunks of each request, which comes with its place in the batch. -/
def localRows (rs : List AttnRequest) : List ((AttnRequest × Nat) × Nat) :=
  parts (fun x => x.1.numChunks chunk) rs.zipIdx

/-- The tokens of a row. -/
def rowQueryLen (t : (AttnRequest × Nat) × Nat) : Nat :=
    t.1.1.cut chunk (t.2 + 1) - t.1.1.cut chunk t.2

/-- The keys of a row. -/
def rowKeyLen (t : (AttnRequest × Nat) × Nat) : Nat :=
    min chunk (t.1.1.seqLen - t.1.1.chunkStart chunk t.2)

/-- The blocks of a row. -/
def rowBlocks (t : (AttnRequest × Nat) × Nat) : List Nat :=
  (List.range (chunk / blockSize)).map fun p =>
    t.1.1.blocks.getD (min (t.1.1.chunkStart chunk t.2 / blockSize + p) (width - 1)) 0

end Rows

/-- Differences of cumulated counts. -/
theorem diff_cumsumFrom (counts : List Nat) : ∀ start : Nat,
    ((cumsumFrom start counts).map Nat.cast : List Int).zipWith (· - ·)
      ((start :: cumsumFrom start counts).map Nat.cast : List Int).dropLast =
        (counts.map Nat.cast : List Int) := by
  induction counts with
  | nil => exact fun _ => rfl
  | cons n counts ih =>
    intro start
    show (((start + n : Nat) : Int) - (start : Int)) :: ((cumsumFrom
      (start + n) counts).map Nat.cast : List Int).zipWith
      (· - ·) (((start + n) :: cumsumFrom (start + n) counts).map Nat.cast : List Int).dropLast = _
    rw [ih (start + n), List.map_cons]
    congr 1
    omega

theorem scanl_cast (counts : List Nat) : ∀ start : Nat,
    (counts.map Nat.cast).scanl (fun (a b : Int) => a + b) (start : Int)
      = (start :: cumsumFrom start counts).map Nat.cast := by
  induction counts with
  | nil => exact fun _ => rfl
  | cons n counts ih =>
    intro start
    rw [List.map_cons, List.scanl_cons, ← Int.natCast_add, ih (start + n)]
    rfl

theorem getItem_cumsum_last {counts : List Nat} (h : counts ≠ []) :
    Python.getItem (cumsum counts) (-1) = .ok counts.sum := by
  have hpos : 0 < counts.length := List.length_pos_iff.mpr h
  have hlast := @getD_cons_cumsum counts counts.length (Nat.le_refl _)
  rw [List.take_length] at hlast
  have hget : (cumsum counts)[counts.length - 1]? = some counts.sum := by
    have hlt : counts.length - 1 < (cumsum counts).length := by
      rw [length_cumsum]
      omega
    rw [List.getElem?_eq_getElem hlt, ← List.getD_eq_getElem _ 0 hlt, ← hlast]
    obtain ⟨k, hk⟩ : ∃ k, counts.length = k + 1 := ⟨counts.length - 1, by omega⟩
    rw [hk, Nat.add_sub_cancel]
    rfl
  unfold Python.getItem
  have hindex : (((cumsum counts).length : Int) + -1).toNat = counts.length - 1 := by
    rw [length_cumsum]
    omega
  rw [if_pos (by omega), if_pos (by rw [length_cumsum]; omega), hindex, hget]

theorem npMax_ok {a : List Int} (h : a ≠ []) : ∃ x, npMax a = .ok x := by
  cases a with
  | nil => exact absurd rfl h
  | cons x a => exact ⟨_, rfl⟩

theorem repeatCounts_eq {counts : List Int} {ns : List Nat} (h : counts = ns.map Nat.cast) :
    repeatCounts counts = .ok ns := by
  unfold repeatCounts
  rw [h, if_neg, List.map_map]
  · exact congrArg _ (List.map_id _)
  · rw [List.any_map, List.any_eq_true]
    rintro ⟨n, -, hn⟩
    have hlt : (n : Int) < 0 := of_decide_eq_true hn
    omega

section Result

variable {chunk blockSize width : Nat} {rs : List AttnRequest} {m : CommonAttentionMetadata}

theorem numChunks_pos_of_mem (chunk : Nat) (rs : List AttnRequest) : ∀ x ∈ rs.zipIdx,
    0 < x.1.numChunks chunk :=
  fun x _ => numChunks_pos chunk x.1

theorem map_zipIdx {α : Type} (f : AttnRequest → α) (rs : List AttnRequest) :
    rs.map f = rs.zipIdx.map fun x => f x.1 := by
  have h := congrArg (List.map f) (List.zipIdx_map_fst 0 rs)
  rw [List.map_map] at h
  exact h.symm

theorem localRows_mem {t : (AttnRequest × Nat) × Nat} (h : t ∈ localRows chunk rs) :
    rs[t.1.2]? = some t.1.1 ∧ t.2 < t.1.1.numChunks chunk := by
  obtain ⟨hreq, hlt⟩ := mem_parts.mp h
  exact ⟨List.mem_zipIdx_iff_getElem?.mp hreq, hlt⟩

/-- `make_block_table`, on a table as wide as the batch's. -/
theorem gatherBlocks_eq (hwidth : 0 < width) (hw : ∀ r ∈ rs, r.blocks.length = width) :
    gatherBlocks
      (repeatEach (List.range rs.length)
        ((rs.zipIdx.map fun x => x.1.numChunks chunk).map (· * (chunk / blockSize))))
      ((((localRows chunk rs).map fun t => ((t.1.1.chunkStart chunk t.2 / blockSize : Nat) :
        Int)).flatMap fun start =>
        (List.range (chunk / blockSize)).map fun p : Nat => start + (p : Int)).map (min ·
          ((width : Int) - 1)))
      (localRows chunk rs).length (rs.map AttnRequest.blocks)
      = .ok ((localRows chunk rs).map (rowBlocks chunk blockSize width)) := by
  have hplaces : List.range rs.length = rs.zipIdx.map Prod.snd := by
    rw [List.zipIdx_map_snd, List.range_eq_range']
  have hcolumns : (((localRows chunk rs).map fun t =>
    ((t.1.1.chunkStart chunk t.2 / blockSize : Nat) : Int)).flatMap
        fun start => (List.range (chunk / blockSize)).map fun p : Nat => start + (p : Int)).map
          (min · ((width : Int) - 1))
      = (localRows chunk rs).flatMap fun t => (List.range (chunk / blockSize)).map fun p =>
          ((min (t.1.1.chunkStart chunk t.2 / blockSize + p) (width - 1) : Nat) : Int) := by
    rw [List.flatMap_map, List.map_flatMap]
    refine List.flatMap_congr fun t _ => ?_
    rw [List.map_map]
    refine List.map_congr_left fun p _ => ?_
    show min (((t.1.1.chunkStart chunk t.2 / blockSize : Nat) : Int) + (p : Int))
      ((width : Int) - 1) = _
    omega
  have hrows : repeatEach (rs.zipIdx.map Prod.snd)
        ((rs.zipIdx.map fun x => x.1.numChunks chunk).map (· * (chunk / blockSize)))
      = (localRows chunk rs).flatMap fun t => (List.range
        (chunk / blockSize)).map fun _ => t.1.2 := by
    rw [repeatEach_mul_parts]
    refine List.flatMap_congr fun t _ => ?_
    rw [List.map_const', List.length_range]
  have hzip := @zip_flatMap _ _ _
    (fun t => (List.range (chunk / blockSize)).map fun _ => t.1.2)
    (fun t => (List.range (chunk / blockSize)).map fun p =>
      ((min (t.1.1.chunkStart chunk t.2 / blockSize + p) (width - 1) : Nat) : Int)) (localRows chunk rs)
    fun t _ => by rw [List.length_map, List.length_map]
  have hget : ∀ e ∈ (localRows chunk rs).flatMap (fun t =>
      ((List.range (chunk / blockSize)).map fun _ => t.1.2).zip
      ((List.range (chunk / blockSize)).map fun p =>
        ((min (t.1.1.chunkStart chunk t.2 / blockSize + p) (width - 1) : Nat) : Int))),
      (do let row ← Python.getItem (rs.map AttnRequest.blocks) e.1
          Python.getItem row e.2) = .ok (((rs.map AttnRequest.blocks).getD e.1 []).getD e.2.toNat
            0) := by
    intro e he
    obtain ⟨t, ht, he⟩ := List.mem_flatMap.mp he
    obtain ⟨hreq, -⟩ := localRows_mem ht
    rw [List.zip_map', List.mem_map] at he
    obtain ⟨p, -, rfl⟩ := he
    have hrow : (rs.map AttnRequest.blocks)[t.1.2]? = some t.1.1.blocks := by
      rw [List.getElem?_map, hreq]
      rfl
    have hblock : t.1.1.blocks[min (t.1.1.chunkStart chunk t.2 / blockSize + p) (width - 1)]?
        = some (t.1.1.blocks.getD (min (t.1.1.chunkStart chunk t.2 / blockSize + p)
          (width - 1)) 0) := by
      have hlt : min (t.1.1.chunkStart chunk t.2 / blockSize + p)
        (width - 1) < t.1.1.blocks.length := by
        rw [hw _ (List.mem_of_getElem? hreq)]
        omega
      rw [List.getElem?_eq_getElem hlt, List.getD_eq_getElem _ _ hlt]
    show (Python.getItem (rs.map AttnRequest.blocks) (t.1.2 : Int) >>= fun row => Python.getItem row
      ((min (t.1.1.chunkStart chunk t.2 / blockSize + p) (width - 1) : Nat) : Int)) = _
    rw [Python.getItem_natCast hrow, Raises.ok_bind, Python.getItem_natCast hblock]
    show _ = Except.ok (((rs.map AttnRequest.blocks).getD t.1.2 []).getD _ 0)
    rw [List.getD_eq_getElem?_getD (l := rs.map _), hrow]
    rfl
  have hlength : ∀ t ∈ localRows chunk rs,
    (rowBlocks chunk blockSize width t).length = chunk / blockSize := by
    intro t _
    unfold rowBlocks
    rw [List.length_map, List.length_range]
  have hvalues : ((localRows chunk rs).flatMap fun t => ((List.range
    (chunk / blockSize)).map fun _ => t.1.2).zip
      ((List.range (chunk / blockSize)).map fun p =>
        ((min (t.1.1.chunkStart chunk t.2 / blockSize + p) (width - 1) : Nat) : Int))).map
        (fun e => ((rs.map AttnRequest.blocks).getD e.1 []).getD e.2.toNat 0)
      = (localRows chunk rs).flatMap (rowBlocks chunk blockSize width) := by
    rw [List.map_flatMap]
    refine List.flatMap_congr fun t ht => ?_
    obtain ⟨hreq, -⟩ := localRows_mem ht
    rw [List.zip_map', List.map_map]
    refine List.map_congr_left fun p _ => ?_
    show ((rs.map AttnRequest.blocks).getD t.1.2 []).getD _ 0 = _
    rw [List.getD_eq_getElem?_getD (l := rs.map _), List.getElem?_map, hreq]
    rfl
  unfold gatherBlocks
  rw [hcolumns, hplaces, hrows, hzip, Raises.mapM_eq_map hget, Raises.ok_bind, hvalues,
    ← reshapeRows_flatMap hlength]
  rfl

/-- The rows that the function makes. -/
structure LocalRowsOf (chunk blockSize width : Nat) (rs : List AttnRequest)
    (m' : CommonAttentionMetadata) : Prop where
  numReqs : m'.numReqs = (localRows chunk rs).length
  queryStartLoc : m'.queryStartLoc = (0 :: cumsum ((localRows chunk rs).map
    (rowQueryLen chunk))).map Nat.cast
  seqLens : m'.seqLens = (localRows chunk rs).map fun t => (rowKeyLen chunk t : Int)
  blockTable : m'.blockTableTensor = (localRows chunk rs).map (rowBlocks chunk blockSize width)

theorem makeLocalAttentionVirtualBatches_ok (hc : 0 < chunk) (hb : 0 < blockSize)
    (hdvd : blockSize ∣ chunk)
    (hne : rs ≠ []) (hm : Describes m rs 0) (hwidth : 0 < width) (hw : ∀ r ∈ rs,
      r.blocks.length = width) :
    ∃ m' make, makeLocalAttentionVirtualBatches chunk m blockSize = .ok (m', make) ∧
      make m.blockTableTensor = .ok m'.blockTableTensor ∧
        LocalRowsOf chunk blockSize width rs m' := by
  have hseqs : m.seqLensCpu = rs.zipIdx.map fun x => (x.1.seqLen : Int) := by
    rw [hm.seqLensCpu, hm.seqLens, List.replicate_zero, List.append_nil, List.map_map]
    exact map_zipIdx (fun r => (r.seqLen : Int)) rs
  have hstarts : m.queryStartLocCpu = (0 :: cumsumFrom 0 (rs.map (·.queryLen))).map Nat.cast := by
    rw [hm.queryStartLocCpu, hm.queryStartLoc, List.replicate_zero, List.append_nil]
    rfl
  have hqueries : (m.queryStartLocCpu.drop 1).zipWith (· - ·) m.queryStartLocCpu.dropLast
      = rs.zipIdx.map fun x => (x.1.queryLen : Int) := by
    rw [hstarts]
    show ((cumsumFrom 0 (rs.map (·.queryLen))).map Nat.cast : List Int).zipWith (· - ·) _ = _
    rw [diff_cumsumFrom, List.map_map]
    exact map_zipIdx (fun r => (r.queryLen : Int)) rs
  have htable : m.blockTableTensor = rs.map AttnRequest.blocks := by
    obtain ⟨padRows, hpad, hrows⟩ := hm.blocks
    rw [hrows, List.length_eq_zero_iff.mp hpad, List.append_nil]
  have hheadWidth : (m.blockTableTensor.headD []).length = width := by
    cases rs with
    | nil => exact absurd rfl hne
    | cons r rs =>
      rw [htable]
      exact hw r List.mem_cons_self
  have hfirst : ((((rs.zipIdx.map fun x => (x.1.seqLen : Int)).zipWith (· - ·)
        (rs.zipIdx.map fun x => (x.1.queryLen : Int))).map fun n =>
          (chunk : Int) - n.fmod chunk).zipWith min
          (rs.zipIdx.map fun x => (x.1.queryLen : Int)))
      = rs.zipIdx.map fun x => ((x.1.cut chunk 1 - x.1.cut chunk 0 : Nat) : Int) := by
    rw [zipWith_maps, List.map_map, zipWith_maps]
    exact List.map_congr_left fun x _ => qTokensInFirstBlock_eq hc x.1
  have hlast : (rs.zipIdx.map fun x => (x.1.seqLen : Int)).map (fun n => (chunk : Int) + n.fmod
    (-chunk))
      = rs.zipIdx.map fun x => ((x.1.seqLen - x.1.chunkStart chunk
        (x.1.numChunks chunk - 1) : Nat) : Int) := by
    rw [List.map_map]
    exact List.map_congr_left fun x _ => tokensInLastBlock_eq hc x.1
  have hblocks : repeatCounts (((rs.zipIdx.map fun x => (x.1.queryLen : Int)).zipWith (· - ·)
        (rs.zipIdx.map fun x => ((x.1.cut chunk 1 - x.1.cut chunk 0 : Nat) : Int))).map
          fun n => 1 + Python.cdiv n chunk)
      = .ok (rs.zipIdx.map fun x => x.1.numChunks chunk) := by
    apply repeatCounts_eq
    rw [zipWith_maps, List.map_map, List.map_map]
    exact List.map_congr_left fun x _ => localBlocks_eq hc x.1
  have htotal : Python.getItem (cumsum (rs.zipIdx.map fun x => x.1.numChunks chunk)) (-1)
      = .ok (rs.zipIdx.map fun x => x.1.numChunks chunk).sum := by
    apply getItem_cumsum_last
    intro hnil
    rw [List.map_eq_nil_iff, List.zipIdx_eq_nil_iff] at hnil
    exact hne hnil
  have harange : (arange (rs.zipIdx.map fun x => x.1.numChunks chunk).sum).zipWith (· - ·)
        (repeatEach ((cumsum (rs.zipIdx.map fun x => x.1.numChunks chunk)).zipWith (· - ·)
          (rs.zipIdx.map fun x => x.1.numChunks chunk))
            (rs.zipIdx.map fun x => x.1.numChunks chunk))
      = (localRows chunk rs).map Prod.snd := arange_parts _ _
  have hrepeat : ∀ f : AttnRequest × Nat → Int, repeatEach (rs.zipIdx.map f)
      (rs.zipIdx.map fun x => x.1.numChunks chunk) = (localRows chunk rs).map fun t => f t.1 :=
    fun f => repeatEach_parts f _ _
  have hrarange : ((repeatEach (rs.zipIdx.map fun x => x.1.numChunks chunk)
        (rs.zipIdx.map fun x => x.1.numChunks chunk)).zipWith (· - ·)
          ((localRows chunk rs).map Prod.snd)).map (· - 1)
      = (localRows chunk rs).map fun t => t.1.1.numChunks chunk - t.2 - 1 := by
    rw [repeatEach_parts]
    show (((localRows chunk rs).map _).zipWith _ _).map _ = _
    rw [zipWith_maps, List.map_map]
    rfl
  have hkeys : indexAssign (List.replicate (rs.zipIdx.map fun x => x.1.numChunks chunk).sum
    (chunk : Int))
        ((cumsum (rs.zipIdx.map fun x => x.1.numChunks chunk)).map (· - 1))
        (rs.zipIdx.map fun x => ((x.1.seqLen - x.1.chunkStart chunk
          (x.1.numChunks chunk - 1) : Nat) : Int))
      = (localRows chunk rs).map fun t => (rowKeyLen chunk t : Int) := by
    rw [indexAssign_last (numChunks_pos_of_mem chunk rs)]
    exact List.map_congr_left fun t ht => seqlensKLocal_eq hc t (localRows_mem ht).2
  have hqueryLens : ∀ queries first, queries = rs.zipIdx.map (fun x => (x.1.queryLen : Int)) →
      first = rs.zipIdx.map (fun x => ((x.1.cut chunk 1 - x.1.cut chunk 0 : Nat) : Int)) →
      maskAssign
        (maskAssign (repeatEach (queries.zipWith (· - ·) first)
          (rs.zipIdx.map fun x => x.1.numChunks chunk))
          (((localRows chunk rs).map Prod.snd).map (· == 0)) first)
        (((localRows chunk rs).map Prod.snd).map (decide <| 0 < ·))
        (compress (((localRows chunk rs).map Prod.snd).map (decide <| 0 < ·))
          ((maskAssign (repeatEach (queries.zipWith (· - ·) first)
            (rs.zipIdx.map fun x => x.1.numChunks chunk))
            (((localRows chunk rs).map Prod.snd).map (· == 0)) first).zipWith
              (fun (n : Int) (j : Nat) => min (n - chunk * ((j : Int) - 1)) chunk)
                ((localRows chunk rs).map Prod.snd)))
      = (localRows chunk rs).map fun t => (rowQueryLen chunk t : Int) := by
    rintro _ _ rfl rfl
    have hset : ∀ f : (AttnRequest × Nat) × Nat → Int, maskAssign ((localRows chunk rs).map f)
        (((localRows chunk rs).map Prod.snd).map (· == 0))
        (rs.zipIdx.map fun x => ((x.1.cut chunk 1 - x.1.cut chunk 0 : Nat) : Int))
        = (localRows chunk rs).map fun t => if t.2 == 0 then
            ((t.1.1.cut chunk 1 - t.1.1.cut chunk 0 : Nat) : Int) else f t := by
      intro f
      rw [List.map_map]
      exact maskAssign_first (numChunks_pos_of_mem chunk rs) f _
    rw [zipWith_maps, hrepeat, hset, List.map_map, zipWith_maps, maskAssign_map]
    refine List.map_congr_left fun t ht => ?_
    have hlt := (localRows_mem ht).2
    by_cases hzero : t.2 = 0
    · show (if decide (0 < t.2) = true then _ else if (t.2 == 0) = true then _ else _) = _
      rw [if_neg (by rw [hzero]; exact Bool.false_ne_true), if_pos (beq_iff_eq.mpr hzero)]
      unfold rowQueryLen
      rw [hzero]
    · have hpos : 0 < t.2 := Nat.pos_of_ne_zero hzero
      show (if decide (0 < t.2) = true then min ((if
        (t.2 == 0) = true then _ else _) - _) _ else _) = _
      rw [if_pos (decide_eq_true hpos), if_neg (fun h => hzero (beq_iff_eq.mp h))]
      exact seqlensQLocal_eq hc t.1.1 hpos hlt
  have hkeyStarts : (((localRows chunk rs).map fun t => (t.1.1.seqLen : Int)).zipWith (· - ·)
        (((localRows chunk rs).map fun t => t.1.1.numChunks chunk - t.2 - 1).zipWith
          (fun (j : Nat) (n : Int) => (j : Int) * chunk + n) ((localRows chunk rs).map fun t =>
            ((t.1.1.seqLen - t.1.1.chunkStart chunk (t.1.1.numChunks chunk - 1) : Nat) : Int)))).map
              (fun n => n.fdiv blockSize)
      = (localRows chunk rs).map fun t => ((t.1.1.chunkStart chunk t.2 / blockSize : Nat) : Int) := by
    rw [zipWith_maps, zipWith_maps, List.map_map]
    refine List.map_congr_left fun t ht => ?_
    show Int.fdiv ((t.1.1.seqLen : Int) - (_ * _ + _)) blockSize = _
    rw [kSeqstartsAbsolute_eq hc t.1.1 (localRows_mem ht).2, Int.natCast_ediv,
      Int.fdiv_eq_ediv_of_nonneg _ (by omega)]
  have hcount : (rs.zipIdx.map fun x => x.1.numChunks chunk).sum = (localRows chunk rs).length :=
    (length_parts _ _).symm
  have hrest : Python.require (chunk % blockSize == 0)
      s!"attn_chunk_size {chunk} is not divisible by block_size {blockSize}" = .ok () := by
    rw [Python.require_eq_ok, beq_iff_eq]
    exact Nat.mod_eq_zero_of_dvd hdvd
  have hnonempty : ∀ f : (AttnRequest × Nat) × Nat → Int, (localRows chunk rs).map f ≠ [] := by
    intro f hnil
    rw [List.map_eq_nil_iff] at hnil
    obtain ⟨r, hr⟩ := List.exists_mem_of_ne_nil rs hne
    obtain ⟨i, hi, hget⟩ := List.getElem_of_mem hr
    have hin : ((r, i), 0) ∈ localRows chunk rs := by
      refine mem_parts.mpr ⟨List.mem_zipIdx_iff_getElem?.mpr ?_, numChunks_pos chunk r⟩
      rw [← hget]
      exact List.getElem?_eq_getElem hi
    rw [hnil] at hin
    cases hin
  obtain ⟨maxSeqLen, hmaxSeq⟩ := tensorMax_ok (hnonempty fun t => (rowKeyLen chunk t : Int))
  obtain ⟨maxQueryLen, hmaxQuery⟩ := npMax_ok (hnonempty fun t => (rowQueryLen chunk t : Int))
  unfold makeLocalAttentionVirtualBatches
  dsimp only
  rw [hseqs, hqueries, hfirst, hlast, hblocks, Raises.ok_bind, htotal, Raises.ok_bind, harange,
    hrarange, hkeys,
    hqueryLens _ _ rfl rfl, hrepeat, hrepeat, hkeyStarts, if_neg (Nat.ne_of_gt hb), Raises.ok_bind,
      hrest,
    Raises.ok_bind, hheadWidth, hcount, htable, List.length_map, List.length_zipIdx,
    gatherBlocks_eq hwidth hw, Raises.ok_bind, hmaxSeq, Raises.ok_bind, hmaxQuery, Raises.ok_bind]
  refine ⟨_, _, rfl, gatherBlocks_eq hwidth hw, ?_, ?_, rfl, rfl⟩
  · show ((localRows chunk rs).map _).length = _
    rw [List.length_map]
  · show ((localRows chunk rs).map fun t => (rowQueryLen chunk t : Int)).scanl (fun
    (a b : Int) => a + b) 0 = _
    have hscan := scanl_cast ((localRows chunk rs).map (rowQueryLen chunk)) 0
    rw [List.map_map] at hscan
    exact hscan

/-! ## The keys of a row -/

/-- The keys that causal attention reads for a token. -/
def causalKeys (blockSize : Nat) (token : List Nat × Int) : List (Option Nat × Nat) :=
  keys blockSize token.1 0 (token.2 + 1).toNat

/-- The keys at the positions of the token's chunk that are not behind its own. -/
def chunkKeys (chunk blockSize : Nat) (token : List Nat × Int) : List (Option Nat × Nat) :=
  ((List.range (token.2 + 1).toNat).filter fun pos => pos / chunk
    = token.2.toNat / chunk).map fun pos =>
    (token.1[pos / blockSize]?, pos % blockSize)

theorem chunkKeys_eq (hc : 0 < chunk) (blocks : List Nat) {pos start : Nat} (hdvd : chunk ∣ start)
    (hle : start ≤ pos) (hlt : pos < start + chunk) :
    chunkKeys chunk blockSize (blocks, (pos : Int)) = keys blockSize blocks start (pos + 1) := by
  have hchunk : ∀ x, x < start + chunk → (x / chunk = pos / chunk ↔ start ≤ x) := by
    intro x hx
    obtain ⟨a, rfl⟩ := hdvd
    have hpos : pos / chunk = a := by
      apply Nat.div_eq_of_lt_le
      · rw [Nat.mul_comm]
        exact hle
      · rw [Nat.succ_mul, Nat.mul_comm]
        exact hlt
    rw [hpos]
    constructor
    · rintro rfl
      exact Nat.mul_div_le x chunk
    · intro h
      apply Nat.div_eq_of_lt_le
      · rw [Nat.mul_comm]
        exact h
      · rw [Nat.succ_mul, Nat.mul_comm]
        exact hx
  have hrange : List.range (pos + 1) = Intervals.between 0 start ++ Intervals.between start
    (pos + 1) := by
    rw [Intervals.between_append (Nat.zero_le _) (by omega)]
    exact List.range_eq_range'
  have hbefore : (Intervals.between 0 start).filter (fun x => decide
    (x / chunk = pos / chunk)) = [] := by
    rw [List.filter_eq_nil_iff]
    intro x hx h
    have hx := (Intervals.mem_between.mp hx).2
    have := (hchunk x (by omega)).mp (of_decide_eq_true h)
    omega
  have hafter : (Intervals.between start (pos + 1)).filter (fun x => decide
    (x / chunk = pos / chunk))
      = Intervals.between start (pos + 1) := by
    rw [List.filter_eq_self]
    intro x hx
    have hx := Intervals.mem_between.mp hx
    exact decide_eq_true ((hchunk x (by omega)).mpr hx.1)
  unfold chunkKeys keys
  show ((List.range ((pos : Int) + 1).toNat).filter fun x => x / chunk =
    (pos : Int).toNat / chunk).map _ = _
  have hnat : ((pos : Int) + 1).toNat = pos + 1 := by omega
  rw [hnat, Int.toNat_natCast, hrange, List.filter_append, hbefore, hafter, List.nil_append]

/-- A row of blocks that continues another one, read from its beginning. -/
theorem keys_shift {blocks rowBlocks : List Nat} {start count : Nat} (hdvd : blockSize ∣ start)
    (h : ∀ q < count, rowBlocks[q / blockSize]? = blocks[(start + q) / blockSize]?) :
    keys blockSize rowBlocks 0 count = keys blockSize blocks start (start + count) := by
  unfold keys Intervals.between
  rw [Nat.sub_zero, Nat.add_sub_cancel_left, ← List.range_eq_range', List.range'_eq_map_range,
    List.map_map]
  refine List.map_congr_left fun q hq => ?_
  have hmod : (start + q) % blockSize = q % blockSize := by
    obtain ⟨a, rfl⟩ := hdvd
    exact Nat.mul_add_mod blockSize a q
  rw [h q (List.mem_range.mp hq)]
  show _ = (blocks[(start + q) / blockSize]?, (start + q) % blockSize)
  rw [hmod]

/-- The `j`th chunk begins at its token or at its own beginning, whichever is later. -/
theorem cut_bounds (hc : 0 < chunk) (r : AttnRequest) {j : Nat} (hj : j < r.numChunks chunk) :
    r.chunkStart chunk j ≤ r.cut chunk j ∧ r.cut chunk j ≤ r.cut chunk (j + 1) ∧
      r.cut chunk (j + 1) = min r.seqLen (r.chunkStart chunk j + chunk) := by
  have hlast := (chunkStart_numChunks hc r).1
  have hone := computed_lt_chunkStart_one hc r
  have hbelow : r.chunkStart chunk j ≤ r.chunkStart chunk (r.numChunks chunk - 1) :=
    chunkStart_mono chunk r (by omega)
  have hsucc := chunkStart_succ chunk r j
  have hnext : r.chunkStart chunk 1 ≤ r.chunkStart chunk (j + 1) :=
    chunkStart_mono chunk r (by omega)
  have hle : r.computed ≤ r.seqLen := Nat.sub_le _ _
  unfold AttnRequest.cut Intervals.clamp
  omega

/-- A token of a row has the keys of its chunk. -/
theorem causalKeys_row (hc : 0 < chunk) (hb : 0 < blockSize) (hdvd : blockSize ∣ chunk)
    {t : (AttnRequest × Nat) × Nat} (hlen : t.1.1.blocks.length = width)
      (hseq : t.1.1.seqLen ≤ width * blockSize)
    (hj : t.2 < t.1.1.numChunks chunk) {pos : Nat} (hle : t.1.1.cut chunk t.2 ≤ pos)
    (hlt : pos < t.1.1.cut chunk (t.2 + 1)) :
    causalKeys blockSize (rowBlocks chunk blockSize width t,
      (pos : Int) - t.1.1.chunkStart chunk t.2)
      = chunkKeys chunk blockSize (t.1.1.blocks, (pos : Int)) := by
  obtain ⟨hstart, -, hend⟩ := cut_bounds hc t.1.1 hj
  have hchunk : chunk ∣ t.1.1.chunkStart chunk t.2 := Nat.dvd_mul_left _ _
  have hblock : blockSize ∣ t.1.1.chunkStart chunk t.2 := Nat.dvd_trans hdvd hchunk
  rw [chunkKeys_eq hc _ hchunk (by omega) (by omega)]
  unfold causalKeys
  have hcount : ((pos : Int) - t.1.1.chunkStart chunk t.2 + 1).toNat
    = pos + 1 - t.1.1.chunkStart chunk t.2 := by omega
  have hpos : pos + 1 = t.1.1.chunkStart chunk t.2 + (pos + 1 - t.1.1.chunkStart chunk t.2) :=
    by omega
  show keys blockSize (rowBlocks chunk blockSize width t) 0
    ((pos : Int) - t.1.1.chunkStart chunk t.2 + 1).toNat = _
  rw [hcount]
  conv => rhs; rw [hpos]
  refine keys_shift hblock fun q hq => ?_
  have hpage : q / blockSize < chunk / blockSize := by
    apply Nat.div_lt_of_lt_mul
    rw [Nat.mul_div_cancel' hdvd]
    omega
  have hsum : (t.1.1.chunkStart chunk t.2 + q) / blockSize
    = t.1.1.chunkStart chunk t.2 / blockSize + q / blockSize := by
    obtain ⟨a, ha⟩ := hblock
    rw [ha, Nat.mul_add_div hb, Nat.mul_div_cancel_left a hb]
  have hwide : (t.1.1.chunkStart chunk t.2 + q) / blockSize < width := by
    apply Nat.div_lt_of_lt_mul
    rw [Nat.mul_comm]
    omega
  have hclip : min (t.1.1.chunkStart chunk t.2 / blockSize + q / blockSize) (width - 1)
      = (t.1.1.chunkStart chunk t.2 + q) / blockSize := by omega
  unfold rowBlocks
  rw [List.getElem?_map, List.getElem?_range hpage]
  show some (t.1.1.blocks.getD (min (t.1.1.chunkStart chunk t.2 / blockSize + q / blockSize)
    (width - 1)) 0) = _
  rw [hclip, List.getD_eq_getElem _ _ (by omega), List.getElem?_eq_getElem (by omega)]

/-- The tokens of the rows of one request. -/
theorem request_rows (hc : 0 < chunk) (hb : 0 < blockSize)
    (hdvd : blockSize ∣ chunk) {x : AttnRequest × Nat}
    (hlen : x.1.blocks.length = width) (hseq : x.1.seqLen ≤ width * blockSize) :
    (((List.range (x.1.numChunks chunk)).map (Prod.mk x)).flatMap fun t =>
        (List.range (rowQueryLen chunk t)).map fun k : Nat => causalKeys blockSize
          (rowBlocks chunk blockSize width t, (rowKeyLen chunk t : Int) - rowQueryLen chunk t +
            (k : Int)))
      = (List.range x.1.queryLen).map fun k : Nat =>
          chunkKeys chunk blockSize (x.1.blocks, (x.1.seqLen : Int) - x.1.queryLen + (k : Int)) := by
  have hle := x.1.queryLen_le
  have hrow : ∀ j ∈ List.range (x.1.numChunks chunk),
      ((List.range (rowQueryLen chunk (x, j))).map fun k : Nat => causalKeys blockSize
        (rowBlocks chunk blockSize width (x, j), (rowKeyLen chunk (x,
          j) : Int) - rowQueryLen chunk (x, j) + (k : Int)))
      = (Intervals.between (x.1.cut chunk j) (x.1.cut chunk (j + 1))).map fun pos : Nat =>
          chunkKeys chunk blockSize (x.1.blocks, (pos : Int)) := by
    intro j hj
    have hj := List.mem_range.mp hj
    obtain ⟨hstart, hcuts, hend⟩ := cut_bounds hc x.1 hj
    unfold Intervals.between
    rw [List.range'_eq_map_range, List.map_map]
    refine List.map_congr_left fun k hk => ?_
    have hk : k < x.1.cut chunk (j + 1) - x.1.cut chunk j := List.mem_range.mp hk
    have hpos : (rowKeyLen chunk (x, j) : Int) - rowQueryLen chunk (x, j) + (k : Int)
        = ((x.1.cut chunk j + k : Nat) : Int) - x.1.chunkStart chunk j := by
      show ((min chunk (x.1.seqLen - x.1.chunkStart chunk j) : Nat) : Int)
        - ((x.1.cut chunk (j + 1) - x.1.cut chunk j : Nat) : Int) + _ = _
      omega
    rw [hpos]
    exact causalKeys_row (t := (x, j)) hc hb hdvd hlen hseq hj (by show x.1.cut chunk j ≤ _; omega)
      (by show _ < x.1.cut chunk (j + 1); omega)
  have hend := (chunkStart_numChunks hc x.1).2
  have hcuts := Intervals.flatMap_clamp (x.1.chunkStart chunk) x.1.computed x.1.seqLen
    (x.1.numChunks chunk)
    (fun j _ => chunkStart_mono chunk x.1 (Nat.le_succ j)) (chunkStart_zero_le chunk x.1)
      (Nat.sub_le _ _) hend
  have hquery : (List.range x.1.queryLen).map (fun k : Nat =>
        chunkKeys chunk blockSize (x.1.blocks, (x.1.seqLen : Int) - x.1.queryLen + (k : Int)))
      = (Intervals.between x.1.computed x.1.seqLen).map fun pos : Nat => chunkKeys chunk blockSize
        (x.1.blocks, (pos : Int)) := by
    have hspan : x.1.seqLen - x.1.computed = x.1.queryLen := Nat.sub_sub_self hle
    unfold Intervals.between
    rw [hspan, List.range'_eq_map_range, List.map_map]
    refine List.map_congr_left fun k _ => ?_
    show _ = chunkKeys chunk blockSize (x.1.blocks, ((x.1.seqLen - x.1.queryLen + k : Nat) : Int))
    rw [Int.natCast_add, Int.ofNat_sub hle]
  rw [hquery, ← hcuts, List.map_flatMap, List.flatMap_map]
  exact List.flatMap_congr hrow

end Result

/-- Every token of a query is in exactly one virtual row, the rows have the tokens in the order of
the batch, and causal attention over the row reads for each the keys of its chunk up to its own. -/
theorem localBatches_cover {chunk blockSize width : Nat} {rs : List AttnRequest} {m :
    CommonAttentionMetadata}
    (hc : 0 < chunk) (hb : 0 < blockSize) (hdvd : blockSize ∣ chunk) (hne : rs ≠ [])
      (hm : Describes m rs 0)
    (hw : ∀ r ∈ rs, r.blocks.length = width ∧ r.seqLen ≤ width * blockSize) :
    ∃ m' make, makeLocalAttentionVirtualBatches chunk m blockSize = .ok (m', make) ∧
      make m.blockTableTensor = .ok m'.blockTableTensor ∧
      m'.tokens.map (causalKeys blockSize) = m.tokens.map (chunkKeys chunk blockSize) ∧
      ∀ t < totalTokens rs, ∃! i, i < m'.numReqs ∧
        m'.queryStartLoc.getD i 0 ≤ (t : Int) ∧ (t : Int) < m'.queryStartLoc.getD (i + 1) 0 := by
  have hwidth : 0 < width := by
    obtain ⟨r, hr⟩ := List.exists_mem_of_ne_nil rs hne
    have hpos := r.queryLen_pos
    have hle := r.queryLen_le
    rcases Nat.eq_zero_or_pos width with hzero | hpos
    · have := (hw r hr).2
      rw [hzero, Nat.zero_mul] at this
      omega
    · exact hpos
  obtain ⟨m', make, hok, hmake, hrows⟩ :=
    makeLocalAttentionVirtualBatches_ok hc hb hdvd hne hm hwidth fun r hr => (hw r hr).1
  have htokens := tokens_of_rows (localRows chunk rs) (rowQueryLen chunk) (fun t =>
    (rowKeyLen chunk t : Int))
    (rowBlocks chunk blockSize width) hrows.numReqs hrows.queryStartLoc hrows.seqLens
      hrows.blockTable
  have hbatch := tokens_of_rows rs (·.queryLen) (fun r =>
    (r.seqLen : Int)) AttnRequest.blocks hm.numReqs
    (by rw [hm.queryStartLoc, List.replicate_zero, List.append_nil]; rfl)
    (by rw [hm.seqLens, List.replicate_zero, List.append_nil, List.map_map]; rfl)
    (by
      obtain ⟨padRows, hpad, hblocks⟩ := hm.blocks
      rw [hblocks, List.length_eq_zero_iff.mp hpad, List.append_nil])
  have hall : m'.tokens.map (causalKeys blockSize) = m.tokens.map (chunkKeys chunk blockSize) := by
    have hplaces : ∀ g : AttnRequest → List (List (Option Nat × Nat)),
      rs.flatMap g = rs.zipIdx.flatMap fun x => g x.1 := by
      intro g
      have h := congrArg (List.flatMap g) (List.zipIdx_map_fst 0 rs)
      rw [List.flatMap_map] at h
      exact h.symm
    rw [htokens, hbatch, List.map_flatMap, List.map_flatMap, hplaces]
    unfold localRows parts
    rw [List.flatMap_assoc]
    refine List.flatMap_congr fun x hx => ?_
    have hmem : x.1 ∈ rs := List.mem_of_getElem? (List.mem_zipIdx_iff_getElem?.mp hx)
    obtain ⟨hlen, hseq⟩ := hw x.1 hmem
    have hrequest := request_rows hc hb hdvd hlen hseq
    simp only [List.map_map]
    exact hrequest
  have hsum : ((localRows chunk rs).map (rowQueryLen chunk)).sum = totalTokens rs := by
    have hlengths := congrArg List.length hall
    rw [List.length_map, List.length_map, htokens, hbatch, List.length_flatMap,
      List.length_flatMap] at hlengths
    simp only [List.length_map, List.length_range] at hlengths
    exact hlengths
  have hstart : ∀ i ≤ (localRows chunk rs).length, m'.queryStartLoc.getD i 0
      = ((((localRows chunk rs).map (rowQueryLen chunk)).take i).sum : Int) := by
    intro i hi
    have hcum := @getD_cons_cumsum ((localRows chunk rs).map (rowQueryLen chunk)) i
      (by rw [List.length_map]; exact hi)
    rw [hrows.queryStartLoc]
    show ((0 :: cumsum _).map Nat.cast).getD i ((0 : Nat) : Int) = _
    rw [List.getD_map, hcum]
  have hnext : ∀ i, (((localRows chunk rs).map (rowQueryLen chunk)).take (i + 1)).sum
      = (((localRows chunk rs).map (rowQueryLen chunk)).take i).sum
        + ((localRows chunk rs).map (rowQueryLen chunk)).getD i 0 := by
    intro i
    rw [List.take_add_one, List.sum_append, List.getD_eq_getElem?_getD]
    cases ((localRows chunk rs).map (rowQueryLen chunk))[i]? with
    | none => rfl
    | some n => simp
  refine ⟨m', make, hok, hmake, hall, fun t ht => ?_⟩
  rw [← hsum] at ht
  obtain ⟨i, hi, hle, hlt⟩ := exists_mem_segment ht
  rw [List.length_map] at hi
  refine ⟨i, ⟨hrows.numReqs ▸ hi, ?_, ?_⟩, ?_⟩
  · rw [hstart i (Nat.le_of_lt hi)]
    omega
  · rw [hstart (i + 1) hi, hnext]
    omega
  · rintro k ⟨hk, hkle, hklt⟩
    rw [hrows.numReqs] at hk
    rw [hstart k (Nat.le_of_lt hk)] at hkle
    rw [hstart (k + 1) hk, hnext] at hklt
    exact segment_unique (by omega) (by omega) hle hlt

/-- The batch that the comment in the source goes through, with chunks of four tokens and blocks of
two. -/
def commentBatch : List AttnRequest :=
  [⟨4, 6, List.range' 0 10, by decide, by decide⟩, ⟨10, 17, List.range' 10 10, by decide,
    by decide⟩,
    ⟨5, 9, List.range' 20 10, by decide, by decide⟩]

def commentMetadata : CommonAttentionMetadata where
  queryStartLoc := [0, 4, 14, 19]
  queryStartLocCpu := [0, 4, 14, 19]
  seqLens := [6, 17, 9]
  numReqs := 3
  numActualTokens := 19
  maxQueryLen := 10
  maxSeqLen := 17
  blockTableTensor := [List.range' 0 10, List.range' 10 10, List.range' 20 10]
  slotMapping := []
  causal := true
  seqLensCpu := [6, 17, 9]
  numComputedTokensCpu := [2, 7, 4]

theorem commentBatch_cover :
    ∃ m' make, makeLocalAttentionVirtualBatches 4 commentMetadata 2 = .ok (m', make) ∧
      make commentMetadata.blockTableTensor = .ok m'.blockTableTensor ∧
      m'.tokens.map (causalKeys 2) = commentMetadata.tokens.map (chunkKeys 4 2) ∧
      ∀ t < totalTokens commentBatch, ∃! i, i < m'.numReqs ∧
        m'.queryStartLoc.getD i 0 ≤ (t : Int) ∧ (t : Int) < m'.queryStartLoc.getD (i + 1) 0 :=
  @localBatches_cover 4 2 10 commentBatch commentMetadata (by decide) (by decide) ⟨2,
    rfl⟩ (List.cons_ne_nil _ _)
    ⟨rfl, rfl, rfl, rfl, rfl, rfl, ⟨[], rfl, rfl⟩⟩ (by decide)

/-- The lengths are those of the comment. -/
example : (makeLocalAttentionVirtualBatches 4 commentMetadata 2).map (fun r => (r.1.queryStartLoc,
    r.1.seqLens))
    = .ok ([0, 2, 4, 5, 9, 13, 14, 18, 19], [4, 2, 4, 4, 4, 1, 4, 1]) := by
  decide

end VllmEngine.Attention
