import VllmEngine.Lib.Raises
import VllmEngine.Lib.Intervals
import VllmEngine.Lib.Segments
import VllmEngine.Lib.Python

/-!
# The attention metadata of a batch

`CommonAttentionMetadata` (`vllm/v1/attention/backend.py`) and what causal attention makes of it: a
row of the metadata has a query of consecutive tokens, the last of which is the last key of the row,
and a block table that tells where the keys are.

Mirroring notes:
- Tensors are lists of integers, a two-dimensional one is a list of rows.
- Fields that neither function on batches here reads or sets are left out.

> `tokens_describes`: the tokens of a batch are the tokens of its requests, each at its position.
-/

namespace VllmEngine.Attention

structure CommonAttentionMetadata where
  queryStartLoc : List Int
  queryStartLocCpu : List Int
  seqLens : List Int
  numReqs : Nat
  numActualTokens : Int
  maxQueryLen : Int
  maxSeqLen : Int
  blockTableTensor : List (List Nat)
  slotMapping : List Int
  causal : Bool
  seqLensCpu : List Int
  numComputedTokensCpu : List Int
deriving DecidableEq, Repr

namespace CommonAttentionMetadata

/-- `query_start_loc[i + 1] - query_start_loc[i]`. -/
def queryLen (m : CommonAttentionMetadata) (i : Nat) : Int :=
  m.queryStartLoc.getD (i + 1) 0 - m.queryStartLoc.getD i 0

/-- The tokens of a row, each with the block table of the row and its position under causal
attention: the last one has the last key of the row. -/
def rowTokens (m : CommonAttentionMetadata) (i : Nat) : List (List Nat × Int) :=
  (List.range (m.queryLen i).toNat).map fun k : Nat =>
    (m.blockTableTensor.getD i [], m.seqLens.getD i 0 - m.queryLen i + (k : Int))

/-- The tokens of all rows, one row behind the other. -/
def tokens (m : CommonAttentionMetadata) : List (List Nat × Int) :=
    (List.range m.numReqs).flatMap m.rowTokens

end CommonAttentionMetadata

/-- The keys at the positions of `[lo, hi)`, where the blocks of a row have them. -/
def keys (blockSize : Nat) (blocks : List Nat) (lo hi : Nat) : List (Option Nat × Nat) :=
  (Intervals.between lo hi).map fun pos => (blocks[pos / blockSize]?, pos % blockSize)

/-- `t.max()`. -/
def tensorMax (t : List Int) : Except Python.Error Int :=
  match t with
  | [] => .error (.runtime "max(): Expected reduction dim to be specified for input.numel() == 0.")
  | x :: t => .ok (t.foldl max x)

theorem tensorMax_ok {t : List Int} (h : t ≠ []) : ∃ x, tensorMax t = .ok x := by
  cases t with
  | nil => exact absurd rfl h
  | cons x t => exact ⟨_, rfl⟩

/-! ## Batches -/

/-- A request of a batch. -/
structure AttnRequest where
  queryLen : Nat
  seqLen : Nat
  blocks : List Nat
  queryLen_pos : 0 < queryLen
  queryLen_le : queryLen ≤ seqLen
deriving DecidableEq

/-- The first token of each request, and the end. -/
def queryStarts (rs : List AttnRequest) : List Nat := 0 :: Numpy.cumsum (rs.map (·.queryLen))

def totalTokens (rs : List AttnRequest) : Nat := (rs.map (·.queryLen)).sum

/-- The token at place `t` of a batch, in the request that it belongs to. -/
def tokenAt (rs : List AttnRequest) (t : Nat) : List Nat × Int :=
  match rs[Numpy.searchsortedRight (queryStarts rs) t - 1]? with
  | some r => (r.blocks, r.seqLen - r.queryLen
      + (t - (queryStarts rs).getD (Numpy.searchsortedRight (queryStarts rs) t - 1) 0))
  | none => ([], 0)

/-- The metadata of a batch, which may have rows without tokens behind those of the requests. -/
structure Describes (m : CommonAttentionMetadata) (rs : List AttnRequest) (pad : Nat) : Prop where
  numReqs : m.numReqs = rs.length + pad
  queryStartLoc : m.queryStartLoc = (queryStarts rs ++ List.replicate pad
    (totalTokens rs)).map Nat.cast
  queryStartLocCpu : m.queryStartLocCpu = m.queryStartLoc
  seqLens : m.seqLens = (rs.map AttnRequest.seqLen ++ List.replicate pad 0).map Nat.cast
  seqLensCpu : m.seqLensCpu = m.seqLens
  numComputed : m.numComputedTokensCpu
    = (rs.map (fun r : AttnRequest => r.seqLen - r.queryLen) ++ List.replicate pad 0).map Nat.cast
  blocks : ∃ padRows, padRows.length = pad ∧
    m.blockTableTensor = rs.map AttnRequest.blocks ++ padRows

variable {rs : List AttnRequest}

theorem length_queryStarts (rs : List AttnRequest) : (queryStarts rs).length = rs.length + 1 := by
  unfold queryStarts
  rw [List.length_cons, Numpy.length_cumsum, List.length_map]

theorem pairwise_queryStarts (rs : List AttnRequest) : (queryStarts rs).Pairwise (· ≤ ·) :=
  Numpy.pairwise_cons_cumsum _

/-- The first token of a request. -/
def startOf (rs : List AttnRequest) (i : Nat) : Nat := ((rs.map (·.queryLen)).take i).sum

variable {i : Nat} {m : CommonAttentionMetadata}

theorem getElem?_queryStarts (hi : i ≤ rs.length) : (queryStarts rs)[i]?
    = some (startOf rs i) := by
  have hlt : i < (queryStarts rs).length := by
    rw [length_queryStarts]
    omega
  have hget := @Numpy.getD_cons_cumsum (rs.map (·.queryLen)) i (by rw [List.length_map]; exact hi)
  rw [List.getElem?_eq_getElem hlt, ← List.getD_eq_getElem _ 0 hlt]
  exact congrArg some hget

theorem startOf_length (rs : List AttnRequest) : startOf rs rs.length = totalTokens rs := by
  unfold startOf totalTokens
  rw [List.take_of_length_le (by rw [List.length_map])]

theorem startOf_succ {r : AttnRequest} (h : rs[i]? = some r) :
    startOf rs (i + 1) = startOf rs i + r.queryLen := by
  unfold startOf
  rw [List.take_add_one, List.sum_append, List.getElem?_map, h]
  simp

theorem startOf_mono {j : Nat} (hij : i ≤ j) : startOf rs i ≤ startOf rs j := by
  have hsplit := congrArg List.sum (List.take_append_drop i ((rs.map (·.queryLen)).take j))
  rw [List.sum_append, List.take_take, Nat.min_eq_left hij] at hsplit
  unfold startOf
  omega

/-- `searchsorted` finds the request that a token belongs to. -/
theorem searchsortedRight_queryStarts {t : Nat} (hi : i < rs.length) (hle : startOf rs i ≤ t)
    (hlt : t < startOf rs (i + 1)) : Numpy.searchsortedRight (queryStarts rs) t = i + 1 := by
  have hbefore := (Numpy.lt_searchsortedRight_iff (pairwise_queryStarts rs) t i).mpr
    ⟨_, getElem?_queryStarts (Nat.le_of_lt hi), hle⟩
  have hafter : ¬ i + 1 < Numpy.searchsortedRight (queryStarts rs) t := by
    intro h
    obtain ⟨x, hx, hxt⟩ := (Numpy.lt_searchsortedRight_iff (pairwise_queryStarts rs) t (i + 1)).mp h
    have hstart := @getElem?_queryStarts rs (i + 1) hi
    rw [hx, Option.some.injEq] at hstart
    omega
  omega

theorem tokenAt_eq {t : Nat} {r : AttnRequest} (h : rs[i]? = some r) (hle : startOf rs i ≤ t)
    (hlt : t < startOf rs (i + 1)) :
    tokenAt rs t = (r.blocks, (r.seqLen : Int) - r.queryLen + (t - startOf rs i)) := by
  obtain ⟨hi, -⟩ := List.getElem?_eq_some_iff.mp h
  unfold tokenAt
  rw [searchsortedRight_queryStarts hi hle hlt, Nat.add_sub_cancel, h, List.getD_eq_getElem?_getD,
    getElem?_queryStarts (Nat.le_of_lt hi)]
  rfl

/-- Every token is in a request. -/
theorem exists_request {t : Nat} (ht : t < totalTokens rs) :
    ∃ i < rs.length, startOf rs i ≤ t ∧ t < startOf rs (i + 1) := by
  have hlast : t < startOf rs rs.length := startOf_length rs ▸ ht
  have hex : ∃ n, n ≤ rs.length ∧ t < startOf rs n := ⟨_, Nat.le_refl _, hlast⟩
  obtain ⟨hle, hlt⟩ := Nat.find_spec hex
  cases hn : Nat.find hex with
  | zero =>
    rw [hn] at hlt
    exact absurd hlt (Nat.not_lt_zero t)
  | succ n =>
    rw [hn] at hle hlt
    refine ⟨n, hle, ?_, hlt⟩
    by_contra hnot
    exact Nat.find_min hex (m := n) (by omega) ⟨by omega, by omega⟩

open Intervals

/-- The tokens of a batch whose rows are given by the elements of a list. -/
theorem tokens_of_rows {ι : Type} (ts : List ι) (qlen : ι → Nat) (slen : ι → Int)
    (table : ι → List Nat) (hnum : m.numReqs = ts.length)
    (hstarts : m.queryStartLoc = (0 :: Numpy.cumsum (ts.map qlen)).map Nat.cast)
    (hlens : m.seqLens = ts.map slen) (htable : m.blockTableTensor = ts.map table) :
    m.tokens = ts.flatMap fun t => (List.range (qlen t)).map fun k : Nat => (table t,
      slen t - qlen t + (k : Int)) := by
  have hrow : ∀ i (hi : i < ts.length), m.rowTokens i
      = (List.range (qlen ts[i])).map fun k : Nat => (table ts[i],
        slen ts[i] - qlen ts[i] + (k : Int)) := by
    intro i hi
    have hget := List.getElem?_eq_getElem hi
    have hstart : ∀ k ≤ ts.length, m.queryStartLoc.getD k 0 = (((ts.map qlen).take k).sum : Int) := by
      intro k hk
      have hcum := @Numpy.getD_cons_cumsum (ts.map qlen) k (by rw [List.length_map]; exact hk)
      rw [hstarts]
      show ((0 :: Numpy.cumsum (ts.map qlen)).map Nat.cast).getD k ((0 : Nat) : Int) = _
      rw [List.getD_map, hcum]
    have hlen : m.queryLen i = qlen ts[i] := by
      unfold CommonAttentionMetadata.queryLen
      rw [hstart (i + 1) hi, hstart i (Nat.le_of_lt hi), List.take_add_one, List.sum_append,
        List.getElem?_map, hget]
      show ((((ts.map qlen).take i).sum + (qlen ts[i] + 0) : Nat) : Int) - _ = _
      omega
    unfold CommonAttentionMetadata.rowTokens
    rw [hlen, htable, hlens, List.getD_eq_getElem?_getD, List.getD_eq_getElem?_getD,
      List.getElem?_map,
      List.getElem?_map, hget, Int.toNat_natCast]
    rfl
  unfold CommonAttentionMetadata.tokens
  rw [hnum]
  apply Numpy.flatMap_range
  intro i t ht
  obtain ⟨hi, rfl⟩ := List.getElem?_eq_some_iff.mp ht
  exact hrow i hi

/-- A row that stands for the tokens of `[lo, hi)`, all of one request. -/
theorem rowTokens_eq {j lo hi : Nat} {r : AttnRequest} (h : rs[j]? = some r)
    (hlo : startOf rs j ≤ lo) (hle : lo ≤ hi) (hhi : hi ≤ startOf rs (j + 1))
    (hlen : m.queryLen i = (hi : Int) - lo) (hblocks : m.blockTableTensor.getD i [] = r.blocks)
    (hcomputed : m.seqLens.getD i 0 - m.queryLen i = (r.seqLen : Int) - r.queryLen + (lo - startOf rs j)) :
    m.rowTokens i = (between lo hi).map (tokenAt rs) := by
  have hnat : (m.queryLen i).toNat = hi - lo := by omega
  have hbetween : between lo hi = (List.range (hi - lo)).map (lo + ·) := by
    unfold between
    rw [List.range'_eq_map_range]
  unfold CommonAttentionMetadata.rowTokens
  rw [hnat, hblocks, hcomputed, hbetween, List.map_map]
  refine List.map_congr_left fun k hk => ?_
  have hk := List.mem_range.mp hk
  show _ = tokenAt rs (lo + k)
  rw [tokenAt_eq h (by omega) (by omega)]
  refine Prod.ext rfl ?_
  show _ = (r.seqLen : Int) - r.queryLen + ((lo + k : Nat) - startOf rs j)
  omega

/-- A row without tokens. -/
theorem rowTokens_eq_nil (hlen : m.queryLen i = 0) : m.rowTokens i = [] := by
  unfold CommonAttentionMetadata.rowTokens
  rw [hlen]
  rfl

namespace Describes

variable {m : CommonAttentionMetadata} {pad : Nat}

/-- The bounds of the rows: the requests', and behind them the end. -/
theorem getElem?_queryStartLoc (h : Describes m rs pad) {i : Nat} (hi : i ≤ rs.length + pad) :
    m.queryStartLoc[i]? = some (startOf rs i : Int) := by
  rw [h.queryStartLoc, List.getElem?_map]
  by_cases hreq : i ≤ rs.length
  · rw [List.getElem?_append_left (by rw [length_queryStarts]; omega), getElem?_queryStarts hreq]
    rfl
  · have hend : startOf rs i = totalTokens rs := by
      have hlen : (rs.map (·.queryLen)).length ≤ i := by
        rw [List.length_map]
        omega
      unfold startOf totalTokens
      rw [List.take_of_length_le hlen]
    rw [List.getElem?_append_right (by rw [length_queryStarts]; omega), length_queryStarts,
      List.getElem?_replicate, if_pos (by omega), hend]
    rfl

theorem queryLen_eq (h : Describes m rs pad) {i : Nat} (hi : i < rs.length + pad) :
    m.queryLen i = (startOf rs (i + 1) : Int) - startOf rs i := by
  unfold CommonAttentionMetadata.queryLen
  rw [List.getD_eq_getElem?_getD, List.getD_eq_getElem?_getD, h.getElem?_queryStartLoc hi,
    h.getElem?_queryStartLoc (Nat.le_of_lt hi)]
  rfl

theorem getD_blockTable (h : Describes m rs pad) {i : Nat} {r : AttnRequest}
    (hr : rs[i]? = some r) :
    m.blockTableTensor.getD i [] = r.blocks := by
  obtain ⟨padRows, -, hrows⟩ := h.blocks
  obtain ⟨hi, -⟩ := List.getElem?_eq_some_iff.mp hr
  rw [hrows, List.getD_eq_getElem?_getD, List.getElem?_append_left
    (by rw [List.length_map]; exact hi),
    List.getElem?_map, hr]
  rfl

theorem getElem?_seqLens (h : Describes m rs pad) {i : Nat} {r : AttnRequest}
    (hr : rs[i]? = some r) :
    m.seqLens[i]? = some (r.seqLen : Int) := by
  obtain ⟨hi, -⟩ := List.getElem?_eq_some_iff.mp hr
  rw [h.seqLens, List.getElem?_map, List.getElem?_append_left (by rw [List.length_map]; exact hi),
    List.getElem?_map, hr]
  rfl

theorem getElem?_numComputed (h : Describes m rs pad) {i : Nat} {r : AttnRequest}
    (hr : rs[i]? = some r) :
    m.numComputedTokensCpu[i]? = some ((r.seqLen : Int) - r.queryLen) := by
  obtain ⟨hi, -⟩ := List.getElem?_eq_some_iff.mp hr
  have hle := r.queryLen_le
  rw [h.numComputed, List.getElem?_map, List.getElem?_append_left
    (by rw [List.length_map]; exact hi),
    List.getElem?_map, hr]
  show some (((r.seqLen - r.queryLen : Nat) : Int)) = _
  rw [Int.ofNat_sub hle]

end Describes

/-- The tokens of a batch are those of its requests, each at its position. -/
theorem tokens_describes {pad : Nat} (h : Describes m rs pad) :
    m.tokens = (List.range (totalTokens rs)).map (tokenAt rs) := by
  have hrow : ∀ i, i < rs.length + pad →
      m.rowTokens i = (between (startOf rs i) (startOf rs (i + 1))).map (tokenAt rs) := by
    intro i hi
    have hlen := h.queryLen_eq hi
    by_cases hreq : i < rs.length
    · have hr := List.getElem?_eq_getElem hreq
      have hsucc := startOf_succ hr
      refine rowTokens_eq hr (Nat.le_refl _) (startOf_mono (Nat.le_succ i)) (Nat.le_refl _) hlen
        (h.getD_blockTable hr) ?_
      rw [List.getD_eq_getElem?_getD, h.getElem?_seqLens hr, hlen]
      show (rs[i].seqLen : Int) - _ = _
      omega
    · have hempty : startOf rs (i + 1) = startOf rs i := by
        unfold startOf
        rw [List.take_of_length_le (by rw [List.length_map]; omega),
          List.take_of_length_le (by rw [List.length_map]; omega)]
      rw [hempty] at hlen ⊢
      have hnil : between (startOf rs i) (startOf rs i) = [] := by
        unfold between
        rw [Nat.sub_self]
        rfl
      rw [rowTokens_eq_nil (hlen.trans (Int.sub_self _)), hnil]
      rfl
  have hcuts := flatMap_cuts (f := startOf rs) (n :=
    rs.length + pad) fun j _ => startOf_mono (Nat.le_succ j)
  have hzero : startOf rs 0 = 0 := rfl
  have hend : startOf rs (rs.length + pad) = totalTokens rs := by
    unfold startOf totalTokens
    rw [List.take_of_length_le (by rw [List.length_map]; omega)]
  rw [hzero, hend] at hcuts
  unfold CommonAttentionMetadata.tokens
  have hall : List.range (totalTokens rs) = between 0 (totalTokens rs) := List.range_eq_range'
  rw [h.numReqs, hall]
  rw [← hcuts.2, List.map_flatMap]
  exact List.flatMap_congr fun i hi => hrow i (List.mem_range.mp hi)

end VllmEngine.Attention
