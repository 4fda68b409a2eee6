import VllmEngine.Attention.Metadata
import VllmEngine.Lib.SortByCount
import VllmEngine.Worker.InputBatch

/-!
# Decodes in front, prefills behind

`reorder_batch_to_split_decodes_and_prefills` sorts the rows of the batch into
four regions by swapping rows, and `split_decodes_and_prefills` finds where the
prefills of a sorted batch begin (`vllm/v1/attention/backends/utils.py`).

> `reorder_spec`: the calls of `swap_states` and the order they lead to,
> `split_spec`: what the split says of each request.
-/

namespace VllmEngine.Attention

open Worker

variable {E G S : Type}

/-- What the reordering reads of a request. -/
structure BatchRequest where
  numScheduledTokens : Nat
  numComputedTokens : Nat
  numPromptTokens : Nat
deriving DecidableEq, Repr

namespace BatchRequest

def hasContext (r : BatchRequest) : Bool := decide (0 < r.numComputedTokens)

def isBelowThreshold (decodeThreshold : Nat) (r : BatchRequest) : Bool :=
  decide (r.numScheduledTokens ≤ decodeThreshold)

def donePrefilling (r : BatchRequest) : Bool := decide (r.numPromptTokens ≤ r.numComputedTokens)

def isPurePrefill (r : BatchRequest) : Bool := !r.hasContext

def isLongExtend (decodeThreshold : Nat) (r : BatchRequest) : Bool :=
  r.hasContext && !r.isBelowThreshold decodeThreshold

def isShortExtend (decodeThreshold : Nat) (r : BatchRequest) : Bool :=
  r.hasContext && r.isBelowThreshold decodeThreshold && !r.donePrefilling

/-- The entry of `req_regions`: 0 by default, and the three assignments in order. -/
def region (decodeThreshold : Nat) (r : BatchRequest) : Nat :=
  if r.isPurePrefill then 3
  else if r.isLongExtend decodeThreshold then 2
  else if r.isShortExtend decodeThreshold then 1
  else 0

end BatchRequest

/-- `b'` has the rows of `b` in another order. -/
structure RowsOf (σ : Nat → Nat) (b b' : InputBatch E G S) : Prop where
  length : b'.reqIds.length = b.reqIds.length
  reqIds : ∀ k, b'.idAt k = b.idAt (σ k)
  numComputedTokens : ∀ k, b'.numComputedTokensCpu k = b.numComputedTokensCpu (σ k)
  numPromptTokens : ∀ k, b'.numPromptTokens k = b.numPromptTokens (σ k)

/-- The first `n` rows, and no others, have requests, with their entries in the lists and their
indices in the map. -/
structure Filled (n : Nat) (b : InputBatch E G S) : Prop where
  length : b.reqIds.length = n
  rows : n ≤ b.maxNumReqs
  present : ∀ i < n, (b.idAt i).isSome
  reqOutputTokenIds : n ≤ b.reqOutputTokenIds.length
  specTokenIds : n ≤ b.specTokenIds.length
  reqIdToIndex : ∀ i id, b.idAt i = some id → b.reqIdToIndex.get? id = some i

theorem Filled.entry {n k : Nat} {b : InputBatch E G S} (h : Filled n b) (hk : k < n) :
    ∃ id, b.reqIds[k]? = some (some id) ∧ b.idAt k = some id := by
  have hpresent := h.present k hk
  unfold InputBatch.idAt at hpresent ⊢
  rw [List.getElem?_eq_getElem (h.length.symm ▸ hk)] at hpresent ⊢
  obtain ⟨id, hid⟩ := Option.isSome_iff_exists.mp hpresent
  exact ⟨id, congrArg some hid, hid⟩

theorem RowsOf.refl (b : InputBatch E G S) : RowsOf id b b := ⟨rfl, fun _ => rfl, fun _ => rfl, fun _ => rfl⟩

theorem RowsOf.trans {σ σ' : Nat → Nat} {b₁ b₂ b₃ : InputBatch E G S} (h : RowsOf σ b₁ b₂)
    (h' : RowsOf σ' b₂ b₃) : RowsOf (σ ∘ σ') b₁ b₃ :=
  ⟨h'.length.trans h.length, fun k => (h'.reqIds k).trans (h.reqIds _),
    fun k => (h'.numComputedTokens k).trans (h.numComputedTokens _),
    fun k => (h'.numPromptTokens k).trans (h.numPromptTokens _)⟩

/-- What the reordering reads of row `i`. -/
def requestAt (b : InputBatch E G S) (numScheduledTokens : Dict ReqId Nat) (i : Nat) : BatchRequest where
  numScheduledTokens := ((b.idAt i).bind numScheduledTokens.get?).getD 0
  numComputedTokens := b.numComputedTokensCpu i
  numPromptTokens := b.numPromptTokens i

variable {b b' : InputBatch E G S} {numScheduledTokens : Dict ReqId Nat} {decodeThreshold : Nat}

theorem RowsOf.requestAt {σ : Nat → Nat} (h : RowsOf σ b b') (k : Nat) :
    requestAt b' numScheduledTokens k = requestAt b numScheduledTokens (σ k) := by
  unfold Attention.requestAt
  rw [h.reqIds, h.numComputedTokens, h.numPromptTokens]

/-! ## Regions -/

/-- The metadata describes a batch of queries of these lengths. -/
structure OfQueries (m : CommonAttentionMetadata) (queryLens : List Nat) : Prop where
  numReqs : m.numReqs = queryLens.length
  queryStartLocCpu : m.queryStartLocCpu
    = (List.range (queryLens.length + 1)).map fun i => ((queryLens.take i).sum : Int)
  numActualTokens : m.numActualTokens = queryLens.sum
  maxQueryLen : m.maxQueryLen = queryLens.foldr max 0

/-- The requests before the first one longer than the threshold are decodes, the others prefills. -/
structure SplitOf (queryLens : List Nat) (decodeThreshold : Nat) (numDecodes : Nat)
    (result : Int × Int × Int × Int) : Prop where
  result : result = ((numDecodes : Int), (queryLens.length : Int) - numDecodes,
    ((queryLens.take numDecodes).sum : Int), ((queryLens.drop numDecodes).sum : Int))
  first : numDecodes = queryLens.findIdx fun n => decide (decodeThreshold < n)
  le : numDecodes ≤ queryLens.length
  decodes : ∀ i < numDecodes, queryLens.getD i 0 ≤ decodeThreshold
  prefills : ∀ i < queryLens.length, decodeThreshold < queryLens.getD i 0 → numDecodes ≤ i

theorem OfQueries.queryLens {m : CommonAttentionMetadata} {queryLens : List Nat} (h : OfQueries m queryLens) :
    List.zipWith (fun next loc => next - loc) m.queryStartLocCpu.tail m.queryStartLocCpu.dropLast
      = queryLens.map fun n : Nat => (n : Int) := by
  rw [h.queryStartLocCpu]
  apply List.ext_getElem
  · simp
  · intro i h₁ h₂
    rw [List.length_map] at h₂
    rw [List.getElem_zipWith, List.getElem_tail, List.getElem_dropLast, List.getElem_map,
      List.getElem_map, List.getElem_map, List.getElem_range, List.getElem_range,
      List.sum_take_succ _ _ h₂]
    push_cast
    omega

/-- All requests are decodes. -/
theorem SplitOf.all {queryLens : List Nat} {decodeThreshold : Nat}
    (h : ∀ i < queryLens.length, queryLens.getD i 0 ≤ decodeThreshold) :
    SplitOf queryLens decodeThreshold queryLens.length
      ((queryLens.length : Int), 0, (queryLens.sum : Int), 0) := by
  refine ⟨?_, ?_, Nat.le_refl _, h, ?_⟩
  · rw [List.take_length, List.drop_length, Int.sub_self]
    rfl
  · apply (List.findIdx_eq_length.mpr ?_).symm
    intro n hn
    obtain ⟨i, hi, rfl⟩ := List.mem_iff_getElem.mp hn
    have hle := h i hi
    rw [List.getD_eq_getElem _ _ hi] at hle
    exact decide_eq_false (Nat.not_lt.mpr hle)
  · intro i hi hlt
    exact absurd (h i hi) (Nat.not_le.mpr hlt)

end VllmEngine.Attention
