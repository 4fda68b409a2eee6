import VllmEngine.Lib.Python

/-!
# KV cache specs

The format of one layer's KV cache (`vllm/v1/kv_cache_interface.py`): block
size, attention type and the fields that decide the size of a page. Specs are
compared by value, field by field, which is how groups of equal layers are
recognised; the full-attention variants are specs of different classes.

Context parallelism is not modelled: both world sizes are 1.
-/

namespace VllmEngine

/-- The tensor types of KV caches. -/
inductive Dtype
  | float32
  | float16
  | bfloat16
  | float8
  | int8
  | uint8
deriving DecidableEq, Repr

/-- `get_dtype_size`. -/
def Dtype.size : Dtype → Nat
  | .float32 => 4
  | .float16 | .bfloat16 => 2
  | .float8 | .int8 | .uint8 => 1

/-- `KVQuantMode`. -/
inductive KVQuantMode
  | none
  | fp8PerTensor
  | int8PerTokenHead
  | fp8PerTokenHead
  | nvfp4
deriving DecidableEq, Repr

def KVQuantMode.isPerTokenHead : KVQuantMode → Bool
  | .int8PerTokenHead | .fp8PerTokenHead => true
  | .none | .fp8PerTensor | .nvfp4 => false

/-- The fields of `AttentionSpec` other than the block size. -/
structure AttentionFields where
  numKvHeads : Nat
  headSize : Nat
  dtype : Dtype
  kvQuantMode : KVQuantMode
  pageSizePadded : Option Nat
deriving DecidableEq, Repr

/-- The fields of `FullAttentionSpec` beyond those of `AttentionSpec`. -/
structure FullFields where
  headSizeV : Nat
  slidingWindow : Option Nat
  attentionChunkSize : Option Nat
deriving DecidableEq, Repr

/-- `mamba_cache_mode`. -/
inductive MambaCacheMode
  | none
  | all
  | align
deriving DecidableEq, Repr

/-- The fields of `MambaSpec` other than the block size. -/
structure MambaFields where
  shapes : List (List Nat)
  dtypes : List Dtype
  pageSizePadded : Option Nat
  mambaType : String
  mambaCacheMode : MambaCacheMode
  numSpeculativeBlocks : Nat
deriving DecidableEq, Repr

/-- The spec classes that have a manager. -/
inductive SpecKind
  | fullAttention (a : AttentionFields) (f : FullFields)
  | tqFullAttention (a : AttentionFields) (f : FullFields) (tqSlotSize : Nat)
  | mlaAttention (a : AttentionFields) (f : FullFields) (cacheDtypeStr : Option String)
  | sinkFullAttention (a : AttentionFields) (f : FullFields) (sinkLen : Option Nat)
  | chunkedLocalAttention (a : AttentionFields) (attentionChunkSize : Nat)
  | slidingWindow (a : AttentionFields) (slidingWindow : Nat)
  | mamba (m : MambaFields)
  | crossAttention (a : AttentionFields)
deriving DecidableEq, Repr

/-- `KVCacheSpec`. -/
structure KVCacheSpec where
  blockSize : Nat
  kind : SpecKind
deriving DecidableEq, Repr

namespace KVCacheSpec

/-- `isinstance(spec, FullAttentionSpec)`: the subclasses included. -/
def isFullAttention (s : KVCacheSpec) : Bool :=
  match s.kind with
  | .fullAttention .. | .tqFullAttention .. | .mlaAttention .. | .sinkFullAttention .. => true
  | .chunkedLocalAttention .. | .slidingWindow .. | .mamba .. | .crossAttention .. => false

/-- `type(spec) in (FullAttentionSpec, TQFullAttentionSpec)`. -/
def isPlainFullAttention (s : KVCacheSpec) : Bool :=
  match s.kind with
  | .fullAttention .. | .tqFullAttention .. => true
  | _ => false

def isCrossAttention (s : KVCacheSpec) : Bool :=
  match s.kind with
  | .crossAttention .. => true
  | _ => false

end KVCacheSpec

/-- `nvfp4_kv_cache_full_dim`. -/
def nvfp4KvCacheFullDim (headSize : Nat) : Nat := headSize / 2 + headSize / 16

/-- `AttentionSpec.real_page_size_bytes`. -/
def AttentionFields.realPageSizeBytes (a : AttentionFields) (blockSize : Nat) : Nat :=
  2 * blockSize * a.numKvHeads * a.headSize * a.dtype.size

/-- `FullAttentionSpec.real_page_size_bytes`. -/
def FullFields.realPageSizeBytes (f : FullFields) (a : AttentionFields) (blockSize : Nat) : Nat :=
  if a.kvQuantMode = .nvfp4 then
    blockSize * a.numKvHeads * (nvfp4KvCacheFullDim a.headSize + nvfp4KvCacheFullDim f.headSizeV)
      * a.dtype.size
  else blockSize * a.numKvHeads * (a.headSize + f.headSizeV) * a.dtype.size

/-- `AttentionSpec.page_size_bytes`, given the class's own
`real_page_size_bytes`. The padded size is asserted to be large enough. -/
def AttentionFields.pageSizeBytes (a : AttentionFields) (blockSize realPageSize : Nat) :
    Except Python.Error Nat :=
  let size := realPageSize
    + (if a.kvQuantMode.isPerTokenHead then 2 * blockSize * a.numKvHeads * Dtype.float32.size else 0)
  match a.pageSizePadded with
  | none => .ok size
  | some padded => if padded ≥ size then .ok padded else .error (.assertion "")

/-- `MambaSpec.page_size_bytes`. -/
def MambaFields.pageSizeBytes (m : MambaFields) : Except Python.Error Nat :=
  let size := ((m.shapes.zip m.dtypes).map fun p => p.1.prod * p.2.size).sum
  match m.pageSizePadded with
  | none => .ok size
  | some padded => if padded ≥ size then .ok padded else .error (.assertion "")

/-- `KVCacheSpec.page_size_bytes`. -/
def KVCacheSpec.pageSizeBytes (s : KVCacheSpec) : Except Python.Error Nat :=
  match s.kind with
  | .fullAttention a f | .sinkFullAttention a f _ =>
    a.pageSizeBytes s.blockSize (f.realPageSizeBytes a s.blockSize)
  | .tqFullAttention a f tqSlotSize =>
    a.pageSizeBytes s.blockSize
      (if tqSlotSize > 0 then s.blockSize * a.numKvHeads * tqSlotSize
        else f.realPageSizeBytes a s.blockSize)
  | .mlaAttention a _ cacheDtypeStr =>
    a.pageSizeBytes s.blockSize
      (if cacheDtypeStr = some "fp8_ds_mla" then s.blockSize * 656
        else s.blockSize * a.numKvHeads * a.headSize * a.dtype.size)
  | .chunkedLocalAttention a _ | .slidingWindow a _ | .crossAttention a =>
    a.pageSizeBytes s.blockSize (a.realPageSizeBytes s.blockSize)
  | .mamba m => m.pageSizeBytes

/-- The configuration values that `max_memory_usage_bytes` reads. -/
structure ModelLimits where
  maxModelLen : Nat
  maxNumBatchedTokens : Nat
  maxNumEncoderInputTokens : Nat
  mambaCacheMode : MambaCacheMode
  decodeContextParallelSize : Nat := 1
  prefillContextParallelSize : Nat := 1
deriving DecidableEq, Repr

/-- The tokens that one rank of the context parallel group stores. -/
def ModelLimits.rankModelLen (lim : ModelLimits) : Int :=
  if lim.decodeContextParallelSize * lim.prefillContextParallelSize > 1 then
    Python.cdiv lim.maxModelLen
      (lim.decodeContextParallelSize * lim.prefillContextParallelSize : Nat)
  else lim.maxModelLen

/-- The number of blocks that `max_memory_usage_bytes` multiplies the page size
with. -/
def KVCacheSpec.maxBlocks (s : KVCacheSpec) (lim : ModelLimits) : Int :=
  match s.kind with
  | .fullAttention .. | .tqFullAttention .. | .mlaAttention .. | .sinkFullAttention .. =>
    Python.cdiv lim.rankModelLen s.blockSize
  | .chunkedLocalAttention _ chunk =>
    Python.cdiv (min ((chunk : Int) + lim.maxNumBatchedTokens) lim.maxModelLen) s.blockSize
  | .slidingWindow _ w =>
    -- one more, because the window may not start at a block boundary
    Python.cdiv (min ((w : Int) - 1 + lim.maxNumBatchedTokens) lim.maxModelLen) s.blockSize + 1
  | .mamba m =>
    match lim.mambaCacheMode with
    | .all => Python.cdiv lim.maxModelLen s.blockSize
    | .align => 2 + m.numSpeculativeBlocks
    | .none => 1 + m.numSpeculativeBlocks
  | .crossAttention _ => Python.cdiv lim.maxNumEncoderInputTokens s.blockSize

/-- The assertion of `SlidingWindowSpec.max_memory_usage_bytes`. -/
def KVCacheSpec.checkParallel (s : KVCacheSpec) (lim : ModelLimits) : Except Python.Error Unit :=
  match s.kind with
  | .slidingWindow .. => Python.require (decide (lim.decodeContextParallelSize = 1))
      "DCP not support sliding window."
  | _ => .ok ()

/-- `KVCacheSpec.max_memory_usage_bytes`. -/
def KVCacheSpec.maxMemoryUsageBytes (s : KVCacheSpec) (lim : ModelLimits) :
    Except Python.Error Int := do
  s.checkParallel lim
  let page ← s.pageSizeBytes
  return s.maxBlocks lim * page

/-! ## Small specs -/

/-- One half-precision attention layer of the given number of heads. -/
def halfAttention (numKvHeads : Nat) : AttentionFields where
  numKvHeads := numKvHeads
  headSize := 8
  dtype := .float16
  kvQuantMode := .none
  pageSizePadded := none

/-- A full-attention layer. -/
def fullSpec (blockSize numKvHeads : Nat) : KVCacheSpec where
  blockSize := blockSize
  kind := .fullAttention (halfAttention numKvHeads) ⟨8, none, none⟩

/-- A sliding-window layer. -/
def slidingSpec (blockSize numKvHeads window : Nat) : KVCacheSpec where
  blockSize := blockSize
  kind := .slidingWindow (halfAttention numKvHeads) window

end VllmEngine
