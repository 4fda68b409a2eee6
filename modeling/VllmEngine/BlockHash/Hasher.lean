import VllmEngine.Lib.HashChain
import VllmEngine.Request

/-!
# Block hashing

`request_block_hasher` (`vllm/v1/core/kv_cache_utils.py`) turns the tokens of a
request into a chain of block hashes, one per full block. Each hash covers the
previous hash, the block's tokens and a tuple of *extra keys*: LoRA name,
multimodal items, cache salt and a digest of the prompt embeddings.

The hasher is incremental: it starts after the hashes already on the request
and threads an index into the sorted multimodal features through the blocks.
When it resumes it starts that index at `-1`, the last feature.

Mirroring notes:
- The hash function is a parameter. Its digests are a type `H` of their own,
  so a digest is never the falsy empty byte string that `hash_block_tokens`
  would take for a missing parent.
- The memo `_prompt_embeds_per_block_hashes` only avoids rehashing a slice of
  an immutable tensor and is not modelled.
- `-start_mm_idx <= len(mm_features)` is asserted only for a non-empty feature
  list, where the one negative index in use, `-1`, satisfies it.
-/

namespace VllmEngine

/-- One entry of the extra-key tuple. LoRA names and cache salts are both plain
strings there. -/
inductive ExtraKey
  | str (s : String)
  | mm (identifier : String) (offset : Int)
  | digest (d : List UInt8)
deriving DecidableEq, Repr

/-- What `get_request_block_hasher` closes over, together with the module's
`NONE_HASH` and `hashlib.sha256`. -/
structure BlockHasher (H : Type) where
  blockSize : Nat
  hashFunction : H × List Token × Option (List ExtraKey) → H
  noneHash : H
  sha256 : List UInt8 → List UInt8

variable {H : Type}

/-- The `while` loop of `_gen_mm_extra_hash_keys`, over the features from index
`idx` on. Returns the keys and the index to continue with. -/
def mmKeysLoop (startTokenIdx endTokenIdx : Nat) :
    List MultiModalFeatureSpec → Nat → List ExtraKey × Nat
  | [], idx => ([], idx)
  | f :: fs, idx =>
    if endTokenIdx > f.offset then
      if startTokenIdx ≥ f.stop then
        -- this block has passed the current item
        mmKeysLoop startTokenIdx endTokenIdx fs (idx + 1)
      else
        let key := ExtraKey.mm f.identifier ((f.offset : Int) - startTokenIdx)
        if endTokenIdx ≥ f.stop then
          let (keys, next) := mmKeysLoop startTokenIdx endTokenIdx fs (idx + 1)
          (key :: keys, next)
        else ([key], idx)
    else ([], idx)

/-- `_gen_mm_extra_hash_keys`. -/
def genMmExtraHashKeys (r : Request H) (startTokenIdx endTokenIdx : Nat) (startMmIdx : Int) :
    List ExtraKey × Int :=
  match r.mmFeatures.getLast? with
  | none => ([], startMmIdx)
  | some last =>
    if last.stop ≤ startTokenIdx then ([], startMmIdx)
    else
      let idx : Nat :=
        if startMmIdx < 0 then (r.mmFeatures.length + startMmIdx).toNat else startMmIdx.toNat
      let (keys, next) := mmKeysLoop startTokenIdx endTokenIdx (r.mmFeatures.drop idx) idx
      (keys, next)

/-- `_gen_lora_extra_hash_keys`. -/
def genLoraExtraHashKeys (r : Request H) : List ExtraKey :=
  match r.loraRequest with
  | none => []
  | some lora => [.str lora.loraName]

/-- The salt key: first block only, and only for a non-empty salt. -/
def genCacheSaltKeys (r : Request H) (startTokenIdx : Nat) : List ExtraKey :=
  match r.cacheSalt with
  | none => []
  | some salt => if startTokenIdx = 0 ∧ salt ≠ "" then [.str salt] else []

/-- `_gen_prompt_embeds_extra_hash_keys`. -/
def genPromptEmbedsExtraHashKeys (hs : BlockHasher H) (r : Request H)
    (startTokenIdx endTokenIdx : Nat) : List ExtraKey :=
  match r.promptEmbeds with
  | none => []
  | some embeds => [.digest (hs.sha256 (embeds.slice startTokenIdx endTokenIdx).tensorData)]

/-- The concatenation in `generate_block_hash_extra_keys`, with `None` for an
empty tuple. -/
def packExtraKeys (keys : List ExtraKey) : Option (List ExtraKey) :=
  if keys = [] then none else some keys

/-- `generate_block_hash_extra_keys`. -/
def generateBlockHashExtraKeys (hs : BlockHasher H) (r : Request H)
    (startTokenIdx endTokenIdx : Nat) (startMmIdx : Int) : Option (List ExtraKey) × Int :=
  let (mmKeys, newStartMmIdx) := genMmExtraHashKeys r startTokenIdx endTokenIdx startMmIdx
  (packExtraKeys (genLoraExtraHashKeys r ++ mmKeys ++ genCacheSaltKeys r startTokenIdx
      ++ genPromptEmbedsExtraHashKeys hs r startTokenIdx endTokenIdx),
    newStartMmIdx)

/-- `hash_block_tokens`. -/
def hashBlockTokens (hs : BlockHasher H) (parentBlockHash : Option H) (tokens : List Token)
    (extraKeys : Option (List ExtraKey)) : H :=
  hs.hashFunction (parentBlockHash.getD hs.noneHash, tokens, extraKeys)

/-- `request.all_token_ids[start:end]`. -/
def Request.blockTokens (r : Request H) (startTokenIdx endTokenIdx : Nat) : List Token :=
  (r.allTokenIds.take endTokenIdx).drop startTokenIdx

/-- The `while True` loop of `request_block_hasher`. Every round advances by a
block, so fuel `num_tokens + 1` is never used up for a positive block size. -/
def hasherLoop (hs : BlockHasher H) (r : Request H) :
    Nat → Nat → Option H → Int → List H
  | 0, _, _, _ => []
  | fuel + 1, startTokenIdx, prev, currMmIdx =>
    if startTokenIdx + hs.blockSize > r.numTokens then []
    else
      let keys := generateBlockHashExtraKeys hs r startTokenIdx (startTokenIdx + hs.blockSize)
        currMmIdx
      let blockHash := hashBlockTokens hs prev
        (r.blockTokens startTokenIdx (startTokenIdx + hs.blockSize)) keys.1
      blockHash :: hasherLoop hs r fuel (startTokenIdx + hs.blockSize) (some blockHash) keys.2

/-- `request_block_hasher`: the hashes of the full blocks not yet hashed. -/
def requestBlockHasher (hs : BlockHasher H) (r : Request H) : List H :=
  let startTokenIdx := r.blockHashes.length * hs.blockSize
  if startTokenIdx + hs.blockSize > r.numTokens then []
  else
    hasherLoop hs r (r.numTokens + 1) startTokenIdx r.blockHashes.getLast?
      (if startTokenIdx > 0 then -1 else 0)

/-- `Request.update_block_hashes`; without a hasher the list stays empty. -/
def Request.updateBlockHashes (hs : Option (BlockHasher H)) (r : Request H) : Request H :=
  match hs with
  | none => r
  | some hs => { r with blockHashes := r.blockHashes ++ requestBlockHasher hs r }

/-- `Request.append_output_token_ids`. -/
def Request.appendOutputTokenIds (hs : Option (BlockHasher H)) (r : Request H)
    (tokenIds : List Token) : Request H :=
  Request.updateBlockHashes hs
    { r with outputTokenIds := r.outputTokenIds ++ tokenIds
             allTokenIds := r.allTokenIds ++ tokenIds }

/-- The constructor arguments of a `Request`, as an `EngineCoreRequest` carries
them. -/
structure EngineCoreRequest where
  requestId : ReqId
  promptTokenIds : Option (List Token)
  promptEmbeds : Option PromptEmbeds
  mmFeatures : List MultiModalFeatureSpec
  samplingParams : Option SamplingParams
  poolingParams : Option PoolingParams
  arrivalTime : Int
  loraRequest : Option LoRARequest
  cacheSalt : Option String
  priority : Int
  resumable : Bool
deriving DecidableEq, Repr

/-- `length_from_prompt_token_ids_or_embeds`. -/
def lengthFromPromptTokenIdsOrEmbeds (tokens : Option (List Token))
    (embeds : Option PromptEmbeds) : Except Python.Error Nat :=
  match tokens, embeds with
  | none, none => .error (.value "Neither prompt_token_ids nor prompt_embeds were defined.")
  | none, some embeds => .ok embeds.rows.length
  | some toks, none => .ok toks.length
  | some toks, some embeds =>
    if embeds.rows.length ≠ toks.length then
      .error (.value "Prompt token ids and prompt embeds had different lengths")
    else .ok toks.length

/-- The `max_tokens` and initial status chosen by `Request.__init__`. -/
def initialLimits (e : EngineCoreRequest) : Except Python.Error (Int × RequestStatus) :=
  match e.poolingParams, e.samplingParams with
  | some _, _ => .ok (1, .waiting)
  | none, some p =>
    .ok (p.maxTokens,
      if p.structuredOutputs then .waitingForStructuredOutputGrammar else .waiting)
  | none, none => .error (.value "sampling_params and pooling_params can't both be unset")

/-- `Request.get_skip_reading_prefix_cache`. -/
def getSkipReadingPrefixCache (e : EngineCoreRequest) : Bool :=
  match e.samplingParams.bind (·.skipReadingPrefixCache) with
  | some b => b
  | none =>
    match e.poolingParams.bind (·.skipReadingPrefixCache) with
    | some b => b
    | none => false

/-- `Request.__init__` up to the first `update_block_hashes`. -/
def Request.fresh (e : EngineCoreRequest) (numPromptTokens : Nat) (maxTokens : Int)
    (status : RequestStatus) : Request H :=
  { requestId := e.requestId
    priority := e.priority
    arrivalTime := e.arrivalTime
    samplingParams := e.samplingParams
    poolingParams := e.poolingParams
    loraRequest := e.loraRequest
    useStructuredOutput := (e.samplingParams.map (·.structuredOutputs)).getD false
    status := status
    stopReason := none
    maxTokens := maxTokens
    promptTokenIds := e.promptTokenIds
    promptEmbeds := e.promptEmbeds
    numPromptTokens := numPromptTokens
    outputTokenIds := []
    allTokenIds := e.promptTokenIds.getD (List.replicate numPromptTokens 0)
    numOutputPlaceholders := 0
    discardLatestAsyncTokens := false
    specTokenIds := []
    numComputedTokens := 0
    cacheSalt := e.cacheSalt
    mmFeatures := e.mmFeatures
    isPrefillChunk := false
    numPreemptions := 0
    blockHashes := []
    skipReadingPrefixCache := getSkipReadingPrefixCache e
    resumable := e.resumable
    streamingQueue := none }

/-- `Request.from_engine_core_request`. -/
def Request.fromEngineCoreRequest (hs : Option (BlockHasher H)) (e : EngineCoreRequest) :
    Except Python.Error (Request H) := do
  let (maxTokens, status) ← initialLimits e
  let n ← lengthFromPromptTokenIdsOrEmbeds e.promptTokenIds e.promptEmbeds
  return Request.updateBlockHashes hs (Request.fresh e n maxTokens status)

/-! ## Collision-free hashing -/

/-- What the hashes rest on: an injective hash function whose image misses
`NONE_HASH`, and a collision-free digest of the prompt embeddings. -/
structure CollisionFree (hs : BlockHasher H) : Prop where
  hash_inj : Function.Injective hs.hashFunction
  noneHash_fresh : ∀ x, hs.hashFunction x ≠ hs.noneHash
  sha256_inj : Function.Injective hs.sha256

/-- Digests as terms: the free hash function, which has no collisions. -/
inductive Digest
  | seed
  | node (parent : Digest) (tokens : List Token) (extraKeys : Option (List ExtraKey))
deriving DecidableEq, Repr

/-- The block hasher over free digests. -/
def freeHasher (blockSize : Nat) : BlockHasher Digest where
  blockSize := blockSize
  hashFunction := fun x => .node x.1 x.2.1 x.2.2
  noneHash := .seed
  sha256 := id

theorem freeHasher_collisionFree (blockSize : Nat) : CollisionFree (freeHasher blockSize) where
  hash_inj := by
    rintro ⟨a, t, k⟩ ⟨b, u, l⟩ h
    obtain ⟨rfl, rfl, rfl⟩ := Digest.node.inj h
    rfl
  noneHash_fresh := by
    intro x h
    cases h
  sha256_inj := fun _ _ h => h

/-- A greedy completion of a token prompt, with none of the extras. -/
def plainPrompt (requestId : ReqId) (tokens : List Token) : EngineCoreRequest where
  requestId := requestId
  promptTokenIds := some tokens
  promptEmbeds := none
  mmFeatures := []
  samplingParams := some
    { maxTokens := 16, minTokens := 0, eosTokenId := none, stopTokenIds := []
      repetitionDetection := none, structuredOutputs := false, skipReadingPrefixCache := none }
  poolingParams := none
  arrivalTime := 0
  loraRequest := none
  cacheSalt := none
  priority := 0
  resumable := false

end VllmEngine
