import VllmEngine.Kv.Spec
import VllmEngine.Lib.Dict
import VllmEngine.Lib.Steady

/-!
# The longest model length that fits

`estimate_max_model_len` and `_estimate_max_model_len_from_groups`
(`vllm/v1/core/kv_cache_utils.py`) search for the largest `max_model_len` whose KV cache fits into
the memory. They write each length they try into the config that the specs read, and restore the
config at the end. The binary search is right because the memory of every spec grows with the
length, through all the divisions and minima in it.

Mirroring notes:
- A group has the spec of its layers, or keeps each layer's spec (`UniformTypeKVCacheSpecs`).
- Encoder-only layers have no KV cache and never reach this code. Logging is left out.

> `maxMemoryUsageBytes_steady`, `fromGroups_steady`: the memory grows with the length,
> `estimates_longest`: both functions find the longest length that fits and leave the config as it
> was.
-/

namespace VllmEngine

/-- The specs of the layers of a worker or of the model. -/
abbrev LayerSpecs := Dict String KVCacheSpec

/-- The spec of a group: that of its layers, or `UniformTypeKVCacheSpecs`. -/
inductive GroupSpec
  | layer (spec : KVCacheSpec)
  | uniformType (blockSize : Nat) (kvCacheSpecs : LayerSpecs)
deriving DecidableEq

/-- `KVCacheGroupSpec` with either kind of spec. -/
structure LayerGroup where
  layerNames : List String
  kvCacheSpec : GroupSpec
deriving DecidableEq

namespace KvConfig

/-- `kv_cache_spec.page_size_bytes`. -/
def pageSizeBytes : GroupSpec → Except Python.Error Nat
  | .layer s => s.pageSizeBytes
  | .uniformType _ specs => do
    let pages ← specs.values.mapM (·.pageSizeBytes)
    return pages.sum

/-- `cdiv(spec.max_memory_usage_bytes(vllm_config), spec.page_size_bytes)`. -/
def numPages (lim : ModelLimits) (s : KVCacheSpec) : Except Python.Error Int := do
  let bytes ← s.maxMemoryUsageBytes lim
  let page ← s.pageSizeBytes
  if page = 0 then throw (.zeroDivision "integer division or modulo by zero")
  return Python.cdiv bytes page

/-- `kv_cache_spec.max_memory_usage_bytes(vllm_config)`. -/
def maxMemoryUsageBytes (lim : ModelLimits) : GroupSpec → Except Python.Error Int
  | .layer s => s.maxMemoryUsageBytes lim
  | .uniformType size specs => do
    let pages ← specs.values.mapM (numPages lim)
    match pages.max? with
    | none => throw (.value "max() arg is an empty sequence")
    | some n =>
      let page ← pageSizeBytes (.uniformType size specs)
      return n * page

/-- `get_uniform_page_size`. -/
def getUniformPageSize (specs : List GroupSpec) : Except Python.Error Nat := do
  let sizes ← specs.mapM pageSizeBytes
  match sizes with
  | size :: rest => if rest.all (· = size) then return size else throw (.assertion "")
  | [] => throw (.assertion "")

/-- `max(len(group.layer_names) for group in kv_cache_groups)`. -/
def groupSize (groups : List LayerGroup) : Nat :=
  (groups.map (·.layerNames.length)).foldl max 0

/-- The general case of `_max_memory_usage_bytes_from_groups`. -/
def sharedMemoryUsage (lim : ModelLimits) (groups : List LayerGroup) :
    Except Python.Error Int := do
  let page ← getUniformPageSize (groups.map (·.kvCacheSpec))
  let blocks ← groups.mapM fun g => do
    let bytes ← maxMemoryUsageBytes lim g.kvCacheSpec
    if page = 0 then throw (.zeroDivision "integer division or modulo by zero")
    return Python.cdiv bytes page
  return (groupSize groups : Int) * page * blocks.sum

/-- `_max_memory_usage_bytes_from_groups`. -/
def maxMemoryUsageBytesFromGroups (lim : ModelLimits) : List LayerGroup → Except Python.Error Int
  | [] => .ok 0
  | [⟨_, .uniformType _ specs⟩] => do
    let bytes ← specs.values.mapM (·.maxMemoryUsageBytes lim)
    return bytes.sum
  | groups => sharedMemoryUsage lim groups

end KvConfig

namespace ModelLength

/-- `max_memory_usage_bytes` of `kv_cache_utils`. -/
def maxMemoryUsageBytes (lim : ModelLimits) (specs : List KVCacheSpec) :
    Except Python.Error Int := do
  let bytes ← specs.mapM (·.maxMemoryUsageBytes lim)
  return bytes.sum

/-- `fits_in_memory` and `fits`: the answer, and the config they leave. -/
def fitsInMemory (usage : ModelLimits → Except Python.Error Int) (availableMemory : Int)
    (lim : ModelLimits) (modelLen : Nat) : ModelLimits × Except Python.Error Bool :=
  let lim := { lim with maxModelLen := modelLen }
  (lim, do
    let needed ← usage lim
    return decide (needed ≤ availableMemory))

/-- The loop of the binary search, for at most so many rounds. -/
def searchRounds (fits : ModelLimits → Nat → ModelLimits × Except Python.Error Bool) :
    Nat → ModelLimits → Nat → Nat → Nat → ModelLimits × Except Python.Error Nat
  | 0, lim, _, _, result => (lim, .ok result)
  | bound + 1, lim, left, right, result =>
    if left ≤ right then
      let mid := (left + right) / 2
      match fits lim mid with
      | (lim, .error e) => (lim, .error e)
      | (lim, .ok true) => searchRounds fits bound lim (mid + 1) right mid
      | (lim, .ok false) => searchRounds fits bound lim left (mid - 1) result
    else (lim, .ok result)

/-- The `try` block, and the config it leaves. Every round shortens the interval, so that its
length is enough rounds. -/
def searchLength (usage : ModelLimits → Except Python.Error Int) (availableMemory : Int)
    (lim : ModelLimits) : ModelLimits × Except Python.Error Nat :=
  let originalMaxModelLen := lim.maxModelLen
  match fitsInMemory usage availableMemory lim 1 with
  | (lim, .error e) => (lim, .error e)
  | (lim, .ok false) => (lim, .ok 0)
  | (lim, .ok true) =>
    searchRounds (fitsInMemory usage availableMemory) originalMaxModelLen lim 1
      originalMaxModelLen 1

/-- The `finally` block. -/
def restoring (lim : ModelLimits) (res : ModelLimits × Except Python.Error Nat) :
    ModelLimits × Except Python.Error Nat :=
  ({ res.1 with maxModelLen := lim.maxModelLen }, res.2)

/-- `estimate_max_model_len`. -/
def estimateMaxModelLen (lim : ModelLimits) (specs : List KVCacheSpec) (availableMemory : Int) :
    ModelLimits × Except Python.Error Nat :=
  restoring lim (searchLength (fun lim => maxMemoryUsageBytes lim specs) availableMemory lim)

/-- `_estimate_max_model_len_from_groups`. -/
def estimateMaxModelLenFromGroups (lim : ModelLimits) (groups : List LayerGroup)
    (availableMemory : Int) : ModelLimits × Except Python.Error Nat :=
  restoring lim (searchLength (fun lim => KvConfig.maxMemoryUsageBytesFromGroups lim groups)
    availableMemory lim)

/-! ## The memory grows with the length -/

theorem cdiv_monotone {b : Int} (hb : 0 < b) : Monotone fun a => Python.cdiv a b := by
  intro a a' h
  exact (Python.cdiv_le_iff hb).mpr (Int.le_trans h ((Python.cdiv_le_iff hb).mp (Int.le_refl _)))

theorem rankModelLen_monotone (lim : ModelLimits) :
    Monotone fun len => { lim with maxModelLen := len }.rankModelLen := by
  intro len len' h
  have hcast : (len : Int) ≤ len' := by exact_mod_cast h
  show { lim with maxModelLen := len }.rankModelLen ≤ { lim with maxModelLen := len' }.rankModelLen
  unfold ModelLimits.rankModelLen
  dsimp only
  split
  · exact cdiv_monotone (by omega) hcast
  · exact hcast

/-- The number of blocks of every spec grows with the length. -/
theorem maxBlocks_monotone {s : KVCacheSpec} (hs : 0 < s.blockSize) (lim : ModelLimits) :
    Monotone fun len => s.maxBlocks { lim with maxModelLen := len } := by
  have hbs : (0 : Int) < s.blockSize := by exact_mod_cast hs
  intro len len' h
  have hcast : (len : Int) ≤ len' := by exact_mod_cast h
  have hrank := cdiv_monotone hbs (rankModelLen_monotone lim h)
  have hmin : ∀ n : Int,
      Python.cdiv (min n len) s.blockSize ≤ Python.cdiv (min n len') s.blockSize := fun n =>
    cdiv_monotone hbs (min_le_min (Int.le_refl n) hcast)
  show s.maxBlocks { lim with maxModelLen := len } ≤ s.maxBlocks { lim with maxModelLen := len' }
  unfold KVCacheSpec.maxBlocks
  split
  · exact hrank
  · exact hrank
  · exact hrank
  · exact hrank
  · exact hmin _
  · exact Int.add_le_add_right (hmin _) 1
  · dsimp only
    split
    · exact cdiv_monotone hbs hcast
    · exact Int.le_refl _
    · exact Int.le_refl _
  · exact Int.le_refl _

theorem spec_steady {s : KVCacheSpec} (hs : 0 < s.blockSize) (lim : ModelLimits) :
    Steady fun len => s.maxMemoryUsageBytes { lim with maxModelLen := len } := by
  show Steady fun len => s.checkParallel lim >>= fun _ => s.pageSizeBytes >>= fun page =>
    .ok (s.maxBlocks { lim with maxModelLen := len } * page)
  refine Steady.const fun _ => Steady.const fun page => Steady.ok fun len len' h => ?_
  exact Int.mul_le_mul_of_nonneg_right (maxBlocks_monotone hs lim h) (Int.natCast_nonneg page)

theorem maxMemoryUsageBytes_steady {specs : List KVCacheSpec} (hs : ∀ s ∈ specs, 0 < s.blockSize)
    (lim : ModelLimits) :
    Steady fun len => maxMemoryUsageBytes { lim with maxModelLen := len } specs :=
  Steady.sum fun s hmem => spec_steady (hs s hmem) lim

/-- The division by a page size, as it is written everywhere. -/
theorem pages_steady (page : Nat) :
    Steady fun bytes : Int => if page = 0 then
        throw (.zeroDivision "integer division or modulo by zero")
      else (pure (Python.cdiv bytes page) : Except Python.Error Int) := by
  by_cases hpage : page = 0
  · simp only [if_pos hpage]
    exact Steady.error _
  · simp only [if_neg hpage]
    exact Steady.ok (cdiv_monotone (by omega))

theorem numPages_steady {s : KVCacheSpec} (hs : 0 < s.blockSize) (lim : ModelLimits) :
    Steady fun len => KvConfig.numPages { lim with maxModelLen := len } s :=
  (spec_steady hs lim).bind (Steady.const pages_steady)

/-- The specs of the layers behind a group's spec. -/
def layerSpecs : GroupSpec → List KVCacheSpec
  | .layer s => [s]
  | .uniformType _ specs => specs.values

theorem group_steady {g : GroupSpec} (hg : ∀ s ∈ layerSpecs g, 0 < s.blockSize)
    (lim : ModelLimits) :
    Steady fun len => KvConfig.maxMemoryUsageBytes { lim with maxModelLen := len } g := by
  cases g with
  | layer s => exact spec_steady (hg s (List.mem_singleton_self s)) lim
  | uniformType size specs =>
    refine Steady.max (fun s hmem => numPages_steady (hg s hmem) lim) ?_
    refine Steady.const fun page => Steady.ok fun n n' h => ?_
    exact Int.mul_le_mul_of_nonneg_right h (Int.natCast_nonneg page)

theorem shared_steady {groups : List LayerGroup}
    (hg : ∀ g ∈ groups, ∀ s ∈ layerSpecs g.kvCacheSpec, 0 < s.blockSize) (lim : ModelLimits) :
    Steady fun len => KvConfig.sharedMemoryUsage { lim with maxModelLen := len } groups := by
  refine Steady.const fun page => ?_
  have htimes : Steady fun n : Int =>
      (pure ((KvConfig.groupSize groups : Int) * page * n) : Except Python.Error Int) := by
    refine Steady.ok fun n n' h => Int.mul_le_mul_of_nonneg_left h ?_
    exact Int.mul_nonneg (Int.natCast_nonneg _) (Int.natCast_nonneg page)
  exact Steady.sum_bind (fun g hmem => (group_steady (hg g hmem) lim).bind (pages_steady page))
    htimes

theorem fromGroups_steady {groups : List LayerGroup}
    (hg : ∀ g ∈ groups, ∀ s ∈ layerSpecs g.kvCacheSpec, 0 < s.blockSize) (lim : ModelLimits) :
    Steady fun len =>
      KvConfig.maxMemoryUsageBytesFromGroups { lim with maxModelLen := len } groups := by
  unfold KvConfig.maxMemoryUsageBytesFromGroups
  split
  · exact Steady.ok fun _ _ _ => Int.le_refl 0
  next names size specs =>
    refine Steady.sum fun s hmem => spec_steady (hg _ (List.mem_singleton_self _) s hmem) lim
  next => exact shared_steady hg lim

/-! ## The search -/

/-- The two configs differ in the length at most. -/
def SameBut (lim lim' : ModelLimits) : Prop :=
  { lim' with maxModelLen := lim.maxModelLen } = lim

theorem SameBut.refl (lim : ModelLimits) : SameBut lim lim := rfl

theorem SameBut.with_eq {lim lim' : ModelLimits} (h : SameBut lim lim') (len : Nat) :
    { lim' with maxModelLen := len } = { lim with maxModelLen := len } := by
  rw [← h]

theorem SameBut.set {lim lim' : ModelLimits} (h : SameBut lim lim') (len : Nat) :
    SameBut lim { lim' with maxModelLen := len } := by
  show { lim' with maxModelLen := lim.maxModelLen } = lim
  exact h

/-- `n` is the greatest length up to `maxLen` whose memory fits, or zero if none fits. -/
def LongestFitting (usage : Nat → Except Python.Error Int) (availableMemory : Int)
    (maxLen n : Nat) : Prop :=
  n ≤ maxLen ∧ (n = 0 ∨ ∃ needed, usage n = .ok needed ∧ needed ≤ availableMemory) ∧
    ∀ len, n < len → len ≤ maxLen → ∃ needed, usage len = .ok needed ∧ availableMemory < needed

section Search

variable {usage : ModelLimits → Except Python.Error Int} {lim : ModelLimits} {f : Nat → Int}
  {availableMemory : Int}

theorem fitsInMemory_eq (hf : ∀ len, usage { lim with maxModelLen := len } = .ok (f len))
    {lim' : ModelLimits} (hsame : SameBut lim lim') (len : Nat) :
    fitsInMemory usage availableMemory lim' len
      = ({ lim with maxModelLen := len }, .ok (decide (f len ≤ availableMemory))) := by
  unfold fitsInMemory
  dsimp only
  rw [hsame.with_eq, hf]
  rfl

/-- **The binary search.** `result` fits and everything beyond `right` does not; `left` is at most
one more than `result`, so that nothing is left to try when the interval is empty. The induction is
on the bound, which the interval does not exceed. -/
theorem searchRounds_spec (hf : ∀ len, usage { lim with maxModelLen := len } = .ok (f len))
    (hmono : Monotone f) {maxLen : Nat} :
    ∀ (bound : Nat) (lim' : ModelLimits) (left right result : Nat), SameBut lim lim' →
      right + 1 - left ≤ bound → 1 ≤ left → left ≤ result + 1 → result ≤ maxLen →
      f result ≤ availableMemory → right ≤ maxLen →
      (∀ len, right < len → len ≤ maxLen → availableMemory < f len) →
      ∃ lim'' n, searchRounds (fitsInMemory usage availableMemory) bound lim' left right result
          = (lim'', .ok n) ∧ SameBut lim lim'' ∧ n ≤ maxLen ∧ f n ≤ availableMemory ∧
        ∀ len, n < len → len ≤ maxLen → availableMemory < f len := by
  intro bound
  induction bound with
  | zero =>
    intro lim' left right result hsame hbound hleft hres hmax hfit hright hbeyond
    exact ⟨lim', result, rfl, hsame, hmax, hfit, fun len hlen => hbeyond len (by omega)⟩
  | succ bound ih =>
    intro lim' left right result hsame hbound hleft hres hmax hfit hright hbeyond
    rw [searchRounds]
    by_cases hle : left ≤ right
    · rw [if_pos hle]
      dsimp only
      rw [fitsInMemory_eq hf hsame]
      have hset : SameBut lim { lim with maxModelLen := (left + right) / 2 } :=
        (SameBut.refl lim).set _
      by_cases hmid : f ((left + right) / 2) ≤ availableMemory
      · -- the middle fits: search above it
        rw [decide_eq_true hmid]
        exact ih _ _ _ _ hset (by omega) (by omega) (by omega) (by omega) hmid hright hbeyond
      · -- it does not, and neither does anything above it
        rw [decide_eq_false hmid]
        refine ih _ _ _ _ hset (by omega) hleft hres hmax hfit (by omega) fun len hlen hlen' => ?_
        have := hmono (show (left + right) / 2 ≤ len by omega)
        omega
    · rw [if_neg hle]
      exact ⟨lim', result, rfl, hsame, hmax, hfit, fun len hlen => hbeyond len (by omega)⟩

/-- What a search finds: nothing if the memory cannot be computed, and else the longest length. In
any case the config is the one before the search. -/
theorem restoring_searchLength (hlen : 1 ≤ lim.maxModelLen)
    (hsteady : Steady fun len => usage { lim with maxModelLen := len }) :
    (restoring lim (searchLength usage availableMemory lim)).1 = lim ∧
    ((∃ e, (∀ len, usage { lim with maxModelLen := len } = .error e) ∧
        (restoring lim (searchLength usage availableMemory lim)).2 = .error e) ∨
      ∃ n, (restoring lim (searchLength usage availableMemory lim)).2 = .ok n ∧
        LongestFitting (fun len => usage { lim with maxModelLen := len }) availableMemory
          lim.maxModelLen n) := by
  rcases hsteady with ⟨e, he⟩ | ⟨f, hmono, hf⟩
  · have hsearch : searchLength usage availableMemory lim
        = ({ lim with maxModelLen := 1 }, .error e) := by
      have hone : usage { lim with maxModelLen := 1 } = .error e := he 1
      unfold searchLength fitsInMemory
      dsimp only
      rw [hone]
      rfl
    rw [hsearch]
    exact ⟨rfl, Or.inl ⟨e, he, rfl⟩⟩
  · have hf' : ∀ len, usage { lim with maxModelLen := len } = .ok (f len) := hf
    have hfirst : fitsInMemory usage availableMemory lim 1
        = ({ lim with maxModelLen := 1 }, .ok (decide (f 1 ≤ availableMemory))) :=
      fitsInMemory_eq hf' (SameBut.refl lim) 1
    by_cases hone : f 1 ≤ availableMemory
    · rw [decide_eq_true hone] at hfirst
      obtain ⟨lim'', n, hrounds, hsame, hn, hfit, hbeyond⟩ :=
        searchRounds_spec hf' hmono lim.maxModelLen { lim with maxModelLen := 1 } 1
          lim.maxModelLen 1 ((SameBut.refl lim).set 1) (by omega) (by omega) (by omega) hlen hone
          (Nat.le_refl _) fun len h h' => absurd h (Nat.not_lt.mpr h')
      have hsearch : searchLength usage availableMemory lim = (lim'', .ok n) := by
        unfold searchLength
        dsimp only
        rw [hfirst]
        exact hrounds
      rw [hsearch]
      refine ⟨hsame, Or.inr ⟨n, rfl, hn, Or.inr ⟨f n, hf n, hfit⟩, fun len h h' => ?_⟩⟩
      exact ⟨f len, hf len, hbeyond len h h'⟩
    · rw [decide_eq_false hone] at hfirst
      have hsearch : searchLength usage availableMemory lim
          = ({ lim with maxModelLen := 1 }, .ok 0) := by
        unfold searchLength
        dsimp only
        rw [hfirst]
      rw [hsearch]
      refine ⟨rfl, Or.inr ⟨0, rfl, Nat.zero_le _, Or.inl rfl, fun len h _ => ⟨f len, hf len, ?_⟩⟩⟩
      have := hmono (show 1 ≤ len from h)
      omega

end Search

/-- **The estimates are exact.** For any specs and groups with positive block sizes, any length to
start from and any memory, both functions return the greatest length whose memory fits (zero if
none does), and leave the config as it was. They raise only what the memory of every length
raises. -/
theorem estimates_longest (lim : ModelLimits) (hlen : 1 ≤ lim.maxModelLen)
    (availableMemory : Int) :
    (∀ specs : List KVCacheSpec, (∀ s ∈ specs, 0 < s.blockSize) →
      (estimateMaxModelLen lim specs availableMemory).1 = lim ∧
      ((∃ e, (∀ len, maxMemoryUsageBytes { lim with maxModelLen := len } specs = .error e) ∧
          (estimateMaxModelLen lim specs availableMemory).2 = .error e) ∨
        ∃ n, (estimateMaxModelLen lim specs availableMemory).2 = .ok n ∧
          LongestFitting (fun len => maxMemoryUsageBytes { lim with maxModelLen := len } specs)
            availableMemory lim.maxModelLen n)) ∧
    (∀ groups : List LayerGroup,
      (∀ g ∈ groups, ∀ s ∈ layerSpecs g.kvCacheSpec, 0 < s.blockSize) →
      (estimateMaxModelLenFromGroups lim groups availableMemory).1 = lim ∧
      ((∃ e, (∀ len, KvConfig.maxMemoryUsageBytesFromGroups { lim with maxModelLen := len } groups
            = .error e) ∧
          (estimateMaxModelLenFromGroups lim groups availableMemory).2 = .error e) ∨
        ∃ n, (estimateMaxModelLenFromGroups lim groups availableMemory).2 = .ok n ∧
          LongestFitting
            (fun len =>
              KvConfig.maxMemoryUsageBytesFromGroups { lim with maxModelLen := len } groups)
            availableMemory lim.maxModelLen n)) := by
  constructor
  · intro specs hs
    exact restoring_searchLength hlen (maxMemoryUsageBytes_steady hs lim)
  · intro groups hg
    exact restoring_searchLength hlen (fromGroups_steady hg lim)

/-- Full attention beside a sliding window, as specs and as groups: sixteen tokens fit. -/
theorem estimates_longest_window :
    (estimateMaxModelLen ⟨64, 8, 0, .none, 1, 1⟩ [fullSpec 4 1, slidingSpec 4 1 8] 1200).1
        = ⟨64, 8, 0, .none, 1, 1⟩ ∧
      LongestFitting (fun len =>
          maxMemoryUsageBytes ⟨len, 8, 0, .none, 1, 1⟩ [fullSpec 4 1, slidingSpec 4 1 8]) 1200 64 16 ∧
      LongestFitting (fun len => KvConfig.maxMemoryUsageBytesFromGroups ⟨len, 8, 0, .none, 1, 1⟩
          [⟨["full"], .layer (fullSpec 4 1)⟩, ⟨["window"], .layer (slidingSpec 4 1 8)⟩]) 1200 64 16 := by
  have h := estimates_longest ⟨64, 8, 0, .none, 1, 1⟩ (by decide) 1200
  obtain ⟨hconfig, hspecs⟩ := h.1 [fullSpec 4 1, slidingSpec 4 1 8] (by decide)
  obtain ⟨-, hgroups⟩ := h.2 [⟨["full"], .layer (fullSpec 4 1)⟩, ⟨["window"], .layer (slidingSpec 4 1 8)⟩]
    (by decide)
  have hval : (estimateMaxModelLen ⟨64, 8, 0, .none, 1, 1⟩ [fullSpec 4 1, slidingSpec 4 1 8] 1200).2
      = .ok 16 := by decide +kernel
  have hval' : (estimateMaxModelLenFromGroups ⟨64, 8, 0, .none, 1, 1⟩
      [⟨["full"], .layer (fullSpec 4 1)⟩, ⟨["window"], .layer (slidingSpec 4 1 8)⟩] 1200).2
      = .ok 16 := by decide +kernel
  rw [hval] at hspecs
  rw [hval'] at hgroups
  refine ⟨hconfig, ?_, ?_⟩
  · obtain ⟨e, -, he⟩ | ⟨n, hn, hlong⟩ := hspecs
    · cases he
    · exact Except.ok.inj hn ▸ hlong
  · obtain ⟨e, -, he⟩ | ⟨n, hn, hlong⟩ := hgroups
    · cases he
    · exact Except.ok.inj hn ▸ hlong

end ModelLength

end VllmEngine
