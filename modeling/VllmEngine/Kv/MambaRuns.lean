import VllmEngine.Kv.MambaAlign

/-!
# Runs of the KV cache manager with Mamba groups

The calls of the scheduler on the KV cache manager, as `KvOp` has them, but with the arguments of
`allocate_slots` as they come, and with the two calls that only drain per-step records. Next to
the manager a run keeps how many tokens each request had in its last allocation.

> `slots_prefix`: what the manager of a Mamba group holds for the request when it is asked for new
> blocks,
> `SlotRun.step_ok`: a call keeps the blocks accounted.
-/

namespace VllmEngine

open SingleTypeManager KVCacheManager

variable {H : Type} [DecidableEq H]

/-- The calls on the KV cache manager that change it. -/
inductive KvCall (H : Type)
  | allocateSlots (r : Request H) (a : SlotArgs)
  | cacheBlocks (r : Request H) (numComputedTokens : Int)
  | removeSkippedBlocks (reqId : ReqId) (totalComputedTokens : Int)
  | free (reqId : ReqId)
  | evictBlocks (blockIds : List BlockId)
  | resetPrefixCache
  | newStepStarts
  | takeNewBlockIds

/-- The manager, and `num_tokens_main_model` of each request's last allocation since it was
freed. -/
structure SlotRun (H : Type) where
  kv : KVCacheManager H
  lastTokens : ReqId → Option Int

namespace SlotRun

/-- One call. -/
def step (s : SlotRun H) : KvCall H → Except Python.Error (SlotRun H)
  | .allocateSlots r a => do
    let (kv, new) ← s.kv.allocateSlots r a
    return { kv := kv
             lastTokens :=
               if new.isSome then
                 Function.update s.lastTokens r.requestId
                   (some (a.numTokensMainModel r s.kv.maxModelLen))
               else s.lastTokens }
  | .cacheBlocks r n => do
    let kv ← s.kv.cacheBlocks r n
    return { s with kv := kv }
  | .removeSkippedBlocks reqId n => do
    let kv ← s.kv.removeSkippedBlocks reqId n
    return { s with kv := kv }
  | .free reqId => do
    let kv ← s.kv.free reqId
    return { kv := kv, lastTokens := Function.update s.lastTokens reqId none }
  | .evictBlocks ids => do
    let kv ← s.kv.evictBlocks ids
    return { s with kv := kv }
  | .resetPrefixCache => .ok { s with kv := s.kv.resetPrefixCache.1 }
  | .newStepStarts => .ok { s with kv := s.kv.newStepStarts }
  | .takeNewBlockIds => .ok { s with kv := s.kv.takeNewBlockIds.1 }

end SlotRun

/-- How the scheduler calls `allocate_slots` for a model with Mamba layers: for at least one new
token, without external tokens (`_mamba_block_aligned_split` asserts this), and with hits only for
a request of which nothing is computed, which is no longer than the model allows. -/
structure ScheduledSlots (k : KVCacheManager H) (r : Request H) (a : SlotArgs) : Prop where
  external : a.numExternalComputedTokens = 0
  newTokens : 0 < a.numNewTokens
  computed : 0 ≤ r.numComputedTokens
  hits : (a.newComputedBlocks = k.emptyKvCacheBlocks ∧ a.numNewComputedTokens = 0) ∨
    (r.numComputedTokens = 0 ∧ r.blockHashes.Nodup ∧ r.numTokens ≤ k.maxModelLen ∧
      k.getComputedBlocks r = .ok (a.newComputedBlocks, a.numNewComputedTokens))

def KvCall.Scheduled (k : KVCacheManager H) : KvCall H → Prop
  | .allocateSlots r a => ScheduledSlots k r a
  | _ => True

/-! ## The accounts -/

/-- Changes of the managers that leave their lists alone. -/
theorem CoordinatorOk.map {specs : List KVCacheSpec} {c : KVCacheCoordinator H}
    (hok : CoordinatorOk specs c) (g : SingleTypeManager H → SingleTypeManager H)
    (hlists : ∀ m, (g m).reqToBlocks = m.reqToBlocks) (hspec : ∀ m, (g m).spec = m.spec) :
    CoordinatorOk specs { c with singleTypeManagers := c.singleTypeManagers.map g } := by
  have hocc : ∀ b, occurrencesAll (c.singleTypeManagers.map g) b
      = occurrencesAll c.singleTypeManagers b := by
    intro b
    unfold occurrencesAll
    rw [List.map_map]
    congr 1
    refine List.map_congr_left fun m _ => ?_
    show (g m).occurrences b = m.occurrences b
    rw [occurrences, occurrences, hlists]
  refine ⟨⟨hok.balanced.accounted.congr (fun b _ => ?_) rfl rfl rfl rfl, hok.balanced.hashOk,
    fun m hm => ?_⟩, hok.kind, ?_⟩
  · rw [hocc]
  · obtain ⟨m₀, hm₀, rfl⟩ := List.mem_map.mp hm
    intro reqId blocks hget
    exact hok.balanced.lists m₀ hm₀ reqId blocks (hlists m₀ ▸ hget)
  · rw [List.map_map, ← hok.specs]
    exact List.map_congr_left fun m _ => hspec m

section Steps

variable {specs : List KVCacheSpec} {k k' : KVCacheManager H} {r : Request H} {a : SlotArgs}
  (hpos : ∀ s ∈ specs, 0 < s.blockSize)

include hpos in
/-- The hits are blocks of the pool. -/
theorem ScheduledSlots.hitsValid (hok : CoordinatorOk specs k.coordinator) (hs : ScheduledSlots k r a)
    (i : Nat) :
    HitsValid k.blockPool.numGpuBlocks (a.newComputedBlocks.getD i []) := by
  rcases hs.hits with ⟨hempty, -⟩ | ⟨-, hnodup, -, hget⟩
  · rw [hempty, emptyKvCacheBlocks_getD]
    exact ⟨fun b hb => (nomatch hb), fun b _ => Nat.zero_le 1⟩
  · exact getComputedBlocks_valid hpos hok hnodup hget i

include hpos in
theorem scheduledSlots_step (hok : CoordinatorOk specs k.coordinator) (hs : ScheduledSlots k r a)
    {out : Option (List (List BlockId))} (h : k.allocateSlots r a = .ok (k', out)) :
    CoordinatorOk specs k'.coordinator := by
  refine (allocateSlots_step hpos hok (hs.hitsValid hpos hok) (Or.inl ?_) h).ok
  rw [hs.external]
  exact Int.le_refl 0

include hpos in
/-- Taking over the hits, after the skipped blocks are removed. -/
theorem scheduled_adopt (hok : CoordinatorOk specs k.coordinator) (hs : ScheduledSlots k r a)
    {c₁ c₂ : KVCacheCoordinator H}
    (hskip : k.coordinator.removeSkippedBlocks r.requestId
      (a.totalComputedTokens r k.maxModelLen) = .ok c₁)
    (hadopt : { k with coordinator := c₁ }.adoptComputed r a = .ok c₂) :
    CoordinatorOk specs c₂ := by
  have h₁ := coordinator_removeSkippedBlocks hok hskip
  refine (adoptComputed_step hpos h₁.ok (fun i => ?_) (Or.inl ?_) hadopt).ok
  · show HitsValid c₁.blockPool.numGpuBlocks _
    rw [h₁.numGpuBlocks]
    exact hs.hitsValid hpos hok i
  · rw [hs.external]
    exact Int.le_refl 0

include hpos in
/-- **One call** keeps counts, lists and free queue in agreement. -/
theorem SlotRun.step_ok {s s' : SlotRun H} {call : KvCall H}
    (hok : CoordinatorOk specs s.kv.coordinator) (hs : call.Scheduled s.kv)
    (h : s.step call = .ok s') : CoordinatorOk specs s'.kv.coordinator := by
  cases call with
  | allocateSlots r a =>
    simp only [SlotRun.step, Raises.bind_eq_ok, Raises.pure_eq_ok] at h
    obtain ⟨⟨kv, new⟩, halloc, rfl⟩ := h
    exact scheduledSlots_step hpos hok hs halloc
  | cacheBlocks r n =>
    simp only [SlotRun.step, Raises.bind_eq_ok, Raises.pure_eq_ok] at h
    obtain ⟨kv, hcall, rfl⟩ := h
    have hstep : (KvOp.cacheBlocks r n).step s.kv = .ok kv := hcall
    refine (kvOp_step hpos hok ?_ (Or.inr ?_) hstep).ok
    · trivial
    · trivial
  | removeSkippedBlocks reqId n =>
    simp only [SlotRun.step, Raises.bind_eq_ok, Raises.pure_eq_ok] at h
    obtain ⟨kv, hcall, rfl⟩ := h
    have hstep : (KvOp.removeSkippedBlocks reqId n).step s.kv = .ok kv := hcall
    refine (kvOp_step hpos hok ?_ (Or.inr ?_) hstep).ok
    · trivial
    · trivial
  | free reqId =>
    simp only [SlotRun.step, Raises.bind_eq_ok, Raises.pure_eq_ok] at h
    obtain ⟨kv, hcall, rfl⟩ := h
    have hstep : (KvOp.free reqId).step s.kv = .ok kv := hcall
    refine (kvOp_step hpos hok ?_ (Or.inr ?_) hstep).ok
    · trivial
    · trivial
  | evictBlocks ids =>
    simp only [SlotRun.step, Raises.bind_eq_ok, Raises.pure_eq_ok] at h
    obtain ⟨kv, hcall, rfl⟩ := h
    have hstep : (KvOp.evictBlocks ids).step s.kv = .ok kv := hcall
    refine (kvOp_step hpos hok ?_ (Or.inr ?_) hstep).ok
    · trivial
    · trivial
  | resetPrefixCache =>
    obtain rfl := Except.ok.inj h
    have hstep : KvOp.resetPrefixCache.step s.kv = .ok s.kv.resetPrefixCache.1 := rfl
    refine (kvOp_step hpos hok ?_ (Or.inr ?_) hstep).ok
    · trivial
    · trivial
  | newStepStarts =>
    obtain rfl := Except.ok.inj h
    exact hok.map _ (fun _ => rfl) fun _ => rfl
  | takeNewBlockIds =>
    obtain rfl := Except.ok.inj h
    have hmap := hok.map (fun m => m.takeNewBlockIds.2) (fun _ => rfl) fun _ => rfl
    show CoordinatorOk specs (s.kv.takeNewBlockIds.1).coordinator
    unfold KVCacheManager.takeNewBlockIds
    dsimp only
    rw [List.map_map]
    exact hmap

end Steps

/-! ## Single calls of the coordinator -/

section Rounds

variable {f : MambaFields}

theorem removeSkippedBlocks_at {c c' : KVCacheCoordinator H} {reqId : ReqId} {total : Int}
    (h : c.removeSkippedBlocks reqId total = .ok c') {i : Nat} {m' : SingleTypeManager H}
    (hm' : c'.singleTypeManagers[i]? = some m') (hk : m'.spec.kind = .mamba f) :
    ∃ m, c.singleTypeManagers[i]? = some m ∧ m.spec = m'.spec ∧
      (∀ id, id ≠ reqId → stateCell m' id = stateCell m id) ∧
      Cleared f m.spec.blockSize total (stateCell m reqId) (stateCell m' reqId) := by
  simp only [KVCacheCoordinator.removeSkippedBlocks, Raises.bind_eq_ok, Raises.pure_eq_ok] at h
  obtain ⟨⟨c₃, as⟩, hon, rfl⟩ := h
  obtain ⟨m, q, q', u, hm, hf⟩ := onManagers_at hon hm'
  simp only [Except.ok.injEq, Prod.mk.injEq] at hf
  obtain ⟨-, hf, -⟩ := hf
  have hspec : m'.spec = m.spec := by
    rw [← hf]
    exact (manager_removeSkippedBlocks_keeps q m _ _).spec
  have hremove : (m.mambaRemoveSkippedBlocks q f reqId total).2 = m' := by
    rw [← hf]
    unfold SingleTypeManager.removeSkippedBlocks
    rw [← hspec, hk]
  have hcells := mambaRemoveSkippedBlocks_cells q m f reqId total
  rw [hremove] at hcells
  exact ⟨m, hm, hspec.symm, hcells⟩

theorem cacheBlocks_at {c c' : KVCacheCoordinator H} {r : Request H} {n : Int}
    (h : c.cacheBlocks r n = .ok c') {i : Nat} {m' : SingleTypeManager H}
    (hm' : c'.singleTypeManagers[i]? = some m') :
    ∃ m, c.singleTypeManagers[i]? = some m ∧ m.spec = m'.spec ∧
      ∀ id, stateCell m' id = stateCell m id := by
  simp only [KVCacheCoordinator.cacheBlocks, Raises.bind_eq_ok, Raises.pure_eq_ok] at h
  obtain ⟨⟨c₁, as⟩, hon, rfl⟩ := h
  obtain ⟨m, q, q', u, hm, hf⟩ := onManagers_at hon hm'
  simp only [Raises.bind_eq_ok, Raises.pure_eq_ok, Prod.mk.injEq] at hf
  obtain ⟨⟨q₁, m₁⟩, hround, rfl, rfl, -⟩ := hf
  exact ⟨m, hm, (manager_cacheBlocks_keeps hround).spec.symm, cacheBlocks_cell hround⟩

end Rounds

/-! ## Up to the allocation -/

/-- What a Mamba group's manager holds for the request when it is asked for new blocks: `m` is the
manager before the call, `m₁` after the skipped blocks are removed, and `m₂` with the hits. -/
structure SlotPrefix (f : MambaFields) (reqId : ReqId) (total loc : Int) (hits : List BlockId)
    (m m₁ m₂ : SingleTypeManager H) : Prop where
  spec₁ : m₁.spec = m.spec
  spec₂ : m₂.spec = m.spec
  other : ∀ id, id ≠ reqId → stateCell m₂ id = stateCell m id
  cleared : Cleared f m.spec.blockSize total (stateCell m reqId) (stateCell m₁ reqId)
  hits_le : (hits.length : Int) * m.spec.blockSize ≤ loc
  adopted : (m₂ = m₁ ∧ hits = []) ∨ (total = loc ∧ (stateCell m₁ reqId).blocks = [] ∧
    ∃ blocks, stateCell m₂ reqId = { stateCell m₁ reqId with blocks := blocks } ∧
      (blocks.length : Int) * m.spec.blockSize ≤ loc ∧
      ∀ j, j + 1 < blocks.length → blocks[j]? = some nullBlock)

section Prefix

variable {specs : List KVCacheSpec} {k : KVCacheManager H} {r : Request H} {a : SlotArgs}
  (hpos : ∀ s ∈ specs, 0 < s.blockSize)

include hpos in
/-- The hits of a group without full attention lie within the local computed tokens, and these,
if there are any hits, within the model length. -/
theorem ScheduledSlots.hits_fit (hok : CoordinatorOk specs k.coordinator)
    (hs : ScheduledSlots k r a) {i : Nat} {spec : KVCacheSpec} (hi : specs[i]? = some spec)
    (hnf : spec.isFullAttention = false) :
    ((a.newComputedBlocks.getD i []).length : Int) * spec.blockSize ≤ a.numLocalComputedTokens r ∧
      (a.hasComputed = true → a.numLocalComputedTokens r ≤ k.maxModelLen) := by
  have hcomputed := hs.computed
  have hnone : a.newComputedBlocks = k.emptyKvCacheBlocks →
      ((a.newComputedBlocks.getD i []).length : Int) * spec.blockSize ≤ a.numLocalComputedTokens r ∧
      (a.hasComputed = true → a.numLocalComputedTokens r ≤ k.maxModelLen) := by
    intro hempty
    constructor
    · rw [hempty, emptyKvCacheBlocks_getD]
      unfold SlotArgs.numLocalComputedTokens
      rw [List.length_nil]
      omega
    · intro hhas
      rw [SlotArgs.hasComputed, hs.external, hempty, Bool.or_eq_true, List.any_eq_true] at hhas
      rcases hhas with ⟨blocks, hmem, hne⟩ | hext
      · obtain ⟨m, -, rfl⟩ := List.mem_map.mp hmem
        exact absurd rfl (of_decide_eq_true hne)
      · exact absurd (of_decide_eq_true hext) (Nat.lt_irrefl 0)
  rcases hs.hits with ⟨hempty, -⟩ | ⟨hzero, -, hlen, hget⟩
  · exact hnone hempty
  · unfold getComputedBlocks at hget
    split at hget
    · exact hnone (Prod.mk.inj (Except.ok.inj hget)).1.symm
    · obtain ⟨hle, hmax⟩ := findLongestCacheHit_notFull hok hpos hget hi hnf
      dsimp only at hle hmax
      have hcast : ((a.newComputedBlocks.getD i []).length : Int) * spec.blockSize
          ≤ a.numNewComputedTokens := by exact_mod_cast hle
      unfold SlotArgs.numLocalComputedTokens
      exact ⟨by omega, fun _ => by omega⟩

include hpos in
theorem slots_prefix (hok : CoordinatorOk specs k.coordinator) (hs : ScheduledSlots k r a)
    {c₁ c₂ : KVCacheCoordinator H}
    (hskip : k.coordinator.removeSkippedBlocks r.requestId
      (a.totalComputedTokens r k.maxModelLen) = .ok c₁)
    (hadopt : { k with coordinator := c₁ }.adoptComputed r a = .ok c₂) {i : Nat}
    {m₂ : SingleTypeManager H} (hm₂ : c₂.singleTypeManagers[i]? = some m₂) {f : MambaFields}
    (hk : m₂.spec.kind = .mamba f) :
    ∃ m m₁, k.coordinator.singleTypeManagers[i]? = some m ∧ c₁.singleTypeManagers[i]? = some m₁ ∧
      SlotPrefix f r.requestId (a.totalComputedTokens r k.maxModelLen)
        (a.numLocalComputedTokens r) (a.newComputedBlocks.getD i []) m m₁ m₂ := by
  have hcomputed : 0 ≤ a.numLocalComputedTokens r := by
    have := hs.computed
    unfold SlotArgs.numLocalComputedTokens
    omega
  -- the group's manager after the skipped blocks are removed
  have hround : ∃ m₁, c₁.singleTypeManagers[i]? = some m₁ ∧
      ((m₂ = m₁ ∧ a.newComputedBlocks.getD i [] = []) ∨ a.hasComputed = true ∧ ∃ q q',
        m₁.allocateNewComputedBlocks q r.requestId (a.newComputedBlocks.getD i [])
          (a.numLocalComputedTokens r) 0 = .ok (q', m₂)) := by
    unfold adoptComputed at hadopt
    split at hadopt
    next hhas =>
      simp only [KVCacheCoordinator.allocateNewComputedBlocks, Raises.bind_eq_ok,
        Raises.pure_eq_ok] at hadopt
      obtain ⟨⟨c₃, as⟩, hon, rfl⟩ := hadopt
      obtain ⟨m₁, q, q', u, hm₁, hf⟩ := onManagers_at hon hm₂
      simp only [Raises.bind_eq_ok, Raises.pure_eq_ok, hs.external] at hf
      obtain ⟨⟨q₁, m₃⟩, halloc, heq⟩ := hf
      simp only [Prod.mk.injEq] at heq
      obtain ⟨rfl, rfl, -⟩ := heq
      exact ⟨m₁, hm₁, Or.inr ⟨hhas, q, _, halloc⟩⟩
    next hnone =>
      obtain rfl := Except.ok.inj hadopt
      refine ⟨m₂, hm₂, Or.inl ⟨rfl, ?_⟩⟩
      rw [SlotArgs.hasComputed, Bool.or_eq_true, not_or, List.any_eq_true] at hnone
      rw [List.getD_eq_getElem?_getD]
      cases hi : a.newComputedBlocks[i]? with
      | none => rfl
      | some blocks =>
        by_contra hne
        exact hnone.1 ⟨blocks, List.mem_of_getElem? hi, by simpa using hne⟩
  obtain ⟨m₁, hm₁, hadopted⟩ := hround
  have hspec₂ : m₂.spec = m₁.spec := by
    rcases hadopted with ⟨rfl, -⟩ | ⟨-, q, q', h⟩
    · rfl
    · exact allocateNewComputedBlocks_spec h
  obtain ⟨m, hm, hspec₁, hother₁, hcleared⟩ := removeSkippedBlocks_at hskip hm₁ (hspec₂ ▸ hk)
  have hspec₁ := hspec₁.symm
  have hkm : m.spec.kind = .mamba f := by
    rw [← hspec₁, ← hspec₂]
    exact hk
  have hspec := hok.manager_spec hm
  have hnf : m.spec.isFullAttention = false := by
    unfold KVCacheSpec.isFullAttention
    rw [hkm]
  obtain ⟨hfit, hwithin⟩ := hs.hits_fit hpos hok hspec hnf
  refine ⟨m, m₁, hm, hm₁, hspec₁, hspec₂.trans hspec₁, fun id hid => ?_, hcleared, hfit, ?_⟩
  · rw [← hother₁ id hid]
    rcases hadopted with ⟨rfl, -⟩ | ⟨-, q, q', h⟩
    · rfl
    · exact (adopt_cells (hspec₁ ▸ hkm) (hspec₁ ▸ hpos _ (List.mem_of_getElem? hspec))
        (hspec₁ ▸ hfit) h).1 id hid
  · rcases hadopted with h | ⟨hhas, q, q', h⟩
    · exact Or.inl h
    · rcases (adopt_cells (hspec₁ ▸ hkm) (hspec₁ ▸ hpos _ (List.mem_of_getElem? hspec))
        (hspec₁ ▸ hfit) h).2 with h | ⟨hnil, blocks, hcell, hlen, hnull⟩
      · exact Or.inl h
      · rw [max_eq_left hcomputed, hspec₁] at hlen
        refine Or.inr ⟨?_, hnil, blocks, hcell, hlen, hnull⟩
        have hle := hwithin hhas
        unfold SlotArgs.totalComputedTokens
        rw [hs.external]
        omega

end Prefix

omit [DecidableEq H] in
/-- A request with an allocation keeps its own blocks, and any other one has at most hits. -/
theorem SlotPrefix.cases {f : MambaFields} {reqId : ReqId} {total loc : Int} {hits : List BlockId}
    {m m₁ m₂ : SingleTypeManager H} (hp : SlotPrefix f reqId total loc hits m m₁ m₂)
    (hok : CellOk f (stateCell m reqId)) :
    (reqId ∈ m₂.allocatedBlockReqs ∧ hits = [] ∧ m₂ = m₁) ∨
      (reqId ∉ m₂.allocatedBlockReqs ∧ reqId ∉ m₁.allocatedBlockReqs ∧ m₁.reqBlocks reqId = [] ∧
        (hits.length : Int) * m.spec.blockSize ≤ max total 0 ∧
        ((m₂.reqBlocks reqId).length : Int) * m.spec.blockSize ≤ max total 0 ∧
        ∀ j, j + 1 < (m₂.reqBlocks reqId).length → (m₂.reqBlocks reqId)[j]? = some nullBlock) := by
  have hok₁ := hp.cleared.ok hok
  rcases hp.adopted with ⟨heq, hnil⟩ | ⟨htotal, hempty, blocks, hcell, hlen, hnull⟩
  · by_cases hmem : reqId ∈ m₁.allocatedBlockReqs
    · exact Or.inl ⟨heq ▸ hmem, hnil, heq⟩
    · have hidle : m₁.reqBlocks reqId = [] := hok₁.idle (decide_eq_false hmem)
      refine Or.inr ⟨heq ▸ hmem, hmem, hidle, ?_, ?_, fun j hj => ?_⟩
      · rw [hnil, List.length_nil]
        omega
      · rw [heq, hidle, List.length_nil]
        omega
      · rw [heq, hidle] at hj
        exact absurd hj (Nat.not_lt_zero _)
  · have hnot : (stateCell m₁ reqId).allocated = false := by
      by_contra hbusy
      have hlt := hok₁.busy (Bool.not_eq_false _ ▸ hbusy)
      rw [hempty] at hlt
      exact Nat.not_lt_zero _ hlt
    have hmem : reqId ∉ m₂.allocatedBlockReqs := by
      have hsame := congrArg StateCell.allocated hcell
      rw [hnot] at hsame
      exact of_decide_eq_false hsame
    have hblocks : m₂.reqBlocks reqId = blocks := congrArg StateCell.blocks hcell
    refine Or.inr ⟨hmem, of_decide_eq_false hnot, hempty, ?_, ?_, ?_⟩
    · rw [htotal]
      exact Int.le_trans hp.hits_le (Int.le_max_left _ _)
    · rw [hblocks, htotal]
      exact Int.le_trans hlen (Int.le_max_left _ _)
    · rw [hblocks]
      exact hnull

/-! ## One call, cell by cell -/

/-- The manager of a Mamba group when a call of `allocate_slots` has given the request its
blocks. -/
structure SlotsGiven (f : MambaFields) (k : KVCacheManager H) (r : Request H) (a : SlotArgs)
    (m m' : SingleTypeManager H) : Prop where
  scheduled : ScheduledSlots k r a
  steps : ∃ hits m₁ m₂,
    SlotPrefix f r.requestId (a.totalComputedTokens r k.maxModelLen) (a.numLocalComputedTokens r)
      hits m m₁ m₂ ∧
    ((alignRequired m₂ f (a.numTokensMainModel r k.maxModelLen)
        = (m₂.reqBlocks r.requestId).length ∧
      stateCell m' r.requestId = stateCell m₂ r.requestId) ∨
    ∃ q q' m₃ fresh, Grown q m₂ f r.requestId (a.numTokensMainModel r k.maxModelLen) fresh q' m₃ ∧
      stateCell m' r.requestId = stateCell m₃ r.requestId)

/-- What one call does to the cell of one request. -/
inductive CellStep (f : MambaFields) (s s' : SlotRun H) (call : KvCall H)
    (m m' : SingleTypeManager H) (id : ReqId) : Prop
  | same (hcell : stateCell m' id = stateCell m id) (hlast : s'.lastTokens id = s.lastTokens id)
  | cleared (total : Int)
      (hcell : Cleared f m.spec.blockSize total (stateCell m id) (stateCell m' id))
      (hlast : s'.lastTokens id = s.lastTokens id)
  | freed (hcell : stateCell m' id = ⟨[], false, none⟩)
  | given (r : Request H) (a : SlotArgs) (hcall : call = .allocateSlots r a)
      (hid : r.requestId = id) (hgiven : SlotsGiven f s.kv r a m m')
      (hlast : s'.lastTokens id = some (a.numTokensMainModel r s.kv.maxModelLen))

section Cells

variable {specs : List KVCacheSpec} {f : MambaFields}

/-- Allocating new blocks and publishing their hashes. -/
theorem commit_cells {c₂ c₃ c₄ : KVCacheCoordinator H} {reqId : ReqId} {n main : Int} {enc : Nat}
    {new : List (List BlockId)} (hnew : c₂.allocateNewBlocks reqId n main enc = .ok (c₃, new))
    (hpub : c₄ = c₃ ∨ ∃ r n, c₃.cacheBlocks r n = .ok c₄) {i : Nat} {m' : SingleTypeManager H}
    (hm' : c₄.singleTypeManagers[i]? = some m') (hk : m'.spec.kind = .mamba f)
    (halign : f.mambaCacheMode = .align) :
    ∃ m₂, c₂.singleTypeManagers[i]? = some m₂ ∧ m₂.spec = m'.spec ∧
      ((alignRequired m₂ f main = (m₂.reqBlocks reqId).length ∧
          ∀ id, stateCell m' id = stateCell m₂ id) ∨
        ∃ q q' m₃ fresh, Grown q m₂ f reqId main fresh q' m₃ ∧
          ∀ id, stateCell m' id = stateCell m₃ id) := by
  have hpublished : ∃ m₃, c₃.singleTypeManagers[i]? = some m₃ ∧ m₃.spec = m'.spec ∧
      ∀ id, stateCell m' id = stateCell m₃ id := by
    rcases hpub with rfl | ⟨r, n, hcache⟩
    · exact ⟨m', hm', rfl, fun _ => rfl⟩
    · exact cacheBlocks_at hcache hm'
  obtain ⟨m₃, hm₃, hspec₃, hcells⟩ := hpublished
  obtain ⟨m₂, q, q', new', hm₂, halloc⟩ := onManagers_at hnew hm₃
  have hspec₂ := (manager_allocateNewBlocks_keeps halloc).spec
  refine ⟨m₂, hm₂, hspec₂.symm.trans hspec₃, ?_⟩
  unfold SingleTypeManager.allocateNewBlocks at halloc
  rw [← hspec₂, hspec₃, hk] at halloc
  dsimp only at halloc
  rw [if_pos halign] at halloc
  rcases mambaAllocateNewBlocks_cases halloc with ⟨heq, -, rfl⟩ | ⟨fresh, hg⟩
  · exact Or.inl ⟨heq, fun id => (hcells id).trans (stateCell_withEntry m₂ reqId id)⟩
  · exact Or.inr ⟨q, q', m₃, fresh, hg, hcells⟩

theorem allocateSlots_cells (hpos : ∀ s ∈ specs, 0 < s.blockSize) {s : SlotRun H}
    {r : Request H} {a : SlotArgs} {kv : KVCacheManager H} {new : Option (List (List BlockId))}
    (hok : CoordinatorOk specs s.kv.coordinator) (hs : ScheduledSlots s.kv r a)
    (h : s.kv.allocateSlots r a = .ok (kv, new)) {i : Nat} {m' : SingleTypeManager H}
    (hm' : kv.coordinator.singleTypeManagers[i]? = some m') (hk : m'.spec.kind = .mamba f)
    (halign : f.mambaCacheMode = .align) :
    ∃ m, s.kv.coordinator.singleTypeManagers[i]? = some m ∧ m.spec = m'.spec ∧
      (∀ id, id ≠ r.requestId → stateCell m' id = stateCell m id) ∧
      ((new.isSome = false ∧ Cleared f m.spec.blockSize (a.totalComputedTokens r s.kv.maxModelLen)
        (stateCell m r.requestId) (stateCell m' r.requestId)) ∨
      (new.isSome = true ∧ SlotsGiven f s.kv r a m m')) := by
  unfold allocateSlots at h
  split at h
  · simp at h
  · simp only [Raises.bind_eq_ok] at h
    obtain ⟨c₁, hskip, n, -, h⟩ := h
    split at h
    · obtain ⟨rfl, rfl⟩ := Prod.mk.inj (Raises.pure_eq_ok.mp h)
      obtain ⟨m, hm, hspec, hother, hcleared⟩ := removeSkippedBlocks_at hskip hm' hk
      exact ⟨m, hm, hspec, hother, Or.inl ⟨rfl, hcleared⟩⟩
    · simp only [Raises.bind_eq_ok, Raises.pure_eq_ok, commitSlots] at h
      obtain ⟨⟨k₂, blocks⟩, ⟨c₂, hadopt, ⟨c₃, new'⟩, hnew, c₄, hpub, heq⟩, heq'⟩ := h
      obtain ⟨rfl, rfl⟩ := Prod.mk.inj heq
      obtain ⟨rfl, rfl⟩ := Prod.mk.inj heq'
      have hpublished : c₄ = c₃ ∨ ∃ r n, c₃.cacheBlocks r n = .ok c₄ := by
        unfold publishBlocks at hpub
        split at hpub
        · exact Or.inl (Except.ok.inj hpub).symm
        · exact Or.inr ⟨_, _, hpub⟩
      obtain ⟨m₂, hm₂, hspec₂, hgiven⟩ := commit_cells hnew hpublished hm' hk halign
      obtain ⟨m, m₁, hm, -, hp⟩ := slots_prefix hpos hok hs hskip hadopt hm₂ (hspec₂ ▸ hk)
      refine ⟨m, hm, hp.spec₂.symm.trans hspec₂, fun id hid => ?_,
        Or.inr ⟨rfl, hs, _, m₁, m₂, hp, ?_⟩⟩
      · rw [← hp.other id hid]
        rcases hgiven with ⟨-, hcells⟩ | ⟨q, q', m₃, fresh, hg, hcells⟩
        · exact hcells id
        · rw [hcells id, hg.other hid]
      · rcases hgiven with ⟨heq, hcells⟩ | ⟨q, q', m₃, fresh, hg, hcells⟩
        · exact Or.inl ⟨heq, hcells _⟩
        · exact Or.inr ⟨q, q', m₃, fresh, hg, hcells _⟩

/-- **One call, cell by cell.** -/
theorem SlotRun.step_cells (hpos : ∀ s ∈ specs, 0 < s.blockSize) {s s' : SlotRun H}
    {call : KvCall H} (hok : CoordinatorOk specs s.kv.coordinator) (hs : call.Scheduled s.kv)
    (h : s.step call = .ok s') {i : Nat} {m' : SingleTypeManager H}
    (hm' : s'.kv.coordinator.singleTypeManagers[i]? = some m') (hk : m'.spec.kind = .mamba f)
    (halign : f.mambaCacheMode = .align) :
    ∃ m, s.kv.coordinator.singleTypeManagers[i]? = some m ∧ m.spec = m'.spec ∧
      ∀ id, CellStep f s s' call m m' id := by
  cases call with
  | allocateSlots r a =>
    simp only [SlotRun.step, Raises.bind_eq_ok, Raises.pure_eq_ok] at h
    obtain ⟨⟨kv, new⟩, halloc, rfl⟩ := h
    obtain ⟨m, hm, hspec, hother, hcell⟩ :=
      allocateSlots_cells hpos hok hs halloc hm' hk halign
    refine ⟨m, hm, hspec, fun id => ?_⟩
    by_cases hid : id = r.requestId
    · rw [hid]
      rcases hcell with ⟨hnone, hcleared⟩ | ⟨hsome, hgiven⟩
      · refine .cleared _ hcleared ?_
        rw [if_neg (by rw [hnone]; exact Bool.false_ne_true)]
      · refine .given r a rfl rfl hgiven ?_
        rw [if_pos hsome]
        exact Function.update_self _ _ _
    · refine .same (hother id hid) ?_
      dsimp only
      split
      · rw [Function.update_of_ne hid]
      · rfl
  | cacheBlocks r n =>
    simp only [SlotRun.step, Raises.bind_eq_ok, Raises.pure_eq_ok] at h
    obtain ⟨kv, hcall, rfl⟩ := h
    unfold KVCacheManager.cacheBlocks at hcall
    split at hcall
    · simp only [Raises.bind_eq_ok, Raises.pure_eq_ok] at hcall
      obtain ⟨c, hcache, rfl⟩ := hcall
      obtain ⟨m, hm, hspec, hcells⟩ := cacheBlocks_at hcache hm'
      exact ⟨m, hm, hspec, fun id => .same (hcells id) rfl⟩
    · obtain rfl := Except.ok.inj hcall
      exact ⟨m', hm', rfl, fun id => .same rfl rfl⟩
  | removeSkippedBlocks reqId n =>
    simp only [SlotRun.step, KVCacheManager.removeSkippedBlocks, Raises.bind_eq_ok,
      Raises.pure_eq_ok] at h
    obtain ⟨kv, ⟨c, hskip, rfl⟩, rfl⟩ := h
    obtain ⟨m, hm, hspec, hother, hcleared⟩ := removeSkippedBlocks_at hskip hm' hk
    refine ⟨m, hm, hspec, fun id => ?_⟩
    by_cases hid : id = reqId
    · rw [hid]
      exact .cleared n hcleared rfl
    · exact .same (hother id hid) rfl
  | free reqId =>
    simp only [SlotRun.step, KVCacheManager.free, KVCacheCoordinator.free, Raises.bind_eq_ok,
      Raises.pure_eq_ok] at h
    obtain ⟨kv, ⟨c, ⟨⟨c', as⟩, hon, rfl⟩, rfl⟩, rfl⟩ := h
    obtain ⟨m, q, q', u, hm, hf⟩ := onManagers_at hon hm'
    simp only [Except.ok.injEq, Prod.mk.injEq] at hf
    obtain ⟨-, rfl, -⟩ := hf
    have hspec := (manager_free_keeps q m reqId).spec
    obtain ⟨hother, hself⟩ := free_cells (p := q) (hspec ▸ hk) halign reqId
    refine ⟨m, hm, hspec.symm, fun id => ?_⟩
    by_cases hid : id = reqId
    · rw [hid]
      exact .freed hself
    · exact .same (hother id hid) (Function.update_of_ne hid _ _)
  | evictBlocks ids =>
    simp only [SlotRun.step, KVCacheManager.evictBlocks, Raises.bind_eq_ok, Raises.pure_eq_ok] at h
    obtain ⟨kv, ⟨p, -, rfl⟩, rfl⟩ := h
    exact ⟨m', hm', rfl, fun id => .same rfl rfl⟩
  | resetPrefixCache =>
    obtain rfl := Except.ok.inj h
    exact ⟨m', hm', rfl, fun id => .same rfl rfl⟩
  | newStepStarts =>
    obtain rfl := Except.ok.inj h
    change (s.kv.coordinator.singleTypeManagers.map (·.newStepStarts))[i]? = some m' at hm'
    rw [List.getElem?_map, Option.map_eq_some_iff] at hm'
    obtain ⟨m, hm, rfl⟩ := hm'
    exact ⟨m, hm, rfl, fun id => .same rfl rfl⟩
  | takeNewBlockIds =>
    obtain rfl := Except.ok.inj h
    unfold KVCacheManager.takeNewBlockIds at hm'
    dsimp only at hm'
    rw [List.map_map, List.getElem?_map, Option.map_eq_some_iff] at hm'
    obtain ⟨m, hm, rfl⟩ := hm'
    exact ⟨m, hm, rfl, fun id => .same rfl rfl⟩

end Cells

/-! ## The initial state -/

omit [DecidableEq H] in
theorem initManagers_idle {caching : Bool} :
    ∀ (specs : List KVCacheSpec) (i : GroupId) {p p' : BlockPool H}
      {ms : List (SingleTypeManager H)},
      KVCacheCoordinator.initManagers caching i p specs = .ok (p', ms) →
      ∀ m ∈ ms, ∀ id, stateCell m id = ⟨[], false, none⟩ := by
  intro specs
  induction specs with
  | nil =>
    intro i p p' ms h m hm
    simp only [KVCacheCoordinator.initManagers, Except.ok.injEq, Prod.mk.injEq] at h
    obtain ⟨-, rfl⟩ := h
    cases hm
  | cons s specs ih =>
    intro i p p' ms h m hm id
    simp only [KVCacheCoordinator.initManagers, Raises.bind_eq_ok, Raises.pure_eq_ok] at h
    obtain ⟨⟨p₁, m₁⟩, hone, ⟨p₂, ms₁⟩, hms, heq⟩ := h
    obtain ⟨-, rfl⟩ := Prod.mk.inj heq
    rcases List.mem_cons.mp hm with rfl | hm
    · unfold SingleTypeManager.init at hone
      dsimp only at hone
      split at hone
      · simp only [Raises.bind_eq_ok, Raises.pure_eq_ok, Prod.mk.injEq] at hone
        obtain ⟨-, -, -, -, -, rfl⟩ := hone
        rfl
      · obtain ⟨-, rfl⟩ := Prod.mk.inj (Except.ok.inj hone)
        rfl
    · exact ih (i + 1) hms m hm id

omit [DecidableEq H] in
theorem init_idle {specs : List KVCacheSpec} {numBlocks maxModelLen hashBlockSize : Nat}
    {enableCaching useEagle : Bool} {k : KVCacheManager H}
    (h : KVCacheManager.init specs numBlocks maxModelLen hashBlockSize enableCaching useEagle
      = .ok k) {i : Nat} {m : SingleTypeManager H}
    (hm : k.coordinator.singleTypeManagers[i]? = some m) (id : ReqId) :
    stateCell m id = ⟨[], false, none⟩ := by
  simp only [KVCacheManager.init, KVCacheCoordinator.init, Raises.bind_eq_ok,
    Raises.pure_eq_ok] at h
  obtain ⟨c, ⟨p, -, ⟨p', ms⟩, hms, kind, -, rfl⟩, rfl⟩ := h
  exact initManagers_idle specs 0 hms m (List.mem_of_getElem? hm) id

end VllmEngine
