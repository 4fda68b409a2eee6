import VllmEngine.Kv.MambaRuns
import VllmEngine.Sched.Update

/-!
# Allocations of Mamba groups in align mode

`MambaManager.allocate_new_blocks` asserts that a request's list is not longer than required, and
that it asks for no more blocks than `get_num_blocks_to_allocate` announced. The list has grown for
the tokens of the last allocation, drafts included, while the next allocation starts from the
tokens that were accepted: after a rejection it can reach less far.

> `alignedSlots_run`: as long as no allocation ends in an earlier block than the one before it, no
> assertion fails and no block is twice in a list,
> `rejectedDrafts_trip`: two rejected drafts at a block boundary fail the assertion.
-/

namespace VllmEngine

open SingleTypeManager KVCacheManager KVCacheCoordinator

variable {H : Type} [DecidableEq H]

/-- A Mamba spec in align mode. -/
def KVCacheSpec.isAligned (s : KVCacheSpec) : Bool :=
  match s.kind with
  | .mamba f => decide (f.mambaCacheMode = .align)
  | _ => false

/-! ## What is promised of a call -/

/-- A call of `allocate_new_blocks`: the list is not longer than required, `get_new_blocks` is
asked for at least no and at most the announced blocks, and nothing else can raise. -/
structure AllocationFits (m : SingleTypeManager H) (f : MambaFields) (reqId : ReqId)
    (main announced : Int) : Prop where
  required : ((m.reqBlocks reqId).length : Int) ≤ alignRequired m f main
  nonneg : 0 ≤ alignAsked m f reqId main
  announced : alignAsked m f reqId main ≤ announced
  raises : ∀ p e, m.mambaAllocateNewBlocks p f reqId main = .error e →
    p.getNewBlocks (alignAsked m f reqId main) = .error e

/-- The calls of `allocate_new_blocks` in one call of `allocate_slots`. The managers are asked for
the number of blocks after the skipped ones are removed (`c₁`), and for the blocks after the hits
are taken over (`c₂`). -/
def AllocationsFit (k : KVCacheManager H) (r : Request H) (a : SlotArgs) : Prop :=
  ∀ c₁ n c₂,
    k.coordinator.removeSkippedBlocks r.requestId (a.totalComputedTokens r k.maxModelLen) = .ok c₁ →
    c₁.getNumBlocksToAllocate r.requestId (a.numTokensNeedSlot r k.maxModelLen) a.newComputedBlocks
      a.numEncoderTokens (a.numLocalComputedTokens r + a.numExternalComputedTokens)
      (a.numTokensMainModel r k.maxModelLen) = .ok n →
    ¬ n > c₁.blockPool.numFreeBlocks →
    { k with coordinator := c₁ }.adoptComputed r a = .ok c₂ →
    ∀ (i : Nat) (m₁ m₂ : SingleTypeManager H) (f : MambaFields) (announced : Int),
      c₁.singleTypeManagers[i]? = some m₁ → c₂.singleTypeManagers[i]? = some m₂ →
      m₂.spec.kind = .mamba f → f.mambaCacheMode = .align →
      blocksToAllocateOf c₁.blockPool r.requestId (a.numTokensNeedSlot r k.maxModelLen)
        a.newComputedBlocks a.numEncoderTokens
        (a.numLocalComputedTokens r + a.numExternalComputedTokens)
        (a.numTokensMainModel r k.maxModelLen) i m₁ = .ok announced →
      AllocationFits m₂ f r.requestId (a.numTokensMainModel r k.maxModelLen) announced

/-- The tokens of an allocation do not end in an earlier block than those of the request's last
allocation. -/
def KvCall.KeepsReach (s : SlotRun H) : KvCall H → Prop
  | .allocateSlots r a => ∀ m ∈ s.kv.coordinator.singleTypeManagers, m.spec.isAligned = true →
    ∀ n, s.lastTokens r.requestId = some n → Python.cdiv n m.spec.blockSize
      ≤ Python.cdiv (a.numTokensMainModel r s.kv.maxModelLen) m.spec.blockSize
  | _ => True

instance (k : KVCacheManager H) (r : Request H) (a : SlotArgs) : Decidable (ScheduledSlots k r a) :=
  decidable_of_iff
    (a.numExternalComputedTokens = 0 ∧ 0 < a.numNewTokens ∧ 0 ≤ r.numComputedTokens ∧
      ((a.newComputedBlocks = k.emptyKvCacheBlocks ∧ a.numNewComputedTokens = 0) ∨
        (r.numComputedTokens = 0 ∧ r.blockHashes.Nodup ∧ r.numTokens ≤ k.maxModelLen ∧
          k.getComputedBlocks r = .ok (a.newComputedBlocks, a.numNewComputedTokens))))
    ⟨fun h => ⟨h.1, h.2.1, h.2.2.1, h.2.2.2⟩, fun h => ⟨h.external, h.newTokens, h.computed, h.hits⟩⟩

instance (k : KVCacheManager H) (call : KvCall H) : Decidable (call.Scheduled k) := by
  cases call <;> unfold KvCall.Scheduled <;> infer_instance

instance (s : SlotRun H) (call : KvCall H) : Decidable (call.KeepsReach s) := by
  cases call <;> unfold KvCall.KeepsReach <;> infer_instance

/-! ## One call of a manager -/

/-- An assertion that holds raises nothing. -/
theorem require_error {α : Type} {cond : Bool} {msg : String} {g : Unit → Except Python.Error α}
    {e : Python.Error} (hcond : cond = true) (h : (Python.require cond msg >>= g) = .error e) :
    g () = .error e := by
  rw [hcond] at h
  exact h

theorem mambaAllocateNewBlocks_error {p : BlockPool H} {m : SingleTypeManager H} {f : MambaFields}
    {reqId : ReqId} {main : Int} {e : Python.Error}
    (hle : ((m.reqBlocks reqId).length : Int) ≤ alignRequired m f main)
    (hbound : alignAsked m f reqId main
      ≤ if reqId ∈ m.allocatedBlockReqs then 1 else (f.numSpeculativeBlocks : Int) + 1)
    (h : m.mambaAllocateNewBlocks p f reqId main = .error e) :
    p.getNewBlocks (alignAsked m f reqId main) = .error e := by
  have hreq : (m.withEntry reqId).numRequiredBlocks main + f.numSpeculativeBlocks
      = alignRequired m f main := rfl
  have hmem : (m.withEntry reqId).allocatedBlockReqs = m.allocatedBlockReqs := rfl
  unfold mambaAllocateNewBlocks at h
  simp only [withEntry_reqBlocks, hreq, hmem, decide_eq_true_eq] at h
  split at h
  · cases h
  next hne =>
    have hgrows : alignRequired m f main > (m.reqBlocks reqId).length :=
      lt_of_le_of_ne hle (Ne.symm hne)
    replace h := require_error (decide_eq_true hgrows) h
    replace h := require_error (decide_eq_true hbound) h
    change (p.getNewBlocks (alignAsked m f reqId main) >>= _) = .error e at h
    cases hnew : p.getNewBlocks (alignAsked m f reqId main) with
    | ok x => rw [hnew] at h; cases h
    | error e' =>
      rw [hnew] at h
      have heq : e' = e := Except.error.inj h
      rw [heq]

/-! ## The cells of a run -/

/-- A list has room for the tokens of the last allocation and for the drafts. -/
structure ReachCell (f : MambaFields) (blockSize : Nat) (last : Option Int) (c : StateCell) :
    Prop extends CellOk f c where
  reach : c.allocated = true → ∃ n, last = some n ∧
    (c.blocks.length : Int) = Python.cdiv n blockSize + f.numSpeculativeBlocks

omit [DecidableEq H] in
/-- The allocation ends behind the computed tokens, which are not negative. -/
theorem ScheduledSlots.total_lt {k : KVCacheManager H} {r : Request H} {a : SlotArgs}
    (hcomputed : 0 ≤ r.numComputedTokens) (hnew : 0 < a.numNewTokens) :
    max (a.totalComputedTokens r k.maxModelLen) 0 < a.numTokensMainModel r k.maxModelLen := by
  unfold SlotArgs.numTokensMainModel SlotArgs.totalComputedTokens SlotArgs.numLocalComputedTokens
  omega

/-- What is known of the list when the blocks are asked for: a running request has its own blocks
and no hits, and any other one fewer blocks than the tokens need. -/
def HasRoom (f : MambaFields) (reqId : ReqId) (main : Int) (hits : List BlockId)
    (m₁ m₂ : SingleTypeManager H) : Prop :=
  (reqId ∈ m₂.allocatedBlockReqs ∧ reqId ∈ m₁.allocatedBlockReqs ∧ hits = [] ∧
      m₁.reqBlocks reqId = m₂.reqBlocks reqId ∧
      f.numSpeculativeBlocks < (m₂.reqBlocks reqId).length ∧
      ((m₂.reqBlocks reqId).length : Int) ≤ alignRequired m₂ f main) ∨
    (reqId ∉ m₂.allocatedBlockReqs ∧ reqId ∉ m₁.allocatedBlockReqs ∧ m₁.reqBlocks reqId = [] ∧
      (hits.length : Int) + f.numSpeculativeBlocks < alignRequired m₂ f main ∧
      ((m₂.reqBlocks reqId).length : Int) + f.numSpeculativeBlocks < alignRequired m₂ f main)

section Call

variable {f : MambaFields} {reqId : ReqId} {total loc main : Int} {hits : List BlockId}
  {m m₁ m₂ : SingleTypeManager H} {last : Option Int}

omit [DecidableEq H] in
theorem SlotPrefix.room (hp : SlotPrefix f reqId total loc hits m m₁ m₂)
    (hc : ReachCell f m.spec.blockSize last (stateCell m reqId)) (hbs : 0 < m.spec.blockSize)
    (hlt : max total 0 < main)
    (hreach : ∀ n, last = some n →
      Python.cdiv n m.spec.blockSize ≤ Python.cdiv main m.spec.blockSize) :
    HasRoom f reqId main hits m₁ m₂ := by
  have hbs' : (0 : Int) < m.spec.blockSize := by exact_mod_cast hbs
  have hrequired : alignRequired m₂ f main
      = Python.cdiv main m.spec.blockSize + f.numSpeculativeBlocks := by
    unfold alignRequired numRequiredBlocks
    rw [hp.spec₂]
  have hless : ∀ n : Nat, (n : Int) * m.spec.blockSize ≤ max total 0 →
      (n : Int) < Python.cdiv main m.spec.blockSize :=
    fun n hn => (Python.lt_cdiv_iff hbs').mpr (Int.lt_of_le_of_lt hn hlt)
  rcases hp.cases hc.toCellOk with ⟨hmem, hnil, heq⟩ | ⟨hmem, hmem₁, hempty, hhits, hlen, -⟩
  · refine Or.inl ⟨hmem, heq ▸ hmem, hnil, by rw [heq], ?_, ?_⟩
    · exact heq ▸ (hp.cleared.ok hc.toCellOk).busy (decide_eq_true (heq ▸ hmem))
    · have halloc : (stateCell m reqId).allocated = true := by
        rw [← hp.cleared.allocated]
        exact decide_eq_true (heq ▸ hmem)
      obtain ⟨n, hn, hsize⟩ := hc.reach halloc
      have hcleared := hp.cleared.length
      have hle := hreach n hn
      change (m₁.reqBlocks reqId).length = (m.reqBlocks reqId).length at hcleared
      change ((m.reqBlocks reqId).length : Int) = _ at hsize
      rw [heq, hcleared, hsize, ← heq, hrequired]
      omega
  · have h₁ := hless _ hhits
    have h₂ := hless _ hlen
    exact Or.inr ⟨hmem, hmem₁, hempty, by omega, by omega⟩

omit [DecidableEq H] in
theorem HasRoom.required (h : HasRoom f reqId main hits m₁ m₂) :
    ((m₂.reqBlocks reqId).length : Int) ≤ alignRequired m₂ f main := by
  rcases h with ⟨-, -, -, -, -, hle⟩ | ⟨-, -, -, -, hlt⟩
  · exact hle
  · omega

omit [DecidableEq H] in
theorem HasRoom.asked (h : HasRoom f reqId main hits m₁ m₂) :
    0 ≤ alignAsked m₂ f reqId main ∧ alignAsked m₂ f reqId main
      ≤ min (alignRequired m₂ f main - (m₂.reqBlocks reqId).length)
        (if reqId ∈ m₂.allocatedBlockReqs then 1 else (f.numSpeculativeBlocks : Int) + 1) := by
  refine alignAsked_bounds (fun hmem => ?_) h.required
  rcases h with ⟨-, -, -, -, hlt, -⟩ | ⟨hnot, -⟩
  · exact hlt
  · exact absurd hmem hnot

/-- What `get_num_blocks_to_allocate` announces. A hit on a block cached in this step makes it
announce more blocks than there are. -/
theorem HasRoom.announced (h : HasRoom f reqId main hits m₁ m₂) (hspec : m₁.spec = m₂.spec)
    (hk : m₂.spec.kind = .mamba f) (halign : f.mambaCacheMode = .align) {p : BlockPool H}
    {n computed x : Int} (hx : m₁.getNumBlocksToAllocate p reqId n hits computed main = .ok x) :
    0 ≤ x ∧ (x = p.numGpuBlocks + 1 ∨ alignAsked m₂ f reqId main ≤ x) := by
  obtain ⟨-, hasked⟩ := h.asked
  have hrequired : m₁.numRequiredBlocks main + f.numSpeculativeBlocks
      = alignRequired m₂ f main := by
    unfold alignRequired numRequiredBlocks
    rw [hspec]
  unfold SingleTypeManager.getNumBlocksToAllocate at hx
  rw [hspec, hk] at hx
  dsimp only at hx
  unfold mambaNumBlocksToAllocate at hx
  simp only [halign, ne_eq, not_true_eq_false, if_false, hrequired] at hx
  obtain ⟨count, hcount⟩ : ∃ count, count
      = (if alignRequired m₂ f main - hits.length - (m₁.reqBlocks reqId).length > 0 then
          if reqId ∈ m₁.allocatedBlockReqs then 1 else 1 + (f.numSpeculativeBlocks : Int)
        else alignRequired m₂ f main - hits.length - (m₁.reqBlocks reqId).length)
        + (getNumEvictableBlocks p hits : Int) := ⟨_, rfl⟩
  have hbounds : 0 ≤ count ∧ alignAsked m₂ f reqId main ≤ count := by
    rcases h with ⟨hmem, hmem₁, rfl, heq, -, hle⟩ | ⟨hmem, hmem₁, hempty, hhits, hlen⟩
    · rw [if_pos hmem] at hasked
      rw [if_pos hmem₁, heq, List.length_nil] at hcount
      split at hcount
      · omega
      · omega
    · rw [if_neg hmem] at hasked
      rw [if_neg hmem₁, hempty, List.length_nil] at hcount
      split at hcount
      · omega
      · omega
  rw [← hcount] at hx
  split at hx
  · split at hx
    · obtain rfl := Except.ok.inj hx
      exact ⟨by omega, Or.inl rfl⟩
    · obtain rfl := Except.ok.inj hx
      exact ⟨hbounds.1, Or.inr hbounds.2⟩
  · rw [if_neg Bool.false_ne_true] at hx
    obtain rfl := Except.ok.inj hx
    exact ⟨hbounds.1, Or.inr hbounds.2⟩

end Call

/-! ## The check for free blocks -/

omit [DecidableEq H] in
/-- In a sum of counts none is larger than the sum. -/
theorem sumManagers_le {g : Nat → SingleTypeManager H → Except Python.Error Int} :
    ∀ (ms : List (SingleTypeManager H)) (i : Nat) {n : Int}, sumManagers g i ms = .ok n →
      (∀ (j : Nat) m x, ms[j]? = some m → g (i + j) m = .ok x → 0 ≤ x) →
      0 ≤ n ∧ ∀ (j : Nat) m x, ms[j]? = some m → g (i + j) m = .ok x → x ≤ n := by
  intro ms
  induction ms with
  | nil =>
    intro i n h _
    obtain rfl := Except.ok.inj h
    exact ⟨Int.le_refl 0, fun j m x hj => by cases hj⟩
  | cons m ms ih =>
    intro i n h hnonneg
    simp only [sumManagers, Raises.bind_eq_ok, Raises.pure_eq_ok] at h
    obtain ⟨x₀, hx₀, rest, hrest, rfl⟩ := h
    have hfirst := hnonneg 0 m x₀ rfl hx₀
    obtain ⟨hpos, hle⟩ := ih (i + 1) hrest fun j m' x hj hx =>
      hnonneg (j + 1) m' x hj (by rw [show i + (j + 1) = i + 1 + j from by omega]; exact hx)
    refine ⟨by omega, fun j m' x hj hx => ?_⟩
    cases j with
    | zero =>
      obtain rfl := Option.some.inj hj
      rw [Nat.add_zero, hx₀] at hx
      obtain rfl := Except.ok.inj hx
      omega
    | succ j =>
      have := hle j m' x hj (by rw [show i + 1 + j = i + (j + 1) from by omega]; exact hx)
      omega

omit [DecidableEq H] in
theorem numFreeBlocks_le {p : BlockPool H} {refs : BlockId → Nat} (h : p.Accounted refs) :
    p.numFreeBlocks ≤ p.numGpuBlocks := by
  rw [h.num]
  have hsub : p.freeBlocks ⊆ List.range p.numGpuBlocks :=
    fun b hb => List.mem_range.mpr ((h.mem_free b).mp hb).2.1
  have hlen := (List.subperm_of_subset h.nodup hsub).length_le
  rw [List.length_range] at hlen
  exact_mod_cast hlen

omit [DecidableEq H] in
theorem baseNumBlocksToAllocate_nonneg {p : BlockPool H} {m : SingleTypeManager H} {reqId : ReqId}
    {n total x : Int} {hits : List BlockId}
    (h : m.baseNumBlocksToAllocate p reqId n hits total = .ok x) : 0 ≤ x := by
  unfold baseNumBlocksToAllocate at h
  dsimp only at h
  split at h
  · split at h
    · obtain rfl := Except.ok.inj h
      exact Int.le_max_right _ _
    · cases h
  · obtain rfl := Except.ok.inj h
    have := Int.le_max_right
      (m.numRequiredBlocks n - max (m.numSkippedBlocks total) (hits.length + (m.reqBlocks reqId).length)) 0
    omega

/-- A group that is not in align mode announces no negative number. -/
theorem getNumBlocksToAllocate_nonneg {p : BlockPool H} {m : SingleTypeManager H} {reqId : ReqId}
    {n total main x : Int} {hits : List BlockId} (hna : m.spec.isAligned = false)
    (h : m.getNumBlocksToAllocate p reqId n hits total main = .ok x) : 0 ≤ x := by
  unfold SingleTypeManager.getNumBlocksToAllocate at h
  unfold KVCacheSpec.isAligned at hna
  split at h
  next f hk =>
    rw [hk] at hna
    have hmode := of_decide_eq_false hna
    unfold mambaNumBlocksToAllocate at h
    dsimp only at h
    rw [if_pos hmode] at h
    split at h
    · split at h
      · obtain rfl := Except.ok.inj h
        omega
      · exact baseNumBlocksToAllocate_nonneg h
    · exact baseNumBlocksToAllocate_nonneg h
  next => exact baseNumBlocksToAllocate_nonneg h

/-! ## The invariant -/

/-- Between calls. -/
structure ReachOk (specs : List KVCacheSpec) (s : SlotRun H) : Prop where
  coordinator : CoordinatorOk specs s.kv.coordinator
  cells : ∀ (i : Nat) m f, s.kv.coordinator.singleTypeManagers[i]? = some m →
    m.spec.kind = .mamba f → f.mambaCacheMode = .align →
    ∀ id, ReachCell f m.spec.blockSize (s.lastTokens id) (stateCell m id)

theorem isAligned_of {s : KVCacheSpec} {f : MambaFields} (hk : s.kind = .mamba f)
    (halign : f.mambaCacheMode = .align) : s.isAligned = true := by
  unfold KVCacheSpec.isAligned
  rw [hk]
  exact decide_eq_true halign

theorem exists_of_isAligned {s : KVCacheSpec} (h : s.isAligned = true) :
    ∃ f, s.kind = .mamba f ∧ f.mambaCacheMode = .align := by
  unfold KVCacheSpec.isAligned at h
  split at h
  next f hk => exact ⟨f, hk, of_decide_eq_true h⟩
  next => cases h

section Steps

variable {specs : List KVCacheSpec} {s s' : SlotRun H} {r : Request H} {a : SlotArgs}
  (hpos : ∀ s ∈ specs, 0 < s.blockSize)
include hpos

/-- Every Mamba group in align mode has room when the blocks are asked for. -/
theorem ReachOk.room (hI : ReachOk specs s) (hs : ScheduledSlots s.kv r a)
    (hreach : (KvCall.allocateSlots r a).KeepsReach s) {c₁ c₂ : KVCacheCoordinator H}
    (hskip : s.kv.coordinator.removeSkippedBlocks r.requestId
      (a.totalComputedTokens r s.kv.maxModelLen) = .ok c₁)
    (hadopt : { s.kv with coordinator := c₁ }.adoptComputed r a = .ok c₂) {i : Nat}
    {m₁ m₂ : SingleTypeManager H} (hm₁ : c₁.singleTypeManagers[i]? = some m₁)
    (hm₂ : c₂.singleTypeManagers[i]? = some m₂) {f : MambaFields}
    (hk : m₂.spec.kind = .mamba f) (halign : f.mambaCacheMode = .align) :
    HasRoom f r.requestId (a.numTokensMainModel r s.kv.maxModelLen)
      (a.newComputedBlocks.getD i []) m₁ m₂ ∧ m₁.spec = m₂.spec := by
  obtain ⟨m, m₁', hm, hm₁', hp⟩ := slots_prefix hpos hI.coordinator hs hskip hadopt hm₂ hk
  obtain rfl : m₁' = m₁ := Option.some.inj (hm₁'.symm.trans hm₁)
  have hkm : m.spec.kind = .mamba f := hp.spec₂ ▸ hk
  have hspec := hI.coordinator.manager_spec hm
  refine ⟨hp.room (hI.cells i m f hm hkm halign r.requestId)
    (hpos _ (List.mem_of_getElem? hspec)) (ScheduledSlots.total_lt hs.computed hs.newTokens) ?_,
    hp.spec₁.trans hp.spec₂.symm⟩
  exact hreach m (List.mem_of_getElem? hm) (isAligned_of hkm halign)

/-- **The calls of `allocate_new_blocks`** that a call of `allocate_slots` makes. -/
theorem ReachOk.allocationsFit (hI : ReachOk specs s) (hs : ScheduledSlots s.kv r a)
    (hreach : (KvCall.allocateSlots r a).KeepsReach s) : AllocationsFit s.kv r a := by
  intro c₁ n c₂ hskip hsum hfree hadopt i m₁ m₂ f announced hm₁ hm₂ hk halign hx
  obtain ⟨hroom, hspec⟩ := hI.room hpos hs hreach hskip hadopt hm₁ hm₂ hk halign
  have hcross : m₁.spec.isCrossAttention = false := by
    unfold KVCacheSpec.isCrossAttention
    rw [hspec, hk]
  obtain ⟨hnonneg, hbound⟩ := hroom.asked
  refine ⟨hroom.required, hnonneg, ?_, fun p e h =>
    mambaAllocateNewBlocks_error hroom.required (Int.le_trans hbound (Int.min_le_right _ _)) h⟩
  have hx' := hx
  unfold blocksToAllocateOf at hx'
  rw [hcross, if_neg Bool.false_ne_true] at hx'
  rcases (hroom.announced hspec hk halign hx').2 with hmany | hle
  · -- more blocks than there are: the check for free blocks would have failed
    have hok₁ := (coordinator_removeSkippedBlocks hI.coordinator hskip).ok
    have hok₂ := (scheduled_adopt hpos hI.coordinator hs hskip hadopt)
    have hall : ∀ (j : Nat) m x, c₁.singleTypeManagers[j]? = some m →
        blocksToAllocateOf c₁.blockPool r.requestId (a.numTokensNeedSlot r s.kv.maxModelLen)
          a.newComputedBlocks a.numEncoderTokens
          (a.numLocalComputedTokens r + a.numExternalComputedTokens)
          (a.numTokensMainModel r s.kv.maxModelLen) (0 + j) m = .ok x → 0 ≤ x := by
      intro j m x hm hval
      rw [Nat.zero_add] at hval
      unfold blocksToAllocateOf at hval
      by_cases hal : m.spec.isAligned = true
      · obtain ⟨g, hkg, hga⟩ := exists_of_isAligned hal
        have hj : specs[j]? = some m.spec := hok₁.manager_spec hm
        rw [← hok₂.specs, List.getElem?_map, Option.map_eq_some_iff] at hj
        obtain ⟨m', hm', hspec'⟩ := hj
        obtain ⟨hroom', hspec''⟩ := hI.room hpos hs hreach hskip hadopt hm hm' (hspec' ▸ hkg) hga
        have hnocross : m.spec.isCrossAttention = false := by
          unfold KVCacheSpec.isCrossAttention
          rw [hkg]
        rw [hnocross, if_neg Bool.false_ne_true] at hval
        exact (hroom'.announced hspec'' (hspec' ▸ hkg) hga hval).1
      · rw [Bool.not_eq_true] at hal
        split at hval
        · exact getNumBlocksToAllocate_nonneg hal hval
        · exact getNumBlocksToAllocate_nonneg hal hval
    have hle := (sumManagers_le _ 0 hsum hall).2 i m₁ announced hm₁
      (by rw [Nat.zero_add]; exact hx)
    have hnum := numFreeBlocks_le hok₁.balanced.accounted
    omega
  · exact hle

/-! ## Runs -/

omit hpos in
theorem SlotsGiven.room {f : MambaFields} {m m' : SingleTypeManager H} {last : Option Int}
    (hg : SlotsGiven f s.kv r a m m')
    (hc : ReachCell f m.spec.blockSize last (stateCell m r.requestId))
    (hbs : 0 < m.spec.blockSize)
    (hreach : ∀ n, last = some n → Python.cdiv n m.spec.blockSize
      ≤ Python.cdiv (a.numTokensMainModel r s.kv.maxModelLen) m.spec.blockSize) :
    ReachCell f m.spec.blockSize (some (a.numTokensMainModel r s.kv.maxModelLen))
      (stateCell m' r.requestId) := by
  have hlt := ScheduledSlots.total_lt (k := s.kv) hg.scheduled.computed hg.scheduled.newTokens
  obtain ⟨hits, m₁, m₂, hp, hgiven⟩ := hg.steps
  have hroom := hp.room hc hbs hlt hreach
  have hrequired : alignRequired m₂ f (a.numTokensMainModel r s.kv.maxModelLen)
      = Python.cdiv (a.numTokensMainModel r s.kv.maxModelLen) m.spec.blockSize
        + f.numSpeculativeBlocks := by
    unfold alignRequired numRequiredBlocks
    rw [hp.spec₂]
  rcases hgiven with ⟨heq, hcell⟩ | ⟨q, q', m₃, fresh, hgrown, hcell⟩
  · -- nothing is added, so the request has an allocation
    rcases hroom with ⟨hmem, -, -, -, hspec, -⟩ | ⟨-, -, -, -, hless⟩
    · have halloc : (stateCell m₂ r.requestId).allocated = true := decide_eq_true hmem
      rw [hcell]
      refine ⟨⟨fun hidle => ?_, fun _ => hspec⟩, fun _ => ⟨_, rfl, ?_⟩⟩
      · rw [halloc] at hidle
        cases hidle
      · rw [← hrequired, heq]
        rfl
    · omega
  · have halloc := hgrown.allocated
    have hlen := hgrown.length
    have hone : 0 < Python.cdiv (a.numTokensMainModel r s.kv.maxModelLen) m.spec.blockSize :=
      (Python.lt_cdiv_iff (by exact_mod_cast hbs)).mpr (by rw [Int.zero_mul]; omega)
    rw [hcell]
    refine ⟨⟨fun hidle => ?_, fun _ => ?_⟩, fun _ => ⟨_, rfl, ?_⟩⟩
    · rw [halloc] at hidle
      cases hidle
    · show f.numSpeculativeBlocks < (m₃.reqBlocks r.requestId).length
      omega
    · show ((m₃.reqBlocks r.requestId).length : Int) = _
      rw [hlen, hrequired]

/-- **One call** keeps room for the tokens of the last allocation. -/
theorem ReachOk.step (hI : ReachOk specs s) {call : KvCall H} (hs : call.Scheduled s.kv)
    (hreach : call.KeepsReach s) (h : s.step call = .ok s') : ReachOk specs s' := by
  refine ⟨SlotRun.step_ok hpos hI.coordinator hs h, fun i m' f hm' hk halign id => ?_⟩
  obtain ⟨m, hm, hspec, hcells⟩ := SlotRun.step_cells hpos hI.coordinator hs h hm' hk halign
  have hkm : m.spec.kind = .mamba f := hspec ▸ hk
  have hold := hI.cells i m f hm hkm halign id
  rw [← hspec]
  cases hcells id with
  | same hcell hlast =>
    rw [hcell, hlast]
    exact hold
  | cleared total hcell hlast =>
    refine ⟨hcell.ok hold.toCellOk, fun halloc => ?_⟩
    rw [hlast, hcell.length]
    exact hold.reach (hcell.allocated ▸ halloc)
  | freed hcell =>
    rw [hcell]
    exact ⟨⟨fun _ => rfl, fun h => by cases h⟩, fun h => by cases h⟩
  | given r a hcall hid hgiven hlast =>
    subst hid
    rw [hlast]
    have hmem := List.mem_of_getElem? (hI.coordinator.manager_spec hm)
    refine hgiven.room hold (hpos _ hmem) ?_
    rw [hcall] at hreach
    exact hreach m (List.mem_of_getElem? hm) (isAligned_of hkm halign)

end Steps

/-- The start of a run. -/
def SlotRun.start (k : KVCacheManager H) : SlotRun H where
  kv := k
  lastTokens := fun _ => none

/-- **No assertion of `allocate_new_blocks` fails**, and no block is twice in a list, in any run
whose allocations do not end in an earlier block than the ones before them. -/
theorem alignedSlots_run {specs : List KVCacheSpec} {numBlocks maxModelLen hashBlockSize : Nat}
    {enableCaching useEagle : Bool} {k₀ : KVCacheManager H} {calls : List (KvCall H)}
    (hsink : ∀ s ∈ specs, s.isSinkless = true) (hpos : ∀ s ∈ specs, 0 < s.blockSize)
    (hinit : KVCacheManager.init specs numBlocks maxModelLen hashBlockSize enableCaching useEagle
      = .ok k₀)
    (hreach : Run.Guarded SlotRun.step (fun s call => call.Scheduled s.kv ∧ call.KeepsReach s)
      (SlotRun.start k₀) calls) :
    ∀ s, Run.exec SlotRun.step (SlotRun.start k₀) calls = .ok s →
      (∀ m ∈ s.kv.coordinator.singleTypeManagers, ∀ reqId b, b ≠ nullBlock →
        (m.reqBlocks reqId).count b ≤ 1) ∧
      ∀ r a, ScheduledSlots s.kv r a → (KvCall.allocateSlots r a).KeepsReach s →
        AllocationsFit s.kv r a := by
  intro s hrun
  have hstart : ReachOk specs (SlotRun.start k₀) := by
    refine ⟨init_coordinatorOk hsink hpos hinit, fun i m f hm _ _ id => ?_⟩
    rw [init_idle hinit hm id]
    exact ⟨⟨fun _ => rfl, fun h => by cases h⟩, fun h => by cases h⟩
  have hI := Run.exec_inv (I := ReachOk specs)
    (fun s call s' hI hg hstep => hI.step hpos hg.1 hg.2 hstep) calls _ s hstart hreach hrun
  refine ⟨fun m hm reqId b hb => ?_, fun r a hs hkeeps => hI.allocationsFit hpos hs hkeeps⟩
  exact (hI.coordinator.balanced.lists m hm).reqBlocks reqId hb

/-! ## Drafts at a block boundary -/

/-- A Mamba layer in align mode, with blocks of four tokens. -/
def alignSpec (numSpeculativeBlocks : Nat) : KVCacheSpec where
  blockSize := 4
  kind := .mamba
    { shapes := [[4]]
      dtypes := [.float16]
      pageSizePadded := none
      mambaType := "mamba2"
      mambaCacheMode := .align
      numSpeculativeBlocks := numSpeculativeBlocks }

/-- A prompt of two tokens of which some tokens are computed. -/
def computedPrompt (numComputedTokens : Int) : Request Digest :=
  { Request.fresh (plainPrompt "a" [1, 2]) 2 16 .running with
    numComputedTokens := numComputedTokens }

/-- The arguments for some new tokens, without hits. -/
def plainSlots (numNewTokens : Int) : SlotArgs where
  numNewTokens := numNewTokens
  numNewComputedTokens := 0
  newComputedBlocks := [[]]
  numLookaheadTokens := 2
  numExternalComputedTokens := 0
  delayCacheBlocks := false
  numEncoderTokens := 0

/-- The prompt, and a token with two drafts, one of which is accepted before the next step. -/
def acceptedDraftCalls : List (KvCall Digest) :=
  [.allocateSlots (computedPrompt 0) (plainSlots 2), .newStepStarts,
    .allocateSlots (computedPrompt 2) (plainSlots 3), .newStepStarts,
    .allocateSlots (computedPrompt 4) (plainSlots 3)]

theorem alignedSlots_run_accepted : ∃ (k₀ : KVCacheManager Digest) (s : SlotRun Digest),
    KVCacheManager.init [alignSpec 2] 16 32 4 true false = .ok k₀ ∧
      Run.exec SlotRun.step (SlotRun.start k₀) acceptedDraftCalls = .ok s ∧
      ∀ m ∈ s.kv.coordinator.singleTypeManagers, ∀ reqId b, b ≠ nullBlock →
        (m.reqBlocks reqId).count b ≤ 1 := by
  obtain ⟨k₀, s, hinit, hguard, hrun, -⟩ := Run.Guarded.of_started SlotRun.step
    (fun s call => decide (call.Scheduled s.kv ∧ call.KeepsReach s)) (KVCacheManager.init [alignSpec 2] 16 32 4 true false)
    SlotRun.start acceptedDraftCalls (fun _ => ()) () (by decide +kernel)
    (fun s call h => of_decide_eq_true h)
  exact ⟨k₀, s, hinit, hrun, (alignedSlots_run (by decide) (by decide) hinit hguard s hrun).1⟩

/-- Prefill in whole blocks, with as many drafts as there are speculative blocks. -/
def alignConfig (numSpecTokens : Nat) : SchedulerConfig Digest :=
  { smallConfig with
    numSpecTokens := numSpecTokens
    needMambaBlockAlignedSplit := true }

/-- The drafts that the worker proposes for the only request. -/
def proposed (drafts : List Token) : SchedOp := .updateDraftTokenIds [("a", drafts)] fun _ ts => ts

/-- The tokens that the worker sampled for the only request. -/
def answered (tokens : List Token) : SchedOp := .updateFromOutput (sampled fun _ => tokens)

/-- A prompt of two tokens, and two drafts that are both rejected. The step with the drafts ends in
the second block, and the next one in the first. -/
def rejectedDraftsOps : List SchedOp :=
  [addPrompt (plainPrompt "a" [1, 2]), .schedule quietEnv, answered [3], proposed [7, 8],
    .schedule quietEnv, answered [9], .schedule quietEnv]

/-- The engine after some calls, with one Mamba group. -/
def alignRun (numSpecTokens : Nat) (ops : List SchedOp) : Except Python.Error (Engine Digest) := do
  let e ← Engine.init (alignConfig numSpecTokens) [alignSpec numSpecTokens] 16 true
  Engine.run (alignConfig numSpecTokens) e ops

theorem rejectedDrafts_error : (match alignRun 2 rejectedDraftsOps with
    | .ok _ => none
    | .error e => some e) = some (.assertion "num_required_blocks < len(req_blocks)") := by
  decide +kernel

/-- The assertion of `allocate_new_blocks` fails. -/
theorem rejectedDrafts_trip :
    ¬ ∀ (cfg : SchedulerConfig Digest) (specs : List KVCacheSpec) (numBlocks : Nat)
      (enableCaching : Bool) (e₀ : Engine Digest) (ops : List SchedOp),
      Engine.init cfg specs numBlocks enableCaching = .ok e₀ →
      Engine.run cfg e₀ ops ≠ .error (.assertion "num_required_blocks < len(req_blocks)") := by
  intro h
  have herror := rejectedDrafts_error
  unfold alignRun at herror
  obtain ⟨e₀, hinit⟩ := Raises.exists_of_isOk
    (x := Engine.init (alignConfig 2) [alignSpec 2] 16 true) (by decide +kernel)
  rw [hinit, Raises.ok_bind] at herror
  refine h _ _ _ _ e₀ rejectedDraftsOps hinit ?_
  cases hrun : Engine.run (alignConfig 2) e₀ rejectedDraftsOps with
  | ok e => rw [hrun] at herror; cases herror
  | error err =>
    rw [hrun] at herror
    rw [Option.some.inj herror]

end VllmEngine

/-!
## How many blocks a Mamba request holds

A request is charged for two state blocks and the speculative ones: the state that the step starts
from, and the state it computes. `MambaManager` remembers one index for the former. It frees that
block in a later call, if the computed tokens less the drafts have passed it by then; the next
allocation overwrites the index in any case.

> `stateBlocks_run`: as long as the remembered block is passed before the list grows, no request
> holds more than it is charged for,
> `acceptedDrafts_leak`: with as many drafts as fit into a block it holds more.
-/

namespace VllmEngine

open SingleTypeManager KVCacheManager

variable {H : Type} [DecidableEq H]

/-- Whenever the list grows, the computed tokens less the drafts have passed the remembered state
block, or it is freed already. -/
def KvCall.PassesState (s : SlotRun H) : KvCall H → Prop
  | .allocateSlots r a => ∀ m ∈ s.kv.coordinator.singleTypeManagers, ∀ f,
    m.spec.kind = .mamba f → f.mambaCacheMode = .align →
    ((m.reqBlocks r.requestId).length : Int)
      < alignRequired m f (a.numTokensMainModel r s.kv.maxModelLen) →
    ∀ idx, m.lastStateBlockIdx.get? r.requestId = some idx →
      (m.reqBlocks r.requestId).getD idx.toNat nullBlock ≠ nullBlock →
      idx < Python.cdiv
        (max 0 (a.totalComputedTokens r s.kv.maxModelLen - f.numSpeculativeBlocks))
        m.spec.blockSize - 1
  | _ => True

instance {kind : SpecKind} {P : MambaFields → Prop} [DecidablePred P] :
    Decidable (∀ f, kind = .mamba f → P f) := by
  cases kind with
  | mamba f =>
    exact decidable_of_iff (P f) ⟨fun h _ hf => SpecKind.mamba.inj hf ▸ h, fun h => h f rfl⟩
  | _ => exact isTrue fun _ hf => nomatch hf

instance (s : SlotRun H) (call : KvCall H) : Decidable (call.PassesState s) := by
  cases call <;> unfold KvCall.PassesState <;> infer_instance

/-- Between calls. -/
structure StateOk (specs : List KVCacheSpec) (s : SlotRun H) : Prop where
  coordinator : CoordinatorOk specs s.kv.coordinator
  cells : ∀ (i : Nat) m f, s.kv.coordinator.singleTypeManagers[i]? = some m →
    m.spec.kind = .mamba f → f.mambaCacheMode = .align →
    ∀ id, CellOk f (stateCell m id) ∧ OneOld f (stateCell m id)

/-! ## One call -/

section Steps

variable {s s' : SlotRun H} {r : Request H} {a : SlotArgs} {f : MambaFields}

omit [DecidableEq H] in
/-- The blocks in front of the state block are null blocks when the list grows. -/
theorem Cleared.nothing_old {m m₁ : SingleTypeManager H} {reqId : ReqId} {total : Int}
    (h : Cleared f m.spec.blockSize total (stateCell m reqId) (stateCell m₁ reqId))
    (halign : f.mambaCacheMode = .align) (hold : OneOld f (stateCell m reqId))
    (hpassed : ∀ idx, m.lastStateBlockIdx.get? reqId = some idx →
      (m.reqBlocks reqId).getD idx.toNat nullBlock ≠ nullBlock →
      idx < Python.cdiv (max 0 (total - f.numSpeculativeBlocks)) m.spec.blockSize - 1)
    {j : Nat} {b : BlockId} (hj : j + 1 + f.numSpeculativeBlocks < (m₁.reqBlocks reqId).length)
    (hb : (m₁.reqBlocks reqId)[j]? = some b) : b = nullBlock := by
  by_contra hne
  have hlen : (m₁.reqBlocks reqId).length = (m.reqBlocks reqId).length := h.length
  have hbefore : (m.reqBlocks reqId)[j]? = some b := h.entries j b hb hne
  have hlast : m.lastStateBlockIdx.get? reqId = some (j : Int) :=
    hold j b (hlen ▸ hj) hbefore hne
  have hpast := hpassed j hlast (by
    rw [Int.toNat_natCast, List.getD_eq_getElem?_getD, hbefore]
    exact hne)
  have hfreed := h.passed halign j hlast hpast
  change (m₁.reqBlocks reqId).getD (j : Int).toNat nullBlock = nullBlock at hfreed
  rw [Int.toNat_natCast, List.getD_eq_getElem?_getD, hb] at hfreed
  exact hne hfreed

theorem SlotsGiven.stateOk {m m' : SingleTypeManager H} (hg : SlotsGiven f s.kv r a m m')
    (halign : f.mambaCacheMode = .align) (hbs : 0 < m.spec.blockSize)
    (hok : CellOk f (stateCell m r.requestId)) (hold : OneOld f (stateCell m r.requestId))
    (hpassed : ((m.reqBlocks r.requestId).length : Int)
        < alignRequired m f (a.numTokensMainModel r s.kv.maxModelLen) →
      ∀ idx, m.lastStateBlockIdx.get? r.requestId = some idx →
        (m.reqBlocks r.requestId).getD idx.toNat nullBlock ≠ nullBlock →
        idx < Python.cdiv
          (max 0 (a.totalComputedTokens r s.kv.maxModelLen - f.numSpeculativeBlocks))
          m.spec.blockSize - 1) :
    CellOk f (stateCell m' r.requestId) ∧ OneOld f (stateCell m' r.requestId) := by
  have hlt := ScheduledSlots.total_lt (k := s.kv) hg.scheduled.computed hg.scheduled.newTokens
  have hbs' : (0 : Int) < m.spec.blockSize := by exact_mod_cast hbs
  obtain ⟨hits, m₁, m₂, hp, hgiven⟩ := hg.steps
  have hrequired : alignRequired m₂ f (a.numTokensMainModel r s.kv.maxModelLen)
      = alignRequired m f (a.numTokensMainModel r s.kv.maxModelLen) := by
    unfold alignRequired numRequiredBlocks
    rw [hp.spec₂]
  have hone : (f.numSpeculativeBlocks : Int)
      < alignRequired m f (a.numTokensMainModel r s.kv.maxModelLen) := by
    have hpos : 0 < Python.cdiv (a.numTokensMainModel r s.kv.maxModelLen) m.spec.blockSize :=
      (Python.lt_cdiv_iff hbs').mpr (by rw [Int.zero_mul]; omega)
    unfold alignRequired numRequiredBlocks
    omega
  rcases hgiven with ⟨heq, hcell⟩ | ⟨q, q', m₃, fresh, hgrown, hcell⟩
  · rw [hcell]
    rcases hp.cases hok with ⟨-, -, hsame⟩ | ⟨-, -, -, -, hfew, -⟩
    · rw [hsame]
      exact ⟨hp.cleared.ok hok, hp.cleared.oneOld hold⟩
    · -- the hits alone are fewer than the blocks required
      have hless := (Python.lt_cdiv_iff hbs').mpr (Int.lt_of_le_of_lt hfew hlt)
      rw [hrequired] at heq
      unfold alignRequired numRequiredBlocks at heq
      omega
  · rw [hcell]
    have hlen := hgrown.length
    have hgrows := hgrown.grows
    refine ⟨⟨fun hidle => ?_, fun _ => ?_⟩, ?_⟩
    · rw [hgrown.allocated] at hidle
      cases hidle
    · show f.numSpeculativeBlocks < (m₃.reqBlocks r.requestId).length
      omega
    · rcases hp.cases hok with ⟨hmem, -, hsame⟩ | ⟨hmem, -, -, -, -, hnull⟩
      · subst hsame
        have hsize : (m₂.reqBlocks r.requestId).length = (m.reqBlocks r.requestId).length :=
          hp.cleared.length
        have hpast := hpassed (by omega)
        refine hgrown.oneOld (fun _ => (hp.cleared.ok hok).busy (decide_eq_true hmem))
          (fun _ j b hj hb => hp.cleared.nothing_old halign hold hpast hj hb)
          fun hnot => absurd hmem hnot
      · exact hgrown.oneOld (fun h => absurd h hmem) (fun h => absurd h hmem) fun _ => hnull

/-- **One call** keeps at most one block in front of the state block. -/
theorem StateOk.step {specs : List KVCacheSpec} (hpos : ∀ s ∈ specs, 0 < s.blockSize)
    (hI : StateOk specs s) {call : KvCall H} (hs : call.Scheduled s.kv)
    (hpasses : call.PassesState s) (h : s.step call = .ok s') : StateOk specs s' := by
  refine ⟨SlotRun.step_ok hpos hI.coordinator hs h, fun i m' f hm' hk halign id => ?_⟩
  obtain ⟨m, hm, hspec, hcells⟩ := SlotRun.step_cells hpos hI.coordinator hs h hm' hk halign
  have hkm : m.spec.kind = .mamba f := hspec ▸ hk
  obtain ⟨hok, hold⟩ := hI.cells i m f hm hkm halign id
  cases hcells id with
  | same hcell _ =>
    rw [hcell]
    exact ⟨hok, hold⟩
  | cleared total hcell _ => exact ⟨hcell.ok hok, hcell.oneOld hold⟩
  | freed hcell =>
    rw [hcell]
    exact ⟨⟨fun _ => rfl, fun h => by cases h⟩, fun j b hj => absurd hj (Nat.not_lt_zero _)⟩
  | given r a hcall hid hgiven _ =>
    subst hid
    have hmem := List.mem_of_getElem? (hI.coordinator.manager_spec hm)
    rw [hcall] at hpasses
    exact hgiven.stateOk halign (hpos _ hmem) hok hold
      (hpasses m (List.mem_of_getElem? hm) f hkm halign)

end Steps

/-! ## Runs -/

/-- **The memory bound.** In a run in which the remembered state block is passed before the list
grows, no request holds more blocks than `max_memory_usage_bytes` charges for one. -/
theorem stateBlocks_run {specs : List KVCacheSpec} {numBlocks maxModelLen hashBlockSize : Nat}
    {enableCaching useEagle : Bool} {k₀ : KVCacheManager H} {calls : List (KvCall H)}
    (hsink : ∀ s ∈ specs, s.isSinkless = true) (hpos : ∀ s ∈ specs, 0 < s.blockSize)
    (hinit : KVCacheManager.init specs numBlocks maxModelLen hashBlockSize enableCaching useEagle
      = .ok k₀)
    (hpasses : Run.Guarded SlotRun.step (fun s call => call.Scheduled s.kv ∧ call.PassesState s)
      (SlotRun.start k₀) calls) :
    ∀ s, Run.exec SlotRun.step (SlotRun.start k₀) calls = .ok s →
      ∀ m ∈ s.kv.coordinator.singleTypeManagers, m.spec.isAligned = true → ∀ reqId,
        ∀ lim : ModelLimits, lim.mambaCacheMode = .align →
          ((distinctBlocks (m.reqBlocks reqId)).length : Int) ≤ m.spec.maxBlocks lim := by
  intro s hrun m hm haligned reqId lim hlim
  have hstart : StateOk specs (SlotRun.start k₀) := by
    refine ⟨init_coordinatorOk hsink hpos hinit, fun i m f hm _ _ id => ?_⟩
    rw [init_idle hinit hm id]
    exact ⟨⟨fun _ => rfl, fun h => by cases h⟩, fun j b hj => absurd hj (Nat.not_lt_zero _)⟩
  have hI := Run.exec_inv (I := StateOk specs)
    (fun s call s' hI hg hstep => hI.step hpos hg.1 hg.2 hstep) calls _ s hstart hpasses hrun
  obtain ⟨i, hi⟩ := List.mem_iff_getElem?.mp hm
  obtain ⟨f, hk, halign⟩ := exists_of_isAligned haligned
  have hle := (hI.cells i m f hi hk halign reqId).2.distinctBlocks_le
  unfold KVCacheSpec.maxBlocks
  rw [hk, hlim]
  show ((distinctBlocks (m.reqBlocks reqId)).length : Int) ≤ 2 + (f.numSpeculativeBlocks : Int)
  have hcast : ((distinctBlocks (m.reqBlocks reqId)).length : Int)
      ≤ ((2 + f.numSpeculativeBlocks : Nat) : Int) := Int.ofNat_le.mpr hle
  rw [Nat.cast_add] at hcast
  exact hcast

/-! ## Accepted drafts that reach two blocks ahead -/

/-- The accepted drafts of `acceptedDraftCalls` stay below the bound. -/
theorem stateBlocks_run_accepted : ∃ (k₀ : KVCacheManager Digest) (s : SlotRun Digest),
    KVCacheManager.init [alignSpec 2] 16 32 4 true false = .ok k₀ ∧
      Run.exec SlotRun.step (SlotRun.start k₀) acceptedDraftCalls = .ok s ∧
      ∀ m ∈ s.kv.coordinator.singleTypeManagers, m.spec.isAligned = true →
        ((distinctBlocks (m.reqBlocks "a")).length : Int)
          ≤ m.spec.maxBlocks ⟨32, 16, 0, .align, 1, 1⟩ := by
  obtain ⟨k₀, s, hinit, hguard, hrun, -⟩ := Run.Guarded.of_started SlotRun.step
    (fun s call => decide (call.Scheduled s.kv ∧ call.PassesState s)) (KVCacheManager.init [alignSpec 2] 16 32 4 true false)
    SlotRun.start acceptedDraftCalls (fun _ => ()) () (by decide +kernel)
    (fun s call h => of_decide_eq_true h)
  exact ⟨k₀, s, hinit, hrun, fun m hm haligned =>
    stateBlocks_run (by decide) (by decide) hinit hguard s hrun m hm haligned "a" _ rfl⟩

/-- A prompt of three tokens and four drafts in each step, all of which are accepted. The second
step starts in the first block and ends in the second, the third one ends in the fourth. -/
def acceptedDraftsOps : List SchedOp :=
  [addPrompt (plainPrompt "a" [1, 2, 3]), .schedule quietEnv, answered [4], proposed [5, 6, 7, 8],
    .schedule quietEnv, answered [5, 6, 7, 8, 9], proposed [10, 11, 12, 13], .schedule quietEnv]

/-- No request has more drafts than there are speculative blocks. -/
def SchedOp.DraftsWithin (n : Nat) : SchedOp → Prop
  | .updateDraftTokenIds drafts _ => ∀ d ∈ drafts, d.2.length ≤ n
  | .updateDraftTokenIdsInOutput drafts _ => ∀ d ∈ drafts, d.2.length ≤ n
  | _ => True

theorem acceptedDrafts_within : ∀ op ∈ acceptedDraftsOps, op.DraftsWithin 4 := by
  simp only [acceptedDraftsOps, addPrompt, answered, proposed, SchedOp.DraftsWithin,
    List.forall_mem_cons, List.not_mem_nil, false_implies, implies_true, and_true, true_and]
  exact ⟨Nat.le_refl 4, Nat.le_refl 4⟩

theorem acceptedDrafts_blocks : ((alignRun 4 acceptedDraftsOps).toOption.map fun e =>
    e.scheduler.kvCacheManager.coordinator.singleTypeManagers.map fun m =>
      (m.spec.isAligned, (distinctBlocks (m.reqBlocks "a")).length))
      = some [(true, 7)] := by
  decide +kernel

/-- The request holds seven blocks and is charged for six. -/
theorem acceptedDrafts_leak :
    ¬ ∀ (cfg : SchedulerConfig Digest) (numSpeculativeBlocks numBlocks : Nat)
      (enableCaching : Bool) (e₀ e : Engine Digest) (ops : List SchedOp),
      numSpeculativeBlocks ≤ (alignSpec numSpeculativeBlocks).blockSize →
      (∀ op ∈ ops, op.DraftsWithin numSpeculativeBlocks) →
      Engine.init cfg [alignSpec numSpeculativeBlocks] numBlocks enableCaching = .ok e₀ →
      Engine.run cfg e₀ ops = .ok e →
      ∀ m ∈ e.scheduler.kvCacheManager.coordinator.singleTypeManagers, ∀ reqId,
        (distinctBlocks (m.reqBlocks reqId)).length ≤ 2 + numSpeculativeBlocks := by
  intro h
  have hblocks := acceptedDrafts_blocks
  unfold alignRun at hblocks
  obtain ⟨e₀, hinit⟩ := Raises.exists_of_isOk
    (x := Engine.init (alignConfig 4) [alignSpec 4] 16 true) (by decide +kernel)
  rw [hinit, Raises.ok_bind] at hblocks
  cases hrun : Engine.run (alignConfig 4) e₀ acceptedDraftsOps with
  | error err => rw [hrun] at hblocks; cases hblocks
  | ok e =>
    rw [hrun] at hblocks
    have hmap := Option.some.inj hblocks
    obtain ⟨m, hm, hpair⟩ := List.mem_map.mp (hmap ▸ List.mem_singleton_self _)
    have hle := h _ 4 16 true e₀ e acceptedDraftsOps (Nat.le_refl 4)
      acceptedDrafts_within hinit hrun m hm "a"
    rw [(Prod.mk.inj hpair).2] at hle
    omega

end VllmEngine
