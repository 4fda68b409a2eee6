import VllmEngine.Kv.Solo
import VllmEngine.Kv.Startup

/-!
# Serving a lone request after start-up

`get_kv_cache_configs` accepts a configuration if the KV cache of one request
of `max_model_len` tokens fits into the memory. The manager built from it keeps
one block of its pool as the null block, which the check does not count. This
module says exactly when a request that is alone in the engine is served in
every chunking.

> `served_iff`: no chunk is ever refused exactly if, for every chunk, the
> memory of every worker holds the blocks of the window and of the chunk and
> one block more.
-/

namespace VllmEngine

open SingleTypeManager KVCacheManager HybridCoordinator

variable {H : Type} [DecidableEq H]

/-! ## Chunks -/

/-- `get_computed_blocks`, which the scheduler calls while nothing of the
request is computed. -/
def computedBlocksOf (k : KVCacheManager H) (r : Request H) :
    Except Python.Error (List (List BlockId) × Nat) :=
  if r.numComputedTokens = 0 then k.getComputedBlocks r else .ok (k.emptyKvCacheBlocks, 0)

/-- Slots for one chunk. -/
def serveChunk (k : KVCacheManager H) (r : Request H) (numNewTokens : Nat) :
    Except Python.Error (KVCacheManager H × Option (List (List BlockId))) := do
  let (blocks, hit) ← computedBlocksOf k r
  k.allocateSlots r (chunkArgs numNewTokens hit blocks)

/-- The chunks in order, up to the first one that is refused. -/
def serve (k : KVCacheManager H) :
    List (Request H × Nat) → Except Python.Error (Option (KVCacheManager H))
  | [] => .ok (some k)
  | (r, n) :: chunks => do
    match ← serveChunk k r n with
    | (_, none) => return none
    | (k, some _) => serve k chunks

/-- The chunks of one request from `c` computed tokens on: the request before
each chunk, which never has more than `maxModelLen` tokens, and the number of
tokens scheduled. -/
def ChunksFrom (reqId : ReqId) (maxNumBatchedTokens maxModelLen : Nat) :
    Nat → List (Request H × Nat) → Prop
  | _, [] => True
  | c, (r, n) :: chunks => r.requestId = reqId ∧ r.numComputedTokens = c ∧ 0 < n ∧
    n ≤ maxNumBatchedTokens ∧ c + n ≤ r.numTokens ∧ r.numTokens ≤ maxModelLen ∧
    ChunksFrom reqId maxNumBatchedTokens maxModelLen (c + n) chunks

omit [DecidableEq H] in
theorem chunksFrom_mem {reqId : ReqId} {maxNumBatchedTokens maxModelLen : Nat} :
    ∀ (chunks : List (Request H × Nat)) (c : Nat),
      ChunksFrom reqId maxNumBatchedTokens maxModelLen c chunks → ∀ {x}, x ∈ chunks →
      0 < x.2 ∧ x.2 ≤ maxNumBatchedTokens ∧ x.1.numComputedTokens.toNat + x.2 ≤ maxModelLen := by
  intro chunks
  induction chunks with
  | nil => intro c _ x hx; cases hx
  | cons y chunks ih =>
    intro c hchunks x hx
    obtain ⟨-, hr, h1, h2, h3, h4, htail⟩ := hchunks
    rcases List.mem_cons.mp hx with rfl | hx
    · refine ⟨h1, h2, ?_⟩
      rw [hr, Int.toNat_natCast]
      omega
    · exact ih _ htail hx

/-! ## Nothing is cached in a new pool -/

theorem hitLoop_inv {c : HybridCoordinator} {p : BlockPool H} {hashes : List H} {I : Hits → Prop}
    (hvisit : ∀ a ∈ c.attentionGroups, ∀ st st', I st.1 → c.visitGroup p hashes st a = .ok st' →
      I st'.1) :
    ∀ (bound : Nat) (hits : Hits) (hit : Nat) {hits' : Hits} {hit' : Nat}, I hits →
      c.hitLoop p hashes bound hits hit = .ok (hits', hit') → I hits' := by
  have hround : ∀ {hits : Hits} {hit : Nat} {st' : Hits × Nat}, I hits →
      c.attentionGroups.foldlM (c.visitGroup p hashes) (hits, hit) = .ok st' → I st'.1 := by
    intro hits hit st' hI h
    exact Raises.foldlM_inv (I := fun st => I st.1) c.attentionGroups (hits, hit) st'
      (fun a ha t t' ht hstep => hvisit a ha t t' ht hstep) hI h
  intro bound
  induction bound with
  | zero =>
    intro hits hit hits' hit' hI h
    simp only [hitLoop, Raises.bind_eq_ok, Raises.pure_eq_ok] at h
    obtain ⟨⟨hits₁, curr⟩, hr, heq⟩ := h
    obtain ⟨rfl, -⟩ := Prod.mk.inj heq
    exact hround hI hr
  | succ bound ih =>
    intro hits hit hits' hit' hI h
    simp only [hitLoop, Raises.bind_eq_ok] at h
    obtain ⟨⟨hits₁, curr⟩, hr, h⟩ := h
    have hI' := hround hI hr
    dsimp only at h hI'
    split at h
    · exact (Prod.mk.inj (Raises.pure_eq_ok.mp h)).1 ▸ hI'
    · split at h
      · exact (Prod.mk.inj (Raises.pure_eq_ok.mp h)).1 ▸ hI'
      · exact ih hits₁ curr hI' h

theorem findLongestHit_miss {c : HybridCoordinator} (hok : HybridOk c)
    (hkind : ∀ s ∈ c.specs, s.isHybridType = true) {p : BlockPool H} {hashes : List H}
    (hmiss : ∀ key, p.getOneBlock key = none) {maxLength : Nat} {res : List (List BlockId) × Nat}
    (h : c.findLongestHit p hashes maxLength = .ok res) : (∀ bs ∈ res.1, bs = []) ∧ res.2 = 0 := by
  simp only [HybridCoordinator.findLongestHit, Raises.bind_eq_ok, Raises.pure_eq_ok] at h
  obtain ⟨⟨hits, hit⟩, hloop, rfl⟩ := h
  have hnil : ∀ g, hits g = none ∨ hits g = some [] := by
    refine hitLoop_inv (I := fun hits => ∀ g, hits g = none ∨ hits g = some [])
      (fun a ha st st' hI hv g => ?_) maxLength _ maxLength (fun _ => Or.inl rfl) hloop
    rcases visit_cases hv with ⟨-, rfl⟩ | ⟨-, rows, hrows, rfl⟩
    · exact hI g
    · have hspec := hkind _ (hok.mem_specs_iff.mpr ⟨a, ha, rfl⟩)
      have hne := hok.split.nonempty a ha
      have hrows' := findLongestCacheHit_miss hspec (fun i hcached => by
        obtain ⟨h, -, hall⟩ := hcached
        obtain ⟨g, hg⟩ := List.exists_mem_of_ne_nil _ hne
        obtain ⟨b, hb⟩ := hall g hg
        rw [hmiss] at hb
        cases hb) hrows
      dsimp only [setHits]
      split
      · right
        rw [hrows']
        rfl
      · exact hI g
  have hl := hitLoop_ok hok maxLength _ maxLength (Nat.le_refl _) (Nat.le_refl _)
    (Or.inl fun _ => rfl) hloop
  constructor
  · intro bs hbs
    obtain ⟨g, hg, rfl⟩ := List.mem_map.mp hbs
    obtain ⟨a, ha, hga⟩ := hok.split.cover g (List.mem_range.mp hg)
    obtain ⟨rows, hheld, -⟩ := hl.entries a ha
    have hsome : hits g = some [] := (hnil g).resolve_left (by rw [hheld g hga]; simp)
    obtain ⟨n, hn⟩ := truncateFirst_take c hit hsome
    simp [hn]
  · -- some entry's rows reach the hit, and they are empty
    obtain ⟨a, ha⟩ := List.exists_mem_of_length_pos (Nat.lt_of_lt_of_le Nat.zero_lt_two hok.two_le)
    obtain ⟨rows, hheld, -, hle, -⟩ := hl.entries a ha
    obtain ⟨g, hg⟩ := List.exists_mem_of_ne_nil _ (hok.split.nonempty a ha)
    have hcol := hheld g hg
    have hrows : rows = [] := by
      rcases hnil g with hg' | hg'
      · rw [hg'] at hcol
        cases hcol
      · rw [hg', Option.some.injEq] at hcol
        simpa [column] using hcol.symm
    rw [hrows, List.length_nil, Nat.zero_mul] at hle
    exact Nat.le_zero.mp hle

theorem computedBlocksOf_miss {specs : List KVCacheSpec} {k : KVCacheManager H} {r : Request H}
    (hs : ∀ s ∈ specs, s.isServable = true) (hok : CoordinatorOk specs k.coordinator)
    (hmiss : r.numComputedTokens = 0 → ∀ key, k.blockPool.getOneBlock key = none)
    {res : List (List BlockId) × Nat} (h : computedBlocksOf k r = .ok res) :
    (∀ bs ∈ res.1, bs = []) ∧ res.2 = 0 := by
  have hhybrid : ∀ s ∈ specs, s.isHybridType = true := by
    intro s hmem
    have := hs s hmem
    unfold KVCacheSpec.isServable at this
    unfold KVCacheSpec.isHybridType
    cases hk : s.kind <;> simp_all
  have hempty : ∀ bs ∈ k.emptyKvCacheBlocks, bs = [] := by
    intro bs hbs
    obtain ⟨_, -, rfl⟩ := List.mem_map.mp hbs
    rfl
  unfold computedBlocksOf at h
  split at h
  · rename_i hz
    have hmiss := hmiss hz
    unfold getComputedBlocks at h
    split at h
    · obtain rfl := Except.ok.inj h
      exact ⟨hempty, rfl⟩
    · have hkind := hok.kind
      unfold KVCacheCoordinator.findLongestCacheHit at h
      cases hk : k.coordinator.kind with
      | noPrefixCache =>
        rw [hk] at h
        obtain rfl := Except.ok.inj h
        exact ⟨hempty, rfl⟩
      | unitary spec =>
        rw [hk] at h hkind
        simp only [Raises.bind_eq_ok, Raises.pure_eq_ok] at h
        obtain ⟨rows, hrows, rfl⟩ := h
        have hspec : spec ∈ specs := by
          rw [show specs = [spec] from hkind]
          exact List.mem_singleton_self spec
        have hnil := findLongestCacheHit_miss (hhybrid spec hspec) (fun i hcached => by
          obtain ⟨h, -, hall⟩ := hcached
          obtain ⟨b, hb⟩ := hall 0 (List.mem_singleton_self 0)
          rw [show k.coordinator.blockPool.getOneBlock (h, 0) = none from hmiss _] at hb
          cases hb) hrows
        simp [hnil, column]
      | hybrid hc =>
        rw [hk] at h hkind
        obtain ⟨hhyb, hspecs⟩ := hkind
        exact findLongestHit_miss hhyb (hspecs ▸ hhybrid) hmiss h
  · obtain rfl := Except.ok.inj h
    exact ⟨hempty, rfl⟩

/-! ## The start -/

theorem init_solo {specs : List KVCacheSpec} {numBlocks maxModelLen hashBlockSize : Nat}
    {enableCaching useEagle : Bool} {k : KVCacheManager H} (hs : ∀ s ∈ specs, s.isServable = true)
    (hbs : ∀ s ∈ specs, 0 < s.blockSize) (reqId : ReqId)
    (h : KVCacheManager.init specs numBlocks maxModelLen hashBlockSize enableCaching useEagle
      = .ok k) :
    Solo specs reqId 0 0 k.coordinator ∧ k.maxModelLen = maxModelLen ∧
      k.enableCaching = enableCaching ∧ k.blockPool.numGpuBlocks = numBlocks ∧
      ∀ key, k.blockPool.getOneBlock key = none := by
  have hok := init_coordinatorOk (sinkless_of_plain (plain_of_servable hs)) hbs h
  simp only [KVCacheManager.init, KVCacheCoordinator.init, Raises.bind_eq_ok,
    Raises.pure_eq_ok] at h
  obtain ⟨c, ⟨p, hpool, ⟨p', ms⟩, hms, kind, hkind, rfl⟩, rfl⟩ := h
  obtain ⟨rfl, hspecs, hempty⟩ := initManagers_ok specs 0 (sinkless_of_plain (plain_of_servable hs)) hms
  have hzero : ∀ s ∈ specs, s.blocksFor 0 = 0 ∧ s.skippedBlocks 0 = 0 := by
    intro s hmem
    have h0 := KVCacheSpec.blocksFor_zero (hbs s hmem)
    have hle := KVCacheSpec.skippedBlocks_le_blocksFor (hs s hmem) (hbs s hmem) 0
    exact ⟨h0, by omega⟩
  have hheld : heldBlocks specs 0 0 = 0 := by
    rw [heldBlocks, List.sum_eq_zero]
    intro x hx
    obtain ⟨s, hmem, rfl⟩ := List.mem_map.mp hx
    obtain ⟨h1, h2⟩ := hzero s hmem
    omega
  unfold BlockPool.init at hpool
  split at hpool
  · cases hpool
  · obtain rfl := Except.ok.inj hpool
    refine ⟨⟨hok, fun m hm => ?_, ?_⟩, rfl, rfl, rfl, fun key => rfl⟩
    · have hnil : m.reqBlocks reqId = [] := by
        rw [SingleTypeManager.reqBlocks, hempty m hm]
        rfl
      have hspec : m.spec ∈ specs := by
        rw [← hspecs]
        exact List.mem_map_of_mem hm
      refine ⟨fun b => ?_, ?_, fun i b hb => ?_⟩
      · rw [hnil, occurrences, hempty m hm]
        rfl
      · rw [hnil, (hzero _ hspec).1]
        rfl
      · rw [hnil] at hb
        cases hb
    · rw [hheld]
      exact Int.le_of_eq (Int.add_zero _)

omit [DecidableEq H] in
/-- Without prefix caching a manager can be built for any number of blocks. -/
theorem init_total {specs : List KVCacheSpec} {numBlocks : Nat} (maxModelLen hashBlockSize : Nat)
    (useEagle : Bool) (hs : ∀ s ∈ specs, s.isServable = true) (hn : 0 < numBlocks) :
    ∃ k : KVCacheManager H,
      KVCacheManager.init specs numBlocks maxModelLen hashBlockSize false useEagle = .ok k := by
  have hloop : ∀ (specs : List KVCacheSpec) (i : GroupId) (p : BlockPool H),
      (∀ s ∈ specs, s.isServable = true) →
      ∃ res, KVCacheCoordinator.initManagers false i p specs = .ok res := by
    intro specs
    induction specs with
    | nil => intro i p _; exact ⟨_, rfl⟩
    | cons s specs ih =>
      intro i p hs
      obtain ⟨⟨p₁, m⟩, hm⟩ : ∃ res, SingleTypeManager.init p s false i = .ok res := by
        have := hs s List.mem_cons_self
        unfold KVCacheSpec.isServable at this
        unfold SingleTypeManager.init
        cases hk : s.kind <;> simp_all
      obtain ⟨res, hres⟩ := ih (i + 1) p₁ fun s' hs' => hs s' (List.mem_cons_of_mem s hs')
      exact ⟨_, Raises.bind_eq_ok.mpr ⟨_, hm, Raises.bind_eq_ok.mpr ⟨_, hres, rfl⟩⟩⟩
  obtain ⟨p, hp⟩ : ∃ p : BlockPool H, BlockPool.init numBlocks false hashBlockSize = .ok p := by
    unfold BlockPool.init
    rw [if_neg (by omega)]
    exact ⟨_, rfl⟩
  obtain ⟨⟨p₁, ms⟩, hms⟩ := hloop specs 0 p hs
  exact ⟨_, Raises.bind_eq_ok.mpr ⟨_, Raises.bind_eq_ok.mpr ⟨_, hp,
    Raises.bind_eq_ok.mpr ⟨_, hms, Raises.bind_eq_ok.mpr ⟨_, rfl, rfl⟩⟩⟩, rfl⟩⟩

/-! ## Runs of chunks -/

/-- The blocks that the request holds when a chunk is computed. -/
def chunkBlocks (specs : List KVCacheSpec) (chunk : Request H × Nat) : Int :=
  heldBlocks specs chunk.1.numComputedTokens.toNat (chunk.1.numComputedTokens.toNat + chunk.2)

section Runs

variable {specs : List KVCacheSpec} {reqId : ReqId} {maxNumBatchedTokens maxModelLen numBlocks : Nat}
  {enableCaching : Bool} (hs : ∀ s ∈ specs, s.isServable = true) (hbs : ∀ s ∈ specs, 0 < s.blockSize)

/-- The manager between two chunks of a lone request. -/
structure Served (specs : List KVCacheSpec) (reqId : ReqId) (numBlocks maxModelLen : Nat)
    (enableCaching : Bool) (c : Nat) (k : KVCacheManager H) : Prop where
  solo : ∃ c' ≤ c, Solo specs reqId c' c k.coordinator
  maxModelLen_eq : k.maxModelLen = maxModelLen
  enableCaching_eq : k.enableCaching = enableCaching
  numGpuBlocks_eq : k.blockPool.numGpuBlocks = numBlocks
  miss : c = 0 → ∀ key, k.blockPool.getOneBlock key = none

include hs hbs in
/-- **One chunk.** -/
theorem serveChunk_served {k k' : KVCacheManager H} {c n : Nat} {r : Request H}
    {chunks : List (Request H × Nat)} {out : Option (List (List BlockId))}
    (h : Served specs reqId numBlocks maxModelLen enableCaching c k)
    (hchunks : ChunksFrom reqId maxNumBatchedTokens maxModelLen c ((r, n) :: chunks))
    (hout : serveChunk k r n = .ok (k', out)) :
    (out = none ↔ (numBlocks : Int) - 1 < chunkBlocks specs (r, n)) ∧
      (out ≠ none → Served specs reqId numBlocks maxModelLen enableCaching (c + n) k') := by
  obtain ⟨rfl, hr, hn, -, hle, hmax, -⟩ := hchunks
  obtain ⟨c', hc, hsolo⟩ := h.solo
  simp only [serveChunk, Raises.bind_eq_ok] at hout
  obtain ⟨⟨blocks, hit⟩, hget, hout⟩ := hout
  obtain ⟨hblocks, rfl⟩ := computedBlocksOf_miss hs hsolo.ok
    (fun hz => h.miss (by rw [hr] at hz; exact_mod_cast hz)) hget
  have hfit : c + n ≤ k.maxModelLen := by
    rw [h.maxModelLen_eq]
    omega
  obtain ⟨hnone, hsome⟩ := allocateSlots_solo hs hbs hsolo hc hr hfit hblocks hout
  rw [h.numGpuBlocks_eq] at hnone
  refine ⟨?_, fun hne => ?_⟩
  · rw [hnone, chunkBlocks, hr]
    rfl
  · obtain ⟨h1, h2, h3, h4⟩ := hsome hne
    exact ⟨⟨c, Nat.le_add_right c n, h1⟩, h2.trans h.maxModelLen_eq, h3.trans h.enableCaching_eq,
      h4.trans h.numGpuBlocks_eq, fun h0 => absurd h0 (by omega)⟩

include hs hbs in
/-- **A run of chunks.** The run is cut short exactly by a chunk that needs more
blocks than there are. -/
theorem serve_served :
    ∀ (chunks : List (Request H × Nat)) (c : Nat) {k : KVCacheManager H},
      Served specs reqId numBlocks maxModelLen enableCaching c k →
      ChunksFrom reqId maxNumBatchedTokens maxModelLen c chunks →
      (serve k chunks = .ok none → ∃ x ∈ chunks, (numBlocks : Int) - 1 < chunkBlocks specs x) ∧
      ∀ k', serve k chunks = .ok (some k') →
        ∀ x ∈ chunks, chunkBlocks specs x ≤ (numBlocks : Int) - 1 := by
  intro chunks
  induction chunks with
  | nil => intro c k _ _; exact ⟨fun h => (by cases h), fun k' _ x hx => (by cases hx)⟩
  | cons x chunks ih =>
    intro c k h hchunks
    obtain ⟨r, n⟩ := x
    rw [serve]
    cases hout : serveChunk k r n with
    | error e => exact ⟨fun h => (by cases h), fun k' h => (by cases h)⟩
    | ok res =>
      obtain ⟨k₁, out⟩ := res
      obtain ⟨hnone, hsome⟩ := serveChunk_served hs hbs h hchunks hout
      rw [Raises.ok_bind]
      cases out with
      | none =>
        refine ⟨fun _ => ⟨_, List.mem_cons_self, hnone.mp rfl⟩, fun k' h => ?_⟩
        cases Raises.pure_eq_ok.mp h
      | some new =>
        obtain ⟨ih1, ih2⟩ := ih (c + n) (hsome (by simp)) hchunks.2.2.2.2.2.2
        refine ⟨fun hserve => ?_, fun k' hserve => ?_⟩
        · obtain ⟨x, hx, hlt⟩ := ih1 hserve
          exact ⟨x, List.mem_cons_of_mem _ hx, hlt⟩
        · refine List.forall_mem_cons.mpr ⟨?_, ih2 k' hserve⟩
          have : ¬ (numBlocks : Int) - 1 < chunkBlocks specs (r, n) := fun hlt => by
            cases hnone.mpr hlt
          omega

include hs hbs in
/-- Without prefix caching no chunk raises. -/
theorem serve_total :
    ∀ (chunks : List (Request H × Nat)) (c : Nat) {k : KVCacheManager H},
      Served specs reqId numBlocks maxModelLen false c k →
      ChunksFrom reqId maxNumBatchedTokens maxModelLen c chunks →
      ∃ out, serve k chunks = .ok out := by
  intro chunks
  induction chunks with
  | nil => intro c k _ _; exact ⟨_, rfl⟩
  | cons x chunks ih =>
    intro c k h hchunks
    obtain ⟨r, n⟩ := x
    obtain ⟨k₁, out, hout⟩ : ∃ k₁ out, serveChunk k r n = .ok (k₁, out) := by
      obtain ⟨rfl, hr, hn, -, hle, hmax, -⟩ := hchunks
      obtain ⟨c', hc, hsolo⟩ := h.solo
      have hget : computedBlocksOf k r = .ok (k.emptyKvCacheBlocks, 0) := by
        unfold computedBlocksOf getComputedBlocks
        simp [h.enableCaching_eq]
      obtain ⟨hblocks, -⟩ := computedBlocksOf_miss hs hsolo.ok
        (fun hz => h.miss (by rw [hr] at hz; exact_mod_cast hz)) hget
      obtain ⟨k₁, out, halloc⟩ := allocateSlots_total hs hbs hsolo hc hr
        (by rw [h.maxModelLen_eq]; omega) hblocks h.enableCaching_eq hn
      exact ⟨k₁, out, Raises.bind_eq_ok.mpr ⟨_, hget, halloc⟩⟩
    obtain ⟨-, hsome⟩ := serveChunk_served hs hbs h hchunks hout
    rw [serve, hout, Raises.ok_bind]
    cases out with
    | none => exact ⟨_, rfl⟩
    | some new => exact ih (c + n) (hsome (by simp)) hchunks.2.2.2.2.2.2

end Runs

/-- The request of the given number of tokens with `c` of them computed. -/
def requestAt (reqId : ReqId) (numTokens c : Nat) : Request H :=
  { Request.fresh (plainPrompt reqId (List.replicate numTokens 0)) numTokens 16 .waiting with
    numComputedTokens := c }

/-- The chunks of one token each from `c` on, and at last one of `n` tokens. -/
def tokenByToken (reqId : ReqId) (numTokens n : Nat) : Nat → Nat → List (Request H × Nat)
  | c, 0 => [(requestAt reqId numTokens c, n)]
  | c, steps + 1 => (requestAt reqId numTokens c, 1) :: tokenByToken reqId numTokens n (c + 1) steps

omit [DecidableEq H] in
theorem tokenByToken_spec (reqId : ReqId) {numTokens maxNumBatchedTokens n : Nat} (hn : 0 < n)
    (hle : n ≤ maxNumBatchedTokens) :
    ∀ (steps c : Nat), c + steps + n ≤ numTokens →
      ChunksFrom reqId maxNumBatchedTokens numTokens c
        (tokenByToken (H := H) reqId numTokens n c steps) ∧
      (requestAt reqId numTokens (c + steps), n) ∈ tokenByToken (H := H) reqId numTokens n c steps := by
  have htokens : ∀ c, (requestAt reqId numTokens c : Request H).numTokens = numTokens := by
    intro c
    simp [requestAt, Request.numTokens, Request.fresh, plainPrompt]
  intro steps
  induction steps with
  | zero =>
    intro c hfit
    refine ⟨⟨rfl, rfl, hn, hle, ?_, Nat.le_of_eq (htokens c), trivial⟩, List.mem_singleton_self _⟩
    rw [htokens]
    omega
  | succ steps ih =>
    intro c hfit
    obtain ⟨h1, h2⟩ := ih (c + 1) (by omega)
    refine ⟨⟨rfl, rfl, Nat.one_pos, by omega, ?_, Nat.le_of_eq (htokens c), h1⟩, ?_⟩
    · rw [htokens]
      omega
    · rw [show c + (steps + 1) = c + 1 + steps by omega]
      exact List.mem_cons_of_mem _ h2

/-! ## After start-up -/

/-- Whatever its chunks, a request alone in a new manager is never refused, and
without prefix caching no call raises. -/
def AlwaysServed (H : Type) [DecidableEq H] (specs : List KVCacheSpec)
    (numBlocks maxModelLen maxNumBatchedTokens : Nat) : Prop :=
  ∀ (enableCaching useEagle : Bool) (hashBlockSize : Nat) (k : KVCacheManager H),
    KVCacheManager.init specs numBlocks maxModelLen hashBlockSize enableCaching useEagle = .ok k →
    ∀ (reqId : ReqId) (chunks : List (Request H × Nat)),
      ChunksFrom reqId maxNumBatchedTokens maxModelLen 0 chunks →
      serve k chunks ≠ .ok none ∧ (enableCaching = false → ∃ k', serve k chunks = .ok (some k'))

/-- Every chunk finds its blocks besides the null block. -/
theorem alwaysServed_iff {specs : List KVCacheSpec} {numBlocks maxModelLen maxNumBatchedTokens : Nat}
    (hs : ∀ s ∈ specs, s.isServable = true) (hbs : ∀ s ∈ specs, 0 < s.blockSize)
    (hpos : 0 < numBlocks) :
    AlwaysServed H specs numBlocks maxModelLen maxNumBatchedTokens ↔
      ∀ c n, 0 < n → n ≤ maxNumBatchedTokens → c + n ≤ maxModelLen →
        heldBlocks specs c (c + n) + 1 ≤ numBlocks := by
  have hstart : ∀ {caching eagle : Bool} {hash : Nat} {k : KVCacheManager H} (reqId : ReqId),
      KVCacheManager.init specs numBlocks maxModelLen hash caching eagle = .ok k →
      Served specs reqId numBlocks maxModelLen caching 0 k := by
    intro caching eagle hash k reqId hinit
    obtain ⟨h1, h2, h3, h4, h5⟩ := init_solo hs hbs reqId hinit
    exact ⟨⟨0, Nat.le_refl 0, h1⟩, h2, h3, h4, fun _ => h5⟩
  constructor
  · intro hall c n hn hle hfit
    obtain ⟨k, hinit⟩ := init_total (H := H) maxModelLen 1 false hs hpos
    have hfit' : 0 + c + n ≤ maxModelLen := by omega
    obtain ⟨hchunks, hmem⟩ := tokenByToken_spec (H := H) "" hn hle c 0 hfit'
    obtain ⟨k', hserve⟩ := (hall false false 1 k hinit "" _ hchunks).2 rfl
    have := (serve_served hs hbs _ 0 (hstart "" hinit) hchunks).2 k' hserve _ hmem
    rw [chunkBlocks, Nat.zero_add] at this
    dsimp only [requestAt, Int.toNat_natCast] at this
    omega
  · intro hroom caching eagle hash k hinit reqId chunks hchunks
    have hstart := hstart reqId hinit
    have hnot : serve k chunks ≠ .ok none := by
      intro hnone
      obtain ⟨x, hx, hlt⟩ := (serve_served hs hbs chunks 0 hstart hchunks).1 hnone
      obtain ⟨h1, h2, h3⟩ := chunksFrom_mem chunks 0 hchunks hx
      have := hroom _ _ h1 h2 h3
      rw [chunkBlocks] at hlt
      omega
    refine ⟨hnot, fun hcaching => ?_⟩
    subst hcaching
    obtain ⟨out, hout⟩ := serve_total hs hbs chunks 0 hstart hchunks
    cases out with
    | none => exact absurd hout hnot
    | some k' => exact ⟨k', hout⟩

/-- **A request that passes the start-up check.** It is served in every chunking
exactly if every worker's memory holds, for each chunk, the blocks from the
window to the end of the chunk and the null block. The managers are those of one
context-parallel rank, and no group keeps sink blocks. -/
theorem served_iff {lim : ModelLimits} {autoFit : Bool} {groups : List KVCacheGroupSpec}
    {workers : List Worker} {numBlocks : Int} {maxModelLen : Nat}
    (hs : ∀ g ∈ groups, g.spec.isServable = true) (hbs : ∀ g ∈ groups, 0 < g.spec.blockSize)
    (h : getKvCacheConfigs lim autoFit groups workers = .ok (numBlocks, maxModelLen)) :
    AlwaysServed H (groups.map (·.spec)) numBlocks.toNat maxModelLen lim.maxNumBatchedTokens ↔
      ∀ c n, 0 < n → n ≤ lim.maxNumBatchedTokens → c + n ≤ maxModelLen → ∀ w ∈ workers,
        w.HoldsBlocks groups (heldBlocks (groups.map (·.spec)) c (c + n) + 1) := by
  have hs' : ∀ s ∈ groups.map (·.spec), s.isServable = true := by simpa using hs
  have hbs' : ∀ s ∈ groups.map (·.spec), 0 < s.blockSize := by simpa using hbs
  obtain ⟨hpos, hmin⟩ := startup_numBlocks h
  rw [alwaysServed_iff hs' hbs' (by omega)]
  have hchunk : ∀ c n, heldBlocks (groups.map (·.spec)) c (c + n) + 1 ≤ (numBlocks.toNat : Int) ↔
      ∀ w ∈ workers, w.HoldsBlocks groups (heldBlocks (groups.map (·.spec)) c (c + n) + 1) := by
    intro c n
    have hnonneg := heldBlocks_nonneg hs' hbs' (Nat.le_add_right c n)
    rw [Int.toNat_of_nonneg (by omega), hmin]
    by_cases hne : groups = []
    · -- an attention-free model: one block, and nothing is held
      subst hne
      refine ⟨fun _ w _ page hpage => (by cases hpage), fun _ w _ m hm => ?_⟩
      exact workerNumBlocks_pos hm
    · constructor
      · intro hle w hw
        obtain ⟨m, hm⟩ := startup_workers h hw
        exact (le_workerNumBlocks hne (by omega) hm).mp (hle w hw m hm)
      · intro hholds w hw m hm
        exact (le_workerNumBlocks hne (by omega) hm).mpr (hholds w hw)
  exact forall_congr' fun c => forall_congr' fun n => imp_congr_right fun _ =>
    imp_congr_right fun _ => imp_congr_right fun _ => hchunk c n

/-- One full-attention group of one layer, in blocks of four tokens. -/
def oneLayerGroup : List KVCacheGroupSpec := [⟨["layer"], fullSpec 4 1⟩]

/-- A limit of eight tokens. -/
def eightTokenLimits : ModelLimits where
  maxModelLen := 8
  maxNumBatchedTokens := 8
  maxNumEncoderInputTokens := 0
  mambaCacheMode := .none

/-- A worker of one layer with memory for the given number of pages. -/
def workerOfPages (pages : Int) : Worker := ⟨["layer"], pages * 128⟩

/-- Memory for two blocks passes the check for eight tokens, but one of the two
blocks is the null block. -/
theorem null_block_not_counted :
    ¬ ∀ (lim : ModelLimits) (autoFit : Bool) (groups : List KVCacheGroupSpec)
      (workers : List Worker) (numBlocks : Int) (maxModelLen : Nat),
      (∀ g ∈ groups, g.spec.isServable = true) → (∀ g ∈ groups, 0 < g.spec.blockSize) →
      getKvCacheConfigs lim autoFit groups workers = .ok (numBlocks, maxModelLen) →
      ∀ (enableCaching useEagle : Bool) (hashBlockSize : Nat) (k : KVCacheManager Digest),
        KVCacheManager.init (groups.map (·.spec)) numBlocks.toNat maxModelLen hashBlockSize
          enableCaching useEagle = .ok k →
        ∀ (reqId : ReqId) (chunks : List (Request Digest × Nat)),
          ChunksFrom reqId lim.maxNumBatchedTokens maxModelLen 0 chunks →
          serve k chunks ≠ .ok none := by
  intro hall
  have hconfig : getKvCacheConfigs eightTokenLimits false oneLayerGroup [workerOfPages 2]
      = .ok (2, 8) := by decide
  obtain ⟨k, hinit⟩ : ∃ k : KVCacheManager Digest,
      KVCacheManager.init [fullSpec 4 1] 2 8 4 false false = .ok k :=
    init_total 8 4 false (by decide) (by decide)
  have hchunks : ChunksFrom (H := Digest) "" 8 8 0 (tokenByToken "" 8 8 0 0) :=
    (tokenByToken_spec "" (by decide) (by decide) 0 0 (by decide)).1
  have hnone := hall _ _ _ _ _ _ (by decide) (by decide) hconfig false false 4 k hinit "" _ hchunks
  have hval : (((KVCacheManager.init [fullSpec 4 1] 2 8 4 false false :
      Except Python.Error (KVCacheManager Digest)) >>= fun k =>
        serve k (tokenByToken "" 8 8 0 0)).toOption.map Option.isNone) = some true := by
    decide +kernel
  rw [hinit, Raises.ok_bind] at hval
  cases hserve : serve k (tokenByToken "" 8 8 0 0) with
  | error e => rw [hserve] at hval; cases hval
  | ok out =>
    cases out with
    | none => exact hnone hserve
    | some k' => rw [hserve] at hval; cases hval

/-- With memory for one block more the request is served in every chunking. -/
theorem three_pages_serve_eight_tokens :
    getKvCacheConfigs eightTokenLimits false oneLayerGroup [workerOfPages 3] = .ok (3, 8) ∧
      AlwaysServed Digest [fullSpec 4 1] 3 8 8 := by
  have hconfig : getKvCacheConfigs eightTokenLimits false oneLayerGroup [workerOfPages 3]
      = .ok (3, 8) := by decide
  refine ⟨hconfig, (served_iff (by decide) (by decide) hconfig).mpr ?_⟩
  intro c n _ _ hfit w hw page hpage
  obtain rfl := List.mem_singleton.mp hw
  obtain rfl : page = 128 := by
    have hval : getUniformPageSize (oneLayerGroup.map (·.spec)) = .ok 128 := by decide
    exact Except.ok.inj (hpage.symm.trans hval)
  have hsize : groupSize (projectKvCacheGroupsToWorker oneLayerGroup (workerOfPages 3).layerNames)
      = 1 := by decide
  have hheld : heldBlocks (oneLayerGroup.map (·.spec)) c (c + n) = ((c + n + 4 - 1) / 4 : Nat) := by
    simp [heldBlocks, oneLayerGroup, KVCacheSpec.blocksFor, KVCacheSpec.skippedBlocks, fullSpec]
  rw [hsize, hheld, show (workerOfPages 3).availableMemory = 384 from rfl]
  omega

end VllmEngine
