import VllmEngine.BlockHash.Hasher
import VllmEngine.Lib.Raises

/-!
# What a list of block hashes should be

`trueHashes` states the intended value of `Request.block_hashes`: the hash
chain of the full blocks, each block hashed with exactly the multimodal
features that overlap it. This file relates the hasher's index-threading loops
to it:

> `extend_trueHashes`: hashes that are true for the first `m` blocks stay true
> under `update_block_hashes`, provided the index the hasher starts from skips
> no feature that a new block overlaps.

The proviso is `MmIdxOk`. It holds for index `0` on a sorted feature list
(`mmIdxOk_zero`), and for the resumed index `-1` exactly when no feature but
the last reaches into the blocks still to be hashed (`mmIdxOk_neg_one`).
-/

namespace VllmEngine

open HashChain

variable {H : Type}

/-- The feature's placeholder meets the token range `[s, e)`. -/
def MultiModalFeatureSpec.Overlaps (f : MultiModalFeatureSpec) (s e : Nat) : Prop :=
  f.offset < e ∧ s < f.stop

instance (f : MultiModalFeatureSpec) (s e : Nat) : Decidable (f.Overlaps s e) :=
  inferInstanceAs (Decidable (_ ∧ _))

/-- Offset-sorted, pairwise disjoint features. -/
def SortedDisjoint (fs : List MultiModalFeatureSpec) : Prop :=
  fs.Pairwise fun f g => f.stop ≤ g.offset

/-- The key a block starting at `s` records for a feature. -/
def mmKey (s : Nat) (f : MultiModalFeatureSpec) : ExtraKey :=
  .mm f.identifier ((f.offset : Int) - s)

/-- The keys of all features that overlap `[s, e)`. -/
def overlapKeys (fs : List MultiModalFeatureSpec) (s e : Nat) : List ExtraKey :=
  (fs.filter fun f => decide (f.Overlaps s e)).map (mmKey s)

/-- The extra keys a block `[s, e)` should be hashed with. -/
def trueExtraKeys (hs : BlockHasher H) (r : Request H) (s e : Nat) : Option (List ExtraKey) :=
  packExtraKeys (genLoraExtraHashKeys r ++ overlapKeys r.mmFeatures s e ++ genCacheSaltKeys r s
    ++ genPromptEmbedsExtraHashKeys hs r s e)

/-- Tokens and extra keys of block `i`. -/
def blockPayload (hs : BlockHasher H) (r : Request H) (i : Nat) :
    List Token × Option (List ExtraKey) :=
  (r.blockTokens (i * hs.blockSize) (i * hs.blockSize + hs.blockSize),
    trueExtraKeys hs r (i * hs.blockSize) (i * hs.blockSize + hs.blockSize))

/-- One link of the chain. -/
def chainStep (hs : BlockHasher H) (h : H) (p : List Token × Option (List ExtraKey)) : H :=
  hs.hashFunction (h, p.1, p.2)

/-- The true hashes of the first `m` blocks. -/
def hashesUpTo (hs : BlockHasher H) (r : Request H) (m : Nat) : List H :=
  chain (chainStep hs) hs.noneHash ((List.range m).map (blockPayload hs r))

/-- The true hashes of all full blocks. -/
def trueHashes (hs : BlockHasher H) (r : Request H) : List H :=
  hashesUpTo hs r (r.numTokens / hs.blockSize)

@[simp] theorem hashesUpTo_length (hs : BlockHasher H) (r : Request H) (m : Nat) :
    (hashesUpTo hs r m).length = m := by
  simp [hashesUpTo]

variable {hs : BlockHasher H} {r : Request H} {f : MultiModalFeatureSpec}
  {fs : List MultiModalFeatureSpec} {s : Nat}

/-- The payload of block `i` depends on the tokens up to its end, the LoRA name,
the salt, the embeddings and the overlapping features. -/
theorem blockPayload_congr {r' : Request H} {i : Nat}
    (htok : r'.allTokenIds.take (i * hs.blockSize + hs.blockSize) = r.allTokenIds.take (i * hs.blockSize + hs.blockSize))
    (hlora : r'.loraRequest = r.loraRequest) (hsalt : r'.cacheSalt = r.cacheSalt)
    (hemb : r'.promptEmbeds = r.promptEmbeds)
    (hmm : overlapKeys r'.mmFeatures (i * hs.blockSize) (i * hs.blockSize + hs.blockSize) = overlapKeys r.mmFeatures (i * hs.blockSize) (i * hs.blockSize + hs.blockSize)) :
    blockPayload hs r' i = blockPayload hs r i := by
  simp only [blockPayload, Request.blockTokens, trueExtraKeys, genLoraExtraHashKeys,
    genCacheSaltKeys, genPromptEmbedsExtraHashKeys, htok, hlora, hsalt, hemb, hmm]

theorem hashesUpTo_congr {r' : Request H} {m : Nat}
    (h : ∀ i < m, blockPayload hs r' i = blockPayload hs r i) :
    hashesUpTo hs r' m = hashesUpTo hs r m := by
  rw [hashesUpTo, hashesUpTo, List.map_congr_left fun i hi => h i (List.mem_range.mp hi)]

/-! ## The feature scan of one block -/

theorem SortedDisjoint.tail (h : SortedDisjoint (f :: fs)) :
    SortedDisjoint fs := (List.pairwise_cons.mp h).2

theorem SortedDisjoint.head_le (h : SortedDisjoint (f :: fs)) :
    ∀ g ∈ fs, f.stop ≤ g.offset := (List.pairwise_cons.mp h).1

theorem offset_le_stop (f : MultiModalFeatureSpec) : f.offset ≤ f.stop := Nat.le_add_right _ _

theorem overlapKeys_eq_nil {e : Nat} (h : ∀ f ∈ fs, ¬ f.Overlaps s e) :
    overlapKeys fs s e = [] := by
  rw [overlapKeys, List.map_eq_nil_iff, List.filter_eq_nil_iff]
  intro f hf
  simpa using h f hf

theorem overlapKeys_cons_pos {e : Nat} (h : f.Overlaps s e) :
    overlapKeys (f :: fs) s e = mmKey s f :: overlapKeys fs s e := by
  rw [overlapKeys, List.filter_cons_of_pos (by simpa using h)]
  rfl

theorem overlapKeys_cons_neg {e : Nat} (h : ¬ f.Overlaps s e) :
    overlapKeys (f :: fs) s e = overlapKeys fs s e := by
  rw [overlapKeys, List.filter_cons_of_neg (by simpa using h)]
  rfl

theorem overlapKeys_append (fs gs : List MultiModalFeatureSpec) (s e : Nat) :
    overlapKeys (fs ++ gs) s e = overlapKeys fs s e ++ overlapKeys gs s e := by
  simp [overlapKeys]

/-- The scan of a sorted list finds exactly the overlapping features, and the
features it steps over end inside the block. -/
theorem mmKeysLoop_spec {e : Nat} (hse : s ≤ e) :
    ∀ (fs : List MultiModalFeatureSpec) (idx : Nat), SortedDisjoint fs →
      (mmKeysLoop s e fs idx).1 = overlapKeys fs s e ∧
      ∃ k, k ≤ fs.length ∧ (mmKeysLoop s e fs idx).2 = idx + k ∧
        ∀ f ∈ fs.take k, f.stop ≤ e := by
  intro fs
  induction fs with
  | nil => intro idx _; exact ⟨rfl, 0, Nat.le_refl _, rfl, by simp⟩
  | cons f fs ih =>
    intro idx hsd
    have hle := offset_le_stop f
    obtain ⟨hkeys, k, hk, hnext, hpassed⟩ := ih (idx + 1) hsd.tail
    -- stepping over `f`, whose end lies inside the block
    have hstep : ∀ (hstop : f.stop ≤ e),
        ∃ k', k' ≤ (f :: fs).length ∧ (mmKeysLoop s e fs (idx + 1)).2 = idx + k' ∧
          ∀ g ∈ (f :: fs).take k', g.stop ≤ e := by
      intro hstop
      refine ⟨k + 1, by simpa using hk, by omega, ?_⟩
      intro g hg
      rw [List.take_succ_cons, List.mem_cons] at hg
      rcases hg with rfl | hg
      · exact hstop
      · exact hpassed g hg
    -- once the scan stops at `f`, no later feature starts before `e`
    have hrest : e ≤ f.stop → overlapKeys fs s e = [] := by
      intro hef
      refine overlapKeys_eq_nil fun g hg hov => ?_
      have := hsd.head_le g hg
      exact absurd hov.1 (by omega)
    unfold mmKeysLoop
    by_cases hoff : e > f.offset
    · rw [if_pos hoff]
      by_cases hpass : s ≥ f.stop
      · rw [if_pos hpass]
        have hno : ¬ f.Overlaps s e := fun hov => absurd hov.2 (by omega)
        exact ⟨hkeys.trans (overlapKeys_cons_neg hno).symm, hstep (by omega)⟩
      · rw [if_neg hpass]
        have hov : f.Overlaps s e := ⟨hoff, by omega⟩
        by_cases hend : e ≥ f.stop
        · rw [if_pos hend]
          refine ⟨?_, hstep hend⟩
          rw [overlapKeys_cons_pos hov, ← hkeys]
          rfl
        · rw [if_neg hend]
          refine ⟨?_, 0, Nat.zero_le _, rfl, by simp⟩
          rw [overlapKeys_cons_pos hov, hrest (by omega)]
          rfl
    · rw [if_neg hoff]
      refine ⟨?_, 0, Nat.zero_le _, rfl, by simp⟩
      have hno : ¬ f.Overlaps s e := fun hov => hoff hov.1
      rw [overlapKeys_cons_neg hno, hrest (by omega)]

/-! ## The index threaded through the blocks -/

/-- The list position a feature index stands for; `-1` is the last feature. -/
def resolveMmIdx (fs : List MultiModalFeatureSpec) (idx : Int) : Nat :=
  if idx < 0 then (fs.length + idx).toNat else idx.toNat

/-- Starting at `idx` misses nothing in the blocks of `[s, stop)`: the features
before it do not reach into that range, and those from it on are sorted. -/
def MmIdxOk (fs : List MultiModalFeatureSpec) (s stop : Nat) (idx : Int) : Prop :=
  (∀ f ∈ fs.take (resolveMmIdx fs idx), f.stop ≤ s ∨ stop ≤ f.offset) ∧
    SortedDisjoint (fs.drop (resolveMmIdx fs idx))

theorem mmIdxOk_zero (h : SortedDisjoint fs) (s stop : Nat) : MmIdxOk fs s stop 0 := by
  refine ⟨?_, ?_⟩
  · intro f hf
    simp [resolveMmIdx] at hf
  · simpa [resolveMmIdx] using h

theorem mmIdxOk_neg_one {stop : Nat} (h : ∀ f ∈ fs.dropLast, f.stop ≤ s ∨ stop ≤ f.offset) :
    MmIdxOk fs s stop (-1) := by
  have hres : resolveMmIdx fs (-1) = fs.length - 1 := by
    simp only [resolveMmIdx]
    rw [if_pos (by omega)]
    omega
  rw [List.dropLast_eq_take] at h
  refine ⟨by rw [hres]; exact h, ?_⟩
  rw [hres]
  -- at most one feature is left
  have hlen : (fs.drop (fs.length - 1)).length ≤ 1 := by rw [List.length_drop]; omega
  match hd : fs.drop (fs.length - 1) with
  | [] => exact List.Pairwise.nil
  | [_] => exact List.pairwise_singleton _ _
  | _ :: _ :: _ => rw [hd] at hlen; simp at hlen

/-- Every feature of a sorted list ends no later than the last one. -/
theorem stop_le_getLast (hsd : SortedDisjoint fs) {last : MultiModalFeatureSpec}
    (hl : fs.getLast? = some last) : ∀ f ∈ fs, f.stop ≤ last.stop := by
  intro f hf
  obtain ⟨init, rfl⟩ := List.getLast?_eq_some_iff.mp hl
  rcases List.mem_append.mp hf with hf | hf
  · have hle := (List.pairwise_append.mp hsd).2.2 f hf last (by simp)
    exact Nat.le_trans hle (offset_le_stop last)
  · rw [List.mem_singleton.mp hf]

/-- One block of the hasher: from an index that misses nothing it computes the
overlapping features, and leaves an index that misses nothing in the blocks
that follow. -/
theorem genMmExtraHashKeys_spec {e stop : Nat} {idx : Int} (hse : s ≤ e) (hes : e ≤ stop)
    (hok : MmIdxOk r.mmFeatures s stop idx) :
    (genMmExtraHashKeys r s e idx).1 = overlapKeys r.mmFeatures s e ∧
      MmIdxOk r.mmFeatures e stop (genMmExtraHashKeys r s e idx).2 := by
  obtain ⟨hskip, hsorted⟩ := hok
  have hmono : ∀ f ∈ r.mmFeatures.take (resolveMmIdx r.mmFeatures idx),
      f.stop ≤ e ∨ stop ≤ f.offset := by
    intro f hf
    rcases hskip f hf with h | h
    · exact Or.inl (by omega)
    · exact Or.inr h
  -- the keys of the whole list are those of the features from the index on
  have hsplit : overlapKeys r.mmFeatures s e
      = overlapKeys (r.mmFeatures.drop (resolveMmIdx r.mmFeatures idx)) s e := by
    conv_lhs => rw [← List.take_append_drop (resolveMmIdx r.mmFeatures idx) r.mmFeatures]
    rw [overlapKeys_append, overlapKeys_eq_nil, List.nil_append]
    intro f hf hov
    rcases hskip f hf with h | h
    · exact absurd hov.2 (by omega)
    · exact absurd hov.1 (by omega)
  unfold genMmExtraHashKeys
  cases hl : r.mmFeatures.getLast? with
  | none =>
    rw [List.getLast?_eq_none_iff] at hl
    refine ⟨?_, ?_⟩
    · rw [hl]; rfl
    · rw [hl]; exact ⟨by simp, by simp [SortedDisjoint]⟩
  | some last =>
    dsimp only
    by_cases hlast : last.stop ≤ s
    · rw [if_pos hlast]
      refine ⟨?_, hmono, hsorted⟩
      rw [hsplit, overlapKeys_eq_nil]
      intro f hf hov
      have hl' : (r.mmFeatures.drop (resolveMmIdx r.mmFeatures idx)).getLast? = some last := by
        rw [List.getLast?_drop, if_neg, hl]
        intro hlen
        rw [List.drop_of_length_le hlen] at hf
        simp at hf
      have := stop_le_getLast hsorted hl' f hf
      exact absurd hov.2 (by omega)
    · rw [if_neg hlast]
      show (mmKeysLoop s e (r.mmFeatures.drop (resolveMmIdx r.mmFeatures idx))
          (resolveMmIdx r.mmFeatures idx)).1 = _ ∧ MmIdxOk r.mmFeatures e stop
          ((mmKeysLoop s e (r.mmFeatures.drop (resolveMmIdx r.mmFeatures idx))
            (resolveMmIdx r.mmFeatures idx)).2 : Int)
      obtain ⟨hkeys, k, -, hnext, hpassed⟩ :=
        mmKeysLoop_spec hse _ (resolveMmIdx r.mmFeatures idx) hsorted
      rw [hkeys, hnext, hsplit]
      have hres : resolveMmIdx r.mmFeatures ((resolveMmIdx r.mmFeatures idx + k : Nat) : Int)
          = resolveMmIdx r.mmFeatures idx + k := by
        conv_lhs => rw [resolveMmIdx]
        rw [if_neg (by omega), Int.toNat_natCast]
      refine ⟨rfl, ?_, ?_⟩
      · rw [hres]
        intro f hf
        rw [List.take_add] at hf
        rcases List.mem_append.mp hf with hf | hf
        · exact hmono f hf
        · exact Or.inl (hpassed f hf)
      · rw [hres, ← List.drop_drop]
        exact hsorted.sublist (List.drop_sublist _ _)

/-! ## The hasher computes the chain -/

/-- The extra keys of one block, from an index that misses nothing. -/
theorem generateBlockHashExtraKeys_spec {e stop : Nat} {idx : Int} (hse : s ≤ e) (hes : e ≤ stop)
    (hok : MmIdxOk r.mmFeatures s stop idx) :
    (generateBlockHashExtraKeys hs r s e idx).1 = trueExtraKeys hs r s e ∧
      MmIdxOk r.mmFeatures e stop (generateBlockHashExtraKeys hs r s e idx).2 := by
  obtain ⟨hkeys, hnext⟩ := genMmExtraHashKeys_spec (H := H) hse hes hok
  refine ⟨?_, hnext⟩
  have hpack : (generateBlockHashExtraKeys hs r s e idx).1
      = packExtraKeys (genLoraExtraHashKeys r ++ (genMmExtraHashKeys r s e idx).1
          ++ genCacheSaltKeys r s ++ genPromptEmbedsExtraHashKeys hs r s e) := rfl
  rw [hpack, hkeys, trueExtraKeys]

/-- The loop from block `m` on produces the chain of the payloads `m, …, n - 1`,
where `n` is the number of full blocks. The induction is on the number of
blocks left. -/
theorem hasherLoop_spec (hbs : 0 < hs.blockSize) :
    ∀ (k m fuel : Nat) (prev : Option H) (idx : Int),
      m + k = r.numTokens / hs.blockSize → k < fuel →
      MmIdxOk r.mmFeatures (m * hs.blockSize)
        (r.numTokens / hs.blockSize * hs.blockSize) idx →
      hasherLoop hs r fuel (m * hs.blockSize) prev idx
        = chain (chainStep hs) (prev.getD hs.noneHash)
            ((List.range' m k).map (blockPayload hs r)) := by
  intro k
  induction k with
  | zero =>
    intro m fuel prev idx hm hfuel _
    cases fuel with
    | zero => omega
    | succ fuel =>
      have hlt := Nat.lt_mul_div_succ r.numTokens hbs
      rw [Nat.add_zero] at hm
      rw [← hm, Nat.mul_succ, Nat.mul_comm] at hlt
      rw [hasherLoop, if_pos hlt]
      rfl
  | succ k ih =>
    intro m fuel prev idx hm hfuel hok
    cases fuel with
    | zero => omega
    | succ fuel =>
      have hnext : m * hs.blockSize + hs.blockSize = (m + 1) * hs.blockSize := by
        rw [Nat.succ_mul]
      have hle : (m + 1) * hs.blockSize ≤ r.numTokens / hs.blockSize * hs.blockSize :=
        Nat.mul_le_mul_right _ (by omega)
      have hfull := Nat.div_mul_le_self r.numTokens hs.blockSize
      obtain ⟨hkeys, hok'⟩ := generateBlockHashExtraKeys_spec (r := r)
        (e := m * hs.blockSize + hs.blockSize) (Nat.le_add_right _ _)
        (by rw [hnext]; exact hle) hok
      rw [hasherLoop, if_neg (by omega)]
      dsimp only
      rw [hkeys]
      rw [hnext] at hok' ⊢
      rw [ih (m + 1) fuel _ _ (by omega) (by omega) hok', List.range'_succ, List.map_cons,
        chain_cons]
      simp only [hashBlockTokens, chainStep, blockPayload, Option.getD_some, hnext]

/-- **Extending true hashes.** If the hashes on the request are true for its
first `m` blocks, and the index the hasher starts from misses nothing in the
blocks still to be hashed, `update_block_hashes` leaves the true hashes of all
full blocks. -/
theorem extend_trueHashes {m : Nat} (hbs : 0 < hs.blockSize)
    (hm : r.blockHashes = hashesUpTo hs r m) (hmn : m ≤ r.numTokens / hs.blockSize)
    (hok : m < r.numTokens / hs.blockSize → MmIdxOk r.mmFeatures (m * hs.blockSize)
      (r.numTokens / hs.blockSize * hs.blockSize) (if m * hs.blockSize > 0 then -1 else 0)) :
    (r.updateBlockHashes (some hs)).blockHashes = trueHashes hs r := by
  have hlen : r.blockHashes.length = m := by rw [hm, hashesUpTo_length]
  have hsplit : trueHashes hs r = hashesUpTo hs r m
      ++ chain (chainStep hs) (r.blockHashes.getLastD hs.noneHash)
          ((List.range' m (r.numTokens / hs.blockSize - m)).map (blockPayload hs r)) := by
    have hrange : List.range (r.numTokens / hs.blockSize)
        = List.range m ++ List.range' m (r.numTokens / hs.blockSize - m) := by
      have happ := List.range'_append_1 (s := 0) (m := m) (n := r.numTokens / hs.blockSize - m)
      rw [Nat.zero_add, Nat.add_sub_cancel' hmn] at happ
      rw [List.range_eq_range', List.range_eq_range', happ]
    rw [trueHashes, hashesUpTo, hrange, List.map_append, chain_append, hm, hashesUpTo,
      chain_getLastD]
  have hprev : r.blockHashes.getLast?.getD hs.noneHash = r.blockHashes.getLastD hs.noneHash := by
    rw [List.getLastD_eq_getLast?]
  show r.blockHashes ++ requestBlockHasher hs r = _
  rw [requestBlockHasher, hlen, hsplit, ← hm]
  congr 1
  by_cases hmore : m * hs.blockSize + hs.blockSize > r.numTokens
  · rw [if_pos hmore]
    have hn : r.numTokens / hs.blockSize - m = 0 := by
      have : r.numTokens / hs.blockSize < m + 1 :=
        (Nat.div_lt_iff_lt_mul hbs).mpr (by rw [Nat.succ_mul]; omega)
      omega
    rw [hn]
    rfl
  · rw [if_neg hmore]
    have hk : r.numTokens / hs.blockSize ≤ r.numTokens := Nat.div_le_self _ _
    have hlt : m < r.numTokens / hs.blockSize :=
      (Nat.le_div_iff_mul_le hbs).mpr (by rw [Nat.succ_mul]; omega)
    rw [hasherLoop_spec hbs (r.numTokens / hs.blockSize - m) m _ _ _ (by omega) (by omega) (hok hlt),
      hprev]

/-- Resuming at block `m` and hashing up to block `n` skips no feature: where
there is a block to hash, the hasher looks at the last feature only. -/
def NoSkippedItem (bs : Nat) (fs : List MultiModalFeatureSpec) (m n : Nat) : Prop :=
  0 < m → m < n → ∀ f ∈ fs.dropLast, f.stop ≤ m * bs ∨ n * bs ≤ f.offset

/-- `extend_trueHashes` with the index the hasher really starts from. -/
theorem resume_trueHashes {m : Nat} (hbs : 0 < hs.blockSize) (hsd : SortedDisjoint r.mmFeatures)
    (hm : r.blockHashes = hashesUpTo hs r m) (hmn : m ≤ r.numTokens / hs.blockSize)
    (hskip : NoSkippedItem hs.blockSize r.mmFeatures m (r.numTokens / hs.blockSize)) :
    (r.updateBlockHashes (some hs)).blockHashes = trueHashes hs r := by
  refine extend_trueHashes hbs hm hmn fun hlt => ?_
  by_cases h0 : m * hs.blockSize > 0
  · rw [if_pos h0]
    exact mmIdxOk_neg_one (hskip (Nat.pos_of_mul_pos_right h0) hlt)
  · rw [if_neg h0]
    exact mmIdxOk_zero hsd _ _

/-- The hashes `request_block_hasher` computes from an empty `block_hashes`. -/
def hashFromScratch (hs : BlockHasher H) (r : Request H) : List H :=
  requestBlockHasher hs { r with blockHashes := [] }

/-- Hashing from scratch gives the true hashes of a sorted feature list. -/
theorem hashFromScratch_eq (hbs : 0 < hs.blockSize) (hsd : SortedDisjoint r.mmFeatures) :
    hashFromScratch hs r = trueHashes hs r := by
  have h := resume_trueHashes (r := { r with blockHashes := [] }) (m := 0) hbs hsd rfl
    (Nat.zero_le _) (fun h0 => absurd h0 (Nat.lt_irrefl 0))
  exact h

end VllmEngine

/-!
## The tokens that a block hash covers

Whatever features the hasher finds or misses, the hashes of a request are a chain over the tokens of
its blocks, each with some extra keys. That needs neither sorted features nor the condition under which
the extra keys are right.

> `Chained`: the hashes are such a chain,
> `fresh_chained`, `append_chained`: it holds for a new request and stays so when tokens are appended.

An update of a streaming session may drop tokens of a block that is hashed already; then it
holds no longer.
-/

namespace VllmEngine

open HashChain

variable {H : Type} {hs : BlockHasher H} {r : Request H}

/-- `x` is a digest of `tokens`, for some parent and some extra keys. -/
def DigestOf (hs : BlockHasher H) (x : H) (tokens : List Token) : Prop :=
  ∃ parent extraKeys, x = hs.hashFunction (parent, tokens, extraKeys)

/-- Hash `k` is the digest of block `k`, and the tokens of that block are there. -/
def HashedTokens (hs : BlockHasher H) (r : Request H) : Prop :=
  ∀ k x, r.blockHashes[k]? = some x →
    k * hs.blockSize + hs.blockSize ≤ r.numTokens ∧
      DigestOf hs x (r.blockTokens (k * hs.blockSize) (k * hs.blockSize + hs.blockSize))

/-- Payloads of the blocks from `m` on, which are full; the extra keys are any. -/
def OfBlocks (hs : BlockHasher H) (r : Request H) (m : Nat)
    (ps : List (List Token × Option (List ExtraKey))) : Prop :=
  ∀ k p, ps[k]? = some p → (m + k) * hs.blockSize + hs.blockSize ≤ r.numTokens ∧
    p.1 = r.blockTokens ((m + k) * hs.blockSize) ((m + k) * hs.blockSize + hs.blockSize)

/-- The hashes are a chain over the blocks. -/
def Chained (hs : BlockHasher H) (r : Request H) : Prop :=
  ∃ ps, r.blockHashes = chain (chainStep hs) hs.noneHash ps ∧ OfBlocks hs r 0 ps

theorem OfBlocks.append {m : Nat} {ps qs : List (List Token × Option (List ExtraKey))} (h : OfBlocks hs r m ps)
    (h' : OfBlocks hs r (m + ps.length) qs) : OfBlocks hs r m (ps ++ qs) := by
  intro k p hp
  by_cases hold : k < ps.length
  · exact h k p ((List.getElem?_append_left hold).symm.trans hp)
  · rw [List.getElem?_append_right (Nat.le_of_not_lt hold)] at hp
    have hnew := h' _ p hp
    rwa [Nat.add_assoc, Nat.add_sub_of_le (Nat.le_of_not_lt hold)] at hnew

/-- The loop from block `m` on. The induction is on the fuel. -/
theorem hasherLoop_ofBlocks : ∀ (fuel m : Nat) (prev : Option H) (idx : Int), ∃ ps,
    hasherLoop hs r fuel (m * hs.blockSize) prev idx = chain (chainStep hs) (prev.getD hs.noneHash) ps ∧
      OfBlocks hs r m ps := by
  have hnil : ∀ m, OfBlocks hs r m [] := fun m k p hp => by cases hp
  intro fuel
  induction fuel with
  | zero => exact fun m prev idx => ⟨[], rfl, hnil m⟩
  | succ fuel ih =>
    intro m prev idx
    rw [hasherLoop]
    split
    next => exact ⟨[], rfl, hnil m⟩
    next hfull =>
      dsimp only
      rw [← Nat.succ_mul] at hfull ⊢
      obtain ⟨ps, hloop, hps⟩ := ih (m + 1) (some _) _
      rw [hloop]
      refine ⟨(_, _) :: ps, rfl, ?_⟩
      have hone : OfBlocks hs r m [(r.blockTokens (m * hs.blockSize) ((m + 1) * hs.blockSize),
          (generateBlockHashExtraKeys hs r (m * hs.blockSize) ((m + 1) * hs.blockSize) idx).1)] := by
        intro k p hp
        cases k with
        | zero =>
          cases hp
          rw [Nat.add_zero, ← Nat.succ_mul]
          exact ⟨Nat.le_of_not_lt hfull, rfl⟩
        | succ k => cases hp
      exact hone.append hps

/-- New hashes follow the old ones. -/
theorem Chained.updateBlockHashes (h : Chained hs r) :
    Chained hs (r.updateBlockHashes (some hs)) := by
  obtain ⟨ps, hhashes, hps⟩ := h
  obtain ⟨qs, hnew, hqs⟩ : ∃ qs, requestBlockHasher hs r
      = chain (chainStep hs) (r.blockHashes.getLast?.getD hs.noneHash) qs ∧ OfBlocks hs r ps.length qs := by
    unfold requestBlockHasher
    dsimp only
    split
    next => exact ⟨[], rfl, fun k p hp => by cases hp⟩
    next =>
      rw [show r.blockHashes.length = ps.length by rw [hhashes, chain_length]]
      exact hasherLoop_ofBlocks _ _ _ _
  refine ⟨ps ++ qs, ?_, hps.append (by rwa [Nat.zero_add])⟩
  show r.blockHashes ++ requestBlockHasher hs r = _
  rw [hnew, chain_append, ← List.getLastD_eq_getLast?, hhashes, chain_getLastD]

/-- A request as the engine receives it. -/
theorem fresh_chained {e : EngineCoreRequest}
    (h : Request.fromEngineCoreRequest (some hs) e = .ok r) : Chained hs r := by
  unfold Request.fromEngineCoreRequest at h
  simp only [Raises.bind_eq_ok, Raises.pure_eq_ok] at h
  obtain ⟨limits, -, n, -, rfl⟩ := h
  exact Chained.updateBlockHashes ⟨[], rfl, fun k p hp => by cases hp⟩

/-- Appended tokens stand behind every block that is hashed. -/
theorem append_chained (h : Chained hs r) (toks : List Token) :
    Chained hs (r.appendOutputTokenIds (some hs) toks) := by
  obtain ⟨ps, hhashes, hps⟩ := h
  refine Chained.updateBlockHashes ⟨ps, hhashes, fun k p hp => ?_⟩
  obtain ⟨hle, htokens⟩ := hps k p hp
  refine ⟨?_, htokens.trans (congrArg (List.drop _) (List.take_append_of_le_length hle).symm)⟩
  exact Nat.le_trans hle (by
    show r.allTokenIds.length ≤ (r.allTokenIds ++ toks).length
    rw [List.length_append]
    exact Nat.le_add_right _ _)

end VllmEngine
