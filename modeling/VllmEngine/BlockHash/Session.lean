import VllmEngine.BlockHash.Isolation
import VllmEngine.Lib.Run

/-!
# Incremental hashing against batch hashing

A request hashes its prompt when it is created and extends the hashes with
every `append_output_token_ids`. `Faithful` says the list is the one a hasher
starting from nothing would compute.

The prompt's last partial block is hashed by a resumed call, which looks at the
last multimodal feature only. So the incremental hashes are the batch hashes
exactly when that block holds at most one feature, or is the first block, where
the hasher starts afresh:

> `appendAll_faithful_iff`: faithful under every chunking of the output, if and
> only if `SingleTailItem`.
-/

namespace VllmEngine

open HashChain

variable {H : Type}

/-- The request's hashes are those of a hasher that starts from an empty list:
one for each full block, over exactly the features that overlap it. -/
structure Faithful (hs : BlockHasher H) (r : Request H) : Prop where
  eq_scratch : r.blockHashes = hashFromScratch hs r
  length : r.blockHashes.length = r.numTokens / hs.blockSize
  eq_true : r.blockHashes = trueHashes hs r

variable {hs : BlockHasher H} {r : Request H}

theorem faithful_of_trueHashes (hbs : 0 < hs.blockSize) (hsd : SortedDisjoint r.mmFeatures)
    (h : r.blockHashes = trueHashes hs r) :
    Faithful hs r where
  eq_scratch := by rw [h, hashFromScratch_eq hbs hsd]
  length := by rw [h, trueHashes, hashesUpTo_length]
  eq_true := h

/-- Successive `append_output_token_ids` calls. -/
def appendAll (hs : BlockHasher H) (r : Request H) (chunks : List (List Token)) : Request H :=
  chunks.foldl (Request.appendOutputTokenIds (some hs)) r

/-- The block the prompt ends in is the first one, or at most one feature
overlaps it. -/
def SingleTailItem (bs numPromptTokens : Nat) (fs : List MultiModalFeatureSpec) : Prop :=
  numPromptTokens < bs ∨
    (fs.filter fun f => decide (f.Overlaps (numPromptTokens / bs * bs)
      (numPromptTokens / bs * bs + bs))).length ≤ 1

/-! ## One append -/

/-- Appending tokens keeps the payloads of the blocks already full. -/
theorem blockPayload_append (r : Request H) (toks : List Token) {i : Nat}
    (hi : i < r.numTokens / hs.blockSize) (out : List Token) :
    blockPayload hs { r with outputTokenIds := out, allTokenIds := r.allTokenIds ++ toks } i
      = blockPayload hs r i := by
  refine blockPayload_congr ?_ rfl rfl rfl rfl
  have hle : (i + 1) * hs.blockSize ≤ r.allTokenIds.length :=
    Nat.le_trans (Nat.mul_le_mul_right _ hi) (Nat.div_mul_le_self _ _)
  rw [Nat.succ_mul] at hle
  exact List.take_append_of_le_length hle

/-- True hashes stay true under an append that skips no feature. -/
theorem append_trueHashes {toks : List Token} (hbs : 0 < hs.blockSize)
    (hsd : SortedDisjoint r.mmFeatures) (htrue : r.blockHashes = trueHashes hs r)
    (hskip : NoSkippedItem hs.blockSize r.mmFeatures (r.numTokens / hs.blockSize) ((r.numTokens + toks.length) / hs.blockSize)) :
    (r.appendOutputTokenIds (some hs) toks).blockHashes
      = trueHashes hs (r.appendOutputTokenIds (some hs) toks) := by
  have hlen : (r.allTokenIds ++ toks).length = r.numTokens + toks.length := List.length_append
  rw [Request.appendOutputTokenIds]
  refine resume_trueHashes (m := r.numTokens / hs.blockSize) hbs hsd ?_ ?_ ?_
  · refine htrue.trans (hashesUpTo_congr ?_).symm
    intro i hi
    exact blockPayload_append r toks hi _
  · exact Nat.div_le_div_right (by show _ ≤ (r.allTokenIds ++ toks).length; omega)
  · show NoSkippedItem _ _ _ ((r.allTokenIds ++ toks).length / _)
    rw [hlen]
    exact hskip

/-- Extending the hashes changes nothing else. -/
theorem updateBlockHashes_eq (hs : Option (BlockHasher H)) (r : Request H) :
    ∃ l, r.updateBlockHashes hs = { r with blockHashes := l } := by
  cases hs with
  | none => exact ⟨r.blockHashes, rfl⟩
  | some hs => exact ⟨_, rfl⟩

@[simp] theorem append_mmFeatures (hs : Option (BlockHasher H)) (r : Request H)
    (toks : List Token) : (r.appendOutputTokenIds hs toks).mmFeatures = r.mmFeatures := by
  cases hs <;> rfl

@[simp] theorem append_allTokenIds (hs : Option (BlockHasher H)) (r : Request H)
    (toks : List Token) :
    (r.appendOutputTokenIds hs toks).allTokenIds = r.allTokenIds ++ toks := by
  cases hs <;> rfl

@[simp] theorem append_numPromptTokens (hs : Option (BlockHasher H)) (r : Request H)
    (toks : List Token) : (r.appendOutputTokenIds hs toks).numPromptTokens = r.numPromptTokens := by
  cases hs <;> rfl

/-- With one feature at most in the prompt's last block, every other feature
ends before that block. -/
theorem stop_le_of_singleTail {bs p : Nat} {fs : List MultiModalFeatureSpec} (hbs : 0 < bs)
    (hsd : SortedDisjoint fs) (hin : ∀ f ∈ fs, f.stop ≤ p)
    (hone : (fs.filter fun f => decide (f.Overlaps (p / bs * bs) (p / bs * bs + bs))).length ≤ 1) :
    ∀ f ∈ fs.dropLast, f.stop ≤ p / bs * bs := by
  have hp : p < p / bs * bs + bs := by
    have := Nat.lt_mul_div_succ p hbs
    rwa [Nat.mul_succ, Nat.mul_comm] at this
  rcases List.eq_nil_or_concat fs with rfl | ⟨init, last, hfs⟩
  · simp
  · rw [List.concat_eq_append] at hfs
    subst hfs
    rw [List.dropLast_concat]
    intro f hf
    by_contra hlt
    have hf' := hin f (by simp [hf])
    have hl' := hin last (by simp)
    have hfl : f.stop ≤ last.offset := (List.pairwise_append.mp hsd).2.2 f hf last (by simp)
    have hfo := offset_le_stop f
    have hlo := offset_le_stop last
    -- both `f` and the last feature overlap the block
    have hovf : f.Overlaps (p / bs * bs) (p / bs * bs + bs) := ⟨by omega, by omega⟩
    have hovl : last.Overlaps (p / bs * bs) (p / bs * bs + bs) := ⟨by omega, by omega⟩
    rw [List.filter_append, List.length_append, List.filter_cons_of_pos (by simpa using hovl),
      List.length_cons] at hone
    have hpos : 0 < (init.filter fun f => decide (f.Overlaps (p / bs * bs)
        (p / bs * bs + bs))).length :=
      List.length_pos_of_mem (List.mem_filter.mpr ⟨hf, by simpa using hovf⟩)
    omega

/-- A resumed call of a request with a single tail item skips no feature. -/
theorem noSkippedItem_of_singleTail {bs p n k : Nat} {fs : List MultiModalFeatureSpec}
    (hbs : 0 < bs) (hsd : SortedDisjoint fs) (hin : ∀ f ∈ fs, f.stop ≤ p)
    (hone : SingleTailItem bs p fs) (hpn : p ≤ n) : NoSkippedItem bs fs (n / bs) k := by
  intro hm _ f hf
  have hmono : p / bs * bs ≤ n / bs * bs := Nat.mul_le_mul_right _ (Nat.div_le_div_right hpn)
  rcases hone with hlt | hone
  · -- the whole prompt lies in the first block
    have hf' := hin f ((List.dropLast_sublist fs).subset hf)
    have : 1 * bs ≤ n / bs * bs := Nat.mul_le_mul_right _ hm
    exact Or.inl (by omega)
  · have := stop_le_of_singleTail hbs hsd hin hone f hf
    exact Or.inl (by omega)

/-- **Every chunking.** True hashes of a request with a single tail item stay
true under any sequence of appends. The induction is on the chunks; the
features and the prompt length do not change along the way. -/
theorem appendAll_trueHashes (hbs : 0 < hs.blockSize) :
    ∀ (chunks : List (List Token)) (r : Request H), SortedDisjoint r.mmFeatures →
      (∀ f ∈ r.mmFeatures, f.stop ≤ r.numPromptTokens) → r.numPromptTokens ≤ r.numTokens →
      SingleTailItem hs.blockSize r.numPromptTokens r.mmFeatures →
      r.blockHashes = trueHashes hs r → Faithful hs (appendAll hs r chunks) := by
  intro chunks
  induction chunks with
  | nil =>
    intro r hsd _ _ _ htrue
    exact faithful_of_trueHashes hbs hsd htrue
  | cons c cs ih =>
    intro r hsd hin hlen hone htrue
    rw [appendAll, List.foldl_cons]
    refine ih _ ?_ ?_ ?_ ?_ ?_
    · rwa [append_mmFeatures]
    · rwa [append_mmFeatures, append_numPromptTokens]
    · rw [append_numPromptTokens, Request.numTokens, append_allTokenIds, List.length_append]
      exact Nat.le_add_right_of_le hlen
    · rwa [append_mmFeatures, append_numPromptTokens]
    · exact append_trueHashes hbs hsd htrue (noSkippedItem_of_singleTail hbs hsd hin hone hlen)

/-! ## What a skipped feature does -/

theorem mmKeysLoop_length (s e : Nat) :
    ∀ (fs : List MultiModalFeatureSpec) (idx : Nat), (mmKeysLoop s e fs idx).1.length ≤ fs.length := by
  intro fs
  induction fs with
  | nil => intro idx; exact Nat.le_refl _
  | cons f fs ih =>
    intro idx
    have := ih (idx + 1)
    unfold mmKeysLoop
    split
    · split
      · exact Nat.le_succ_of_le this
      · split
        · exact Nat.succ_le_succ this
        · simp
    · simp

/-- A resumed call records at most one feature for a block. -/
theorem genMmExtraHashKeys_resumed_length (r : Request H) (s e : Nat) :
    (genMmExtraHashKeys r s e (-1)).1.length ≤ 1 := by
  unfold genMmExtraHashKeys
  cases r.mmFeatures.getLast? with
  | none => simp
  | some last =>
    dsimp only
    by_cases hlast : last.stop ≤ s
    · rw [if_pos hlast]
      exact Nat.zero_le _
    · rw [if_neg hlast, if_pos (by omega)]
      refine Nat.le_trans (mmKeysLoop_length s e _ _) ?_
      rw [List.length_drop]
      omega

/-- The next block of a resumed call: its digest covers the keys found from the
last feature on. -/
theorem requestBlockHasher_one {m : Nat} (hbs : 0 < hs.blockSize) (hlen : r.blockHashes.length = m)
    (hm : 0 < m) (hn : r.numTokens = m * hs.blockSize + hs.blockSize) :
    requestBlockHasher hs r = [hashBlockTokens hs r.blockHashes.getLast?
      (r.blockTokens (m * hs.blockSize) (m * hs.blockSize + hs.blockSize))
      (generateBlockHashExtraKeys hs r (m * hs.blockSize)
        (m * hs.blockSize + hs.blockSize) (-1)).1] := by
  have hpos : 0 < m * hs.blockSize := Nat.mul_pos hm hbs
  obtain ⟨fuel, hfuel⟩ := Nat.exists_eq_add_of_lt (show 0 < r.numTokens by omega)
  rw [Nat.zero_add] at hfuel
  rw [requestBlockHasher, hlen, if_neg (by omega), if_pos hpos, hasherLoop, if_neg (by omega)]
  dsimp only
  rw [hfuel, hasherLoop, if_pos (by omega)]

/-- If the resumed call reproduces the true hashes, it skipped nothing: at most
one feature overlaps the prompt's last block. -/
theorem singleTail_of_faithful (hinj : Function.Injective hs.hashFunction) (hbs : 0 < hs.blockSize)
    (hlen : r.numTokens = r.numPromptTokens) (htrue : r.blockHashes = trueHashes hs r)
    (hall : ∀ chunks, Faithful hs (appendAll hs r chunks)) :
    SingleTailItem hs.blockSize r.numPromptTokens r.mmFeatures := by
  by_contra hnot
  obtain ⟨hge, htwo⟩ := not_or.mp hnot
  obtain ⟨m, hm⟩ : ∃ m, m = r.numPromptTokens / hs.blockSize := ⟨_, rfl⟩
  rw [← hm] at htwo
  have hmpos : 0 < m := by rw [hm]; exact Nat.div_pos (by omega) hbs
  have hlt : r.numTokens < m * hs.blockSize + hs.blockSize := by
    have := Nat.lt_mul_div_succ r.numPromptTokens hbs
    rw [Nat.mul_succ, Nat.mul_comm, ← hm] at this
    omega
  -- complete the block with one append
  let r' := { r with
    outputTokenIds := r.outputTokenIds ++
      List.replicate (m * hs.blockSize + hs.blockSize - r.numTokens) 0
    allTokenIds := r.allTokenIds ++
      List.replicate (m * hs.blockSize + hs.blockSize - r.numTokens) 0 }
  have hn' : r'.numTokens = m * hs.blockSize + hs.blockSize := by
    show (r.allTokenIds ++ _).length = _
    rw [List.length_append, List.length_replicate]
    exact Nat.add_sub_cancel' (Nat.le_of_lt hlt)
  have hhashes : r'.blockHashes.length = m := by
    show r.blockHashes.length = m
    rw [htrue, trueHashes, hashesUpTo_length, hlen, hm]
  have hfaith := (hall [List.replicate (m * hs.blockSize + hs.blockSize - r.numTokens) 0]).eq_true
  have hincr : r'.blockHashes ++ requestBlockHasher hs r' = trueHashes hs r' := hfaith
  have hnum : r'.numTokens / hs.blockSize = m + 1 := by
    rw [hn', ← Nat.succ_mul, Nat.mul_div_cancel _ hbs]
  rw [requestBlockHasher_one hbs hhashes hmpos hn', trueHashes, hnum, hashesUpTo, List.range_succ,
    List.map_append, chain_append] at hincr
  -- the last digests agree, so their keys do
  have hlast := (List.append_inj' hincr rfl).2
  have hkeys := congrArg (fun p => p.2.2) (hinj (List.cons.inj hlast).1)
  have hkeys' : packExtraKeys (genLoraExtraHashKeys r'
        ++ (genMmExtraHashKeys r' (m * hs.blockSize) (m * hs.blockSize + hs.blockSize) (-1)).1
        ++ genCacheSaltKeys r' (m * hs.blockSize) ++ genPromptEmbedsExtraHashKeys hs r'
          (m * hs.blockSize) (m * hs.blockSize + hs.blockSize))
      = trueExtraKeys hs r' (m * hs.blockSize) (m * hs.blockSize + hs.blockSize) := hkeys
  rw [trueExtraKeys, packExtraKeys_inj] at hkeys'
  have hmm := List.append_cancel_left
    (List.append_cancel_right (List.append_cancel_right hkeys'))
  have hone := genMmExtraHashKeys_resumed_length r' (m * hs.blockSize)
    (m * hs.blockSize + hs.blockSize)
  rw [hmm, overlapKeys, List.length_map] at hone
  exact htwo hone

/-! ## Requests as the engine builds them -/

/-- A new request: what it keeps of its arguments, and the hashes of its prompt. -/
structure IsNew (hs : BlockHasher H) (e : EngineCoreRequest) (r : Request H) : Prop where
  mmFeatures : r.mmFeatures = e.mmFeatures
  promptTokenIds : r.promptTokenIds = e.promptTokenIds
  allTokenIds : ∀ p, r.promptTokenIds = some p → r.allTokenIds = p
  numTokens : r.numTokens = r.numPromptTokens
  blockHashes : r.blockHashes = hashFromScratch hs r

theorem fromEngineCoreRequest_isNew {e : EngineCoreRequest}
    (h : Request.fromEngineCoreRequest (some hs) e = .ok r) : IsNew hs e r := by
  unfold Request.fromEngineCoreRequest at h
  cases hlim : initialLimits e with
  | error err => rw [hlim] at h; cases h
  | ok lim =>
    cases hn : lengthFromPromptTokenIdsOrEmbeds e.promptTokenIds e.promptEmbeds with
    | error err => rw [hlim, hn] at h; cases h
    | ok n =>
      rw [hlim, hn] at h
      obtain rfl := Except.ok.inj h
      have hall : ∀ p, e.promptTokenIds = some p →
          e.promptTokenIds.getD (List.replicate n 0) = p := by
        intro p hp
        rw [hp, Option.getD_some]
      refine ⟨rfl, rfl, hall, ?_, rfl⟩
      show (e.promptTokenIds.getD (List.replicate n 0)).length = n
      -- the prompt length is that of the tokens, when there are any
      cases ht : e.promptTokenIds with
      | none => simp
      | some toks =>
        rw [ht] at hn
        unfold lengthFromPromptTokenIdsOrEmbeds at hn
        cases he : e.promptEmbeds with
        | none =>
          rw [he] at hn
          exact Except.ok.inj hn
        | some embeds =>
          rw [he] at hn
          dsimp only at hn
          by_cases hne : embeds.rows.length ≠ toks.length
          · rw [if_pos hne] at hn
            cases hn
          · rw [if_neg hne] at hn
            exact Except.ok.inj hn

/-- **Incremental against batch hashing.** A new request whose prompt ends in
its first block, or in a block with at most one feature, keeps the batch hashes
under every sequence of appends; when the hash function is injective, no other
request does. -/
theorem appendAll_faithful_iff {hs : BlockHasher H} (hbs : 0 < hs.blockSize)
    {e : EngineCoreRequest} {r : Request H}
    (hnew : Request.fromEngineCoreRequest (some hs) e = .ok r)
    (hsd : SortedDisjoint e.mmFeatures) (hin : ∀ f ∈ e.mmFeatures, f.stop ≤ r.numPromptTokens) :
    (SingleTailItem hs.blockSize r.numPromptTokens e.mmFeatures →
      ∀ chunks, Faithful hs (appendAll hs r chunks)) ∧
    (Function.Injective hs.hashFunction → (∀ chunks, Faithful hs (appendAll hs r chunks)) →
      SingleTailItem hs.blockSize r.numPromptTokens e.mmFeatures) := by
  obtain ⟨hmm, -, -, hlen, hscratch⟩ := fromEngineCoreRequest_isNew hnew
  rw [← hmm] at hsd hin ⊢
  have htrue : r.blockHashes = trueHashes hs r := by
    rw [hscratch, hashFromScratch_eq hbs hsd]
  constructor
  · intro hone chunks
    exact appendAll_trueHashes hbs chunks r hsd hin (Nat.le_of_eq hlen.symm) hone htrue
  · intro hinj hall
    exact singleTail_of_faithful hinj hbs hlen htrue hall

/-- A prompt of six tokens with the items `x` at position 4 and `y` at
position 5, both in its second block. -/
def twoItemPrompt : EngineCoreRequest :=
  { plainPrompt "a" [1, 2, 3, 4, 5, 6] with
    mmFeatures := [⟨"x", ⟨4, 1, none⟩⟩, ⟨"y", ⟨5, 1, none⟩⟩] }

def twoItemRequest : Request Digest :=
  (Request.fresh twoItemPrompt 6 16 .waiting).updateBlockHashes (some (freeHasher 4))

/-- Two output tokens complete the second block, whose hash then misses `x`. -/
theorem twoItemRequest_not_faithful :
    ¬ ∀ (hs : BlockHasher Digest) (e : EngineCoreRequest) (r : Request Digest)
      (chunks : List (List Token)), 0 < hs.blockSize →
      Request.fromEngineCoreRequest (some hs) e = .ok r → SortedDisjoint e.mmFeatures →
      (∀ f ∈ e.mmFeatures, f.stop ≤ r.numPromptTokens) → Faithful hs (appendAll hs r chunks) := by
  intro h
  have hsd : SortedDisjoint twoItemPrompt.mmFeatures := by
    unfold SortedDisjoint
    decide
  have hin : ∀ f ∈ twoItemPrompt.mmFeatures, f.stop ≤ twoItemRequest.numPromptTokens := by decide
  have hfaith := h (freeHasher 4) twoItemPrompt twoItemRequest [[7, 8]] (by decide) rfl hsd hin
  exact absurd hfaith.eq_scratch (by decide)

/-- The same prompt with `y` alone. -/
def oneItemPrompt : EngineCoreRequest :=
  { plainPrompt "a" [1, 2, 3, 4, 5, 6] with mmFeatures := [⟨"y", ⟨5, 1, none⟩⟩] }

def oneItemRequest : Request Digest :=
  (Request.fresh oneItemPrompt 6 16 .waiting).updateBlockHashes (some (freeHasher 4))

theorem oneItemRequest_faithful :
    Request.fromEngineCoreRequest (some (freeHasher 4)) oneItemPrompt = .ok oneItemRequest ∧
      Faithful (freeHasher 4) (appendAll (freeHasher 4) oneItemRequest [[7], [8, 9]]) := by
  have hnew : Request.fromEngineCoreRequest (some (freeHasher 4)) oneItemPrompt
      = .ok oneItemRequest := rfl
  have hin : ∀ f ∈ oneItemPrompt.mmFeatures, f.stop ≤ oneItemRequest.numPromptTokens := by decide
  refine ⟨hnew, (appendAll_faithful_iff (by decide) hnew (List.pairwise_singleton _ _) hin).1 ?_ _⟩
  exact Or.inr (by decide)

theorem appendAll_chained (hs : BlockHasher H) : ∀ (chunks : List (List Token)) (r : Request H),
    Chained hs r → Chained hs (appendAll hs r chunks) := by
  intro chunks
  induction chunks with
  | nil => exact fun r h => h
  | cons toks chunks ih => exact fun r h => ih _ (append_chained h toks)

/-- **One hash, one prefix.** After any appends, and whatever features were missed, two requests share a
hash only at one index, and only with the same tokens up to the end of that block. -/
theorem shared_hash_agrees {hs : BlockHasher H} (hcf : CollisionFree hs) {e₁ e₂ : EngineCoreRequest}
    {r₁ r₂ : Request H} (h₁ : Request.fromEngineCoreRequest (some hs) e₁ = .ok r₁)
    (h₂ : Request.fromEngineCoreRequest (some hs) e₂ = .ok r₂) (chunks₁ chunks₂ : List (List Token))
    {i j : Nat} {x : H} (hi : (appendAll hs r₁ chunks₁).blockHashes[i]? = some x)
    (hj : (appendAll hs r₂ chunks₂).blockHashes[j]? = some x) :
    i = j ∧ (appendAll hs r₁ chunks₁).allTokenIds.take ((i + 1) * hs.blockSize)
      = (appendAll hs r₂ chunks₂).allTokenIds.take ((i + 1) * hs.blockSize) := by
  obtain ⟨ps, hps, hcovers⟩ := appendAll_chained hs chunks₁ r₁ (fresh_chained h₁)
  obtain ⟨qs, hqs, hcovers'⟩ := appendAll_chained hs chunks₂ r₂ (fresh_chained h₂)
  rw [hps] at hi
  rw [hqs] at hj
  have hlt := (List.getElem?_eq_some_iff.mp hi).1
  have hlt' := (List.getElem?_eq_some_iff.mp hj).1
  rw [chain_length] at hlt hlt'
  have hstep : ∀ a p b q, chainStep hs a p = chainStep hs b q → a = b ∧ p = q := by
    intro a p b q hpq
    obtain ⟨hab, hp⟩ := Prod.mk.inj (hcf.hash_inj hpq)
    exact ⟨hab, hp⟩
  obtain ⟨rfl, htake⟩ := chain_inj hstep (fun a p => hcf.noneHash_fresh _) hlt hlt' (hi.trans hj.symm)
  refine ⟨rfl, take_eq_of_blocks_eq (i + 1) fun k hk => ?_⟩
  have hp := List.getElem?_eq_getElem (Nat.lt_of_lt_of_le hk hlt)
  have hq := congrArg (fun l => l[k]?) htake
  rw [List.getElem?_take_of_lt hk, List.getElem?_take_of_lt hk, hp] at hq
  have htokens := (hcovers k _ hp).2
  rw [(hcovers' k _ hq.symm).2, Nat.zero_add] at htokens
  exact htokens.symm

/-- The hash that misses `x` is that of the prompt without `x`. -/
theorem missed_item_shared_prefix :
    (appendAll (freeHasher 4) twoItemRequest [[7, 8]]).allTokenIds.take 8
      = (appendAll (freeHasher 4) oneItemRequest [[7], [8, 9]]).allTokenIds.take 8 := by
  have htwo : Request.fromEngineCoreRequest (some (freeHasher 4)) twoItemPrompt = .ok twoItemRequest := rfl
  have hone : Request.fromEngineCoreRequest (some (freeHasher 4)) oneItemPrompt = .ok oneItemRequest := rfl
  exact (shared_hash_agrees (freeHasher_collisionFree 4) htwo hone [[7, 8]] [[7], [8, 9]] (i := 1) (j := 1)
    rfl (by decide)).2

end VllmEngine

/-!
## Block hashes of a streaming session

`Scheduler._update_request_as_session` continues a resumable request with the
next input chunk: it drops the tokens that were never computed (the last
sampled one, usually), shifts the new multimodal features behind the kept
tokens, appends the new prompt tokens and extends the block hashes.

The hash list is only ever extended, so an update keeps it true only if no
hashed block reaches past the kept tokens; and the resumed hasher looks at the
last feature only. `SessionStepOk` states the two conditions, and

> `sessionRun_faithful`: in every run whose steps meet it, the hashes are those
> of the current tokens and features.
-/

namespace VllmEngine

open HashChain

variable {H : Type}

/-- `replace(mm_position, offset = mm_position.offset + base)`. -/
def MultiModalFeatureSpec.shift (base : Nat) (f : MultiModalFeatureSpec) : MultiModalFeatureSpec :=
  { f with mmPosition := { f.mmPosition with offset := f.mmPosition.offset + base } }

/-- `update.mm_features or ()`. -/
def StreamingUpdate.newFeatures (u : StreamingUpdate) : List MultiModalFeatureSpec :=
  u.mmFeatures.getD []

/-- `update.prompt_token_ids or ()`. -/
def StreamingUpdate.newTokens (u : StreamingUpdate) : List Token := u.promptTokenIds.getD []

/-- `Scheduler._update_request_as_session`, less the scheduler's own counter. -/
def updateRequestAsSession (hs : Option (BlockHasher H)) (session : Request H)
    (update : StreamingUpdate) : Except Python.Error (Request H) :=
  -- keep only computed output tokens
  let keptOutputTokens := Python.slice session.allTokenIds session.numPromptTokens
    session.numComputedTokens
  let keptTokens := Python.sliceTo session.allTokenIds session.numComputedTokens
  match session.promptTokenIds with
  | none => .error (.assertion "")
  | some promptTokenIds =>
    let promptTokenIds := promptTokenIds ++ keptOutputTokens ++ update.newTokens
    let session := Request.updateBlockHashes hs
      { session with
        allTokenIds := keptTokens ++ update.newTokens
        outputTokenIds := []
        promptTokenIds := some promptTokenIds
        mmFeatures := session.mmFeatures ++ update.newFeatures.map (·.shift keptTokens.length) }
    .ok { session with
          numPromptTokens := promptTokenIds.length
          arrivalTime := update.arrivalTime
          samplingParams := update.samplingParams
          status := .waiting }

/-- What happens to a session between two looks at its hashes: sampled tokens,
or the next chunk at some number of computed tokens. -/
inductive SessionOp
  | append (tokenIds : List Token)
  | update (numComputedTokens : Nat) (u : StreamingUpdate)

def sessionStep (hs : BlockHasher H) (r : Request H) : SessionOp → Except Python.Error (Request H)
  | .append toks => .ok (r.appendOutputTokenIds (some hs) toks)
  | .update nc u => updateRequestAsSession (some hs) { r with numComputedTokens := (nc : Int) } u

/-- Updates as the engine issues them: the whole prompt has been computed, and
the new features are sorted, disjoint and inside the new tokens. -/
def SessionOpValid (r : Request H) : SessionOp → Prop
  | .append _ => True
  | .update nc u => r.numPromptTokens ≤ nc ∧ nc ≤ r.numTokens ∧ SortedDisjoint u.newFeatures ∧
      ∀ f ∈ u.newFeatures, f.stop ≤ u.newTokens.length

/-- No hashed block reaches past the tokens an update keeps, and the resumed
hasher skips no feature. -/
def SessionStepOk (bs : Nat) (r : Request H) : SessionOp → Prop
  | .append toks =>
    NoSkippedItem bs r.mmFeatures r.blockHashes.length ((r.numTokens + toks.length) / bs)
  | .update nc u =>
    r.blockHashes.length * bs ≤ nc ∧
      NoSkippedItem bs (r.mmFeatures ++ u.newFeatures.map (·.shift nc)) r.blockHashes.length
        ((nc + u.newTokens.length) / bs)

/-- What every step of a session keeps. -/
structure SessionInv (hs : BlockHasher H) (r : Request H) : Prop where
  trueHashes : r.blockHashes = trueHashes hs r
  sorted : SortedDisjoint r.mmFeatures
  inPrompt : ∀ f ∈ r.mmFeatures, f.stop ≤ r.numPromptTokens
  prompt_le : r.numPromptTokens ≤ r.numTokens
  prompt_length : ∀ p, r.promptTokenIds = some p → p.length = r.numPromptTokens

/-! ## One step -/

@[simp] theorem shift_offset (base : Nat) (f : MultiModalFeatureSpec) :
    (f.shift base).offset = f.offset + base := rfl

@[simp] theorem shift_stop (base : Nat) (f : MultiModalFeatureSpec) :
    (f.shift base).stop = f.stop + base := by
  simp only [MultiModalFeatureSpec.shift, MultiModalFeatureSpec.stop]
  omega

theorem sortedDisjoint_shift {fs : List MultiModalFeatureSpec} (base : Nat)
    (h : SortedDisjoint fs) : SortedDisjoint (fs.map (·.shift base)) := by
  refine List.pairwise_map.mpr (List.Pairwise.imp ?_ h)
  intro f g hfg
  rw [shift_stop, shift_offset]
  omega

/-- Features behind the kept tokens leave the sorted list sorted. -/
theorem sortedDisjoint_append_shift {fs gs : List MultiModalFeatureSpec} {base : Nat}
    (hfs : SortedDisjoint fs) (hgs : SortedDisjoint gs) (hin : ∀ f ∈ fs, f.stop ≤ base) :
    SortedDisjoint (fs ++ gs.map (·.shift base)) := by
  refine List.pairwise_append.mpr ⟨hfs, sortedDisjoint_shift base hgs, ?_⟩
  intro f hf g hg
  obtain ⟨g', -, rfl⟩ := List.mem_map.mp hg
  have := hin f hf
  rw [shift_offset]
  omega

variable {hs : BlockHasher H} {r : Request H}

theorem append_keeps_inv (hbs : 0 < hs.blockSize) (hinv : SessionInv hs r) {toks : List Token}
    (hok : SessionStepOk hs.blockSize r (.append toks)) :
    SessionInv hs (r.appendOutputTokenIds (some hs) toks) where
  trueHashes := by
    refine append_trueHashes hbs hinv.sorted hinv.trueHashes ?_
    have hlen : r.blockHashes.length = r.numTokens / hs.blockSize := by
      rw [hinv.trueHashes, VllmEngine.trueHashes, hashesUpTo_length]
    rw [← hlen]
    exact hok
  sorted := by rw [append_mmFeatures]; exact hinv.sorted
  inPrompt := by rw [append_mmFeatures, append_numPromptTokens]; exact hinv.inPrompt
  prompt_le := by
    rw [append_numPromptTokens, Request.numTokens, append_allTokenIds, List.length_append]
    exact Nat.le_add_right_of_le hinv.prompt_le
  prompt_length := hinv.prompt_length

/-- An update whose kept tokens cover every hashed block leaves true hashes. -/
theorem update_keeps_inv (hbs : 0 < hs.blockSize) {r' : Request H} (hinv : SessionInv hs r)
    {nc : Nat} {u : StreamingUpdate} (hvalid : SessionOpValid r (.update nc u))
    (hok : SessionStepOk hs.blockSize r (.update nc u))
    (h : sessionStep hs r (.update nc u) = .ok r') : SessionInv hs r' := by
  obtain ⟨hpn, hnn, hsd, hin⟩ := hvalid
  obtain ⟨hcover, hskip⟩ := hok
  have hnn' : nc ≤ r.allTokenIds.length := hnn
  have hkept : (r.allTokenIds.take nc).length = nc := by rw [List.length_take]; omega
  simp only [sessionStep, updateRequestAsSession] at h
  cases hp : r.promptTokenIds with
  | none => rw [hp] at h; cases h
  | some p =>
    rw [hp] at h
    dsimp only at h
    rw [Python.sliceTo_natCast, Python.slice_natCast, hkept] at h
    obtain rfl := Except.ok.inj h
    have hplen := hinv.prompt_length p hp
    have hprompt : (p ++ (r.allTokenIds.take nc).drop r.numPromptTokens ++ u.newTokens).length
        = nc + u.newTokens.length := by
      rw [List.length_append, List.length_append, List.length_drop, hkept, hplen]
      omega
    have htotal : (r.allTokenIds.take nc ++ u.newTokens).length = nc + u.newTokens.length := by
      rw [List.length_append, hkept]
    have hinNew : ∀ f ∈ r.mmFeatures ++ u.newFeatures.map (·.shift nc),
        f.stop ≤ nc + u.newTokens.length := by
      intro f hf
      rcases List.mem_append.mp hf with hf | hf
      · have := hinv.inPrompt f hf
        omega
      · obtain ⟨g, hg, rfl⟩ := List.mem_map.mp hf
        have := hin g hg
        rw [shift_stop]
        omega
    have hsorted := sortedDisjoint_append_shift hinv.sorted hsd
      (fun f hf => Nat.le_trans (hinv.inPrompt f hf) hpn)
    refine ⟨?_, hsorted, ?_, ?_, ?_⟩
    · -- the blocks below the kept tokens have the payloads they had
      refine resume_trueHashes (m := r.blockHashes.length) hbs hsorted ?_ ?_ ?_
      · have hlen : r.blockHashes.length = r.numTokens / hs.blockSize := by
          rw [hinv.trueHashes, VllmEngine.trueHashes, hashesUpTo_length]
        rw [hlen]
        refine hinv.trueHashes.trans (hashesUpTo_congr ?_).symm
        intro i hi
        have hi' : i * hs.blockSize + hs.blockSize ≤ nc := by
          rw [← Nat.succ_mul]
          exact Nat.le_trans (Nat.mul_le_mul_right _ (by omega)) hcover
        refine blockPayload_congr ?_ rfl rfl rfl ?_
        · show (r.allTokenIds.take nc ++ u.newTokens).take _ = _
          rw [List.take_append_of_le_length (by rw [hkept]; exact hi'), List.take_take,
            Nat.min_eq_left hi']
        · show overlapKeys (r.mmFeatures ++ u.newFeatures.map (·.shift nc)) _ _ = _
          have hnew : overlapKeys (u.newFeatures.map (·.shift nc)) (i * hs.blockSize)
              (i * hs.blockSize + hs.blockSize) = [] := by
            refine overlapKeys_eq_nil fun f hf hov => ?_
            obtain ⟨g, -, rfl⟩ := List.mem_map.mp hf
            have := hov.1
            rw [shift_offset] at this
            omega
          rw [overlapKeys_append, hnew, List.append_nil]
      · show _ ≤ (r.allTokenIds.take nc ++ u.newTokens).length / hs.blockSize
        rw [htotal]
        exact (Nat.le_div_iff_mul_le hbs).mpr (by omega)
      · show NoSkippedItem _ _ _ ((r.allTokenIds.take nc ++ u.newTokens).length / _)
        rw [htotal]
        exact hskip
    · rw [hprompt]
      exact hinNew
    · show _ ≤ (r.allTokenIds.take nc ++ u.newTokens).length
      rw [hprompt, htotal]
    · intro q hq
      rw [← Option.some.inj hq]

/-! ## Whole sessions -/

/-- The operation is one the engine issues and meets the step condition. -/
def SessionGuard (hs : BlockHasher H) (r : Request H) (op : SessionOp) : Prop :=
  SessionOpValid r op ∧ SessionStepOk hs.blockSize r op

theorem sessionStep_keeps_inv (hbs : 0 < hs.blockSize) (r : Request H) (op : SessionOp)
    (r' : Request H) (hinv : SessionInv hs r) (hg : SessionGuard hs r op)
    (h : sessionStep hs r op = .ok r') : SessionInv hs r' := by
  cases op with
  | append toks =>
    obtain rfl := Except.ok.inj h
    exact append_keeps_inv hbs hinv hg.2
  | update nc u => exact update_keeps_inv hbs hinv hg.1 hg.2 h

/-- A session with prompt tokens keeps having them, and no step raises. -/
theorem sessionStep_ok (hp : r.promptTokenIds ≠ none) (op : SessionOp) :
    ∃ r', sessionStep hs r op = .ok r' ∧ r'.promptTokenIds ≠ none := by
  cases op with
  | append toks => exact ⟨_, rfl, hp⟩
  | update nc u =>
    obtain ⟨p, hp'⟩ := Option.ne_none_iff_exists'.mp hp
    simp only [sessionStep, updateRequestAsSession, hp']
    exact ⟨_, rfl, fun h => nomatch h⟩

theorem isNew_sessionInv (hbs : 0 < hs.blockSize) {e : EngineCoreRequest} (hnew : IsNew hs e r)
    (hsd : SortedDisjoint e.mmFeatures) (hin : ∀ f ∈ e.mmFeatures, f.stop ≤ r.numPromptTokens) :
    SessionInv hs r := by
  rw [← hnew.mmFeatures] at hsd hin
  refine ⟨hnew.blockHashes.trans (hashFromScratch_eq hbs hsd), hsd, hin,
    Nat.le_of_eq hnew.numTokens.symm, ?_⟩
  intro p hp
  rw [← hnew.numTokens, Request.numTokens, hnew.allTokenIds p hp]

/-- **Sessions.** In every run of a session whose steps keep the hashed blocks
and skip no feature, the hashes are those of the current tokens and features;
and a run of a session that has prompt tokens never raises. -/
theorem sessionRun_faithful {hs : BlockHasher H} (hbs : 0 < hs.blockSize) {e : EngineCoreRequest}
    {r : Request H} (hnew : Request.fromEngineCoreRequest (some hs) e = .ok r)
    (hsd : SortedDisjoint e.mmFeatures) (hin : ∀ f ∈ e.mmFeatures, f.stop ≤ r.numPromptTokens)
    (ops : List SessionOp) (hgood : Run.Guarded (sessionStep hs) (SessionGuard hs) r ops) :
    (∀ r', Run.exec (sessionStep hs) r ops = .ok r' → Faithful hs r') ∧
      (e.promptTokenIds ≠ none → ∃ r', Run.exec (sessionStep hs) r ops = .ok r') := by
  have hnew' := fromEngineCoreRequest_isNew hnew
  have hinv := isNew_sessionInv hbs hnew' hsd hin
  constructor
  · intro r' hrun
    have hinv' := Run.exec_inv (sessionStep_keeps_inv hbs) ops r r' hinv hgood hrun
    exact faithful_of_trueHashes hbs hinv'.sorted hinv'.trueHashes
  · intro hp
    refine Run.exec_total (I := fun r => r.promptTokenIds ≠ none) ?_ ?_ ops r ?_ hgood
    · intro s op s' hs' _ hstep
      obtain ⟨s₁, h₁, hp₁⟩ := sessionStep_ok hs' op
      rw [h₁] at hstep
      exact (Except.ok.inj hstep) ▸ hp₁
    · intro s op hs' _
      obtain ⟨s₁, h₁, -⟩ := sessionStep_ok hs' op
      exact ⟨s₁, h₁⟩
    · rw [hnew'.promptTokenIds]
      exact hp

/-- A session of three prompt tokens, to be continued. -/
def sessionPrompt : EngineCoreRequest := { plainPrompt "s" [1, 2, 3] with resumable := true }

def sessionStart : Request Digest :=
  (Request.fresh sessionPrompt 3 16 .waiting).updateBlockHashes (some (freeHasher 4))

def nextChunk : StreamingUpdate where
  mmFeatures := none
  promptTokenIds := some [9]
  maxTokens := 16
  arrivalTime := 1
  samplingParams := none

/-- The sampled token `4` fills a block and is then discarded for the new token
`9`: the hash of `1, 2, 3, 4` stays. -/
theorem stale_hash_after_update :
    ¬ ∀ (hs : BlockHasher Digest) (e : EngineCoreRequest) (r r' : Request Digest)
      (ops : List SessionOp), 0 < hs.blockSize →
      Request.fromEngineCoreRequest (some hs) e = .ok r → e.resumable = true →
      SortedDisjoint e.mmFeatures → (∀ f ∈ e.mmFeatures, f.stop ≤ r.numPromptTokens) →
      Run.Guarded (sessionStep hs) SessionOpValid r ops →
      Run.exec (sessionStep hs) r ops = .ok r' → Faithful hs r' := by
  intro h
  have hvalid : Run.Guarded (sessionStep (freeHasher 4)) SessionOpValid sessionStart
      [.append [4], .update 3 nextChunk] := by
    refine ⟨trivial, fun r₁ h₁ => ⟨?_, fun _ _ => trivial⟩⟩
    obtain rfl := Except.ok.inj h₁
    exact ⟨by decide, by decide, List.Pairwise.nil, by decide⟩
  have hfaith := h (freeHasher 4) sessionPrompt sessionStart _
    [.append [4], .update 3 nextChunk] (by decide) rfl rfl List.Pairwise.nil
    (by decide) hvalid rfl
  exact absurd hfaith.eq_scratch (by decide)

/-- The same session continued one token later keeps its first block. -/
theorem session_faithful_after_update :
    ∃ r', Run.exec (sessionStep (freeHasher 4)) sessionStart
      [.append [4], .append [5], .update 4 nextChunk] = .ok r' ∧ Faithful (freeHasher 4) r' := by
  have hgood : Run.Guarded (sessionStep (freeHasher 4)) (SessionGuard (freeHasher 4)) sessionStart
      [.append [4], .append [5], .update 4 nextChunk] := by
    refine ⟨⟨trivial, ?_⟩, fun r₁ h₁ => ⟨⟨trivial, ?_⟩, fun r₂ h₂ => ⟨⟨?_, ?_⟩, fun _ _ => trivial⟩⟩⟩
    · intro _ _ f hf
      cases hf
    · obtain rfl := Except.ok.inj h₁
      intro _ _ f hf
      cases hf
    · obtain rfl := Except.ok.inj h₁
      obtain rfl := Except.ok.inj h₂
      exact ⟨by decide, by decide, List.Pairwise.nil, by decide⟩
    · obtain rfl := Except.ok.inj h₁
      obtain rfl := Except.ok.inj h₂
      refine ⟨by decide, ?_⟩
      intro _ _ f hf
      cases hf
  obtain ⟨hfaith, htotal⟩ := sessionRun_faithful (e := sessionPrompt) (by decide) rfl
    List.Pairwise.nil (by decide) _ hgood
  obtain ⟨r', hr'⟩ := htotal (by decide)
  exact ⟨r', hr', hfaith r' hr'⟩

end VllmEngine
