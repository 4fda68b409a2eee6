import VllmEngine.BlockHash.Chain

/-!
# Isolation of block hashes

What two requests share when one of their block hashes is the same. The chain
(`HashChain.chain_inj`) reduces the question to the payloads: equal hashes give
equal tokens and equal extra-key tuples in every block up to the shared one. The
tuple of a block is

> LoRA name, multimodal keys, salt (first block only), embedding digest,

and the kinds are told apart by type, except that a LoRA name and a salt are
both strings. `keyTuple_eq_iff` decides when two tuples are equal: everything
agrees, or a LoRA name on one side stands where a salt stands on the other,
with no multimodal key between them. The digest is taken over the bytes of a
slice, which say nothing of its element type or of the length of its rows.

> `isolated_iff`: isolation holds for exactly the pairs of requests that are
> not `Confusable`.
-/

namespace VllmEngine

open HashChain

variable {H : Type}

/-! ## What a request brings to a block -/

def Request.loraName (r : Request H) : Option String := r.loraRequest.map (·.loraName)

/-- The salt as the hasher sees it: an empty salt counts as absent. -/
def Request.effectiveSalt (r : Request H) : Option String :=
  match r.cacheSalt with
  | none => none
  | some salt => if salt = "" then none else some salt

/-- Identifier and offset of each feature that overlaps `[s, e)`. -/
def Request.itemsIn (r : Request H) (s e : Nat) : List (String × Nat) :=
  (r.mmFeatures.filter fun f => decide (f.Overlaps s e)).map fun f => (f.identifier, f.offset)

/-- The prompt-embeddings slice `[s:e]`. -/
def Request.embedsIn (r : Request H) (s e : Nat) : Option PromptEmbeds :=
  r.promptEmbeds.map fun embeds => embeds.slice s e

/-- The bytes of the slice, which is all that is hashed of it. -/
def Request.embedsData (r : Request H) (s e : Nat) : Option (List UInt8) :=
  (r.embedsIn s e).map PromptEmbeds.tensorData

/-- The two requests agree on everything that determines the contents of their
first `n` blocks. -/
structure Agree (bs : Nat) (r₁ r₂ : Request H) (n : Nat) : Prop where
  tokens : r₁.allTokenIds.take (n * bs) = r₂.allTokenIds.take (n * bs)
  lora : r₁.loraName = r₂.loraName
  salt : r₁.cacheSalt = r₂.cacheSalt
  embeds : ∀ k < n, r₁.embedsIn (k * bs) (k * bs + bs) = r₂.embedsIn (k * bs) (k * bs + bs)
  items : ∀ k < n, r₁.itemsIn (k * bs) (k * bs + bs) = r₂.itemsIn (k * bs) (k * bs + bs)

/-- A shared hash sits at one index and certifies agreement up to it. -/
def Isolated (hs : BlockHasher H) (r₁ r₂ : Request H) : Prop :=
  ∀ (i j : Nat) (h : H), (hashFromScratch hs r₁)[i]? = some h →
    (hashFromScratch hs r₂)[j]? = some h → i = j ∧ Agree hs.blockSize r₁ r₂ (i + 1)

/-- LoRA name and salt that give the same strings in the same places although
they are not the same: an empty salt against none, or, with no multimodal item
in the first block, a LoRA name against a salt of that text. -/
def SaltLoraConfusable (bs : Nat) (r₁ r₂ : Request H) : Prop :=
  (r₁.loraName = r₂.loraName ∧ r₁.cacheSalt ≠ r₂.cacheSalt ∧
    r₁.effectiveSalt = none ∧ r₂.effectiveSalt = none) ∨
  (r₁.itemsIn 0 bs = [] ∧ ∃ x,
    (r₁.loraName = some x ∧ r₁.effectiveSalt = none ∧
      r₂.loraName = none ∧ r₂.effectiveSalt = some x) ∨
    (r₂.loraName = some x ∧ r₂.effectiveSalt = none ∧
      r₁.loraName = none ∧ r₁.effectiveSalt = some x))

/-- The first `n` blocks of both requests are full, of the same tokens, the same
items and the same bytes of embeddings. -/
structure LookAlike (bs : Nat) (r₁ r₂ : Request H) (n : Nat) : Prop where
  full₁ : n * bs ≤ r₁.numTokens
  full₂ : n * bs ≤ r₂.numTokens
  tokens : r₁.allTokenIds.take (n * bs) = r₂.allTokenIds.take (n * bs)
  items : ∀ k < n, r₁.itemsIn (k * bs) (k * bs + bs) = r₂.itemsIn (k * bs) (k * bs + bs)
  data : ∀ k < n, r₁.embedsData (k * bs) (k * bs + bs) = r₂.embedsData (k * bs) (k * bs + bs)

/-- Two requests whose first blocks look alike and that differ in LoRA name or
salt only in a confusable way; or whose blocks look alike up to one where the
same bytes are slices of another element type or shape. -/
def Confusable (bs : Nat) (r₁ r₂ : Request H) : Prop :=
  (LookAlike bs r₁ r₂ 1 ∧ SaltLoraConfusable bs r₁ r₂) ∨
  (r₁.loraName = r₂.loraName ∧ r₁.cacheSalt = r₂.cacheSalt ∧ ∃ k, LookAlike bs r₁ r₂ (k + 1) ∧
    r₁.embedsIn (k * bs) (k * bs + bs) ≠ r₂.embedsIn (k * bs) (k * bs + bs))

/-! ## The tuple of one block -/

/-- The keys of a tuple by kind. -/
def ExtraKey.asStr : ExtraKey → Option String
  | .str s => some s
  | _ => none

def ExtraKey.asMm : ExtraKey → Option (String × Int)
  | .mm i o => some (i, o)
  | _ => none

def ExtraKey.asDigest : ExtraKey → Option (List UInt8)
  | .digest d => some d
  | _ => none

/-- The tuple built from a LoRA name, multimodal keys, a salt and a digest. -/
def keyTuple (lora : Option String) (mms : List (String × Int)) (salt : Option String)
    (dig : Option (List UInt8)) : List ExtraKey :=
  lora.toList.map .str ++ mms.map (fun p => .mm p.1 p.2) ++ salt.toList.map .str
    ++ dig.toList.map .digest

/-- A view that skips the multimodal keys. -/
theorem keyTuple_filterMap {α : Type} {f : ExtraKey → Option α} (hf : ∀ p : String × Int, f (.mm p.1 p.2) = none)
    (lora : Option String) (mms : List (String × Int)) (salt : Option String) (dig : Option (List UInt8)) :
    (keyTuple lora mms salt dig).filterMap f = (keyTuple lora [] salt dig).filterMap f := by
  have hmm : (mms.map fun p => ExtraKey.mm p.1 p.2).filterMap f = [] := by
    rw [List.filterMap_map, List.filterMap_eq_nil_iff]
    exact fun p _ => hf p
  simp only [keyTuple, List.filterMap_append, hmm, List.map_nil, List.filterMap_nil]

theorem keyTuple_asStr (lora : Option String) (mms : List (String × Int)) (salt : Option String)
    (dig : Option (List UInt8)) :
    (keyTuple lora mms salt dig).filterMap ExtraKey.asStr = lora.toList ++ salt.toList := by
  rw [keyTuple_filterMap fun _ => rfl]
  cases lora <;> cases salt <;> cases dig <;> rfl

theorem keyTuple_asMm (lora : Option String) (mms : List (String × Int)) (salt : Option String)
    (dig : Option (List UInt8)) :
    (keyTuple lora mms salt dig).filterMap ExtraKey.asMm = mms := by
  have hmm : (mms.map fun p => ExtraKey.mm p.1 p.2).filterMap ExtraKey.asMm = mms := by
    rw [List.filterMap_map]
    exact List.filterMap_some
  have hstr : ∀ o : Option String, (o.toList.map ExtraKey.str).filterMap ExtraKey.asMm = [] := by
    intro o
    cases o <;> rfl
  have hdig : (dig.toList.map ExtraKey.digest).filterMap ExtraKey.asMm = [] := by
    cases dig <;> rfl
  rw [keyTuple, List.filterMap_append, List.filterMap_append, List.filterMap_append, hmm,
    hstr, hstr, hdig, List.nil_append, List.append_nil, List.append_nil]

theorem keyTuple_asDigest (lora : Option String) (mms : List (String × Int))
    (salt : Option String) (dig : Option (List UInt8)) :
    (keyTuple lora mms salt dig).filterMap ExtraKey.asDigest = dig.toList := by
  rw [keyTuple_filterMap fun _ => rfl]
  cases lora <;> cases salt <;> cases dig <;> rfl

/-- **When two tuples are equal.** The swapped case leaves a LoRA name at the
head of one tuple and a salt at the head of the other, so it needs an empty
multimodal part. -/
theorem keyTuple_eq_iff {l₁ l₂ s₁ s₂ : Option String} {m₁ m₂ : List (String × Int)}
    {d₁ d₂ : Option (List UInt8)} :
    keyTuple l₁ m₁ s₁ d₁ = keyTuple l₂ m₂ s₂ d₂ ↔
      m₁ = m₂ ∧ d₁ = d₂ ∧ ((l₁ = l₂ ∧ s₁ = s₂) ∨
        (m₁ = [] ∧ ∃ x, (l₁ = some x ∧ s₁ = none ∧ l₂ = none ∧ s₂ = some x) ∨
          (l₂ = some x ∧ s₂ = none ∧ l₁ = none ∧ s₁ = some x))) := by
  constructor
  · intro h
    have hm : m₁ = m₂ := by
      rw [← keyTuple_asMm l₁ m₁ s₁ d₁, h, keyTuple_asMm]
    have hd : d₁.toList = d₂.toList := by
      rw [← keyTuple_asDigest l₁ m₁ s₁ d₁, h, keyTuple_asDigest]
    have hs : l₁.toList ++ s₁.toList = l₂.toList ++ s₂.toList := by
      rw [← keyTuple_asStr l₁ m₁ s₁ d₁, h, keyTuple_asStr]
    refine ⟨hm, by cases d₁ <;> cases d₂ <;> simp_all, ?_⟩
    subst hm
    -- with a multimodal key present, the heads show which tuples start with a LoRA name
    have hhead : m₁ ≠ [] → (l₁ = none ↔ l₂ = none) := by
      intro hne
      obtain ⟨p, ps, rfl⟩ := List.exists_cons_of_ne_nil hne
      have h0 := congrArg List.head? h
      cases l₁ <;> cases l₂ <;> simp [keyTuple] at h0 ⊢
    cases l₁ <;> cases l₂ <;> cases s₁ <;> cases s₂ <;> simp_all
  · rintro ⟨rfl, rfl, ⟨rfl, rfl⟩ | ⟨rfl, x, ⟨rfl, rfl, rfl, rfl⟩ | ⟨rfl, rfl, rfl, rfl⟩⟩⟩
    · rfl
    · rfl
    · rfl

/-- The multimodal part of a tuple, by identifier and offset from `s`. -/
def relItems (r : Request H) (s e : Nat) : List (String × Int) :=
  (r.itemsIn s e).map fun p => (p.1, (p.2 : Int) - s)

variable {r₁ r₂ : Request H} {hs : BlockHasher H}

theorem relItems_inj {s e : Nat} :
    relItems r₁ s e = relItems r₂ s e ↔ r₁.itemsIn s e = r₂.itemsIn s e := by
  have hinj : Function.Injective fun p : String × Nat => (p.1, (p.2 : Int) - s) := by
    intro p q h
    obtain ⟨h1, h2⟩ := Prod.mk.inj h
    exact Prod.ext h1 (by omega)
  exact List.map_inj_right hinj |>.trans Iff.rfl

theorem relItems_eq_nil {r : Request H} {s e : Nat} : relItems r s e = [] ↔ r.itemsIn s e = [] := by
  rw [relItems, List.map_eq_nil_iff]

/-- The tuple of a block, with the salt in the first block only. -/
theorem trueExtraKeys_eq (hs : BlockHasher H) (r : Request H) (s e : Nat) :
    trueExtraKeys hs r s e = packExtraKeys (keyTuple r.loraName (relItems r s e)
      (if s = 0 then r.effectiveSalt else none) ((r.embedsData s e).map hs.sha256)) := by
  have hlora : genLoraExtraHashKeys r = r.loraName.toList.map .str := by
    rw [genLoraExtraHashKeys, Request.loraName]
    cases r.loraRequest <;> rfl
  have hmm : overlapKeys r.mmFeatures s e = (relItems r s e).map fun p => .mm p.1 p.2 := by
    rw [overlapKeys, relItems, Request.itemsIn, List.map_map, List.map_map]
    rfl
  have hsalt : genCacheSaltKeys r s
      = (if s = 0 then r.effectiveSalt else none).toList.map .str := by
    rw [genCacheSaltKeys, Request.effectiveSalt]
    cases r.cacheSalt with
    | none => by_cases h0 : s = 0 <;> simp [h0]
    | some x => by_cases h0 : s = 0 <;> by_cases hx : x = "" <;> simp [h0, hx]
  have hemb : genPromptEmbedsExtraHashKeys hs r s e
      = ((r.embedsData s e).map hs.sha256).toList.map .digest := by
    rw [genPromptEmbedsExtraHashKeys, Request.embedsData, Request.embedsIn]
    cases r.promptEmbeds <;> rfl
  rw [trueExtraKeys, hlora, hmm, hsalt, hemb, keyTuple]

theorem packExtraKeys_inj {k₁ k₂ : List ExtraKey} :
    packExtraKeys k₁ = packExtraKeys k₂ ↔ k₁ = k₂ := by
  unfold packExtraKeys
  by_cases h1 : k₁ = [] <;> by_cases h2 : k₂ = [] <;> simp [h1, h2, eq_comm]

/-- Equal extra keys of one block give equal items and equal bytes of embeddings. -/
theorem items_data_of_keys_eq (hcf : CollisionFree hs) {s e : Nat}
    (h : trueExtraKeys hs r₁ s e = trueExtraKeys hs r₂ s e) :
    r₁.itemsIn s e = r₂.itemsIn s e ∧ r₁.embedsData s e = r₂.embedsData s e := by
  rw [trueExtraKeys_eq, trueExtraKeys_eq, packExtraKeys_inj, keyTuple_eq_iff] at h
  obtain ⟨hm, hd, -⟩ := h
  exact ⟨relItems_inj.mp hm, Option.map_injective hcf.sha256_inj hd⟩

/-- Behind the first block no salt is hashed: the LoRA name, the items and the
bytes decide the extra keys. -/
theorem laterBlock_keys_eq {s e : Nat} (hs0 : s ≠ 0) (hlora : r₁.loraName = r₂.loraName)
    (hitems : r₁.itemsIn s e = r₂.itemsIn s e) (hdata : r₁.embedsData s e = r₂.embedsData s e) :
    trueExtraKeys hs r₁ s e = trueExtraKeys hs r₂ s e := by
  rw [trueExtraKeys_eq, trueExtraKeys_eq, if_neg hs0, if_neg hs0, hlora, hdata,
    relItems_inj.mpr hitems]

/-- Equal effective salts are equal salts, or two salts that both count as
absent. -/
theorem effectiveSalt_eq_iff :
    r₁.effectiveSalt = r₂.effectiveSalt ↔ r₁.cacheSalt = r₂.cacheSalt ∨
      (r₁.cacheSalt ≠ r₂.cacheSalt ∧ r₁.effectiveSalt = none ∧ r₂.effectiveSalt = none) := by
  unfold Request.effectiveSalt
  constructor
  · intro h
    by_cases heq : r₁.cacheSalt = r₂.cacheSalt
    · exact Or.inl heq
    · refine Or.inr ⟨heq, ?_⟩
      cases h1 : r₁.cacheSalt <;> cases h2 : r₂.cacheSalt <;> simp_all
      grind
  · rintro (h | ⟨-, h1, h2⟩)
    · rw [h]
    · rw [h1, h2]

/-- The extra keys of the first block: they agree on LoRA name and salt, or
these are confusable. -/
theorem firstBlock_keys_eq_iff (hcf : CollisionFree hs) {bs : Nat} :
    trueExtraKeys hs r₁ 0 bs = trueExtraKeys hs r₂ 0 bs ↔
      r₁.itemsIn 0 bs = r₂.itemsIn 0 bs ∧ r₁.embedsData 0 bs = r₂.embedsData 0 bs ∧
      ((r₁.loraName = r₂.loraName ∧ r₁.cacheSalt = r₂.cacheSalt) ∨
        SaltLoraConfusable bs r₁ r₂) := by
  rw [trueExtraKeys_eq, trueExtraKeys_eq, packExtraKeys_inj, keyTuple_eq_iff, if_pos rfl, if_pos rfl,
    relItems_inj, relItems_eq_nil, (Option.map_injective hcf.sha256_inj).eq_iff,
    SaltLoraConfusable]
  rw [effectiveSalt_eq_iff, and_or_left (a := r₁.loraName = r₂.loraName), or_assoc]

/-! ## The chain -/

theorem hashFromScratch_length {r : Request H} (hbs : 0 < hs.blockSize)
    (hsd : SortedDisjoint r.mmFeatures) :
    (hashFromScratch hs r).length = r.numTokens / hs.blockSize := by
  rw [hashFromScratch_eq hbs hsd, trueHashes, hashesUpTo_length]

/-- Lists that agree block by block agree on the blocks together. -/
theorem take_eq_of_blocks_eq {α : Type} {bs : Nat} {l₁ l₂ : List α} :
    ∀ n : Nat, (∀ k < n, (l₁.take (k * bs + bs)).drop (k * bs)
        = (l₂.take (k * bs + bs)).drop (k * bs)) → l₁.take (n * bs) = l₂.take (n * bs) := by
  intro n
  induction n with
  | zero => intro _; simp
  | succ n ih =>
    intro h
    have hblock := h n (Nat.lt_succ_self n)
    rw [List.drop_take, List.drop_take, Nat.add_sub_cancel_left] at hblock
    rw [Nat.succ_mul, List.take_add, List.take_add,
      ih (fun k hk => h k (Nat.lt_succ_of_lt hk)), hblock]

/-- A shared hash gives equal payloads in every block up to it. -/
theorem payload_eq_of_hash_eq (hcf : CollisionFree hs) (hbs : 0 < hs.blockSize)
    (hsd₁ : SortedDisjoint r₁.mmFeatures) (hsd₂ : SortedDisjoint r₂.mmFeatures) {i j : Nat} {h : H}
    (hi : (hashFromScratch hs r₁)[i]? = some h) (hj : (hashFromScratch hs r₂)[j]? = some h) :
    i = j ∧ ∀ k < i + 1, blockPayload hs r₁ k = blockPayload hs r₂ k := by
  obtain ⟨hi', -⟩ := List.getElem?_eq_some_iff.mp hi
  obtain ⟨hj', -⟩ := List.getElem?_eq_some_iff.mp hj
  rw [hashFromScratch_length hbs hsd₁] at hi'
  rw [hashFromScratch_length hbs hsd₂] at hj'
  rw [hashFromScratch_eq hbs hsd₁, trueHashes, hashesUpTo] at hi
  rw [hashFromScratch_eq hbs hsd₂, trueHashes, hashesUpTo] at hj
  have hstep : ∀ a p b q, chainStep hs a p = chainStep hs b q → a = b ∧ p = q := by
    intro a p b q hpq
    obtain ⟨hab, hp⟩ := Prod.mk.inj (hcf.hash_inj hpq)
    exact ⟨hab, hp⟩
  obtain ⟨rfl, htake⟩ := chain_inj hstep (fun a p => hcf.noneHash_fresh _)
    (by simpa using hi') (by simpa using hj') (hi.trans hj.symm)
  refine ⟨rfl, fun k hk => ?_⟩
  have hk' := congrArg (fun l => l[k]?) htake
  simpa [List.getElem?_take, hk, show k < r₁.numTokens / hs.blockSize by omega,
    show k < r₂.numTokens / hs.blockSize by omega] using hk'

/-- Requests with equal payloads up to a full block share its hash. -/
theorem hash_eq_of_payload_eq (hbs : 0 < hs.blockSize) (hsd₁ : SortedDisjoint r₁.mmFeatures)
    (hsd₂ : SortedDisjoint r₂.mmFeatures) {k : Nat} (hfull₁ : (k + 1) * hs.blockSize ≤ r₁.numTokens)
    (hfull₂ : (k + 1) * hs.blockSize ≤ r₂.numTokens)
    (hpay : ∀ j < k + 1, blockPayload hs r₁ j = blockPayload hs r₂ j) :
    ∃ h, (hashFromScratch hs r₁)[k]? = some h ∧ (hashFromScratch hs r₂)[k]? = some h := by
  have hk : ∀ {r : Request H}, SortedDisjoint r.mmFeatures → (k + 1) * hs.blockSize ≤ r.numTokens →
      (hashFromScratch hs r)[k]? = some ((((List.range (k + 1)).map (blockPayload hs r))).foldl
        (chainStep hs) hs.noneHash) := by
    intro r hsd hfull
    have hlt : k < r.numTokens / hs.blockSize := (Nat.le_div_iff_mul_le hbs).mpr hfull
    rw [hashFromScratch_eq hbs hsd, trueHashes, hashesUpTo,
      chain_getElem? _ _ _ _ (by simpa using hlt), ← List.map_take, List.take_range,
      Nat.min_eq_left hlt]
  refine ⟨_, hk hsd₁ hfull₁, ?_⟩
  rw [hk hsd₂ hfull₂, List.map_congr_left fun j hj => hpay j (List.mem_range.mp hj)]

/-- Requests that look alike have the same payloads, when their first extra keys
are the same. -/
theorem LookAlike.payload_eq {n : Nat} (h : LookAlike hs.blockSize r₁ r₂ n)
    (hfirst : trueExtraKeys hs r₁ 0 hs.blockSize = trueExtraKeys hs r₂ 0 hs.blockSize)
    (hlora : 1 < n → r₁.loraName = r₂.loraName) (hbs : 0 < hs.blockSize) :
    ∀ j < n, blockPayload hs r₁ j = blockPayload hs r₂ j := by
  intro j hj
  have hle : j * hs.blockSize + hs.blockSize ≤ n * hs.blockSize := by
    rw [← Nat.succ_mul]
    exact Nat.mul_le_mul_right _ hj
  have htokens : r₁.blockTokens (j * hs.blockSize) (j * hs.blockSize + hs.blockSize)
      = r₂.blockTokens (j * hs.blockSize) (j * hs.blockSize + hs.blockSize) := by
    have htake := congrArg (List.take (j * hs.blockSize + hs.blockSize)) h.tokens
    rw [List.take_take, List.take_take, Nat.min_eq_left hle] at htake
    rw [Request.blockTokens, Request.blockTokens, htake]
  have hkeys : trueExtraKeys hs r₁ (j * hs.blockSize) (j * hs.blockSize + hs.blockSize)
      = trueExtraKeys hs r₂ (j * hs.blockSize) (j * hs.blockSize + hs.blockSize) := by
    cases j with
    | zero =>
      rw [Nat.zero_mul, Nat.zero_add]
      exact hfirst
    | succ j =>
      have hne : (j + 1) * hs.blockSize ≠ 0 := Nat.mul_ne_zero (Nat.succ_ne_zero j) hbs.ne'
      exact laterBlock_keys_eq hne (hlora (Nat.lt_of_le_of_lt (Nat.succ_pos j) hj))
        (h.items _ hj) (h.data _ hj)
  rw [blockPayload, blockPayload, htokens, hkeys]

/-- The first block of requests that look alike. -/
theorem LookAlike.first {n : Nat} {bs : Nat} (h : LookAlike bs r₁ r₂ n) (hn : 0 < n) :
    r₁.itemsIn 0 bs = r₂.itemsIn 0 bs ∧ r₁.embedsData 0 bs = r₂.embedsData 0 bs := by
  have hitems := h.items 0 hn
  have hdata := h.data 0 hn
  rw [Nat.zero_mul, Nat.zero_add] at hitems hdata
  exact ⟨hitems, hdata⟩

/-- A shared hash makes the blocks up to it look alike, and their first extra
keys the same. -/
theorem lookAlike_of_hash_eq (hcf : CollisionFree hs) (hbs : 0 < hs.blockSize)
    (hsd₁ : SortedDisjoint r₁.mmFeatures) (hsd₂ : SortedDisjoint r₂.mmFeatures) {i j : Nat} {h : H}
    (hi : (hashFromScratch hs r₁)[i]? = some h) (hj : (hashFromScratch hs r₂)[j]? = some h) :
    i = j ∧ (∀ n ≤ i + 1, LookAlike hs.blockSize r₁ r₂ n) ∧
      trueExtraKeys hs r₁ 0 hs.blockSize = trueExtraKeys hs r₂ 0 hs.blockSize := by
  obtain ⟨rfl, hpay⟩ := payload_eq_of_hash_eq hcf hbs hsd₁ hsd₂ hi hj
  have hfull : ∀ {r : Request H}, SortedDisjoint r.mmFeatures →
      (hashFromScratch hs r)[i]? = some h → (i + 1) * hs.blockSize ≤ r.numTokens := by
    intro r hsd hr
    obtain ⟨hlt, -⟩ := List.getElem?_eq_some_iff.mp hr
    rw [hashFromScratch_length hbs hsd] at hlt
    exact (Nat.le_div_iff_mul_le hbs).mp hlt
  have hparts := fun k hk => Prod.mk.inj (hpay k hk)
  have hseen := fun k hk => items_data_of_keys_eq hcf (hparts k hk).2
  refine ⟨rfl, fun n hn => ?_, ?_⟩
  · have hle : n * hs.blockSize ≤ (i + 1) * hs.blockSize := Nat.mul_le_mul_right _ hn
    exact { full₁ := Nat.le_trans hle (hfull hsd₁ hi)
            full₂ := Nat.le_trans hle (hfull hsd₂ hj)
            tokens := take_eq_of_blocks_eq n fun k hk => (hparts k (Nat.lt_of_lt_of_le hk hn)).1
            items := fun k hk => (hseen k (Nat.lt_of_lt_of_le hk hn)).1
            data := fun k hk => (hseen k (Nat.lt_of_lt_of_le hk hn)).2 }
  · have hkeys := (hparts 0 (Nat.succ_pos i)).2
    rw [Nat.zero_mul, Nat.zero_add] at hkeys
    exact hkeys

/-- **Isolation, exactly.** Under a collision-free hash, two requests with
sorted disjoint features are isolated from each other if and only if they are
not confusable. -/
theorem isolated_iff {hs : BlockHasher H} (hcf : CollisionFree hs) (hbs : 0 < hs.blockSize)
    {r₁ r₂ : Request H} (hsd₁ : SortedDisjoint r₁.mmFeatures)
    (hsd₂ : SortedDisjoint r₂.mmFeatures) :
    Isolated hs r₁ r₂ ↔ ¬ Confusable hs.blockSize r₁ r₂ := by
  constructor
  · -- the shared hash of a confusable pair contradicts isolation
    rintro hiso (⟨halike, hconf⟩ | ⟨hlora, hsalt, k, halike, hne⟩)
    · obtain ⟨hitems, hdata⟩ := halike.first Nat.one_pos
      have hfirst := (firstBlock_keys_eq_iff hcf).mpr ⟨hitems, hdata, Or.inr hconf⟩
      obtain ⟨h, h₁, h₂⟩ := hash_eq_of_payload_eq hbs hsd₁ hsd₂ halike.full₁ halike.full₂
        (halike.payload_eq hfirst (fun hlt => absurd hlt (Nat.lt_irrefl 1)) hbs)
      obtain ⟨-, hagree⟩ := hiso 0 0 h h₁ h₂
      rcases hconf with ⟨-, hne, -⟩ | ⟨-, x, ⟨hl₁, -, hl₂, -⟩ | ⟨hl₂, -, hl₁, -⟩⟩
      · exact hne hagree.salt
      · simpa [hl₁, hl₂] using hagree.lora
      · simpa [hl₁, hl₂] using hagree.lora
    · obtain ⟨hitems, hdata⟩ := halike.first (Nat.succ_pos k)
      have hfirst := (firstBlock_keys_eq_iff hcf).mpr ⟨hitems, hdata, Or.inl ⟨hlora, hsalt⟩⟩
      obtain ⟨h, h₁, h₂⟩ := hash_eq_of_payload_eq hbs hsd₁ hsd₂ halike.full₁ halike.full₂
        (halike.payload_eq hfirst (fun _ => hlora) hbs)
      obtain ⟨-, hagree⟩ := hiso k k h h₁ h₂
      exact hne (hagree.embeds k (Nat.lt_succ_self k))
  · intro hnc i j h hi hj
    obtain ⟨rfl, halike, hfirst⟩ := lookAlike_of_hash_eq hcf hbs hsd₁ hsd₂ hi hj
    refine ⟨rfl, ?_⟩
    -- the first block decides LoRA name and salt
    obtain ⟨-, -, ⟨hlora, hsalt⟩ | hconf⟩ := (firstBlock_keys_eq_iff hcf).mp hfirst
    · have hall := halike (i + 1) (Nat.le_refl _)
      refine ⟨hall.tokens, hlora, hsalt, fun k hk => ?_, hall.items⟩
      by_contra hne
      exact hnc (Or.inr ⟨hlora, hsalt, k, halike (k + 1) hk, hne⟩)
    · exact absurd (Or.inl ⟨halike 1 (Nat.succ_le_succ (Nat.zero_le i)), hconf⟩) hnc

/-! ## A LoRA name against a salt -/

/-- Four tokens under adapter `x`. -/
def loraTwin : Request Digest :=
  .fresh { plainPrompt "a" [1, 2, 3, 4] with loraRequest := some ⟨"x", 1⟩ } 4 16 .waiting

/-- The same tokens, no adapter, salted `x`. -/
def saltTwin : Request Digest :=
  .fresh { plainPrompt "b" [1, 2, 3, 4] with cacheSalt := some "x" } 4 16 .waiting

/-- Two tenants share a block: the adapter's name and the salt are the same
one-entry tuple. -/
theorem loraTwin_not_isolated :
    ¬ ∀ (hs : BlockHasher Digest) (r₁ r₂ : Request Digest), CollisionFree hs →
      0 < hs.blockSize → SortedDisjoint r₁.mmFeatures → SortedDisjoint r₂.mmFeatures →
      Isolated hs r₁ r₂ := by
  intro h
  have hiso := h (freeHasher 4) loraTwin saltTwin (freeHasher_collisionFree 4) (by decide)
    List.Pairwise.nil List.Pairwise.nil
  have heq : (hashFromScratch (freeHasher 4) loraTwin)[0]?
      = (hashFromScratch (freeHasher 4) saltTwin)[0]? := by decide
  obtain ⟨-, hagree⟩ := hiso 0 0 _ heq (by rfl)
  exact absurd hagree.lora (by decide)

/-- Four positions of embeddings of two bytes each, under adapter `x`. -/
def embedsTwin (requestId : ReqId) (dtype : EmbedDtype) (last : UInt8) : Request Digest :=
  .fresh { plainPrompt requestId [0, 0, 0, 0] with
    promptEmbeds := some ⟨dtype, [[0, 1], [2, 3], [4, 5], [6, last]]⟩
    loraRequest := some ⟨"x", 1⟩ } 4 16 .waiting

/-- The same bytes of two element types share a block as well. -/
example : (hashFromScratch (freeHasher 4) (embedsTwin "d" .bfloat16 7))[0]?
    = (hashFromScratch (freeHasher 4) (embedsTwin "e" .float16 7))[0]? := by decide

/-- Other bytes do not. -/
theorem embedsTwin_isolated :
    Isolated (freeHasher 4) (embedsTwin "d" .bfloat16 7) (embedsTwin "e" .float16 8) := by
  have hsd : ∀ id dtype last, SortedDisjoint (embedsTwin id dtype last).mmFeatures :=
    fun _ _ _ => List.Pairwise.nil
  refine (isolated_iff (freeHasher_collisionFree 4) (by decide) (hsd _ _ _) (hsd _ _ _)).mpr ?_
  rintro (⟨halike, -⟩ | ⟨-, -, k, halike, -⟩)
  · exact absurd (halike.first Nat.one_pos).2 (by decide)
  · exact absurd (halike.first (Nat.succ_pos k)).2 (by decide)

end VllmEngine
