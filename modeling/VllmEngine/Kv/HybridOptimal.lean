import VllmEngine.Lib.Descent
import VllmEngine.Kv.HybridLookup

/-!
# The hybrid lookup finds the longest acceptable prefix

Each attention type accepts some lengths (`Accepts`): full attention those
whose blocks are all cached, a sliding window those whose last
`cdiv(sliding_window - 1, block_size)` blocks are, mamba those that end in a
cached block. Without eagle every lookup returns the longest aligned length its
type accepts, so a round is a descent pass (`Descent.Pass`) and the loop ends
at the greatest common one. The early exit of a simple hybrid is sound because
full attention accepts every aligned length below one it accepts.

A sliding window of one token needs no earlier block, but its lookup still
insists on one:

> `optimal_iff`: the lookup is optimal and stable for every pool exactly when
> every sliding window spans at least two tokens.
-/

namespace VllmEngine

open HybridCoordinator Descent

variable {H : Type} [DecidableEq H] {c : HybridCoordinator} {p : BlockPool H} {hashes : List H}

/-- The last `k` of the first `m` blocks, or all of them, are cached. -/
def WindowCached (p : BlockPool H) (hs : List (List H)) (gs : List GroupId) (k : Int) (m : Nat) :
    Prop :=
  ∀ i < m, (m : Int) - k ≤ i → CachedAt p hs gs i

/-- The attention type can continue after a prefix of `len` tokens. Only the
types of `isHybridType` accept anything. -/
def Accepts (p : BlockPool H) (hs : List (List H)) (gs : List GroupId) (spec : KVCacheSpec)
    (len : Nat) : Prop :=
  match spec.kind with
  | .fullAttention .. | .tqFullAttention .. | .mlaAttention .. | .sinkFullAttention .. =>
    ∀ i < len / spec.blockSize, CachedAt p hs gs i
  | .slidingWindow _ w =>
    WindowCached p hs gs (Python.cdiv ((w : Int) - 1) spec.blockSize) (len / spec.blockSize)
  | .mamba _ => len = 0 ∨ CachedAt p hs gs (len / spec.blockSize - 1)
  | .chunkedLocalAttention .. | .crossAttention .. => False

/-- The window reaches back at least one token. -/
def KVCacheSpec.wideWindow (s : KVCacheSpec) : Prop :=
  match s.kind with
  | .slidingWindow _ w => 2 ≤ w
  | _ => True

instance (s : KVCacheSpec) : Decidable s.wideWindow := by
  unfold KVCacheSpec.wideWindow
  split <;> infer_instance

/-- Aligned lengths that the type accepts. -/
def AcceptsAligned (p : BlockPool H) (hs : List (List H)) (gs : List GroupId) (spec : KVCacheSpec)
    (align len : Nat) : Prop :=
  align ∣ len ∧ Accepts p hs gs spec len

/-! ## Each lookup returns the best length -/

variable {hs : List (List H)} {gs : List GroupId} {align : Nat} {a : AttentionGroup}

theorem fullLookup_best {m bs : Nat} (hbs : 0 < bs) (hdvd : bs ∣ align) :
    IsBest (fun len => align ∣ len ∧ ∀ i < len / bs, CachedAt p hs gs i) m
      ((fullLookup p hs m gs bs false align).length * bs) := by
  have hhit := fullLookup_hitOk p hs m gs bs false align
  refine ⟨hhit.le_max, ⟨hhit.aligned, ?_⟩, ?_⟩
  · rw [Nat.mul_div_cancel _ hbs]
    intro i hi
    obtain ⟨row, hrow⟩ : ∃ row, (fullLookup p hs m gs bs false align)[i]? = some row :=
      ⟨_, List.getElem?_eq_getElem hi⟩
    obtain ⟨h, h1, h2⟩ := scanCached_spec p gs _ i row (getElem?_of_take hrow)
    exact cachedAt_of_some (getElem?_of_take h1) h2
  · rintro x ⟨hal, hx⟩ hle
    have hxb : x / bs * bs = x := Nat.div_mul_cancel (Nat.dvd_trans hdvd hal)
    have hscan : x / bs ≤ (scanCached p gs (hs.take (m / bs))).length := by
      refine le_scanCached_length fun i hi => ?_
      obtain ⟨h, h1, h2⟩ := hx i hi
      refine ⟨h, ?_, h2⟩
      have := Nat.div_le_div_right (c := bs) hle
      rw [List.getElem?_take, if_pos (by omega)]
      exact h1
    have hlen : x / bs ≤ (fullLookup p hs m gs bs false align).length := by
      unfold fullLookup
      dsimp only
      rw [alignRows_length]
      exact le_alignedLen (hxb.symm ▸ hal) _ hscan
    calc x = x / bs * bs := hxb.symm
      _ ≤ _ := Nat.mul_le_mul_right _ hlen

/-- The sliding-window scan from index `i - 1` with a run of `run` cached blocks
from `i` on. Every aligned length up to `i + run` whose window is cached is at
most the length found. -/
theorem slidingScan_best {bs N : Nat} {k : Int} :
    ∀ (i : Nat) (rows : List Row) (run : Nat) {rows' : List Row} {run' : Nat} {found : Bool},
      rows.length = N → i + run ≤ N → ((run : Int) < k) →
      (∀ j, i ≤ j → j < i + run → CachedAt p hs gs j) →
      slidingScan p hs gs bs align k i rows run = .ok (rows', run', found) →
      (found = true → WindowCached p hs gs k rows'.length ∧
        ∀ m ≤ i + run, align ∣ m * bs → WindowCached p hs gs k m → m ≤ rows'.length) ∧
      (found = false → (∀ j < run', CachedAt p hs gs j) ∧
        ∀ m ≤ i + run, align ∣ m * bs → WindowCached p hs gs k m → m ≤ run') := by
  intro i
  induction i with
  | zero =>
    intro rows run rows' run' found _ _ _ hrun h
    rw [slidingScan, Except.ok.injEq, Prod.mk.injEq, Prod.mk.injEq] at h
    obtain ⟨rfl, rfl, rfl⟩ := h
    refine ⟨by simp, fun _ => ⟨fun j hj => hrun j (Nat.zero_le j) (by omega), ?_⟩⟩
    intro m hm _ _
    omega
  | succ i ih =>
    intro rows run rows' run' found hlen hle hk hrun h
    rw [slidingScan] at h
    cases hi : hs[i]? with
    | none => rw [hi] at h; cases h
    | some hash =>
      rw [hi] at h
      dsimp only at h
      cases hr : p.getCachedBlock hash gs with
      | none =>
        rw [hr] at h
        have hmiss := not_cachedAt_of_none hi hr
        obtain ⟨h1, h2⟩ := ih rows 0 hlen (by omega) (by omega)
          (fun j _ _ => by omega) h
        -- a window that ends beyond the miss covers it
        have hcut : ∀ m ≤ i + 1 + run, WindowCached p hs gs k m → m ≤ i + 0 := by
          intro m hm hw
          by_contra hgt
          exact hmiss (hw i (by omega) (by omega))
        exact ⟨fun hf => ⟨(h1 hf).1, fun m hm hal hw => (h1 hf).2 m (hcut m hm hw) hal hw⟩,
          fun hf => ⟨(h2 hf).1, fun m hm hal hw => (h2 hf).2 m (hcut m hm hw) hal hw⟩⟩
      | some row =>
        rw [hr] at h
        dsimp only at h
        by_cases hskip : run = 0 ∧ bs ≠ align ∧ (i + 1) * bs % align ≠ 0
        · rw [if_pos hskip] at h
          obtain ⟨h0, -, hmod⟩ := hskip
          subst h0
          obtain ⟨h1, h2⟩ := ih rows 0 hlen (by omega) hk (fun j _ _ => by omega) h
          -- the skipped index does not end an aligned length
          have hcut : ∀ m ≤ i + 1 + 0, align ∣ m * bs → m ≤ i + 0 := by
            intro m hm hal
            by_contra hgt
            have : m = i + 1 := by omega
            exact hmod (Nat.mod_eq_zero_of_dvd (this ▸ hal))
          exact ⟨fun hf => ⟨(h1 hf).1, fun m hm hal hw => (h1 hf).2 m (hcut m hm hal) hal hw⟩,
            fun hf => ⟨(h2 hf).1, fun m hm hal hw => (h2 hf).2 m (hcut m hm hal) hal hw⟩⟩
        · rw [if_neg hskip] at h
          have hlen' : (rows.set i row).length = N := by rw [List.length_set, hlen]
          have hrun' : ∀ j, i ≤ j → j < i + (run + 1) → CachedAt p hs gs j := by
            intro j hij hj
            by_cases heq : j = i
            · subst heq
              exact cachedAt_of_some hi hr
            · exact hrun j (by omega) (by omega)
          by_cases hfound : ((run + 1 : Nat) : Int) ≥ k
          · rw [if_pos hfound, Except.ok.injEq, Prod.mk.injEq, Prod.mk.injEq] at h
            obtain ⟨rfl, rfl, rfl⟩ := h
            have htake : ((rows.set i row).take (i + (run + 1))).length = i + (run + 1) := by
              rw [List.length_take, hlen']
              omega
            rw [htake]
            refine ⟨fun _ => ⟨?_, fun m hm _ _ => by omega⟩, fun hf => absurd hf.symm Bool.false_ne_true⟩
            intro j hj hwin
            exact hrun' j (by omega) hj
          · rw [if_neg hfound] at h
            have := ih _ (run + 1) hlen' (by omega) (by omega) hrun' h
            rwa [show i + (run + 1) = i + 1 + run by omega] at this

theorem slidingLookup_best {m bs w : Nat} {rows : List Row} (hbs : 0 < bs) (hdvd : bs ∣ align)
    (hw : 2 ≤ w) (h : slidingLookup p hs m gs bs w false align = .ok rows) :
    IsBest (fun len => align ∣ len ∧
      WindowCached p hs gs (Python.cdiv ((w : Int) - 1) bs) (len / bs)) m (rows.length * bs) := by
  have hhit := slidingLookup_hitOk hbs h
  have hk : (0 : Int) < Python.cdiv ((w : Int) - 1) bs := by
    rw [Python.lt_cdiv_iff (by omega)]
    omega
  unfold slidingLookup at h
  simp only [Raises.bind_eq_ok, Raises.pure_eq_ok, Bool.false_eq_true, if_false, false_and,
    Int.add_zero] at h
  obtain ⟨⟨rows₀, run, found⟩, hscan, h⟩ := h
  obtain ⟨-, hrun, -, -, hlen⟩ := slidingScan_spec (N := m / bs) _ _ _
    (rowsOk_replicate_null p hs gs _) (by simp) (by omega) (by omega) hscan
  obtain ⟨hfound, hnot⟩ := slidingScan_best (N := m / bs) _ _ _ (by simp) (by omega)
    (by simpa using hk) (fun j _ hj => by omega) hscan
  -- any accepted length is a number of blocks within the range
  have hblocks : ∀ x, align ∣ x → x ≤ m →
      x / bs * bs = x ∧ x / bs ≤ m / bs + 0 ∧ align ∣ x / bs * bs := by
    intro x hal hle
    have hxb : x / bs * bs = x := Nat.div_mul_cancel (Nat.dvd_trans hdvd hal)
    exact ⟨hxb, Nat.div_le_div_right hle, hxb.symm ▸ hal⟩
  cases found with
  | true =>
    obtain ⟨hwin, hmax⟩ := hfound rfl
    obtain rfl : rows₀ = rows := h
    refine ⟨hhit.le_max, ⟨hhit.aligned, by rw [Nat.mul_div_cancel _ hbs]; exact hwin⟩, ?_⟩
    rintro x ⟨hal, hx⟩ hle
    obtain ⟨hxb, hxm, hxal⟩ := hblocks x hal hle
    exact hxb ▸ Nat.mul_le_mul_right _ (hmax _ hxm hxal hx)
  | false =>
    obtain ⟨hall, hmax⟩ := hnot rfl
    obtain rfl : alignRows bs align (rows₀.take run) = rows := h
    have hrows : (alignRows bs align (rows₀.take run)).length = alignedLen bs align run := by
      rw [alignRows_length, List.length_take, hlen rfl, Nat.min_eq_left hrun]
    refine ⟨hhit.le_max, ⟨hhit.aligned, ?_⟩, ?_⟩
    · rw [Nat.mul_div_cancel _ hbs, hrows]
      intro j hj _
      exact hall j (Nat.lt_of_lt_of_le hj (alignedLen_le _ _ _))
    · rintro x ⟨hal, hx⟩ hle
      obtain ⟨hxb, hxm, hxal⟩ := hblocks x hal hle
      rw [hrows]
      exact hxb ▸ Nat.mul_le_mul_right _ (le_alignedLen hxal run (hmax _ hxm hxal hx))

theorem mambaScan_best {bs : Nat} :
    ∀ (i : Nat) {rows : List Row}, mambaScan p hs gs bs align i = .ok rows →
      (rows.length = 0 ∨ CachedAt p hs gs (rows.length - 1)) ∧
        ∀ m ≤ i, align ∣ m * bs → (m = 0 ∨ CachedAt p hs gs (m - 1)) → m ≤ rows.length := by
  intro i
  induction i with
  | zero =>
    intro rows h
    rw [mambaScan, Except.ok.injEq] at h
    subst h
    exact ⟨Or.inl rfl, fun m hm _ _ => hm⟩
  | succ i ih =>
    intro rows h
    -- a length that fails at this index is found further left
    have hleft : ∀ {rows'}, mambaScan p hs gs bs align i = .ok rows' →
        ¬ (align ∣ (i + 1) * bs ∧ CachedAt p hs gs i) →
        (rows'.length = 0 ∨ CachedAt p hs gs (rows'.length - 1)) ∧
        ∀ m ≤ i + 1, align ∣ m * bs → (m = 0 ∨ CachedAt p hs gs (m - 1)) → m ≤ rows'.length := by
      intro rows' h' hno
      obtain ⟨h1, h2⟩ := ih h'
      refine ⟨h1, fun m hm hal hc => ?_⟩
      by_cases heq : m = i + 1
      · subst heq
        rcases hc with h0 | hc
        · omega
        · exact absurd ⟨hal, hc⟩ hno
      · exact h2 m (by omega) hal hc
    rw [mambaScan] at h
    cases hi : hs[i]? with
    | none => rw [hi] at h; cases h
    | some hash =>
      rw [hi] at h
      dsimp only at h
      cases hr : p.getCachedBlock hash gs with
      | none =>
        rw [hr] at h
        exact hleft h fun hc => not_cachedAt_of_none hi hr hc.2
      | some row =>
        rw [hr] at h
        dsimp only at h
        by_cases hskip : bs ≠ align ∧ (i + 1) * bs % align ≠ 0
        · rw [if_pos hskip] at h
          exact hleft h fun hc => hskip.2 (Nat.mod_eq_zero_of_dvd hc.1)
        · rw [if_neg hskip, Except.ok.injEq] at h
          subst h
          have hlen : (List.replicate i (nullRow gs) ++ [row]).length = i + 1 := by simp
          rw [hlen]
          exact ⟨Or.inr (cachedAt_of_some hi hr), fun m hm _ _ => hm⟩

/-- **Every lookup is optimal for its type**, without eagle and with windows
that reach back at least one token. -/
theorem findLongestCacheHit_best {m : Nat} {spec : KVCacheSpec} {rows : List Row}
    (hbs : 0 < spec.blockSize) (hdvd : spec.blockSize ∣ align) (hkind : spec.isHybridType = true)
    (hwide : spec.wideWindow) (h : findLongestCacheHit p hs m gs spec false align = .ok rows) :
    IsBest (AcceptsAligned p hs gs spec align) m (rows.length * spec.blockSize) := by
  have hhit := findLongestCacheHit_hitOk hbs h
  unfold findLongestCacheHit at h
  unfold AcceptsAligned Accepts
  unfold KVCacheSpec.isHybridType at hkind
  unfold KVCacheSpec.wideWindow at hwide
  cases hk : spec.kind with
  | fullAttention | tqFullAttention | mlaAttention | sinkFullAttention =>
    rw [hk] at h
    obtain rfl := Except.ok.inj h
    exact fullLookup_best hbs hdvd
  | chunkedLocalAttention | crossAttention => rw [hk] at hkind; cases hkind
  | slidingWindow a w =>
    rw [hk] at h hwide
    exact slidingLookup_best hbs hdvd hwide h
  | mamba f =>
    rw [hk] at h
    obtain ⟨hmem, hmax⟩ := mambaScan_best _ h
    refine ⟨hhit.le_max, ⟨hhit.aligned, ?_⟩, ?_⟩
    · dsimp only
      rw [Nat.mul_div_cancel _ hbs]
      rcases hmem with h0 | hc
      · exact Or.inl (by rw [h0, Nat.zero_mul])
      · exact Or.inr hc
    · rintro x ⟨hal, hx⟩ hle
      have hxb : x / spec.blockSize * spec.blockSize = x :=
        Nat.div_mul_cancel (Nat.dvd_trans hdvd hal)
      have hle' := hmax (x / spec.blockSize) (Nat.div_le_div_right hle) (hxb.symm ▸ hal) (by
        rcases hx with rfl | hc
        · exact Or.inl (Nat.zero_div _)
        · exact Or.inr hc)
      calc x = x / spec.blockSize * spec.blockSize := hxb.symm
        _ ≤ _ := Nat.mul_le_mul_right _ hle'

/-! ## Rounds are passes -/

/-- The lengths an entry of the coordinator accepts. -/
def entrySet (c : HybridCoordinator) (p : BlockPool H) (hashes : List H) (a : AttentionGroup) :
    Nat → Prop :=
  AcceptsAligned p (c.hashesOf hashes a.spec) a.groupIds a.spec c.lcmBlockSize

/-- What the optimality argument asks of a coordinator. -/
structure OptimalSetup (c : HybridCoordinator) : Prop where
  ok : HybridOk c
  kind : ∀ a ∈ c.attentionGroups, a.spec.isHybridType = true
  wide : ∀ a ∈ c.attentionGroups, a.spec.wideWindow
  noEagle : c.useEagle = false

/-- Full attention accepts every aligned length below one it accepts. -/
theorem entrySet_mono (hfull : a.spec.isFullAttention = true) {len len' : Nat}
    (h : entrySet c p hashes a len) (hle : len' ≤ len) (hal : c.lcmBlockSize ∣ len') :
    entrySet c p hashes a len' := by
  refine ⟨hal, ?_⟩
  have hacc := h.2
  have hdiv : len' / a.spec.blockSize ≤ len / a.spec.blockSize := Nat.div_le_div_right hle
  unfold Accepts at hacc ⊢
  unfold KVCacheSpec.isFullAttention at hfull
  cases hk : a.spec.kind with
  | fullAttention | tqFullAttention | mlaAttention | sinkFullAttention =>
    rw [hk] at hacc
    exact fun i hi => hacc i (Nat.lt_of_lt_of_le hi hdiv)
  | chunkedLocalAttention | slidingWindow | mamba | crossAttention => rw [hk] at hfull; cases hfull

/-- A visit returns the entry's best length; a reused full-attention result
accepts the length already. -/
theorem visit_best (hset : OptimalSetup c) (ha : a ∈ c.attentionGroups) {st st' : Hits × Nat}
    (hre : Reused st.1 a → entrySet c p hashes a st.2) (h : c.visitGroup p hashes st a = .ok st') :
    IsBest (entrySet c p hashes a) st.2 st'.2 := by
  have hdvd := hset.ok.dvd_lcm a ha
  rcases visit_cases h with ⟨hr, rfl⟩ | ⟨-, rows, hrows, rfl⟩
  · have hmem := hre hr
    have hcut : st.2 / a.spec.blockSize * a.spec.blockSize = st.2 :=
      Nat.div_mul_cancel (Nat.dvd_trans hdvd hmem.1)
    dsimp only
    rw [hcut]
    exact ⟨Nat.le_refl _, hmem, fun x _ hx => hx⟩
  · rw [hset.noEagle] at hrows
    exact findLongestCacheHit_best (hset.ok.blockSize_pos a ha) hdvd (hset.kind a ha)
      (hset.wide a ha) hrows

/-- A round over entries whose reused results accept the current length is a
pass through their sets. -/
theorem round_pass (hset : OptimalSetup c) :
    ∀ (as : List AttentionGroup) (hits : Hits) (curr : Nat) (hits' : Hits) (curr' : Nat),
      (∀ a ∈ as, a ∈ c.attentionGroups) → as.Nodup →
      (∀ a ∈ as, Reused hits a → entrySet c p hashes a curr) →
      as.foldlM (c.visitGroup p hashes) (hits, curr) = .ok (hits', curr') →
      Pass (as.map (entrySet c p hashes)) curr curr' := by
  intro as
  induction as with
  | nil =>
    intro hits curr hits' curr' _ _ _ h
    obtain ⟨-, rfl⟩ := Prod.mk.inj (Raises.foldlM_nil_ok.mp h)
    exact Pass.nil curr
  | cons a as ih =>
    intro hits curr hits' curr' hmem hnodup hre h
    obtain ⟨⟨hits₁, curr₁⟩, h₁, h₂⟩ := Raises.foldlM_cons_ok.mp h
    have ha := hmem a List.mem_cons_self
    have hmem' : ∀ b ∈ as, b ∈ c.attentionGroups := fun b hb => hmem b (List.mem_cons_of_mem a hb)
    obtain ⟨hnotin, hnodup'⟩ := List.nodup_cons.mp hnodup
    have hbest : IsBest (entrySet c p hashes a) curr curr₁ :=
      visit_best hset ha (hre a List.mem_cons_self) h₁
    refine Pass.cons hbest (ih hits₁ curr₁ hits' curr' hmem' hnodup' ?_ h₂)
    intro b hb hr
    have hr' : Reused hits b := by
      refine (reused_congr fun g hg => visit_frame h₁ ?_).mp hr
      intro hga
      exact hnotin (hset.ok.split.eq_of_mem (hmem' b hb) ha hg hga ▸ hb)
    exact entrySet_mono hr.1 (hre b (List.mem_cons_of_mem a hb) hr') hbest.le hbest.mem.1

/-! ## The loop finds the greatest common length -/

/-- Lengths that every entry accepts. -/
def commonSet (c : HybridCoordinator) (p : BlockPool H) (hashes : List H) (len : Nat) : Prop :=
  ∀ a ∈ c.attentionGroups, entrySet c p hashes a len

/-- Every full-attention entry accepts the length at the end of a pass. -/
theorem pass_full {hit curr : Nat}
    (hpass : Pass (c.attentionGroups.map (entrySet c p hashes)) hit curr)
    (hal : c.lcmBlockSize ∣ curr) (ha : a ∈ c.attentionGroups)
    (hfull : a.spec.isFullAttention = true) : entrySet c p hashes a curr := by
  obtain ⟨v, hle, -, hv⟩ := hpass.exists_mem _ (List.mem_map.mpr ⟨a, ha, rfl⟩)
  exact entrySet_mono hfull hv hle hal

/-- One pass suffices for a simple hybrid: the second entry accepts the length
it returns, and full attention accepts every aligned length below its own. -/
theorem simple_common (hs : c.isSimpleHybrid = true) {hit curr : Nat}
    (hpass : Pass (c.attentionGroups.map (entrySet c p hashes)) hit curr)
    (hal : c.lcmBlockSize ∣ curr) : commonSet c p hashes curr := by
  obtain ⟨htwo, hfull⟩ := of_decide_eq_true hs
  intro a ha
  match hg : c.attentionGroups, htwo with
  | [a₁, a₂], _ =>
    rw [hg, List.head?_cons, Option.map_some, Option.some.injEq] at hfull
    have ha' : a = a₁ ∨ a = a₂ := by simpa [hg] using ha
    rcases ha' with rfl | rfl
    · exact pass_full hpass hal ha hfull
    · rw [hg] at hpass
      cases hpass with
      | cons _ hp =>
        cases hp with
        | cons hb hp =>
          cases hp
          exact hb.mem

theorem hitLoop_best (hset : OptimalSetup c) :
    ∀ (bound : Nat) (hits : Hits) (hit : Nat) {hits' : Hits} {hit' : Nat}, hit ≤ bound →
      (∀ a ∈ c.attentionGroups, Reused hits a → entrySet c p hashes a hit) →
      LoopInv c p hashes hits hit →
      c.hitLoop p hashes bound hits hit = .ok (hits', hit') →
      IsBest (commonSet c p hashes) hit hit' := by
  intro bound
  induction bound with
  | zero =>
    intro hits hit hits' hit' hb hre hinv h
    simp only [hitLoop, Raises.bind_eq_ok, Raises.pure_eq_ok] at h
    obtain ⟨⟨hits₁, curr⟩, hround, heq⟩ := h
    obtain ⟨rfl, rfl⟩ := Prod.mk.inj heq
    have hpass := round_pass hset _ _ _ _ _ (fun a ha => ha) (attentionGroups_nodup hset.ok) hre hround
    have hcurr : curr = hit := by
      have := hpass.le
      omega
    refine ⟨Nat.le_refl _, fun a ha => ?_, fun x _ hx => hx⟩
    exact hpass.mem_of_eq hcurr _ (List.mem_map.mpr ⟨a, ha, rfl⟩)
  | succ bound ih =>
    intro hits hit hits' hit' hb hre hinv h
    simp only [hitLoop, Raises.bind_eq_ok] at h
    obtain ⟨⟨hits₁, curr⟩, hround, h⟩ := h
    have hnodup := attentionGroups_nodup hset.ok
    have hpass := round_pass hset _ _ _ _ _ (fun a ha => ha) hnodup hre hround
    have hr := round_ok hset.ok _ _ _ _ _ (fun a ha => ha) hnodup hround
    obtain ⟨hal, hentries⟩ := round_entries hset.ok hinv hr
    -- no common length is lost in the round
    have hkeep : ∀ x, commonSet c p hashes x → x ≤ hit → x ≤ curr := by
      intro x hx hle
      refine hpass.max x (fun S hS => ?_) hle
      obtain ⟨a, ha, rfl⟩ := List.mem_map.mp hS
      exact hx a ha
    dsimp only at h
    by_cases hge : curr ≥ hit
    · rw [if_pos hge] at h
      obtain ⟨rfl, rfl⟩ := Prod.mk.inj (Raises.pure_eq_ok.mp h)
      have hcurr : curr = hit := Nat.le_antisymm hpass.le hge
      refine ⟨Nat.le_refl _, fun a ha => ?_, fun x _ hx => hx⟩
      exact hpass.mem_of_eq hcurr _ (List.mem_map.mpr ⟨a, ha, rfl⟩)
    · rw [if_neg hge] at h
      by_cases hs : c.isSimpleHybrid = true
      · rw [if_pos hs] at h
        obtain ⟨rfl, rfl⟩ := Prod.mk.inj (Raises.pure_eq_ok.mp h)
        exact ⟨hpass.le, simple_common hs hpass hal, hkeep⟩
      · rw [if_neg hs] at h
        have hbest := ih hits₁ curr (by omega) (fun a ha hr' => pass_full hpass hal ha hr'.1)
          (Or.inr ⟨hal, by simpa using hs, fun a ha _ => by
            obtain ⟨rows, hheld, hrows, hge', -⟩ := hentries a ha
            exact ⟨rows, hheld, hrows, hge'⟩⟩) h
        exact ⟨Nat.le_trans hbest.le hpass.le, hbest.mem,
          fun x hx hle => hbest.max x hx (hkeep x hx hle)⟩

/-! ## Acceptance group by group -/

/-- Every group of the model accepts the length, an aligned one. -/
def AcceptableLength (c : HybridCoordinator) (p : BlockPool H) (hashes : List H) (len : Nat) :
    Prop :=
  c.lcmBlockSize ∣ len ∧ ∀ (g : GroupId) spec, c.specs[g]? = some spec →
    Accepts p (c.hashesOf hashes spec) [g] spec len

theorem cachedAt_iff {i : Nat} (hne : gs ≠ []) :
    CachedAt p hs gs i ↔ ∀ g ∈ gs, CachedAt p hs [g] i := by
  constructor
  · rintro ⟨h, hi, hall⟩ g hg
    exact ⟨h, hi, fun g' hg' => hall g' (List.mem_singleton.mp hg' ▸ hg)⟩
  · intro hall
    obtain ⟨g₀, hg₀⟩ := List.exists_mem_of_ne_nil _ hne
    obtain ⟨h, hi, -⟩ := hall g₀ hg₀
    refine ⟨h, hi, fun g hg => ?_⟩
    obtain ⟨h', hi', hg'⟩ := hall g hg
    rw [hi, Option.some.injEq] at hi'
    exact hi' ▸ hg' g List.mem_cons_self

/-- An entry accepts a length if and only if each of its groups does. -/
theorem accepts_iff {spec : KVCacheSpec} {len : Nat} (hne : gs ≠ []) :
    Accepts p hs gs spec len ↔ ∀ g ∈ gs, Accepts p hs [g] spec len := by
  obtain ⟨g₀, hg₀⟩ := List.exists_mem_of_ne_nil _ hne
  unfold Accepts WindowCached
  cases spec.kind with
  | fullAttention | tqFullAttention | mlaAttention | sinkFullAttention =>
    simp only [cachedAt_iff hne]
    exact ⟨fun h g hg i hi => h i hi g hg, fun h i hi g hg => h g hg i hi⟩
  | slidingWindow a w =>
    simp only [cachedAt_iff hne]
    exact ⟨fun h g hg i hi hw => h i hi hw g hg, fun h i hi hw g hg => h g hg i hi hw⟩
  | mamba f =>
    simp only [cachedAt_iff hne]
    constructor
    · rintro (h | h) g hg
      · exact Or.inl h
      · exact Or.inr (h g hg)
    · intro h
      by_cases h0 : len = 0
      · exact Or.inl h0
      · exact Or.inr fun g hg => (h g hg).resolve_left h0
  | chunkedLocalAttention | crossAttention =>
    exact ⟨fun h => h.elim, fun h => h g₀ hg₀⟩

theorem commonSet_iff (hok : HybridOk c) {len : Nat} :
    commonSet c p hashes len ↔ AcceptableLength c p hashes len := by
  constructor
  · intro h
    obtain ⟨a₀, as, hgroups⟩ := List.exists_cons_of_ne_nil
      (List.ne_nil_of_length_pos (Nat.lt_of_lt_of_le Nat.two_pos hok.two_le))
    refine ⟨(h a₀ (by simp [hgroups])).1, ?_⟩
    intro g spec hspec
    obtain ⟨hg, -⟩ := List.getElem?_eq_some_iff.mp hspec
    obtain ⟨a, ha, hga⟩ := hok.split.cover g hg
    obtain rfl : a.spec = spec := by
      have := (hok.split.spec_eq a ha g hga).2
      rw [hspec] at this
      exact (Option.some.inj this).symm
    exact (accepts_iff (hok.split.nonempty a ha)).mp (h a ha).2 g hga
  · rintro ⟨hal, hall⟩ a ha
    refine ⟨hal, (accepts_iff (hok.split.nonempty a ha)).mpr fun g hg => ?_⟩
    exact hall g a.spec (hok.split.spec_eq a ha g hg).2

/-- A length that an entry accepts lies within the hashes. -/
theorem entrySet_le (hset : OptimalSetup c) (ha : a ∈ c.attentionGroups) {len : Nat}
    (h : entrySet c p hashes a len) : len ≤ hashes.length * c.hashBlockSize := by
  have hpos := hset.ok.blockSize_pos a ha
  obtain ⟨k, hk⟩ := hset.ok.hash_dvd a ha
  have hh : 0 < c.hashBlockSize := Nat.pos_of_mul_pos_right (hk ▸ hpos)
  have hlen : len / a.spec.blockSize * a.spec.blockSize = len :=
    Nat.div_mul_cancel (Nat.dvd_trans (hset.ok.dvd_lcm a ha) h.1)
  by_cases h0 : len / a.spec.blockSize = 0
  · rw [h0, Nat.zero_mul] at hlen
    omega
  · -- the last block is cached, so it has a hash
    have hlast : CachedAt p (c.hashesOf hashes a.spec) a.groupIds (len / a.spec.blockSize - 1) := by
      have hacc := h.2
      have hkind := hset.kind a ha
      have hwide := hset.wide a ha
      unfold Accepts at hacc
      unfold KVCacheSpec.isHybridType at hkind
      unfold KVCacheSpec.wideWindow at hwide
      have hpred := Nat.pred_lt h0
      cases hkd : a.spec.kind with
      | fullAttention | tqFullAttention | mlaAttention | sinkFullAttention =>
        rw [hkd] at hacc
        exact hacc _ hpred
      | chunkedLocalAttention | crossAttention => rw [hkd] at hkind; cases hkind
      | slidingWindow f w =>
        rw [hkd] at hacc hwide
        have hneed : (0 : Int) < Python.cdiv ((w : Int) - 1) a.spec.blockSize := by
          clear hk hlen
          rw [Python.lt_cdiv_iff (by omega)]
          omega
        refine hacc _ hpred ?_
        generalize len / a.spec.blockSize = q at h0 ⊢
        generalize Python.cdiv ((w : Int) - 1) a.spec.blockSize = need at hneed ⊢
        clear hk hlen hpos
        omega
      | mamba f =>
        rw [hkd] at hacc
        refine hacc.resolve_left fun hz => h0 ?_
        rw [hz, Nat.zero_div]
    obtain ⟨hash, hi, -⟩ := hlast
    obtain ⟨hlt, -⟩ := List.getElem?_eq_some_iff.mp hi
    rw [hashesOf, blockHashList_length, hk, Nat.mul_div_cancel_left _ hh, ← hk] at hlt
    calc len = len / a.spec.blockSize * (k * c.hashBlockSize) := by
          rw [Nat.mul_comm k, ← hk, hlen]
      _ ≤ hashes.length / k * (k * c.hashBlockSize) := Nat.mul_le_mul_right _ (by omega)
      _ = hashes.length / k * k * c.hashBlockSize := by rw [Nat.mul_assoc]
      _ ≤ hashes.length * c.hashBlockSize := Nat.mul_le_mul_right _ (Nat.div_mul_le_self _ _)

theorem findLongestHit_best (hset : OptimalSetup c) {maxLength : Nat}
    {res : List (List BlockId) × Nat} (h : c.findLongestHit p hashes maxLength = .ok res) :
    IsBest (AcceptableLength c p hashes) maxLength res.2 := by
  simp only [findLongestHit, Raises.bind_eq_ok, Raises.pure_eq_ok] at h
  obtain ⟨⟨hits, hit⟩, hloop, rfl⟩ := h
  have hbest := hitLoop_best hset maxLength _ maxLength (Nat.le_refl _)
    (fun a _ hr => absurd hr (not_reused_of_none (fun _ => rfl) a)) (Or.inl fun _ => rfl) hloop
  exact ⟨hbest.le, (commonSet_iff hset.ok).mp hbest.mem,
    fun x hx hle => hbest.max x ((commonSet_iff hset.ok).mpr hx) hle⟩

theorem findLongestHit_total (hok : HybridOk c)
    (hkind : ∀ a ∈ c.attentionGroups, a.spec.isHybridType = true) (p : BlockPool H)
    {maxLength : Nat}
    (hin : maxLength ≤ hashes.length * c.hashBlockSize ∨
      ∃ a ∈ c.attentionGroups, a.spec.isFullAttention = true) :
    ∃ res, c.findLongestHit p hashes maxLength = .ok res := by
  have hin' : maxLength ≤ hashes.length * c.hashBlockSize ∨ ∃ a as, c.attentionGroups = a :: as ∧
      a.spec.isFullAttention = true ∧ ¬ Reused (fun _ => none) a := by
    rcases hin with h | ⟨a, ha, hfull⟩
    · exact Or.inl h
    · right
      obtain ⟨a₀, as, hgroups⟩ := List.exists_cons_of_ne_nil (List.ne_nil_of_mem ha)
      refine ⟨a₀, as, hgroups, ?_, not_reused_of_none (fun _ => rfl) a₀⟩
      by_cases heq : a = a₀
      · exact heq ▸ hfull
      · exact (two_fulls hok hgroups ha heq hfull).1
  obtain ⟨⟨hits, hit⟩, hloop⟩ := hitLoop_total (p := p) hok hkind maxLength (fun _ => none) maxLength
    hin'
  exact ⟨_, by rw [findLongestHit, hloop]; rfl⟩

/-! ## A window of one token -/

/-- **A one-token window is looked up as if it needed a block.** Cache every
other entry for one aligned length: that length is acceptable to all, but the
lookup returns nothing. -/
theorem not_best_of_narrow (hok : HybridOk c)
    (hkind : ∀ a ∈ c.attentionGroups, a.spec.isHybridType = true) (x : H) {a₀ : AttentionGroup}
    (ha₀ : a₀ ∈ c.attentionGroups) (hnarrow : ¬ a₀.spec.wideWindow) :
    ∃ (p : BlockPool H) (hashes : List H) (maxLength : Nat),
      maxLength ≤ hashes.length * c.hashBlockSize ∧
      ∀ res, c.findLongestHit p hashes maxLength = .ok res →
        ¬ IsBest (AcceptableLength c p hashes) maxLength res.2 := by
  have hpos := hok.lcm_pos
  have hhash : c.hashBlockSize ∣ c.lcmBlockSize :=
    Nat.dvd_trans (hok.hash_dvd a₀ ha₀) (hok.dvd_lcm a₀ ha₀)
  obtain ⟨n, hn⟩ : ∃ n, n = c.lcmBlockSize / c.hashBlockSize := ⟨_, rfl⟩
  have hn' : n * c.hashBlockSize = c.lcmBlockSize := by rw [hn, Nat.div_mul_cancel hhash]
  let keys := (c.attentionGroups.filter fun a => decide (a ≠ a₀)).flatMap fun a =>
    a.groupIds.map (uniformKey c x a)
  have hcached : ∀ a ∈ c.attentionGroups, a ≠ a₀ → ∀ i < c.lcmBlockSize / a.spec.blockSize,
      CachedAt (cachedPool keys) (c.hashesOf (List.replicate n x) a.spec) a.groupIds i := by
    intro a ha hne i hi
    have hle := div_le_hashes (hok.blockSize_pos a ha) (hok.hash_dvd a ha) (Nat.le_of_eq hn'.symm)
    refine (uniform_cachedAt (Nat.lt_of_lt_of_le hi hle)).mpr fun g hg => ?_
    exact List.mem_flatMap.mpr ⟨a, List.mem_filter.mpr ⟨ha, by simpa using hne⟩,
      List.mem_map.mpr ⟨g, hg, rfl⟩⟩
  have hmiss : ∀ i, ¬ CachedAt (cachedPool keys) (c.hashesOf (List.replicate n x) a₀.spec)
      a₀.groupIds i := by
    rintro i ⟨h, -, hall⟩
    obtain ⟨g, hg⟩ := List.exists_mem_of_ne_nil _ (hok.split.nonempty a₀ ha₀)
    obtain ⟨a, ha, hk⟩ := List.mem_flatMap.mp (cachedPool_getOneBlock.mp (hall g hg))
    obtain ⟨ha, hne⟩ := List.mem_filter.mp ha
    obtain ⟨g', hg', heq⟩ := List.mem_map.mp hk
    have hgg : g' = g := (Prod.mk.inj heq).2
    exact absurd (hok.split.eq_of_mem ha ha₀ hg' (hgg ▸ hg)) (by simpa using hne)
  -- the whole length is acceptable
  have hacc : commonSet c (cachedPool keys) (List.replicate n x) c.lcmBlockSize := by
    intro a ha
    refine ⟨Nat.dvd_refl _, ?_⟩
    have hb := hok.blockSize_pos a ha
    have hq : 0 < c.lcmBlockSize / a.spec.blockSize :=
      Nat.div_pos (Nat.le_of_dvd hpos (hok.dvd_lcm a ha)) hb
    have hk := hkind a ha
    unfold Accepts
    unfold KVCacheSpec.isHybridType at hk
    by_cases heq : a = a₀
    · subst heq
      unfold KVCacheSpec.wideWindow at hnarrow
      cases hkd : a.spec.kind with
      | slidingWindow f w =>
        rw [hkd] at hnarrow
        dsimp only at hnarrow ⊢
        have hzero : Python.cdiv ((w : Int) - 1) a.spec.blockSize ≤ 0 := by
          rw [Python.cdiv_le_iff (by omega)]
          omega
        intro i hi hwin
        omega
      | fullAttention | tqFullAttention | mlaAttention | sinkFullAttention | mamba
      | chunkedLocalAttention | crossAttention => rw [hkd] at hnarrow; exact absurd trivial hnarrow
    · cases hkd : a.spec.kind with
      | fullAttention | tqFullAttention | mlaAttention | sinkFullAttention =>
        exact fun i hi => hcached a ha heq i hi
      | slidingWindow f w => exact fun i hi _ => hcached a ha heq i hi
      | mamba f => exact Or.inr (hcached a ha heq _ (by omega))
      | chunkedLocalAttention | crossAttention => rw [hkd] at hk; cases hk
  refine ⟨cachedPool keys, List.replicate n x, c.lcmBlockSize,
    by rw [List.length_replicate, hn'], ?_⟩
  intro res hres hbest
  have hge := hbest.max _ ((commonSet_iff hok).mp hacc) (Nat.le_refl _)
  -- but the first round already brings the length to zero
  simp only [findLongestHit, Raises.bind_eq_ok, Raises.pure_eq_ok] at hres
  obtain ⟨⟨hits', hit'⟩, hloop, rfl⟩ := hres
  dsimp only at hge
  obtain ⟨m, hm⟩ : ∃ m, c.lcmBlockSize = m + 1 := ⟨c.lcmBlockSize - 1, by omega⟩
  have hround₀ := hloop
  rw [hm] at hround₀
  simp only [hitLoop, Raises.bind_eq_ok] at hround₀
  obtain ⟨⟨hits₁, curr⟩, hround, hrest⟩ := hround₀
  rw [← hm] at hround hrest
  have hnodup := attentionGroups_nodup hok
  have hcurr : curr = 0 := round_zero_of_miss hok (hkind a₀ ha₀) hmiss _ _ _ _ _ (fun a ha => ha)
    hnodup ha₀ (not_reused_of_none (fun _ => rfl) a₀) hround
  have hr := round_ok hok _ _ _ _ _ (fun a ha => ha) hnodup hround
  subst hcurr
  dsimp only at hrest
  rw [if_neg (by omega)] at hrest
  have hzero : hit' = 0 := by
    by_cases hs : c.isSimpleHybrid = true
    · rw [if_pos hs] at hrest
      exact (Prod.mk.inj (Raises.pure_eq_ok.mp hrest)).2.symm
    · rw [if_neg hs] at hrest
      obtain ⟨hal, hentries⟩ := round_entries hok (Or.inl fun _ => rfl) hr
      have hinv : LoopInv c (cachedPool keys) (List.replicate n x) hits₁ 0 := by
        refine Or.inr ⟨hal, by simpa using hs, fun a ha _ => ?_⟩
        obtain ⟨rows, hheld, hrows, -⟩ := hentries a ha
        exact ⟨rows, hheld, hrows, Nat.zero_le _⟩
      exact Nat.le_zero.mp (hitLoop_ok hok m hits₁ 0 (Nat.zero_le m) (Nat.le_refl 0) hinv hrest).le
  omega

/-- What a lookup up to `maxLength` promises: its length is the greatest
acceptable one, and looking up again with that length as the maximum returns it
again. -/
def OptimalLookup (c : HybridCoordinator) (p : BlockPool H) (hashes : List H) (maxLength : Nat) :
    Prop :=
  (∀ res, c.findLongestHit p hashes maxLength = .ok res →
    IsBest (AcceptableLength c p hashes) maxLength res.2 ∧
      ∃ res', c.findLongestHit p hashes res.2 = .ok res' ∧ res'.2 = res.2) ∧
  (maxLength ≤ hashes.length * c.hashBlockSize ∨ (∃ s ∈ c.specs, s.isFullAttention = true) →
    ∃ res, c.findLongestHit p hashes maxLength = .ok res)

/-- The second lookup: the first length is within the hashes, and the best
length up to itself. -/
theorem findLongestHit_stable (hset : OptimalSetup c) {maxLength : Nat}
    {res : List (List BlockId) × Nat} (h : c.findLongestHit p hashes maxLength = .ok res) :
    ∃ res', c.findLongestHit p hashes res.2 = .ok res' ∧ res'.2 = res.2 := by
  have hbest := findLongestHit_best hset h
  obtain ⟨a, as, hgroups⟩ := List.exists_cons_of_ne_nil
    (List.ne_nil_of_length_pos (Nat.lt_of_lt_of_le Nat.two_pos hset.ok.two_le))
  have ha : a ∈ c.attentionGroups := by simp [hgroups]
  have hle : res.2 ≤ hashes.length * c.hashBlockSize :=
    entrySet_le hset ha ((commonSet_iff hset.ok).mpr hbest.mem a ha)
  obtain ⟨res', hres'⟩ := findLongestHit_total hset.ok hset.kind p (Or.inl hle)
  have hbest' := findLongestHit_best hset hres'
  exact ⟨res', hres', Nat.le_antisymm hbest'.le (hbest'.max _ hbest.mem (Nat.le_refl _))⟩

/-- **Optimality, exactly.** For a hybrid coordinator without eagle over
full-attention, sliding-window and mamba groups: every lookup is optimal and
stable if and only if every sliding window spans at least two tokens. -/
theorem optimal_iff [Inhabited H] {specs : List KVCacheSpec} {hashBlockSize : Nat}
    {c : HybridCoordinator} (hpos : ∀ s ∈ specs, 0 < s.blockSize)
    (hkind : ∀ s ∈ specs, s.isHybridType = true)
    (hinit : HybridCoordinator.init specs hashBlockSize false = .ok c) :
    (∀ (p : BlockPool H) (hashes : List H) (maxLength : Nat),
        OptimalLookup c p hashes maxLength) ↔
      ∀ s ∈ specs, s.wideWindow := by
  have hok := init_hybridOk hpos hinit
  obtain ⟨rfl, -, hno⟩ := init_fields hinit
  have hkind' : ∀ a ∈ c.attentionGroups, a.spec.isHybridType = true :=
    fun a ha => hkind _ (hok.mem_specs_iff.mpr ⟨a, ha, rfl⟩)
  constructor
  · intro hall s hs
    by_contra hnarrow
    obtain ⟨a, ha, rfl⟩ := hok.mem_specs_iff.mp hs
    obtain ⟨p, hashes, m, hle, hbad⟩ := not_best_of_narrow hok hkind' (default : H) ha hnarrow
    obtain ⟨hopt, htotal⟩ := hall p hashes m
    obtain ⟨res, hres⟩ := htotal (Or.inl hle)
    exact hbad res hres (hopt res hres).1
  · intro hwide p hashes m
    have hset : OptimalSetup c :=
      ⟨hok, hkind', fun a ha => hwide _ (hok.mem_specs_iff.mpr ⟨a, ha, rfl⟩), hno⟩
    refine ⟨fun res hres => ⟨findLongestHit_best hset hres, findLongestHit_stable hset hres⟩, ?_⟩
    intro hin
    refine findLongestHit_total hok hkind' p (hin.imp_right ?_)
    rintro ⟨s, hs, hfull⟩
    obtain ⟨a, ha, rfl⟩ := hok.mem_specs_iff.mp hs
    exact ⟨a, ha, hfull⟩

/-- A full-attention layer and a window of one token. -/
def narrowCoordinator : HybridCoordinator where
  specs := [fullSpec 4 1, slidingSpec 4 1 1]
  hashBlockSize := 4
  useEagle := false
  attentionGroups := [⟨fullSpec 4 1, [0]⟩, ⟨slidingSpec 4 1 1, [1]⟩]
  lcmBlockSize := 4

/-- The block of the full-attention group is cached and the window needs no
block, but the lookup returns length zero. -/
theorem narrow_window_not_optimal :
    ¬ ∀ (specs : List KVCacheSpec) (hashBlockSize : Nat) (c : HybridCoordinator)
      (p : BlockPool Nat) (hashes : List Nat) (maxLength : Nat),
      (∀ s ∈ specs, 0 < s.blockSize) → (∀ s ∈ specs, s.isHybridType = true) →
      HybridCoordinator.init specs hashBlockSize false = .ok c →
      OptimalLookup c p hashes maxLength := by
  intro hall
  obtain ⟨hopt, -⟩ := hall [fullSpec 4 1, slidingSpec 4 1 1] 4 narrowCoordinator
    (cachedPool [([7], 0)]) [7] 4 (by decide) (by decide) (by rfl)
  have hval : narrowCoordinator.findLongestHit (cachedPool [([7], 0)]) [7] 4 = .ok ([[], []], 0) := by
    rfl
  obtain ⟨hbest, -⟩ := hopt _ hval
  have hacc : AcceptableLength narrowCoordinator (cachedPool [([7], 0)]) [7] 4 := by
    refine ⟨Nat.dvd_refl 4, fun g spec hspec => ?_⟩
    match g with
    | 0 =>
      obtain rfl := Option.some.inj hspec
      rintro i hi
      obtain rfl : i = 0 := Nat.lt_one_iff.mp hi
      refine ⟨[7], rfl, fun g hg => ?_⟩
      obtain rfl := List.mem_singleton.mp hg
      exact ⟨_, rfl⟩
    | 1 =>
      obtain rfl := Option.some.inj hspec
      intro i hi hwin
      obtain rfl : i = 0 := Nat.lt_one_iff.mp hi
      exact absurd hwin (by decide)
    | g + 2 => cases hspec
  exact absurd (hbest.max 4 hacc (Nat.le_refl 4)) (by decide)

theorem oneFullCoordinator_optimal :
    OptimalLookup oneFullCoordinator (cachedPool [([7], 0), ([7], 1)]) [7] 4 := by
  have hinit : HybridCoordinator.init [fullSpec 4 1, slidingSpec 4 1 8] 4 false
      = .ok oneFullCoordinator := by rfl
  exact (optimal_iff (by decide) (by decide) hinit).mpr (by decide) _ _ _

end VllmEngine
