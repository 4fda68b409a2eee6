import Mathlib.Data.List.GetD
import VllmEngine.Kv.HybridLookup
import VllmEngine.Kv.PoolAccounting
import VllmEngine.Kv.SingleType

/-!
# Hits of a sliding window cover the window

What `SlidingWindowManager.find_longest_cache_hit` finds before it drops a block for eagle
(`slidingLookup_base`): rows from some index on are cached, those before it are null, and no
longer aligned length has its window cached. Without eagle that is the hit. With eagle the
last row is dropped, and then more rows until the length is aligned again: the end moves to
the left of the rows that were looked up by up to `alignment_tokens`.

> `slidingLookup_covers_iff`: exactly when the hit covers its window and is the longest.
-/

namespace VllmEngine

variable {H : Type} [DecidableEq H]

/-! ## What a list of rows holds -/

/-- The row holds the cached blocks of its hash. -/
def HoldsHash (p : BlockPool H) (hashes : List (List H)) (groupIds : List GroupId)
    (rows : List Row) (i : Nat) : Prop :=
  ∃ h row, hashes[i]? = some h ∧ p.getCachedBlock h groupIds = some row ∧ rows[i]? = some row

/-- In the list of every group the block is one that is cached under the hash for that group,
and is not the null block. -/
def BlocksCached (p : BlockPool H) (hashes : List (List H)) (groupIds : List GroupId)
    (rows : List Row) (i : Nat) : Prop :=
  ∀ j g, groupIds[j]? = some g → ∃ h b, hashes[i]? = some h ∧ p.getOneBlock (h, g) = some b ∧
    b ≠ nullBlock ∧ (column rows j)[i]? = some b

section Rows

variable {p : BlockPool H} {hashes : List (List H)} {gs : List GroupId} {rows : List Row} {i : Nat}

/-- A block that can be looked up is filed, and the null block is never filed. -/
theorem ne_null_of_getOneBlock (hok : p.HashOk) {key : BlockKey H} {b : BlockId}
    (h : p.getOneBlock key = some b) : b ≠ nullBlock := by
  unfold BlockPool.getOneBlock at h
  cases hget : p.cachedBlockHashToBlock.get? key with
  | none => rw [hget] at h; cases h
  | some bs =>
    rw [hget] at h
    have hfiled : b ∈ BlockPool.filedIn p.cachedBlockHashToBlock key := by
      unfold BlockPool.filedIn
      rw [hget]
      exact List.mem_of_mem_head? h
    exact (hok.live b key ((hok.filed b key).mpr hfiled)).1

theorem HoldsHash.cachedAt (h : HoldsHash p hashes gs rows i) : CachedAt p hashes gs i := by
  obtain ⟨hash, row, hhash, hrow, -⟩ := h
  exact cachedAt_of_some hhash hrow

theorem HoldsHash.blocksCached (hok : p.HashOk) (h : HoldsHash p hashes gs rows i) :
    BlocksCached p hashes gs rows i := by
  obtain ⟨hash, row, hhash, hrow, hi⟩ := h
  intro j g hg
  have hall := getCachedBlock_eq_some_iff.mp hrow
  obtain ⟨hj, hgj⟩ := List.getElem?_eq_some_iff.mp hg
  have hj' : j < row.length := hall.length_eq ▸ hj
  have hb := (List.forall₂_iff_get.mp hall).2 j hj hj'
  rw [List.get_eq_getElem, List.get_eq_getElem, hgj] at hb
  refine ⟨hash, row[j], hhash, hb, ne_null_of_getOneBlock hok hb, ?_⟩
  unfold column
  rw [List.getElem?_map, hi]
  show some (row.getD j nullBlock) = _
  rw [List.getD_eq_getElem _ _ hj']

theorem not_blocksCached_of_null (hgs : gs ≠ []) (h : rows[i]? = some (nullRow gs)) :
    ¬ BlocksCached p hashes gs rows i := by
  obtain ⟨g₀, rest, rfl⟩ := List.exists_cons_of_ne_nil hgs
  intro hall
  obtain ⟨hash, b, -, -, hne, hb⟩ := hall 0 g₀ rfl
  unfold column at hb
  rw [List.getElem?_map, h] at hb
  exact hne (Option.some.inj hb).symm

theorem HoldsHash.take {n : Nat} (h : HoldsHash p hashes gs rows i) (hi : i < n) :
    HoldsHash p hashes gs (rows.take n) i := by
  obtain ⟨hash, row, hhash, hrow, hget⟩ := h
  refine ⟨hash, row, hhash, hrow, ?_⟩
  rw [List.getElem?_take, if_pos hi]
  exact hget

end Rows

/-! ## The scan -/

section Scan

variable {p : BlockPool H} {hashes : List (List H)} {gs : List GroupId} {bs align N need : Nat}

/-- Every longer aligned length has an entry among its last `need` that is not cached. -/
def NoneLonger (p : BlockPool H) (hashes : List (List H)) (gs : List GroupId)
    (bs align N need length : Nat) : Prop :=
  ∀ l, length < l → l ≤ N → align ∣ l * bs →
    ∃ j, j < l ∧ l ≤ j + need ∧ ¬ CachedAt p hashes gs j

/-- The rows from `first` on are cached, before it they are null, and they are as many as are
needed, or all that there are. -/
structure HitBase (p : BlockPool H) (hashes : List (List H)) (gs : List GroupId)
    (bs align N need first : Nat) (rows : List Row) : Prop where
  le : rows.length ≤ N
  aligned : align ∣ rows.length * bs
  cached : ∀ j, first ≤ j → j < rows.length → HoldsHash p hashes gs rows j
  null : ∀ j < first, rows[j]? = some (nullRow gs)
  size : first + need = rows.length ∨ first = 0 ∧ rows.length < need
  longest : NoneLonger p hashes gs bs align N need rows.length

/-- The scan at an index, with the run that ends there. -/
structure ScanState (p : BlockPool H) (hashes : List (List H)) (gs : List GroupId)
    (bs align N need i : Nat) (rows : List Row) (run : Nat) : Prop where
  length : rows.length = N
  le : i + run ≤ N
  short : run < need
  aligned : 0 < run → align ∣ (i + run) * bs
  cached : ∀ j, i ≤ j → j < i + run → HoldsHash p hashes gs rows j
  null : ∀ j < i, rows[j]? = some (nullRow gs)
  longest : ∀ l, i + run < l → l ≤ N → align ∣ l * bs →
    ∃ j, i ≤ j ∧ j < l ∧ l ≤ j + need ∧ ¬ CachedAt p hashes gs j

theorem scanState_start (hneed : 0 < need) : ScanState p hashes gs bs align N need N
    (List.replicate N (nullRow gs)) 0 := by
  refine ⟨List.length_replicate, Nat.le_refl _, hneed, fun h => absurd h (Nat.lt_irrefl 0), ?_, ?_, ?_⟩
  · intro j hle hlt
    omega
  · intro j hj
    rw [List.getElem?_replicate, if_pos hj]
  · intro l hlt hle
    omega

/-- A block that is not cached ends the run. -/
theorem ScanState.miss {i run : Nat} {rows : List Row}
    (h : ScanState p hashes gs bs align N need (i + 1) rows run)
    (hmiss : ¬ CachedAt p hashes gs i) : ScanState p hashes gs bs align N need i rows 0 := by
  refine ⟨h.length, by have := h.le; omega, Nat.lt_of_le_of_lt (Nat.zero_le run) h.short,
    fun h0 => absurd h0 (Nat.lt_irrefl 0), ?_, fun j hj => h.null j (by omega), ?_⟩
  · intro j hle hlt
    omega
  · intro l hlt hle hl
    have hshort := h.short
    by_cases hl' : i + 1 + run < l
    · obtain ⟨j, hj, hjl, hlj, hnot⟩ := h.longest l hl' hle hl
      exact ⟨j, by omega, hjl, hlj, hnot⟩
    · exact ⟨i, Nat.le_refl i, by omega, by omega, hmiss⟩

/-- A cached block at an end that is not aligned is left out. -/
theorem ScanState.skip {i : Nat} {rows : List Row}
    (h : ScanState p hashes gs bs align N need (i + 1) rows 0)
    (hend : ¬ align ∣ (i + 1) * bs) : ScanState p hashes gs bs align N need i rows 0 := by
  refine ⟨h.length, by have := h.le; omega, h.short, fun h0 => absurd h0 (Nat.lt_irrefl 0), ?_,
    fun j hj => h.null j (by omega), ?_⟩
  · intro j hle hlt
    omega
  · intro l hlt hle hl
    have hne : l ≠ i + 1 := fun heq => hend (heq ▸ hl)
    obtain ⟨j, hj, hjl, hlj, hnot⟩ := h.longest l (by omega) hle hl
    exact ⟨j, by omega, hjl, hlj, hnot⟩

/-- The rows of the run with one row more. -/
theorem ScanState.cached_set {i run : Nat} {rows : List Row}
    (h : ScanState p hashes gs bs align N need (i + 1) rows run) {hash : List H} {row : Row}
    (hi : hashes[i]? = some hash) (hrow : p.getCachedBlock hash gs = some row) :
    (∀ j, i ≤ j → j < i + (run + 1) → HoldsHash p hashes gs (rows.set i row) j) ∧
      ∀ j < i, (rows.set i row)[j]? = some (nullRow gs) := by
  have hle := h.le
  constructor
  · intro j hj hlt
    rcases Nat.lt_or_eq_of_le hj with hgt | heq
    · obtain ⟨hash', row', hhash', hrow', hget⟩ := h.cached j hgt (by omega)
      exact ⟨hash', row', hhash', hrow', by rw [List.getElem?_set_ne (by omega)]; exact hget⟩
    · subst heq
      exact ⟨hash, row, hi, hrow, List.getElem?_set_self (by rw [h.length]; omega)⟩
  · intro j hj
    rw [List.getElem?_set_ne (by omega)]
    exact h.null j (by omega)

theorem dvd_of_not_skipped {i run : Nat}
    (hrun : 0 < run → align ∣ (i + 1 + run) * bs)
    (hskip : ¬ (run = 0 ∧ bs ≠ align ∧ (i + 1) * bs % align ≠ 0)) :
    align ∣ (i + (run + 1)) * bs := by
  by_cases h0 : run = 0
  · subst h0
    by_cases hbs : bs = align
    · rw [hbs]
      exact Nat.dvd_mul_left _ _
    · refine Nat.dvd_of_mod_eq_zero ?_
      by_contra hne
      exact hskip ⟨rfl, hbs, hne⟩
  · have h := hrun (Nat.pos_of_ne_zero h0)
    rw [show i + (run + 1) = i + 1 + run by omega]
    exact h

/-- What the scan ends with: the base of the hit, or a run from the first block on. -/
theorem slidingScan_base {k : Int}
    (hk : ∀ n : Nat, 0 < n → ((n : Int) ≥ k ↔ need ≤ n)) :
    ∀ (i : Nat) {rows : List Row} {run : Nat} {rows' : List Row} {run' : Nat} {found : Bool},
      ScanState p hashes gs bs align N need i rows run →
      slidingScan p hashes gs bs align k i rows run = .ok (rows', run', found) →
      (found = true ∧ ∃ first, HitBase p hashes gs bs align N need first rows') ∨
      (found = false ∧ ScanState p hashes gs bs align N need 0 rows' run') := by
  intro i
  induction i with
  | zero =>
    intro rows run rows' run' found hstate h
    rw [slidingScan, Except.ok.injEq, Prod.mk.injEq, Prod.mk.injEq] at h
    obtain ⟨rfl, rfl, rfl⟩ := h
    exact Or.inr ⟨rfl, hstate⟩
  | succ i ih =>
    intro rows run rows' run' found hstate h
    rw [slidingScan] at h
    cases hi : hashes[i]? with
    | none => rw [hi] at h; cases h
    | some hash =>
      rw [hi] at h
      dsimp only at h
      cases hr : p.getCachedBlock hash gs with
      | none =>
        rw [hr] at h
        exact ih (hstate.miss (not_cachedAt_of_none hi hr)) h
      | some row =>
        rw [hr] at h
        dsimp only at h
        by_cases hskip : run = 0 ∧ bs ≠ align ∧ (i + 1) * bs % align ≠ 0
        · rw [if_pos hskip] at h
          obtain ⟨rfl, -, hmod⟩ := hskip
          exact ih (hstate.skip fun hd => hmod (Nat.mod_eq_zero_of_dvd hd)) h
        · rw [if_neg hskip] at h
          have hend := dvd_of_not_skipped hstate.aligned hskip
          obtain ⟨hcached, hnull⟩ := hstate.cached_set hi hr
          have hle := hstate.le
          have hshort := hstate.short
          have hlen : (rows.set i row).length = N := List.length_set.trans hstate.length
          by_cases hfound : ((run + 1 : Nat) : Int) ≥ k
          · rw [if_pos hfound, Except.ok.injEq, Prod.mk.injEq, Prod.mk.injEq] at h
            obtain ⟨rfl, rfl, rfl⟩ := h
            have hsize : run + 1 = need := by
              have hge := (hk (run + 1) (Nat.succ_pos run)).mp hfound
              omega
            have htake : ((rows.set i row).take (i + (run + 1))).length = i + (run + 1) := by
              rw [List.length_take, hlen]
              omega
            refine Or.inl ⟨rfl, i, ?_, ?_, ?_, ?_, ?_, ?_⟩
            · rw [htake]
              omega
            · rw [htake]
              exact hend
            · intro j hj hlt
              rw [htake] at hlt
              exact (hcached j hj hlt).take hlt
            · intro j hj
              rw [List.getElem?_take, if_pos (by omega)]
              exact hnull j hj
            · left
              rw [htake, hsize]
            · intro l hlt hlN hl
              rw [htake] at hlt
              obtain ⟨j, -, hjl, hlj, hnot⟩ := hstate.longest l (by omega) hlN hl
              exact ⟨j, hjl, hlj, hnot⟩
          · rw [if_neg hfound] at h
            refine ih ⟨hlen, by omega, ?_, fun _ => hend, hcached, hnull, ?_⟩ h
            · by_contra hge
              exact hfound ((hk (run + 1) (Nat.succ_pos run)).mpr (Nat.le_of_not_lt hge))
            · intro l hlt hlN hl
              obtain ⟨j, hj, hjl, hlj, hnot⟩ := hstate.longest l (by omega) hlN hl
              exact ⟨j, by omega, hjl, hlj, hnot⟩

/-- A run from the first block on is a base as well. -/
theorem ScanState.base {rows : List Row} {run : Nat}
    (h : ScanState p hashes gs bs align N need 0 rows run) :
    HitBase p hashes gs bs align N need 0 (alignRows bs align (rows.take run)) := by
  have hle := h.le
  have htake : (rows.take run).length = run := by
    rw [List.length_take, h.length]
    omega
  have hdiv : align ∣ run * bs := by
    rcases Nat.eq_zero_or_pos run with h0 | hpos
    · rw [h0, Nat.zero_mul]
      exact Nat.dvd_zero align
    · have ha := h.aligned hpos
      rw [Nat.zero_add] at ha
      exact ha
  have hlen : alignedLen bs align run = run :=
    Nat.le_antisymm (alignedLen_le _ _ _) (le_alignedLen hdiv run (Nat.le_refl run))
  have hself : alignRows bs align (rows.take run) = rows.take run := by
    unfold alignRows
    rw [htake, hlen, List.take_take, Nat.min_self]
  rw [hself]
  refine ⟨by omega, by rw [htake]; exact hdiv, ?_, fun j hj => absurd hj (Nat.not_lt_zero j),
    Or.inr ⟨rfl, by rw [htake]; exact h.short⟩, ?_⟩
  · intro j _ hlt
    rw [htake] at hlt
    exact (h.cached j (Nat.zero_le j) (by omega)).take hlt
  · intro l hlt hlN hl
    rw [htake] at hlt
    obtain ⟨j, -, hjl, hlj, hnot⟩ := h.longest l (by omega) hlN hl
    exact ⟨j, hjl, hlj, hnot⟩

end Scan

/-! ## The lookup -/

section Lookup

variable {p : BlockPool H} {hashes : List (List H)} {gs : List GroupId}
  {bs w align maxLength : Nat} {useEagle : Bool} {rows : List Row}

/-- The blocks of the window before the next token: `cdiv(sliding_window - 1, block_size)`. -/
def windowBlocks (bs w : Nat) : Nat := (Python.cdiv ((w : Int) - 1) bs).toNat

/-- The scan looks for at least one block, and for one more with eagle. -/
def neededBlocks (bs w : Nat) (useEagle : Bool) : Nat :=
  if useEagle then windowBlocks bs w + 1 else max (windowBlocks bs w) 1

theorem cdiv_eq_windowBlocks (hbs : 0 < bs) (hw : 0 < w) :
    Python.cdiv ((w : Int) - 1) bs = (windowBlocks bs w : Int) := by
  unfold windowBlocks
  have hlt : (-1 : Int) < Python.cdiv ((w : Int) - 1) bs := by
    rw [Python.lt_cdiv_iff (by omega)]
    rw [Int.neg_one_mul]
    omega
  omega

/-- What the lookup finds before it drops a block for eagle. -/
theorem slidingLookup_base (hbs : 0 < bs) (hw : 0 < w)
    (h : slidingLookup p hashes maxLength gs bs w useEagle align = .ok rows) :
    ∃ first base, HitBase p hashes gs bs align (maxLength / bs) (neededBlocks bs w useEagle) first
        base ∧
      rows = if useEagle = true ∧ base ≠ [] then alignRows bs align base.dropLast else base := by
  have hneed : 0 < neededBlocks bs w useEagle := by
    unfold neededBlocks
    split
    · exact Nat.succ_pos _
    · omega
  have hk : ∀ n : Nat, 0 < n →
      ((n : Int) ≥ Python.cdiv ((w : Int) - 1) bs + (if useEagle then 1 else 0) ↔
        neededBlocks bs w useEagle ≤ n) := by
    intro n hn
    rw [cdiv_eq_windowBlocks hbs hw]
    unfold neededBlocks
    cases useEagle with
    | true =>
      rw [if_pos rfl, if_pos rfl]
      omega
    | false =>
      rw [if_neg Bool.false_ne_true, if_neg Bool.false_ne_true]
      omega
  unfold slidingLookup at h
  cases hs : slidingScan p hashes gs bs align
      (Python.cdiv ((w : Int) - 1) bs + if useEagle = true then 1 else 0) (maxLength / bs)
      (List.replicate (maxLength / bs) (nullRow gs)) 0 with
  | error e => simp only [hs, bind, Except.bind] at h; cases h
  | ok res =>
    obtain ⟨rows₀, run, found⟩ := res
    simp only [hs, bind, Except.bind, pure, Except.pure, Except.ok.injEq] at h
    rcases slidingScan_base hk _ (scanState_start hneed) hs with ⟨hfound, first, hbase⟩ | ⟨hfound, hstate⟩
    · refine ⟨first, rows₀, hbase, ?_⟩
      rw [hfound, if_pos rfl] at h
      exact h.symm
    · refine ⟨0, _, hstate.base, ?_⟩
      rw [hfound, if_neg Bool.false_ne_true] at h
      exact h.symm

/-- The hit fits, is aligned, and covers the window of the next token. -/
structure SlidingHit (p : BlockPool H) (hashes : List (List H)) (gs : List GroupId)
    (bs w align maxLength : Nat) (rows : List Row) : Prop where
  le_max : rows.length * bs ≤ maxLength
  aligned : align ∣ rows.length * bs
  window : ∀ i, rows.length - windowBlocks bs w ≤ i → i < rows.length →
    BlocksCached p hashes gs rows i

/-- No longer aligned length has its window cached. -/
def LongestHit (p : BlockPool H) (hashes : List (List H)) (gs : List GroupId)
    (bs w align maxLength : Nat) (rows : List Row) : Prop :=
  ∀ l, l * bs ≤ maxLength → align ∣ l * bs →
    (∀ i, l - windowBlocks bs w ≤ i → i < l → CachedAt p hashes gs i) → l ≤ rows.length

/-- Where the lookup does what it should. With eagle and coarser alignment, no aligned
length beyond the first alignment unit, other than one that begins at the first block, has all
that the scan looks for. Without eagle the window needs a block, or the last aligned block is
cached. -/
def SlidingSafe (p : BlockPool H) (hashes : List (List H)) (gs : List GroupId)
    (bs w align maxLength : Nat) (useEagle : Bool) : Prop :=
  if useEagle then
    bs = align ∨ windowBlocks bs w = 0 ∨ ¬ ∃ l, windowBlocks bs w + 1 < l ∧ align < l * bs ∧
      l * bs ≤ maxLength ∧ align ∣ l * bs ∧
      ∀ i, l - (windowBlocks bs w + 1) ≤ i → i < l → CachedAt p hashes gs i
  else
    windowBlocks bs w ≠ 0 ∨ maxLength / align = 0 ∨
      CachedAt p hashes gs (maxLength / align * (align / bs) - 1)

section Base

variable {first need : Nat} {base : List Row}

/-- The base covers the blocks that are needed. -/
theorem HitBase.holds (h : HitBase p hashes gs bs align (maxLength / bs) need first base) {i : Nat}
    (hlow : base.length - need ≤ i) (hi : i < base.length) : HoldsHash p hashes gs base i := by
  refine h.cached i ?_ hi
  rcases h.size with hsize | ⟨hfirst, -⟩
  · omega
  · omega

/-- An aligned length with as many cached blocks as are needed is not longer. -/
theorem HitBase.not_longer (h : HitBase p hashes gs bs align (maxLength / bs) need first base)
    (hbs : 0 < bs) {l : Nat} (hmax : l * bs ≤ maxLength) (hl : align ∣ l * bs)
    (hcached : ∀ i, l - need ≤ i → i < l → CachedAt p hashes gs i) : l ≤ base.length := by
  by_contra hlt
  obtain ⟨j, hjl, hlj, hnot⟩ := h.longest l (Nat.lt_of_not_le hlt)
    ((Nat.le_div_iff_mul_le hbs).mpr hmax) hl
  exact hnot (hcached j (by omega) hjl)

theorem HitBase.slidingHit (hok : p.HashOk)
    (h : HitBase p hashes gs bs align (maxLength / bs) need first base)
    (hneed : windowBlocks bs w ≤ need) : SlidingHit p hashes gs bs w align maxLength base :=
  ⟨Nat.le_trans (Nat.mul_le_mul_right _ h.le) (Nat.div_mul_le_self _ _), h.aligned,
    fun _ hlow hi => (h.holds (by omega) hi).blocksCached hok⟩

end Base

/-- Without eagle the hit covers its window, and is the longest unless no block is needed. -/
theorem slidingLookup_plain (hok : p.HashOk) (hbs : 0 < bs) (hw : 0 < w) (hdvd : bs ∣ align)
    (hpos : 0 < align) (h : slidingLookup p hashes maxLength gs bs w false align = .ok rows) :
    SlidingHit p hashes gs bs w align maxLength rows ∧
      (LongestHit p hashes gs bs w align maxLength rows ↔
        SlidingSafe p hashes gs bs w align maxLength false) := by
  obtain ⟨first, base, hbase, hrows⟩ := slidingLookup_base hbs hw h
  rw [if_neg (fun hand => Bool.false_ne_true hand.1)] at hrows
  subst hrows
  have hneed : neededBlocks bs w false = max (windowBlocks bs w) 1 := rfl
  rw [hneed] at hbase
  refine ⟨hbase.slidingHit hok (Nat.le_max_left _ _), ?_⟩
  unfold SlidingSafe
  rw [if_neg Bool.false_ne_true]
  by_cases hW : windowBlocks bs w = 0
  · -- nothing is needed, so that only the last aligned length is the longest
    rw [hW, Nat.max_eq_right (Nat.zero_le 1)] at hbase
    obtain ⟨m, rfl⟩ := hdvd
    have hm : 0 < m := Nat.pos_of_mul_pos_left hpos
    rw [Nat.mul_div_cancel_left m hbs]
    have hlast : maxLength / (bs * m) * m * bs = maxLength / (bs * m) * (bs * m) := by
      rw [Nat.mul_assoc, Nat.mul_comm m bs]
    have hlastmax : maxLength / (bs * m) * m * bs ≤ maxLength := by
      rw [hlast]
      exact Nat.div_mul_le_self _ _
    have hle : ∀ l, l * bs ≤ maxLength → bs * m ∣ l * bs → l ≤ maxLength / (bs * m) * m := by
      intro l hmax hl
      obtain ⟨c, hc⟩ := hl
      have hcle : c ≤ maxLength / (bs * m) := by
        rw [Nat.le_div_iff_mul_le hpos, Nat.mul_comm, ← hc]
        exact hmax
      have hlc : l = m * c := by
        apply Nat.eq_of_mul_eq_mul_right hbs
        rw [hc, Nat.mul_comm bs m, Nat.mul_right_comm]
      rw [hlc, Nat.mul_comm]
      exact Nat.mul_le_mul_right m hcle
    have hrowsle := hle rows.length
      (Nat.le_trans (Nat.mul_le_mul_right _ hbase.le) (Nat.div_mul_le_self _ _)) hbase.aligned
    constructor
    · intro hlongest
      by_cases hzero : maxLength / (bs * m) = 0
      · exact Or.inr (Or.inl hzero)
      · right; right
        have hlen : rows.length = maxLength / (bs * m) * m := by
          refine Nat.le_antisymm hrowsle (hlongest _ hlastmax ?_ ?_)
          · rw [hlast]
            exact Nat.dvd_mul_left _ _
          · intro i hlow hi
            rw [hW] at hlow
            omega
        have hlenpos : 0 < rows.length := by
          rw [hlen]
          exact Nat.mul_pos (Nat.pos_of_ne_zero hzero) hm
        rw [← hlen]
        exact (hbase.holds (Nat.le_refl _) (by omega)).cachedAt
    · intro hsafe l hmax hl _
      have hl' := hle l hmax hl
      rcases hsafe with hne | hzero | hcached
      · exact absurd hW hne
      · rw [hzero, Nat.zero_mul] at hl'
        omega
      · refine Nat.le_trans hl' (hbase.not_longer hbs hlastmax ?_ fun i hlow hi => ?_)
        · rw [hlast]
          exact Nat.dvd_mul_left _ _
        · rw [show i = maxLength / (bs * m) * m - 1 by omega]
          exact hcached
  · rw [Nat.max_eq_left (Nat.pos_of_ne_zero hW)] at hbase
    constructor
    · exact fun _ => Or.inl hW
    · exact fun _ l hmax hl hcached => hbase.not_longer hbs hmax hl hcached

/-- With eagle: the last aligned length before the end of the base. -/
theorem alignRows_dropLast {base : List Row} (bs align : Nat) :
    alignRows bs align base.dropLast = base.take (alignedLen bs align (base.length - 1)) := by
  have hle := alignedLen_le bs align (base.length - 1)
  unfold alignRows
  rw [List.length_dropLast, List.dropLast_eq_take, List.take_take, Nat.min_eq_left hle]

/-- Dropping a block and aligning again moves the end by one unit of the alignment. -/
theorem alignedLen_pred {m n : Nat} (hbs : 0 < bs) (hm : 0 < m) (hn : 0 < n)
    (hdiv : bs * m ∣ n * bs) : alignedLen bs (bs * m) (n - 1) + m = n := by
  have hdvd : m ∣ n := by
    rw [Nat.mul_comm bs m] at hdiv
    exact Nat.dvd_of_mul_dvd_mul_right hbs hdiv
  have hle := alignedLen_le bs (bs * m) (n - 1)
  have hal := alignedLen_dvd bs (bs * m) (n - 1)
  rw [Nat.mul_comm bs m] at hal
  have hal' : m ∣ alignedLen bs (m * bs) (n - 1) := Nat.dvd_of_mul_dvd_mul_right hbs hal
  rw [Nat.mul_comm bs m] at hle ⊢
  have hmn : m ≤ n := Nat.le_of_dvd hn hdvd
  have hge : n - m ≤ alignedLen bs (m * bs) (n - 1) := by
    refine le_alignedLen ?_ _ (by omega)
    exact Nat.mul_dvd_mul_right (Nat.dvd_sub hdvd (Nat.dvd_refl m)) bs
  have hgap : m ≤ n - alignedLen bs (m * bs) (n - 1) :=
    Nat.le_of_dvd (by omega) (Nat.dvd_sub hdvd hal')
  omega

/-- With eagle the hit covers its window exactly in the safe cases. -/
theorem slidingLookup_eagle (hok : p.HashOk) (hgs : gs ≠ []) (hbs : 0 < bs) (hw : 0 < w)
    (hdvd : bs ∣ align) (hpos : 0 < align)
    (h : slidingLookup p hashes maxLength gs bs w true align = .ok rows) :
    SlidingHit p hashes gs bs w align maxLength rows ↔
      SlidingSafe p hashes gs bs w align maxLength true := by
  have hhit := slidingLookup_hitOk hbs h
  obtain ⟨first, base, hbase, hrows⟩ := slidingLookup_base hbs hw h
  have hneed : neededBlocks bs w true = windowBlocks bs w + 1 := rfl
  rw [hneed] at hbase
  obtain ⟨m, rfl⟩ := hdvd
  have hm : 0 < m := Nat.pos_of_mul_pos_left hpos
  unfold SlidingSafe
  rw [if_pos rfl]
  by_cases hempty : base = []
  · -- nothing was found, so that there is nothing to look for
    rw [if_neg (fun hand => hand.2 hempty)] at hrows
    subst hrows
    constructor
    · intro _
      right; right
      rintro ⟨l, hlW, -, hmax, hl, hcached⟩
      have hlen := hbase.not_longer hbs hmax hl hcached
      rw [hempty, List.length_nil] at hlen
      omega
    · exact fun _ => hbase.slidingHit hok (Nat.le_succ _)
  · rw [if_pos ⟨rfl, hempty⟩, alignRows_dropLast] at hrows
    have hlenpos : 0 < base.length := List.length_pos_iff.mpr hempty
    have hshift := alignedLen_pred hbs hm hlenpos hbase.aligned
    have hrowslen : rows.length = alignedLen bs (bs * m) (base.length - 1) := by
      rw [hrows, List.length_take]
      omega
    rw [← hrowslen] at hrows hshift
    constructor
    · intro hwindow
      by_cases hfine : bs = bs * m ∨ windowBlocks bs w = 0
      · rcases hfine with heq | hzero
        · exact Or.inl heq
        · exact Or.inr (Or.inl hzero)
      · rw [not_or] at hfine
        right; right
        rintro ⟨l, hlW, hlm, hmax, hl, hcached⟩
        have hlen := hbase.not_longer hbs hmax hl hcached
        have hm2 : m ≠ 1 := fun h1 => hfine.1 (by rw [h1, Nat.mul_one])
        have hlong : m < base.length := by
          refine Nat.lt_of_lt_of_le ?_ hlen
          rw [Nat.mul_comm bs m] at hlm
          exact Nat.lt_of_mul_lt_mul_right hlm
        -- the first block of the window lies before what was looked up
        have hnull : rows.length - windowBlocks bs w < first := by
          rcases hbase.size with hsize | ⟨-, hshort⟩
          · omega
          · omega
        have hi : rows.length - windowBlocks bs w < rows.length := by omega
        refine not_blocksCached_of_null hgs ?_
          (hwindow.window _ (Nat.le_refl _) hi)
        rw [hrows, List.getElem?_take, List.length_take, Nat.min_eq_left (by omega), if_pos hi]
        exact hbase.null _ hnull
    · intro hsafe
      refine ⟨hhit.le_max, hhit.aligned, fun i hlow hi => ?_⟩
      have hholds : HoldsHash p hashes gs base i := by
        refine hbase.cached i (Nat.le_of_not_lt fun hlt => ?_) (by omega)
        rcases hbase.size with hsize | ⟨hfirst, -⟩
        · rcases hsafe with heq | hzero | hnone
          · have hm1 : m = 1 := by
              apply Nat.eq_of_mul_eq_mul_left hbs
              rw [Nat.mul_one]
              exact heq.symm
            omega
          · omega
          · refine hnone ⟨base.length, by omega, ?_, ?_, hbase.aligned, fun j hj hjlt => ?_⟩
            · rw [Nat.mul_comm bs m]
              exact Nat.mul_lt_mul_of_pos_right (by omega) hbs
            · exact Nat.le_trans (Nat.mul_le_mul_right _ hbase.le) (Nat.div_mul_le_self _ _)
            · exact (hbase.holds hj hjlt).cachedAt
        · omega
      have htaken := hholds.take hi
      rw [← hrows] at htaken
      exact htaken.blocksCached hok

/-- The scan starts at the last block, which must have a hash. -/
theorem le_length_of_slidingLookup
    (h : slidingLookup p hashes maxLength gs bs w useEagle align = .ok rows) :
    maxLength / bs ≤ hashes.length := by
  by_contra hlt
  unfold slidingLookup at h
  cases hN : maxLength / bs with
  | zero =>
    rw [hN] at hlt
    exact hlt (Nat.zero_le _)
  | succ n =>
    have hnone : hashes[n]? = none := List.getElem?_eq_none (by omega)
    dsimp only at h
    rw [hN, slidingScan, hnone] at h
    cases h

/-- The lookup returns a hit that covers its window, and without eagle the longest one,
exactly when there is a hash for every block and in the safe cases. -/
theorem slidingLookup_covers_iff (hok : p.HashOk) (hgs : gs ≠ []) (hbs : 0 < bs) (hw : 0 < w)
    (hdvd : bs ∣ align) (hpos : 0 < align) :
    (∃ rows, slidingLookup p hashes maxLength gs bs w useEagle align = .ok rows ∧
      SlidingHit p hashes gs bs w align maxLength rows ∧
      (useEagle = false → LongestHit p hashes gs bs w align maxLength rows)) ↔
      maxLength / bs ≤ hashes.length ∧ SlidingSafe p hashes gs bs w align maxLength useEagle := by
  by_cases hlen : maxLength / bs ≤ hashes.length
  · obtain ⟨rows, hrows⟩ : ∃ rows,
        slidingLookup p hashes maxLength gs bs w useEagle align = .ok rows := by
      obtain ⟨res, hres⟩ := slidingScan_total p hashes gs bs align
        (Python.cdiv ((w : Int) - 1) bs + if useEagle = true then 1 else 0) (maxLength / bs)
        (List.replicate (maxLength / bs) (nullRow gs)) 0 hlen
      unfold slidingLookup
      dsimp only
      rw [hres]
      exact ⟨_, rfl⟩
    have hone : ∀ {rows'}, slidingLookup p hashes maxLength gs bs w useEagle align = .ok rows' →
        rows' = rows := fun h => Except.ok.inj (h.symm.trans hrows)
    rw [and_iff_right hlen]
    cases useEagle with
    | false =>
      obtain ⟨hhit, hiff⟩ := slidingLookup_plain hok hbs hw hdvd hpos hrows
      constructor
      · rintro ⟨rows', hrows', -, hlongest⟩
        rw [hone hrows'] at hlongest
        exact hiff.mp (hlongest rfl)
      · exact fun hsafe => ⟨rows, hrows, hhit, fun _ => hiff.mpr hsafe⟩
    | true =>
      have hiff := slidingLookup_eagle hok hgs hbs hw hdvd hpos hrows
      constructor
      · rintro ⟨rows', hrows', hhit, -⟩
        rw [hone hrows'] at hhit
        exact hiff.mp hhit
      · exact fun hsafe => ⟨rows, hrows, hiff.mpr hsafe, fun hfalse => by cases hfalse⟩
  · constructor
    · rintro ⟨rows, hrows, -⟩
      exact absurd (le_length_of_slidingLookup hrows) hlen
    · exact fun hsafe => absurd hsafe.1 hlen

/-! ## A block left null in the window -/

/-- With distinct keys the pool's hashes are consistent. -/
theorem cachedPool_hashOk {keys : List (BlockKey H)} (hnd : keys.Nodup) :
    (cachedPool keys).HashOk := by
  have hget : ∀ k v, (cachedMap keys).get? k = some v ↔
      ∃ i, keys[i]? = some k ∧ v = .one (i + 1) := by
    intro k v
    have hnd' : (keys.zipIdx.map Prod.fst).Nodup := by
      rw [List.zipIdx_map_fst]
      exact hnd
    unfold cachedMap
    rw [foldl_set_get?_iff _ hnd', Dict.get?_empty]
    constructor
    · rintro (⟨i, hi, rfl⟩ | ⟨-, h⟩)
      · exact ⟨i, List.mem_zipIdx_iff_getElem?.mp hi, rfl⟩
      · cases h
    · rintro ⟨i, hi, rfl⟩
      exact Or.inl ⟨i, List.mem_zipIdx_iff_getElem?.mpr hi, rfl⟩
  refine BlockPool.HashOk.mk (fun b k => ?_) (fun b k hb => ?_)
  · show (if b = 0 then none else keys[b - 1]?) = some k ↔
      b ∈ BlockPool.filedIn (cachedMap keys) k
    unfold BlockPool.filedIn
    constructor
    · intro hb
      by_cases h0 : b = 0
      · rw [if_pos h0] at hb
        cases hb
      · rw [if_neg h0] at hb
        rw [(hget k (.one (b - 1 + 1))).mpr ⟨b - 1, hb, rfl⟩]
        have heq : b = b - 1 + 1 := (Nat.succ_pred h0).symm
        exact List.mem_singleton.mpr heq
    · intro hb
      cases hv : (cachedMap keys).get? k with
      | none => rw [hv] at hb; cases hb
      | some v =>
        obtain ⟨i, hi, rfl⟩ := (hget k v).mp hv
        rw [hv] at hb
        obtain rfl := List.mem_singleton.mp hb
        rw [if_neg (Nat.succ_ne_zero i), Nat.add_sub_cancel]
        exact hi
  · have hb' : (if b = 0 then none else keys[b - 1]?) = some k := hb
    by_cases h0 : b = 0
    · rw [if_pos h0] at hb'
      cases hb'
    · rw [if_neg h0] at hb'
      obtain ⟨hlt, -⟩ := List.getElem?_eq_some_iff.mp hb'
      refine ⟨h0, ?_⟩
      have hpos : b = b - 1 + 1 := (Nat.succ_pred h0).symm
      rw [hpos]
      exact Nat.succ_lt_succ hlt

/-- Blocks of one token, an alignment of two and the last two of four blocks cached: eagle
drops the last block, and aligning again drops the other cached one. -/
theorem slidingLookup_left_null :
    ¬ ∃ rows, slidingLookup (cachedPool [([2], 0), ([3], 0)]) [[0], [1], [2], [3]] 4 [0] 1 2 true 2
        = .ok rows ∧
      SlidingHit (cachedPool [([2], 0), ([3], 0)]) [[0], [1], [2], [3]] [0] 1 2 2 4 rows ∧
      (true = false → LongestHit (cachedPool [([2], 0), ([3], 0)]) [[0], [1], [2], [3]] [0] 1 2 2 4
        rows) := by
  rintro ⟨rows, hrows, hhit, -⟩
  have hnull : slidingLookup (cachedPool [([2], 0), ([3], 0)]) [[0], [1], [2], [3]] 4 [0] 1 2 true 2
      = .ok [[0], [0]] := by decide
  obtain rfl := Except.ok.inj (hrows.symm.trans hnull)
  exact not_blocksCached_of_null (List.cons_ne_nil 0 []) rfl
    (hhit.window 1 (by decide) (by decide))

/-- The same blocks without an alignment: the hit is the third block. -/
theorem slidingLookup_covers_iff_aligned :
    (∃ rows, slidingLookup (cachedPool [([2], 0), ([3], 0)]) [[0], [1], [2], [3]] 4 [0] 1 2 true 1
        = .ok rows ∧
      SlidingHit (cachedPool [([2], 0), ([3], 0)]) [[0], [1], [2], [3]] [0] 1 2 1 4 rows ∧
      (true = false → LongestHit (cachedPool [([2], 0), ([3], 0)]) [[0], [1], [2], [3]] [0] 1 2 1 4
        rows)) ↔
      4 / 1 ≤ [[0], [1], [2], [3]].length ∧
        SlidingSafe (cachedPool [([2], 0), ([3], 0)]) [[0], [1], [2], [3]] [0] 1 2 1 4 true :=
  slidingLookup_covers_iff (cachedPool_hashOk (by decide)) (List.cons_ne_nil 0 [])
    Nat.one_pos Nat.two_pos (Nat.dvd_refl 1) Nat.one_pos

end Lookup

end VllmEngine

/-!
## Hits of a chunked-local layer cover the chunk

`ChunkedLocalAttentionManager.find_longest_cache_hit` marks the blocks before the chunk of
`max_length` as computed and looks up the blocks from there on. With a hit among these the
chunk of the result is the chunk of `max_length`. Without one the result ends at the block in
which that chunk begins, and unless a chunk ends there the next token attends to blocks that
were never looked up.

> `chunkedLookup_covers_iff`: when every block that the next token attends to is cached.
-/

namespace VllmEngine

variable {H : Type} [DecidableEq H]

/-- The first block of the chunk that the lookup takes for the window. -/
def localAttentionStartBlock (maxLength blockSize chunk : Nat) : Nat :=
  maxLength / chunk * chunk / blockSize

/-- The hit fits, the next token attends to cached blocks only, and what is null is skipped. -/
structure ChunkedHit (p : BlockPool H) (m : SingleTypeManager H) (hashes : List (List H))
    (gs : List GroupId) (chunk maxLength : Nat) (rows : List Row) : Prop where
  le_max : rows.length * m.spec.blockSize ≤ maxLength
  window : ∀ i < rows.length,
    (∃ pos, pos / m.spec.blockSize = i ∧
      rows.length * m.spec.blockSize / chunk * chunk ≤ pos ∧
      pos < rows.length * m.spec.blockSize) →
    BlocksCached p hashes gs rows i
  skipped : ∀ (i j : Nat), j < gs.length → (column rows j)[i]? = some nullBlock →
    ∀ pos : Nat, pos / m.spec.blockSize = i →
      (pos : Int) < m.getNumSkippedTokens ((rows.length * m.spec.blockSize : Nat) : Int)

/-- A chunk ends with the blocks before the window, or the first block of the window is
looked up and cached. -/
def ChunkedSafe (p : BlockPool H) (hashes : List (List H)) (gs : List GroupId)
    (bs chunk maxLength : Nat) : Prop :=
  chunk ∣ localAttentionStartBlock maxLength bs chunk * bs ∨
    localAttentionStartBlock maxLength bs chunk < maxLength / bs ∧
      CachedAt p hashes gs (localAttentionStartBlock maxLength bs chunk)

section

variable {p : BlockPool H} {m : SingleTypeManager H} {hashes : List (List H)} {gs : List GroupId}
  {bs chunk maxLength align : Nat} {useEagle : Bool} {rows : List Row} {a : AttentionFields}

omit [DecidableEq H] in
theorem getNumSkippedTokens_chunked (hkind : m.spec.kind = .chunkedLocalAttention a chunk)
    (n : Nat) : m.getNumSkippedTokens n = ((n / chunk * chunk : Nat) : Int) := by
  unfold SingleTypeManager.getNumSkippedTokens
  rw [hkind]
  show Int.fdiv n chunk * chunk = _
  rw [Int.fdiv_eq_ediv_of_nonneg _ (Int.natCast_nonneg chunk)]
  exact (Nat.cast_mul _ _).symm

/-- The rows before the window are null, the others are those of a scan. -/
theorem chunkedLocalLookup_rows
    (h : chunkedLocalLookup p hashes maxLength gs bs chunk useEagle align = .ok rows) :
    rows = List.replicate (localAttentionStartBlock maxLength bs chunk) (nullRow gs) ++
      scanCached p gs
        ((hashes.take (maxLength / bs)).drop (localAttentionStartBlock maxLength bs chunk)) := by
  unfold chunkedLocalLookup at h
  simp only [Raises.bind_eq_ok] at h
  obtain ⟨-, -, -, -, h⟩ := h
  split at h
  · simp only [bind, Except.bind, throw, throwThe, MonadExceptOf.throw] at h
    cases h
  · exact (Except.ok.inj h).symm

/-- The scan finds something exactly when the first block of the window is cached. -/
theorem scanCached_ne_nil_iff {n k : Nat} :
    scanCached p gs ((hashes.take n).drop k) ≠ [] ↔ k < n ∧ CachedAt p hashes gs k := by
  constructor
  · intro hne
    obtain ⟨row, rest, hrow⟩ := List.exists_cons_of_ne_nil hne
    obtain ⟨hash, hi, hget⟩ := scanCached_spec p gs _ 0 row (by rw [hrow]; rfl)
    rw [List.getElem?_drop, Nat.add_zero] at hi
    have hk : k < n := by
      by_contra hnk
      rw [List.getElem?_take, if_neg hnk] at hi
      cases hi
    exact ⟨hk, cachedAt_of_some (getElem?_of_take hi) hget⟩
  · rintro ⟨hk, hash, hi, hall⟩
    have hfirst : CachedAt p ((hashes.take n).drop k) gs 0 := by
      refine ⟨hash, ?_, hall⟩
      rw [List.getElem?_drop, Nat.add_zero, List.getElem?_take, if_pos hk]
      exact hi
    have hlen : 1 ≤ (scanCached p gs ((hashes.take n).drop k)).length := by
      apply le_scanCached_length
      intro i hi1
      rw [Nat.lt_one_iff.mp hi1]
      exact hfirst
    exact List.length_pos_iff.mp hlen

/-- A row of the scan holds the blocks of its hash. -/
theorem holdsHash_of_scan {n k i : Nat}
    (hrows : rows = List.replicate k (nullRow gs) ++ scanCached p gs ((hashes.take n).drop k))
    (hk : k ≤ i) (hi : i < rows.length) : HoldsHash p hashes gs rows i := by
  have hget : rows[i]? = (scanCached p gs ((hashes.take n).drop k))[i - k]? := by
    rw [hrows, List.getElem?_append_right (by rw [List.length_replicate]; exact hk),
      List.length_replicate]
  obtain ⟨row, hrow⟩ : ∃ row, rows[i]? = some row := ⟨_, List.getElem?_eq_getElem hi⟩
  obtain ⟨hash, hh, hcached⟩ := scanCached_spec p gs _ _ _ (hget.symm.trans hrow)
  rw [List.getElem?_drop, Nat.add_sub_cancel' hk] at hh
  exact ⟨hash, row, getElem?_of_take hh, hcached, hrow⟩

/-- A row that holds cached blocks holds no null block. -/
theorem BlocksCached.ne_null {i j : Nat} (h : BlocksCached p hashes gs rows i)
    (hj : j < gs.length) : (column rows j)[i]? ≠ some nullBlock := by
  obtain ⟨hash, b, -, -, hne, hb⟩ := h j gs[j] (List.getElem?_eq_getElem hj)
  rw [hb]
  exact fun heq => hne (Option.some.inj heq)

/-- With a hit the chunk of the result is the chunk of `max_length`. -/
theorem chunk_of_hit {l : Nat} (hchunk : 0 < chunk)
    (hlow : localAttentionStartBlock maxLength bs chunk < l) (hbs : 0 < bs)
    (hmax : l * bs ≤ maxLength) : l * bs / chunk * chunk = maxLength / chunk * chunk := by
  have hstart : maxLength / chunk * chunk ≤ l * bs :=
    Nat.le_of_lt ((Nat.div_lt_iff_lt_mul hbs).mp hlow)
  apply congrArg (· * chunk)
  apply Nat.le_antisymm
  · exact Nat.div_le_div_right hmax
  · exact (Nat.le_div_iff_mul_le hchunk).mpr hstart

/-- Every block of the hit is cached or ends where the chunk begins. -/
theorem chunkedHit_of_safe (hok : p.HashOk) (hbs : 0 < m.spec.blockSize) (hchunk : 0 < chunk)
    (hkind : m.spec.kind = .chunkedLocalAttention a chunk)
    (hmax : rows.length * m.spec.blockSize ≤ maxLength)
    (hrows : rows =
      List.replicate (localAttentionStartBlock maxLength m.spec.blockSize chunk) (nullRow gs) ++
        scanCached p gs ((hashes.take (maxLength / m.spec.blockSize)).drop
          (localAttentionStartBlock maxLength m.spec.blockSize chunk)))
    (hsafe : ChunkedSafe p hashes gs m.spec.blockSize chunk maxLength) :
    ChunkedHit p m hashes gs chunk maxLength rows := by
  have hle : localAttentionStartBlock maxLength m.spec.blockSize chunk ≤ rows.length := by
    rw [hrows, List.length_append, List.length_replicate]
    exact Nat.le_add_right _ _
  -- the blocks before the window end where the chunk of the result begins
  have hbefore : localAttentionStartBlock maxLength m.spec.blockSize chunk * m.spec.blockSize ≤
      rows.length * m.spec.blockSize / chunk * chunk := by
    rcases Nat.lt_or_eq_of_le hle with hlt | heq
    · rw [chunk_of_hit hchunk hlt hbs hmax]
      exact Nat.div_mul_le_self _ _
    · rcases hsafe with hdvd | hcached
      · rw [← heq, Nat.div_mul_cancel hdvd]
      · have hne := List.length_pos_iff.mpr (scanCached_ne_nil_iff.mpr hcached)
        have hlen := congrArg List.length hrows
        rw [List.length_append, List.length_replicate] at hlen
        omega
  refine ⟨hmax, ?_, ?_⟩
  · rintro i hi ⟨pos, hpos, hlow, -⟩
    refine (holdsHash_of_scan hrows (Nat.le_of_not_lt fun hlt => ?_) hi).blocksCached hok
    have hend : (i + 1) * m.spec.blockSize ≤
        localAttentionStartBlock maxLength m.spec.blockSize chunk * m.spec.blockSize :=
      Nat.mul_le_mul_right _ hlt
    have hposlt : pos < (i + 1) * m.spec.blockSize :=
      (Nat.div_lt_iff_lt_mul hbs).mp (by omega)
    omega
  · intro i j hj hnull pos hpos
    rw [getNumSkippedTokens_chunked hkind]
    have hi : i < rows.length := by
      obtain ⟨hi, -⟩ := List.getElem?_eq_some_iff.mp hnull
      unfold column at hi
      rw [List.length_map] at hi
      exact hi
    have hlt : i < localAttentionStartBlock maxLength m.spec.blockSize chunk := by
      by_contra hge
      exact ((holdsHash_of_scan hrows (Nat.le_of_not_lt hge) hi).blocksCached hok).ne_null hj hnull
    have hend : (i + 1) * m.spec.blockSize ≤
        localAttentionStartBlock maxLength m.spec.blockSize chunk * m.spec.blockSize :=
      Nat.mul_le_mul_right _ hlt
    have hposlt : pos < (i + 1) * m.spec.blockSize :=
      (Nat.div_lt_iff_lt_mul hbs).mp (by omega)
    omega

/-- Without a hit the last block before the window ends in the middle of a chunk. -/
theorem safe_of_chunkedHit (hgs : gs ≠ [])
    (hrows : rows =
      List.replicate (localAttentionStartBlock maxLength m.spec.blockSize chunk) (nullRow gs) ++
        scanCached p gs ((hashes.take (maxLength / m.spec.blockSize)).drop
          (localAttentionStartBlock maxLength m.spec.blockSize chunk)))
    (hhit : ChunkedHit p m hashes gs chunk maxLength rows) :
    ChunkedSafe p hashes gs m.spec.blockSize chunk maxLength := by
  by_cases hscan : scanCached p gs ((hashes.take (maxLength / m.spec.blockSize)).drop
      (localAttentionStartBlock maxLength m.spec.blockSize chunk)) = []
  · left
    rw [hscan, List.append_nil] at hrows
    have hlen : rows.length = localAttentionStartBlock maxLength m.spec.blockSize chunk := by
      rw [hrows, List.length_replicate]
    rw [← hlen]
    by_contra hdvd
    have hpos : 0 < rows.length * m.spec.blockSize := by
      refine Nat.pos_of_ne_zero fun h0 => hdvd ?_
      rw [h0]
      exact Nat.dvd_zero chunk
    have hlt : rows.length * m.spec.blockSize / chunk * chunk < rows.length * m.spec.blockSize := by
      refine Nat.lt_of_le_of_ne (Nat.div_mul_le_self _ _) fun heq => hdvd ?_
      exact Nat.dvd_of_mod_eq_zero (by
        have := Nat.div_add_mod' (rows.length * m.spec.blockSize) chunk
        omega)
    -- the last position of the hit lies in its last block, which is null
    have hlast : (rows.length * m.spec.blockSize - 1) / m.spec.blockSize = rows.length - 1 := by
      rw [Nat.mul_comm, Nat.mul_sub_div _ _ _ (by rw [Nat.mul_comm]; exact hpos), Nat.zero_div]
    have hlenpos : 0 < rows.length := Nat.pos_of_mul_pos_right hpos
    refine not_blocksCached_of_null hgs ?_ (hhit.window (rows.length - 1) (by omega)
      ⟨rows.length * m.spec.blockSize - 1, hlast, by omega, by omega⟩)
    rw [hrows, List.length_replicate, List.getElem?_replicate, if_pos (by omega)]
  · exact Or.inr (scanCached_ne_nil_iff.mp hscan)

/-- What the lookup returns covers the chunk of the next token exactly in the safe cases. -/
theorem chunkedLookup_covers_iff (hok : p.HashOk) (hgs : gs ≠ []) (hbs : 0 < m.spec.blockSize)
    (hchunk : 0 < chunk) (hkind : m.spec.kind = .chunkedLocalAttention a chunk)
    (h : findLongestCacheHit p hashes maxLength gs m.spec useEagle align = .ok rows) :
    ChunkedHit p m hashes gs chunk maxLength rows ↔
      ChunkedSafe p hashes gs m.spec.blockSize chunk maxLength := by
  have hmax := (findLongestCacheHit_hitOk hbs h).le_max
  unfold findLongestCacheHit at h
  rw [hkind] at h
  have hrows := chunkedLocalLookup_rows h
  constructor
  · exact safe_of_chunkedHit hgs hrows
  · exact chunkedHit_of_safe hok hbs hchunk hkind hmax hrows

end

/-! ## Examples -/

/-- The manager of a layer with the given block size and chunk size. -/
def chunkedLayer (blockSize chunk : Nat) : SingleTypeManager Nat where
  spec := ⟨blockSize, .chunkedLocalAttention ⟨1, 64, .bfloat16, .none, none⟩ chunk⟩
  groupId := 0
  enableCaching := true
  newBlockIds := []
  reqToBlocks := Dict.empty
  numCachedBlock := Dict.empty
  cachedBlocksThisStep := []
  lastStateBlockIdx := Dict.empty
  allocatedBlockReqs := []

/-- Chunks of six tokens, blocks of four and nothing cached: the block of the first four tokens
is returned as computed, and the next token attends to it. -/
theorem chunkedLookup_left_null :
    ¬ ∀ rows, findLongestCacheHit (cachedPool []) [[0]] 6 [0] (chunkedLayer 4 6).spec false 4
        = .ok rows →
      ChunkedHit (cachedPool []) (chunkedLayer 4 6) [[0]] [0] 6 6 rows := by
  intro hall
  have hhit := hall [[0]] (by decide)
  exact not_blocksCached_of_null (List.cons_ne_nil 0 []) rfl
    (hhit.window 0 (by decide) ⟨0, by decide, by decide, by decide⟩)

/-- Chunks of eight tokens, blocks of four, at most fifteen tokens: the third block is cached. -/
theorem chunkedLookup_covers_iff_third :
    ChunkedHit (cachedPool [([2], 0)]) (chunkedLayer 4 8) [[0], [1], [2]] [0] 8 15 [[0], [0], [1]] ↔
      ChunkedSafe (cachedPool [([2], 0)]) [[0], [1], [2]] [0] 4 8 15 := by
  have hlookup : findLongestCacheHit (cachedPool [([2], 0)]) [[0], [1], [2]] 15 [0]
      (chunkedLayer 4 8).spec false 4 = .ok [[0], [0], [1]] := by decide
  exact chunkedLookup_covers_iff (cachedPool_hashOk (by decide)) (List.cons_ne_nil 0 [])
    (Nat.succ_pos 3) (Nat.succ_pos 7) rfl hlookup

end VllmEngine
