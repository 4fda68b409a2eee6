import VllmEngine.Kv.Spec
import VllmEngine.Kv.BlockPool

/-!
# Prefix-cache lookup of one attention type

`find_longest_cache_hit` of the single-type managers
(`vllm/v1/core/single_type_kv_cache_manager.py`). A lookup runs over the block
hashes at the group's own block size and returns, for each of its groups, a
list of blocks, all of one length. They are kept here as a list of *rows*, one
block per group in each row; `column` gives the list of one group.

Every lookup has the same contract, whatever its scan direction:

> `findLongestCacheHit_hitOk`: the hit fits the maximum, is aligned, and each of
> its rows is the null row or the cached row of that index.

> `findLongestCacheHit_best`: without eagle, the hit is the longest aligned
> length that the attention type accepts.
-/

namespace VllmEngine

variable {H : Type} [DecidableEq H]

/-- One block per group. -/
abbrev Row := List BlockId

def nullRow (groupIds : List GroupId) : Row := List.replicate groupIds.length nullBlock

/-- The block list of the `j`-th group. -/
def column (rows : List Row) (j : Nat) : List BlockId := rows.map fun row => row.getD j nullBlock

/-! ## The lookups -/

/-- How many of `n` rows are left when rows are popped until the length is a
multiple of `alignmentTokens`. -/
def alignedLen (blockSize alignmentTokens : Nat) : Nat → Nat
  | 0 => 0
  | n + 1 =>
    if blockSize ≠ alignmentTokens ∧ (n + 1) * blockSize % alignmentTokens ≠ 0 then
      alignedLen blockSize alignmentTokens n
    else n + 1

/-- The popping loops `while … % alignment_tokens != 0: computed.pop()`. -/
def alignRows (blockSize alignmentTokens : Nat) (rows : List Row) : List Row :=
  rows.take (alignedLen blockSize alignmentTokens rows.length)

/-- The left-to-right scan, up to the first miss. -/
def scanCached (p : BlockPool H) (groupIds : List GroupId) : List (List H) → List Row
  | [] => []
  | h :: hs =>
    match p.getCachedBlock h groupIds with
    | some row => row :: scanCached p groupIds hs
    | none => []

/-- `FullAttentionManager.find_longest_cache_hit`. -/
def fullLookup (p : BlockPool H) (hashes : List (List H)) (maxLength : Nat)
    (groupIds : List GroupId) (blockSize : Nat) (useEagle : Bool) (alignmentTokens : Nat) :
    List Row :=
  let rows := scanCached p groupIds (hashes.take (maxLength / blockSize))
  let rows := if useEagle then rows.dropLast else rows
  alignRows blockSize alignmentTokens rows

/-- The right-to-left scan of `SlidingWindowManager.find_longest_cache_hit`,
from index `i - 1` down: the rows, the length of the current run and whether a
long enough run was found. -/
def slidingScan (p : BlockPool H) (hashes : List (List H)) (groupIds : List GroupId)
    (blockSize alignmentTokens : Nat) (contiguousBlocks : Int) :
    Nat → List Row → Nat → Except Python.Error (List Row × Nat × Bool)
  | 0, rows, run => .ok (rows, run, false)
  | i + 1, rows, run =>
    match hashes[i]? with
    | none => .error (.index "list index out of range")
    | some h =>
      match p.getCachedBlock h groupIds with
      | some row =>
        if run = 0 ∧ blockSize ≠ alignmentTokens ∧ (i + 1) * blockSize % alignmentTokens ≠ 0 then
          slidingScan p hashes groupIds blockSize alignmentTokens contiguousBlocks i rows run
        else
          let rows := rows.set i row
          let run := run + 1
          if (run : Int) ≥ contiguousBlocks then .ok (rows.take (i + run), run, true)
          else slidingScan p hashes groupIds blockSize alignmentTokens contiguousBlocks i rows run
      | none => slidingScan p hashes groupIds blockSize alignmentTokens contiguousBlocks i rows 0

/-- `SlidingWindowManager.find_longest_cache_hit`. -/
def slidingLookup (p : BlockPool H) (hashes : List (List H)) (maxLength : Nat)
    (groupIds : List GroupId) (blockSize slidingWindow : Nat) (useEagle : Bool)
    (alignmentTokens : Nat) : Except Python.Error (List Row) := do
  -- the input token itself is also in the window
  let contiguousBlocks := Python.cdiv ((slidingWindow : Int) - 1) blockSize
    + (if useEagle then 1 else 0)
  let maxNumBlocks := maxLength / blockSize
  let (rows, run, matchFound) ← slidingScan p hashes groupIds blockSize alignmentTokens
    contiguousBlocks maxNumBlocks (List.replicate maxNumBlocks (nullRow groupIds)) 0
  let rows := if matchFound then rows else alignRows blockSize alignmentTokens (rows.take run)
  return if useEagle ∧ rows ≠ [] then alignRows blockSize alignmentTokens rows.dropLast else rows

/-- The right-to-left scan of `MambaManager.find_longest_cache_hit`. -/
def mambaScan (p : BlockPool H) (hashes : List (List H)) (groupIds : List GroupId)
    (blockSize alignmentTokens : Nat) : Nat → Except Python.Error (List Row)
  | 0 => .ok []
  | i + 1 =>
    match hashes[i]? with
    | none => .error (.index "list index out of range")
    | some h =>
      match p.getCachedBlock h groupIds with
      | some row =>
        if blockSize ≠ alignmentTokens ∧ (i + 1) * blockSize % alignmentTokens ≠ 0 then
          mambaScan p hashes groupIds blockSize alignmentTokens i
        else .ok (List.replicate i (nullRow groupIds) ++ [row])
      | none => mambaScan p hashes groupIds blockSize alignmentTokens i

/-- `ChunkedLocalAttentionManager.find_longest_cache_hit`. -/
def chunkedLocalLookup (p : BlockPool H) (hashes : List (List H)) (maxLength : Nat)
    (groupIds : List GroupId) (blockSize attentionChunkSize : Nat) (useEagle : Bool)
    (alignmentTokens : Nat) : Except Python.Error (List Row) := do
  Python.require (!useEagle)
    "Hybrid KV cache is not supported for eagle + chunked local attention."
  Python.require (decide (blockSize = alignmentTokens))
    ("KV cache groups with different block sizes are not compatible with "
      ++ "chunked local attention now")
  let maxNumBlocks := maxLength / blockSize
  let localAttentionStartIdx := maxLength / attentionChunkSize * attentionChunkSize
  let startBlock := localAttentionStartIdx / blockSize
  let inWindow := (hashes.take maxNumBlocks).drop startBlock
  let rows := scanCached p groupIds inWindow
  -- the scan runs past the hashes only if all of them were hits
  if rows.length = inWindow.length ∧ max hashes.length startBlock < maxNumBlocks then
    throw (.index "list index out of range")
  return List.replicate startBlock (nullRow groupIds) ++ rows

/-- `find_longest_cache_hit` of the spec's manager class. -/
def findLongestCacheHit (p : BlockPool H) (hashes : List (List H)) (maxLength : Nat)
    (groupIds : List GroupId) (spec : KVCacheSpec) (useEagle : Bool) (alignmentTokens : Nat) :
    Except Python.Error (List Row) :=
  match spec.kind with
  | .fullAttention .. | .tqFullAttention .. | .mlaAttention .. | .sinkFullAttention .. =>
    .ok (fullLookup p hashes maxLength groupIds spec.blockSize useEagle alignmentTokens)
  | .chunkedLocalAttention _ chunk =>
    chunkedLocalLookup p hashes maxLength groupIds spec.blockSize chunk useEagle alignmentTokens
  | .slidingWindow _ w =>
    slidingLookup p hashes maxLength groupIds spec.blockSize w useEagle alignmentTokens
  | .mamba _ => mambaScan p hashes groupIds spec.blockSize alignmentTokens
      (maxLength / spec.blockSize)
  | .crossAttention _ =>
    .error (.notImplemented "CrossAttentionManager does not support caching")

/-! ## Cached rows -/

/-- All groups hold the block of index `i`. -/
def CachedAt (p : BlockPool H) (hashes : List (List H)) (groupIds : List GroupId) (i : Nat) :
    Prop :=
  ∃ h, hashes[i]? = some h ∧ ∀ g ∈ groupIds, ∃ b, p.getOneBlock (h, g) = some b

/-- The row of index `i` is null or holds the cached blocks of that index. -/
def RowOk (p : BlockPool H) (hashes : List (List H)) (groupIds : List GroupId) (i : Nat)
    (row : Row) : Prop :=
  row = nullRow groupIds ∨ ∃ h, hashes[i]? = some h ∧ p.getCachedBlock h groupIds = some row

def RowsOk (p : BlockPool H) (hashes : List (List H)) (groupIds : List GroupId)
    (rows : List Row) : Prop :=
  ∀ i row, rows[i]? = some row → RowOk p hashes groupIds i row

/-- The contract of a lookup. -/
structure HitOk (p : BlockPool H) (hashes : List (List H)) (groupIds : List GroupId)
    (blockSize alignmentTokens maxLength : Nat) (rows : List Row) : Prop where
  le_max : rows.length * blockSize ≤ maxLength
  aligned : alignmentTokens ∣ rows.length * blockSize
  rows_ok : RowsOk p hashes groupIds rows

variable {p : BlockPool H} {gs : List GroupId} {hashes : List (List H)} {rows : List Row}
  {bs align maxLength : Nat} {useEagle : Bool} {spec : KVCacheSpec}

theorem getCachedBlock_eq_some_iff {h : List H} {row : Row} :
    p.getCachedBlock h gs = some row ↔
      List.Forall₂ (fun g b => p.getOneBlock (h, g) = some b) gs row := by
  unfold BlockPool.getCachedBlock
  induction gs generalizing row with
  | nil => simp [eq_comm]
  | cons g gs ih =>
    cases hg : p.getOneBlock (h, g) with
    | none =>
      cases row with
      | nil => simp [hg]
      | cons b' row => simp [hg, List.forall₂_cons]
    | some b =>
      cases row with
      | nil => cases hr : gs.mapM (fun g => p.getOneBlock (h, g)) <;> simp [hg, hr]
      | cons b' row =>
        rw [List.forall₂_cons, hg, ← ih]
        cases hr : gs.mapM (fun g => p.getOneBlock (h, g)) <;> simp [hg, hr]

theorem getCachedBlock_eq_none_iff {h : List H} :
    p.getCachedBlock h gs = none ↔ ∃ g ∈ gs, p.getOneBlock (h, g) = none := by
  unfold BlockPool.getCachedBlock
  induction gs with
  | nil => simp
  | cons g gs ih =>
    cases hg : p.getOneBlock (h, g) with
    | none => simp [hg]
    | some b =>
      rw [List.mapM_cons, hg]
      cases hr : gs.mapM (fun g => p.getOneBlock (h, g)) with
      | none => simpa [hg, hr] using ih
      | some row => simpa [hg, hr] using ih

theorem cachedAt_of_some {i : Nat} {h : List H} {row : Row} (hi : hashes[i]? = some h)
    (hr : p.getCachedBlock h gs = some row) : CachedAt p hashes gs i := by
  refine ⟨h, hi, fun g hg => ?_⟩
  cases hb : p.getOneBlock (h, g) with
  | some b => exact ⟨b, rfl⟩
  | none =>
    rw [getCachedBlock_eq_none_iff.mpr ⟨g, hg, hb⟩] at hr
    cases hr

theorem not_cachedAt_of_none {i : Nat} {h : List H} (hi : hashes[i]? = some h)
    (hr : p.getCachedBlock h gs = none) : ¬ CachedAt p hashes gs i := by
  rintro ⟨h', hi', hall⟩
  rw [hi, Option.some.injEq] at hi'
  subst hi'
  obtain ⟨g, hg, hn⟩ := getCachedBlock_eq_none_iff.mp hr
  obtain ⟨b, hb⟩ := hall g hg
  rw [hn] at hb
  cases hb

/-! ## Rows -/

theorem RowsOk.take (h : RowsOk p hashes gs rows) (n : Nat) : RowsOk p hashes gs (rows.take n) := by
  intro i row hrow
  rw [List.getElem?_take] at hrow
  by_cases hi : i < n
  · rw [if_pos hi] at hrow
    exact h i row hrow
  · rw [if_neg hi] at hrow
    cases hrow

theorem RowsOk.set (h : RowsOk p hashes gs rows) {i : Nat} {row : Row}
    (hrow : RowOk p hashes gs i row) : RowsOk p hashes gs (rows.set i row) := by
  intro j row' hj
  rw [List.getElem?_set] at hj
  by_cases hij : i = j
  · subst hij
    by_cases hlt : i < rows.length
    · rw [if_pos rfl, if_pos hlt, Option.some.injEq] at hj
      exact hj ▸ hrow
    · rw [if_pos rfl, if_neg hlt] at hj
      cases hj
  · rw [if_neg hij] at hj
    exact h j row' hj

theorem rowsOk_replicate_null (p : BlockPool H) (hashes : List (List H)) (gs : List GroupId)
    (n : Nat) : RowsOk p hashes gs (List.replicate n (nullRow gs)) := by
  intro i row hrow
  exact Or.inl (List.eq_of_mem_replicate (List.mem_of_getElem? hrow))

theorem RowsOk.append {rows' : List Row} (h : RowsOk p hashes gs rows)
    (h' : ∀ i row, rows'[i]? = some row → RowOk p hashes gs (rows.length + i) row) :
    RowsOk p hashes gs (rows ++ rows') := by
  intro i row hrow
  by_cases hi : i < rows.length
  · rw [List.getElem?_append_left hi] at hrow
    exact h i row hrow
  · rw [List.getElem?_append_right (by omega)] at hrow
    have := h' (i - rows.length) row hrow
    rwa [Nat.add_sub_cancel' (by omega)] at this

/-! ## Alignment -/

theorem alignedLen_le (bs align : Nat) : ∀ n, alignedLen bs align n ≤ n := by
  intro n
  induction n with
  | zero => exact Nat.le_refl 0
  | succ n ih =>
    rw [alignedLen]
    split
    · exact Nat.le_succ_of_le ih
    · exact Nat.le_refl _

theorem alignedLen_dvd (bs align : Nat) : ∀ n, align ∣ alignedLen bs align n * bs := by
  intro n
  induction n with
  | zero => simp [alignedLen]
  | succ n ih =>
    rw [alignedLen]
    split
    · exact ih
    · rename_i h
      by_cases hbs : bs = align
      · rw [hbs]
        exact Nat.dvd_mul_left _ _
      · refine Nat.dvd_of_mod_eq_zero ?_
        by_contra hne
        exact h ⟨hbs, hne⟩

/-- No aligned length is missed. -/
theorem le_alignedLen {m : Nat} (hm : align ∣ m * bs) : ∀ n, m ≤ n → m ≤ alignedLen bs align n := by
  intro n
  induction n with
  | zero => intro h; exact h
  | succ n ih =>
    intro h
    rw [alignedLen]
    split
    · rename_i hne
      refine ih ?_
      rcases Nat.lt_or_eq_of_le h with hlt | heq
      · omega
      · exact absurd (Nat.mod_eq_zero_of_dvd (heq ▸ hm)) hne.2
    · exact h

theorem alignRows_length (bs align : Nat) (rows : List Row) :
    (alignRows bs align rows).length = alignedLen bs align rows.length := by
  rw [alignRows, List.length_take]
  exact Nat.min_eq_left (alignedLen_le _ _ _)

/-- Aligning rows that fit the maximum meets the contract. -/
theorem alignRows_hitOk (hrows : RowsOk p hashes gs rows) (hle : rows.length ≤ maxLength / bs) :
    HitOk p hashes gs bs align maxLength (alignRows bs align rows) where
  le_max := by
    rw [alignRows_length]
    calc alignedLen bs align rows.length * bs
        ≤ maxLength / bs * bs := Nat.mul_le_mul_right _ (Nat.le_trans (alignedLen_le _ _ _) hle)
      _ ≤ maxLength := Nat.div_mul_le_self _ _
  aligned := by
    rw [alignRows_length]
    exact alignedLen_dvd _ _ _
  rows_ok := hrows.take _

/-! ## The scans -/

/-- The left-to-right scan returns the cached rows of a prefix. -/
theorem scanCached_spec (p : BlockPool H) (gs : List GroupId) :
    ∀ (hs : List (List H)) (i : Nat) (row : Row), (scanCached p gs hs)[i]? = some row →
      ∃ h, hs[i]? = some h ∧ p.getCachedBlock h gs = some row := by
  intro hs
  induction hs with
  | nil => intro i row h; simp [scanCached] at h
  | cons h hs ih =>
    intro i row hrow
    cases hr : p.getCachedBlock h gs with
    | none => simp [scanCached, hr] at hrow
    | some row₀ =>
      cases i with
      | zero =>
        simp only [scanCached, hr, List.getElem?_cons_zero, Option.some.injEq] at hrow
        exact ⟨h, by simp, by rw [hr, hrow]⟩
      | succ i =>
        simp only [scanCached, hr, List.getElem?_cons_succ] at hrow
        obtain ⟨h', h1, h2⟩ := ih i row hrow
        exact ⟨h', by simpa using h1, h2⟩

theorem scanCached_length_le (p : BlockPool H) (gs : List GroupId) :
    ∀ hs : List (List H), (scanCached p gs hs).length ≤ hs.length := by
  intro hs
  induction hs with
  | nil => exact Nat.le_refl 0
  | cons h hs ih =>
    cases hr : p.getCachedBlock h gs with
    | none => simp [scanCached, hr]
    | some row => simpa [scanCached, hr] using ih

/-- The scan does not stop before a miss. -/
theorem le_scanCached_length :
    ∀ {hs : List (List H)} {n : Nat}, (∀ i < n, CachedAt p hs gs i) →
      n ≤ (scanCached p gs hs).length := by
  intro hs
  induction hs with
  | nil =>
    intro n hn
    cases n with
    | zero => exact Nat.le_refl 0
    | succ n =>
      obtain ⟨h, hi, -⟩ := hn 0 (Nat.succ_pos n)
      simp at hi
  | cons h hs ih =>
    intro n hn
    cases n with
    | zero => exact Nat.zero_le _
    | succ n =>
      obtain ⟨row, hr⟩ : ∃ row, p.getCachedBlock h gs = some row := by
        cases hr : p.getCachedBlock h gs with
        | some row => exact ⟨row, rfl⟩
        | none =>
          exact absurd (hn 0 (Nat.succ_pos n)) (not_cachedAt_of_none (i := 0) (by simp) hr)
      have hrest : ∀ i < n, CachedAt p hs gs i := by
        intro i hi
        obtain ⟨h', h1, h2⟩ := hn (i + 1) (by omega)
        exact ⟨h', by simpa using h1, h2⟩
      simpa [scanCached, hr] using ih hrest

theorem getElem?_of_take {α : Type} {l : List α} {n i : Nat} {a : α}
    (h : (l.take n)[i]? = some a) : l[i]? = some a := by
  rw [List.getElem?_take] at h
  by_cases hi : i < n
  · rwa [if_pos hi] at h
  · rw [if_neg hi] at h
    cases h

theorem fullLookup_hitOk (p : BlockPool H) (hashes : List (List H)) (maxLength : Nat)
    (gs : List GroupId) (bs : Nat) (useEagle : Bool) (align : Nat) :
    HitOk p hashes gs bs align maxLength
      (fullLookup p hashes maxLength gs bs useEagle align) := by
  have hscan : RowsOk p hashes gs (scanCached p gs (hashes.take (maxLength / bs))) := by
    intro i row hrow
    obtain ⟨h, hi, hr⟩ := scanCached_spec p gs _ i row hrow
    exact Or.inr ⟨h, getElem?_of_take hi, hr⟩
  have hlen : (scanCached p gs (hashes.take (maxLength / bs))).length ≤ maxLength / bs :=
    Nat.le_trans (scanCached_length_le p gs _) (by rw [List.length_take]; omega)
  unfold fullLookup
  cases useEagle with
  | false => exact alignRows_hitOk hscan hlen
  | true =>
    dsimp only
    rw [if_pos rfl, List.dropLast_eq_take]
    exact alignRows_hitOk (hscan.take _) (by rw [List.length_take]; omega)

/-- What the right-to-left scan of a sliding window keeps: `rows` has one row per
block, all of them as they should be, and a run ends at an aligned index. -/
theorem slidingScan_spec {N : Nat} {k : Int} :
    ∀ (i : Nat) (rows : List Row) (run : Nat) {rows' : List Row} {run' : Nat} {found : Bool},
      RowsOk p hashes gs rows → rows.length = N → i + run ≤ N →
      (0 < run → align ∣ (i + run) * bs) →
      slidingScan p hashes gs bs align k i rows run = .ok (rows', run', found) →
      RowsOk p hashes gs rows' ∧ run' ≤ N ∧ rows'.length ≤ N ∧
        (found = true → align ∣ rows'.length * bs) ∧ (found = false → rows'.length = N) := by
  intro i
  induction i with
  | zero =>
    intro rows run rows' run' found hok hlen hle _ h
    rw [slidingScan, Except.ok.injEq, Prod.mk.injEq, Prod.mk.injEq] at h
    obtain ⟨rfl, rfl, rfl⟩ := h
    exact ⟨hok, by omega, by omega, by simp, fun _ => hlen⟩
  | succ i ih =>
    intro rows run rows' run' found hok hlen hle hrun h
    rw [slidingScan] at h
    cases hi : hashes[i]? with
    | none => rw [hi] at h; cases h
    | some hash =>
      rw [hi] at h
      dsimp only at h
      cases hr : p.getCachedBlock hash gs with
      | none =>
        rw [hr] at h
        exact ih rows 0 hok hlen (by omega) (by omega) h
      | some row =>
        rw [hr] at h
        dsimp only at h
        by_cases hskip : run = 0 ∧ bs ≠ align ∧ (i + 1) * bs % align ≠ 0
        · rw [if_pos hskip] at h
          exact ih rows run hok hlen (by omega) (fun h0 => absurd hskip.1 (by omega)) h
        · rw [if_neg hskip] at h
          have hok' := hok.set (i := i) (Or.inr ⟨hash, hi, hr⟩)
          have hlen' : (rows.set i row).length = N := by rw [List.length_set, hlen]
          -- the run starts at an aligned index or continues one that did
          have htop : align ∣ (i + (run + 1)) * bs := by
            by_cases h0 : run = 0
            · subst h0
              by_cases hbs : bs = align
              · rw [hbs]
                exact Nat.dvd_mul_left _ _
              · refine Nat.dvd_of_mod_eq_zero ?_
                by_contra hne
                exact hskip ⟨rfl, hbs, hne⟩
            · have := hrun (by omega)
              rwa [show i + (run + 1) = i + 1 + run by omega]
          by_cases hfound : ((run + 1 : Nat) : Int) ≥ k
          · rw [if_pos hfound, Except.ok.injEq, Prod.mk.injEq, Prod.mk.injEq] at h
            obtain ⟨rfl, rfl, rfl⟩ := h
            have htake : ((rows.set i row).take (i + (run + 1))).length = i + (run + 1) := by
              rw [List.length_take, hlen']
              omega
            exact ⟨hok'.take _, by omega, by omega, fun _ => by rw [htake]; exact htop,
              fun hf => by cases hf⟩
          · rw [if_neg hfound] at h
            exact ih _ (run + 1) hok' hlen' (by omega) (fun _ => htop) h

theorem slidingLookup_hitOk {w : Nat} (hbs : 0 < bs)
    (h : slidingLookup p hashes maxLength gs bs w useEagle align = .ok rows) :
    HitOk p hashes gs bs align maxLength rows := by
  unfold slidingLookup at h
  cases hs : slidingScan p hashes gs bs align
      (Python.cdiv ((w : Int) - 1) bs + if useEagle = true then 1 else 0) (maxLength / bs)
      (List.replicate (maxLength / bs) (nullRow gs)) 0 with
  | error e => simp only [hs, bind, Except.bind] at h; cases h
  | ok res =>
    obtain ⟨rows₀, run, found⟩ := res
    simp only [hs, bind, Except.bind, pure, Except.pure, Except.ok.injEq] at h
    obtain ⟨hok, hrun, hlen, halign, -⟩ := slidingScan_spec (N := maxLength / bs) _ _ _
      (rowsOk_replicate_null p hashes gs _) (by simp) (by omega) (by omega) hs
    -- before the eagle pop
    have hbase : HitOk p hashes gs bs align maxLength
        (if found = true then rows₀ else alignRows bs align (rows₀.take run)) := by
      cases found with
      | true =>
        refine ⟨?_, halign rfl, hok⟩
        exact Nat.le_trans (Nat.mul_le_mul_right _ hlen) (Nat.div_mul_le_self _ _)
      | false =>
        exact alignRows_hitOk (hok.take _) (by rw [List.length_take]; omega)
    generalize (if found = true then rows₀ else alignRows bs align (rows₀.take run)) = base at *
    by_cases heagle : useEagle = true ∧ base ≠ []
    · rw [if_pos heagle] at h
      subst h
      rw [List.dropLast_eq_take]
      refine alignRows_hitOk (hbase.rows_ok.take _) ?_
      rw [List.length_take]
      have := (Nat.le_div_iff_mul_le hbs).mpr hbase.le_max
      omega
    · rw [if_neg heagle] at h
      subst h
      exact hbase

theorem mambaScan_hitOk :
    ∀ (i : Nat) {rows : List Row}, mambaScan p hashes gs bs align i = .ok rows →
      HitOk p hashes gs bs align (i * bs) rows := by
  intro i
  induction i with
  | zero =>
    intro rows h
    rw [mambaScan, Except.ok.injEq] at h
    subst h
    exact ⟨by simp, by simp, fun i row hrow => by simp at hrow⟩
  | succ i ih =>
    intro rows h
    have hmono : i * bs ≤ (i + 1) * bs := Nat.mul_le_mul_right _ (Nat.le_succ i)
    -- the lookups further left
    have hleft : ∀ {rows'}, mambaScan p hashes gs bs align i = .ok rows' →
        HitOk p hashes gs bs align ((i + 1) * bs) rows' := by
      intro rows' h'
      obtain ⟨hle, halign, hok⟩ := ih h'
      exact ⟨Nat.le_trans hle hmono, halign, hok⟩
    rw [mambaScan] at h
    cases hi : hashes[i]? with
    | none => rw [hi] at h; cases h
    | some hash =>
      rw [hi] at h
      dsimp only at h
      cases hr : p.getCachedBlock hash gs with
      | none =>
        rw [hr] at h
        exact hleft h
      | some row =>
        rw [hr] at h
        dsimp only at h
        by_cases hskip : bs ≠ align ∧ (i + 1) * bs % align ≠ 0
        · rw [if_pos hskip] at h
          exact hleft h
        · rw [if_neg hskip, Except.ok.injEq] at h
          subst h
          have hlen : (List.replicate i (nullRow gs) ++ [row]).length = i + 1 := by simp
          refine ⟨by rw [hlen], ?_, (rowsOk_replicate_null p hashes gs i).append ?_⟩
          · rw [hlen]
            by_cases hbs : bs = align
            · rw [hbs]
              exact Nat.dvd_mul_left _ _
            · refine Nat.dvd_of_mod_eq_zero ?_
              by_contra hne
              exact hskip ⟨hbs, hne⟩
          · intro j row' hj
            obtain ⟨rfl, rfl⟩ : j = 0 ∧ row = row' := by
              cases j with
              | zero => simpa using hj
              | succ j => simp at hj
            exact Or.inr ⟨hash, by simpa using hi, hr⟩

theorem require_ok {c : Bool} {msg : String} (h : Python.require c msg = .ok ()) : c = true := by
  unfold Python.require at h
  by_cases hc : c = true
  · exact hc
  · rw [if_neg hc] at h
    cases h

theorem chunkedLocalLookup_hitOk {chunk : Nat}
    (h : chunkedLocalLookup p hashes maxLength gs bs chunk useEagle align = .ok rows) :
    HitOk p hashes gs bs align maxLength rows := by
  unfold chunkedLocalLookup at h
  cases he : Python.require (!useEagle)
      "Hybrid KV cache is not supported for eagle + chunked local attention." with
  | error e => simp only [he, bind, Except.bind] at h; cases h
  | ok u =>
    simp only [he, bind, Except.bind] at h
    cases ha : Python.require (decide (bs = align))
        ("KV cache groups with different block sizes are not compatible with "
          ++ "chunked local attention now") with
    | error e => rw [ha] at h; cases h
    | ok v =>
      rw [ha] at h
      dsimp only at h
      have hbs : bs = align := by simpa using require_ok ha
      split at h
      · cases h
      · obtain rfl := Except.ok.inj h
        have hstart : maxLength / chunk * chunk / bs ≤ maxLength / bs :=
          Nat.div_le_div_right (Nat.div_mul_le_self _ _)
        have hscan := scanCached_length_le p gs
          ((hashes.take (maxLength / bs)).drop (maxLength / chunk * chunk / bs))
        rw [List.length_drop, List.length_take] at hscan
        refine ⟨?_, ?_, (rowsOk_replicate_null p hashes gs _).append ?_⟩
        · rw [List.length_append, List.length_replicate]
          exact Nat.le_trans (Nat.mul_le_mul_right _ (by omega)) (Nat.div_mul_le_self maxLength bs)
        · rw [← hbs]
          exact Nat.dvd_mul_left _ _
        · intro i row hrow
          obtain ⟨h', hi, hr⟩ := scanCached_spec p gs _ i row hrow
          rw [List.getElem?_drop] at hi
          rw [List.length_replicate]
          exact Or.inr ⟨h', getElem?_of_take hi, hr⟩

/-- **The contract of every lookup.** -/
theorem findLongestCacheHit_hitOk (hbs : 0 < spec.blockSize)
    (h : findLongestCacheHit p hashes maxLength gs spec useEagle align = .ok rows) :
    HitOk p hashes gs spec.blockSize align maxLength rows := by
  unfold findLongestCacheHit at h
  split at h
  case h_1 | h_2 | h_3 | h_4 =>
    obtain rfl := Except.ok.inj h
    exact fullLookup_hitOk p hashes maxLength gs _ useEagle align
  case h_5 => exact chunkedLocalLookup_hitOk h
  case h_6 => exact slidingLookup_hitOk hbs h
  case h_7 =>
    obtain ⟨hle, halign, hok⟩ := mambaScan_hitOk _ h
    exact ⟨Nat.le_trans hle (Nat.div_mul_le_self _ _), halign, hok⟩
  case h_8 => cases h

/-! ## When a lookup returns -/

theorem slidingScan_total (p : BlockPool H) (hashes : List (List H)) (gs : List GroupId)
    (bs align : Nat) (k : Int) :
    ∀ (i : Nat) (rows : List Row) (run : Nat), i ≤ hashes.length →
      ∃ res, slidingScan p hashes gs bs align k i rows run = .ok res := by
  intro i
  induction i with
  | zero => intro rows run _; exact ⟨_, rfl⟩
  | succ i ih =>
    intro rows run hi
    rw [slidingScan, List.getElem?_eq_getElem (by omega)]
    dsimp only
    cases hr : p.getCachedBlock hashes[i] gs with
    | none => exact ih rows 0 (by omega)
    | some row =>
      dsimp only
      split
      · exact ih rows run (by omega)
      · split
        · exact ⟨_, rfl⟩
        · exact ih _ _ (by omega)

theorem mambaScan_total :
    ∀ i : Nat, i ≤ hashes.length → ∃ rows, mambaScan p hashes gs bs align i = .ok rows := by
  intro i
  induction i with
  | zero => intro _; exact ⟨_, rfl⟩
  | succ i ih =>
    intro hi
    rw [mambaScan, List.getElem?_eq_getElem (by omega)]
    dsimp only
    cases hr : p.getCachedBlock hashes[i] gs with
    | none => exact ih (by omega)
    | some row =>
      dsimp only
      split
      · exact ih (by omega)
      · exact ⟨_, rfl⟩

/-- The attention types that take part in the lookup of a hybrid model with
block sizes of its own choice. -/
def KVCacheSpec.isHybridType (s : KVCacheSpec) : Bool :=
  match s.kind with
  | .fullAttention .. | .tqFullAttention .. | .mlaAttention .. | .sinkFullAttention ..
  | .slidingWindow .. | .mamba .. => true
  | .chunkedLocalAttention .. | .crossAttention .. => false

/-- The lookups of these types never raise while there are hashes for the whole
range; full attention does not even need that. -/
theorem findLongestCacheHit_total (p : BlockPool H) (gs : List GroupId) (useEagle : Bool)
    (align : Nat) (hkind : spec.isHybridType = true)
    (hlen : spec.isFullAttention = true ∨ maxLength / spec.blockSize ≤ hashes.length) :
    ∃ rows, findLongestCacheHit p hashes maxLength gs spec useEagle align = .ok rows := by
  have hlen' : spec.isFullAttention = false → maxLength / spec.blockSize ≤ hashes.length := by
    intro hf
    rcases hlen with h | h
    · rw [hf] at h
      cases h
    · exact h
  unfold findLongestCacheHit
  unfold KVCacheSpec.isHybridType at hkind
  unfold KVCacheSpec.isFullAttention at hlen'
  cases hk : spec.kind with
  | fullAttention | tqFullAttention | mlaAttention | sinkFullAttention => exact ⟨_, rfl⟩
  | chunkedLocalAttention | crossAttention => rw [hk] at hkind; cases hkind
  | slidingWindow a w =>
    rw [hk] at hlen'
    dsimp only
    unfold slidingLookup
    obtain ⟨res, hres⟩ := slidingScan_total p hashes gs spec.blockSize align
      (Python.cdiv ((w : Int) - 1) spec.blockSize + if useEagle = true then 1 else 0)
      (maxLength / spec.blockSize)
      (List.replicate (maxLength / spec.blockSize) (nullRow gs)) 0 (hlen' rfl)
    simp only [hres, bind, Except.bind]
    exact ⟨_, rfl⟩
  | mamba m =>
    rw [hk] at hlen'
    exact mambaScan_total _ (hlen' rfl)

/-! ## Hits and misses -/

/-- A full-attention lookup over cached blocks finds every aligned length short
of the last block, which eagle may drop. -/
theorem le_fullLookup {m k n : Nat} {e : Bool} (hall : ∀ i < n, CachedAt p hashes gs i)
    (hn : n ≤ m / bs) (hk : k < n) (hal : align ∣ k * bs) :
    k ≤ (fullLookup p hashes m gs bs e align).length := by
  have hall' : ∀ i < n, CachedAt p (hashes.take (m / bs)) gs i := by
    intro i hi
    obtain ⟨h, h1, h2⟩ := hall i hi
    refine ⟨h, ?_, h2⟩
    rw [List.getElem?_take, if_pos (by omega)]
    exact h1
  have hscan := le_scanCached_length hall'
  unfold fullLookup
  dsimp only
  rw [alignRows_length]
  refine le_alignedLen hal _ ?_
  cases e with
  | false =>
    show k ≤ (scanCached p gs (hashes.take (m / bs))).length
    omega
  | true =>
    rw [if_pos rfl, List.length_dropLast]
    omega

theorem slidingScan_miss {k : Int} (hmiss : ∀ i, ¬ CachedAt p hashes gs i) :
    ∀ (i : Nat) (rows : List Row) {rows' : List Row} {run : Nat} {found : Bool},
      slidingScan p hashes gs bs align k i rows 0 = .ok (rows', run, found) →
      run = 0 ∧ found = false := by
  intro i
  induction i with
  | zero =>
    intro rows rows' run found h
    rw [slidingScan, Except.ok.injEq, Prod.mk.injEq, Prod.mk.injEq] at h
    exact ⟨h.2.1.symm, h.2.2.symm⟩
  | succ i ih =>
    intro rows rows' run found h
    rw [slidingScan] at h
    cases hi : hashes[i]? with
    | none => rw [hi] at h; cases h
    | some hash =>
      rw [hi] at h
      dsimp only at h
      cases hr : p.getCachedBlock hash gs with
      | none => rw [hr] at h; exact ih rows h
      | some row => exact absurd (cachedAt_of_some hi hr) (hmiss i)

theorem mambaScan_miss (hmiss : ∀ i, ¬ CachedAt p hashes gs i) :
    ∀ (i : Nat) {rows : List Row}, mambaScan p hashes gs bs align i = .ok rows → rows = [] := by
  intro i
  induction i with
  | zero =>
    intro rows h
    rw [mambaScan, Except.ok.injEq] at h
    exact h.symm
  | succ i ih =>
    intro rows h
    rw [mambaScan] at h
    cases hi : hashes[i]? with
    | none => rw [hi] at h; cases h
    | some hash =>
      rw [hi] at h
      dsimp only at h
      cases hr : p.getCachedBlock hash gs with
      | none => rw [hr] at h; exact ih h
      | some row => exact absurd (cachedAt_of_some hi hr) (hmiss i)

/-- With nothing cached a lookup finds nothing. -/
theorem findLongestCacheHit_miss (hkind : spec.isHybridType = true)
    (hmiss : ∀ i, ¬ CachedAt p hashes gs i)
    (h : findLongestCacheHit p hashes maxLength gs spec useEagle align = .ok rows) : rows = [] := by
  unfold findLongestCacheHit at h
  unfold KVCacheSpec.isHybridType at hkind
  split at h
  case h_1 | h_2 | h_3 | h_4 =>
    obtain rfl := Except.ok.inj h
    have hscan : scanCached p gs (hashes.take (maxLength / spec.blockSize)) = [] := by
      rw [← List.length_eq_zero_iff]
      by_contra hne
      obtain ⟨row, hrow⟩ : ∃ row, (scanCached p gs (hashes.take (maxLength / spec.blockSize)))[0]?
          = some row := ⟨_, List.getElem?_eq_getElem (by omega)⟩
      obtain ⟨h', h1, h2⟩ := scanCached_spec p gs _ 0 row hrow
      exact hmiss 0 (cachedAt_of_some (getElem?_of_take h1) h2)
    cases useEagle <;> simp [fullLookup, hscan, alignRows]
  case h_5 hk => rw [hk] at hkind; cases hkind
  case h_6 w hk =>
    unfold slidingLookup at h
    simp only [Raises.bind_eq_ok, Raises.pure_eq_ok] at h
    obtain ⟨⟨rows₀, run, found⟩, hscan, h⟩ := h
    obtain ⟨rfl, rfl⟩ := slidingScan_miss hmiss _ _ hscan
    simpa [alignRows] using h.symm
  case h_7 => exact mambaScan_miss hmiss _ h
  case h_8 => cases h

end VllmEngine
