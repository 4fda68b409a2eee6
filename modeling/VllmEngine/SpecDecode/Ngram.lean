import Mathlib.Data.List.GetD
import VllmEngine.Lib.Borders
import VllmEngine.Lib.Slices

/-!
# The n-gram proposer

`_find_longest_matched_ngram_and_propose_tokens` (`vllm/v1/spec_decode/ngram_proposer.py`):
the longest suffix of the tokens with a length in `[min_ngram, max_ngram]` that stands earlier
too, and the tokens after its first occurrence.

The source scans the reversed tokens: a suffix becomes a prefix, an earlier occurrence a border
of the prefix that the scan has reached, and the first occurrence the last such prefix.
`NgramInv` is what the scan knows; the theory of borders is `VllmEngine.Lib.Borders`.

> `ngram_exact`: with fuel for two iterations a token the function returns, and returns what
> `Exact` says.

Mirroring notes:
- An access outside an array raises here. The compiled code does not check.
- The loop gets fuel and is `forever` without any left.
- Values of `lps` are lengths up to `max_ngram`, far from the end of `int32`.
-/

namespace VllmEngine.SpecDecode

open Python Borders

/-- `a[i]`. -/
def load {α : Type} (a : List α) (i : Nat) : Except Error α := getItem a (i : Int)

/-- `a[i] = x`. -/
def store {α : Type} (a : List α) (i : Nat) (x : α) : Except Error (List α) :=
  if i < a.length then .ok (a.set i x) else .error (.index "index is out of bounds")

/-- The variables of the loop. -/
structure NgramScan where
  lps : List Nat
  longestNgram : Nat
  position : Nat
  prevLps : Nat
  i : Nat

/-- `if i < max_ngram: lps[i] = prev_lps`. -/
def storeLps (maxNgram : Nat) (lps : List Nat) (i prevLps : Nat) : Except Error (List Nat) :=
  if i < maxNgram then store lps i prevLps else .ok lps

/-- `if prev_lps == max_ngram: prev_lps = lps[max_ngram - 1]`. -/
def capLps (maxNgram : Nat) (lps : List Nat) (prevLps : Nat) : Except Error Nat :=
  if prevLps = maxNgram then load lps (maxNgram - 1) else .ok prevLps

/-- The loop's body. -/
def ngramStep (tokens : List Int) (maxNgram : Nat) (s : NgramScan) : Except Error NgramScan := do
  let candidate ← load tokens s.prevLps
  let token ← load tokens s.i
  if candidate = token then
    let prevLps := s.prevLps + 1
    let longer := decide (s.longestNgram ≤ prevLps)
    let lps ← storeLps maxNgram s.lps s.i prevLps
    let next ← capLps maxNgram lps prevLps
    return {
      lps := lps
      longestNgram := if longer then prevLps else s.longestNgram
      position := if longer then s.i else s.position
      prevLps := next
      i := s.i + 1 }
  else if s.prevLps ≠ 0 then
    let next ← load s.lps (s.prevLps - 1)
    return { s with prevLps := next }
  else
    return { s with i := s.i + 1 }

/-- `while i < total_token`. -/
def ngramLoop (tokens : List Int) (maxNgram : Nat) : Nat → NgramScan → Except NoReturn NgramScan
  | 0, s => if s.i < tokens.length then .error .forever else .ok s
  | fuel + 1, s =>
    if s.i < tokens.length then
      match ngramStep tokens maxNgram s with
      | .error e => .error (.raised e)
      | .ok s' => ngramLoop tokens maxNgram fuel s'
    else .ok s

/-- `_find_longest_matched_ngram_and_propose_tokens`. -/
def findLongestMatchedNgramAndProposeTokens (fuel : Nat) (originTokens : List Int)
    (minNgram maxNgram : Nat) (maxModelLen k : Int) : Except NoReturn (List Int) :=
  let totalToken := originTokens.length
  if totalToken < minNgram then .ok []
  else
    let k := min k (maxModelLen - totalToken)
    if k ≤ 0 then .ok []
    else do
      let tokens := originTokens.reverse
      let s ← ngramLoop tokens maxNgram fuel ⟨List.replicate maxNgram 0, 0, 0, 0, 1⟩
      if s.longestNgram < minNgram then .ok []
      else
        let startPosition : Int := totalToken - 1 - s.position + s.longestNgram
        let k := min k (totalToken - startPosition)
        .ok (slice originTokens startPosition (startPosition + k))

/-! ## The scan -/

/-- The tokens as a function of the index. -/
def tokenAt (tokens : List Int) (j : Nat) : Int := tokens.getD j 0

theorem load_of_lt {tokens : List Int} {j : Nat} (h : j < tokens.length) :
    load tokens j = .ok (tokenAt tokens j) := by
  apply getItem_natCast
  unfold tokenAt
  rw [List.getElem?_eq_getElem h, List.getD_eq_getElem _ _ h]

theorem load_lps {lps : List Nat} {j : Nat} (h : j < lps.length) :
    load lps j = .ok (lps.getD j 0) := by
  apply getItem_natCast
  rw [List.getElem?_eq_getElem h, List.getD_eq_getElem _ _ h]

/-- What the scan knows when it comes to token `i`. -/
structure NgramInv (tokens : List Int) (maxNgram : Nat) (s : NgramScan) : Prop where
  table : Table (tokenAt tokens) maxNgram s.lps s.i
  candidates : Candidates (tokenAt tokens) maxNgram s.prevLps s.i
  i_le : s.i ≤ tokens.length
  longest_le : s.longestNgram ≤ maxNgram
  /-- No border so far is longer. -/
  best : ∀ e ≤ s.i, ∀ v ≤ maxNgram, Border (tokenAt tokens) v e → v ≤ s.longestNgram
  /-- The last prefix with a border of this length. -/
  last : 0 < s.longestNgram → Border (tokenAt tokens) s.longestNgram (s.position + 1) ∧
    s.position + 1 ≤ s.i ∧
    ∀ e ≤ s.i, Border (tokenAt tokens) s.longestNgram e → e ≤ s.position + 1

/-- Every iteration makes this smaller. -/
def remaining (tokens : List Int) (s : NgramScan) : Nat :=
  2 * (tokens.length - s.i) + s.prevLps

theorem ngramInv_start {tokens : List Int} {maxNgram : Nat} (hmax : 1 ≤ maxNgram)
    (hlen : 1 ≤ tokens.length) :
    NgramInv tokens maxNgram ⟨List.replicate maxNgram 0, 0, 0, 0, 1⟩ where
  table := Table.start
  candidates := Candidates.start hmax
  i_le := hlen
  longest_le := Nat.zero_le _
  best e he v _ hb := by
    have he : e ≤ 1 := he
    have hlt := hb.1
    show v ≤ 0
    omega
  last h := absurd h (Nat.lt_irrefl 0)

section Step

variable {tokens : List Int} {maxNgram : Nat} {s : NgramScan}

/-- The scan after a token that the candidate goes on with. -/
def matched (s : NgramScan) (lps : List Nat) (next : Nat) : NgramScan where
  lps := lps
  longestNgram := if s.longestNgram ≤ s.prevLps + 1 then s.prevLps + 1 else s.longestNgram
  position := if s.longestNgram ≤ s.prevLps + 1 then s.i else s.position
  prevLps := next
  i := s.i + 1

/-- The table after a match. -/
def matchedLps (maxNgram : Nat) (s : NgramScan) : List Nat :=
  if s.i < maxNgram then s.lps.set s.i (s.prevLps + 1) else s.lps

/-- The candidate after a match. -/
def matchedNext (maxNgram : Nat) (s : NgramScan) : Nat :=
  if s.prevLps + 1 = maxNgram then (matchedLps maxNgram s).getD (maxNgram - 1) 0
  else s.prevLps + 1

theorem longest_of_match (h : NgramInv tokens maxNgram s)
    (heq : tokenAt tokens s.prevLps = tokenAt tokens s.i) (hi : s.i < maxNgram) :
    Longest (tokenAt tokens) (s.prevLps + 1) (s.i + 1) where
  border := h.candidates.border_succ heq
  le v hv := h.candidates.le_succ (by have := hv.1; omega) hv

theorem table_of_match (h : NgramInv tokens maxNgram s)
    (heq : tokenAt tokens s.prevLps = tokenAt tokens s.i) :
    Table (tokenAt tokens) maxNgram (matchedLps maxNgram s) (s.i + 1) := by
  unfold matchedLps
  by_cases hi : s.i < maxNgram
  · rw [if_pos hi]
    exact h.table.set hi (longest_of_match h heq hi)
  · rw [if_neg hi]
    exact h.table.past (Nat.not_lt.mp hi)

theorem candidates_of_match (h : NgramInv tokens maxNgram s)
    (heq : tokenAt tokens s.prevLps = tokenAt tokens s.i) :
    Candidates (tokenAt tokens) maxNgram (matchedNext maxNgram s) (s.i + 1) := by
  have hlt := h.candidates.lt_cap
  unfold matchedNext
  by_cases hcap : s.prevLps + 1 = maxNgram
  · rw [if_pos hcap]
    apply h.candidates.next_cap heq hcap
    -- a border as long as the cap: the whole table is there
    have hborder := h.candidates.border.1
    have hlong := (table_of_match h heq).longest (maxNgram - 1) (by omega) (by omega)
    rw [Nat.sub_add_cancel (by omega)] at hlong
    exact hlong
  · rw [if_neg hcap]
    exact h.candidates.next heq (by omega)

theorem ngramInv_matched (h : NgramInv tokens maxNgram s) (hi : s.i < tokens.length)
    (heq : tokenAt tokens s.prevLps = tokenAt tokens s.i) :
    NgramInv tokens maxNgram (matched s (matchedLps maxNgram s) (matchedNext maxNgram s)) where
  table := table_of_match h heq
  candidates := candidates_of_match h heq
  i_le := hi
  longest_le := by
    have hlt := h.candidates.lt_cap
    have hle := h.longest_le
    unfold matched
    dsimp only
    split <;> omega
  best e he v hv hb := by
    have hle : v ≤ s.longestNgram ∨ v ≤ s.prevLps + 1 := by
      rcases Nat.lt_succ_iff_lt_or_eq.mp (Nat.lt_succ_iff.mpr he) with hlt | rfl
      · exact Or.inl (h.best e (Nat.lt_succ_iff.mp hlt) v hv hb)
      · exact Or.inr (h.candidates.le_succ hv hb)
    unfold matched
    dsimp only
    split <;> omega
  last := by
    unfold matched
    dsimp only
    by_cases hlonger : s.longestNgram ≤ s.prevLps + 1
    · simp only [if_pos hlonger]
      intro _
      exact ⟨h.candidates.border_succ heq, Nat.le_refl _, fun e he _ => he⟩
    · -- the older border is longer than any of the prefix reached now
      simp only [if_neg hlonger]
      intro hpos
      obtain ⟨hb, hle, hlast⟩ := h.last hpos
      refine ⟨hb, Nat.le_succ_of_le hle, fun e he hbe => ?_⟩
      rcases Nat.lt_succ_iff_lt_or_eq.mp (Nat.lt_succ_iff.mpr he) with hlt | rfl
      · exact hlast e (Nat.lt_succ_iff.mp hlt) hbe
      · exact absurd (h.candidates.le_succ h.longest_le hbe) hlonger

theorem ngramStep_match (h : NgramInv tokens maxNgram s) (hi : s.i < tokens.length)
    (heq : tokenAt tokens s.prevLps = tokenAt tokens s.i) :
    ngramStep tokens maxNgram s =
      .ok (matched s (matchedLps maxNgram s) (matchedNext maxNgram s)) := by
  have hprev := h.candidates.border.1
  have hlt := h.candidates.lt_cap
  have hstore : storeLps maxNgram s.lps s.i (s.prevLps + 1) = .ok (matchedLps maxNgram s) := by
    unfold storeLps matchedLps
    by_cases hcap : s.i < maxNgram
    · rw [if_pos hcap, if_pos hcap]
      exact if_pos (by rw [h.table.length]; exact hcap)
    · rw [if_neg hcap, if_neg hcap]
  have hload : capLps maxNgram (matchedLps maxNgram s) (s.prevLps + 1) =
      .ok (matchedNext maxNgram s) := by
    unfold capLps matchedNext
    by_cases hcap : s.prevLps + 1 = maxNgram
    · rw [if_pos hcap, if_pos hcap]
      apply load_lps
      rw [(table_of_match h heq).length]
      omega
    · rw [if_neg hcap, if_neg hcap]
  unfold ngramStep
  rw [load_of_lt (by omega), load_of_lt hi, Raises.ok_bind, Raises.ok_bind, if_pos heq]
  dsimp only
  rw [hstore, Raises.ok_bind, hload, Raises.ok_bind]
  simp only [decide_eq_true_eq]
  rfl

theorem ngramStep_fallback (h : NgramInv tokens maxNgram s) (hi : s.i < tokens.length)
    (hne : tokenAt tokens s.prevLps ≠ tokenAt tokens s.i) (hprev : s.prevLps ≠ 0) :
    ngramStep tokens maxNgram s =
      .ok { s with prevLps := s.lps.getD (s.prevLps - 1) 0 } := by
  have hborder := h.candidates.border.1
  have hlt := h.candidates.lt_cap
  unfold ngramStep
  rw [load_of_lt (by omega), load_of_lt hi, Raises.ok_bind, Raises.ok_bind, if_neg hne,
    if_pos hprev, load_lps (by rw [h.table.length]; omega)]
  rfl

theorem longest_of_prev (h : NgramInv tokens maxNgram s) (hprev : s.prevLps ≠ 0) :
    Longest (tokenAt tokens) (s.lps.getD (s.prevLps - 1) 0) s.prevLps := by
  have hborder := h.candidates.border.1
  have hlt := h.candidates.lt_cap
  have hlong := h.table.longest (s.prevLps - 1) (by omega) (by omega)
  rw [Nat.sub_add_cancel (by omega)] at hlong
  exact hlong

theorem ngramInv_fallback (h : NgramInv tokens maxNgram s)
    (hne : tokenAt tokens s.prevLps ≠ tokenAt tokens s.i) (hprev : s.prevLps ≠ 0) :
    NgramInv tokens maxNgram { s with prevLps := s.lps.getD (s.prevLps - 1) 0 } :=
  { h with candidates := h.candidates.fallback hne (longest_of_prev h hprev) }

theorem ngramStep_none (h : NgramInv tokens maxNgram s) (hi : s.i < tokens.length)
    (hne : tokenAt tokens s.prevLps ≠ tokenAt tokens s.i) (hprev : s.prevLps = 0) :
    ngramStep tokens maxNgram s = .ok { s with i := s.i + 1 } := by
  have hborder := h.candidates.border.1
  unfold ngramStep
  rw [load_of_lt (by omega), load_of_lt hi, Raises.ok_bind, Raises.ok_bind, if_neg hne,
    if_neg (not_not_intro hprev)]
  rfl

theorem ngramInv_none (h : NgramInv tokens maxNgram s) (hi : s.i < tokens.length)
    (hne : tokenAt tokens s.prevLps ≠ tokenAt tokens s.i) (hprev : s.prevLps = 0) :
    NgramInv tokens maxNgram { s with i := s.i + 1 } := by
  have hcand := h.candidates
  rw [hprev] at hcand hne
  have hnone : ∀ v ≤ maxNgram, Border (tokenAt tokens) v (s.i + 1) → v = 0 :=
    fun v hv hb => hcand.eq_zero hne hv hb
  constructor
  case table =>
    apply h.table.skip
    intro hcap
    refine ⟨Border.zero (Nat.succ_pos _), fun v hv => ?_⟩
    exact Nat.le_of_eq (hnone v (by have := hv.1; omega) hv)
  case candidates =>
    show Candidates _ _ s.prevLps _
    rw [hprev]
    exact hcand.restart hne
  case i_le => exact hi
  case longest_le => exact h.longest_le
  case best =>
    intro e he v hv hb
    rcases Nat.lt_succ_iff_lt_or_eq.mp (Nat.lt_succ_iff.mpr he) with hlt | rfl
    · exact h.best e (Nat.lt_succ_iff.mp hlt) v hv hb
    · rw [hnone v hv hb]
      exact Nat.zero_le _
  case last =>
    intro hpos
    obtain ⟨hb, hle, hlast⟩ := h.last hpos
    refine ⟨hb, Nat.le_succ_of_le hle, fun e he hbe => ?_⟩
    rcases Nat.lt_succ_iff_lt_or_eq.mp (Nat.lt_succ_iff.mpr he) with hlt | rfl
    · exact hlast e (Nat.lt_succ_iff.mp hlt) hbe
    · have hzero : s.longestNgram = 0 := hnone _ h.longest_le hbe
      exact absurd hpos (Nat.not_lt.mpr (Nat.le_of_eq hzero))

/-- One iteration: every access is inside, the scan goes on to know what it knew, and comes
nearer to its end. -/
theorem ngramStep_spec (h : NgramInv tokens maxNgram s) (hi : s.i < tokens.length) :
    ∃ s', ngramStep tokens maxNgram s = .ok s' ∧ NgramInv tokens maxNgram s' ∧
      remaining tokens s' < remaining tokens s := by
  by_cases heq : tokenAt tokens s.prevLps = tokenAt tokens s.i
  · refine ⟨_, ngramStep_match h hi heq, ngramInv_matched h hi heq, ?_⟩
    have hnext : matchedNext maxNgram s ≤ s.prevLps + 1 := by
      have hlt := (candidates_of_match h heq).lt_cap
      by_cases hcap : s.prevLps + 1 = maxNgram
      · omega
      · exact Nat.le_of_eq (if_neg hcap)
    show 2 * (tokens.length - (s.i + 1)) + matchedNext maxNgram s <
      2 * (tokens.length - s.i) + s.prevLps
    omega
  · by_cases hprev : s.prevLps = 0
    · refine ⟨_, ngramStep_none h hi heq hprev, ngramInv_none h hi heq hprev, ?_⟩
      show 2 * (tokens.length - (s.i + 1)) + s.prevLps < 2 * (tokens.length - s.i) + s.prevLps
      omega
    · refine ⟨_, ngramStep_fallback h hi heq hprev, ngramInv_fallback h heq hprev, ?_⟩
      exact Nat.add_lt_add_left (longest_of_prev h hprev).border.1 _

end Step

theorem ngramLoop_spec {tokens : List Int} {maxNgram : Nat} :
    ∀ {fuel : Nat} {s : NgramScan}, NgramInv tokens maxNgram s → remaining tokens s ≤ fuel →
      ∃ s', ngramLoop tokens maxNgram fuel s = .ok s' ∧ NgramInv tokens maxNgram s' ∧
        s'.i = tokens.length
  | 0, s, h, hfuel => by
    have hi : ¬ s.i < tokens.length := by
      unfold remaining at hfuel
      omega
    exact ⟨s, if_neg hi, h, Nat.le_antisymm h.i_le (Nat.not_lt.mp hi)⟩
  | fuel + 1, s, h, hfuel => by
    unfold ngramLoop
    by_cases hi : s.i < tokens.length
    · obtain ⟨s₁, hstep, hinv, hless⟩ := ngramStep_spec h hi
      obtain ⟨s', hloop, hinv', hend⟩ := ngramLoop_spec hinv (Nat.le_of_lt_succ
        (Nat.lt_of_lt_of_le hless hfuel))
      refine ⟨s', ?_, hinv', hend⟩
      rw [if_pos hi, hstep]
      exact hloop
    · exact ⟨s, if_neg hi, h, Nat.le_antisymm h.i_le (Nat.not_lt.mp hi)⟩

end VllmEngine.SpecDecode

/-!
## The n-gram proposal is exact

What the scan knows at its end, read on the tokens in their own order.
-/

namespace VllmEngine.SpecDecode

open Python Borders

/-- The last `n` tokens stand at an earlier position `p`. -/
def Occurs (xs : List Int) (n p : Nat) : Prop :=
  p + n < xs.length ∧ (xs.drop p).take n = xs.drop (xs.length - n)

/-- There is nothing to propose. -/
def NoProposal (xs : List Int) (minNgram maxNgram : Nat) (maxModelLen k : Int) : Prop :=
  xs.length < minNgram ∨ min k (maxModelLen - xs.length) ≤ 0 ∨
    ∀ n, minNgram ≤ n → n ≤ maxNgram → ∀ p, ¬ Occurs xs n p

/-- The longest suffix that stands earlier, and its first occurrence. -/
structure FirstOfLongest (xs : List Int) (minNgram maxNgram n p : Nat) : Prop where
  min_le : minNgram ≤ n
  le_max : n ≤ maxNgram
  occurs : Occurs xs n p
  longest : ∀ n', minNgram ≤ n' → n' ≤ maxNgram → ∀ p', Occurs xs n' p' → n' ≤ n
  first : ∀ p', Occurs xs n p' → p ≤ p'

/-- What the function shall return. -/
structure Exact (xs : List Int) (minNgram maxNgram : Nat) (maxModelLen k : Int)
    (result : List Int) : Prop where
  empty_iff : result = [] ↔ NoProposal xs minNgram maxNgram maxModelLen k
  found : ¬ NoProposal xs minNgram maxNgram maxModelLen k →
    ∃ n p, FirstOfLongest xs minNgram maxNgram n p ∧
      result = (xs.drop (p + n)).take (min k (maxModelLen - xs.length)).toNat

/-! ## Borders of the reversed tokens -/

theorem tokenAt_reverse {xs : List Int} {j : Nat} (h : j < xs.length) :
    tokenAt xs.reverse j = tokenAt xs (xs.length - 1 - j) := by
  unfold tokenAt
  rw [List.getD_eq_getElem?_getD, List.getElem?_reverse h, List.getD_eq_getElem?_getD]

theorem take_drop_eq_iff {xs : List Int} {n p : Nat} (h : p + n ≤ xs.length) :
    (xs.drop p).take n = xs.drop (xs.length - n) ↔
      ∀ l < n, tokenAt xs (p + l) = tokenAt xs (xs.length - n + l) := by
  constructor
  · intro heq l hl
    have hget : ((xs.drop p).take n)[l]? = (xs.drop (xs.length - n))[l]? := by rw [heq]
    rw [List.getElem?_take_of_lt hl, List.getElem?_drop, List.getElem?_drop] at hget
    unfold tokenAt
    rw [List.getD_eq_getElem?_getD, hget, List.getD_eq_getElem?_getD]
  · intro heq
    apply List.ext_getElem
    · rw [List.length_take, List.length_drop, List.length_drop]
      omega
    · intro l hl hl'
      rw [List.length_take, List.length_drop] at hl
      have hl := heq l (by omega)
      unfold tokenAt at hl
      rw [List.getD_eq_getElem _ _ (by omega), List.getD_eq_getElem _ _ (by omega)] at hl
      rw [List.getElem_take, List.getElem_drop, List.getElem_drop]
      exact hl

/-- A border of a prefix of the reversed tokens is a suffix that stands earlier. -/
theorem border_iff_occurs {xs : List Int} {n e : Nat} (he : e ≤ xs.length) :
    Border (tokenAt xs.reverse) n e ↔ Occurs xs n (xs.length - e) := by
  constructor
  · rintro ⟨hlt, heq⟩
    refine ⟨by omega, (take_drop_eq_iff (by omega)).mpr fun l hl => ?_⟩
    -- the tokens of the suffix from its end
    have h := heq (n - 1 - l) (by omega)
    rw [tokenAt_reverse (by omega), tokenAt_reverse (by omega)] at h
    rw [show xs.length - e + l = xs.length - 1 - (e - n + (n - 1 - l)) by omega,
      show xs.length - n + l = xs.length - 1 - (n - 1 - l) by omega]
    exact h.symm
  · rintro ⟨hlt, heq⟩
    refine ⟨by omega, fun j hj => ?_⟩
    have h := (take_drop_eq_iff (by omega)).mp heq (n - 1 - j) (by omega)
    rw [tokenAt_reverse (by omega), tokenAt_reverse (by omega)]
    rw [show xs.length - 1 - j = xs.length - n + (n - 1 - j) by omega,
      show xs.length - 1 - (e - n + j) = xs.length - e + (n - 1 - j) by omega]
    exact h.symm

theorem Occurs.border {xs : List Int} {n p : Nat} (h : Occurs xs n p) :
    Border (tokenAt xs.reverse) n (xs.length - p) := by
  apply (border_iff_occurs (Nat.sub_le _ _)).mpr
  rw [Nat.sub_sub_self (by have := h.1; omega)]
  exact h

/-! ## The end of the scan -/

section End

variable {xs : List Int} {minNgram maxNgram : Nat} {s : NgramScan}

theorem occurs_le (h : NgramInv xs.reverse maxNgram s) (hend : s.i = xs.length) {n p : Nat}
    (hn : n ≤ maxNgram) (hocc : Occurs xs n p) : n ≤ s.longestNgram :=
  h.best (xs.length - p) (by omega) n hn hocc.border

/-- The suffix that the scan has found. -/
theorem firstOfLongest_of_inv (h : NgramInv xs.reverse maxNgram s) (hend : s.i = xs.length)
    (hpos : 0 < s.longestNgram) (hmin : minNgram ≤ s.longestNgram) :
    FirstOfLongest xs minNgram maxNgram s.longestNgram (xs.length - (s.position + 1)) := by
  obtain ⟨hb, hle, hlast⟩ := h.last hpos
  rw [hend] at hle
  refine ⟨hmin, h.longest_le, (border_iff_occurs hle).mp hb, ?_, ?_⟩
  · intro n' _ hmax p' hocc
    exact occurs_le h hend hmax hocc
  · intro p' hocc
    have := hlast (xs.length - p') (by omega) hocc.border
    omega

/-- The tokens after the occurrence. -/
theorem slice_after {start : Nat} {k : Int} (hstart : start ≤ xs.length) (hk : 0 ≤ k) :
    slice xs (start : Int) (start + min k (xs.length - start)) =
      (xs.drop start).take k.toNat := by
  have hstop : (start : Int) + min k (xs.length - start) =
      ((start + min k.toNat (xs.length - start) : Nat) : Int) := by omega
  rw [hstop, slice_natCast, ← List.take_drop]
  apply List.take_eq_take_iff.mpr
  rw [List.length_drop]
  omega

end End

/-- The proposal of a scan that has found no suffix. -/
theorem exact_of_none {xs : List Int} {minNgram maxNgram : Nat} {maxModelLen k : Int}
    (h : NoProposal xs minNgram maxNgram maxModelLen k) :
    Exact xs minNgram maxNgram maxModelLen k [] where
  empty_iff := ⟨fun _ => h, fun _ => rfl⟩
  found hno := absurd h hno

/-- The proposal of a scan that has found one. -/
theorem exact_of_found {xs : List Int} {minNgram maxNgram n p : Nat} {maxModelLen k : Int}
    (hlen : ¬ xs.length < minNgram) (hk : ¬ min k (maxModelLen - xs.length) ≤ 0)
    (h : FirstOfLongest xs minNgram maxNgram n p) :
    Exact xs minNgram maxNgram maxModelLen k
      ((xs.drop (p + n)).take (min k (maxModelLen - xs.length)).toNat) := by
  have hlt := h.occurs.1
  refine ⟨⟨fun hnil => ?_, ?_⟩, fun _ => ⟨n, p, h, rfl⟩⟩
  · -- a token follows the occurrence
    have hlen0 := congrArg List.length hnil
    rw [List.length_take, List.length_drop, List.length_nil] at hlen0
    omega
  · rintro (hshort | hzero | hnone)
    · exact absurd hshort hlen
    · exact absurd hzero hk
    · exact absurd h.occurs (hnone n h.min_le h.le_max p)

/-- The function returns, with no access outside of its arrays, and returns the tokens after
the first occurrence of the longest suffix that stands earlier. -/
theorem ngram_exact (originTokens : List Int) {minNgram maxNgram : Nat} (hmin : 1 ≤ minNgram)
    (hmax : minNgram ≤ maxNgram) (maxModelLen k : Int) {fuel : Nat}
    (hfuel : 2 * originTokens.length ≤ fuel) :
    ∃ result, findLongestMatchedNgramAndProposeTokens fuel originTokens minNgram maxNgram
        maxModelLen k = .ok result ∧
      Exact originTokens minNgram maxNgram maxModelLen k result := by
  unfold findLongestMatchedNgramAndProposeTokens
  dsimp only
  by_cases hlen : originTokens.length < minNgram
  · rw [if_pos hlen]
    exact ⟨[], rfl, exact_of_none (Or.inl hlen)⟩
  rw [if_neg hlen]
  by_cases hk : min k (maxModelLen - originTokens.length) ≤ 0
  · rw [if_pos hk]
    exact ⟨[], rfl, exact_of_none (Or.inr (Or.inl hk))⟩
  rw [if_neg hk]
  have hstart : NgramInv originTokens.reverse maxNgram ⟨List.replicate maxNgram 0, 0, 0, 0, 1⟩ :=
    ngramInv_start (by omega) (by rw [List.length_reverse]; omega)
  have hrem : remaining originTokens.reverse ⟨List.replicate maxNgram 0, 0, 0, 0, 1⟩ ≤ fuel := by
    unfold remaining
    rw [List.length_reverse]
    dsimp only
    omega
  obtain ⟨s, hloop, hinv, hend⟩ := ngramLoop_spec hstart hrem
  rw [List.length_reverse] at hend
  rw [hloop, Raises.ok_bind]
  by_cases hfound : s.longestNgram < minNgram
  · rw [if_pos hfound]
    refine ⟨[], rfl, exact_of_none (Or.inr (Or.inr fun n hn hle p hocc => ?_))⟩
    have := occurs_le hinv hend hle hocc
    omega
  · rw [if_neg hfound]
    have hpos : 0 < s.longestNgram := by omega
    have hfirst : FirstOfLongest originTokens minNgram maxNgram s.longestNgram
        (originTokens.length - (s.position + 1)) :=
      firstOfLongest_of_inv hinv hend hpos (by omega)
    have hposition := (hinv.last hpos).2.1
    have hbefore := hfirst.occurs.1
    refine ⟨_, rfl, ?_⟩
    have hat : (originTokens.length : Int) - 1 - s.position + s.longestNgram =
        ((originTokens.length - (s.position + 1) + s.longestNgram : Nat) : Int) := by omega
    rw [hat, slice_after (Nat.le_of_lt hbefore) (by omega)]
    exact exact_of_found hlen hk hfirst

/-- Three tokens, the last of which is the first one too. -/
theorem ngram_exact_three :
    ∃ result, findLongestMatchedNgramAndProposeTokens 6 [5, 6, 5] 1 2 10 2 = .ok result ∧
      Exact [5, 6, 5] 1 2 10 2 result :=
  ngram_exact [5, 6, 5] (Nat.le_refl 1) (by omega) 10 2 (Nat.le_refl 6)

example : findLongestMatchedNgramAndProposeTokens 6 [5, 6, 5] 1 2 10 2 = .ok [6, 5] := by decide

end VllmEngine.SpecDecode
