import Mathlib.MeasureTheory.Integral.IntervalIntegral.Basic
import Mathlib.Probability.ProbabilityMassFunction.Constructions

/-!
# Means of finite draws

The mean of a function of a random value from a finite type, of a sequence drawn one value at a
time, each from a law that depends on the values before it, and of independent uniform numbers.
Two sequences have the same joint distribution iff every function of them has the same mean.

> `integral_accept`: a comparison with a uniform number is true with the probability of its bound.
-/

namespace Expectation

open MeasureTheory

variable {α : Type} [Fintype α]

/-- The mean of `f` under the law `p`. -/
noncomputable def expect (p : PMF α) (f : α → ℝ) : ℝ := ∑ a, (p a).toReal * f a

theorem sum_toReal (p : PMF α) : ∑ a, (p a).toReal = 1 := by
  have hsum : ∑ a, p a = 1 := by
    rw [← tsum_fintype (L := .unconditional α)]
    exact p.tsum_coe
  rw [← ENNReal.toReal_sum fun a _ => p.apply_ne_top a, hsum, ENNReal.toReal_one]

theorem expect_const (p : PMF α) (c : ℝ) : expect p (fun _ => c) = c := by
  unfold expect
  rw [← Finset.sum_mul, sum_toReal, one_mul]

theorem expect_add (p : PMF α) (f g : α → ℝ) : expect p (fun a => f a + g a) = expect p f + expect p g := by
  unfold expect
  rw [← Finset.sum_add_distrib]
  exact Finset.sum_congr rfl fun a _ => mul_add _ _ _

theorem expect_mul_left (p : PMF α) (c : ℝ) (f : α → ℝ) : expect p (fun a => c * f a) = c * expect p f := by
  unfold expect
  rw [Finset.mul_sum]
  exact Finset.sum_congr rfl fun a _ => mul_left_comm _ _ _

/-- Only values that can come up count. -/
theorem expect_congr {p : PMF α} {f g : α → ℝ} (h : ∀ a, p a ≠ 0 → f a = g a) : expect p f = expect p g := by
  refine Finset.sum_congr rfl fun a _ => ?_
  by_cases ha : p a = 0
  · rw [ha, ENNReal.toReal_zero, zero_mul, zero_mul]
  · rw [h a ha]

theorem expect_pure (a : α) (f : α → ℝ) : expect (PMF.pure a) f = f a := by
  have hcongr : expect (PMF.pure a) f = expect (PMF.pure a) fun _ => f a := by
    refine expect_congr fun b hb => ?_
    rw [PMF.pure_apply] at hb
    have hba : b = a := by
      by_contra hne
      exact hb (if_neg hne)
    rw [hba]
  rw [hcongr, expect_const]

/-- The mean of a function of a random variable, by the values of the variable. -/
theorem expect_comp {Ω : Type} [Fintype Ω] [DecidableEq α] (p : PMF Ω) (X : Ω → α) (f : α → ℝ) :
    expect p (fun ω => f (X ω)) = ∑ a, expect p (fun ω => if X ω = a then 1 else 0) * f a := by
  unfold expect
  have hsplit : ∀ ω, (p ω).toReal * f (X ω) = ∑ a, ((p ω).toReal * if X ω = a then 1 else 0) * f a := by
    intro ω
    rw [Finset.sum_eq_single (X ω)]
    · rw [if_pos rfl, mul_one]
    · intro a _ ha
      rw [if_neg (Ne.symm ha), mul_zero, zero_mul]
    · intro h
      exact absurd (Finset.mem_univ _) h
  rw [Finset.sum_congr rfl fun ω _ => hsplit ω, Finset.sum_comm]
  exact Finset.sum_congr rfl fun a _ => (Finset.sum_mul _ _ _).symm

/-! ## Sequences -/

/-- The mean of `f` over `n` values, drawn one behind the other. -/
noncomputable def draws (next : List α → PMF α) : Nat → List α → (List α → ℝ) → ℝ
  | 0, _, f => f []
  | n + 1, context, f =>
    expect (next context) fun a => draws next n (context ++ [a]) fun as => f (a :: as)

variable (next : List α → PMF α)

theorem draws_const (c : ℝ) : ∀ (n : Nat) (context : List α), draws next n context (fun _ => c) = c := by
  intro n
  induction n with
  | zero => exact fun _ => rfl
  | succ n ih =>
    intro context
    rw [draws]
    rw [expect_congr fun a _ => ih (context ++ [a])]
    exact expect_const _ c

theorem draws_add : ∀ (n : Nat) (context : List α) (f g : List α → ℝ),
    draws next n context (fun as => f as + g as) = draws next n context f + draws next n context g := by
  intro n
  induction n with
  | zero => exact fun _ _ _ => rfl
  | succ n ih =>
    intro context f g
    rw [draws, draws, draws, ← expect_add]
    exact expect_congr fun a _ => ih _ _ _

theorem draws_mul_left (c : ℝ) : ∀ (n : Nat) (context : List α) (f : List α → ℝ),
    draws next n context (fun as => c * f as) = c * draws next n context f := by
  intro n
  induction n with
  | zero => exact fun _ _ => rfl
  | succ n ih =>
    intro context f
    rw [draws, draws, ← expect_mul_left]
    exact expect_congr fun a _ => ih _ _

/-- The drawn sequences have the length asked for. -/
theorem draws_congr : ∀ (n : Nat) (context : List α) {f g : List α → ℝ},
    (∀ as, as.length = n → f as = g as) → draws next n context f = draws next n context g := by
  intro n
  induction n with
  | zero => exact fun _ _ _ h => h [] rfl
  | succ n ih =>
    intro context f g h
    rw [draws, draws]
    refine expect_congr fun a _ => ih _ fun as has => h (a :: as) ?_
    rw [List.length_cons, has]

/-! ## Uniform numbers -/

/-- The mean over `n` independent numbers, uniform on `[0, 1)`. -/
noncomputable def uniforms : Nat → (List ℝ → ℝ) → ℝ
  | 0, f => f []
  | n + 1, f => ∫ u in Set.Ico (0 : ℝ) 1, uniforms n fun us => f (u :: us)

theorem integral_unit (c : ℝ) : ∫ _ in Set.Ico (0 : ℝ) 1, c = c := by
  rw [setIntegral_const]
  simp

theorem uniforms_const (c : ℝ) : ∀ n : Nat, uniforms n (fun _ => c) = c := by
  intro n
  induction n with
  | zero => rfl
  | succ n ih =>
    rw [uniforms]
    simp only [ih]
    exact integral_unit c

theorem uniforms_congr : ∀ (n : Nat) {f g : List ℝ → ℝ}, (∀ us, us.length = n → f us = g us) →
    uniforms n f = uniforms n g := by
  intro n
  induction n with
  | zero => exact fun h => h [] rfl
  | succ n ih =>
    intro f g h
    rw [uniforms, uniforms]
    have hrest : ∀ u : ℝ, uniforms n (fun us => f (u :: us)) = uniforms n fun us => g (u :: us) := by
      intro u
      refine ih fun us hus => h (u :: us) ?_
      rw [List.length_cons, hus]
    simp only [hrest]

/-- A uniform number is at most `c` with probability `min 1 c`. -/
theorem integral_accept {c : ℝ} (hc : 0 ≤ c) (a b : ℝ) :
    ∫ u in Set.Ico (0 : ℝ) 1, (if u ≤ c then a else b) = min 1 c * a + (1 - min 1 c) * b := by
  have hmeasure : volume.real (Set.Iic c ∩ Set.Ico (0 : ℝ) 1) = min 1 c := by
    by_cases h1 : c < 1
    · have hset : Set.Iic c ∩ Set.Ico (0 : ℝ) 1 = Set.Icc 0 c := by
        ext u
        simp only [Set.mem_inter_iff, Set.mem_Iic, Set.mem_Ico, Set.mem_Icc]
        constructor
        · exact fun h => ⟨h.2.1, h.1⟩
        · exact fun h => ⟨h.2, h.1, lt_of_le_of_lt h.2 h1⟩
      rw [hset, Real.volume_real_Icc_of_le hc, sub_zero, min_eq_right (le_of_lt h1)]
    · have hset : Set.Iic c ∩ Set.Ico (0 : ℝ) 1 = Set.Ico 0 1 := by
        rw [Set.inter_eq_right]
        intro u hu
        exact le_trans (le_of_lt hu.2) (not_lt.mp h1)
      rw [hset, Real.volume_real_Ico_of_le zero_le_one, sub_zero, min_eq_left (not_lt.mp h1)]
  have hsplit : ∀ u : ℝ, (if u ≤ c then a else b) = b + Set.indicator (Set.Iic c) (fun _ => a - b) u := by
    intro u
    by_cases hu : u ≤ c
    · rw [if_pos hu, Set.indicator_of_mem (Set.mem_Iic.mpr hu)]
      ring
    · rw [if_neg hu, Set.indicator_of_notMem (fun h => hu (Set.mem_Iic.mp h)), add_zero]
  have hfinite : volume (Set.Ico (0 : ℝ) 1) ≠ ⊤ := by
    rw [Real.volume_Ico]
    exact ENNReal.ofReal_ne_top
  have hint : IntegrableOn (Set.indicator (Set.Iic c) fun _ : ℝ => a - b) (Set.Ico 0 1) :=
    (integrableOn_const hfinite).indicator measurableSet_Iic
  have hconst : IntegrableOn (fun _ : ℝ => b) (Set.Ico 0 1) := integrableOn_const hfinite
  simp only [hsplit]
  rw [integral_add hconst hint, integral_unit, integral_indicator measurableSet_Iic,
    Measure.restrict_restrict measurableSet_Iic, setIntegral_const, hmeasure, smul_eq_mul]
  ring

end Expectation

/-!
## Rejection sampling of proposed sequences

A cheap law proposes some values one behind the other; each is accepted with a probability that
depends on its probabilities under the cheap law and under the target law, the first rejected one
is replaced by a value drawn from what is left, and behind accepted proposals stands one more value
from the target. A `Scheme` is a choice of the cheap law and of what is left, for which a single
position is drawn from the target.

> `Scheme.keeps_target`: the values that come out, continued from the target, are distributed as if
> all were drawn from the target.
-/

namespace Speculative

open Expectation

/-- A proposed value: its probability in the acceptance test and under the target, and the value
that replaces it. -/
structure Proposal (K α : Type) where
  draftProb : K
  targetProb : K
  draft : α
  recovered : α

section Emit

variable {K α : Type} [Field K] [LinearOrder K]

/-- The acceptance test against a uniform number. -/
def Proposal.Accepts (p : Proposal K α) (u : K) : Prop := 0 < p.draftProb ∧ u ≤ p.targetProb / p.draftProb

instance (p : Proposal K α) (u : K) : Decidable (p.Accepts u) := instDecidableAnd

/-- The accepted proposals, and the value behind them. -/
def emit : List (Proposal K α) → List K → α → List α
  | p :: ps, u :: us, bonus => if p.Accepts u then p.draft :: emit ps us bonus else [p.recovered]
  | _, _, bonus => [bonus]

/-- The same proposal, of other values. -/
def Proposal.map {β : Type} (g : α → β) (p : Proposal K α) : Proposal K β :=
  ⟨p.draftProb, p.targetProb, g p.draft, g p.recovered⟩

theorem emit_map {β : Type} (g : α → β) (bonus : α) : ∀ (ps : List (Proposal K α)) (us : List K),
    emit (ps.map (Proposal.map g)) us (g bonus) = (emit ps us bonus).map g := by
  intro ps
  induction ps with
  | nil => exact fun _ => rfl
  | cons p ps ih =>
    intro us
    cases us with
    | nil => rfl
    | cons u us =>
      rw [List.map_cons, emit, emit]
      by_cases haccept : p.Accepts u
      · have haccept' : (p.map g).Accepts u := haccept
        rw [if_pos haccept, if_pos haccept', ih us]
        rfl
      · have hreject : ¬ (p.map g).Accepts u := haccept
        rw [if_neg haccept, if_neg hreject]
        rfl

end Emit

variable {α : Type}

/-- How often a proposal is accepted. -/
noncomputable def acceptRate (draftProb targetProb : ℝ) : ℝ :=
  if 0 < draftProb then min 1 (targetProb / draftProb) else 0

/-- The mean of a function of the values that come out, over the uniform numbers. -/
noncomputable def meanEmit : List (Proposal ℝ α) → α → (List α → ℝ) → ℝ
  | [], bonus, f => f [bonus]
  | p :: ps, bonus, f =>
    acceptRate p.draftProb p.targetProb * meanEmit ps bonus (fun y => f (p.draft :: y))
      + (1 - acceptRate p.draftProb p.targetProb) * f [p.recovered]

/-- The uniform numbers act through the acceptance rates. -/
theorem uniforms_emit (bonus : α) : ∀ (ps : List (Proposal ℝ α)) (f : List α → ℝ),
    (∀ p ∈ ps, 0 ≤ p.targetProb) →
    uniforms ps.length (fun us => f (emit ps us bonus)) = meanEmit ps bonus f := by
  intro ps
  induction ps with
  | nil => exact fun _ _ => rfl
  | cons p ps ih =>
    intro f htarget
    have hrest := ih (fun y => f (p.draft :: y)) fun p' hp' => htarget p' (List.mem_cons_of_mem p hp')
    rw [List.length_cons, uniforms, meanEmit, ← hrest]
    by_cases hdraft : 0 < p.draftProb
    · have hrate : 0 ≤ p.targetProb / p.draftProb := div_nonneg (htarget p List.mem_cons_self) (le_of_lt hdraft)
      have hinner : ∀ u : ℝ, uniforms ps.length (fun us => f (emit (p :: ps) (u :: us) bonus))
          = if u ≤ p.targetProb / p.draftProb then
              uniforms ps.length (fun us => f (p.draft :: emit ps us bonus)) else f [p.recovered] := by
        intro u
        by_cases hu : u ≤ p.targetProb / p.draftProb
        · have haccept : p.Accepts u := ⟨hdraft, hu⟩
          simp only [emit, if_pos haccept, if_pos hu]
        · have hreject : ¬ p.Accepts u := fun h => hu h.2
          simp only [emit, if_neg hreject, if_neg hu]
          exact uniforms_const _ _
      simp only [hinner]
      rw [integral_accept hrate, acceptRate, if_pos hdraft]
    · have hinner : ∀ u : ℝ, uniforms ps.length (fun us => f (emit (p :: ps) (u :: us) bonus))
          = f [p.recovered] := by
        intro u
        have hreject : ¬ p.Accepts u := fun h => hdraft h.1
        simp only [emit, if_neg hreject]
        exact uniforms_const _ _
      simp only [hinner]
      rw [integral_unit, acceptRate, if_neg hdraft, zero_mul, zero_add, sub_zero, one_mul]

variable [Fintype α]

/-- The mean under the law that is proportional to the scores. -/
noncomputable def scoreMean (score f : α → ℝ) : ℝ := (∑ a, score a * f a) / ∑ a, score a

/-- A random value is drawn proportionally to the scores, if these do not vanish. -/
def Proportional [DecidableEq α] {Ω : Type} [Fintype Ω] (law : PMF Ω) (X : Ω → α) (score : α → ℝ) : Prop :=
  0 < ∑ a, score a → ∀ a, expect law (fun ω => if X ω = a then 1 else 0) * ∑ a, score a = score a

theorem Proportional.mean [DecidableEq α] {Ω : Type} [Fintype Ω] {law : PMF Ω} {X : Ω → α} {score : α → ℝ}
    (h : Proportional law X score) (hpos : 0 < ∑ a, score a) (f : α → ℝ) :
    expect law (fun ω => f (X ω)) = scoreMean score f := by
  rw [expect_comp, scoreMean, eq_div_iff (ne_of_gt hpos), Finset.sum_mul]
  refine Finset.sum_congr rfl fun a _ => ?_
  rw [← h hpos a]
  ring

/-- Drawing from a part, and from the rest where the part is missed, is drawing from the whole. -/
theorem part_add_rest {whole part score : α → ℝ} (hsplit : ∀ a, part a + score a = whole a)
    (hscore : ∀ a, 0 ≤ score a) (f : α → ℝ) :
    ∑ a, part a * f a + (∑ a, score a) * scoreMean score f = ∑ a, whole a * f a := by
  have hsum : ∑ a, whole a * f a = ∑ a, part a * f a + ∑ a, score a * f a := by
    rw [← Finset.sum_add_distrib]
    refine Finset.sum_congr rfl fun a _ => ?_
    rw [← hsplit a]
    ring
  rw [hsum]
  congr 1
  by_cases hzero : ∑ a, score a = 0
  · have hall := (Finset.sum_eq_zero_iff_of_nonneg fun a _ => hscore a).mp hzero
    rw [hzero, zero_mul]
    refine (Finset.sum_eq_zero fun a ha => ?_).symm
    rw [hall a ha, zero_mul]
  · rw [scoreMean, mul_div_cancel₀ _ hzero]

/-! ## What is left of the target -/

/-- What both laws have in common is accepted. -/
theorem mul_acceptRate {p q : ℝ} (hp : 0 ≤ p) (hq : 0 ≤ q) : q * acceptRate q p = min p q := by
  unfold acceptRate
  split
  next hpos => rw [mul_min_of_nonneg _ _ hq, mul_one, mul_div_cancel₀ _ (ne_of_gt hpos), min_comm]
  next hzero =>
    have hq0 : q = 0 := le_antisymm (not_lt.mp hzero) hq
    rw [mul_zero, hq0, min_eq_right hp]

theorem min_add_excess (p q : ℝ) : min p q + max (p - q) 0 = p := by
  obtain hle | hle := le_total p q
  · rw [min_eq_left hle, max_eq_right (sub_nonpos.mpr hle), add_zero]
  · rw [min_eq_right hle, max_eq_left (sub_nonneg.mpr hle), add_sub_cancel]

section Excess

variable {p q : α → ℝ} (hsum : ∑ a, p a = ∑ a, q a)
include hsum

/-- The proposals that are rejected weigh as much as the excess of the target. -/
theorem sum_rejected (hp : ∀ a, 0 ≤ p a) (hq : ∀ a, 0 ≤ q a) :
    ∑ a, q a * (1 - acceptRate (q a) (p a)) = ∑ a, max (p a - q a) 0 := by
  have hrejected : ∀ a, q a * (1 - acceptRate (q a) (p a)) = q a - min (p a) (q a) := by
    intro a
    rw [mul_sub, mul_one, mul_acceptRate (hp a) (hq a)]
  have hexcess : ∀ a, max (p a - q a) 0 = p a - min (p a) (q a) := fun a =>
    eq_sub_of_add_eq' (min_add_excess (p a) (q a))
  rw [Finset.sum_congr rfl fun a _ => hrejected a, Finset.sum_congr rfl fun a _ => hexcess a,
    Finset.sum_sub_distrib, Finset.sum_sub_distrib, hsum]

/-- A value with more weight under the draft leaves another with more weight under the target. -/
theorem sum_excess_pos {d : α} (hd : p d < q d) : 0 < ∑ a, max (p a - q a) 0 := by
  obtain ⟨a, ha⟩ : ∃ a, q a < p a := by
    by_contra hnone
    have hle : ∀ a, p a ≤ q a := by
      intro a
      by_contra hgt
      exact hnone ⟨a, not_le.mp hgt⟩
    exact absurd hsum (ne_of_lt (Finset.sum_lt_sum (fun a _ => hle a) ⟨d, Finset.mem_univ d, hd⟩))
  refine Finset.sum_pos' (fun a _ => le_max_right _ _) ⟨a, Finset.mem_univ a, ?_⟩
  exact lt_of_lt_of_le (sub_pos.mpr ha) (le_max_left _ _)

end Excess

/-- A given proposal leaves the other values. -/
theorem sum_others [DecidableEq α] (p : α → ℝ) (d : α) : ∑ a, (if a ≠ d then p a else 0) = ∑ a, p a - p d := by
  have hsplit : ∀ a, (if a ≠ d then p a else 0) = p a - if a = d then p a else 0 := by
    intro a
    by_cases ha : a = d
    · rw [if_pos ha, if_neg (not_not.mpr ha), sub_self]
    · rw [if_neg ha, if_pos ha, sub_zero]
  rw [Finset.sum_congr rfl fun a _ => hsplit a, Finset.sum_sub_distrib, Finset.sum_ite_eq' Finset.univ,
    if_pos (Finset.mem_univ _)]

/-- A way of proposing and of recovering, for which one position is drawn from the target. -/
structure Scheme (α : Type) [Fintype α] where
  target : List α → PMF α
  draft : List α → PMF α
  /-- The probability in the acceptance test, by context and proposal. -/
  draftProb : List α → α → ℝ
  /-- What the recovered value is drawn from, by context and rejected proposal. -/
  score : List α → α → α → ℝ
  position : ∀ context f,
    expect (draft context) (fun d =>
      acceptRate (draftProb context d) (target context d).toReal * f d
        + (1 - acceptRate (draftProb context d) (target context d).toReal) * scoreMean (score context d) f)
      = expect (target context) f
  /-- Where a proposal can be rejected, the scores do not vanish. -/
  recovers : ∀ context d, draft context d ≠ 0 →
    acceptRate (draftProb context d) (target context d).toReal ≠ 1 → 0 < ∑ a, score context d a

namespace Scheme

theorem toReal_le_one (p : PMF α) (a : α) : (p a).toReal ≤ 1 := by
  rw [← sum_toReal p]
  exact Finset.single_le_sum (fun a _ => ENNReal.toReal_nonneg) (Finset.mem_univ a)

/-- The draft's probabilities are known: the recovered value is drawn from the excess of the target. -/
noncomputable def withProbs (target draft : List α → PMF α) : Scheme α where
  target := target
  draft := draft
  draftProb := fun context d => (draft context d).toReal
  score := fun context _ a => max ((target context a).toReal - (draft context a).toReal) 0
  position := by
    intro context f
    have hsum : ∑ a, (target context a).toReal = ∑ a, (draft context a).toReal := by
      rw [sum_toReal, sum_toReal]
    have hrejected := sum_rejected hsum (fun a => ENNReal.toReal_nonneg) fun a => ENNReal.toReal_nonneg
    rw [expect_add]
    unfold expect
    rw [← part_add_rest (fun a => min_add_excess (target context a).toReal (draft context a).toReal)
      (fun a => le_max_right _ _) f, ← hrejected, Finset.sum_mul]
    congr 1
    · refine Finset.sum_congr rfl fun a _ => ?_
      rw [← mul_assoc, mul_acceptRate ENNReal.toReal_nonneg ENNReal.toReal_nonneg]
    · exact Finset.sum_congr rfl fun a _ => (mul_assoc _ _ _).symm
  recovers := by
    intro context d hd hrate
    have hq : 0 < (draft context d).toReal := ENNReal.toReal_pos hd ((draft context).apply_ne_top d)
    refine sum_excess_pos (by rw [sum_toReal, sum_toReal]) (d := d) ?_
    by_contra hle
    apply hrate
    rw [acceptRate, if_pos hq, min_eq_left ((one_le_div hq).mpr (not_lt.mp hle))]

/-- The proposal is given: it is accepted with its target probability, and the recovered value is
drawn from the others. -/
noncomputable def withoutProbs [DecidableEq α] (target : List α → PMF α) (proposal : List α → α) : Scheme α where
  target := target
  draft := fun context => PMF.pure (proposal context)
  draftProb := fun _ _ => 1
  score := fun context d a => if a ≠ d then (target context a).toReal else 0
  position := by
    intro context f
    have hrest : 1 - (target context (proposal context)).toReal
        = ∑ a, (if a ≠ proposal context then (target context a).toReal else 0) := by
      rw [sum_others, sum_toReal]
    have hsplit : ∀ a, (if a = proposal context then (target context a).toReal else 0)
        + (if a ≠ proposal context then (target context a).toReal else 0) = (target context a).toReal := by
      intro a
      by_cases ha : a = proposal context
      · rw [if_pos ha, if_neg (not_not.mpr ha), add_zero]
      · rw [if_neg ha, if_pos ha, zero_add]
    have hscore : ∀ a, 0 ≤ if a ≠ proposal context then (target context a).toReal else 0 := by
      intro a
      split
      · exact ENNReal.toReal_nonneg
      · exact le_refl _
    rw [expect_pure, acceptRate, if_pos one_pos, div_one, min_eq_right (toReal_le_one _ _), hrest]
    unfold expect
    rw [← part_add_rest hsplit hscore f]
    congr 1
    simp only [ite_mul, zero_mul]
    rw [Finset.sum_ite_eq' Finset.univ, if_pos (Finset.mem_univ _)]
  recovers := by
    intro context d _ hrate
    rw [acceptRate, if_pos one_pos, div_one, min_eq_right (toReal_le_one _ _)] at hrate
    rw [sum_others, sum_toReal, sub_pos]
    exact lt_of_le_of_ne (toReal_le_one _ _) hrate

/-! ## Sequences of positions -/

/-- The proposals behind a context; the replacements are given by position. -/
def proposals (S : Scheme α) (recovered : Nat → α) : List α → Nat → List α → List (Proposal ℝ α)
  | _, _, [] => []
  | context, i, d :: ds =>
    ⟨S.draftProb context d, (S.target context d).toReal, d, recovered i⟩
      :: S.proposals recovered (context ++ [d]) (i + 1) ds

theorem length_proposals (S : Scheme α) (recovered : Nat → α) : ∀ (ds context : List α) (i : Nat),
    (S.proposals recovered context i ds).length = ds.length := by
  intro ds
  induction ds with
  | nil => exact fun _ _ => rfl
  | cons d ds ih => exact fun context i => congrArg (· + 1) (ih (context ++ [d]) (i + 1))

theorem proposals_nonneg (S : Scheme α) (recovered : Nat → α) : ∀ (ds context : List α) (i : Nat),
    ∀ p ∈ S.proposals recovered context i ds, 0 ≤ p.targetProb := by
  intro ds
  induction ds with
  | nil =>
    intro context i p hp
    cases hp
  | cons d ds ih =>
    intro context i p hp
    obtain rfl | hp := List.mem_cons.mp hp
    · exact ENNReal.toReal_nonneg
    · exact ih _ _ p hp

variable [DecidableEq α] {Ω : Type} [Fintype Ω]

/-- **The positions one after the other.** `G` is a function of the sequence whose mean does not change
when a value is drawn from the target; no more does it when proposals are checked. The induction is on
the number of proposals: what the first one leaves open is the rest, or one recovered value. -/
theorem draws_meanEmit (S : Scheme α) (recovered : Nat → Ω → α) (G : List α → ℝ) : ∀ (k i : Nat)
    (context : List α) (law : List α → PMF Ω),
    (∀ c, c.length ≤ context.length + k → expect (S.target c) (fun a => G (c ++ [a])) = G c) →
    (∀ pre d post, (pre ++ d :: post).length = k →
      Proportional (law (pre ++ d :: post)) (recovered (i + pre.length)) (S.score (context ++ pre) d)) →
    draws S.draft k context (fun ds => expect (law ds) fun ω => expect (S.target (context ++ ds)) fun bonus =>
      meanEmit (S.proposals (fun j => recovered j ω) context i ds) bonus fun y => G (context ++ y))
      = G context := by
  intro k
  induction k with
  | zero =>
    intro i context law hG _
    have hlast : ∀ ω, expect (S.target (context ++ [])) (fun bonus =>
        meanEmit (S.proposals (fun j => recovered j ω) context i []) bonus fun y => G (context ++ y))
        = G context := by
      intro ω
      rw [List.append_nil]
      exact hG context (Nat.le_refl _)
    rw [draws, expect_congr fun ω _ => hlast ω, expect_const]
  | succ k ih =>
    intro i context law hG hlaw
    have hfirst : ∀ d, S.draft context d ≠ 0 →
        draws S.draft k (context ++ [d]) (fun ds => expect (law (d :: ds)) fun ω =>
          expect (S.target (context ++ d :: ds)) fun bonus =>
            meanEmit (S.proposals (fun j => recovered j ω) context i (d :: ds)) bonus fun y => G (context ++ y))
        = acceptRate (S.draftProb context d) (S.target context d).toReal * G (context ++ [d])
          + (1 - acceptRate (S.draftProb context d) (S.target context d).toReal)
            * scoreMean (S.score context d) fun a => G (context ++ [a]) := by
      intro d hd
      have hih := ih (i + 1) (context ++ [d]) (fun ds => law (d :: ds))
        (fun c hc => hG c (by rw [List.length_append, List.length_singleton] at hc; omega))
        (fun pre d' post hlen => by
          have hp := hlaw (d :: pre) d' post (by rw [List.cons_append, List.length_cons, hlen])
          rw [List.append_assoc, List.singleton_append]
          rw [List.length_cons] at hp
          rw [Nat.add_right_comm, Nat.add_assoc]
          exact hp)
      have hrejected : ∀ ds : List α, ds.length = k →
          expect (law (d :: ds)) (fun ω => (1 - acceptRate (S.draftProb context d) (S.target context d).toReal)
            * G (context ++ [recovered i ω]))
          = (1 - acceptRate (S.draftProb context d) (S.target context d).toReal)
            * scoreMean (S.score context d) fun a => G (context ++ [a]) := by
        intro ds hds
        rw [expect_mul_left]
        by_cases hrate : acceptRate (S.draftProb context d) (S.target context d).toReal = 1
        · rw [hrate, sub_self, zero_mul, zero_mul]
        · have hp : Proportional (law (d :: ds)) (recovered i) (S.score context d) := by
            have hempty := hlaw [] d ds (by rw [List.nil_append, List.length_cons, hds])
            rw [List.append_nil] at hempty
            exact hempty
          rw [hp.mean (S.recovers context d hd hrate) fun a => G (context ++ [a])]
      rw [← hih, ← draws_mul_left, ← draws_const S.draft
        ((1 - acceptRate (S.draftProb context d) (S.target context d).toReal)
          * scoreMean (S.score context d) fun a => G (context ++ [a])) k (context ++ [d]), ← draws_add]
      refine draws_congr _ k _ fun ds hds => ?_
      rw [← hrejected ds hds, ← expect_mul_left, ← expect_add]
      refine expect_congr fun ω _ => ?_
      rw [← expect_mul_left, ← expect_const (S.target (context ++ [d] ++ ds))
        ((1 - acceptRate (S.draftProb context d) (S.target context d).toReal) * G (context ++ [recovered i ω])),
        ← expect_add, List.append_assoc, List.singleton_append]
      refine expect_congr fun bonus _ => ?_
      rw [proposals, meanEmit]
      simp only [List.append_assoc, List.singleton_append]
    rw [draws, expect_congr hfirst, S.position]
    exact hG context (Nat.le_add_right _ _)

/-- A function of the sequence drawn up to a length. -/
noncomputable def completed (S : Scheme α) (n : Nat) (f : List α → ℝ) (c : List α) : ℝ :=
  draws S.target (n - c.length) c fun rest => f (c ++ rest)

omit [DecidableEq α] in
theorem expect_completed (S : Scheme α) (n : Nat) (f : List α → ℝ) {c : List α} (hc : c.length < n) :
    expect (S.target c) (fun a => S.completed n f (c ++ [a])) = S.completed n f c := by
  obtain ⟨m, hm⟩ : ∃ m, n - c.length = m + 1 := ⟨n - c.length - 1, by omega⟩
  unfold completed
  rw [hm, draws]
  refine expect_congr fun a _ => ?_
  have hm' : n - (c ++ [a]).length = m := by
    rw [List.length_append, List.length_singleton]
    omega
  rw [hm']
  simp only [List.append_assoc, List.singleton_append]

/-- **The target is kept.** What is emitted, continued by draws from the target up to a length, is
distributed like as many draws from the target. -/
theorem keeps_target (S : Scheme α) (recovered : Nat → Ω → α) (k : Nat) (context : List α)
    (law : List α → PMF Ω)
    (hlaw : ∀ pre d post, (pre ++ d :: post).length = k →
      Proportional (law (pre ++ d :: post)) (recovered pre.length) (S.score (context ++ pre) d))
    {n : Nat} (hn : k < n) (f : List α → ℝ) :
    draws S.draft k context (fun ds => expect (law ds) fun ω => expect (S.target (context ++ ds)) fun bonus =>
      uniforms k fun us =>
        let out := emit (S.proposals (fun j => recovered j ω) context 0 ds) us bonus
        draws S.target (n - out.length) (context ++ out) fun rest => f (out ++ rest))
      = draws S.target n context f := by
  have hrest : ∀ out : List α, draws S.target (n - out.length) (context ++ out) (fun rest => f (out ++ rest))
      = S.completed (context.length + n) (fun c => f (c.drop context.length)) (context ++ out) := by
    intro out
    unfold completed
    rw [List.length_append, Nat.add_sub_add_left]
    refine draws_congr _ _ _ fun rest _ => ?_
    show f (out ++ rest) = f ((context ++ out ++ rest).drop context.length)
    rw [List.append_assoc, List.drop_left]
  have hwhole : draws S.target n context f
      = S.completed (context.length + n) (fun c => f (c.drop context.length)) context := by
    have h := hrest []
    rw [List.append_nil] at h
    exact h
  rw [hwhole, ← draws_meanEmit S recovered _ k 0 context law
    (fun c hc => S.expect_completed _ _ (by omega)) (fun pre d post hlen => by
      rw [Nat.zero_add]
      exact hlaw pre d post hlen)]
  refine draws_congr _ k _ fun ds hds => expect_congr fun ω _ => expect_congr fun bonus _ => ?_
  rw [← uniforms_emit bonus _ _ (S.proposals_nonneg _ ds context 0), length_proposals, hds]
  simp only [hrest]

end Scheme

end Speculative
