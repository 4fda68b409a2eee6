import Mathlib.Algebra.BigOperators.Group.Finset.Piecewise
import Mathlib.Tactic.Ring

/-!
# Positions dealt out in runs

The positions `0, 1, 2, …` are dealt to `world` ranks in turn, `run` positions at a time. A position is the
run it is in, counted by rounds and ranks, and its place in the run (`eq_join`); everything else is read
off these three numbers.

> `countBelow_position`: a position is preceded, on its rank, by `index` positions of the rank,
> `countBelow_join`: how many positions below a bound a rank has,
> `sum_countBelow`: the ranks together have all of them.
-/

namespace Interleave

/-- The rank of a position. -/
def rank (world run pos : Nat) : Nat := pos / run % world

/-- Its index among the positions of its rank. -/
def index (world run pos : Nat) : Nat := pos / (world * run) * run + pos % run

/-- Place `b` in the run of rank `a` in round `q`. -/
def join (world run q a b : Nat) : Nat := (q * world + a) * run + b

/-- The positions of a rank below a bound. -/
def countBelow (world run r n : Nat) : Nat := (List.range n).countP fun pos => rank world run pos = r

variable {world run : Nat}

theorem join_div {q a b : Nat} (hb : b < run) : join world run q a b / run = q * world + a := by
  have hrun : 0 < run := Nat.lt_of_le_of_lt (Nat.zero_le b) hb
  unfold join
  rw [Nat.add_comm, Nat.add_mul_div_right _ _ hrun, Nat.div_eq_of_lt hb, Nat.zero_add]

theorem join_mod (world q a : Nat) {b : Nat} (hb : b < run) : join world run q a b % run = b := by
  unfold join
  rw [Nat.add_comm, Nat.add_mul_mod_self_right, Nat.mod_eq_of_lt hb]

theorem round_join {q a b : Nat} (ha : a < world) (hb : b < run) :
    join world run q a b / (world * run) = q := by
  have hworld : 0 < world := Nat.lt_of_le_of_lt (Nat.zero_le a) ha
  rw [Nat.mul_comm, ← Nat.div_div_eq_div_mul, join_div hb, Nat.add_comm, Nat.add_mul_div_right _ _ hworld,
    Nat.div_eq_of_lt ha, Nat.zero_add]

theorem rank_join {q a b : Nat} (ha : a < world) (hb : b < run) : rank world run (join world run q a b) = a := by
  unfold rank
  rw [join_div hb, Nat.add_comm, Nat.add_mul_mod_self_right, Nat.mod_eq_of_lt ha]

theorem index_join {q a b : Nat} (ha : a < world) (hb : b < run) :
    index world run (join world run q a b) = q * run + b := by
  unfold index
  rw [round_join ha hb, join_mod world q a hb]

/-- The three numbers of a position are unique. -/
theorem join_injective {q a b q' a' b' : Nat} (ha : a < world) (hb : b < run) (ha' : a' < world) (hb' : b' < run)
    (h : join world run q a b = join world run q' a' b') : q = q' ∧ a = a' ∧ b = b' := by
  refine ⟨?_, ?_, ?_⟩
  · rw [← round_join (q := q) ha hb, h, round_join ha' hb']
  · rw [← rank_join (q := q) ha hb, h, rank_join ha' hb']
  · rw [← join_mod world q a hb, h, join_mod world q' a' hb']

/-- Every position is in one run. -/
theorem eq_join (hworld : 0 < world) (hrun : 0 < run) (pos : Nat) :
    ∃ q a b, a < world ∧ b < run ∧ pos = join world run q a b := by
  refine ⟨pos / run / world, pos / run % world, pos % run, Nat.mod_lt _ hworld, Nat.mod_lt _ hrun, ?_⟩
  unfold join
  rw [Nat.mul_comm (pos / run / world), Nat.div_add_mod, Nat.mul_comm, Nat.div_add_mod]

theorem rank_lt (hworld : 0 < world) (pos : Nat) : rank world run pos < world := Nat.mod_lt _ hworld

theorem countBelow_zero (r : Nat) : countBelow world run r 0 = 0 := rfl

theorem countBelow_succ (r n : Nat) :
    countBelow world run r (n + 1) = countBelow world run r n + if rank world run n = r then 1 else 0 := by
  unfold countBelow
  rw [List.range_succ, List.countP_append, List.countP_singleton]
  simp only [decide_eq_true_eq]

/-- The next position: in the same run, in the run of the next rank, or in the next round. -/
theorem join_succ {q a b : Nat} (ha : a < world) (hb : b < run) :
    (b + 1 < run ∧ join world run q a b + 1 = join world run q a (b + 1))
      ∨ (b + 1 = run ∧ a + 1 < world ∧ join world run q a b + 1 = join world run q (a + 1) 0)
      ∨ (b + 1 = run ∧ a + 1 = world ∧ join world run q a b + 1 = join world run (q + 1) 0 0) := by
  unfold join
  by_cases hlast : b + 1 < run
  · exact Or.inl ⟨hlast, rfl⟩
  · have hrun : b + 1 = run := by omega
    by_cases hrank : a + 1 < world
    · refine Or.inr (Or.inl ⟨hrun, hrank, ?_⟩)
      rw [Nat.add_assoc, hrun]
      ring
    · have hworld : a + 1 = world := by omega
      refine Or.inr (Or.inr ⟨hrun, hworld, ?_⟩)
      rw [Nat.add_assoc, hrun, ← hworld]
      ring

/-- The whole rounds, and of the last round the runs before the one that the bound is in, or the part of
it. The induction is on the bound. -/
theorem countBelow_join {r : Nat} (hr : r < world) : ∀ (n : Nat) {q a b : Nat}, a < world → b < run →
    n = join world run q a b →
    countBelow world run r n = q * run + if r < a then run else if r = a then b else 0 := by
  intro n
  induction n with
  | zero =>
    intro q a b ha hb hn
    have hrun : 0 < run := Nat.lt_of_le_of_lt (Nat.zero_le b) hb
    have hzero : join world run 0 0 0 = join world run q a b := by
      rw [← hn]
      unfold join
      rw [Nat.zero_mul, Nat.zero_add, Nat.zero_mul]
    obtain ⟨rfl, rfl, rfl⟩ := join_injective (Nat.lt_of_le_of_lt (Nat.zero_le a) ha) hrun ha hb hzero
    rw [countBelow_zero, Nat.zero_mul, if_neg (Nat.not_lt_zero r), ite_self]
  | succ n ih =>
    intro q a b ha hb hn
    obtain ⟨q', a', b', ha', hb', hn'⟩ :=
      eq_join (Nat.lt_of_le_of_lt (Nat.zero_le a) ha) (Nat.lt_of_le_of_lt (Nat.zero_le b) hb) n
    have hrank : rank world run n = a' := by rw [hn', rank_join ha' hb']
    rw [countBelow_succ, ih ha' hb' hn', hrank]
    rw [hn'] at hn
    obtain ⟨hlt, heq⟩ | ⟨hrun, hlt, heq⟩ | ⟨hrun, hworld, heq⟩ := join_succ (q := q') ha' hb'
    · obtain ⟨rfl, rfl, rfl⟩ := join_injective ha hb ha' hlt (hn.symm.trans heq)
      split_ifs <;> omega
    · have hpos : 0 < run := Nat.lt_of_le_of_lt (Nat.zero_le b) hb
      obtain ⟨rfl, rfl, rfl⟩ := join_injective ha hb hlt hpos (hn.symm.trans heq)
      split_ifs <;> omega
    · have hpos : 0 < run := Nat.lt_of_le_of_lt (Nat.zero_le b) hb
      have hfirst : 0 < world := Nat.lt_of_le_of_lt (Nat.zero_le a) ha
      obtain ⟨rfl, rfl, rfl⟩ := join_injective ha hb hfirst hpos (hn.symm.trans heq)
      rw [Nat.succ_mul]
      split_ifs <;> omega

/-- A position is preceded, on its rank, by as many positions as its index says. -/
theorem countBelow_position (hworld : 0 < world) (hrun : 0 < run) (pos : Nat) :
    countBelow world run (rank world run pos) pos = index world run pos := by
  obtain ⟨q, a, b, ha, hb, rfl⟩ := eq_join hworld hrun pos
  rw [rank_join ha hb, countBelow_join ha _ ha hb rfl, index_join ha hb, if_neg (Nat.lt_irrefl a), if_pos rfl]

/-- The ranks have every position below the bound, each one of them. -/
theorem sum_countBelow (hworld : 0 < world) (n : Nat) :
    ∑ r ∈ Finset.range world, countBelow world run r n = n := by
  induction n with
  | zero => exact Finset.sum_eq_zero fun r _ => countBelow_zero r
  | succ n ih =>
    have hone : ∑ r ∈ Finset.range world, (if rank world run n = r then 1 else 0) = 1 := by
      rw [Finset.sum_ite_eq, if_pos (Finset.mem_range.mpr (rank_lt hworld n))]
    simp only [countBelow_succ]
    rw [Finset.sum_add_distrib, ih, hone]

/-- On one rank, positions with one index are one position. -/
theorem eq_of_index_eq (hworld : 0 < world) (hrun : 0 < run) {pos pos' : Nat}
    (hrank : rank world run pos = rank world run pos') (hindex : index world run pos = index world run pos') :
    pos = pos' := by
  obtain ⟨q, a, b, ha, hb, rfl⟩ := eq_join hworld hrun pos
  obtain ⟨q', a', b', ha', hb', rfl⟩ := eq_join hworld hrun pos'
  rw [rank_join ha hb, rank_join ha' hb'] at hrank
  rw [index_join ha hb, index_join ha' hb'] at hindex
  have hq : q = q' := by
    have hdiv := congrArg (· / run) hindex
    rwa [Nat.add_comm, Nat.add_mul_div_right _ _ hrun, Nat.div_eq_of_lt hb, Nat.zero_add, Nat.add_comm (q' * run),
      Nat.add_mul_div_right _ _ hrun, Nat.div_eq_of_lt hb', Nat.zero_add] at hdiv
  subst hq hrank
  rw [Nat.add_left_cancel hindex]

/-! ## Blocks of whole rounds -/

/-- The block that a position and its index are in, where a block has `rounds` runs of each rank. -/
theorem index_div_block (rounds : Nat) (hworld : 0 < world) (hrun : 0 < run) (pos : Nat) :
    index world run pos / (run * rounds) = pos / (run * rounds * world) := by
  obtain ⟨q, a, b, ha, hb, rfl⟩ := eq_join hworld hrun pos
  rw [index_join ha hb, ← Nat.div_div_eq_div_mul, Nat.add_comm, Nat.add_mul_div_right _ _ hrun,
    Nat.div_eq_of_lt hb, Nat.zero_add, Nat.mul_right_comm, Nat.mul_comm run world, ← Nat.div_div_eq_div_mul,
    round_join ha hb]

/-- The place in the block, from the place in the block of all ranks. -/
theorem index_mod_block {rounds : Nat} (hworld : 0 < world) (hrun : 0 < run) (hrounds : 0 < rounds) (pos : Nat) :
    index world run pos % (run * rounds) = index world run (pos % (run * rounds * world)) := by
  obtain ⟨q, a, b, ha, hb, rfl⟩ := eq_join hworld hrun pos
  have hplace : join world run q a b % (run * rounds * world) = join world run (q % rounds) a b := by
    have hsplit : join world run q a b = join world run (q % rounds) a b + run * rounds * world * (q / rounds) := by
      have hq := Nat.mod_add_div q rounds
      unfold join
      calc (q * world + a) * run + b
          = ((q % rounds + rounds * (q / rounds)) * world + a) * run + b := by rw [hq]
        _ = (q % rounds * world + a) * run + b + run * rounds * world * (q / rounds) := by ring
    have hlt : join world run (q % rounds) a b < run * rounds * world := by
      have hround : q % rounds + 1 ≤ rounds := Nat.mod_lt q hrounds
      unfold join
      calc (q % rounds * world + a) * run + b
          < (q % rounds * world + a) * run + run := Nat.add_lt_add_left hb _
        _ = (q % rounds * world + a + 1) * run := by ring
        _ ≤ (q % rounds * world + world) * run := Nat.mul_le_mul_right run (Nat.add_le_add_left ha _)
        _ = (q % rounds + 1) * (world * run) := by ring
        _ ≤ rounds * (world * run) := Nat.mul_le_mul_right _ hround
        _ = run * rounds * world := by ring
    rw [hsplit, Nat.add_mul_mod_self_left, Nat.mod_eq_of_lt hlt]
  have hindex : q * run + b = q % rounds * run + b + run * rounds * (q / rounds) := by
    have hq := Nat.mod_add_div q rounds
    calc q * run + b = (q % rounds + rounds * (q / rounds)) * run + b := by rw [hq]
      _ = q % rounds * run + b + run * rounds * (q / rounds) := by ring
  have hlt : q % rounds * run + b < run * rounds := by
    have hround : q % rounds + 1 ≤ rounds := Nat.mod_lt q hrounds
    calc q % rounds * run + b < q % rounds * run + run := Nat.add_lt_add_left hb _
      _ = (q % rounds + 1) * run := by ring
      _ ≤ rounds * run := Nat.mul_le_mul_right run hround
      _ = run * rounds := Nat.mul_comm _ _
  rw [hplace, index_join ha hb, index_join ha hb, hindex, Nat.add_mul_mod_self_left, Nat.mod_eq_of_lt hlt]

/-- A block of all ranks begins a round. -/
theorem rank_mod_block (world run rounds pos : Nat) :
    rank world run (pos % (run * rounds * world)) = rank world run pos := by
  unfold rank
  have hdiv : pos % (run * rounds * world) / run = pos / run % (rounds * world) := by
    rw [Nat.mul_assoc, Nat.mod_mul_right_div_self]
  rw [hdiv, Nat.mod_mul_left_mod]

end Interleave
