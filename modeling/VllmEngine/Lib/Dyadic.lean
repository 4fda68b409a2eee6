import Mathlib.Data.List.Count
import Mathlib.Tactic.Ring
import Mathlib.Tactic.Linarith

/-!
# Blocks of a power of two

A range of `2 ^ n` integers cut into blocks whose sizes are powers of two and
whose offsets from the start of the range are multiples of their sizes. Two
blocks of one size are buddies when they are the halves of such a block.

> `Tiles.split`, `Tiles.merge`: a block for its halves, and back,
> `Tiles.whole`: without two buddies there is one block only.
-/

namespace Dyadic

/-- The `size` integers from `addr`. -/
structure Block where
  size : Nat
  addr : Int
deriving DecidableEq, Repr

namespace Block

/-- `x` lies in the block. -/
def contains (b : Block) (x : Int) : Bool := decide (b.addr ≤ x) && decide (x < b.addr + b.size)

variable {b : Block} {base : Int}

theorem contains_iff {x : Int} : b.contains x = true ↔ b.addr ≤ x ∧ x < b.addr + b.size := by
  rw [contains, Bool.and_eq_true, decide_eq_true_iff, decide_eq_true_iff]

/-- The size is a power of two and divides the offset. -/
def Aligned (base : Int) (b : Block) : Prop :=
  (∃ k, b.size = 2 ^ k) ∧ (b.size : Int) ∣ b.addr - base

/-- The two halves of one block. -/
def Buddies (base : Int) (b b' : Block) : Prop :=
  b.size = b'.size ∧ b.addr ≠ b'.addr ∧
    (b.addr - base) / (2 * b.size) = (b'.addr - base) / (2 * b'.size)

theorem Buddies.symm {b' : Block} (h : Buddies base b b') : Buddies base b' b :=
  ⟨h.1.symm, h.2.1.symm, h.2.2.symm⟩

theorem Aligned.pos (h : b.Aligned base) : 0 < b.size := by
  obtain ⟨⟨k, hk⟩, -⟩ := h
  rw [hk]
  exact Nat.two_pow_pos k

/-- The offset in units of the size. -/
theorem Aligned.exists_index (h : b.Aligned base) : ∃ m : Int, b.addr = base + b.size * m := by
  obtain ⟨-, m, hm⟩ := h
  exact ⟨m, by omega⟩

/-- Where the other half of the block that `b` is a half of begins. -/
def buddyAddr (base : Int) (b : Block) : Int :=
  b.addr + if (b.addr - base) % (2 * b.size) = 0 then (b.size : Int) else -(b.size : Int)

theorem buddyAddr_of_index {m : Int} (hpos : 0 < b.size) (hm : b.addr = base + b.size * m) :
    buddyAddr base b = base + b.size * (if m % 2 = 0 then m + 1 else m - 1) := by
  have hsize : (0 : Int) < b.size := Int.natCast_pos.mpr hpos
  have hmod : (b.addr - base) % (2 * b.size) = m % 2 * b.size := by
    have hoffset : b.addr - base = b.size * m := by omega
    rw [hoffset, Int.mul_comm 2, Int.mul_emod_mul_of_pos m 2 hsize]
    exact Int.mul_comm _ _
  unfold buddyAddr
  rw [hmod]
  rcases Int.emod_two_eq_zero_or_one m with h | h
  · rw [h, Int.zero_mul, if_pos rfl, if_pos rfl, hm]
    ring
  · rw [h, Int.one_mul, if_neg (Int.ne_of_gt hsize), if_neg (by decide), hm]
    ring

/-- The parent's place in units of its size. -/
theorem parent_of_index {m : Int} (hpos : 0 < b.size) (hm : b.addr = base + b.size * m) :
    (b.addr - base) / (2 * b.size) = m / 2 := by
  have hsize : (0 : Int) < b.size := Int.natCast_pos.mpr hpos
  have hoffset : b.addr - base = b.size * m := by omega
  rw [hoffset, Int.mul_comm 2]
  exact Int.mul_ediv_mul_of_pos m 2 hsize

/-- A buddy stands at `buddyAddr`, and what stands there is a buddy. -/
theorem buddies_iff {b' : Block} (h : b.Aligned base) (h' : b'.Aligned base) :
    Buddies base b b' ↔ b'.size = b.size ∧ b'.addr = buddyAddr base b := by
  obtain ⟨m, hm⟩ := h.exists_index
  obtain ⟨m', hm'⟩ := h'.exists_index
  have hsize : (0 : Int) < b.size := Int.natCast_pos.mpr h.pos
  rw [buddyAddr_of_index h.pos hm]
  constructor
  · rintro ⟨hs, hne, hdiv⟩
    rw [parent_of_index h.pos hm, parent_of_index h'.pos hm'] at hdiv
    refine ⟨hs.symm, ?_⟩
    rw [hm', ← hs] at hne ⊢
    have hmm : m ≠ m' := fun heq => hne (by rw [hm, heq])
    have hval : m' = if m % 2 = 0 then m + 1 else m - 1 := by
      split <;> omega
    rw [hval]
  · rintro ⟨hs, haddr⟩
    rw [hm', hs] at haddr
    have hval : m' = if m % 2 = 0 then m + 1 else m - 1 := by
      have hmul := Int.add_left_cancel haddr
      exact Int.eq_of_mul_eq_mul_left (Int.ne_of_gt hsize) hmul
    refine ⟨hs.symm, ?_, ?_⟩
    · intro heq
      rw [hm, hm', hs] at heq
      have hmm := Int.eq_of_mul_eq_mul_left (Int.ne_of_gt hsize) (Int.add_left_cancel heq)
      split at hval <;> omega
    · rw [parent_of_index h.pos hm, parent_of_index h'.pos hm']
      split at hval <;> omega

/-- The lower half. -/
def lower (b : Block) : Block := { size := b.size / 2, addr := b.addr }

/-- The upper half. -/
def upper (b : Block) : Block := { size := b.size / 2, addr := b.addr + ((b.size / 2 : Nat) : Int) }

/-- The block whose halves `b` and `b'` are. -/
def merged (b b' : Block) : Block := { size := b.size * 2, addr := min b.addr b'.addr }

theorem contains_halves (heven : b.size = 2 * (b.size / 2)) (x : Int) :
    (if b.lower.contains x then 1 else 0) + (if b.upper.contains x then 1 else 0)
      = if b.contains x then 1 else (0 : Nat) := by
  simp only [contains_iff, lower, upper]
  split <;> split <;> split <;> omega

/-- A power of two above one is even, and its half is a power of two. -/
theorem half_of_pow {s : Nat} (hpow : ∃ k, s = 2 ^ k) (h : 1 < s) :
    s = 2 * (s / 2) ∧ ∃ k, s / 2 = 2 ^ k := by
  obtain ⟨k, rfl⟩ := hpow
  cases k with
  | zero => exact absurd h (Nat.lt_irrefl 1)
  | succ k =>
    have hhalf : 2 ^ (k + 1) / 2 = 2 ^ k := by
      rw [Nat.pow_succ]
      exact Nat.mul_div_cancel _ (Nat.succ_pos 1)
    rw [hhalf, Nat.pow_succ]
    exact ⟨Nat.mul_comm _ _, k, rfl⟩

theorem Aligned.halves (h : b.Aligned base) (hlt : 1 < b.size) :
    b.lower.Aligned base ∧ b.upper.Aligned base := by
  obtain ⟨heven, hpow⟩ := half_of_pow h.1 hlt
  have hdvd : ((b.size / 2 : Nat) : Int) ∣ b.addr - base := by
    apply Int.dvd_trans _ h.2
    exact ⟨2, by omega⟩
  refine ⟨⟨hpow, hdvd⟩, hpow, ?_⟩
  show ((b.size / 2 : Nat) : Int) ∣ b.addr + ((b.size / 2 : Nat) : Int) - base
  have hshift : b.addr + ((b.size / 2 : Nat) : Int) - base
      = b.addr - base + ((b.size / 2 : Nat) : Int) := by ring
  rw [hshift]
  exact Int.dvd_add hdvd (Int.dvd_refl _)

/-- The two halves of a block are buddies. -/
theorem Aligned.halves_buddies (h : b.Aligned base) (hlt : 1 < b.size) :
    Buddies base b.upper b.lower := by
  obtain ⟨hlower, hupper⟩ := h.halves hlt
  obtain ⟨m, hm⟩ := h.exists_index
  have heven := (half_of_pow h.1 hlt).1
  have hcast : (b.size : Int) = 2 * ((b.size / 2 : Nat) : Int) := by omega
  have hl : b.lower.addr = base + b.lower.size * (2 * m) := by
    show b.addr = base + ((b.size / 2 : Nat) : Int) * (2 * m)
    rw [hm, hcast]
    ring
  have hu : b.upper.addr = base + b.upper.size * (2 * m + 1) := by
    show b.addr + ((b.size / 2 : Nat) : Int) = base + ((b.size / 2 : Nat) : Int) * (2 * m + 1)
    rw [hm, hcast]
    ring
  refine ⟨rfl, ?_, ?_⟩
  · show b.addr + ((b.size / 2 : Nat) : Int) ≠ b.addr
    have hpos := hlower.pos
    have hsize : b.lower.size = b.size / 2 := rfl
    omega
  · rw [parent_of_index hupper.pos hu, parent_of_index hlower.pos hl]
    omega

/-- A block has one buddy. -/
theorem Buddies.unique {b₁ b₂ : Block} (h : b.Aligned base) (h₁ : b₁.Aligned base)
    (h₂ : b₂.Aligned base) (hb₁ : Buddies base b b₁) (hb₂ : Buddies base b b₂) : b₁ = b₂ := by
  obtain ⟨hsize₁, haddr₁⟩ := (buddies_iff h h₁).mp hb₁
  obtain ⟨hsize₂, haddr₂⟩ := (buddies_iff h h₂).mp hb₂
  cases b₁
  cases b₂
  exact congrArg₂ Block.mk (hsize₁.trans hsize₂.symm) (haddr₁.trans haddr₂.symm)

/-- Two buddies are the halves of what they merge to. -/
theorem merged_halves {b' : Block} (h : b.Aligned base) (h' : b'.Aligned base)
    (hb : Buddies base b b') :
    (merged b b').Aligned base ∧
      ((b = (merged b b').lower ∧ b' = (merged b b').upper) ∨
        (b' = (merged b b').lower ∧ b = (merged b b').upper)) := by
  obtain ⟨hsize, haddr⟩ := (buddies_iff h h').mp hb
  obtain ⟨m, hm⟩ := h.exists_index
  obtain ⟨⟨k, hk⟩, -⟩ := h
  have hpos : 0 < b.size := by
    rw [hk]
    exact Nat.two_pow_pos k
  have hcast : (0 : Int) < b.size := Int.natCast_pos.mpr hpos
  rw [buddyAddr_of_index hpos hm] at haddr
  have hdouble : ∃ j, b.size * 2 = 2 ^ j := ⟨k + 1, by rw [hk, Nat.pow_succ]⟩
  have hhalf : b.size * 2 / 2 = b.size := Nat.mul_div_cancel _ (Nat.succ_pos 1)
  rcases Int.emod_two_eq_zero_or_one m with heven | hodd
  · rw [if_pos heven] at haddr
    have hlater : b'.addr = b.addr + b.size := by
      rw [haddr, hm]
      ring
    have hmin : min b.addr b'.addr = b.addr := Int.min_eq_left (by omega)
    refine ⟨⟨hdouble, ?_⟩, Or.inl ⟨?_, ?_⟩⟩
    · show ((b.size * 2 : Nat) : Int) ∣ min b.addr b'.addr - base
      have hoffset : b.addr - base = b.size * m := by omega
      have hm2 : m = 2 * (m / 2) := by omega
      rw [hmin, hoffset]
      refine ⟨m / 2, ?_⟩
      push_cast
      rw [Int.mul_assoc, ← hm2]
    · show b = ⟨b.size * 2 / 2, min b.addr b'.addr⟩
      rw [hhalf, hmin]
    · show b' = ⟨b.size * 2 / 2, min b.addr b'.addr + ((b.size * 2 / 2 : Nat) : Int)⟩
      rw [hhalf, hmin, ← hlater, ← hsize]
  · rw [if_neg (by omega)] at haddr
    have hearlier : b.addr = b'.addr + b.size := by
      rw [haddr, hm]
      ring
    have hmin : min b.addr b'.addr = b'.addr := Int.min_eq_right (by omega)
    refine ⟨⟨hdouble, ?_⟩, Or.inr ⟨?_, ?_⟩⟩
    · show ((b.size * 2 : Nat) : Int) ∣ min b.addr b'.addr - base
      have hoffset : b'.addr - base = b.size * (m - 1) := by omega
      have hm2 : m - 1 = 2 * ((m - 1) / 2) := by omega
      rw [hmin, hoffset]
      refine ⟨(m - 1) / 2, ?_⟩
      push_cast
      rw [Int.mul_assoc, ← hm2]
    · show b' = ⟨b.size * 2 / 2, min b.addr b'.addr⟩
      rw [hhalf, hmin, ← hsize]
    · show b = ⟨b.size * 2 / 2, min b.addr b'.addr + ((b.size * 2 / 2 : Nat) : Int)⟩
      rw [hhalf, hmin, ← hearlier]

end Block

/-! ## Tilings -/

/-- Aligned blocks, and each integer of the range lies in one of them. -/
structure Tiles (base : Int) (n : Nat) (bs : List Block) : Prop where
  aligned : ∀ b ∈ bs, b.Aligned base
  cover : ∀ x, bs.countP (fun b => b.contains x) = if base ≤ x ∧ x < base + (2 ^ n : Nat) then 1 else 0

variable {base : Int} {n : Nat} {bs bs' : List Block}

theorem Tiles.perm (h : Tiles base n bs) (hp : bs.Perm bs') : Tiles base n bs' where
  aligned := fun b hb => h.aligned b (hp.mem_iff.mpr hb)
  cover := fun x => (hp.countP_eq _).symm.trans (h.cover x)

/-- The range as one block. -/
theorem Tiles.single (base : Int) (n : Nat) : Tiles base n [⟨2 ^ n, base⟩] where
  aligned := by
    intro b hb
    rw [List.mem_singleton] at hb
    rw [hb]
    refine ⟨⟨n, rfl⟩, ?_⟩
    rw [Int.sub_self]
    exact Int.dvd_zero _
  cover := by
    intro x
    rw [List.countP_singleton]
    simp only [Block.contains_iff]

/-- A block for its halves. -/
theorem Tiles.split {b : Block} (h : Tiles base n (b :: bs)) (hlt : 1 < b.size) :
    Tiles base n (b.lower :: b.upper :: bs) := by
  have hb := h.aligned b List.mem_cons_self
  obtain ⟨hlower, hupper⟩ := hb.halves hlt
  refine ⟨?_, ?_⟩
  · intro c hc
    rcases List.mem_cons.mp hc with rfl | hc
    · exact hlower
    · rcases List.mem_cons.mp hc with rfl | hc
      · exact hupper
      · exact h.aligned c (List.mem_cons_of_mem b hc)
  · intro x
    have hx := h.cover x
    have hparts := Block.contains_halves (Block.half_of_pow hb.1 hlt).1 x
    rw [List.countP_cons] at hx
    rw [List.countP_cons, List.countP_cons]
    omega

/-- Two buddies for the block they are the halves of. -/
theorem Tiles.merge {b b' : Block} (h : Tiles base n (b :: b' :: bs))
    (hb : Block.Buddies base b b') : Tiles base n (Block.merged b b' :: bs) := by
  have halign := h.aligned b List.mem_cons_self
  have halign' := h.aligned b' (List.mem_cons_of_mem b List.mem_cons_self)
  obtain ⟨hmerged, hhalves⟩ := Block.merged_halves halign halign' hb
  refine ⟨?_, ?_⟩
  · intro c hc
    rcases List.mem_cons.mp hc with rfl | hc
    · exact hmerged
    · exact h.aligned c (List.mem_cons_of_mem b (List.mem_cons_of_mem b' hc))
  · intro x
    have hx := h.cover x
    have heven : (Block.merged b b').size = 2 * ((Block.merged b b').size / 2) := by
      show b.size * 2 = 2 * (b.size * 2 / 2)
      omega
    have hparts := Block.contains_halves heven x
    rw [List.countP_cons, List.countP_cons] at hx
    rw [List.countP_cons]
    rcases hhalves with ⟨hl, hu⟩ | ⟨hl, hu⟩
    · rw [← hl, ← hu] at hparts
      omega
    · rw [← hl, ← hu] at hparts
      omega

/-- Blocks of a tiling do not meet. -/
theorem Tiles.disjoint {b : Block} (h : Tiles base n (b :: bs)) {b' : Block} (hb' : b' ∈ bs) {x : Int}
    (hx : b.contains x = true) : b'.contains x = false := by
  by_contra hne
  rw [Bool.not_eq_false] at hne
  have hcover := h.cover x
  rw [List.countP_cons, if_pos hx] at hcover
  have hpos : 0 < bs.countP fun c => c.contains x := List.countP_pos_iff.mpr ⟨b', hb', hne⟩
  split at hcover <;> omega

theorem Tiles.contains_start {b : Block} (h : Tiles base n bs) (hb : b ∈ bs) :
    b.contains b.addr = true := by
  have hpos := (h.aligned b hb).pos
  exact Block.contains_iff.mpr ⟨Int.le_refl _, by omega⟩

/-- Two blocks of a tiling that meet are the same. -/
theorem Tiles.eq_of_contains {b b' : Block} (h : Tiles base n bs) (hb : b ∈ bs) (hb' : b' ∈ bs)
    {x : Int} (hx : b.contains x = true) (hx' : b'.contains x = true) : b = b' := by
  obtain ⟨l, r, rfl⟩ := List.mem_iff_append.mp hb
  have hperm : (l ++ b :: r).Perm (b :: (l ++ r)) := List.perm_middle
  rcases List.mem_cons.mp (hperm.mem_iff.mp hb') with heq | hmem
  · exact heq.symm
  · have hdisj := (h.perm hperm).disjoint hmem hx
    rw [hx'] at hdisj
    cases hdisj

theorem Tiles.in_range {b : Block} (h : Tiles base n bs) (hb : b ∈ bs) {x : Int}
    (hx : b.contains x = true) : base ≤ x ∧ x < base + (2 ^ n : Nat) := by
  have hcover := h.cover x
  by_contra hout
  rw [if_neg hout, List.countP_eq_zero] at hcover
  exact hcover b hb hx

theorem Tiles.exists_block (h : Tiles base n bs) {x : Int} (hx : base ≤ x ∧ x < base + (2 ^ n : Nat)) :
    ∃ b ∈ bs, b.contains x = true := by
  have hcover := h.cover x
  rw [if_pos hx] at hcover
  apply List.countP_pos_iff.mp
  rw [hcover]
  exact Nat.one_pos

/-- A block lies in the range. -/
theorem Tiles.bounds {b : Block} (h : Tiles base n bs) (hb : b ∈ bs) :
    base ≤ b.addr ∧ b.addr + b.size ≤ base + (2 ^ n : Nat) := by
  have hpos := (h.aligned b hb).pos
  have hstart := h.in_range hb (h.contains_start hb)
  have hend : b.contains (b.addr + b.size - 1) = true := Block.contains_iff.mpr ⟨by omega, by omega⟩
  have hlast := h.in_range hb hend
  exact ⟨hstart.1, by omega⟩

theorem Tiles.size_le {b : Block} (h : Tiles base n bs) (hb : b ∈ bs) : b.size ≤ 2 ^ n := by
  have hbounds := h.bounds hb
  omega

/-! ## Without buddies -/

/-- No two blocks are buddies. -/
def NoBuddies (base : Int) (bs : List Block) : Prop :=
  ∀ b ∈ bs, ∀ b' ∈ bs, ¬ Block.Buddies base b b'

/-- While a block is smaller than the range and no other is smaller, its buddy is a block. -/
theorem Tiles.buddy_mem {b : Block} {k : Nat} (h : Tiles base n bs) (hb : b ∈ bs) (hsize : b.size = 2 ^ k)
    (hk : k < n) (hall : ∀ c ∈ bs, 2 ^ k ≤ c.size) : ∃ b' ∈ bs, Block.Buddies base b b' := by
  have halign := h.aligned b hb
  obtain ⟨m, hm⟩ := halign.exists_index
  have hpos : (0 : Int) < b.size := Int.natCast_pos.mpr halign.pos
  -- The range has an even number of places of this size, so the buddy's is one of them.
  obtain ⟨q, hq⟩ : ∃ q : Nat, 2 ^ n = b.size * (2 * q) := by
    refine ⟨2 ^ (n - k - 1), ?_⟩
    have hn : n = k + (n - k - 1 + 1) := by omega
    rw [hsize, Nat.mul_comm 2, ← Nat.pow_succ, ← Nat.pow_add, ← hn]
  have hq' : ((2 ^ n : Nat) : Int) = b.size * (2 * q) := by
    rw [hq]
    push_cast
    rfl
  obtain ⟨hlo, hhi⟩ := h.bounds hb
  rw [hq', hm] at hhi
  rw [hm] at hlo
  have hm0 : 0 ≤ m := by
    apply Int.le_of_mul_le_mul_left _ hpos
    omega
  have hm1 : m + 1 ≤ 2 * q := by
    apply Int.le_of_mul_le_mul_left _ hpos
    rw [Int.mul_add, Int.mul_one]
    omega
  have hbuddy := Block.buddyAddr_of_index halign.pos hm
  generalize hm' : (if m % 2 = 0 then m + 1 else m - 1) = m' at hbuddy
  have hparent : m' / 2 = m / 2 ∧ 0 ≤ m' ∧ m' + 1 ≤ 2 * q := by
    split at hm' <;> omega
  obtain ⟨hhalf, hm0', hm1'⟩ := hparent
  have hin : base ≤ Block.buddyAddr base b ∧ Block.buddyAddr base b < base + (2 ^ n : Nat) := by
    have hge := Int.mul_le_mul_of_nonneg_left hm0' (Int.le_of_lt hpos)
    have hle := Int.mul_le_mul_of_nonneg_left hm1' (Int.le_of_lt hpos)
    rw [Int.mul_add, Int.mul_one] at hle
    rw [hbuddy, hq']
    omega
  obtain ⟨b', hb', hx⟩ := h.exists_block hin
  have halign' := h.aligned b' hb'
  obtain ⟨i, hi⟩ := halign'.exists_index
  obtain ⟨⟨j, hj⟩, -⟩ := halign'
  have hkj : k ≤ j := (Nat.pow_le_pow_iff_right (Nat.lt_succ_self 1)).mp (hj ▸ hall b' hb')
  rw [Block.contains_iff, hbuddy, hi] at hx
  refine ⟨b', hb', ?_⟩
  rcases Nat.eq_or_lt_of_le hkj with rfl | hlt
  · -- of the same size: it starts there
    have hsame : b'.size = b.size := hj.trans hsize.symm
    rw [hsame] at hx hi
    have hle : i ≤ m' := Int.le_of_mul_le_mul_left (by omega) hpos
    have hge : m' < i + 1 := by
      apply Int.lt_of_mul_lt_mul_left _ (Int.le_of_lt hpos)
      rw [Int.mul_add, Int.mul_one]
      omega
    apply (Block.buddies_iff halign (h.aligned b' hb')).mpr
    refine ⟨hsame, ?_⟩
    rw [hbuddy, hi]
    have himm : i = m' := by omega
    rw [himm]
  · -- larger: it would hold the other half as well
    exfalso
    obtain ⟨t, ht⟩ : ∃ t : Nat, b'.size = b.size * (2 * t) := by
      refine ⟨2 ^ (j - k - 1), ?_⟩
      have hj' : j = k + (j - k - 1 + 1) := by omega
      rw [hsize, Nat.mul_comm 2, ← Nat.pow_succ, ← Nat.pow_add, ← hj', hj]
    have ht' : (b'.size : Int) = b.size * (2 * t) := by
      rw [ht]
      push_cast
      rfl
    rw [ht', Int.mul_assoc] at hx
    have hle : 2 * t * i ≤ m' := Int.le_of_mul_le_mul_left (by omega) hpos
    have hge : m' < 2 * t * i + 2 * t := by
      apply Int.lt_of_mul_lt_mul_left _ (Int.le_of_lt hpos)
      rw [Int.mul_add]
      omega
    rw [Int.mul_assoc] at hle hge
    have hle' : 2 * (t * i) ≤ m := by omega
    have hge' : m + 1 ≤ 2 * (t * i) + 2 * t := by omega
    have hcontains : b'.contains b.addr = true := by
      have hge := Int.mul_le_mul_of_nonneg_left hle' (Int.le_of_lt hpos)
      have hle := Int.mul_le_mul_of_nonneg_left hge' (Int.le_of_lt hpos)
      rw [Int.mul_add, Int.mul_one, Int.mul_add] at hle
      rw [Block.contains_iff, hi, hm, ht', Int.mul_assoc, Int.mul_assoc]
      omega
    have heq := h.eq_of_contains hb hb' (h.contains_start hb) hcontains
    rw [← heq, hsize] at hj
    exact absurd (Nat.pow_right_injective (Nat.le_refl 2) hj) (Nat.ne_of_lt hlt)

/-- Without buddies, the tiling is the range as one block. -/
theorem Tiles.whole (h : Tiles base n bs) (hno : NoBuddies base bs) : bs = [⟨2 ^ n, base⟩] := by
  -- The smallest size would have a buddy, so all are the largest.
  have hlarge : ∀ k ≤ n, ∀ c ∈ bs, 2 ^ k ≤ c.size := by
    intro k
    induction k with
    | zero =>
      intro _ c hc
      exact (h.aligned c hc).pos
    | succ k ih =>
      intro hk c hc
      have hall := ih (Nat.le_of_succ_le hk)
      obtain ⟨⟨j, hj⟩, -⟩ := h.aligned c hc
      have hne : c.size ≠ 2 ^ k := by
        intro hsize
        obtain ⟨c', hc', hbuddies⟩ := h.buddy_mem hc hsize hk hall
        exact hno c hc c' hc' hbuddies
      have hle := hall c hc
      rw [hj] at hle hne ⊢
      have hkj := (Nat.pow_le_pow_iff_right (Nat.lt_succ_self 1)).mp hle
      apply (Nat.pow_le_pow_iff_right (Nat.lt_succ_self 1)).mpr
      apply Nat.lt_of_le_of_ne hkj
      intro heq
      exact hne (by rw [heq])
  have hrange : ∀ c ∈ bs, c = ⟨2 ^ n, base⟩ := by
    intro c hc
    have hsize : c.size = 2 ^ n := Nat.le_antisymm (h.size_le hc) (hlarge n (Nat.le_refl n) c hc)
    obtain ⟨hlo, hhi⟩ := h.bounds hc
    have haddr : c.addr = base := by omega
    cases c
    exact congrArg₂ Block.mk hsize haddr
  have hbase : base ≤ base ∧ base < base + (2 ^ n : Nat) := by
    have hpos := Nat.two_pow_pos n
    omega
  obtain ⟨b, hb, hx⟩ := h.exists_block hbase
  cases hbs : bs with
  | nil =>
    rw [hbs] at hb
    cases hb
  | cons c cs =>
    rw [hbs] at h hrange
    cases cs with
    | nil => rw [hrange c List.mem_cons_self]
    | cons d ds =>
      have hc := hrange c List.mem_cons_self
      have hd := hrange d (List.mem_cons_of_mem c List.mem_cons_self)
      have hdisj := h.disjoint List.mem_cons_self (h.contains_start List.mem_cons_self)
      rw [hd, ← hc, h.contains_start List.mem_cons_self] at hdisj
      cases hdisj

end Dyadic
