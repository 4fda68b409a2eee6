import Mathlib.Order.Basic

/-!
# Borders

A border of the prefix of length `i` is a shorter prefix that is a suffix of it too. The
borders of a prefix are its longest one and that one's borders, so a scan that looks for the
longest border of the next prefix can go from a border to the next shorter one with a table of
the longest borders (`Candidates.fallback`).

A scan with a cap looks at borders below the cap only. A border that reaches the cap is given up
for its own longest border (`Candidates.next_cap`).
-/

namespace Borders

variable {α : Type} {t : Nat → α} {v w i : Nat}

/-- The prefix of length `v` ends the prefix of length `i`, and is shorter. -/
def Border (t : Nat → α) (v i : Nat) : Prop :=
  v < i ∧ ∀ j < v, t j = t (i - v + j)

/-- The longest border. -/
structure Longest (t : Nat → α) (w i : Nat) : Prop where
  border : Border t w i
  le : ∀ v, Border t v i → v ≤ w

theorem Border.zero (hi : 0 < i) : Border t 0 i :=
  ⟨hi, fun _ hj => absurd hj (Nat.not_lt_zero _)⟩

theorem border_succ_iff : Border t (v + 1) (i + 1) ↔ Border t v i ∧ t v = t i := by
  constructor
  · rintro ⟨hlt, heq⟩
    have hi : i + 1 - (v + 1) = i - v := Nat.add_sub_add_right i 1 v
    refine ⟨⟨by omega, fun j hj => ?_⟩, ?_⟩
    · rw [heq j (by omega), hi]
    · rw [heq v (Nat.lt_succ_self v), hi, Nat.sub_add_cancel (by omega)]
  · rintro ⟨⟨hlt, heq⟩, hlast⟩
    refine ⟨Nat.succ_lt_succ hlt, fun j hj => ?_⟩
    rw [Nat.add_sub_add_right]
    rcases Nat.lt_succ_iff_lt_or_eq.mp hj with hj | rfl
    · exact heq j hj
    · rw [Nat.sub_add_cancel (Nat.le_of_lt hlt)]
      exact hlast

theorem Border.trans (hv : Border t v i) (hw : Border t w v) : Border t w i := by
  obtain ⟨hvi, hv⟩ := hv
  obtain ⟨hwv, hw⟩ := hw
  refine ⟨Nat.lt_trans hwv hvi, fun j hj => ?_⟩
  rw [hw j hj, hv (v - w + j) (by omega)]
  congr 1
  omega

/-- Of two borders the shorter one is a border of the longer one. -/
theorem Border.nest (hv : Border t v i) (hw : Border t w i) (h : w < v) : Border t w v := by
  refine ⟨h, fun j hj => ?_⟩
  rw [hw.2 j hj, hv.2 (v - w + j) (by omega)]
  congr 1
  have := hv.1
  omega

/-! ## A scan with a cap -/

/-- Where a scan for the longest border below the cap is: the longer ones do not go on. -/
structure Candidates (t : Nat → α) (cap prev i : Nat) : Prop where
  border : Border t prev i
  lt_cap : prev < cap
  longer : ∀ v, prev < v → v < cap → Border t v i → t v ≠ t i

namespace Candidates

variable {cap prev : Nat}

theorem start (hcap : 0 < cap) : Candidates t cap 0 1 where
  border := Border.zero Nat.one_pos
  lt_cap := hcap
  longer v hv _ hb := by
    have := hb.1
    omega

/-- The candidate goes on: the next prefix has no longer border up to the cap. -/
theorem le_succ (h : Candidates t cap prev i) (hw : w ≤ cap) (hb : Border t w (i + 1)) :
    w ≤ prev + 1 := by
  cases w with
  | zero => exact Nat.zero_le _
  | succ v =>
    obtain ⟨hv, hlast⟩ := border_succ_iff.mp hb
    apply Nat.succ_le_succ
    apply Nat.not_lt.mp
    intro hlt
    exact h.longer v hlt (by omega) hv hlast

theorem border_succ (h : Candidates t cap prev i) (heq : t prev = t i) :
    Border t (prev + 1) (i + 1) :=
  border_succ_iff.mpr ⟨h.border, heq⟩

theorem next (h : Candidates t cap prev i) (heq : t prev = t i) (hlt : prev + 1 < cap) :
    Candidates t cap (prev + 1) (i + 1) where
  border := h.border_succ heq
  lt_cap := hlt
  longer v hv hcap hb := by
    have := h.le_succ (Nat.le_of_lt hcap) hb
    omega

theorem next_cap (h : Candidates t cap prev i) (heq : t prev = t i) (hcap : prev + 1 = cap)
    (hw : Longest t w cap) : Candidates t cap w (i + 1) where
  border := (hcap ▸ h.border_succ heq : Border t cap (i + 1)).trans hw.border
  lt_cap := hw.border.1
  longer v hv hvcap hb := by
    have hb' : Border t v cap := (hcap ▸ h.border_succ heq : Border t cap (i + 1)).nest hb hvcap
    have := hw.le v hb'
    omega

/-- The candidate does not go on: its own longest border is the next one. -/
theorem fallback (h : Candidates t cap prev i) (hne : t prev ≠ t i) (hw : Longest t w prev) :
    Candidates t cap w i where
  border := h.border.trans hw.border
  lt_cap := Nat.lt_trans hw.border.1 h.lt_cap
  longer v hv hcap hb := by
    rcases Nat.lt_trichotomy v prev with hlt | rfl | hlt
    · have := hw.le v (h.border.nest hb hlt)
      omega
    · exact hne
    · exact h.longer v hlt hcap hb

/-- No candidate is left: the next prefix has no border up to the cap. -/
theorem eq_zero (h : Candidates t cap 0 i) (hne : t 0 ≠ t i) (hw : w ≤ cap)
    (hb : Border t w (i + 1)) : w = 0 := by
  have hle := h.le_succ hw hb
  rcases Nat.lt_or_ge 0 w with hpos | hzero
  · have hone : w = 1 := by omega
    subst hone
    exact absurd (border_succ_iff.mp hb).2 hne
  · exact Nat.le_zero.mp hzero

theorem restart (h : Candidates t cap 0 i) (hne : t 0 ≠ t i) : Candidates t cap 0 (i + 1) where
  border := Border.zero (Nat.succ_pos i)
  lt_cap := h.lt_cap
  longer v hv hcap hb := by
    have := h.eq_zero hne (Nat.le_of_lt hcap) hb
    omega

end Candidates

/-! ## The table -/

/-- The longest borders of the prefixes up to the cap, as far as the scan has come. -/
structure Table (t : Nat → α) (cap : Nat) (lps : List Nat) (i : Nat) : Prop where
  length : lps.length = cap
  longest : ∀ q < cap, q < i → Longest t (lps.getD q 0) (q + 1)
  zero : ∀ q < cap, i ≤ q → lps.getD q 0 = 0

namespace Table

variable {cap : Nat} {lps : List Nat}

theorem getD_zeros (n q : Nat) : (List.replicate n 0).getD q 0 = 0 := by
  rw [List.getD_eq_getElem?_getD, List.getElem?_replicate]
  split <;> rfl

theorem start : Table t cap (List.replicate cap 0) 1 where
  length := List.length_replicate
  longest q hq hi := by
    have hzero : q = 0 := Nat.lt_one_iff.mp hi
    subst hzero
    rw [getD_zeros]
    exact ⟨Border.zero Nat.one_pos, fun v hv => Nat.lt_succ_iff.mp hv.1⟩
  zero q _ _ := getD_zeros cap q

/-- The entry of the prefix that the scan has reached. -/
theorem set (h : Table t cap lps i) (hi : i < cap) (hw : Longest t w (i + 1)) :
    Table t cap (lps.set i w) (i + 1) where
  length := by
    rw [List.length_set]
    exact h.length
  longest q hq hqi := by
    rcases Nat.lt_succ_iff_lt_or_eq.mp hqi with hlt | rfl
    · rw [List.getD_eq_getElem?_getD, List.getElem?_set_ne (Nat.ne_of_gt hlt),
        ← List.getD_eq_getElem?_getD]
      exact h.longest q hq hlt
    · rw [List.getD_eq_getElem?_getD, List.getElem?_set_self (by rw [h.length]; exact hi)]
      exact hw
  zero q hq hqi := by
    rw [List.getD_eq_getElem?_getD, List.getElem?_set_ne (by omega),
      ← List.getD_eq_getElem?_getD]
    exact h.zero q hq (by omega)

/-- The entry stays zero. -/
theorem skip (h : Table t cap lps i) (hw : i < cap → Longest t 0 (i + 1)) :
    Table t cap lps (i + 1) where
  length := h.length
  longest q hq hqi := by
    rcases Nat.lt_succ_iff_lt_or_eq.mp hqi with hlt | rfl
    · exact h.longest q hq hlt
    · rw [h.zero q hq (Nat.le_refl q)]
      exact hw hq
  zero q hq hqi := h.zero q hq (by omega)

/-- Behind the table there is nothing to store. -/
theorem past (h : Table t cap lps i) (hi : cap ≤ i) : Table t cap lps (i + 1) where
  length := h.length
  longest q hq _ := h.longest q hq (by omega)
  zero q hq hqi := by omega

end Table
end Borders
