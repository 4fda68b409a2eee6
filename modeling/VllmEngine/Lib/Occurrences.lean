import Mathlib.Data.List.Infix

/-!
# Occurrences of a string by where they end

A search that goes forward over a growing text meets the occurrences of a string in the
order of their ends. `firstEnd` is the first end behind a bound; a part of the text has the
ends that lie in it (`endsAt_take`), and a bound may be moved over a part without ends
(`firstEnd_take`).
-/

namespace Occurrences

variable {α : Type} {text s : List α} {lo p : Nat}

/-- An occurrence of `s` in `text` ends at `p`. -/
def EndsAt (text s : List α) (p : Nat) : Prop := p ≤ text.length ∧ s <:+ text.take p

theorem EndsAt.length_le (h : EndsAt text s p) : s.length ≤ p := by
  have hle := h.2.length_le
  rw [List.length_take] at hle
  omega

/-- A part of the text has the ends that lie in it. -/
theorem endsAt_take {b : Nat} (hb : b ≤ text.length) :
    EndsAt (text.take b) s p ↔ p ≤ b ∧ EndsAt text s p := by
  unfold EndsAt
  rw [List.length_take, Nat.min_eq_left hb, List.take_take]
  constructor
  · rintro ⟨hp, hs⟩
    rw [Nat.min_eq_left hp] at hs
    exact ⟨hp, Nat.le_trans hp hb, hs⟩
  · rintro ⟨hp, -, hs⟩
    rw [Nat.min_eq_left hp]
    exact ⟨hp, hs⟩

/-- A part behind `w` has the ends of what lies in it whole. -/
theorem endsAt_drop {w : Nat} (hw : w ≤ text.length) :
    EndsAt (text.drop w) s p ↔ s.length ≤ p ∧ EndsAt text s (w + p) := by
  have htake : (text.take (w + p)).drop w = (text.drop w).take p := by
    rw [List.drop_take, Nat.add_sub_cancel_left]
  have hsplit : text.take (w + p) = text.take w ++ (text.drop w).take p := List.take_add
  constructor
  · intro h
    refine ⟨h.length_le, ?_, ?_⟩
    · have := h.1
      rw [List.length_drop] at this
      omega
    · rw [hsplit]
      exact h.2.trans (List.suffix_append _ _)
  · rintro ⟨hlen, hp, hs⟩
    refine ⟨by rw [List.length_drop]; omega, ?_⟩
    rw [hsplit] at hs
    apply List.suffix_of_suffix_length_le hs (List.suffix_append _ _)
    rw [List.length_take, List.length_drop]
    omega

theorem endsAt_append {more : List α} (hp : p ≤ text.length) :
    EndsAt (text ++ more) s p ↔ EndsAt text s p := by
  unfold EndsAt
  rw [List.take_append_of_le_length hp, List.length_append]
  exact and_congr_left fun _ => ⟨fun _ => hp, fun _ => Nat.le_trans hp (Nat.le_add_right _ _)⟩

variable [DecidableEq α]

instance (text s : List α) (p : Nat) : Decidable (EndsAt text s p) :=
  inferInstanceAs (Decidable (_ ∧ _))

/-- The first end behind `lo`. -/
def firstEnd (text : List α) (lo : Nat) (s : List α) : Option Nat :=
  (List.range (text.length + 1)).find? fun p => decide (lo < p ∧ EndsAt text s p)

theorem firstEnd_eq_some : firstEnd text lo s = some p ↔
    lo < p ∧ EndsAt text s p ∧ ∀ q, lo < q → q < p → ¬ EndsAt text s q := by
  unfold firstEnd
  rw [List.find?_range_eq_some]
  constructor
  · rintro ⟨hp, hmem, hleast⟩
    obtain ⟨hlo, hends⟩ := of_decide_eq_true hp
    refine ⟨hlo, hends, fun q hq hlt hends' => ?_⟩
    have hnot := hleast q hlt
    rw [decide_eq_true ⟨hq, hends'⟩] at hnot
    exact Bool.false_ne_true hnot
  · rintro ⟨hlo, hends, hleast⟩
    refine ⟨decide_eq_true ⟨hlo, hends⟩, ?_, fun q hlt => ?_⟩
    · rw [List.mem_range]
      exact Nat.lt_succ_of_le hends.1
    · rw [Bool.not_eq_true']
      exact decide_eq_false fun h => hleast q h.1 hlt h.2

theorem firstEnd_eq_none : firstEnd text lo s = none ↔ ∀ q, lo < q → ¬ EndsAt text s q := by
  unfold firstEnd
  rw [List.find?_eq_none]
  constructor
  · intro h q hq hends
    apply h q (List.mem_range.mpr (Nat.lt_succ_of_le hends.1))
    exact decide_eq_true ⟨hq, hends⟩
  · intro h q _ hq
    obtain ⟨hlo, hends⟩ := of_decide_eq_true hq
    exact h q hlo hends

/-- Where there is an end there is a first one. -/
theorem exists_firstEnd (hlo : lo < p) (hends : EndsAt text s p) :
    ∃ q, firstEnd text lo s = some q ∧ q ≤ p := by
  cases h : firstEnd text lo s with
  | none => exact absurd hends (firstEnd_eq_none.mp h p hlo)
  | some q =>
    refine ⟨q, rfl, Nat.le_of_not_lt fun hlt => ?_⟩
    exact (firstEnd_eq_some.mp h).2.2 p hlo hlt hends

/-- Searching a part of the text from a later bound, when the ends up to that bound are
known not to be there. -/
theorem firstEnd_take {b lo' : Nat} (hb : b ≤ text.length) (hlo : lo ≤ lo' ∨ b ≤ lo')
    (hnone : ∀ q, lo < q → q ≤ lo' → q ≤ b → ¬ EndsAt text s q) :
    firstEnd (text.take b) lo' s = some p ↔ firstEnd text lo s = some p ∧ p ≤ b := by
  rw [firstEnd_eq_some, firstEnd_eq_some, endsAt_take hb]
  constructor
  · rintro ⟨hp, ⟨hpb, hends⟩, hleast⟩
    have hle : lo ≤ lo' := by omega
    refine ⟨⟨Nat.lt_of_le_of_lt hle hp, hends, fun q hq hlt hends' => ?_⟩, hpb⟩
    rcases Nat.lt_or_ge lo' q with hlo' | hlo'
    · exact hleast q hlo' hlt ((endsAt_take hb).mpr ⟨by omega, hends'⟩)
    · exact hnone q hq hlo' (by omega) hends'
  · rintro ⟨⟨hp, hends, hleast⟩, hpb⟩
    have hlt : lo' < p := Nat.lt_of_not_le fun hle => hnone p hp hle hpb hends
    refine ⟨hlt, ⟨hpb, hends⟩, fun q hq hqp hends' => ?_⟩
    exact hleast q (by omega) hqp ((endsAt_take hb).mp hends').2

/-- An occurrence begins where its end says. -/
theorem isPrefixOf_drop_iff {i : Nat} :
    s.isPrefixOf (text.drop i) = true ∧ i + s.length ≤ text.length ↔ EndsAt text s (i + s.length) := by
  rw [List.isPrefixOf_iff_prefix]
  unfold EndsAt
  constructor
  · rintro ⟨⟨rest, hrest⟩, hlen⟩
    refine ⟨hlen, text.take i, ?_⟩
    rw [List.take_add, ← hrest, List.take_left]
  · rintro ⟨hlen, before, hbefore⟩
    refine ⟨?_, hlen⟩
    have hlength : before.length = i := by
      have := congrArg List.length hbefore
      rw [List.length_append, List.length_take, Nat.min_eq_left hlen] at this
      omega
    rw [List.take_add] at hbefore
    have htake : (text.take i).length = i := by
      rw [List.length_take]
      omega
    rw [(List.append_inj hbefore (hlength.trans htake.symm)).2]
    exact List.take_prefix _ _

end Occurrences
