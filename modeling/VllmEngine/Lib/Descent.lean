import Mathlib.Init

/-!
# Greatest common elements by descent

Several sets of naturals each offer, for a bound, their greatest element below
it. Passing a bound through all of them once lowers it to a value that no
common element exceeds; when a pass lowers nothing, the bound is itself a
common element. So repeating passes until nothing changes finds the greatest
common element below the initial bound.
-/

namespace Descent

/-- `L` is the greatest element of `S` up to `M`. -/
structure IsBest (S : Nat → Prop) (M L : Nat) : Prop where
  le : L ≤ M
  mem : S L
  max : ∀ x, S x → x ≤ M → x ≤ L

/-- One pass: each set in turn replaces the bound by its best element. -/
inductive Pass : List (Nat → Prop) → Nat → Nat → Prop
  | nil (M : Nat) : Pass [] M M
  | cons {S : Nat → Prop} {Ss : List (Nat → Prop)} {M L₁ L : Nat} :
      IsBest S M L₁ → Pass Ss L₁ L → Pass (S :: Ss) M L

theorem Pass.le {Ss : List (Nat → Prop)} {M L : Nat} (h : Pass Ss M L) : L ≤ M := by
  induction h with
  | nil M => exact Nat.le_refl M
  | cons hb _ ih => exact Nat.le_trans ih hb.le

/-- No common element is lost. -/
theorem Pass.max {Ss : List (Nat → Prop)} {M L : Nat} (h : Pass Ss M L) :
    ∀ x, (∀ S ∈ Ss, S x) → x ≤ M → x ≤ L := by
  induction h with
  | nil M => intro x _ hx; exact hx
  | cons hb _ ih =>
    intro x hall hx
    exact ih x (fun S hS => hall S (List.mem_cons_of_mem _ hS))
      (hb.max x (hall _ List.mem_cons_self) hx)

/-- Every set has an element between the two ends of a pass. -/
theorem Pass.exists_mem {Ss : List (Nat → Prop)} {M L : Nat} (h : Pass Ss M L) :
    ∀ S ∈ Ss, ∃ v, L ≤ v ∧ v ≤ M ∧ S v := by
  induction h with
  | nil M => intro S hS; cases hS
  | cons hb hp ih =>
    intro S' hS'
    rcases List.mem_cons.mp hS' with rfl | hS'
    · exact ⟨_, hp.le, hb.le, hb.mem⟩
    · obtain ⟨v, h1, h2, h3⟩ := ih S' hS'
      exact ⟨v, h1, Nat.le_trans h2 hb.le, h3⟩

/-- A pass that lowers nothing has reached a common element. -/
theorem Pass.mem_of_eq {Ss : List (Nat → Prop)} {M L : Nat} (h : Pass Ss M L) :
    L = M → ∀ S ∈ Ss, S M := by
  induction h with
  | nil M => intro _ S hS; cases hS
  | cons hb hp ih =>
    rename_i S Ss M L₁ L
    intro heq S' hS'
    have h1 : L₁ = M := Nat.le_antisymm hb.le (heq ▸ hp.le)
    rcases List.mem_cons.mp hS' with rfl | hS'
    · exact h1 ▸ hb.mem
    · exact h1 ▸ ih (heq.trans h1.symm) S' hS'

end Descent
