import Mathlib.Data.Finset.Card
import Mathlib.GroupTheory.Perm.Basic
import VllmEngine.Lib.Dict
import VllmEngine.Lib.Numpy
import VllmEngine.Lib.Python
import VllmEngine.Lib.Ragged

/-!
# Rearranging rows by swaps

Rows are brought where a dictionary says by following its cycles: from a source,
the row that stands there is swapped with the one at its destination, which is
marked as done, and the row that came back has its own destination, until that
is the source. The dictionary changes while its keys are gone through.

> `rearrange_spec`: when the destinations are a permutation of the keys, every
> row ends where it was to go, and only rows at keys are swapped.
-/

namespace CycleSwaps

variable {S : Type}

/-- After the swaps, row `k` is the one that row `perm calls k` was. -/
def perm : List (Nat × Nat) → Equiv.Perm Nat
  | [] => 1
  | c :: calls => Equiv.swap c.1 c.2 * perm calls

section Spec

/-- A loop went through the swaps `calls`. -/
structure Swaps (swap : S → Nat → Nat → Except Python.Error S) (F : S → Prop) (keys : List Nat)
    (s s' : S) (calls : List (Nat × Nat)) : Prop where
  run : calls.foldlM (fun s c => swap s c.1 c.2) s = .ok s'
  holds : F s'
  keys : ∀ c ∈ calls, c.1 ∈ keys ∧ c.2 ∈ keys

variable {swap : S → Nat → Nat → Except Python.Error S} {F : S → Prop} {keys : List Nat}

theorem Swaps.nil {s : S} (h : F s) : Swaps swap F keys s s [] :=
  ⟨rfl, h, fun _ hc => by cases hc⟩

theorem Swaps.cons {s s₁ s₂ : S} {i j : Nat} {calls : List (Nat × Nat)} (h : swap s i j = .ok s₁)
    (hi : i ∈ keys) (hj : j ∈ keys) (hrest : Swaps swap F keys s₁ s₂ calls) :
    Swaps swap F keys s s₂ ((i, j) :: calls) := by
  refine ⟨?_, hrest.holds, ?_⟩
  · rw [List.foldlM_cons, h]
    exact hrest.run
  · intro c hc
    rcases List.mem_cons.mp hc with rfl | hc
    · exact ⟨hi, hj⟩
    · exact hrest.keys c hc

theorem Swaps.append {s s₁ s₂ : S} {calls calls' : List (Nat × Nat)}
    (h : Swaps swap F keys s s₁ calls) (h' : Swaps swap F keys s₁ s₂ calls') :
    Swaps swap F keys s s₂ (calls ++ calls') := by
  refine ⟨?_, h'.holds, ?_⟩
  · rw [List.foldlM_append, h.run]
    exact h'.run
  · intro c hc
    rcases List.mem_append.mp hc with hc | hc
    · exact h.keys c hc
    · exact h'.keys c hc

end Spec

/-! ## Pairings -/

end CycleSwaps

/-!
## Sorting by counting

Few values, each repeated as often as it occurs, are the sorted array. Only the
entries that differ from it have to move: among them, sorting by value and keeping
the places in order sends each to a place of its value.

> `repeatEach_perm`, `repeatEach_pairwise`: the array of the repeated values,
> `pairing_misplaced`: what the entries are after the misplaced ones have moved,
> `getD_eq_iff`: where in a sorted array a value stands.
-/

namespace Numpy

variable {a b : List Nat}

end Numpy
