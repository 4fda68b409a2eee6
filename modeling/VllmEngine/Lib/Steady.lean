import Mathlib
import VllmEngine.Lib.Raises

/-!
# Monotone computations that may raise

A computation that depends on a size raises, if it does, for every size alike, and otherwise its
value grows with the size. Sums, maxima and compositions of such computations are such computations
again, so that a bound on the value holds up to some size and not beyond.

> `Steady.bind`, `Steady.sum`, `Steady.max`: closure,
> `Steady.mapM`: the values, or the error.
-/

/-- The same error for every size, or a value that grows with the size. -/
def Steady {ι E : Type} [Preorder ι] (x : ι → Except E Int) : Prop :=
  (∃ e, ∀ n, x n = .error e) ∨ ∃ f : ι → Int, Monotone f ∧ ∀ n, x n = .ok (f n)

namespace Steady

variable {ι E α : Type} [Preorder ι]

theorem ok {f : ι → Int} (hf : Monotone f) : Steady (E := E) fun n => .ok (f n) :=
  Or.inr ⟨f, hf, fun _ => rfl⟩

theorem error (e : E) : Steady (ι := ι) fun _ => .error e := Or.inl ⟨e, fun _ => rfl⟩

variable {x : α → ι → Except E Int} {k : Int → Except E Int}

/-- A step that does not depend on the size comes first. -/
theorem const {c : Except E α} (h : ∀ a, Steady (x a)) : Steady fun n => c >>= fun a => x a n := by
  cases c with
  | error e => exact error e
  | ok a => exact h a

theorem bind {x : ι → Except E Int} (hx : Steady x) (hk : Steady k) :
    Steady fun n => x n >>= k := by
  rcases hx with ⟨e, hx⟩ | ⟨f, hf, hx⟩
  · refine Or.inl ⟨e, fun n => ?_⟩
    show (x n >>= k) = _
    rw [hx n]
    rfl
  · rcases hk with ⟨e, hk⟩ | ⟨g, hg, hk⟩
    · refine Or.inl ⟨e, fun n => ?_⟩
      show (x n >>= k) = _
      rw [hx n]
      exact hk (f n)
    · refine Or.inr ⟨g ∘ f, hg.comp hf, fun n => ?_⟩
      show (x n >>= k) = _
      rw [hx n]
      exact hk (f n)

/-- One computation for each element of a list: all values grow, or one of the computations raises
for every size. -/
theorem mapM : ∀ {l : List α}, (∀ a ∈ l, Steady (x a)) →
    (∃ e, ∀ n, l.mapM (fun a => x a n) = .error e) ∨
      ∃ fs : List (ι → Int), (∀ f ∈ fs, Monotone f) ∧ fs.length = l.length ∧
        ∀ n, l.mapM (fun a => x a n) = .ok (fs.map fun f => f n) := by
  intro l
  induction l with
  | nil =>
    intro _
    exact Or.inr ⟨[], fun f hf => (by cases hf), rfl, fun n => rfl⟩
  | cons a l ih =>
    intro h
    have hrest := ih fun b hb => h b (List.mem_cons_of_mem a hb)
    rcases h a List.mem_cons_self with ⟨e, he⟩ | ⟨f, hf, hok⟩
    · refine Or.inl ⟨e, fun n => ?_⟩
      rw [List.mapM_cons, he n]
      rfl
    · rcases hrest with ⟨e, he⟩ | ⟨fs, hfs, hlen, hoks⟩
      · refine Or.inl ⟨e, fun n => ?_⟩
        rw [List.mapM_cons, hok n, he n]
        rfl
      · refine Or.inr ⟨f :: fs, fun g hg => ?_, by rw [List.length_cons, hlen, List.length_cons],
          fun n => ?_⟩
        · rcases List.mem_cons.mp hg with rfl | hg
          · exact hf
          · exact hfs g hg
        · rw [List.mapM_cons, hok n, hoks n]
          rfl

theorem monotone_sum : ∀ {fs : List (ι → Int)}, (∀ f ∈ fs, Monotone f) →
    Monotone fun n => (fs.map fun f => f n).sum := by
  intro fs
  induction fs with
  | nil => intro _ m n _; exact Int.le_refl 0
  | cons f fs ih =>
    intro h m n hmn
    have hone := h f List.mem_cons_self hmn
    have hrest := ih (fun g hg => h g (List.mem_cons_of_mem f hg)) hmn
    simp only [List.map_cons, List.sum_cons]
    simp only at hrest
    omega

/-- The computation goes on with the sum. -/
theorem sum_bind {l : List α} (h : ∀ a ∈ l, Steady (x a)) (hk : Steady k) :
    Steady fun n => l.mapM (fun a => x a n) >>= fun ys => k ys.sum := by
  rcases mapM h with ⟨e, he⟩ | ⟨fs, hfs, -, hoks⟩
  · refine Or.inl ⟨e, fun n => ?_⟩
    show (l.mapM (fun a => x a n) >>= _) = _
    rw [he n]
    rfl
  · rcases hk with ⟨e, hk⟩ | ⟨g, hg, hk⟩
    · refine Or.inl ⟨e, fun n => ?_⟩
      show (l.mapM (fun a => x a n) >>= _) = _
      rw [hoks n]
      exact hk _
    · refine Or.inr ⟨_, hg.comp (monotone_sum hfs), fun n => ?_⟩
      show (l.mapM (fun a => x a n) >>= _) = _
      rw [hoks n]
      exact hk _

theorem sum {l : List α} (h : ∀ a ∈ l, Steady (x a)) :
    Steady fun n => l.mapM (fun a => x a n) >>= fun ys => pure ys.sum :=
  sum_bind h (ok monotone_id)

theorem monotone_max : ∀ {fs : List (ι → Int)} {f : ι → Int}, Monotone f →
    (∀ g ∈ fs, Monotone g) → Monotone fun n => (fs.map fun g => g n).foldl max (f n) := by
  intro fs
  induction fs with
  | nil => intro f hf _; exact hf
  | cons g fs ih =>
    intro f hf hfs
    exact ih (hf.max (hfs g List.mem_cons_self)) fun g' hg' => hfs g' (List.mem_cons_of_mem g hg')

/-- The computation goes on with the largest value. -/
theorem max {l : List α} {e : E} (h : ∀ a ∈ l, Steady (x a)) (hk : Steady k) :
    Steady fun n => l.mapM (fun a => x a n) >>= fun ys =>
      match ys.max? with
      | none => throw e
      | some m => k m := by
  rcases mapM h with ⟨e', he⟩ | ⟨fs, hfs, -, hoks⟩
  · refine Or.inl ⟨e', fun n => ?_⟩
    show (l.mapM (fun a => x a n) >>= _) = _
    rw [he n]
    rfl
  · cases fs with
    | nil =>
      refine Or.inl ⟨e, fun n => ?_⟩
      show (l.mapM (fun a => x a n) >>= _) = _
      rw [hoks n]
      rfl
    | cons f fs =>
      have hmax := monotone_max (hfs f List.mem_cons_self)
        fun g hg => hfs g (List.mem_cons_of_mem f hg)
      rcases hk with ⟨e', hk⟩ | ⟨g, hg, hk⟩
      · refine Or.inl ⟨e', fun n => ?_⟩
        show (l.mapM (fun a => x a n) >>= _) = _
        rw [hoks n]
        exact hk _
      · refine Or.inr ⟨_, hg.comp hmax, fun n => ?_⟩
        show (l.mapM (fun a => x a n) >>= _) = _
        rw [hoks n]
        exact hk _

end Steady
