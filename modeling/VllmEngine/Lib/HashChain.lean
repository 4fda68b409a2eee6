import Mathlib.Data.List.Induction

/-!
# Hash chains

A hash chain folds a list of payloads into a list of digests, each digest
taken over the previous one and the next payload:

> `chain step init [p₀, p₁, …] = [step init p₀, step (step init p₀) p₁, …]`.

Two facts carry every use of a chain. *Extension*: the chain of `xs ++ ys`
is the chain of `xs` followed by the chain of `ys` started from the last
digest (`chain_append`), so a chain can be grown from its own tail.
*Isolation*: when `step` is injective and never returns the seed, one digest
determines its index and every payload up to it (`chain_inj`).
-/

namespace HashChain

variable {H P : Type}

/-- The digests of a list of payloads, seeded with `init`. -/
def chain (step : H → P → H) : H → List P → List H
  | _, [] => []
  | h, p :: ps => step h p :: chain step (step h p) ps

@[simp] theorem chain_cons (step : H → P → H) (h : H) (p : P) (ps : List P) :
    chain step h (p :: ps) = step h p :: chain step (step h p) ps := rfl

@[simp] theorem chain_length (step : H → P → H) :
    ∀ (ps : List P) (h : H), (chain step h ps).length = ps.length := by
  intro ps
  induction ps with
  | nil => intro h; rfl
  | cons p ps ih => intro h; simp [ih]

/-- Growing a chain: the digests of `ys` continue from the last digest of `xs`. -/
theorem chain_append (step : H → P → H) :
    ∀ (xs ys : List P) (h : H),
      chain step h (xs ++ ys) = chain step h xs ++ chain step (xs.foldl step h) ys := by
  intro xs
  induction xs with
  | nil => intro ys h; rfl
  | cons x xs ih => intro ys h; simp [ih]

/-- The last digest of a chain is the fold, and the seed for an empty chain. -/
theorem chain_getLastD (step : H → P → H) :
    ∀ (ps : List P) (h : H), (chain step h ps).getLastD h = ps.foldl step h := by
  intro ps
  induction ps with
  | nil => intro h; rfl
  | cons p ps ih =>
    intro h
    rw [chain_cons, List.getLastD_cons, List.foldl_cons]
    exact ih (step h p)

/-- The digest at index `i` is the fold of the first `i + 1` payloads. -/
theorem chain_getElem? (step : H → P → H) :
    ∀ (ps : List P) (h : H) (i : Nat), i < ps.length →
      (chain step h ps)[i]? = some ((ps.take (i + 1)).foldl step h) := by
  intro ps
  induction ps with
  | nil => intro h i hi; simp at hi
  | cons p ps ih =>
    intro h i hi
    cases i with
    | zero => simp
    | succ i =>
      have hi' : i < ps.length := by simpa using hi
      simp [ih (step h p) i hi']

/-- Under an injective step that never returns the seed, equal folds come from
equal payload lists. The induction is on the last payload, where injectivity
applies; the seed hypothesis rules out lists of different lengths. -/
theorem foldl_inj {step : H → P → H} {init : H}
    (hinj : ∀ a p b q, step a p = step b q → a = b ∧ p = q)
    (hinit : ∀ a p, step a p ≠ init) :
    ∀ (xs ys : List P), xs.foldl step init = ys.foldl step init → xs = ys := by
  intro xs
  induction xs using List.reverseRecOn with
  | nil =>
    intro ys h
    induction ys using List.reverseRecOn with
    | nil => rfl
    | append_singleton ys y _ =>
      rw [List.foldl_append] at h
      exact absurd h.symm (hinit _ _)
  | append_singleton xs x ih =>
    intro ys h
    induction ys using List.reverseRecOn with
    | nil =>
      rw [List.foldl_append] at h
      exact absurd h (hinit _ _)
    | append_singleton ys y _ =>
      rw [List.foldl_append, List.foldl_append] at h
      obtain ⟨hpre, hlast⟩ := hinj _ _ _ _ h
      rw [ih ys hpre, hlast]

/-- **Isolation.** A digest shared by two chains sits at the same index in
both, and the payloads up to it are the same. -/
theorem chain_inj {step : H → P → H} {init : H}
    (hinj : ∀ a p b q, step a p = step b q → a = b ∧ p = q)
    (hinit : ∀ a p, step a p ≠ init) {ps qs : List P} {i j : Nat}
    (hi : i < ps.length) (hj : j < qs.length)
    (h : (chain step init ps)[i]? = (chain step init qs)[j]?) :
    i = j ∧ ps.take (i + 1) = qs.take (j + 1) := by
  rw [chain_getElem? step ps init i hi, chain_getElem? step qs init j hj,
    Option.some.injEq] at h
  have htake := foldl_inj hinj hinit _ _ h
  have hlen := congrArg List.length htake
  rw [List.length_take, List.length_take] at hlen
  exact ⟨by omega, htake⟩

end HashChain
