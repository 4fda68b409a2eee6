import Mathlib.Data.List.Forall2

/-!
# Computations that can raise

Inversion and invariant rules for `Except`: what is known when a computation
returned. `bind_eq_ok` takes a sequence apart; `foldlM_inv` carries an
invariant through a `for` loop whose body may raise, and `foldlM_total` shows
that such a loop returns when its body does.
-/

namespace Raises

variable {E α β σ : Type}

@[simp] theorem bind_eq_ok {x : Except E α} {f : α → Except E β} {b : β} :
    (x >>= f) = .ok b ↔ ∃ a, x = .ok a ∧ f a = .ok b := by
  cases x with
  | error e =>
    constructor
    · intro h
      cases h
    · rintro ⟨a, ha, -⟩
      cases ha
  | ok a =>
    constructor
    · intro h
      exact ⟨a, rfl, h⟩
    · rintro ⟨a', ha, h⟩
      cases ha
      exact h

@[simp] theorem pure_eq_ok {a b : α} : (pure a : Except E α) = .ok b ↔ a = b :=
  ⟨fun h => by cases h; rfl, fun h => by rw [h]; rfl⟩

@[simp] theorem throw_ne_ok {e : E} {b : α} : ¬ (throw e : Except E α) = .ok b := by
  intro h
  cases h

theorem map_eq_ok {x : Except E α} {f : α → β} {b : β} :
    x.map f = .ok b ↔ ∃ a, x = .ok a ∧ f a = b := by
  cases x with
  | error e =>
    constructor
    · intro h
      cases h
    · rintro ⟨a, ha, -⟩
      cases ha
  | ok a =>
    constructor
    · intro h
      exact ⟨a, rfl, Except.ok.inj h⟩
    · rintro ⟨a', ha, rfl⟩
      rw [Except.ok.inj ha]
      rfl

theorem ok_bind (a : α) (f : α → Except E β) : ((.ok a : Except E α) >>= f) = f a := rfl

/-- A computation that evaluates to a value returned one. -/
theorem exists_of_isOk {x : Except E α} (h : x.isOk = true) : ∃ a, x = .ok a := by
  cases x with
  | error e => cases h
  | ok a => exact ⟨a, rfl⟩

variable {f : σ → α → Except E σ}

theorem foldlM_nil_ok {s s' : σ} : List.foldlM f s [] = .ok s' ↔ s = s' := by
  rw [List.foldlM_nil, pure_eq_ok]

theorem foldlM_cons_ok {s s' : σ} {a : α} {l : List α} :
    List.foldlM f s (a :: l) = .ok s' ↔ ∃ s₁, f s a = .ok s₁ ∧ l.foldlM f s₁ = .ok s' := by
  rw [List.foldlM_cons, bind_eq_ok]

/-- An invariant that every round keeps holds after the loop. -/
theorem foldlM_inv {I : σ → Prop} :
    ∀ (l : List α) (s s' : σ), (∀ a ∈ l, ∀ t t', I t → f t a = .ok t' → I t') → I s →
      l.foldlM f s = .ok s' → I s' := by
  intro l
  induction l with
  | nil =>
    intro s s' _ hs h
    rw [foldlM_nil_ok] at h
    exact h ▸ hs
  | cons a l ih =>
    intro s s' hstep hs h
    obtain ⟨s₁, h₁, h₂⟩ := foldlM_cons_ok.mp h
    exact ih s₁ s' (fun b hb => hstep b (List.mem_cons_of_mem a hb))
      (hstep a List.mem_cons_self s s₁ hs h₁) h₂

/-- A loop whose rounds another loop follows through `π`. -/
theorem foldlM_project {τ : Type} {π : σ → τ} {g : τ → α → Except E τ}
    (hstep : ∀ t t' a, f t a = .ok t' → g (π t) a = .ok (π t')) :
    ∀ (l : List α) (s s' : σ), l.foldlM f s = .ok s' → l.foldlM g (π s) = .ok (π s') := by
  intro l
  induction l with
  | nil =>
    intro s s' h
    obtain rfl := foldlM_nil_ok.mp h
    rfl
  | cons a l ih =>
    intro s s' h
    obtain ⟨s₁, h₁, h₂⟩ := foldlM_cons_ok.mp h
    exact foldlM_cons_ok.mpr ⟨π s₁, hstep s s₁ a h₁, ih s₁ s' h₂⟩

/-- A loop whose rounds return in states that keep an invariant returns. -/
theorem foldlM_total {I : σ → Prop} :
    ∀ (l : List α) (s : σ), (∀ a ∈ l, ∀ t, I t → ∃ t', f t a = .ok t' ∧ I t') → I s →
      ∃ s', l.foldlM f s = .ok s' ∧ I s' := by
  intro l
  induction l with
  | nil => intro s _ hs; exact ⟨s, rfl, hs⟩
  | cons a l ih =>
    intro s hstep hs
    obtain ⟨s₁, h₁, hs₁⟩ := hstep a List.mem_cons_self s hs
    obtain ⟨s', h', hs'⟩ := ih s₁ (fun b hb => hstep b (List.mem_cons_of_mem a hb)) hs₁
    exact ⟨s', foldlM_cons_ok.mpr ⟨s₁, h₁, h'⟩, hs'⟩

/-- A comprehension that returned evaluated every element. -/
theorem mapM_ok {f : α → Except E β} :
    ∀ {l : List α} {ys : List β}, l.mapM f = .ok ys → List.Forall₂ (fun x y => f x = .ok y) l ys := by
  intro l
  induction l with
  | nil =>
    intro ys h
    rw [List.mapM_nil, pure_eq_ok] at h
    exact h ▸ List.Forall₂.nil
  | cons x l ih =>
    intro ys h
    simp only [List.mapM_cons, bind_eq_ok, pure_eq_ok] at h
    obtain ⟨y, hy, ys', hys, rfl⟩ := h
    exact List.Forall₂.cons hy (ih hys)

/-- A comprehension whose elements all evaluate. -/
theorem mapM_eq_map {f : α → Except E β} {g : α → β} :
    ∀ {l : List α}, (∀ a ∈ l, f a = .ok (g a)) → l.mapM f = .ok (l.map g) := by
  intro l
  induction l with
  | nil => intro _; rfl
  | cons a l ih =>
    intro h
    rw [List.mapM_cons, h a List.mem_cons_self, ih fun b hb => h b (List.mem_cons_of_mem a hb)]
    rfl

/-- A statement about a result is decided by computing it. -/
instance decidableForallOk {x : Except E α} {P : α → Prop} [DecidablePred P] : Decidable (∀ a, x = .ok a → P a) :=
  match x with
  | .ok a => decidable_of_iff (P a) ⟨fun h _ hb => Except.ok.inj hb ▸ h, fun h => h a rfl⟩
  | .error _ => isTrue fun _ h => nomatch h

instance decidableExistsOk {x : Except E α} {P : α → Prop} [DecidablePred P] : Decidable (∃ a, x = .ok a ∧ P a) :=
  match x with
  | .ok a => decidable_of_iff (P a) ⟨fun h => ⟨a, rfl, h⟩, fun ⟨_, hb, h⟩ => Except.ok.inj hb ▸ h⟩
  | .error _ => isFalse fun ⟨_, hb, _⟩ => nomatch hb

instance decidableForallSome {x : Option α} {P : α → Prop} [DecidablePred P] : Decidable (∀ a, x = some a → P a) :=
  match x with
  | some a => decidable_of_iff (P a) ⟨fun h _ hb => Option.some.inj hb ▸ h, fun h => h a rfl⟩
  | none => isTrue fun _ h => nomatch h

/-- A statement about the elements of a list and their places. -/
instance decidableForallGetElem {l : List α} {P : Nat → α → Prop} [∀ i a, Decidable (P i a)] :
    Decidable (∀ i a, l[i]? = some a → P i a) :=
  decidable_of_iff (∀ x ∈ l.zipIdx, P x.2 x.1)
    ⟨fun h i a ha => h (a, i) (List.mem_zipIdx_iff_getElem?.mpr ha),
      fun h x hx => h x.2 x.1 (List.mem_zipIdx_iff_getElem?.mp hx)⟩

theorem exists_left {R : α → β → Prop} {l : List α} {ys : List β} (h : List.Forall₂ R l ys)
    {y : β} (hy : y ∈ ys) : ∃ x ∈ l, R x y := by
  induction h with
  | nil => cases hy
  | cons hxy _ ih =>
    rcases List.mem_cons.mp hy with rfl | hy
    · exact ⟨_, List.mem_cons_self, hxy⟩
    · obtain ⟨x, hx, hR⟩ := ih hy
      exact ⟨x, List.mem_cons_of_mem _ hx, hR⟩

theorem getElem?_left {R : α → β → Prop} {l : List α} {ys : List β} (h : List.Forall₂ R l ys) :
    ∀ {i : Nat} {y : β}, ys[i]? = some y → ∃ x, l[i]? = some x ∧ R x y := by
  induction h with
  | nil => intro i y hy; cases hy
  | cons hxy _ ih =>
    intro i y hy
    cases i with
    | zero => exact ⟨_, rfl, Option.some.inj hy ▸ hxy⟩
    | succ i => exact ih hy

end Raises
