import Mathlib.Init

/-!
# Runs of a state machine that can raise

A machine is a function `step : S → Op → Except E S`. A run takes a list of
operations and stops at the first error. `Guarded` says that every operation of
a run is taken in a state where a given condition holds, so that results about
whole runs can be stated from a condition on single steps:

> `exec_inv`: an invariant that every guarded step keeps holds at the end of
> every guarded run,
> `exec_total`: if guarded steps moreover never raise, guarded runs end in a
> state.
-/

namespace Run

variable {S Op E : Type}

/-- The operations in order, up to the first error. -/
def exec (step : S → Op → Except E S) : S → List Op → Except E S
  | s, [] => .ok s
  | s, op :: ops =>
    match step s op with
    | .ok s' => exec step s' ops
    | .error e => .error e

/-- Every operation of the run meets `guard` in the state it is taken in. -/
def Guarded (step : S → Op → Except E S) (guard : S → Op → Prop) : S → List Op → Prop
  | _, [] => True
  | s, op :: ops => guard s op ∧ ∀ s', step s op = .ok s' → Guarded step guard s' ops

variable {step : S → Op → Except E S} {guard : S → Op → Prop} {I : S → Prop}

theorem exec_cons_ok {s s' : S} {op : Op} {ops : List Op} :
    exec step s (op :: ops) = .ok s' ↔ ∃ s₁, step s op = .ok s₁ ∧ exec step s₁ ops = .ok s' := by
  rw [exec]
  cases h : step s op with
  | ok s₁ => simp
  | error e => simp

theorem Guarded.mono {guard' : S → Op → Prop} (himp : ∀ s op, guard s op → guard' s op) :
    ∀ (ops : List Op) (s : S), Guarded step guard s ops → Guarded step guard' s ops := by
  intro ops
  induction ops with
  | nil => intro s _; trivial
  | cons op ops ih =>
    intro s hg
    exact ⟨himp s op hg.1, fun s' hs' => ih s' (hg.2 s' hs')⟩

/-- A condition on the operations alone can be added to a guard. -/
theorem Guarded.and_mem {P : Op → Prop} :
    ∀ (ops : List Op) (s : S), (∀ op ∈ ops, P op) → Guarded step guard s ops →
      Guarded step (fun s op => P op ∧ guard s op) s ops := by
  intro ops
  induction ops with
  | nil => intro s _ _; trivial
  | cons op ops ih =>
    intro s hP hg
    exact ⟨⟨hP op List.mem_cons_self, hg.1⟩,
      fun s' hs' => ih s' (fun o ho => hP o (List.mem_cons_of_mem op ho)) (hg.2 s' hs')⟩

theorem Guarded.of_forall (h : ∀ s op, guard s op) :
    ∀ (ops : List Op) (s : S), Guarded step guard s ops := by
  intro ops
  induction ops with
  | nil => intro s; trivial
  | cons op ops ih => intro s; exact ⟨h s op, fun s' _ => ih s'⟩

/-- The last operation of a guarded run meets the guard in the state the others
lead to. -/
theorem Guarded.after {op : Op} :
    ∀ {ops : List Op} {s s' : S}, exec step s ops = .ok s' →
      Guarded step guard s (ops ++ [op]) → guard s' op := by
  intro ops
  induction ops with
  | nil =>
    intro s s' h hg
    cases h
    exact hg.1
  | cons o ops ih =>
    intro s s' h hg
    obtain ⟨s₁, h₁, h₂⟩ := exec_cons_ok.mp h
    exact ih h₂ (hg.2 s₁ h₁)

/-- The first operations of a guarded run are a guarded run. -/
theorem Guarded.init {rest : List Op} :
    ∀ {ops : List Op} {s : S}, Guarded step guard s (ops ++ rest) → Guarded step guard s ops := by
  intro ops
  induction ops with
  | nil => intro s _; trivial
  | cons o ops ih => intro s hg; exact ⟨hg.1, fun s' hs' => ih (hg.2 s' hs')⟩

/-- A computable check of a guarded run. -/
def check (step : S → Op → Except E S) (guard : S → Op → Bool) : S → List Op → Bool
  | _, [] => true
  | s, op :: ops => guard s op &&
    match step s op with
    | .ok s' => check step guard s' ops
    | .error _ => true

theorem Guarded.of_check {g : S → Op → Bool} (hg : ∀ s op, g s op = true → guard s op) :
    ∀ (ops : List Op) (s : S), check step g s ops = true → Guarded step guard s ops := by
  intro ops
  induction ops with
  | nil => intro s _; trivial
  | cons op ops ih =>
    intro s h
    rw [check, Bool.and_eq_true] at h
    refine ⟨hg s op h.1, fun s' hs' => ih s' ?_⟩
    have h₂ := h.2
    rw [hs'] at h₂
    exact h₂

/-- A guard that can be decided is checked along the run. -/
theorem Guarded.of_decide [∀ s op, Decidable (guard s op)] (ops : List Op) (s : S)
    (h : check step (fun s op => decide (guard s op)) s ops = true) : Guarded step guard s ops :=
  Guarded.of_check (fun _ _ h => of_decide_eq_true h) ops s h

/-- A guarded run from a start that is itself computed, with a value of the
state it ends in: one evaluation gives all of it. -/
theorem Guarded.of_started {A V E' : Type} (step : S → Op → Except E S) (g : S → Op → Bool)
    (x : Except E' A) (start : A → S) (ops : List Op) (val : S → V) (v : V)
    (h : (x.map fun a => (check step g (start a) ops,
      (exec step (start a) ops).toOption.map val)) = .ok (true, some v))
    (hg : ∀ s op, g s op = true → guard s op) :
    ∃ a s, x = .ok a ∧ Guarded step guard (start a) ops ∧ exec step (start a) ops = .ok s ∧
      val s = v := by
  cases x with
  | error e => cases h
  | ok a =>
    obtain ⟨hcheck, hval⟩ := Prod.mk.inj (Except.ok.inj h)
    cases hrun : exec step (start a) ops with
    | error e =>
      rw [hrun] at hval
      cases hval
    | ok s =>
      rw [hrun] at hval
      exact ⟨a, s, rfl, Guarded.of_check hg ops _ hcheck, hrun, Option.some.inj hval⟩

/-- A guarded run keeps what its steps keep. The induction is on the
operations. -/
theorem exec_inv (hstep : ∀ s op s', I s → guard s op → step s op = .ok s' → I s') :
    ∀ (ops : List Op) (s s' : S), I s → Guarded step guard s ops →
      exec step s ops = .ok s' → I s' := by
  intro ops
  induction ops with
  | nil =>
    intro s s' hs _ h
    cases h
    exact hs
  | cons op ops ih =>
    intro s s' hs hg h
    obtain ⟨s₁, h₁, h₂⟩ := exec_cons_ok.mp h
    exact ih s₁ s' (hstep s op s₁ hs hg.1 h₁) (hg.2 s₁ h₁) h₂

/-- What every step keeps holds at the end of every run. -/
theorem exec_keeps (hstep : ∀ s op s', I s → step s op = .ok s' → I s') (ops : List Op) (s s' : S)
    (hs : I s) (h : exec step s ops = .ok s') : I s' :=
  exec_inv (fun s op s' hs _ h => hstep s op s' hs h) ops s s' hs
    (Guarded.of_forall (fun _ _ => trivial) ops s) h

/-- An error that no guarded step raises does not end a guarded run. -/
theorem exec_ne_error {e : E} (hstep : ∀ s op s', I s → guard s op → step s op = .ok s' → I s')
    (hne : ∀ s op, I s → guard s op → step s op ≠ .error e) :
    ∀ (ops : List Op) (s : S), I s → Guarded step guard s ops → exec step s ops ≠ .error e := by
  intro ops
  induction ops with
  | nil =>
    intro s _ _ h
    cases h
  | cons op ops ih =>
    intro s hs hg h
    rw [exec] at h
    cases h₁ : step s op with
    | ok s₁ =>
      rw [h₁] at h
      exact ih s₁ (hstep s op s₁ hs hg.1 h₁) (hg.2 s₁ h₁) h
    | error e' =>
      rw [h₁] at h
      cases h
      exact hne s op hs hg.1 h₁

/-- A guarded run of a machine whose guarded steps never raise ends in a state. -/
theorem exec_total (hstep : ∀ s op s', I s → guard s op → step s op = .ok s' → I s')
    (hok : ∀ s op, I s → guard s op → ∃ s', step s op = .ok s') :
    ∀ (ops : List Op) (s : S), I s → Guarded step guard s ops →
      ∃ s', exec step s ops = .ok s' := by
  intro ops
  induction ops with
  | nil => intro s _ _; exact ⟨s, rfl⟩
  | cons op ops ih =>
    intro s hs hg
    obtain ⟨s₁, h₁⟩ := hok s op hs hg.1
    obtain ⟨s', h'⟩ := ih s₁ (hstep s op s₁ hs hg.1 h₁) (hg.2 s₁ h₁)
    exact ⟨s', exec_cons_ok.mpr ⟨s₁, h₁, h'⟩⟩

end Run
