import VllmEngine.Distributed.Waves

/-!
# No lost wake-up

The waves of all engines are equal and the coordinator never has a later one. What wakes the
engines is in one of a few places: a start message of the current wave, a notice of an engine
for this wave, or a notification of a front-end, which may still be in its inner socket.
`WaveInv` says so for every engine that runs or has a request, and every action keeps it.

> `no_lost_wake_up`: with no message in flight, all engines are paused without requests, or all
> go through the loop in the same wave.
-/

namespace VllmEngine.Distributed.WaveSystem

variable {n : Nat} {F : Type} [DecidableEq F]

/-- The coordinator runs, or a notification of a front-end will make it run. -/
def Notified (s : WaveSystem n F) : Prop :=
  s.coordinator.enginesRunning = true ∨ ∃ f, (s.clients f).firstReqs ≠ [] ∨ s.wakeUps f ≠ []

/-- The invariant, with the wave and the step of all engines. -/
structure WaveInv (s : WaveSystem n F) (wave steps : Nat) : Prop where
  engineWave : ∀ i, (s.engines i).currentWave = wave
  engineSteps : ∀ i, (s.engines i).stepCounter = steps
  coordinatorWave : s.coordinator.currentWave ≤ wave
  clientWave : ∀ f, (s.clients f).currentWave ≤ s.coordinator.currentWave
  publishedWave : ∀ f p, p ∈ s.published f → p.1 ≤ s.coordinator.currentWave
  addWave : ∀ f i w, w ∈ s.adds f i → w ≤ s.coordinator.currentWave
  startWave : ∀ i m, m ∈ s.starts i → m.1 < s.coordinator.currentWave
    ∨ m.1 = s.coordinator.currentWave ∧ s.coordinator.enginesRunning = true
  noticeStart : ∀ i w, WaveNotice.startWave w ∈ s.notices i →
    w ≤ wave ∧ (w = wave → (s.engines i).enginesRunning = true)
  noticeComplete : ∀ i w, WaveNotice.waveComplete w ∈ s.notices i → w < wave
  clientRunning : ∀ f, (s.clients f).enginesRunning = true →
    (s.clients f).currentWave = s.coordinator.currentWave → s.Notified
  publishedRunning : ∀ f p, p ∈ s.published f → p.2 = true → p.1 = s.coordinator.currentWave →
    s.coordinator.enginesRunning = true
  addNotified : ∀ f i w, w ∈ s.adds f i → w = s.coordinator.currentWave → s.Notified
  woken : s.coordinator.enginesRunning = true → s.coordinator.currentWave = wave → ∀ i,
    (s.engines i).enginesRunning = true ∨ ∃ m ∈ s.starts i, m.1 = wave ∧ m.2.excludes i = false
  running : ∀ i, (s.engines i).enginesRunning = true →
    s.coordinator.enginesRunning = true ∧ s.coordinator.currentWave = wave
      ∨ WaveNotice.startWave wave ∈ s.notices i ∨ ∀ j, (s.engines j).enginesRunning = true
  unfinished : ∀ i, 0 < (s.engines i).unfinished →
    (s.engines i).enginesRunning = true ∨ s.coordinator.currentWave = wave ∧ s.Notified

variable {s s' : WaveSystem n F} {wave steps : Nat}

omit [DecidableEq F] in
theorem init_inv : WaveInv (init n F) 0 0 where
  engineWave _ := rfl
  engineSteps _ := rfl
  coordinatorWave := Nat.le_refl 0
  clientWave _ := Nat.le_refl 0
  publishedWave _ _ h := by cases h
  addWave _ _ _ h := by cases h
  startWave _ _ h := by cases h
  noticeStart _ _ h := by cases h
  noticeComplete _ _ h := by cases h
  clientRunning _ h := by cases h
  publishedRunning _ _ h := by cases h
  addNotified _ _ _ h := by cases h
  woken h := by cases h
  running _ h := by cases h
  unfinished _ h := absurd h (Nat.lt_irrefl 0)

omit [DecidableEq F] in

/-- A queue whose first message is taken. -/
theorem mem_of_mem_update {α β : Type} [DecidableEq α] {g : α → List β} {a b : α} {x y : β} {rest : List β}
    (h : g a = x :: rest) (hy : y ∈ Function.update g a rest b) : y ∈ g b := by
  by_cases hb : b = a
  · subst hb
    rw [Function.update_self] at hy
    rw [h]
    exact List.mem_cons_of_mem _ hy
  · rw [Function.update_of_ne hb] at hy
    exact hy

theorem mem_update_of_mem {α β : Type} [DecidableEq α] {g : α → List β} {a b : α} {x y : β} {rest : List β}
    (h : g a = x :: rest) (hy : y ∈ g b) (hne : y ≠ x) : y ∈ Function.update g a rest b := by
  by_cases hb : b = a
  · subst hb
    rw [Function.update_self]
    rw [h] at hy
    exact (List.mem_cons.mp hy).resolve_left hne
  · rw [Function.update_of_ne hb]
    exact hy

/-! ## Front-ends -/

theorem addRequestAsync_inv (h : WaveInv s wave steps) (f : F) (i : Fin n) :
    WaveInv (s.addRequestAsync f i) wave steps := by
  have hadds : ∀ g j w, w ∈ (Function.update s.adds f
      (Function.update (s.adds f) i (s.adds f i ++ [(s.clients f).currentWave]))) g j →
      w ∈ s.adds g j ∨ g = f ∧ w = (s.clients f).currentWave := by
    intro g j w hw
    by_cases hg : g = f
    · subst hg
      rw [Function.update_self] at hw
      by_cases hj : j = i
      · subst hj
        rw [Function.update_self] at hw
        rcases List.mem_append.mp hw with hw | hw
        · exact Or.inl hw
        · exact Or.inr ⟨rfl, List.mem_singleton.mp hw⟩
      · rw [Function.update_of_ne hj] at hw
        exact Or.inl hw
    · rw [Function.update_of_ne hg] at hw
      exact Or.inl hw
  unfold addRequestAsync
  dsimp only
  split
  · rename_i hpaused
    -- The front-end puts its notification into the inner socket.
    have hnotified : Notified { s with
        adds := Function.update s.adds f
          (Function.update (s.adds f) i (s.adds f i ++ [(s.clients f).currentWave]))
        clients := Function.update s.clients f
          { s.clients f with firstReqs := (s.clients f).firstReqs ++ [i] } } := by
      refine Or.inr ⟨f, Or.inl ?_⟩
      show (Function.update s.clients f _ f).firstReqs ≠ []
      rw [Function.update_self]
      exact List.append_ne_nil_of_right_ne_nil _ (List.cons_ne_nil _ _)
    have hclient : ∀ g, (Function.update s.clients f
        { s.clients f with firstReqs := (s.clients f).firstReqs ++ [i] } g).currentWave
        = (s.clients g).currentWave := by
      intro g
      by_cases hg : g = f
      · subst hg
        rw [Function.update_self]
      · rw [Function.update_of_ne hg]
    exact { h with
      clientWave := by
        intro g
        show (Function.update s.clients f _ g).currentWave ≤ _
        rw [hclient]
        exact h.clientWave g
      addWave := by
        intro g j w hw
        rcases hadds g j w hw with hw | ⟨_, hw⟩
        · exact h.addWave g j w hw
        · rw [hw]
          exact h.clientWave f
      clientRunning := fun _ _ _ => hnotified
      addNotified := fun _ _ _ _ _ => hnotified
      unfinished := by
        intro j hj
        rcases h.unfinished j hj with hrun | ⟨hwave, _⟩
        · exact Or.inl hrun
        · exact Or.inr ⟨hwave, hnotified⟩ }
  · rename_i hrunning
    have hrun : (s.clients f).enginesRunning = true := by
      cases hcase : (s.clients f).enginesRunning with
      | true => rfl
      | false => exact absurd (by rw [hcase]; rfl) hrunning
    exact { h with
      addWave := by
        intro g j w hw
        rcases hadds g j w hw with hw | ⟨_, hw⟩
        · exact h.addWave g j w hw
        · rw [hw]
          exact h.clientWave f
      addNotified := by
        intro g j w hw heq
        rcases hadds g j w hw with hw | ⟨_, hw⟩
        · exact h.addNotified g j w hw heq
        · exact h.clientRunning f hrun (hw ▸ heq) }

theorem sendFirstReq_inv (h : WaveInv s wave steps) (f : F) : WaveInv (s.sendFirstReq f) wave steps := by
  unfold sendFirstReq
  split
  · exact h
  · rename_i target rest _
    have hnotified : Notified { s with
        clients := Function.update s.clients f { s.clients f with enginesRunning := true, firstReqs := rest }
        wakeUps := Function.update s.wakeUps f (s.wakeUps f ++ [(target, (s.clients f).currentWave)]) } := by
      refine Or.inr ⟨f, Or.inr ?_⟩
      show Function.update s.wakeUps f _ f ≠ []
      rw [Function.update_self]
      exact List.append_ne_nil_of_right_ne_nil _ (List.cons_ne_nil _ _)
    exact { h with
      clientWave := by
        intro g
        show (Function.update s.clients f _ g).currentWave ≤ _
        by_cases hg : g = f
        · subst hg
          rw [Function.update_self]
          exact h.clientWave g
        · rw [Function.update_of_ne hg]
          exact h.clientWave g
      clientRunning := fun _ _ _ => hnotified
      addNotified := fun _ _ _ _ _ => hnotified
      unfinished := by
        intro j hj
        rcases h.unfinished j hj with hrun | ⟨hwave, _⟩
        · exact Or.inl hrun
        · exact Or.inr ⟨hwave, hnotified⟩ }

theorem drain_inv (h : WaveInv s wave steps) (f : F) (arrived : Nat) :
    WaveInv (s.drain f arrived) wave steps := by
  unfold drain
  split
  · exact h
  · rename_i w running hlast
    have hmem : (w, running) ∈ s.published f := List.mem_of_mem_take (List.mem_of_getLast? hlast)
    have hpublished : ∀ g p, p ∈ Function.update s.published f ((s.published f).drop arrived) g →
        p ∈ s.published g := by
      intro g p hp
      by_cases hg : g = f
      · subst hg
        rw [Function.update_self] at hp
        exact List.mem_of_mem_drop hp
      · rw [Function.update_of_ne hg] at hp
        exact hp
    have hnotified : s.Notified → Notified { s with
        clients := Function.update s.clients f
          { s.clients f with currentWave := w, enginesRunning := running }
        published := Function.update s.published f ((s.published f).drop arrived) } := by
      intro hn
      rcases hn with hrun | ⟨g, hg⟩
      · exact Or.inl hrun
      · refine Or.inr ⟨g, ?_⟩
        show (Function.update s.clients f _ g).firstReqs ≠ [] ∨ s.wakeUps g ≠ []
        by_cases heq : g = f
        · subst heq
          rw [Function.update_self]
          exact hg
        · rw [Function.update_of_ne heq]
          exact hg
    exact { h with
      clientWave := by
        intro g
        show (Function.update s.clients f _ g).currentWave ≤ _
        by_cases hg : g = f
        · subst hg
          rw [Function.update_self]
          exact h.publishedWave g _ hmem
        · rw [Function.update_of_ne hg]
          exact h.clientWave g
      publishedWave := fun g p hp => h.publishedWave g p (hpublished g p hp)
      clientRunning := by
        intro g hrun hwave
        change (Function.update s.clients f _ g).enginesRunning = true at hrun
        change (Function.update s.clients f _ g).currentWave = _ at hwave
        by_cases hg : g = f
        · subst hg
          rw [Function.update_self] at hrun hwave
          exact Or.inl (h.publishedRunning g _ hmem hrun hwave)
        · rw [Function.update_of_ne hg] at hrun hwave
          exact hnotified (h.clientRunning g hrun hwave)
      publishedRunning := fun g p hp => h.publishedRunning g p (hpublished g p hp)
      addNotified := fun g j w' hw heq => hnotified (h.addNotified g j w' hw heq)
      unfinished := by
        intro j hj
        rcases h.unfinished j hj with hrun | ⟨hwave, hn⟩
        · exact Or.inl hrun
        · exact Or.inr ⟨hwave, hnotified hn⟩ }

theorem statsTask_inv (h : WaveInv s wave steps) {f : F} {socketReady firstReady : Bool} {arrived : Nat}
    (hstep : s.statsTask f socketReady firstReady arrived = some s') : WaveInv s' wave steps := by
  unfold statsTask at hstep
  dsimp only at hstep
  split at hstep
  · obtain rfl := Option.some.inj hstep
    apply drain_inv
    split
    · exact sendFirstReq_inv h f
    · exact h
  · cases hstep

/-! ## The coordinator -/

omit [DecidableEq F] in
theorem publish_inv (h : WaveInv s wave steps) : WaveInv s.publish wave steps := by
  have hpublished : ∀ f p, p ∈ s.publish.published f → p ∈ s.published f
      ∨ p = (s.coordinator.currentWave, s.coordinator.enginesRunning) := by
    intro f p hp
    rcases List.mem_append.mp hp with hp | hp
    · exact Or.inl hp
    · exact Or.inr (List.mem_singleton.mp hp)
  exact { h with
    publishedWave := by
      intro f p hp
      rcases hpublished f p hp with hp | rfl
      · exact h.publishedWave f p hp
      · exact Nat.le_refl _
    publishedRunning := by
      intro f p hp hrun hwave
      rcases hpublished f p hp with hp | rfl
      · exact h.publishedRunning f p hp hrun hwave
      · exact hrun }

/-- A notification of a front-end starts the wave of the coordinator, or it runs already. Either
way the coordinator runs afterwards. -/
theorem handleFront_inv (h : WaveInv s wave steps) {f : F} {changed : Bool}
    (hstep : s.handleFront f = some (s', changed)) : WaveInv s' wave steps := by
  unfold handleFront at hstep
  split at hstep
  · cases hstep
  · rename_i target w rest _
    dsimp only at hstep
    obtain ⟨rfl, rfl⟩ := Prod.mk.inj (Option.some.inj hstep)
    unfold WaveCoordinator.handleFront
    cases hrun : s.coordinator.enginesRunning with
    | true =>
      exact { h with
        clientRunning := fun _ _ _ => Or.inl hrun
        addNotified := fun _ _ _ _ _ => Or.inl hrun
        unfinished := by
          intro j hj
          rcases h.unfinished j hj with hj | ⟨hwave, _⟩
          · exact Or.inl hj
          · exact Or.inr ⟨hwave, Or.inl hrun⟩ }
    | false =>
      have hbroadcast : ∀ i m, m ∈ s.starts i ++ [(s.coordinator.currentWave,
          if w < s.coordinator.currentWave then ExcludeEngine.none else .identity target)] →
          m ∈ s.starts i ∨ m.1 = s.coordinator.currentWave := by
        intro i m hm
        rcases List.mem_append.mp hm with hm | hm
        · exact Or.inl hm
        · rw [List.mem_singleton.mp hm]
          exact Or.inr rfl
      have hnobody : ∀ i : Fin n, (if w < s.coordinator.currentWave then ExcludeEngine.none
          else .identity target).excludes i = false := by
        intro i
        split
        · rfl
        · rfl
      exact { h with
        startWave := by
          intro i m hm
          rcases hbroadcast i m hm with hm | hm
          · rcases h.startWave i m hm with hlt | ⟨_, hon⟩
            · exact Or.inl hlt
            · rw [hrun] at hon
              cases hon
          · exact Or.inr ⟨hm, rfl⟩
        clientRunning := fun _ _ _ => Or.inl rfl
        publishedRunning := fun _ _ _ _ _ => rfl
        addNotified := fun _ _ _ _ _ => Or.inl rfl
        woken := by
          intro _ hwave i
          exact Or.inr ⟨_, List.mem_append_right _ (List.mem_singleton_self _), hwave, hnobody i⟩
        running := by
          intro i hi
          rcases h.running i hi with ⟨hon, _⟩ | hrest
          · rw [hrun] at hon
            cases hon
          · exact Or.inr hrest
        unfinished := by
          intro j hj
          rcases h.unfinished j hj with hj | ⟨hwave, _⟩
          · exact Or.inl hj
          · exact Or.inr ⟨hwave, Or.inl rfl⟩ }

omit [DecidableEq F] in
/-- A completed wave moves the coordinator past every wave it has told anyone about. -/
theorem handleComplete_inv (h : WaveInv s wave steps) {i : Fin n} {w : Nat} {rest : List WaveNotice}
    (hnotices : s.notices i = .waveComplete w :: rest) (hle : s.coordinator.currentWave ≤ w) :
    WaveInv { s with
      coordinator := { currentWave := w + 1, enginesRunning := false }
      notices := Function.update s.notices i rest } wave steps := by
  have hw : w < wave := h.noticeComplete i w (by rw [hnotices]; exact List.mem_cons_self)
  exact { h with
    coordinatorWave := hw
    clientWave := fun f => Nat.le_succ_of_le (Nat.le_trans (h.clientWave f) hle)
    publishedWave := fun f p hp => Nat.le_succ_of_le (Nat.le_trans (h.publishedWave f p hp) hle)
    addWave := fun f j v hv => Nat.le_succ_of_le (Nat.le_trans (h.addWave f j v hv) hle)
    startWave := by
      intro j m hm
      apply Or.inl
      show m.1 < w + 1
      rcases h.startWave j m hm with hlt | ⟨heq, _⟩
      · omega
      · omega
    noticeStart := fun j v hv => h.noticeStart j v (mem_of_mem_update hnotices hv)
    noticeComplete := fun j v hv => h.noticeComplete j v (mem_of_mem_update hnotices hv)
    clientRunning := by
      intro f _ heq
      change (s.clients f).currentWave = w + 1 at heq
      have := h.clientWave f
      omega
    publishedRunning := by
      intro f p hp _ heq
      change p.1 = w + 1 at heq
      have := h.publishedWave f p hp
      omega
    addNotified := by
      intro f j v hv heq
      change v = w + 1 at heq
      have := h.addWave f j v hv
      omega
    woken := fun hon => by cases hon
    running := by
      intro j hj
      rcases h.running j hj with ⟨_, heq⟩ | hstart | hall
      · omega
      · exact Or.inr (Or.inl (mem_update_of_mem hnotices hstart (by rintro ⟨⟩)))
      · exact Or.inr (Or.inr hall)
    unfinished := by
      intro j hj
      rcases h.unfinished j hj with hj | ⟨heq, _⟩
      · exact Or.inl hj
      · omega }

omit [DecidableEq F] in
/-- A start that an engine asks for: this engine runs already, all others are told. -/
theorem handleStart_inv (h : WaveInv s wave steps) {i : Fin n} {w : Nat} {rest : List WaveNotice}
    (hnotices : s.notices i = .startWave w :: rest)
    (hnew : s.coordinator.currentWave < w ∨ w = s.coordinator.currentWave ∧ s.coordinator.enginesRunning = false) :
    WaveInv { s with
      coordinator := { currentWave := w, enginesRunning := true }
      notices := Function.update s.notices i rest
      starts := fun j => s.starts j ++ [(w, .index i)] } wave steps := by
  have hwmem : WaveNotice.startWave w ∈ s.notices i := by
    rw [hnotices]
    exact List.mem_cons_self
  obtain ⟨hw, hasked⟩ := h.noticeStart i w hwmem
  have hle : s.coordinator.currentWave ≤ w := by omega
  exact { h with
    coordinatorWave := hw
    clientWave := fun f => Nat.le_trans (h.clientWave f) hle
    publishedWave := fun f p hp => Nat.le_trans (h.publishedWave f p hp) hle
    addWave := fun f j v hv => Nat.le_trans (h.addWave f j v hv) hle
    startWave := by
      intro j m hm
      show m.1 < w ∨ m.1 = w ∧ true = true
      rcases List.mem_append.mp hm with hm | hm
      · rcases h.startWave j m hm with hlt | ⟨heq, _⟩
        · exact Or.inl (by omega)
        · rcases Nat.lt_or_eq_of_le hle with hlt | hsame
          · exact Or.inl (by omega)
          · exact Or.inr ⟨by omega, rfl⟩
      · rw [List.mem_singleton.mp hm]
        exact Or.inr ⟨rfl, rfl⟩
    noticeStart := fun j v hv => h.noticeStart j v (mem_of_mem_update hnotices hv)
    noticeComplete := fun j v hv => h.noticeComplete j v (mem_of_mem_update hnotices hv)
    clientRunning := fun _ _ _ => Or.inl rfl
    publishedRunning := fun _ _ _ _ _ => rfl
    addNotified := fun _ _ _ _ _ => Or.inl rfl
    woken := by
      intro _ heq j
      change w = wave at heq
      by_cases hj : i = j
      · subst hj
        exact Or.inl (hasked heq)
      · refine Or.inr ⟨(w, .index i), List.mem_append_right _ (List.mem_singleton_self _), heq, ?_⟩
        exact beq_eq_false_iff_ne.mpr hj
    running := by
      intro j hj
      show true = true ∧ w = wave ∨ _
      by_cases heq : w = wave
      · exact Or.inl ⟨rfl, heq⟩
      · rcases h.running j hj with ⟨_, hsame⟩ | hstart | hall
        · omega
        · refine Or.inr (Or.inl (mem_update_of_mem hnotices hstart ?_))
          intro hhead
          exact heq (WaveNotice.startWave.inj hhead).symm
        · exact Or.inr (Or.inr hall)
    unfinished := by
      intro j hj
      rcases h.unfinished j hj with hj | ⟨heq, _⟩
      · exact Or.inl hj
      · refine Or.inr ⟨?_, Or.inl rfl⟩
        show w = wave
        omega }

omit [DecidableEq F] in
/-- A notice that the coordinator ignores. -/
theorem dropNotice_inv (h : WaveInv s wave steps) {i : Fin n} {notice : WaveNotice} {rest : List WaveNotice}
    (hnotices : s.notices i = notice :: rest)
    (hstart : notice = .startWave wave →
      s.coordinator.enginesRunning = true ∧ s.coordinator.currentWave = wave) :
    WaveInv { s with notices := Function.update s.notices i rest } wave steps := by
  exact { h with
    noticeStart := fun j v hv => h.noticeStart j v (mem_of_mem_update hnotices hv)
    noticeComplete := fun j v hv => h.noticeComplete j v (mem_of_mem_update hnotices hv)
    running := by
      intro j hj
      rcases h.running j hj with hon | hasked | hall
      · exact Or.inl hon
      · by_cases hhead : notice = .startWave wave
        · exact Or.inl (hstart hhead)
        · exact Or.inr (Or.inl (mem_update_of_mem hnotices hasked fun heq => hhead heq.symm))
      · exact Or.inr (Or.inr hall) }

omit [DecidableEq F] in
theorem handleBack_inv (h : WaveInv s wave steps) {i : Fin n} {changed : Bool}
    (hstep : s.handleBack i = some (s', changed)) : WaveInv s' wave steps := by
  unfold handleBack at hstep
  split at hstep
  · cases hstep
  · rename_i notice rest hnotices
    dsimp only at hstep
    obtain ⟨rfl, rfl⟩ := Prod.mk.inj (Option.some.inj hstep)
    cases notice with
    | waveComplete w =>
      unfold WaveCoordinator.handleNotice
      dsimp only
      split
      · rename_i hle
        exact handleComplete_inv h hnotices hle
      · exact dropNotice_inv h hnotices fun heq => by cases heq
    | startWave w =>
      unfold WaveCoordinator.handleNotice
      dsimp only
      split
      · rename_i hnew
        exact handleStart_inv h hnotices hnew
      · rename_i hold
        apply dropNotice_inv h hnotices
        intro heq
        have hw : w = wave := WaveNotice.startWave.inj heq
        have hle := h.coordinatorWave
        have hsame : s.coordinator.currentWave = w := by omega
        refine ⟨?_, by omega⟩
        cases hrun : s.coordinator.enginesRunning with
        | true => rfl
        | false => exact absurd (Or.inr ⟨hsame.symm, hrun⟩) hold

theorem coordinate_inv (h : WaveInv s wave steps) {front : Option F} {back : Option (Fin n)}
    (hstep : s.coordinate front back = some s') : WaveInv s' wave steps := by
  unfold coordinate at hstep
  obtain ⟨⟨s₁, frontChanged⟩, hfront, hstep⟩ := Option.bind_eq_some_iff.mp hstep
  obtain ⟨⟨s₂, backChanged⟩, hback, hstep⟩ := Option.bind_eq_some_iff.mp hstep
  have h₁ : WaveInv s₁ wave steps := by
    cases front with
    | none =>
      obtain ⟨rfl, _⟩ := Prod.mk.inj (Option.some.inj hfront)
      exact h
    | some f => exact handleFront_inv h hfront
  have h₂ : WaveInv s₂ wave steps := by
    cases back with
    | none =>
      obtain ⟨rfl, _⟩ := Prod.mk.inj (Option.some.inj hback)
      exact h₁
    | some i => exact handleBack_inv h₁ hback
  obtain rfl := Option.some.inj hstep
  split
  · exact publish_inv h₂
  · exact h₂

/-! ## Engines -/

omit [DecidableEq F] in
/-- One engine changes. It stays in its wave and does not stop; where it starts to run, or gets
its first request, what wakes the others is named. -/
theorem updateEngine_inv (h : WaveInv s wave steps) (i : Fin n) (engine : WaveEngine)
    (adds : F → Fin n → List Nat) (starts : Fin n → List (Nat × ExcludeEngine n)) (extra : List WaveNotice)
    (hwave : engine.currentWave = wave) (hsteps : engine.stepCounter = steps)
    (hkeep : (s.engines i).enginesRunning = true → engine.enginesRunning = true)
    (hextra : ∀ notice ∈ extra, notice = .startWave wave ∧ engine.enginesRunning = true)
    (hadds : ∀ g j v, v ∈ adds g j → v ∈ s.adds g j)
    (hstarts : ∀ j m, m ∈ starts j → m ∈ s.starts j)
    (hstarts' : ∀ j m, m ∈ s.starts j → m.1 = wave → m.2.excludes j = false →
      m ∈ starts j ∨ j = i ∧ engine.enginesRunning = true)
    (hrun : engine.enginesRunning = true → (s.engines i).enginesRunning = true
      ∨ (s.coordinator.enginesRunning = true ∧ s.coordinator.currentWave = wave) ∨ .startWave wave ∈ extra)
    (hunfinished : 0 < engine.unfinished → engine.enginesRunning = true ∨ 0 < (s.engines i).unfinished
      ∨ (s.coordinator.currentWave = wave ∧ s.Notified)) :
    WaveInv { s with
      engines := Function.update s.engines i engine
      adds
      starts
      notices := Function.update s.notices i (s.notices i ++ extra) } wave steps := by
  have hat : ∀ j, j ≠ i → Function.update s.engines i engine j = s.engines j :=
    fun j hj => Function.update_of_ne hj _ _
  have hself : Function.update s.engines i engine i = engine := Function.update_self _ _ _
  have hon : ∀ j, (s.engines j).enginesRunning = true →
      (Function.update s.engines i engine j).enginesRunning = true := by
    intro j hj
    by_cases hji : j = i
    · subst hji
      rw [hself]
      exact hkeep hj
    · rw [hat j hji]
      exact hj
  have hnotices : ∀ j notice, notice ∈ Function.update s.notices i (s.notices i ++ extra) j →
      notice ∈ s.notices j ∨ j = i ∧ notice ∈ extra := by
    intro j notice hn
    by_cases hji : j = i
    · subst hji
      rw [Function.update_self] at hn
      rcases List.mem_append.mp hn with hn | hn
      · exact Or.inl hn
      · exact Or.inr ⟨rfl, hn⟩
    · rw [Function.update_of_ne hji] at hn
      exact Or.inl hn
  have hkept : ∀ j notice, notice ∈ s.notices j →
      notice ∈ Function.update s.notices i (s.notices i ++ extra) j := by
    intro j notice hn
    by_cases hji : j = i
    · subst hji
      rw [Function.update_self]
      exact List.mem_append_left _ hn
    · rw [Function.update_of_ne hji]
      exact hn
  exact { h with
    engineWave := by
      intro j
      by_cases hji : j = i
      · subst hji
        exact (congrArg WaveEngine.currentWave hself).trans hwave
      · exact (congrArg WaveEngine.currentWave (hat j hji)).trans (h.engineWave j)
    engineSteps := by
      intro j
      by_cases hji : j = i
      · subst hji
        exact (congrArg WaveEngine.stepCounter hself).trans hsteps
      · exact (congrArg WaveEngine.stepCounter (hat j hji)).trans (h.engineSteps j)
    addWave := fun g j v hv => h.addWave g j v (hadds g j v hv)
    startWave := fun j m hm => h.startWave j m (hstarts j m hm)
    noticeStart := by
      intro j v hv
      rcases hnotices j _ hv with hold | ⟨rfl, hnew⟩
      · obtain ⟨hle, hasked⟩ := h.noticeStart j v hold
        exact ⟨hle, fun heq => hon j (hasked heq)⟩
      · obtain ⟨heq, hrunning⟩ := hextra _ hnew
        refine ⟨Nat.le_of_eq (WaveNotice.startWave.inj heq), fun _ => ?_⟩
        exact (congrArg WaveEngine.enginesRunning hself).trans hrunning
    noticeComplete := by
      intro j v hv
      rcases hnotices j _ hv with hold | ⟨_, hnew⟩
      · exact h.noticeComplete j v hold
      · cases (hextra _ hnew).1
    addNotified := fun g j v hv => h.addNotified g j v (hadds g j v hv)
    woken := by
      intro hcoordinator heq j
      rcases h.woken hcoordinator heq j with hj | ⟨m, hm, hmwave, hmexcl⟩
      · exact Or.inl (hon j hj)
      · rcases hstarts' j m hm hmwave hmexcl with hm | ⟨rfl, hrunning⟩
        · exact Or.inr ⟨m, hm, hmwave, hmexcl⟩
        · exact Or.inl ((congrArg WaveEngine.enginesRunning hself).trans hrunning)
    running := by
      have hold : ∀ j, (s.engines j).enginesRunning = true →
          s.coordinator.enginesRunning = true ∧ s.coordinator.currentWave = wave
            ∨ .startWave wave ∈ Function.update s.notices i (s.notices i ++ extra) j
            ∨ ∀ k, (Function.update s.engines i engine k).enginesRunning = true := by
        intro j hj
        rcases h.running j hj with hcoordinator | hasked | hall
        · exact Or.inl hcoordinator
        · exact Or.inr (Or.inl (hkept j _ hasked))
        · exact Or.inr (Or.inr fun k => hon k (hall k))
      intro j hj
      by_cases hji : j = i
      · subst hji
        rcases hrun ((congrArg WaveEngine.enginesRunning hself).symm.trans hj) with hj | hcoordinator | hasked
        · exact hold j hj
        · exact Or.inl hcoordinator
        · refine Or.inr (Or.inl ?_)
          show _ ∈ Function.update s.notices j (s.notices j ++ extra) j
          rw [Function.update_self]
          exact List.mem_append_right _ hasked
      · exact hold j ((congrArg WaveEngine.enginesRunning (hat j hji)).symm.trans hj)
    unfinished := by
      intro j hj
      by_cases hji : j = i
      · subst hji
        rcases hunfinished (Nat.lt_of_lt_of_eq hj (congrArg WaveEngine.unfinished hself)) with hrunning | hj | hnotified
        · exact Or.inl ((congrArg WaveEngine.enginesRunning hself).trans hrunning)
        · rcases h.unfinished j hj with hj | hnotified
          · exact Or.inl (hon j hj)
          · exact Or.inr hnotified
        · exact Or.inr hnotified
      · rcases h.unfinished j (Nat.lt_of_lt_of_eq hj (congrArg WaveEngine.unfinished (hat j hji))) with hj | hnotified
        · exact Or.inl (hon j hj)
        · exact Or.inr hnotified }

/-- A request taken by an engine: where its wave is the current one, the engines are woken
anyway; where it is an earlier one, the engine asks for a start. -/
theorem receiveAdd_inv (h : WaveInv s wave steps) {f : F} {i : Fin n}
    (hstep : s.receiveAdd f i = some s') : WaveInv s' wave steps := by
  unfold receiveAdd at hstep
  split at hstep
  · cases hstep
  · rename_i w rest hqueue
    dsimp only at hstep
    obtain rfl := Option.some.inj hstep
    have hwmem : w ∈ s.adds f i := by
      rw [hqueue]
      exact List.mem_cons_self
    have hw : w ≤ s.coordinator.currentWave := h.addWave f i w hwmem
    have hle := h.coordinatorWave
    have hadds : ∀ g j v, v ∈ Function.update s.adds f (Function.update (s.adds f) i rest) g j →
        v ∈ s.adds g j := by
      intro g j v hv
      by_cases hg : g = f
      · subst hg
        rw [Function.update_self] at hv
        exact mem_of_mem_update hqueue hv
      · rw [Function.update_of_ne hg] at hv
        exact hv
    obtain ⟨hwave, hsteps, hkeep, hextra, hrun, hwoken⟩ :=
      (s.engines i).addRequest_spec (by rw [h.engineWave i]; omega : w ≤ (s.engines i).currentWave)
    rw [h.engineWave i] at hwave hextra hrun hwoken
    apply updateEngine_inv h i _ _ s.starts _ hwave (hsteps.trans (h.engineSteps i)) hkeep hextra hadds
      (fun _ _ hm => hm) (fun _ _ hm _ _ => Or.inl hm)
    · intro hon
      rcases hrun hon with hold | hasked
      · exact Or.inl hold
      · exact Or.inr (Or.inr hasked)
    · intro _
      rcases hwoken with hcurrent | hon
      · exact Or.inr (Or.inr ⟨by omega, h.addNotified f i w hwmem (by omega)⟩)
      · exact Or.inl hon

omit [DecidableEq F] in
/-- A start message of the current wave comes from a coordinator that runs. -/
theorem receiveStart_inv (h : WaveInv s wave steps) {i : Fin n}
    (hstep : s.receiveStart i = some s') : WaveInv s' wave steps := by
  unfold receiveStart at hstep
  split at hstep
  · cases hstep
  · rename_i w exclude rest hqueue
    obtain rfl := Option.some.inj hstep
    have hmem : (w, exclude) ∈ s.starts i := by
      rw [hqueue]
      exact List.mem_cons_self
    have hstart : w < s.coordinator.currentWave
        ∨ w = s.coordinator.currentWave ∧ s.coordinator.enginesRunning = true := h.startWave i _ hmem
    have hle := h.coordinatorWave
    have hsource : w = wave → s.coordinator.enginesRunning = true ∧ s.coordinator.currentWave = wave := by
      intro hcurrent
      rcases hstart with hlt | ⟨hsame, hon⟩
      · omega
      · exact ⟨hon, by omega⟩
    obtain ⟨hwave, hsteps, hunfinished, hkeep, hrun, hwoken⟩ :=
      (s.engines i).startDpWave_spec i exclude (by rw [h.engineWave i]; omega : w ≤ (s.engines i).currentWave)
    rw [h.engineWave i] at hwave hrun hwoken
    have hinv := updateEngine_inv h i _ s.adds (Function.update s.starts i rest) [] hwave
      (hsteps.trans (h.engineSteps i)) hkeep (fun _ hn => (by cases hn)) (fun _ _ _ hv => hv)
      (fun _ _ hm => mem_of_mem_update hqueue hm)
      (by
        intro j m hm hmwave hmexcl
        by_cases htaken : j = i ∧ m = (w, exclude)
        · obtain ⟨rfl, rfl⟩ := htaken
          exact Or.inr ⟨rfl, hwoken hmwave hmexcl⟩
        · refine Or.inl ?_
          by_cases hj : j = i
          · exact mem_update_of_mem hqueue hm fun heq => htaken ⟨hj, heq⟩
          · rw [Function.update_of_ne hj]
            exact hm)
      (by
        intro hon
        rcases hrun hon with hold | hcurrent
        · exact Or.inl hold
        · exact Or.inr (Or.inl (hsource hcurrent)))
      (by
        intro hpos
        rw [hunfinished] at hpos
        exact Or.inr (Or.inl hpos))
    rw [List.append_nil, Function.update_eq_self] at hinv
    exact hinv

omit [DecidableEq F] in
theorem abort_inv (h : WaveInv s wave steps) (i : Fin n) : WaveInv (s.abort i) wave steps := by
  have hinv := updateEngine_inv h i ((s.engines i).engineStep 1) s.adds s.starts [] (h.engineWave i)
    (h.engineSteps i) id (fun _ hn => (by cases hn)) (fun _ _ _ hv => hv) (fun _ _ hm => hm)
    (fun _ _ hm _ _ => Or.inl hm) Or.inl
    (fun hpos => Or.inr (Or.inl (Nat.lt_of_lt_of_le hpos (Nat.sub_le _ _))))
  rw [List.append_nil, Function.update_eq_self] at hinv
  exact hinv

omit [DecidableEq F] in
/-- The engines go on together. -/
theorem goOn_inv (h : WaveInv s wave steps) {engines : Fin n → WaveEngine}
    (hwave : ∀ i, (engines i).currentWave = wave) (hsteps : ∀ i, (engines i).stepCounter = steps + 1)
    (hrunning : ∀ i, (engines i).enginesRunning = true) :
    WaveInv { s with engines } wave (steps + 1) where
  __ := h
  engineWave := hwave
  engineSteps := hsteps
  noticeStart i w hw := ⟨(h.noticeStart i w hw).1, fun _ => hrunning i⟩
  woken _ _ i := Or.inl (hrunning i)
  running _ _ := Or.inr (Or.inr hrunning)
  unfinished i _ := Or.inl (hrunning i)

omit [DecidableEq F] in
/-- All engines are done and pause together, in the next wave. -/
theorem pause_inv (h : WaveInv s wave steps) {engines : Fin n → WaveEngine} {notices : Fin n → List WaveNotice}
    (hwave : ∀ i, (engines i).currentWave = wave + 1) (hsteps : ∀ i, (engines i).stepCounter = 0)
    (hpaused : ∀ i, (engines i).enginesRunning = false) (hdone : ∀ i, (engines i).unfinished = 0)
    (hnotices : ∀ i notice, notice ∈ notices i → notice ∈ s.notices i ∨ notice = .waveComplete wave) :
    WaveInv { s with engines, notices } (wave + 1) 0 where
  __ := h
  engineWave := hwave
  engineSteps := hsteps
  coordinatorWave := Nat.le_succ_of_le h.coordinatorWave
  noticeStart i w hw := by
    rcases hnotices i _ hw with hold | hnew
    · have hle := (h.noticeStart i w hold).1
      exact ⟨Nat.le_succ_of_le hle, fun heq => by omega⟩
    · cases hnew
  noticeComplete i w hw := by
    rcases hnotices i _ hw with hold | hnew
    · exact Nat.lt_succ_of_lt (h.noticeComplete i w hold)
    · rw [WaveNotice.waveComplete.inj hnew]
      exact Nat.lt_succ_self wave
  woken _ heq := by
    have hle := h.coordinatorWave
    change s.coordinator.currentWave = wave + 1 at heq
    omega
  running i hi := by
    change (engines i).enginesRunning = true at hi
    rw [hpaused i] at hi
    cases hi
  unfinished i hi := by
    change 0 < (engines i).unfinished at hi
    rw [hdone i] at hi
    exact absurd hi (Nat.lt_irrefl 0)

omit [DecidableEq F] in
/-- A collective step. The engines count the same steps, so they ask each other in the same
ones, and get the same answer. -/
theorem collective_inv (h : WaveInv s wave steps) {finished : Fin n → Nat}
    (hstep : s.collective finished = some s') : ∃ wave' steps', WaveInv s' wave' steps' := by
  unfold collective at hstep
  split at hstep
  · dsimp only at hstep
    obtain rfl := Option.some.inj hstep
    generalize hglobal : decide (∃ i, 0 < ((s.engines i).engineStep (finished i)).unfinished) = globalUnfinished
    by_cases hpause : (if (steps + 1) % 32 ≠ 0 then true else globalUnfinished) = false
    · -- Every engine has asked, and none has an unfinished request.
      have hnone : globalUnfinished = false := by
        split at hpause
        · cases hpause
        · exact hpause
      have hsync : ∀ i, ((s.engines i).engineStep (finished i)).finishSync (decide (i.val = 0)) globalUnfinished
          = ({ (s.engines i).engineStep (finished i) with
                enginesRunning := false, currentWave := wave + 1, stepCounter := 0 },
              if decide (i.val = 0) then [.waveComplete wave] else []) := by
        intro i
        unfold WaveEngine.finishSync
        dsimp only
        show (if !(if ((s.engines i).stepCounter + 1) % 32 ≠ 0 then true else globalUnfinished) then _ else _) = _
        rw [h.engineSteps i, hpause]
        show (({ (s.engines i).engineStep (finished i) with
          enginesRunning := false, currentWave := (s.engines i).currentWave + 1, stepCounter := 0 } : WaveEngine),
            if decide (i.val = 0) then [WaveNotice.waveComplete (s.engines i).currentWave] else []) = _
        rw [h.engineWave i]
      refine ⟨wave + 1, 0, ?_⟩
      simp only [hsync]
      apply pause_inv h (fun _ => rfl) (fun _ => rfl) (fun _ => rfl)
      · intro i
        show ((s.engines i).engineStep (finished i)).unfinished = 0
        by_contra hne
        have hsome : globalUnfinished = true := by
          rw [← hglobal]
          exact decide_eq_true ⟨i, Nat.pos_of_ne_zero hne⟩
        rw [hnone] at hsome
        cases hsome
      · intro i notice hn
        rcases List.mem_append.mp hn with hold | hnew
        · exact Or.inl hold
        · split at hnew
          · exact Or.inr (List.mem_singleton.mp hnew)
          · cases hnew
    · have hgo : (if (steps + 1) % 32 ≠ 0 then true else globalUnfinished) = true :=
        Bool.eq_true_of_not_eq_false hpause
      have hsync : ∀ i, ((s.engines i).engineStep (finished i)).finishSync (decide (i.val = 0)) globalUnfinished
          = ({ (s.engines i).engineStep (finished i) with enginesRunning := true, stepCounter := steps + 1 }, []) := by
        intro i
        unfold WaveEngine.finishSync
        dsimp only
        show (if !(if ((s.engines i).stepCounter + 1) % 32 ≠ 0 then true else globalUnfinished) then _ else _) = _
        rw [h.engineSteps i, hgo]
        show (({ (s.engines i).engineStep (finished i) with
          enginesRunning := true, stepCounter := (s.engines i).stepCounter + 1 } : WaveEngine), _) = _
        rw [h.engineSteps i]
      refine ⟨wave, steps + 1, ?_⟩
      simp only [hsync, List.append_nil]
      exact goOn_inv h h.engineWave (fun _ => rfl) (fun _ => rfl)
  · cases hstep

/-! ## Runs -/

theorem step_inv (h : WaveInv s wave steps) (a : WaveAction n F) (hstep : s.step a = some s') :
    ∃ wave' steps', WaveInv s' wave' steps' := by
  cases a with
  | addRequest f i =>
    obtain rfl := Option.some.inj hstep
    exact ⟨wave, steps, addRequestAsync_inv h f i⟩
  | statsTask f socketReady firstReady arrived => exact ⟨wave, steps, statsTask_inv h hstep⟩
  | coordinate front back => exact ⟨wave, steps, coordinate_inv h hstep⟩
  | publishStats =>
    obtain rfl := Option.some.inj hstep
    exact ⟨wave, steps, publish_inv h⟩
  | receiveAdd f i => exact ⟨wave, steps, receiveAdd_inv h hstep⟩
  | receiveStart i => exact ⟨wave, steps, receiveStart_inv h hstep⟩
  | abort i =>
    obtain rfl := Option.some.inj hstep
    exact ⟨wave, steps, abort_inv h i⟩
  | collective finished => exact collective_inv h hstep

theorem Reached.inv (h : Reached s) : ∃ wave steps, WaveInv s wave steps := by
  induction h with
  | init => exact ⟨0, 0, init_inv⟩
  | step a _ hstep ih =>
    obtain ⟨wave, steps, hinv⟩ := ih
    exact step_inv hinv a hstep

/-- The state behind some actions. -/
def run (s : WaveSystem n F) : List (WaveAction n F) → Option (WaveSystem n F)
  | [] => some s
  | a :: actions => (s.step a).bind fun s => s.run actions

theorem Reached.run {s s' : WaveSystem n F} (h : Reached s) : ∀ actions : List (WaveAction n F),
    s.run actions = some s' → Reached s' := by
  intro actions
  induction actions generalizing s with
  | nil =>
    intro hrun
    cases hrun
    exact h
  | cons a actions ih =>
    intro hrun
    obtain ⟨s₁, hstep, hrest⟩ := Option.bind_eq_some_iff.mp hrun
    exact ih (Reached.step a h hstep) hrest

omit [DecidableEq F] in
/-- With no message in flight an engine that runs or has a request is not alone. -/
theorem all_running (h : WaveInv s wave steps) (hquiet : s.Quiet) {i : Fin n}
    (hi : (s.engines i).enginesRunning = true ∨ 0 < (s.engines i).unfinished) (j : Fin n) :
    (s.engines j).enginesRunning = true := by
  have hcoordinator : s.coordinator.enginesRunning = true → s.coordinator.currentWave = wave →
      (s.engines j).enginesRunning = true := by
    intro hon hwave
    rcases h.woken hon hwave j with hj | ⟨m, hm, _⟩
    · exact hj
    · rw [hquiet.starts j] at hm
      cases hm
  have hrunning : (s.engines i).enginesRunning = true → (s.engines j).enginesRunning = true := by
    intro hi
    rcases h.running i hi with ⟨hon, hwave⟩ | hasked | hall
    · exact hcoordinator hon hwave
    · rw [hquiet.notices i] at hasked
      cases hasked
    · exact hall j
  rcases hi with hi | hi
  · exact hrunning hi
  · rcases h.unfinished i hi with hi | ⟨hwave, hon | ⟨f, hfirst | hwake⟩⟩
    · exact hrunning hi
    · exact hcoordinator hon hwave
    · exact absurd (hquiet.firstReqs f) hfirst
    · exact absurd (hquiet.wakeUps f) hwake

/-- No lost wake-up: with no message in flight either every engine is paused without requests,
or every engine goes through the loop, all in one wave. -/
theorem no_lost_wake_up (hreached : Reached s) (hquiet : s.Quiet) :
    (∀ i, (s.engines i).unfinished = 0 ∧ (s.engines i).enginesRunning = false)
      ∨ (∀ i, (s.engines i).enginesRunning = true ∨ 0 < (s.engines i).unfinished)
        ∧ ∀ i j, (s.engines i).currentWave = (s.engines j).currentWave := by
  obtain ⟨wave, steps, h⟩ := hreached.inv
  by_cases hsome : ∃ i, (s.engines i).enginesRunning = true ∨ 0 < (s.engines i).unfinished
  · obtain ⟨i, hi⟩ := hsome
    refine Or.inr ⟨fun j => Or.inl (all_running h hquiet hi j), ?_⟩
    intro j k
    exact (h.engineWave j).trans (h.engineWave k).symm
  · refine Or.inl fun i => ⟨?_, ?_⟩
    · by_contra hne
      exact hsome ⟨i, Or.inr (Nat.pos_of_ne_zero hne)⟩
    · apply Bool.eq_false_iff.mpr
      intro hi
      exact hsome ⟨i, Or.inl hi⟩

/-- A first request for engine `0`: the front-end notifies the coordinator, which starts the
wave; with the publication taken nothing is in flight. -/
def firstRequest : List (WaveAction 2 Unit) :=
  [.addRequest () 0, .statsTask () false true 0, .receiveAdd () 0, .coordinate (some ()) none,
    .receiveStart 0, .receiveStart 1, .statsTask () true false 1]

theorem first_request_wakes_all : ∃ s, run (init 2 Unit) firstRequest = some s
    ∧ ((∀ i, (s.engines i).unfinished = 0 ∧ (s.engines i).enginesRunning = false)
      ∨ (∀ i, (s.engines i).enginesRunning = true ∨ 0 < (s.engines i).unfinished)
        ∧ ∀ i j, (s.engines i).currentWave = (s.engines j).currentWave) := by
  refine ⟨_, rfl, no_lost_wake_up (Reached.init.run firstRequest rfl) ?_⟩
  exact {
    firstReqs := fun _ => rfl
    adds := by
      intro f
      cases f
      decide
    wakeUps := fun _ => rfl
    starts := by decide
    notices := by decide
    published := fun _ => rfl }

/-- A wake-up is in flight: a start message for engine `j`, the notice of engine `i`, or a notification of a
front-end. -/
def WakeUpInFlight (s : WaveSystem n F) (i j : Fin n) : Prop :=
  (∃ m ∈ s.starts j, m.1 = (s.engines j).currentWave ∧ m.2.excludes j = false)
    ∨ WaveNotice.startWave (s.engines i).currentWave ∈ s.notices i
    ∨ ∃ f, (s.clients f).firstReqs ≠ [] ∨ s.wakeUps f ≠ []

/-- **In every state**, and not only with no message in flight: where an engine runs or has a request, every
other one runs or its wake-up is in flight. -/
theorem running_or_in_flight (hreached : Reached s) {i : Fin n}
    (hi : (s.engines i).enginesRunning = true ∨ 0 < (s.engines i).unfinished) (j : Fin n) :
    (s.engines j).enginesRunning = true ∨ s.WakeUpInFlight i j := by
  obtain ⟨wave, steps, h⟩ := hreached.inv
  unfold WakeUpInFlight
  rw [h.engineWave i, h.engineWave j]
  by_cases hrun : (s.engines i).enginesRunning = true
  · rcases h.running i hrun with ⟨hon, hwave⟩ | hasked | hall
    · exact (h.woken hon hwave j).imp_right Or.inl
    · exact Or.inr (Or.inr (Or.inl hasked))
    · exact Or.inl (hall j)
  · rcases h.unfinished i (hi.resolve_left hrun) with hrun' | ⟨hwave, hon | hfront⟩
    · exact absurd hrun' hrun
    · exact (h.woken hon hwave j).imp_right Or.inl
    · exact Or.inr (Or.inr (Or.inr hfront))

/-- The first engine has the request before the coordinator knows of it. -/
theorem first_request_in_flight : ∃ s, run (init 2 Unit) (firstRequest.take 3) = some s
    ∧ ((s.engines 1).enginesRunning = true ∨ s.WakeUpInFlight 0 1) :=
  ⟨_, rfl, running_or_in_flight (Reached.init.run (firstRequest.take 3) rfl) (Or.inr (by decide)) 1⟩

end VllmEngine.Distributed.WaveSystem
