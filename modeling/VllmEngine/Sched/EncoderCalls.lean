import VllmEngine.Sched.EncoderSlots
import VllmEngine.Sched.Lora
import VllmEngine.Sched.Offered

/-!
# The calls that reach the encoder cache

Every entry point of the scheduler turns into a sequence of the calls that an
`EncoderRound` allows: `_try_schedule_encoder_inputs` asks for the inputs of one
request and is granted some, the preemptions that follow release inputs of
others, and the granted inputs are allocated or the grant is dropped.

> `tryScheduleEncoderInputs_issued`: the inputs of a plan are those promised,
> `step_encoder`: a call of the scheduler is a sequence of calls of the manager.
-/

set_option linter.unusedSectionVars false

namespace VllmEngine

open EncoderRound

variable {H : Type} [DecidableEq H]

/-- The requests whose features have `Q`. -/
def Request.Featured (Q : MultiModalFeatureSpec → Prop) (r : Request H) : Prop :=
  ∀ f ∈ r.mmFeatures, Q f

/-- Which manager it is, and its size. -/
def EncoderCacheManager.kind (m : EncoderCacheManager) : Bool × Nat :=
  (m.isEncoderDecoder, m.cacheSize)

namespace EncoderRound

variable {P : Request H → Prop}

variable {t u : EncoderRound} {es : List EncoderEvent}

/-- The calls never turn one kind of manager into the other, nor change its
size. -/
theorem Issue.kind (h : Issue P t es u) : u.manager.kind = t.manager.kind := by
  have hevict : ∀ (n : Int) (bound : Nat) (m m' : EncoderCacheManager),
      EncoderCacheManager.evictUntil n bound m = .ok m' →
        m'.kind = m.kind := by
    intro n bound
    induction bound with
    | zero =>
      intro m m' h
      rw [EncoderCacheManager.evictUntil] at h
      split at h
      · cases h
      · rw [Except.ok.inj h]
    | succ bound ih =>
      intro m m' h
      rw [EncoderCacheManager.evictUntil] at h
      split at h
      · split at h
        · cases h
        · split at h
          · rw [ih _ _ h]
            rfl
          · cases h
      · rw [Except.ok.inj h]
  have hcan : ∀ (m m' : EncoderCacheManager) (r : Request H) (i : Nat) (budget : Int) (n : Nat)
      (b : Bool), m.canAllocate r i budget n = .ok (m', b) →
        m'.kind = m.kind := by
    intro m m' r i budget n b h
    unfold EncoderCacheManager.canAllocate at h
    dsimp only at h
    split at h
    · rw [(Prod.mk.inj (Except.ok.inj h)).1]
    · split at h
      · rw [(Prod.mk.inj (Except.ok.inj h)).1]
      · split at h
        · rw [(Prod.mk.inj (Except.ok.inj h)).1]
        · split at h
          · rw [(Prod.mk.inj (Except.ok.inj h)).1]
          · simp only [Raises.bind_eq_ok, Raises.pure_eq_ok] at h
            obtain ⟨m₁, h₁, heq⟩ := h
            rw [← (Prod.mk.inj heq).1, hevict _ _ _ _ h₁]
  cases h with
  | @check m m' ps r i f b hr hf hnew hc =>
    unfold EncoderCacheManager.checkAndUpdateCache at hc
    split at hc
    · rw [(Prod.mk.inj (Except.ok.inj hc)).1]
    · rw [Raises.bind_eq_ok] at hc
      obtain ⟨mmHash, -, hc⟩ := hc
      split at hc
      · rw [(Prod.mk.inj (Except.ok.inj hc)).1]
      · split at hc
        · cases hc
        · rw [← (Prod.mk.inj (Except.ok.inj hc)).1]
          rfl
      · rw [← (Prod.mk.inj (Except.ok.inj hc)).1]
        rfl
  | ask hr hf hnew hc => exact hcan _ _ _ _ _ _ _ hc
  | promise hr hf hnew hc => exact hcan _ _ _ _ _ _ _ hc
  | @allocate m m' ps ps' r i f hr hf hperm ha =>
    unfold EncoderCacheManager.allocate at ha
    rw [Raises.bind_eq_ok] at ha
    obtain ⟨mmHash, -, ha⟩ := ha
    dsimp only at ha
    split at ha
    · rw [← Except.ok.inj ha]
      rfl
    · simp only [Raises.bind_eq_ok, Raises.pure_eq_ok] at ha
      obtain ⟨⟨⟩, -, ⟨⟩, -, rfl⟩ := ha
      rfl
  | drop => rfl
  | @free m ps r i hr =>
    show (m.freeEncoderInput r i).kind = m.kind
    unfold EncoderCacheManager.freeEncoderInput
    dsimp only
    split
    · rfl
    · split
      · rfl
      · split
        · rfl
        · rfl
        · split
          · rfl
          · rfl
  | @takeFreed m ps =>
    show m.getFreedMmHashes.2.kind = m.kind
    unfold EncoderCacheManager.getFreedMmHashes
    split
    · rfl
    · rfl

theorem Issued.kind (h : Issued P t es u) : u.manager.kind = t.manager.kind := by
  induction h with
  | refl => rfl
  | step _ hstep ih => exact hstep.kind.trans ih

theorem Issued.isEncoderDecoder (h : Issued P t es u) :
    u.manager.isEncoderDecoder = t.manager.isEncoderDecoder :=
  congrArg Prod.fst h.kind

theorem Issued.cacheSize (h : Issued P t es u) : u.manager.cacheSize = t.manager.cacheSize :=
  congrArg Prod.snd h.kind

/-- The calls lead from one round to the other. -/
def Calls (P : Request H → Prop) (t u : EncoderRound) : Prop := ∃ es, Issued P t es u

theorem Calls.refl (t : EncoderRound) : Calls P t t := ⟨[], Issued.refl⟩

theorem Calls.trans {v : EncoderRound} (h : Calls P t u) (h' : Calls P u v) : Calls P t v := by
  obtain ⟨es, h⟩ := h
  obtain ⟨es', h'⟩ := h'
  exact ⟨es ++ es', h.trans h'⟩

theorem Calls.single (h : Issue P t es u) : Calls P t u := ⟨es, Issued.single h⟩

theorem Calls.drop (m : EncoderCacheManager) (ps : List (String × Nat)) :
    Calls P ⟨m, ps⟩ ⟨m, []⟩ := Calls.single Issue.drop

theorem Calls.freeInputs {r : Request H} (hr : P r) (ps : List (String × Nat)) (ids : List Nat) :
    ∀ m : EncoderCacheManager, Calls P ⟨m, ps⟩ ⟨m.freeInputs r ids, ps⟩ := by
  induction ids with
  | nil => intro m; exact Calls.refl _
  | cons i ids ih =>
    intro m
    exact (Calls.single (Issue.free hr)).trans (ih (m.freeEncoderInput r i))

theorem Calls.free {r : Request H} (hr : P r) (ps : List (String × Nat))
    (order : List Nat → List Nat) (m : EncoderCacheManager) :
    Calls P ⟨m, ps⟩ ⟨m.free order r, ps⟩ := by
  unfold EncoderCacheManager.free
  split
  · exact Calls.freeInputs hr ps _ m
  · exact Calls.freeInputs hr ps _ m

end EncoderRound

/-! ## Planning the inputs of a request -/

/-- The hash and the size of an input. -/
def inputEntry (features : List MultiModalFeatureSpec) (i : Nat) : Option (String × Nat) :=
  features[i]?.map fun f => (f.identifier, f.mmPosition.getNumEmbeds)

namespace Scheduler

/-- The plan's inputs are those promised. -/
structure Planned (features : List MultiModalFeatureSpec) (ps : List (String × Nat))
    (plan : EncoderPlan) : Prop where
  hashes : plan.mmHashesToSchedule = ps.map Prod.fst
  embeds : plan.numEmbedsToSchedule = numEmbeds ps
  inputs : ((plan.encoderInputsToSchedule ++ plan.externalLoadEncoderInput).map
    (inputEntry features)).Perm (ps.map some)

theorem planned_nothing (features : List MultiModalFeatureSpec) (m : EncoderCacheManager)
    (numNewTokens budget : Int) : Planned features [] (.nothing m numNewTokens budget) :=
  ⟨rfl, rfl, List.Perm.refl _⟩

variable {ps : List (String × Nat)} {plan : EncoderPlan} {r : Request H} {f : MultiModalFeatureSpec}
  {ref : ReqRef} {numComputedTokens : Int} {s s' s₀ : Scheduler H} {p : Pass} {c : ComputedTokens}

theorem Planned.of_manager {features : List MultiModalFeatureSpec} (h : Planned features ps plan)
    (m : EncoderCacheManager) :
    Planned features ps { plan with manager := m } := ⟨h.hashes, h.embeds, h.inputs⟩

variable {cfg : SchedulerConfig H} {env : ScheduleEnv} {P : Request H → Prop}

/-- An input that is not ready is neither promised nor cached. -/
theorem encoderInputReady_issued {i : Nat} {m : EncoderCacheManager} {b : Bool} (hr : P r)
    (hf : r.mmFeatures[i]? = some f) (hflag : plan.manager.isEncoderDecoder = cfg.isEncoderDecoder)
    (hplan : Planned r.mmFeatures ps plan) (h : encoderInputReady cfg r i f plan = .ok (m, b)) :
    Calls P ⟨plan.manager, ps⟩ ⟨m, ps⟩ ∧ m.isEncoderDecoder = cfg.isEncoderDecoder ∧
      (b = false → m.isEncoderDecoder = false →
        f.identifier ∉ ps.map Prod.fst ∧ m.cached.get? f.identifier = none) := by
  unfold encoderInputReady at h
  split at h
  next hcfg =>
    obtain ⟨rfl, -⟩ := Prod.mk.inj (Except.ok.inj h)
    refine ⟨Calls.refl _, hflag, fun _ hm => ?_⟩
    rw [hflag, hcfg] at hm
    cases hm
  next hcfg =>
    split at h
    · obtain ⟨rfl, rfl⟩ := Prod.mk.inj (Except.ok.inj h)
      exact ⟨Calls.refl _, hflag, fun hb => (nomatch hb)⟩
    next hnew =>
      rw [hplan.hashes] at hnew
      have hcheck : Issue P ⟨plan.manager, ps⟩ [] ⟨m, ps⟩ := Issue.check hr hf hnew h
      refine ⟨Calls.single hcheck, (congrArg Prod.fst hcheck.kind).trans hflag, fun hb _ => ⟨hnew, ?_⟩⟩
      unfold EncoderCacheManager.checkAndUpdateCache at h
      have hhash : r.mmHash i = .ok f.identifier := by
        unfold Request.mmHash
        rw [hf]
      rw [if_neg (by rw [hflag]; exact hcfg), hhash, Raises.ok_bind] at h
      split at h
      next hnone =>
        obtain ⟨rfl, -⟩ := Prod.mk.inj (Except.ok.inj h)
        exact hnone
      · split at h
        · cases h
        · rw [hb] at h
          cases (Prod.mk.inj (Except.ok.inj h)).2
      · rw [hb] at h
        cases (Prod.mk.inj (Except.ok.inj h)).2

/-- The end of the loop body: ask, and perhaps promise. -/
theorem scheduleEncoderInput_issued {i : Nat} {plan' : EncoderPlan} {stop : Bool} (hr : P r)
    (hf : r.mmFeatures[i]? = some f)
    (hnew : plan.manager.isEncoderDecoder = false → f.identifier ∉ ps.map Prod.fst ∧ plan.manager.cached.get? f.identifier = none)
    (hplan : Planned r.mmFeatures ps plan)
    (h : scheduleEncoderInput cfg env ref r numComputedTokens i f plan = .ok (plan', stop)) :
    ∃ ps', Calls P ⟨plan.manager, ps⟩ ⟨plan'.manager, ps'⟩ ∧ Planned r.mmFeatures ps' plan' := by
  unfold scheduleEncoderInput at h
  dsimp only at h
  rw [Raises.bind_eq_ok] at h
  obtain ⟨⟨m, fits⟩, hcan, h⟩ := h
  rw [hplan.embeds] at hcan
  have hask : Calls P ⟨plan.manager, ps⟩ ⟨m, ps⟩ := Calls.single (Issue.ask hr hf hnew hcan)
  dsimp only at h
  split at h
  · split at h
    · obtain ⟨rfl, -⟩ := Prod.mk.inj (Except.ok.inj h)
      exact ⟨ps, hask, hplan.hashes, hplan.embeds, hplan.inputs⟩
    · obtain ⟨rfl, -⟩ := Prod.mk.inj (Except.ok.inj h)
      exact ⟨ps, hask, hplan.hashes, hplan.embeds, hplan.inputs⟩
  next hfits =>
    have hfits : fits = true := by simpa using hfits
    rw [hfits] at hcan
    have hpromise : Calls P ⟨plan.manager, ps⟩
        ⟨m, ps ++ [(f.identifier, f.mmPosition.getNumEmbeds)]⟩ :=
      Calls.single (Issue.promise hr hf hnew hcan)
    have hhashes : plan.mmHashesToSchedule ++ [f.identifier]
        = (ps ++ [(f.identifier, f.mmPosition.getNumEmbeds)]).map Prod.fst := by
      rw [hplan.hashes, List.map_append]
      rfl
    have hembeds : plan.numEmbedsToSchedule + f.mmPosition.getNumEmbeds
        = numEmbeds (ps ++ [(f.identifier, f.mmPosition.getNumEmbeds)]) := by
      rw [numEmbeds_append, hplan.embeds]
    have hentry : inputEntry r.mmFeatures i
        = some (f.identifier, f.mmPosition.getNumEmbeds) := by
      unfold inputEntry
      rw [hf]
      rfl
    -- the new input goes to one of the two lists
    have hinputs : ∀ l : List Nat,
        l.Perm (i :: (plan.encoderInputsToSchedule ++ plan.externalLoadEncoderInput)) →
        (l.map (inputEntry r.mmFeatures)).Perm
          ((ps ++ [(f.identifier, f.mmPosition.getNumEmbeds)]).map some) := by
      intro l hl
      refine (hl.map _).trans ?_
      rw [List.map_cons, hentry, List.map_append (f := some)]
      exact (List.Perm.cons _ hplan.inputs).trans
        (List.perm_append_singleton _ (ps.map some)).symm
    split at h
    · obtain ⟨rfl, -⟩ := Prod.mk.inj (Except.ok.inj h)
      exact ⟨ps, hask, hplan.hashes, hplan.embeds, hplan.inputs⟩
    · split at h
      · obtain ⟨rfl, -⟩ := Prod.mk.inj (Except.ok.inj h)
        refine ⟨_, hpromise, hhashes, hembeds, hinputs _ ?_⟩
        dsimp only
        rw [← List.append_assoc]
        exact List.perm_append_singleton i _
      · obtain ⟨rfl, -⟩ := Prod.mk.inj (Except.ok.inj h)
        refine ⟨_, hpromise, hhashes, hembeds, hinputs _ ?_⟩
        dsimp only
        rw [List.append_assoc]
        exact List.perm_middle

theorem visitEncoderInput_issued {i : Nat} {plan' : EncoderPlan} {stop : Bool} (hr : P r)
    (hf : r.mmFeatures[i]? = some f) (hflag : plan.manager.isEncoderDecoder = cfg.isEncoderDecoder)
    (hplan : Planned r.mmFeatures ps plan)
    (h : visitEncoderInput cfg env ref r numComputedTokens i f plan = .ok (plan', stop)) :
    ∃ ps', Calls P ⟨plan.manager, ps⟩ ⟨plan'.manager, ps'⟩ ∧ Planned r.mmFeatures ps' plan' := by
  unfold visitEncoderInput at h
  dsimp only at h
  split at h
  · obtain ⟨rfl, -⟩ := Prod.mk.inj (Except.ok.inj h)
    exact ⟨ps, Calls.refl _, hplan⟩
  · split at h
    · simp only [Raises.bind_eq_ok, Raises.pure_eq_ok] at h
      obtain ⟨⟨⟩, -, heq⟩ := h
      obtain ⟨rfl, -⟩ := Prod.mk.inj heq
      exact ⟨ps, Calls.refl _, hplan⟩
    · split at h
      · obtain ⟨rfl, -⟩ := Prod.mk.inj (Except.ok.inj h)
        exact ⟨ps, Calls.refl _, hplan⟩
      · rw [Raises.bind_eq_ok] at h
        obtain ⟨⟨m, ready⟩, hready, h⟩ := h
        obtain ⟨hcalls, -, hnew⟩ := encoderInputReady_issued hr hf hflag hplan hready
        dsimp only at h
        split at h
        · obtain ⟨rfl, -⟩ := Prod.mk.inj (Except.ok.inj h)
          exact ⟨ps, hcalls, hplan.of_manager m⟩
        next hnot =>
          split at h
          · obtain ⟨rfl, -⟩ := Prod.mk.inj (Except.ok.inj h)
            exact ⟨ps, hcalls, hplan.hashes, hplan.embeds, hplan.inputs⟩
          · obtain ⟨ps', hrest, hplan'⟩ := scheduleEncoderInput_issued hr hf
              (hnew (Bool.eq_false_iff.mpr hnot)) (hplan.of_manager m) h
            exact ⟨ps', hcalls.trans hrest, hplan'⟩

/-- The loop over the features. The induction is on those that are left. -/
theorem encoderInputLoop_issued (hr : P r) :
    ∀ (fs : List MultiModalFeatureSpec) (i : Nat) (plan plan' : EncoderPlan)
      (ps : List (String × Nat)), r.mmFeatures.drop i = fs →
      plan.manager.isEncoderDecoder = cfg.isEncoderDecoder → Planned r.mmFeatures ps plan →
      encoderInputLoop cfg env ref r numComputedTokens i fs plan = .ok plan' →
      ∃ ps', Calls P ⟨plan.manager, ps⟩ ⟨plan'.manager, ps'⟩ ∧ Planned r.mmFeatures ps' plan' := by
  intro fs
  induction fs with
  | nil =>
    intro i plan plan' ps _ _ hplan h
    obtain rfl := Except.ok.inj h
    exact ⟨ps, Calls.refl _, hplan⟩
  | cons f fs ih =>
    intro i plan plan' ps hdrop hflag hplan h
    rw [encoderInputLoop, Raises.bind_eq_ok] at h
    obtain ⟨⟨plan₁, stop⟩, hvisit, h⟩ := h
    have hf : r.mmFeatures[i]? = some f := by
      have hhead := List.head?_drop (l := r.mmFeatures) (i := i)
      rw [hdrop] at hhead
      exact hhead.symm
    obtain ⟨ps₁, hcalls, hplan₁⟩ := visitEncoderInput_issued hr hf hflag hplan hvisit
    dsimp only at h
    split at h
    · obtain rfl := Except.ok.inj h
      exact ⟨ps₁, hcalls, hplan₁⟩
    · have hflag₁ : plan₁.manager.isEncoderDecoder = cfg.isEncoderDecoder := by
        obtain ⟨es, hes⟩ := hcalls
        exact hes.isEncoderDecoder.trans hflag
      have hdrop₁ : r.mmFeatures.drop (i + 1) = fs := by
        rw [← List.tail_drop, hdrop]
        rfl
      obtain ⟨ps', hrest, hplan'⟩ := ih (i + 1) plan₁ plan' ps₁ hdrop₁ hflag₁ hplan₁ h
      exact ⟨ps', hcalls.trans hrest, hplan'⟩

/-- **`_try_schedule_encoder_inputs`**: the inputs of the plan are promised. -/
theorem tryScheduleEncoderInputs_issued {numNewTokens budget : Int} (hr : P (s.obj ref))
    (hflag : s.encoderCacheManager.isEncoderDecoder = cfg.isEncoderDecoder)
    (h : s.tryScheduleEncoderInputs cfg env ref numComputedTokens numNewTokens budget = .ok plan) :
    ∃ ps, Calls P ⟨s.encoderCacheManager, []⟩ ⟨plan.manager, ps⟩ ∧
      Planned (s.obj ref).mmFeatures ps plan := by
  unfold tryScheduleEncoderInputs at h
  dsimp only at h
  split at h
  · obtain rfl := Except.ok.inj h
    exact ⟨[], Calls.refl _, planned_nothing _ _ _ _⟩
  · exact encoderInputLoop_issued hr _ 0 _ plan [] List.drop_zero hflag
      (planned_nothing _ _ _ _) h

/-! ## Allocating the inputs of a plan -/

/-- Promised inputs are allocated one by one. The induction is on them. -/
theorem allocateInputs_issued (hr : P r) :
    ∀ (inputs : List Nat) (m m' : EncoderCacheManager) (ps : List (String × Nat))
      (rest : List (Option (String × Nat))),
      (ps.map some).Perm (inputs.map (inputEntry r.mmFeatures) ++ rest) →
      inputs.foldlM (fun m i => m.allocate r i) m = .ok m' →
      ∃ ps', (ps'.map some).Perm rest ∧ Calls P ⟨m, ps⟩ ⟨m', ps'⟩ := by
  intro inputs
  induction inputs with
  | nil =>
    intro m m' ps rest hperm h
    obtain rfl := Raises.foldlM_nil_ok.mp h
    exact ⟨ps, hperm, Calls.refl _⟩
  | cons i inputs ih =>
    intro m m' ps rest hperm h
    obtain ⟨m₁, h₁, h₂⟩ := Raises.foldlM_cons_ok.mp h
    have hmem : inputEntry r.mmFeatures i ∈ ps.map some := by
      rw [hperm.mem_iff, List.map_cons, List.cons_append]
      exact List.mem_cons_self
    obtain ⟨e, he, hentry⟩ := List.mem_map.mp hmem
    -- the entry is the one of a feature
    obtain ⟨f, hf, rfl⟩ : ∃ f, r.mmFeatures[i]? = some f ∧
        (f.identifier, f.mmPosition.getNumEmbeds) = e := by
      unfold inputEntry at hentry
      obtain ⟨f, hf, heq⟩ := Option.map_eq_some_iff.mp hentry.symm
      exact ⟨f, hf, heq⟩
    have hsplit := List.perm_cons_erase he
    have hrest : ((ps.erase (f.identifier, f.mmPosition.getNumEmbeds)).map some).Perm
        (inputs.map (inputEntry r.mmFeatures) ++ rest) := by
      have hboth := ((hsplit.map some).symm.trans hperm)
      rw [List.map_cons, List.map_cons, ← hentry, List.cons_append] at hboth
      exact hboth.cons_inv
    obtain ⟨ps', hps', hcalls⟩ := ih m₁ m' _ rest hrest h₂
    exact ⟨ps', hps', (Calls.single (Issue.allocate hr hf hsplit h₁)).trans hcalls⟩

/-- **The inputs of a plan** are allocated, first those to compute, then those
to load. -/
theorem commitInputs_issued {s₁ s₂ : Scheduler H} {p₁ : Pass}
    {features : List MultiModalFeatureSpec} (hr : P (s.obj ref))
    (hfeatures : (s.obj ref).mmFeatures = features) (hplan : Planned features ps plan)
    (h₁ : s.commitEncoderInputs p ref plan = .ok (s₁, p₁))
    (h₂ : s₁.allocateEncoderInputs ref plan.externalLoadEncoderInput = .ok s₂) :
    Calls P ⟨s.encoderCacheManager, ps⟩ ⟨s₂.encoderCacheManager, []⟩ := by
  subst hfeatures
  have hinputs := hplan.inputs
  rw [List.map_append] at hinputs
  obtain ⟨ps₁, hps₁, hcalls₁⟩ : ∃ ps₁,
      (ps₁.map some).Perm (plan.externalLoadEncoderInput.map (inputEntry (s.obj ref).mmFeatures)) ∧
        Calls P ⟨s.encoderCacheManager, ps⟩ ⟨s₁.encoderCacheManager, ps₁⟩ := by
    unfold commitEncoderInputs at h₁
    split at h₁
    · simp only [Raises.bind_eq_ok, Raises.pure_eq_ok] at h₁
      obtain ⟨t, ht, heq⟩ := h₁
      obtain ⟨rfl, -⟩ := Prod.mk.inj heq
      unfold allocateEncoderInputs at ht
      simp only [Raises.bind_eq_ok, Raises.pure_eq_ok] at ht
      obtain ⟨m, hm, rfl⟩ := ht
      exact allocateInputs_issued hr _ _ m ps _ hinputs.symm hm
    next hnil =>
      obtain ⟨rfl, -⟩ := Prod.mk.inj (Except.ok.inj h₁)
      have hnil : plan.encoderInputsToSchedule = [] := Classical.not_not.mp hnil
      rw [hnil, List.map_nil, List.nil_append] at hinputs
      exact ⟨ps, hinputs.symm, Calls.refl _⟩
  have hobj : s₁.obj = s.obj := (commitEncoderInputs_effect h₁).1.obj
  unfold allocateEncoderInputs at h₂
  simp only [Raises.bind_eq_ok, Raises.pure_eq_ok] at h₂
  obtain ⟨m, hm, rfl⟩ := h₂
  rw [hobj] at hm
  rw [← List.append_nil (plan.externalLoadEncoderInput.map _)] at hps₁
  obtain ⟨ps₂, -, hcalls₂⟩ := allocateInputs_issued hr _ _ m ps₁ [] hps₁ hm
  exact (hcalls₁.trans hcalls₂).trans (Calls.drop m ps₂)

/-! ## Steps of the scheduler -/

/-- All features of all requests have `Q`. -/
def Offered (Q : MultiModalFeatureSpec → Prop) (s : Scheduler H) : Prop :=
  ∀ r, (s.obj r).Offers Q

/-- A step that makes no new features and only the calls of a round. -/
structure EncoderStep (Q : MultiModalFeatureSpec → Prop) (s s' : Scheduler H) : Prop where
  offered : Offered Q s → Offered Q s'
  calls : Offered Q s → Calls (Request.Featured Q (H := H)) ⟨s.encoderCacheManager, []⟩
    ⟨s'.encoderCacheManager, []⟩

variable {Q : MultiModalFeatureSpec → Prop}

theorem EncoderStep.refl (s : Scheduler H) : EncoderStep Q s s := ⟨id, fun _ => Calls.refl _⟩

theorem EncoderStep.trans {s'' : Scheduler H} (h : EncoderStep Q s s') (h' : EncoderStep Q s' s'') :
    EncoderStep Q s s'' :=
  ⟨fun hs => h'.offered (h.offered hs), fun hs => (h.calls hs).trans (h'.calls (h.offered hs))⟩

/-- The manager is left alone, and the requests bring what they brought. -/
theorem EncoderStep.of_same (hm : s'.encoderCacheManager = s.encoderCacheManager)
    (ho : ∀ r, (s.obj r).Offers Q → (s'.obj r).Offers Q) : EncoderStep Q s s' :=
  ⟨fun hs r => ho r (hs r), fun _ => by rw [hm]; exact Calls.refl _⟩

theorem EncoderStep.of_eq (hm : s'.encoderCacheManager = s.encoderCacheManager)
    (ho : s'.obj = s.obj) :
    EncoderStep Q s s' := EncoderStep.of_same hm fun r hr => by rw [ho]; exact hr

theorem EncoderStep.modify (s : Scheduler H) (ref : ReqRef) {f : Request H → Request H}
    (hf : (s.obj ref).Offers Q → (f (s.obj ref)).Offers Q) :
    EncoderStep Q s (s.modify ref f) := by
  refine EncoderStep.of_same rfl fun r hr => ?_
  by_cases href : r = ref
  · rw [href, modify_obj_self]
    exact hf (href ▸ hr)
  · rw [modify_obj_ne s f href]
    exact hr

theorem Offered.sameFixed (h : Offered Q s) (hs : SameFixed s s') :
    Offered Q s' := fun r => (h r).of_fixed (hs r)

theorem freeEncoder_step (s : Scheduler H) (ref : ReqRef) :
    EncoderStep Q s (s.freeEncoder cfg ref) :=
  ⟨id, fun hs => Calls.free (hs ref).features [] _ _⟩

/-! ### `schedule` -/

theorem preemptRequest_step (h : s.preemptRequest cfg ref = .ok s') : EncoderStep Q s s' := by
  unfold preemptRequest at h
  simp only [Raises.bind_eq_ok, Raises.pure_eq_ok] at h
  obtain ⟨⟨⟩, -, kv, -, rfl⟩ := h
  have hkv : EncoderStep Q s { s with kvCacheManager := kv } := EncoderStep.of_eq rfl rfl
  have hfree := hkv.trans (freeEncoder_step _ ref : EncoderStep Q _ (freeEncoder cfg _ ref))
  refine (hfree.trans (EncoderStep.modify _ ref (f := resetForPreemption) fun hr => ?_)).trans
    (EncoderStep.of_eq rfl rfl)
  exact hr.of_eq rfl rfl

/-- A preemption while inputs are promised. -/
theorem preemptVictim_calls {p' : Pass} {victim : ReqRef} (ps : List (String × Nat))
    (hs : Offered Q s) (h : s.preemptVictim cfg p = .ok (s', p', victim)) :
    Calls (Request.Featured Q (H := H)) ⟨s.encoderCacheManager, ps⟩
      ⟨s'.encoderCacheManager, ps⟩ := by
  unfold preemptVictim at h
  simp only [Raises.bind_eq_ok, Raises.pure_eq_ok] at h
  obtain ⟨⟨v, rest⟩, -, p₁, -, s₁, hpre, heq⟩ := h
  simp only [Prod.mk.injEq] at heq
  obtain ⟨rfl, -, rfl⟩ := heq
  unfold preemptRequest at hpre
  simp only [Raises.bind_eq_ok, Raises.pure_eq_ok] at hpre
  obtain ⟨⟨⟩, -, kv, -, rfl⟩ := hpre
  exact Calls.free (hs v).features ps _ _

/-- The state between the rounds of the passes: reached from `s₀` by calls. -/
structure Between (cfg : SchedulerConfig H) (Q : MultiModalFeatureSpec → Prop) (s₀ s : Scheduler H)
    (ps : List (String × Nat)) : Prop where
  offered : Offered Q s
  flag : s.encoderCacheManager.isEncoderDecoder = cfg.isEncoderDecoder
  calls : Calls (Request.Featured Q (H := H)) ⟨s₀.encoderCacheManager, []⟩
    ⟨s.encoderCacheManager, ps⟩

theorem Between.next {ps' : List (String × Nat)} (h : Between cfg Q s₀ s ps) (ho : Offered Q s')
    (hc : Calls (Request.Featured Q (H := H)) ⟨s.encoderCacheManager, ps⟩ ⟨s'.encoderCacheManager, ps'⟩) :
    Between cfg Q s₀ s' ps' := by
  refine ⟨ho, ?_, h.calls.trans hc⟩
  obtain ⟨es, hes⟩ := hc
  exact hes.isEncoderDecoder.trans h.flag

theorem Between.same (h : Between cfg Q s₀ s ps)
    (hm : s'.encoderCacheManager = s.encoderCacheManager) (ho : SameFixed s s') :
    Between cfg Q s₀ s' ps :=
  h.next (h.offered.sameFixed ho) (by rw [hm]; exact Calls.refl _)

theorem Between.drop (h : Between cfg Q s₀ s ps) : Between cfg Q s₀ s [] :=
  h.next h.offered (Calls.drop _ ps)

/-- The inputs of `plan` are promised to `ref`. -/
def Granted (cfg : SchedulerConfig H) (Q : MultiModalFeatureSpec → Prop) (s₀ : Scheduler H)
    (ref : ReqRef) (plan : EncoderPlan) (s : Scheduler H) : Prop :=
  ∃ ps, Between cfg Q s₀ s ps ∧ Planned (s.obj ref).mmFeatures ps plan

theorem Granted.drop (h : Granted cfg Q s₀ ref plan s) : Between cfg Q s₀ s [] := by
  obtain ⟨ps, hb, -⟩ := h
  exact hb.drop

theorem SameFixed.features (h : SameFixed s s') (r : ReqRef) :
    (s'.obj r).mmFeatures = (s.obj r).mmFeatures := by
  have hm : (s'.obj r).fixed.mmFeatures = (s.obj r).fixed.mmFeatures := by rw [h r]
  exact hm

theorem planRunning_granted {n : Int} (hb : Between cfg Q s₀ s [])
    (h : s.planRunning cfg env p ref = .ok (s', n, plan)) : Granted cfg Q s₀ ref plan s' := by
  unfold planRunning at h
  simp only [Raises.bind_eq_ok, Raises.pure_eq_ok] at h
  obtain ⟨plan', hplan, n', -, heq⟩ := h
  simp only [Prod.mk.injEq] at heq
  obtain ⟨rfl, rfl, rfl⟩ := heq
  obtain ⟨ps, hcalls, hplanned⟩ :=
    tryScheduleEncoderInputs_issued (P := Request.Featured Q) (hb.offered ref).features hb.flag hplan
  exact ⟨ps, hb.next hb.offered hcalls, hplanned⟩

theorem encoder_runningRule (s₀ : Scheduler H) : RunningRule cfg env
    (fun s _ => Between cfg Q s₀ s []) (fun ref _ plan s _ => Granted cfg Q s₀ ref plan s) where
  reached := fun s p ref hI _ _ _ => hI
  zero := fun s p ref s' plan hI _ _ _ h => (planRunning_granted hI h).drop
  plan := fun s p ref s' n plan hI _ _ _ h _ => planRunning_granted hI h
  preempt := fun ref n plan s p kv s' p' victim hJ _ h _ => by
    obtain ⟨ps, hb, hplanned⟩ := hJ
    have heff := preemptVictim_effect h
    have hfixed : SameFixed { s with kvCacheManager := kv } s' := SameFixed.of_update heff.obj rfl
    have hcalls := preemptVictim_calls (s := { s with kvCacheManager := kv }) ps hb.offered h
    refine ⟨ps, hb.next (hb.offered.sameFixed hfixed) hcalls, ?_⟩
    rw [hfixed.features ref]
    exact hplanned
  preemptSelf := fun ref n plan s p kv s' p' hJ _ h => by
    obtain ⟨ps, hb, -⟩ := hJ
    have heff := preemptVictim_effect h
    have hfixed : SameFixed { s with kvCacheManager := kv } s' := SameFixed.of_update heff.obj rfl
    have hcalls := preemptVictim_calls (s := { s with kvCacheManager := kv }) ps hb.offered h
    exact (hb.next (hb.offered.sameFixed hfixed) hcalls).drop
  commit := fun ref n plan s p kv blocks s' p' hJ _ h => by
    obtain ⟨ps, hb, hplanned⟩ := hJ
    have hfixed : SameFixed s s' := SameFixed.of_update (commitRunning_effect h).obj rfl
    unfold commitRunning at h
    simp only [Raises.bind_eq_ok, Raises.pure_eq_ok] at h
    obtain ⟨⟨s₁, p₁⟩, h₁, s₂, h₂, heq⟩ := h
    obtain ⟨rfl, -⟩ := Prod.mk.inj heq
    rw [commitSpecTokens_obj] at h₁
    refine hb.next (hb.offered.sameFixed hfixed) ?_
    refine commitInputs_issued (s := Scheduler.modify { s with kvCacheManager := kv } ref _) ?_ ?_
      hplanned h₁ h₂
    · rw [modify_obj_self]
      exact (hb.offered ref).features
    · rw [modify_obj_self]

/-! ### Waiting requests -/

theorem planWaiting_granted {res : Option EncoderPlan} (hb : Between cfg Q s₀ s [])
    (h : s.planWaiting cfg env p ref c = .ok (s', res)) :
    Between cfg Q s₀ s' [] ∧ ∀ plan, res = some plan → Granted cfg Q s₀ ref plan s' := by
  unfold planWaiting at h
  dsimp only at h
  split at h
  · simp only [Raises.bind_eq_ok, Raises.pure_eq_ok] at h
    obtain ⟨⟨⟩, -, heq⟩ := h
    obtain ⟨rfl, rfl⟩ := Prod.mk.inj heq
    refine ⟨hb, fun plan hplan => ?_⟩
    obtain rfl := Option.some.inj hplan
    exact ⟨[], hb, planned_nothing _ _ _ _⟩
  · split at h
    · obtain ⟨rfl, rfl⟩ := Prod.mk.inj (Except.ok.inj h)
      exact ⟨hb, fun plan hplan => by cases hplan⟩
    · simp only [Raises.bind_eq_ok, Raises.pure_eq_ok] at h
      obtain ⟨⟨⟩, -, plan, hplan, heq⟩ := h
      obtain ⟨rfl, rfl⟩ := Prod.mk.inj heq
      obtain ⟨ps, hcalls, hplanned⟩ := tryScheduleEncoderInputs_issued (P := Request.Featured Q)
        (hb.offered ref).features hb.flag hplan
      have hnext : Between cfg Q s₀ { s with encoderCacheManager := plan.manager } ps :=
        hb.next hb.offered hcalls
      refine ⟨hnext.drop, fun plan' hplan' => ?_⟩
      split at hplan'
      · cases hplan'
      · obtain rfl := Option.some.inj hplan'
        exact ⟨ps, hnext, hplanned⟩

theorem dropEncoder_calls (s : Scheduler H) (ref : ReqRef) (ps : List (String × Nat))
    (hs : Offered Q s) : Calls (Request.Featured Q (H := H)) ⟨s.encoderCacheManager, ps⟩
      ⟨(s.dropEncoder cfg ref).encoderCacheManager, ps⟩ := by
  unfold dropEncoder
  split
  · exact Calls.free (hs ref).features ps _ _
  · exact Calls.refl _

theorem reserveWaiting_between {a : KVCacheManager.SlotArgs} {b : Bool} (hb : Between cfg Q s₀ s ps)
    (h : s.reserveWaiting cfg ref a = .ok (s', b)) : Between cfg Q s₀ s' ps := by
  have hfixed : SameFixed s s' := by
    have heff := reserveWaiting_effect h
    exact fun r => by rw [heff.2.1]
  refine hb.next (hb.offered.sameFixed hfixed) ?_
  unfold reserveWaiting at h
  rw [Raises.bind_eq_ok] at h
  obtain ⟨tooLong, -, h⟩ := h
  split at h
  · obtain ⟨rfl, -⟩ := Prod.mk.inj (Except.ok.inj h)
    exact dropEncoder_calls s ref ps hb.offered
  · rw [Raises.bind_eq_ok] at h
    obtain ⟨⟨kv, newBlocks⟩, -, h⟩ := h
    dsimp only at h
    split at h
    · obtain ⟨rfl, -⟩ := Prod.mk.inj (Except.ok.inj h)
      exact dropEncoder_calls { s with kvCacheManager := kv } ref ps hb.offered
    · obtain ⟨rfl, -⟩ := Prod.mk.inj (Except.ok.inj h)
      exact Calls.refl _

theorem prepareWaiting_granted {res : Option (Int × EncoderPlan)} (hb : Between cfg Q s₀ s [])
    (h : s.prepareWaiting cfg env p ref c = .ok (s', res)) :
    Between cfg Q s₀ s' [] ∧ ∀ n plan, res = some (n, plan) → Granted cfg Q s₀ ref plan s' := by
  unfold prepareWaiting at h
  rw [Raises.bind_eq_ok] at h
  obtain ⟨⟨s₁, plan⟩, hplan, h⟩ := h
  obtain ⟨hb₁, hgranted⟩ := planWaiting_granted hb hplan
  cases plan with
  | none =>
    obtain ⟨rfl, rfl⟩ := Prod.mk.inj (Except.ok.inj h)
    exact ⟨hb₁, fun n plan hres => (nomatch hres)⟩
  | some plan =>
    dsimp only at h
    rw [Raises.bind_eq_ok] at h
    obtain ⟨aligned, -, h⟩ := h
    cases aligned with
    | none =>
      obtain ⟨rfl, rfl⟩ := Prod.mk.inj (Except.ok.inj h)
      exact ⟨hb₁, fun n plan hres => (nomatch hres)⟩
    | some n =>
      simp only [Raises.bind_eq_ok, Raises.pure_eq_ok] at h
      obtain ⟨⟨s₂, b⟩, hres, heq⟩ := h
      obtain ⟨rfl, rfl⟩ := Prod.mk.inj heq
      obtain ⟨ps, hb₂, hplanned⟩ := hgranted plan rfl
      have hb₃ := reserveWaiting_between hb₂ hres
      refine ⟨hb₃.drop, fun n' plan' hsome => ?_⟩
      split at hsome
      · simp only [Option.some.injEq, Prod.mk.injEq] at hsome
        obtain ⟨-, rfl⟩ := hsome
        refine ⟨ps, hb₃, ?_⟩
        rw [(reserveWaiting_effect hres).2.1]
        exact hplanned
      · cases hsome

theorem commitWaiting_between {p' : Pass} {n : Int} (hg : Granted cfg Q s₀ ref plan s)
    (h : s.commitWaiting cfg p ref c n plan = .ok (s', p')) : Between cfg Q s₀ s' [] := by
  obtain ⟨ps, hb, hplanned⟩ := hg
  have hfixed : SameFixed s s' := SameFixed.of_update (commitWaiting_effect h).obj rfl
  unfold commitWaiting at h
  simp only [Raises.bind_eq_ok, Raises.pure_eq_ok] at h
  obtain ⟨p₁, -, ⟨s₂, p₂⟩, h₁, s₃, h₂, heq⟩ := h
  obtain ⟨rfl, -⟩ := Prod.mk.inj heq
  refine hb.next (hb.offered.sameFixed hfixed) ?_
  refine commitInputs_issued
    (s := Scheduler.modify { s with running := s.running ++ [ref] } ref _) ?_ ?_ hplanned h₁ h₂
  · rw [modify_obj_self]
    exact (hb.offered ref).features
  · rw [modify_obj_self]

theorem setQueue_encoder (s : Scheduler H) (rest : RequestQueue) (q : WaitingQueue) :
    (s.setQueue rest q).encoderCacheManager = s.encoderCacheManager := by
  cases q with
  | waiting => rfl
  | skippedWaiting => rfl

theorem takeWaiting_between {p' : Pass} {q : WaitingQueue} {n : Int}
    (hpeek : RequestQueue.peekRequest cfg.policy (s.queue q) = .ok ref)
    (hg : Granted cfg Q s₀ ref plan s) (h : s.takeWaiting cfg p q c n plan = .ok (s', p')) :
    Between cfg Q s₀ s' [] := by
  unfold takeWaiting at h
  rw [Raises.bind_eq_ok] at h
  obtain ⟨⟨r, rest⟩, hpop, h⟩ := h
  obtain ⟨hpeek', -⟩ := RequestQueue.popRequest_ok hpop
  obtain rfl := Except.ok.inj (hpeek'.symm.trans hpeek)
  have hfixed : SameFixed s (s.setQueue rest q) := fun x => by rw [setQueue_obj]
  have hg' : Granted cfg Q s₀ r plan (s.setQueue rest q) := by
    obtain ⟨ps, hb, hplanned⟩ := hg
    refine ⟨ps, hb.same (setQueue_encoder s rest q) hfixed, ?_⟩
    rw [hfixed.features r]
    exact hplanned
  dsimp only at h
  split at h
  · obtain ⟨rfl, -⟩ := Prod.mk.inj (Except.ok.inj h)
    refine hg'.drop.same rfl ?_
    exact (Touched.modify _ r rfl).sameFixed.trans (Touched.modify _ r rfl).sameFixed
  · exact commitWaiting_between hg' h

theorem encoder_waitingRule (s₀ : Scheduler H) : WaitingRule cfg env
    (fun s _ => Between cfg Q s₀ s []) where
  skip := fun s p q ref round s₁ s' p' hI _ hex h => by
    obtain ⟨r, rest, -, -, rfl, -⟩ := skipRequest_effect h
    have ht := (examineWaiting_effect hex).1
    have hfixed : SameFixed s₁ (s₁.setQueue rest q) := fun x => by rw [setQueue_obj]
    exact (hI.same ht.encoder ht.sameFixed).same
      (setQueue_encoder s₁ rest q) hfixed
  stop := fun s p q ref round s₁ c s' hI _ hex h => by
    have ht := (examineWaiting_effect hex).1
    exact (prepareWaiting_granted (hI.same ht.encoder ht.sameFixed) h).1
  take := fun s p q ref round s₁ c s₂ n plan s' p' hI hp hex hprep h => by
    have ht := (examineWaiting_effect hex).1
    have hb₁ := hI.same ht.encoder ht.sameFixed
    have hg := (prepareWaiting_granted hb₁ hprep).2 n plan rfl
    refine takeWaiting_between ?_ hg h
    rw [(prepareWaiting_effect hprep).1.queue q, ht.queues.queue q]
    exact hp.peek

end Scheduler

end VllmEngine
