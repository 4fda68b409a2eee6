import VllmEngine.Sched.Effects
import VllmEngine.Sched.Update

/-!
# Who the running pass considers

The running pass goes through `self.running` by an index while preemptions take requests out
of the list. Under the priority policy the victim can stand anywhere. The index is moved back
only for a victim that was scheduled in this call, so a victim in front of the index that was
skipped (its tokens are in flight, or no tokens are left for it) moves the requests behind it
under the index, and the one after the current request is passed over.

> `visitsEveryone_of_spares`: where no preemption takes a skipped request in front of the
> index, the pass considers every request once that is not preempted, or ends early.

`passLog` is the pass with a record of the requests that it considers.
-/

set_option linter.unusedSectionVars false

namespace VllmEngine

open List

variable {H : Type} [DecidableEq H]

namespace Scheduler

/-! ## The record -/

/-- The requests that the pass considers, in order, and whether it ends because the current
request was preempted. -/
def passLog (cfg : SchedulerConfig H) (env : ScheduleEnv) :
    Nat → Scheduler H → Pass → List ReqRef × Bool
  | 0, _, _ => ([], false)
  | bound + 1, s, p =>
    match s.running[p.reqIndex]? with
    | none => ([], false)
    | some ref =>
      if p.tokenBudget > 0 then
        match s.scheduleRunning cfg env p ref with
        | .ok (s', p', true) =>
          (ref :: (passLog cfg env bound s' p').1, (passLog cfg env bound s' p').2)
        | .ok (_, _, false) => ([ref], true)
        | .error _ => ([ref], false)
      else ([], false)

/-- What the running pass of a call shall do: the requests of the list that it does not
preempt are considered once, unless the budget is spent or the pass ends with the preemption
of its current request. -/
def VisitsEveryone (cfg : SchedulerConfig H) (env : ScheduleEnv) (s : Scheduler H) : Prop :=
  ∀ s' p', runningPass cfg env s.running.length s (s.startPass cfg) = .ok (s', p') →
    p'.tokenBudget ≤ 0 ∨ (passLog cfg env s.running.length s (s.startPass cfg)).2 = true ∨
      ∀ ref ∈ s.running, ref ∈ p'.preemptedReqs ∨
        (passLog cfg env s.running.length s (s.startPass cfg)).1.count ref = 1

/-! ## The condition -/

/-- The next victim is not a request in front of the index that was skipped. -/
def sparesSkipped (cfg : SchedulerConfig H) (s : Scheduler H) (p : Pass) : Bool :=
  match s.popVictim cfg with
  | .ok (victim, _) =>
    decide (victim ∈ s.running.take p.reqIndex → victim ∈ p.scheduledRunningReqs)
  | .error _ => true

/-- No preemption of the search for blocks takes a skipped request in front of the index. -/
def allocateSpares (cfg : SchedulerConfig H) (ref : ReqRef) (numNewTokens : Int) :
    Nat → Scheduler H → Pass → Bool
  | 0, _, _ => true
  | bound + 1, s, p =>
    match s.kvCacheManager.allocateSlots (s.obj ref) (runningSlotArgs cfg s numNewTokens) with
    | .ok (kv, none) =>
      sparesSkipped cfg { s with kvCacheManager := kv } p &&
        match preemptVictim cfg { s with kvCacheManager := kv } p with
        | .ok (s', p', victim) =>
          if victim = ref then true else allocateSpares cfg ref numNewTokens bound s' p'
        | .error _ => true
    | _ => true

/-- No preemption of a round does. -/
def roundSpares (cfg : SchedulerConfig H) (env : ScheduleEnv) (s : Scheduler H) (p : Pass)
    (ref : ReqRef) : Bool :=
  if reachedMaxTokens (s.obj ref) then true
  else
    match s.planRunning cfg env p ref with
    | .ok (s, numNewTokens, _) =>
      if numNewTokens = 0 then true
      else allocateSpares cfg ref numNewTokens (s.running.length + 1) s p
    | .error _ => true

/-- No preemption of the pass does. -/
def passSpares (cfg : SchedulerConfig H) (env : ScheduleEnv) : Nat → Scheduler H → Pass → Bool
  | 0, _, _ => true
  | bound + 1, s, p =>
    match s.running[p.reqIndex]? with
    | none => true
    | some ref =>
      if p.tokenBudget > 0 then
        roundSpares cfg env s p ref &&
          match s.scheduleRunning cfg env p ref with
          | .ok (s', p', true) => passSpares cfg env bound s' p'
          | _ => true
      else true

/-! ## Between the rounds -/

/-- The requests `visited` so far stand in front of the index, those behind it are not among
them, and nothing left the list without being preempted. -/
structure VisitInv (start visited : List ReqRef) (s : Scheduler H) (p : Pass) : Prop where
  nodup : s.running.Nodup
  visited_nodup : visited.Nodup
  index_le : p.reqIndex ≤ s.running.length
  front : ∀ r ∈ s.running.take p.reqIndex, r ∈ visited
  behind : ∀ r ∈ s.running.drop p.reqIndex, r ∉ visited
  scheduled_nodup : p.scheduledRunningReqs.Nodup
  scheduled : ∀ r ∈ p.scheduledRunningReqs, r ∈ s.running.take p.reqIndex
  kept : ∀ r ∈ start, r ∈ p.preemptedReqs ∨ r ∈ s.running

/-- While blocks are sought for `ref`: the list around it. -/
structure SeekInv (start visited : List ReqRef) (ref : ReqRef) (front behind : List ReqRef)
    (s : Scheduler H) (p : Pass) : Prop where
  running : s.running = front ++ ref :: behind
  index : p.reqIndex = front.length
  nodup : s.running.Nodup
  visited_nodup : visited.Nodup
  mem : ref ∈ visited
  front_visited : ∀ r ∈ front, r ∈ visited
  behind_unvisited : ∀ r ∈ behind, r ∉ visited
  scheduled_nodup : p.scheduledRunningReqs.Nodup
  scheduled : ∀ r ∈ p.scheduledRunningReqs, r ∈ front
  kept : ∀ r ∈ start, r ∈ p.preemptedReqs ∨ r ∈ s.running

variable {cfg : SchedulerConfig H} {env : ScheduleEnv} {start visited : List ReqRef}
  {s s' : Scheduler H} {p p' : Pass} {ref : ReqRef}

theorem visitInv_start (hnodup : s.running.Nodup) :
    VisitInv s.running [] s (s.startPass cfg) where
  nodup := hnodup
  visited_nodup := List.nodup_nil
  index_le := Nat.zero_le _
  front _ hr := absurd hr List.not_mem_nil
  behind _ _ := List.not_mem_nil
  scheduled_nodup := List.nodup_nil
  scheduled _ hr := absurd hr List.not_mem_nil
  kept _ hr := Or.inr hr

/-- The list around the current request. -/
theorem running_split (href : s.running[p.reqIndex]? = some ref) :
    s.running = s.running.take p.reqIndex ++ ref :: s.running.drop (p.reqIndex + 1) := by
  obtain ⟨hlt, heq⟩ := List.getElem?_eq_some_iff.mp href
  rw [← heq, ← List.drop_eq_getElem_cons hlt, List.take_append_drop]

theorem VisitInv.current_unvisited (h : VisitInv start visited s p)
    (href : s.running[p.reqIndex]? = some ref) : ref ∉ visited := by
  obtain ⟨hlt, heq⟩ := List.getElem?_eq_some_iff.mp href
  apply h.behind
  rw [List.drop_eq_getElem_cons hlt, heq]
  exact List.mem_cons_self

/-- The current request is considered. -/
theorem VisitInv.seek (h : VisitInv start visited s p)
    (href : s.running[p.reqIndex]? = some ref) :
    SeekInv start (visited ++ [ref]) ref (s.running.take p.reqIndex)
      (s.running.drop (p.reqIndex + 1)) s p where
  running := running_split href
  __ := h
  index := by
    rw [List.length_take]
    exact (Nat.min_eq_left h.index_le).symm
  visited_nodup := by
    apply List.nodup_append.mpr
    refine ⟨h.visited_nodup, List.nodup_singleton ref, ?_⟩
    intro a ha b hb
    rw [List.mem_singleton.mp hb]
    exact fun hab => h.current_unvisited href (hab ▸ ha)
  mem := List.mem_append_right _ (List.mem_singleton_self ref)
  front_visited r hr := List.mem_append_left _ (h.front r hr)
  behind_unvisited r hr := by
    intro hmem
    obtain ⟨hlt, heq⟩ := List.getElem?_eq_some_iff.mp href
    have hdrop : s.running.drop p.reqIndex = ref :: s.running.drop (p.reqIndex + 1) := by
      rw [List.drop_eq_getElem_cons hlt, heq]
    rcases List.mem_append.mp hmem with hmem | hmem
    · exact h.behind r (by rw [hdrop]; exact List.mem_cons_of_mem ref hr) hmem
    · -- the current request does not stand behind itself
      have hnd := h.nodup.sublist (List.drop_sublist p.reqIndex s.running)
      rw [hdrop] at hnd
      rw [List.mem_singleton.mp hmem] at hr
      exact (List.nodup_cons.mp hnd).1 hr

variable {front behind : List ReqRef}

/-- The round is over and the index moves on. -/
theorem SeekInv.moveOn (h : SeekInv start visited ref front behind s p)
    (hrunning : s'.running = s.running) (hindex : p'.reqIndex = p.reqIndex + 1)
    (hpreempted : p'.preemptedReqs = p.preemptedReqs) (hnodup : p'.scheduledRunningReqs.Nodup)
    (hscheduled : ∀ r ∈ p'.scheduledRunningReqs, r ∈ front ++ [ref]) :
    VisitInv start visited s' p' := by
  have hlist : s'.running = (front ++ [ref]) ++ behind := by
    rw [hrunning, h.running, List.append_assoc]
    rfl
  have hlen : p'.reqIndex = (front ++ [ref]).length := by
    rw [hindex, h.index, List.length_append]
    rfl
  have htake : s'.running.take p'.reqIndex = front ++ [ref] := by
    rw [hlist, hlen, List.take_left]
  have hdrop : s'.running.drop p'.reqIndex = behind := by
    rw [hlist, hlen, List.drop_left]
  constructor
  case nodup =>
    rw [hrunning]
    exact h.nodup
  case visited_nodup => exact h.visited_nodup
  case index_le =>
    rw [hlist, List.length_append, hlen]
    exact Nat.le_add_right _ _
  case front =>
    intro r hr
    rw [htake] at hr
    rcases List.mem_append.mp hr with hr | hr
    · exact h.front_visited r hr
    · rw [List.mem_singleton.mp hr]
      exact h.mem
  case behind =>
    intro r hr
    rw [hdrop] at hr
    exact h.behind_unvisited r hr
  case scheduled_nodup => exact hnodup
  case scheduled =>
    intro r hr
    rw [htake]
    exact hscheduled r hr
  case kept =>
    intro r hr
    rw [hpreempted, hrunning]
    exact h.kept r hr

/-! ## A preemption -/

theorem erase_middle {victim : ReqRef} (hne : victim ≠ ref) (hmem : victim ∈ front ++ ref :: behind) :
    (victim ∈ front ∧ (front ++ ref :: behind).erase victim = front.erase victim ++ ref :: behind) ∨
      (victim ∉ front ∧ victim ∈ behind ∧
        (front ++ ref :: behind).erase victim = front ++ ref :: behind.erase victim) := by
  by_cases hfront : victim ∈ front
  · exact Or.inl ⟨hfront, List.erase_append_left _ hfront⟩
  · right
    have hbehind : victim ∈ behind := by
      rcases List.mem_append.mp hmem with h | h
      · exact absurd h hfront
      · exact (List.mem_cons.mp h).resolve_left hne
    refine ⟨hfront, hbehind, ?_⟩
    rw [List.erase_append_right _ hfront, List.erase_cons_tail]
    exact fun h => hne (beq_iff_eq.mp h).symm

/-- The victim is another request, and not a skipped one in front of the index. -/
theorem SeekInv.preempt {victim : ReqRef} (h : SeekInv start visited ref front behind s p)
    (hpolicy : cfg.policy = .priority) (hpre : Preempted cfg s p victim s' p') (hne : victim ≠ ref)
    (hspares : victim ∈ front → victim ∈ p.scheduledRunningReqs) :
    ∃ front' behind', SeekInv start visited ref front' behind' s' p' ∧
      behind'.length ≤ behind.length := by
  obtain ⟨p₁, hrevoke, hp'⟩ := hpre.pass
  have hperm : s.running ~ victim :: s'.running := popVictim_perm hpre.pop
  have hmem : victim ∈ s.running := hperm.mem_iff.mpr List.mem_cons_self
  have herase : s'.running = s.running.erase victim := by
    have hpop := hpre.pop
    unfold popVictim at hpop
    rw [hpolicy] at hpop
    cases hlow : s.lowestPriority s.running with
    | none => rw [hlow] at hpop; cases hpop
    | some v =>
      rw [hlow] at hpop
      obtain ⟨rfl, hrest⟩ := Prod.mk.inj (Except.ok.inj hpop)
      exact hrest.symm
  have hnd' : s'.running.Nodup := (List.nodup_cons.mp (hperm.nodup_iff.mp h.nodup)).2
  have hkept : ∀ r ∈ start, r ∈ p'.preemptedReqs ∨ r ∈ s'.running := by
    intro r hr
    have hrev := revoke_effect hrevoke
    have hpreempted : p'.preemptedReqs = p.preemptedReqs ++ [victim] := by
      rw [hp', ← hrev.preemptedReqs]
    rw [hpreempted]
    rcases h.kept r hr with hr | hr
    · exact Or.inl (List.mem_append_left _ hr)
    · rcases List.mem_cons.mp (hperm.mem_iff.mp hr) with rfl | hr
      · exact Or.inl (List.mem_append_right _ (List.mem_singleton_self _))
      · exact Or.inr hr
  rw [h.running] at hmem herase
  rcases erase_middle hne hmem with ⟨hfront, hlist⟩ | ⟨hfront, hbehind, hlist⟩
  · -- it was scheduled: the index moves back with the list
    have hscheduled := hspares hfront
    rcases (revoke_effect hrevoke).cases with heq | hcases
    · -- the revocation of a scheduled victim is not the identity
      exfalso
      unfold revoke at hrevoke
      rw [if_pos ⟨hpolicy, hscheduled⟩] at hrevoke
      dsimp only at hrevoke
      split at hrevoke
      · rw [← Except.ok.inj hrevoke] at heq
        have hlen := congrArg (fun q : Pass => q.scheduledRunningReqs.length) heq
        have hdec : (p.scheduledRunningReqs.erase victim).length =
            p.scheduledRunningReqs.length - 1 := List.length_erase_of_mem hscheduled
        have hpos := List.length_pos_of_mem hscheduled
        dsimp only at hlen
        omega
      · cases hrevoke
    · obtain ⟨-, -, -, numTokens, -, hsched, -, -, -, -, hidx⟩ := hcases
      refine ⟨front.erase victim, behind, ?_, Nat.le_refl _⟩
      constructor
      case running => exact herase.trans hlist
      case index =>
        rw [List.length_erase_of_mem hfront, ← h.index, hp']
        exact hidx
      case nodup => exact hnd'
      case visited_nodup => exact h.visited_nodup
      case mem => exact h.mem
      case front_visited =>
        exact fun r hr => h.front_visited r (List.mem_of_mem_erase hr)
      case behind_unvisited => exact h.behind_unvisited
      case scheduled_nodup =>
        rw [hp']
        show p₁.scheduledRunningReqs.Nodup
        rw [hsched]
        exact h.scheduled_nodup.erase victim
      case scheduled =>
        intro r hr
        rw [hp'] at hr
        have hr : r ∈ p₁.scheduledRunningReqs := hr
        rw [hsched] at hr
        obtain ⟨hrv, hr⟩ := (List.Nodup.mem_erase_iff h.scheduled_nodup).mp hr
        exact (List.mem_erase_of_ne hrv).mpr (h.scheduled r hr)
      case kept => exact hkept
  · -- it stands behind: it was not scheduled, and the index stays
    have hnot : victim ∉ p.scheduledRunningReqs := fun hs => hfront (h.scheduled victim hs)
    have hp₁ : p₁ = p := by
      unfold revoke at hrevoke
      rw [if_neg fun hc => hnot hc.2] at hrevoke
      exact (Except.ok.inj hrevoke).symm
    subst hp₁
    refine ⟨front, behind.erase victim, ?_, ?_⟩
    · constructor
      case running => exact herase.trans hlist
      case index =>
        rw [hp']
        exact h.index
      case nodup => exact hnd'
      case visited_nodup => exact h.visited_nodup
      case mem => exact h.mem
      case front_visited => exact h.front_visited
      case behind_unvisited =>
        exact fun r hr => h.behind_unvisited r (List.mem_of_mem_erase hr)
      case scheduled_nodup =>
        rw [hp']
        exact h.scheduled_nodup
      case scheduled =>
        rw [hp']
        exact h.scheduled
      case kept => exact hkept
    · exact List.length_erase_le

/-! ## The search for blocks -/

/-- The search keeps the list around the current request, or ends with its preemption. -/
theorem SeekInv.allocate (hpolicy : cfg.policy = .priority) {n : Int} :
    ∀ {bound : Nat} {front behind : List ReqRef} {s s' : Scheduler H} {p p' : Pass}
      {blocks : Option (List (List BlockId))},
      SeekInv start visited ref front behind s p →
      allocateSpares cfg ref n bound s p = true →
      allocateRunning cfg ref n bound s p = .ok (s', p', blocks) → blocks ≠ none →
      ∃ front' behind', SeekInv start visited ref front' behind' s' p' ∧
        behind'.length ≤ behind.length
  | 0, _, _, _, _, _, _, _, _, _, h, _ => by cases h
  | bound + 1, front, behind, s, s', p, p', blocks, hinv, hspares, h, hblocks => by
    rw [allocateRunning, Raises.bind_eq_ok] at h
    obtain ⟨⟨kv, newBlocks⟩, halloc, h⟩ := h
    -- the blocks are no part of what is kept
    have hinv₁ : SeekInv start visited ref front behind { s with kvCacheManager := kv } p :=
      ⟨hinv.running, hinv.index, hinv.nodup, hinv.visited_nodup, hinv.mem, hinv.front_visited,
        hinv.behind_unvisited, hinv.scheduled_nodup, hinv.scheduled, hinv.kept⟩
    cases newBlocks with
    | some b =>
      have heq := Except.ok.inj h
      simp only [Prod.mk.injEq] at heq
      obtain ⟨rfl, rfl, -⟩ := heq
      exact ⟨front, behind, hinv₁, Nat.le_refl _⟩
    | none =>
      dsimp only at h
      rw [Raises.bind_eq_ok] at h
      obtain ⟨⟨s₁, p₁, victim⟩, hpre, h⟩ := h
      dsimp only at h
      unfold allocateSpares at hspares
      rw [halloc] at hspares
      dsimp only at hspares
      rw [hpre, Bool.and_eq_true] at hspares
      obtain ⟨hhere, hlater⟩ := hspares
      by_cases hv : victim = ref
      · rw [if_pos hv] at h
        have heq := Except.ok.inj h
        simp only [Prod.mk.injEq] at heq
        exact absurd heq.2.2.symm hblocks
      · rw [if_neg hv] at h
        dsimp only at hlater
        rw [if_neg hv] at hlater
        have heffect := preemptVictim_effect hpre
        have hvictim : victim ∈ front → victim ∈ p.scheduledRunningReqs := by
          intro hfront
          unfold sparesSkipped at hhere
          rw [heffect.pop] at hhere
          apply of_decide_eq_true hhere
          show victim ∈ s.running.take p.reqIndex
          rw [hinv.running, hinv.index, List.take_left]
          exact hfront
        obtain ⟨front₁, behind₁, hinv₂, hle⟩ := hinv₁.preempt hpolicy heffect hv hvictim
        obtain ⟨front₂, behind₂, hinv₃, hle'⟩ := hinv₂.allocate hpolicy hlater h hblocks
        exact ⟨front₂, behind₂, hinv₃, Nat.le_trans hle' hle⟩

/-! ## A round -/

theorem SeekInv.of_onlyEncoder (h : SeekInv start visited ref front behind s p)
    (he : OnlyEncoder s s') :
    SeekInv start visited ref front behind s' p where
  __ := h
  running := he.queues.running.trans h.running
  nodup := by
    rw [he.queues.running]
    exact h.nodup
  kept r hr := by
    rw [he.queues.running]
    exact h.kept r hr

/-- A round that skips its request. -/
theorem SeekInv.skip (h : SeekInv start visited ref front behind s p) :
    VisitInv start visited s { p with reqIndex := p.reqIndex + 1 } :=
  h.moveOn rfl rfl rfl h.scheduled_nodup fun r hr => List.mem_append_left _ (h.scheduled r hr)

/-- A round that schedules its request. -/
theorem SeekInv.commit {n : Int} {blocks : List (List BlockId)}
    (h : SeekInv start visited ref front behind s p) (hc : CommittedRunning s p ref n blocks s' p') :
    VisitInv start visited s' p' := by
  have hnot : ref ∉ p.scheduledRunningReqs := by
    intro hs
    have hnd := h.nodup
    rw [h.running] at hnd
    exact (List.nodup_append.mp hnd).2.2 ref (h.scheduled ref hs) ref List.mem_cons_self rfl
  apply h.moveOn hc.queues.running hc.reqIndex hc.preemptedReqs
  · rw [hc.scheduledRunningReqs]
    apply List.nodup_append.mpr
    refine ⟨h.scheduled_nodup, List.nodup_singleton ref, ?_⟩
    intro a ha b hb hab
    rw [List.mem_singleton.mp hb] at hab
    exact hnot (hab ▸ ha)
  · intro r hr
    rw [hc.scheduledRunningReqs] at hr
    rcases List.mem_append.mp hr with hr | hr
    · exact List.mem_append_left _ (h.scheduled r hr)
    · exact List.mem_append_right _ hr

/-- How many requests are left to consider. -/
def unvisited (s : Scheduler H) (p : Pass) : Nat := s.running.length - p.reqIndex

theorem SeekInv.unvisited_eq (h : SeekInv start visited ref front behind s p) :
    unvisited s p = behind.length + 1 := by
  unfold unvisited
  rw [h.running, h.index, List.length_append, List.length_cons, Nat.add_sub_cancel_left]

/-- A round after which the pass goes on. -/
theorem VisitInv.round (h : VisitInv start visited s p) (hpolicy : cfg.policy = .priority)
    (href : s.running[p.reqIndex]? = some ref)
    (hspares : roundSpares cfg env s p ref = true)
    (hround : s.scheduleRunning cfg env p ref = .ok (s', p', true)) :
    VisitInv start (visited ++ [ref]) s' p' ∧ unvisited s' p' < unvisited s p := by
  have hseek := h.seek href
  unfold scheduleRunning at hround
  unfold roundSpares at hspares
  by_cases hreached : reachedMaxTokens (s.obj ref) = true
  · rw [if_pos hreached] at hround
    have heq := Except.ok.inj hround
    simp only [Prod.mk.injEq] at heq
    obtain ⟨rfl, rfl, -⟩ := heq
    refine ⟨hseek.skip, ?_⟩
    have hlt := (List.getElem?_eq_some_iff.mp href).1
    unfold unvisited
    dsimp only
    omega
  rw [if_neg hreached] at hround hspares
  rw [Raises.bind_eq_ok] at hround
  obtain ⟨⟨s₁, n, plan⟩, hplan, hround⟩ := hround
  rw [hplan] at hspares
  dsimp only at hround hspares
  have hencoder := (planRunning_effect hplan).1
  have hseek₁ := hseek.of_onlyEncoder hencoder
  have hunvisited : unvisited s p = (s.running.drop (p.reqIndex + 1)).length + 1 :=
    hseek.unvisited_eq
  by_cases hn : n = 0
  · rw [if_pos hn] at hround
    have heq := Except.ok.inj hround
    simp only [Prod.mk.injEq] at heq
    obtain ⟨rfl, rfl, -⟩ := heq
    refine ⟨hseek₁.skip, ?_⟩
    have hlt := (List.getElem?_eq_some_iff.mp href).1
    unfold unvisited
    rw [hencoder.queues.running]
    dsimp only
    omega
  · rw [if_neg hn] at hround hspares
    rw [Raises.bind_eq_ok] at hround
    obtain ⟨⟨s₂, p₂, blocks⟩, halloc, hround⟩ := hround
    cases blocks with
    | none =>
      have heq := Except.ok.inj hround
      simp only [Prod.mk.injEq] at heq
      exact absurd heq.2.2 Bool.false_ne_true
    | some b =>
      obtain ⟨front, behind, hinv, hle⟩ :=
        hseek₁.allocate hpolicy hspares halloc (Option.some_ne_none b)
      simp only [Raises.bind_eq_ok, Raises.pure_eq_ok] at hround
      obtain ⟨⟨s₃, p₃⟩, hcommit, heq⟩ := hround
      simp only [Prod.mk.injEq] at heq
      obtain ⟨rfl, rfl, -⟩ := heq
      have hcommitted := commitRunning_effect hcommit
      refine ⟨hinv.commit hcommitted, ?_⟩
      have hafter := hinv.unvisited_eq
      unfold unvisited at hafter hunvisited ⊢
      rw [hcommitted.queues.running, hcommitted.reqIndex]
      omega

/-! ## The pass -/

/-- The end of a pass that started among `visited` requests. -/
theorem VisitInv.pass (hpolicy : cfg.policy = .priority) :
    ∀ {bound : Nat} {visited : List ReqRef} {s s' : Scheduler H} {p p' : Pass},
      VisitInv start visited s p → unvisited s p ≤ bound →
      passSpares cfg env bound s p = true → runningPass cfg env bound s p = .ok (s', p') →
      p'.tokenBudget ≤ 0 ∨ (passLog cfg env bound s p).2 = true ∨
        ∀ r ∈ start, r ∈ p'.preemptedReqs ∨
          (visited ++ (passLog cfg env bound s p).1).count r = 1
  | 0, visited, s, s', p, p', h, hbound, _, hpass => by
    obtain ⟨rfl, rfl⟩ := Prod.mk.inj (Except.ok.inj hpass)
    right; right
    intro r hr
    rw [show (passLog cfg env 0 s p).1 = [] from rfl, List.append_nil]
    refine (h.kept r hr).imp id fun hmem => ?_
    apply List.count_eq_one_of_mem h.visited_nodup
    apply h.front
    have hle : s.running.length ≤ p.reqIndex := by
      unfold unvisited at hbound
      omega
    rw [List.take_of_length_le hle]
    exact hmem
  | bound + 1, visited, s, s', p, p', h, hbound, hspares, hpass => by
    unfold runningPass at hpass
    unfold passSpares at hspares
    unfold passLog
    cases href : s.running[p.reqIndex]? with
    | none =>
      -- the index has come to the end of the list
      rw [href] at hpass
      obtain ⟨rfl, rfl⟩ := Prod.mk.inj (Except.ok.inj hpass)
      right; right
      intro r hr
      rw [List.append_nil]
      refine (h.kept r hr).imp id fun hmem => ?_
      apply List.count_eq_one_of_mem h.visited_nodup
      apply h.front
      rw [List.take_of_length_le (List.getElem?_eq_none_iff.mp href)]
      exact hmem
    | some ref =>
      rw [href] at hpass hspares
      dsimp only at hpass hspares ⊢
      by_cases hb : p.tokenBudget > 0
      · rw [if_pos hb] at hpass hspares
        rw [if_pos hb]
        rw [Raises.bind_eq_ok] at hpass
        obtain ⟨⟨s₁, p₁, go⟩, hround, hpass⟩ := hpass
        rw [hround] at hspares ⊢
        rw [Bool.and_eq_true] at hspares
        cases go with
        | false => exact Or.inr (Or.inl rfl)
        | true =>
          obtain ⟨hinv, hless⟩ := h.round hpolicy href hspares.1 hround
          have hrest := hinv.pass hpolicy (by omega) hspares.2 hpass
          dsimp only
          rw [List.append_cons]
          exact hrest
      · rw [if_neg hb] at hpass
        obtain ⟨rfl, rfl⟩ := Prod.mk.inj (Except.ok.inj hpass)
        exact Or.inl (Int.not_lt.mp hb)

/-- **The priority pass visits everyone**, if none of its preemptions takes a skipped request
in front of the index. -/
theorem visitsEveryone_of_spares (hpolicy : cfg.policy = .priority)
    (hnodup : s.running.Nodup)
    (hspares : passSpares cfg env s.running.length s (s.startPass cfg) = true) :
    VisitsEveryone cfg env s := by
  intro s' p' hpass
  have hstart : VisitInv s.running [] s (s.startPass cfg) := visitInv_start hnodup
  have hbound : unvisited s (s.startPass cfg) ≤ s.running.length := Nat.sub_le _ _
  exact hstart.pass hpolicy hbound hspares hpass

end Scheduler

/-! ## A skipped request in front of the index -/

/-- Prompts in chunks of a block, under the priority policy. With pipeline parallelism several
steps can be in flight. -/
def priorityConfig : SchedulerConfig Digest :=
  { smallConfig with
    policy := .priority
    usePp := true
    schedulerReserveFullIsl := false
    longPrefillTokenThreshold := 4 }

/-- The engine after some calls, with three blocks for requests. -/
def priorityRun (ops : List SchedOp) : Except Python.Error (Engine Digest) := do
  let e ← Engine.init priorityConfig [fullSpec 4 1] 4 false
  Engine.run priorityConfig e ops

/-- Three running requests with a block each. The prompt of the first one is scheduled to its
end and its step is in flight; the others have a chunk left. -/
def threeRunningOps (priorityA priorityC : Int) : List SchedOp :=
  [addPrompt { plainPrompt "a" [1, 2, 3, 4] with priority := priorityA }, .schedule quietEnv,
    addPrompt (plainPrompt "b" [1, 2, 3, 4, 5, 6, 7, 8]),
    addPrompt { plainPrompt "c" [1, 2, 3, 4, 5, 6, 7, 8] with priority := priorityC },
    .schedule quietEnv]

/-- Whether the next pass ends with budget left and without considering request `2`, which is
not preempted. -/
def passesOver (e : Engine Digest) : Bool :=
  let s := e.scheduler
  let log := s.passLog priorityConfig quietEnv s.running.length (s.startPass priorityConfig)
  match Scheduler.runningPass priorityConfig quietEnv s.running.length s
      (s.startPass priorityConfig) with
  | .ok (_, p) =>
    decide (0 < p.tokenBudget) && !log.2 && decide (2 ∈ s.running) &&
      decide (2 ∉ p.preemptedReqs) && decide (log.1.count 2 ≠ 1)
  | .error _ => false

theorem passesOver_spec {e : Engine Digest} (h : passesOver e = true) :
    ¬ Scheduler.VisitsEveryone priorityConfig quietEnv e.scheduler := by
  intro hvisits
  unfold passesOver at h
  dsimp only at h
  split at h
  next s p hpass =>
    simp only [Bool.and_eq_true, decide_eq_true_eq, Bool.not_eq_true'] at h
    obtain ⟨⟨⟨⟨hbudget, hgoes⟩, hmem⟩, hkept⟩, hcount⟩ := h
    rcases hvisits s p hpass with hspent | hstopped | hall
    · exact absurd hbudget (Int.not_lt.mpr hspent)
    · rw [hgoes] at hstopped
      cases hstopped
    · exact (hall 2 hmem).elim hkept hcount
  next => cases h

/-- Request `b` takes the block of `a`, which stands in front and was skipped; `c` is never
looked at. -/
theorem skipped_victim_passes_over :
    ∃ e, priorityRun (threeRunningOps 5 0) = .ok e ∧ e.scheduler.running = [0, 1, 2] ∧
      ¬ Scheduler.VisitsEveryone priorityConfig quietEnv e.scheduler := by
  have hcheck : (priorityRun (threeRunningOps 5 0)).map
      (fun e => decide (e.scheduler.running = [0, 1, 2]) && passesOver e) = .ok true := by
    decide +kernel
  cases hrun : priorityRun (threeRunningOps 5 0) with
  | error err => rw [hrun] at hcheck; cases hcheck
  | ok e =>
    rw [hrun] at hcheck
    have hboth := Except.ok.inj hcheck
    rw [Bool.and_eq_true] at hboth
    exact ⟨e, rfl, of_decide_eq_true hboth.1, passesOver_spec hboth.2⟩

/-- With `c` as the victim behind the index everyone is visited. -/
theorem victim_behind_visits :
    ∃ e, priorityRun (threeRunningOps 0 5) = .ok e ∧ e.scheduler.running = [0, 1, 2] ∧
      Scheduler.VisitsEveryone priorityConfig quietEnv e.scheduler := by
  have hcheck : (priorityRun (threeRunningOps 0 5)).map
      (fun e => decide (e.scheduler.running = [0, 1, 2]) &&
        Scheduler.passSpares priorityConfig quietEnv e.scheduler.running.length e.scheduler
          (e.scheduler.startPass priorityConfig)) = .ok true := by
    decide +kernel
  cases hrun : priorityRun (threeRunningOps 0 5) with
  | error err => rw [hrun] at hcheck; cases hcheck
  | ok e =>
    rw [hrun] at hcheck
    have hboth := Except.ok.inj hcheck
    rw [Bool.and_eq_true] at hboth
    have hrunning : e.scheduler.running = [0, 1, 2] := of_decide_eq_true hboth.1
    refine ⟨e, rfl, hrunning, Scheduler.visitsEveryone_of_spares rfl ?_ hboth.2⟩
    rw [hrunning]
    decide

end VllmEngine
