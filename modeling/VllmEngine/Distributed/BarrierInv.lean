import VllmEngine.Distributed.StatelessGroup

/-!
# The invariant of the barrier

What holds between the steps, rank by rank (`ProcOk`) and for the store (`StoreOk`). A key
of the store stands for the progress of the rank that set it, a rank that is past a polling
loop stands for the progress of all ranks, and a key is deleted only when all ranks have
departed. Every fact about another rank is about how far it has come, so it stays when that
rank goes on (`ProcOk.grow`).
-/

namespace VllmEngine.Distributed.Stateless

variable {V : Type}

/-- The id that a rank works with. -/
def Phase.barrierId : Phase V → Option V
  | .entered barrierId => some barrierId
  | .arriving barrierId _ => some barrierId
  | .arrived barrierId => some barrierId
  | .departing barrierId _ => some barrierId
  | .deleting barrierId _ => some barrierId
  | _ => none

/-- How many broadcasts a rank has taken part in. -/
def Proc.issued (p : Proc V) : Nat := p.pc + if 2 ≤ p.phase.stage then 1 else 0

/-- What holds of a rank. -/
structure ProcOk (worldSize : Nat) (calls : List (Call V)) (w : World V) (r : Nat)
    (p : Proc V) : Prop where
  sent : p.group.broadcastSendCounter = sends calls r p.issued
  received : ∀ src, src ≠ r → p.group.broadcastRecvSrcCounter src = sends calls src p.issued
  ids : ∀ k u, p.barrierIds k = some u → p.Reached k 2 ∧
    (∃ timeout, calls[k]? = some (.barrier timeout)) ∧ (w.procs 0).barrierIds k = some u
  idsKnown : ∀ k timeout, calls[k]? = some (.barrier timeout) → p.Reached k 2 →
    ∃ u, p.barrierIds k = some u
  held : ∀ u, p.phase.barrierId = some u → p.barrierIds p.pc = some u
  seenArrived : ∀ u poll, p.phase = .arriving u poll →
    ∀ j ∈ poll.seen, j < worldSize ∧ (w.procs j).Reached p.pc 3
  seenDeparted : ∀ u poll, p.phase = .departing u poll →
    ∀ j ∈ poll.seen, j < worldSize ∧ (w.procs j).Reached p.pc 5
  deleting : ∀ u keys, p.phase = .deleting u keys →
    ∀ key ∈ keys, ∃ i, key = .arrival u i ∨ key = .departure u i
  onlyZero : 5 ≤ p.phase.stage → r = 0
  allArrived : ∀ k timeout, calls[k]? = some (.barrier timeout) → p.Reached k 4 →
    ∀ j < worldSize, (w.procs j).Reached k 3
  allDeparted : r = 0 → ∀ k timeout, calls[k]? = some (.barrier timeout) → p.Reached k 6 →
    ∀ j < worldSize, (w.procs j).Reached k 5

/-- What holds of the store. -/
structure StoreOk (worldSize : Nat) (calls : List (Call V)) (w : World V) : Prop where
  posted : ∀ k timeout val, calls[k]? = some (.barrier timeout) →
    w.store.data (.broadcastFrom .obj 0 (sends calls 0 k)) = some val →
      ∃ u, val = .pickled u ∧ (w.procs 0).barrierIds k = some u
  arrival : ∀ u i val, w.store.data (.arrival u i) = some val → i < worldSize ∧
    ∃ k, (w.procs 0).barrierIds k = some u ∧ (w.procs i).Reached k 3
  departure : ∀ u i val, w.store.data (.departure u i) = some val → i < worldSize ∧
    ∃ k, (w.procs 0).barrierIds k = some u ∧ (w.procs i).Reached k 5
  deleted : ∀ key ∈ w.store.deleted, ∃ k u i, (w.procs 0).barrierIds k = some u ∧
    (key = .arrival u i ∨ key = .departure u i) ∧ (w.procs 0).Reached k 6
  swept : ∀ k u, (w.procs 0).barrierIds k = some u → (w.procs 0).Reached k 6 → ∀ key,
    (∃ i, key = .arrival u i ∨ key = .departure u i) → w.store.data key ≠ none →
      key ∈ (w.procs 0).phase.remaining
  idsInj : ∀ k k' u, (w.procs 0).barrierIds k = some u → (w.procs 0).barrierIds k' = some u →
    k = k'

variable {worldSize : Nat} {calls : List (Call V)} {w w' : World V} {r : Nat} {p : Proc V}

/-- The other ranks and rank 0's ids go on. -/
theorem ProcOk.grow (h : ProcOk worldSize calls w r p)
    (hreached : ∀ j k s, (w.procs j).Reached k s → (w'.procs j).Reached k s)
    (hids : ∀ k u, (w.procs 0).barrierIds k = some u → (w'.procs 0).barrierIds k = some u) :
    ProcOk worldSize calls w' r p where
  __ := h
  ids := by
    intro k u hku
    obtain ⟨hreach, hbarrier, hzero⟩ := h.ids k u hku
    exact ⟨hreach, hbarrier, hids k u hzero⟩
  seenArrived := by
    intro u poll hphase j hj
    obtain ⟨hlt, hreach⟩ := h.seenArrived u poll hphase j hj
    exact ⟨hlt, hreached j _ _ hreach⟩
  seenDeparted := by
    intro u poll hphase j hj
    obtain ⟨hlt, hreach⟩ := h.seenDeparted u poll hphase j hj
    exact ⟨hlt, hreached j _ _ hreach⟩
  allArrived := fun k timeout hcall hreach j hj =>
    hreached j _ _ (h.allArrived k timeout hcall hreach j hj)
  allDeparted := fun hr k timeout hcall hreach j hj =>
    hreached j _ _ (h.allDeparted hr k timeout hcall hreach j hj)

/-- The barrier call of a rank that has an id. -/
theorem ProcOk.barrier_at {u : V} (h : ProcOk worldSize calls w r p)
    (hphase : p.phase.barrierId = some u) :
    (∃ timeout, calls[p.pc]? = some (.barrier timeout)) ∧
      (w.procs 0).barrierIds p.pc = some u :=
  (h.ids p.pc u (h.held u hphase)).2

/-! ## The steps of a rank -/

/-- A rank changes its phase and stays in its call. -/
theorem ProcOk.phase (h : ProcOk worldSize calls w r p) (phase : Phase V)
    (hle : p.phase.stage ≤ phase.stage) (hissued : 2 ≤ phase.stage → 2 ≤ p.phase.stage)
    (hheld : ∀ u, phase.barrierId = some u → p.phase.barrierId = some u)
    (harrived : ∀ u poll, phase = .arriving u poll →
      ∀ j ∈ poll.seen, j < worldSize ∧ (w.procs j).Reached p.pc 3)
    (hdeparted : ∀ u poll, phase = .departing u poll →
      ∀ j ∈ poll.seen, j < worldSize ∧ (w.procs j).Reached p.pc 5)
    (hdeleting : ∀ u keys, phase = .deleting u keys →
      ∀ key ∈ keys, ∃ i, key = .arrival u i ∨ key = .departure u i)
    (hzero : 5 ≤ phase.stage → r = 0)
    (hfour : 4 ≤ phase.stage → 4 ≤ p.phase.stage ∨
      ∀ j < worldSize, (w.procs j).Reached p.pc 3)
    (hsix : 6 ≤ phase.stage → 6 ≤ p.phase.stage ∨
      ∀ j < worldSize, (w.procs j).Reached p.pc 5) :
    ProcOk worldSize calls w r { p with phase := phase } := by
  have hback : ∀ {k s}, Proc.Reached { p with phase := phase } k s →
      p.Reached k s ∨ (k = p.pc ∧ s ≤ phase.stage) := by
    intro k s hreach
    rcases hreach with hlt | ⟨heq, hs⟩
    · left
      exact Or.inl hlt
    · right
      exact ⟨heq.symm, hs⟩
  have hsame : Proc.issued { p with phase := phase } = p.issued := by
    unfold Proc.issued
    dsimp only
    by_cases htwo : 2 ≤ p.phase.stage
    · rw [if_pos htwo, if_pos (Nat.le_trans htwo hle)]
    · rw [if_neg htwo, if_neg fun h2 => htwo (hissued h2)]
  refine ⟨?_, ?_, ?_, ?_, ?_, harrived, hdeparted, hdeleting, hzero, ?_, ?_⟩
  · rw [hsame]
    exact h.sent
  · intro src hsrc
    rw [hsame]
    exact h.received src hsrc
  · intro k u hku
    obtain ⟨hreach, hrest⟩ := h.ids k u hku
    exact ⟨hreach.mono (Or.inr ⟨rfl, hle⟩), hrest⟩
  · intro k timeout hcall hreach
    rcases hback hreach with hold | ⟨rfl, hs⟩
    · exact h.idsKnown k timeout hcall hold
    · exact h.idsKnown p.pc timeout hcall (Proc.reached_pc.mpr (hissued hs))
  · intro u hu
    exact h.held u (hheld u hu)
  · intro k timeout hcall hreach
    rcases hback hreach with hold | ⟨rfl, hs⟩
    · exact h.allArrived k timeout hcall hold
    · rcases hfour hs with hold | hall
      · exact h.allArrived p.pc timeout hcall (Proc.reached_pc.mpr hold)
      · exact hall
  · intro hr k timeout hcall hreach
    rcases hback hreach with hold | ⟨rfl, hs⟩
    · exact h.allDeparted hr k timeout hcall hold
    · rcases hsix hs with hold | hall
      · exact h.allDeparted hr p.pc timeout hcall (Proc.reached_pc.mpr hold)
      · exact hall

/-- A rank returns from its call, which it has taken part in. -/
theorem ProcOk.finish_of {group : Group V} (h : ProcOk worldSize calls w r p)
    (hsent : group.broadcastSendCounter = sends calls r (p.pc + 1))
    (hreceived : ∀ src, src ≠ r → group.broadcastRecvSrcCounter src = sends calls src (p.pc + 1))
    (hbarrier : ∀ timeout, calls[p.pc]? = some (.barrier timeout) →
      4 ≤ p.phase.stage ∧ (r = 0 → 6 ≤ p.phase.stage)) :
    ProcOk worldSize calls w r (Proc.finish { p with group := group }) := by
  have hmono : ∀ {k s}, p.Reached k s →
      (Proc.finish { p with group := group }).Reached k s := fun hreach =>
    hreach.mono (Or.inl (Nat.lt_succ_self p.pc))
  have hback : ∀ {k s}, (Proc.finish { p with group := group }).Reached k (s + 1) →
      k < p.pc ∨ k = p.pc := by
    intro k s hreach
    rcases hreach with hlt | ⟨-, hs⟩
    · exact Nat.lt_or_eq_of_le (Nat.le_of_lt_succ hlt)
    · exact absurd hs (Nat.not_succ_le_zero s)
  refine ⟨hsent, hreceived, ?_, ?_, ?_, ?_, ?_, ?_, ?_, ?_, ?_⟩
  · intro k u hku
    obtain ⟨hreach, hrest⟩ := h.ids k u hku
    exact ⟨hmono hreach, hrest⟩
  · intro k timeout hcall hreach
    rcases hback hreach with hlt | rfl
    · exact h.idsKnown k timeout hcall (Or.inl hlt)
    · have hfour := (hbarrier timeout hcall).1
      exact h.idsKnown p.pc timeout hcall (Proc.reached_pc.mpr (by omega))
  · intro u hu
    exact absurd hu (by simp [Proc.finish, Phase.barrierId])
  · intro u poll hphase
    exact absurd hphase (by simp [Proc.finish])
  · intro u poll hphase
    exact absurd hphase (by simp [Proc.finish])
  · intro u keys hphase
    exact absurd hphase (by simp [Proc.finish])
  · intro hfive
    exact absurd hfive (Nat.not_succ_le_zero 4)
  · intro k timeout hcall hreach
    rcases hback hreach with hlt | rfl
    · exact h.allArrived k timeout hcall (Or.inl hlt)
    · exact h.allArrived p.pc timeout hcall (Proc.reached_pc.mpr (hbarrier timeout hcall).1)
  · intro hr k timeout hcall hreach
    rcases hback hreach with hlt | rfl
    · exact h.allDeparted hr k timeout hcall (Or.inl hlt)
    · exact h.allDeparted hr p.pc timeout hcall
        (Proc.reached_pc.mpr ((hbarrier timeout hcall).2 hr))

/-- A rank gets to know the id of its barrier. -/
theorem ProcOk.enter_of {timeout : Nat} {u : V} {group : Group V}
    (h : ProcOk worldSize calls w r p) (hphase : p.phase = .called)
    (hcall : calls[p.pc]? = some (.barrier timeout))
    (hsent : group.broadcastSendCounter = sends calls r (p.pc + 1))
    (hreceived : ∀ src, src ≠ r → group.broadcastRecvSrcCounter src = sends calls src (p.pc + 1))
    (hid : (w.procs 0).barrierIds p.pc = some u) :
    ProcOk worldSize calls w r (p.enter u group) := by
  have hstage : p.phase.stage = 1 := by rw [hphase]; rfl
  have hmono : ∀ {k s}, p.Reached k s → (p.enter u group).Reached k s := fun hreach =>
    hreach.mono (Or.inr ⟨rfl, by rw [hstage]; exact Nat.le_succ 1⟩)
  have hback : ∀ {k s}, 2 < s → (p.enter u group).Reached k s → p.Reached k s := by
    intro k s hs hreach
    rcases hreach with hlt | ⟨-, hle⟩
    · exact Or.inl hlt
    · have : s ≤ 2 := hle
      omega
  refine ⟨hsent, hreceived, ?_, ?_, ?_, ?_, ?_, ?_, ?_, ?_, ?_⟩
  · intro k u' hku
    by_cases hk : k = p.pc
    · subst hk
      have heq : u = u' := by
        change Function.update p.barrierIds p.pc (some u) p.pc = some u' at hku
        rw [Function.update_self] at hku
        exact Option.some.inj hku
      subst heq
      exact ⟨Or.inr ⟨rfl, Nat.le_refl 2⟩, ⟨timeout, hcall⟩, hid⟩
    · change Function.update p.barrierIds p.pc (some u) k = some u' at hku
      rw [Function.update_of_ne hk] at hku
      obtain ⟨hreach, hrest⟩ := h.ids k u' hku
      exact ⟨hmono hreach, hrest⟩
  · intro k timeout' hcall' hreach
    by_cases hk : k = p.pc
    · subst hk
      exact ⟨u, Function.update_self _ _ _⟩
    · have hold : p.Reached k 2 := by
        rcases hreach with hlt | ⟨heq, -⟩
        · exact Or.inl hlt
        · exact absurd heq.symm hk
      obtain ⟨u', hu'⟩ := h.idsKnown k timeout' hcall' hold
      exact ⟨u', (Function.update_of_ne hk _ _).trans hu'⟩
  · intro u' hu'
    have heq : u = u' := Option.some.inj hu'
    subst heq
    exact Function.update_self _ _ _
  · intro u' poll hph
    exact absurd hph (by simp [Proc.enter])
  · intro u' poll hph
    exact absurd hph (by simp [Proc.enter])
  · intro u' keys hph
    exact absurd hph (by simp [Proc.enter])
  · intro hfive
    have : 5 ≤ 2 := hfive
    omega
  · intro k timeout' hcall' hreach
    exact h.allArrived k timeout' hcall' (hback (by omega) hreach)
  · intro hr k timeout' hcall' hreach
    exact h.allDeparted hr k timeout' hcall' (hback (by omega) hreach)

/-- The counters of a rank that takes part in a broadcast as its source. -/
theorem ProcOk.posted_counters {call : Call V} (key : Key V) (now : Nat)
    (h : ProcOk worldSize calls w r p) (hphase : p.phase = .called)
    (hcall : calls[p.pc]? = some call) (hsrc : call.src = r) :
    (p.group.posted key now).broadcastSendCounter = sends calls r (p.pc + 1) ∧
    ∀ src, src ≠ r →
      (p.group.posted key now).broadcastRecvSrcCounter src = sends calls src (p.pc + 1) := by
  have hissued : p.issued = p.pc := by
    unfold Proc.issued
    rw [hphase]
    rfl
  constructor
  · rw [sends_succ r hcall, if_pos hsrc, ← hissued, ← h.sent]
    rfl
  · intro src hne
    rw [sends_succ src hcall, if_neg fun heq => hne (heq.symm.trans hsrc), Nat.add_zero,
      ← hissued, ← h.received src hne]
    rfl

/-- The counters of a rank that takes part in a broadcast from another one. -/
theorem ProcOk.received_counters {call : Call V} {src : Nat} {group : Group V}
    (h : ProcOk worldSize calls w r p) (hphase : p.phase = .called)
    (hcall : calls[p.pc]? = some call) (hsrc : call.src = src) (hr : r ≠ src)
    (hgroup : group = { p.group with
      broadcastRecvSrcCounter :=
        Function.update p.group.broadcastRecvSrcCounter src
          (p.group.broadcastRecvSrcCounter src + 1) }) :
    group.broadcastSendCounter = sends calls r (p.pc + 1) ∧
    ∀ src', src' ≠ r → group.broadcastRecvSrcCounter src' = sends calls src' (p.pc + 1) := by
  have hissued : p.issued = p.pc := by
    unfold Proc.issued
    rw [hphase]
    rfl
  subst hgroup
  constructor
  · rw [sends_succ r hcall, if_neg fun heq => hr (heq.symm.trans hsrc), Nat.add_zero, ← hissued]
    exact h.sent
  · intro src' hne
    rw [sends_succ src' hcall, ← hissued, ← h.received src' hne]
    by_cases heq : src' = src
    · subst heq
      rw [if_pos hsrc]
      exact Function.update_self _ _ _
    · rw [if_neg fun hs => heq (hs.symm.trans hsrc)]
      exact Function.update_of_ne heq _ _

/-! ## The invariant -/

/-- What holds between the steps. -/
structure Inv (worldSize : Nat) (calls : List (Call V)) (w : World V) : Prop where
  procs : ∀ r, ProcOk worldSize calls w r (w.procs r)
  store : StoreOk worldSize calls w

theorem Inv.start (worldSize dataExpirationSeconds : Nat) (calls : List (Call V)) :
    Inv worldSize calls (World.start dataExpirationSeconds) where
  procs := by
    intro r
    have hnot : ∀ k s, 0 < s →
        ¬ Proc.Reached ((World.start dataExpirationSeconds : World V).procs r) k s := by
      intro k s hs hreach
      rcases hreach with hlt | ⟨-, hle⟩
      · exact Nat.not_lt_zero k hlt
      · exact absurd hle (Nat.not_le.mpr hs)
    refine ⟨(sends_zero calls r).symm, fun src _ => (sends_zero calls src).symm, ?_, ?_, ?_, ?_,
      ?_, ?_, ?_, ?_, ?_⟩
    · intro k u hku
      exact absurd hku (by simp [World.start])
    · intro k timeout _ hreach
      exact absurd hreach (hnot k 2 (by omega))
    · intro u hu
      exact absurd hu (by simp [World.start, Phase.barrierId])
    · intro u poll hphase
      exact absurd hphase (by simp [World.start])
    · intro u poll hphase
      exact absurd hphase (by simp [World.start])
    · intro u keys hphase
      exact absurd hphase (by simp [World.start])
    · intro hfive
      exact absurd hfive (Nat.not_succ_le_zero 4)
    · intro k timeout _ hreach
      exact absurd hreach (hnot k 4 (by omega))
    · intro _ k timeout _ hreach
      exact absurd hreach (hnot k 6 (by omega))
  store := by
    refine ⟨?_, ?_, ?_, ?_, ?_, ?_⟩
    · intro k timeout val _ hval
      exact absurd hval (by simp [World.start])
    · intro u i val hval
      exact absurd hval (by simp [World.start])
    · intro u i val hval
      exact absurd hval (by simp [World.start])
    · intro key hkey
      exact absurd hkey List.not_mem_nil
    · intro k u hku
      exact absurd hku (by simp [World.start])
    · intro k k' u hku
      exact absurd hku (by simp [World.start])

variable [DecidableEq V] {s : Store V}

/-- What a step leaves as it was: the progress of the ranks, and the ids of rank 0. -/
theorem Inv.grows (h : Inv worldSize calls w) (hmove : Moves worldSize calls w r p s) :
    (∀ j k st, (w.procs j).Reached k st → ((w.put r p s).procs j).Reached k st) ∧
    (∀ k u, (w.procs 0).barrierIds k = some u →
      ((w.put r p s).procs 0).barrierIds k = some u) := by
  constructor
  · intro j k st hreach
    by_cases hj : j = r
    · subst hj
      show (Function.update w.procs j p j).Reached k st
      rw [Function.update_self]
      exact hreach.mono hmove.progress
    · show (Function.update w.procs r p j).Reached k st
      rw [Function.update_of_ne hj]
      exact hreach
  · intro k u hku
    show (Function.update w.procs r p 0).barrierIds k = some u
    by_cases hr : r = 0
    · subst hr
      rw [Function.update_self]
      rcases hmove.barrierIds_eq with heq | ⟨timeout, u', hphase, hcall, -, -, heq, -⟩
      · rw [heq]
        exact hku
      · -- the id is of an earlier call
        have hreach := ((h.procs 0).ids k u hku).1
        have hne : k ≠ (w.procs 0).pc := by
          intro hk
          rw [hk, Proc.reached_pc, hphase] at hreach
          exact absurd hreach (by simp [Phase.stage])
        rw [heq, Function.update_of_ne hne]
        exact hku
    · rw [Function.update_of_ne (Ne.symm hr)]
      exact hku

/-- A polling loop that has seen enough ranks has seen all of them. -/
theorem all_seen {seen : Finset Nat} {P : Nat → Prop} (hcard : worldSize ≤ seen.card)
    (hseen : ∀ j ∈ seen, j < worldSize ∧ P j) : ∀ j < worldSize, P j := by
  intro j hj
  have hsub : seen ⊆ Finset.range worldSize := by
    intro i hi
    exact Finset.mem_range.mpr (hseen i hi).1
  have heq : seen = Finset.range worldSize :=
    Finset.eq_of_subset_of_card_le hsub (by rw [Finset.card_range]; exact hcard)
  exact (hseen j (heq ▸ Finset.mem_range.mpr hj)).2

omit [DecidableEq V] in
/-- The ids of two barriers differ, so an id says how far the rank that uses it is. -/
theorem Inv.reached_of_id {k st : Nat} {u : V} {i : Nat} (h : Inv worldSize calls w)
    (hid : (w.procs 0).barrierIds k = some u)
    (hex : ∃ k', (w.procs 0).barrierIds k' = some u ∧ (w.procs i).Reached k' st) :
    (w.procs i).Reached k st := by
  obtain ⟨k', hid', hreach⟩ := hex
  rw [h.store.idsInj k k' u hid hid']
  exact hreach

/-- The rank that makes a step. -/
theorem Inv.step_proc (h : Inv worldSize calls w) (hmove : Moves worldSize calls w r p s) :
    ProcOk worldSize calls (w.put r p s) r p := by
  obtain ⟨hreached, hids⟩ := h.grows hmove
  have hself : r = 0 → ((w.put r p s).procs 0).barrierIds = p.barrierIds := by
    intro hr
    subst hr
    show (Function.update w.procs 0 p 0).barrierIds = p.barrierIds
    rw [Function.update_self]
  generalize w.put r p s = w' at hreached hids hself ⊢
  have hp := (h.procs r).grow hreached hids
  cases hmove with
  | call hphase =>
    have hstage : (w.procs r).phase.stage = 0 := by rw [hphase]; rfl
    refine hp.phase .called (by omega) (fun h2 => absurd h2 (by simp [Phase.stage])) ?_ ?_ ?_ ?_ ?_ ?_ ?_
    · intro u hu; cases hu
    · intro u poll hph; cases hph
    · intro u poll hph; cases hph
    · intro u keys hph; cases hph
    · intro h5; exact absurd h5 (by simp [Phase.stage])
    · intro h4; exact absurd h4 (by simp [Phase.stage])
    · intro h6; exact absurd h6 (by simp [Phase.stage])
  | send kind obj now key hkey hcall hphase =>
    obtain ⟨hsent, hreceived⟩ := hp.posted_counters key now hphase hcall rfl
    exact hp.finish_of hsent hreceived fun timeout hbarrier => by
      rw [hcall] at hbarrier
      cases hbarrier
  | recv kind src obj obj' group hr hcall hphase hrecv =>
    obtain ⟨hsent, hreceived⟩ :=
      hp.received_counters hphase hcall rfl hr (Group.recv_eq_some hrecv).2
    exact hp.finish_of hsent hreceived fun timeout hbarrier => by
      rw [hcall] at hbarrier
      cases hbarrier
  | issue timeout now uuid key hr hkey hcall hphase hfresh =>
    obtain ⟨hsent, hreceived⟩ :=
      hp.posted_counters key now hphase hcall hr.symm
    refine hp.enter_of hphase hcall hsent hreceived ?_
    rw [hself hr]
    exact Function.update_self _ _ _
  | learn timeout barrierId group hr hcall hphase hrecv =>
    obtain ⟨hdata, hgroup⟩ := Group.recv_eq_some hrecv
    obtain ⟨hsent, hreceived⟩ := hp.received_counters hphase hcall rfl hr hgroup
    refine hp.enter_of hphase hcall hsent hreceived (hids _ _ ?_)
    -- what the rank finds was put there by rank 0 in the same call
    have hcounter : (w.procs r).group.broadcastRecvSrcCounter 0 = sends calls 0 (w.procs r).pc := by
      rw [(h.procs r).received 0 (Ne.symm hr)]
      unfold Proc.issued
      rw [hphase]
      rfl
    rw [hcounter] at hdata
    obtain ⟨u, hval, hid⟩ := h.store.posted _ timeout _ hcall hdata
    cases hval
    exact hid
  | signal barrierId now hphase =>
    have hstage : (w.procs r).phase.stage = 2 := by rw [hphase]; rfl
    refine hp.phase _ (by rw [hstage]; exact Nat.le_succ 2) (fun _ => by omega) ?_ ?_ ?_ ?_ ?_ ?_
      ?_
    · intro u hu; rw [hphase]; exact hu
    · intro u poll hph j hj
      cases hph
      exact absurd hj (Finset.notMem_empty j)
    · intro u poll hph; cases hph
    · intro u keys hph; cases hph
    · intro h5; exact absurd h5 (by simp [Phase.stage])
    · intro h4; exact absurd h4 (by simp [Phase.stage])
    · intro h6; exact absurd h6 (by simp [Phase.stage])
  | look barrierId poll poll' hphase hseen =>
    have hstage : (w.procs r).phase.stage = 3 := by rw [hphase]; rfl
    have hbarrier : (w.procs r).phase.barrierId = some barrierId := by rw [hphase]; rfl
    have hid := ((h.procs r).barrier_at hbarrier).2
    refine hp.phase _ (by rw [hstage]; exact Nat.le_refl 3) (fun _ => by omega) ?_ ?_ ?_ ?_ ?_ ?_
      ?_
    · intro u hu; rw [hphase]; exact hu
    · intro u poll'' hph j hj
      cases hph
      rcases hseen j hj with hold | ⟨hlt, hpresent⟩
      · exact hp.seenArrived barrierId poll hphase j hold
      · obtain ⟨val, hval⟩ := Option.isSome_iff_exists.mp hpresent
        obtain ⟨-, hex⟩ := h.store.arrival barrierId j val hval
        exact ⟨hlt, hreached _ _ _ (h.reached_of_id hid hex)⟩
    · intro u poll'' hph; cases hph
    · intro u keys hph; cases hph
    · intro h5; exact absurd h5 (by simp [Phase.stage])
    · intro h4; exact absurd h4 (by simp [Phase.stage])
    · intro h6; exact absurd h6 (by simp [Phase.stage])
  | arrive barrierId poll hphase hcard =>
    have hstage : (w.procs r).phase.stage = 3 := by rw [hphase]; rfl
    refine hp.phase _ (by rw [hstage]; exact Nat.le_succ 3) (fun _ => by omega) ?_ ?_ ?_ ?_ ?_ ?_
      ?_
    · intro u hu; rw [hphase]; exact hu
    · intro u poll' hph; cases hph
    · intro u poll' hph; cases hph
    · intro u keys hph; cases hph
    · intro h5; exact absurd h5 (by simp [Phase.stage])
    · intro _
      right
      exact all_seen hcard (hp.seenArrived barrierId poll hphase)
    · intro h6; exact absurd h6 (by simp [Phase.stage])
  | leave barrierId hr hphase =>
    have hstage : (w.procs r).phase.stage = 4 := by rw [hphase]; rfl
    have hbarrier : (w.procs r).phase.barrierId = some barrierId := by rw [hphase]; rfl
    have hissued : (w.procs r).issued = (w.procs r).pc + 1 := by
      unfold Proc.issued
      rw [hstage]
      rfl
    refine hp.finish_of (hissued ▸ hp.sent) (fun src hsrc => hissued ▸ hp.received src hsrc) ?_
    intro timeout _
    exact ⟨by omega, fun hzero => absurd hzero hr⟩
  | stay barrierId now hr hphase =>
    have hstage : (w.procs r).phase.stage = 4 := by rw [hphase]; rfl
    refine hp.phase _ (by rw [hstage]; exact Nat.le_succ 4) (fun _ => by omega) ?_ ?_ ?_ ?_ ?_ ?_
      ?_
    · intro u hu; rw [hphase]; exact hu
    · intro u poll hph; cases hph
    · intro u poll hph j hj
      cases hph
      exact absurd hj (Finset.notMem_empty j)
    · intro u keys hph; cases hph
    · intro _; exact hr
    · intro _; left; omega
    · intro h6; exact absurd h6 (by simp [Phase.stage])
  | lookAgain barrierId poll poll' hphase hseen =>
    have hstage : (w.procs r).phase.stage = 5 := by rw [hphase]; rfl
    have hbarrier : (w.procs r).phase.barrierId = some barrierId := by rw [hphase]; rfl
    have hid := ((h.procs r).barrier_at hbarrier).2
    refine hp.phase _ (by rw [hstage]; exact Nat.le_refl 5) (fun _ => by omega) ?_ ?_ ?_ ?_ ?_ ?_
      ?_
    · intro u hu; rw [hphase]; exact hu
    · intro u poll'' hph; cases hph
    · intro u poll'' hph j hj
      cases hph
      rcases hseen j hj with hold | ⟨hlt, hpresent⟩
      · exact hp.seenDeparted barrierId poll hphase j hold
      · obtain ⟨val, hval⟩ := Option.isSome_iff_exists.mp hpresent
        obtain ⟨-, hex⟩ := h.store.departure barrierId j val hval
        exact ⟨hlt, hreached _ _ _ (h.reached_of_id hid hex)⟩
    · intro u keys hph; cases hph
    · intro _; exact hp.onlyZero (by omega)
    · intro _; left; omega
    · intro h6; exact absurd h6 (by simp [Phase.stage])
  | depart barrierId poll hphase hcard =>
    have hstage : (w.procs r).phase.stage = 5 := by rw [hphase]; rfl
    refine hp.phase _ (by rw [hstage]; exact Nat.le_succ 5) (fun _ => by omega) ?_ ?_ ?_ ?_ ?_ ?_
      ?_
    · intro u hu; rw [hphase]; exact hu
    · intro u poll' hph; cases hph
    · intro u poll' hph; cases hph
    · intro u keys hph key hkey
      cases hph
      obtain ⟨i, -, hi⟩ := List.mem_flatMap.mp hkey
      exact ⟨i, by simpa using hi⟩
    · intro _; exact hp.onlyZero (by omega)
    · intro _; left; omega
    · intro _
      right
      exact all_seen hcard (hp.seenDeparted barrierId poll hphase)
  | delete barrierId key keys hphase =>
    have hstage : (w.procs r).phase.stage = 6 := by rw [hphase]; rfl
    refine hp.phase _ (by rw [hstage]; exact Nat.le_refl 6) (fun _ => by omega) ?_ ?_ ?_ ?_ ?_ ?_
      ?_
    · intro u hu; rw [hphase]; exact hu
    · intro u poll hph; cases hph
    · intro u poll hph; cases hph
    · intro u keys' hph key' hkey'
      cases hph
      exact hp.deleting barrierId _ hphase key' (List.mem_cons_of_mem _ hkey')
    · intro _; exact hp.onlyZero (by omega)
    · intro _; left; omega
    · intro _; left; omega
  | ret barrierId hphase =>
    have hstage : (w.procs r).phase.stage = 6 := by rw [hphase]; rfl
    have hissued : (w.procs r).issued = (w.procs r).pc + 1 := by
      unfold Proc.issued
      rw [hstage]
      rfl
    refine hp.finish_of (hissued ▸ hp.sent) (fun src hsrc => hissued ▸ hp.received src hsrc) ?_
    intro timeout _
    exact ⟨by omega, fun _ => by omega⟩

end VllmEngine.Distributed.Stateless
