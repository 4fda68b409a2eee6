import VllmEngine.Distributed.BarrierInv

/-!
# The barrier separates the ranks

The store keeps its part of the invariant, so it holds in every run without time-outs, and
with it what the barrier is for (`barrier_separates`).
-/

namespace VllmEngine.Distributed.Stateless

variable {V : Type} [DecidableEq V] {worldSize : Nat} {calls : List (Call V)} {w w' : World V}
  {r : Nat} {p : Proc V} {s : Store V}

omit [DecidableEq V] in
theorem World.put_self (w : World V) (r : Nat) (p : Proc V) (s : Store V) :
    (w.put r p s).procs r = p := Function.update_self _ _ _

omit [DecidableEq V] in
theorem World.put_of_ne (w : World V) {r j : Nat} (p : Proc V) (s : Store V) (h : j ≠ r) :
    (w.put r p s).procs j = w.procs j := Function.update_of_ne h _ _

/-- An id that rank 0 has after the step it had before, or drew in the step. -/
theorem Inv.ids_back {k : Nat} {u : V} (h : Inv worldSize calls w)
    (hmove : Moves worldSize calls w r p s)
    (hku : ((w.put r p s).procs 0).barrierIds k = some u) :
    (w.procs 0).barrierIds k = some u ∨
      (r = 0 ∧ k = (w.procs 0).pc ∧ ¬ p.Reached k 6 ∧
        ∀ k', (w.procs 0).barrierIds k' ≠ some u) := by
  by_cases hr : r = 0
  · subst hr
    rw [World.put_self] at hku
    rcases hmove.barrierIds_eq with heq | ⟨timeout, u', hphase, hcall, hpc, hentered, heq,
        hfresh⟩
    · left
      rw [← heq]
      exact hku
    · rw [heq] at hku
      by_cases hk : k = (w.procs 0).pc
      · right
        rw [hk, Function.update_self] at hku
        obtain rfl := Option.some.inj hku
        refine ⟨rfl, hk, ?_, fun k' hk' => ?_⟩
        · rw [hk, ← hpc, Proc.reached_pc, hentered]
          simp [Phase.stage]
        · -- the ids it has are those of earlier calls
          rcases ((h.procs 0).ids k' _ hk').1 with hlt | ⟨-, hle⟩
          · exact hfresh rfl k' hlt hk'
          · rw [hphase] at hle
            exact absurd hle (by simp [Phase.stage])
      · left
        rw [Function.update_of_ne hk] at hku
        exact hku
  · rw [World.put_of_ne w p s (Ne.symm hr)] at hku
    exact Or.inl hku

/-- The keys of a barrier that rank 0 cleans up are set no more. -/
theorem Inv.not_set_again {k : Nat} {u : V} {key : Key V} (h : Inv worldSize calls w)
    (hr : r < worldSize) (hmove : Moves worldSize calls w r p s)
    (hid : (w.procs 0).barrierIds k = some u) (hsix : (w.procs 0).Reached k 6)
    (hkey : ∃ i, key = .arrival u i ∨ key = .departure u i) (hval : s.data key ≠ none) :
    w.store.data key ≠ none := by
  obtain ⟨i, hkey⟩ := hkey
  obtain ⟨val, hval⟩ := Option.ne_none_iff_exists'.mp hval
  have hdeparted : (w.procs r).Reached k 5 := by
    obtain ⟨-, ⟨timeout, hcall⟩, -⟩ := (h.procs 0).ids k u hid
    exact (h.procs 0).allDeparted rfl k timeout hcall hsix r hr
  -- a rank that still has the id in hand is not past stage 4
  have hearly : ∀ u', (w.procs r).phase.barrierId = some u' → u = u' →
      (w.procs r).phase.stage < 5 → False := by
    intro u' hphase huu hstage
    have hid' := ((h.procs r).barrier_at hphase).2
    rw [← huu] at hid'
    rw [h.store.idsInj _ _ _ hid hid', Proc.reached_pc] at hdeparted
    omega
  rcases hmove.data hval with hold | ⟨kind, call, heq, -⟩ | ⟨u', heq, hphase, -⟩ |
    ⟨u', heq, hphase, -⟩
  · rw [hold]
    simp
  · rcases hkey with rfl | rfl
    · cases heq
    · cases heq
  · rcases hkey with rfl | rfl
    · cases heq
      exact (hearly u (by rw [hphase]; rfl) rfl (by rw [hphase]; simp [Phase.stage])).elim
    · cases heq
  · rcases hkey with rfl | rfl
    · cases heq
    · cases heq
      exact (hearly u (by rw [hphase]; rfl) rfl (by rw [hphase]; simp [Phase.stage])).elim

theorem Inv.step_store (h : Inv worldSize calls w) (hr : r < worldSize)
    (hmove : Moves worldSize calls w r p s) : StoreOk worldSize calls (w.put r p s) := by
  obtain ⟨hreached, hids⟩ := h.grows hmove
  have hput : (w.put r p s).store = s := rfl
  refine ⟨?_, ?_, ?_, ?_, ?_, ?_⟩
  · intro k timeout val hcall hval
    rw [hput] at hval
    rcases hmove.data hval with hold | ⟨kind, call, heq, hphase, hcall', hsrc, hbarrier⟩ |
      ⟨u, heq, -⟩ | ⟨u, heq, -⟩
    · obtain ⟨u, hu, hid⟩ := h.store.posted k timeout val hcall hold
      exact ⟨u, hu, hids k u hid⟩
    · -- a broadcast of rank 0 with the same number is the same call
      injection heq with hkind hzero hnumber
      subst hzero
      have hsent := (h.procs 0).sent
      rw [show (w.procs 0).issued = (w.procs 0).pc by unfold Proc.issued; rw [hphase]; rfl]
        at hsent
      have hk := sends_inj hcall rfl hcall' hsrc (hnumber.trans hsent)
      rw [← hk, hcall] at hcall'
      obtain ⟨u, hu, hid⟩ := hbarrier timeout (Option.some.inj hcall').symm
      refine ⟨u, hu, ?_⟩
      rw [World.put_self, hk]
      exact hid
    · cases heq
    · cases heq
  · intro u i val hval
    rw [hput] at hval
    rcases hmove.data hval with hold | ⟨kind, call, heq, -⟩ | ⟨u', heq, hphase, hreach⟩ |
      ⟨u', heq, -⟩
    · obtain ⟨hlt, k, hid, hreach⟩ := h.store.arrival u i val hold
      exact ⟨hlt, k, hids k u hid, hreached i k 3 hreach⟩
    · cases heq
    · cases heq
      refine ⟨hr, (w.procs r).pc, hids _ _ ?_, ?_⟩
      · exact ((h.procs r).barrier_at (by rw [hphase]; rfl)).2
      · rw [World.put_self]
        exact hreach
    · cases heq
  · intro u i val hval
    rw [hput] at hval
    rcases hmove.data hval with hold | ⟨kind, call, heq, -⟩ | ⟨u', heq, -⟩ |
      ⟨u', heq, hphase, hreach⟩
    · obtain ⟨hlt, k, hid, hreach⟩ := h.store.departure u i val hold
      exact ⟨hlt, k, hids k u hid, hreached i k 5 hreach⟩
    · cases heq
    · cases heq
    · cases heq
      refine ⟨hr, (w.procs r).pc, hids _ _ ?_, ?_⟩
      · exact ((h.procs r).barrier_at (by rw [hphase]; rfl)).2
      · rw [World.put_self]
        exact hreach
  · intro key hkey
    rw [hput] at hkey
    rcases hmove.deleted hkey with hold | ⟨u, keys, hphase⟩
    · obtain ⟨k, u, i, hid, hform, hreach⟩ := h.store.deleted key hold
      exact ⟨k, u, i, hids k u hid, hform, hreached 0 k 6 hreach⟩
    · have hstage : (w.procs r).phase.stage = 6 := by rw [hphase]; rfl
      obtain ⟨i, hform⟩ := (h.procs r).deleting u _ hphase key List.mem_cons_self
      have hid := ((h.procs r).barrier_at (by rw [hphase]; rfl)).2
      have hzero := (h.procs r).onlyZero (by omega)
      refine ⟨(w.procs r).pc, u, i, hids _ _ hid, hform, hreached 0 _ 6 ?_⟩
      rw [← hzero, Proc.reached_pc, hstage]
  · intro k u hid hsix key hform hval
    rw [hput] at hval
    have hidOld : (w.procs 0).barrierIds k = some u := by
      rcases h.ids_back hmove hid with hold | ⟨hzero, hk, hentered, -⟩
      · exact hold
      · -- a barrier that has just been entered is not at its end
        subst hzero
        rw [World.put_self] at hsix
        exact absurd hsix hentered
    by_cases hold : (w.procs 0).Reached k 6
    · have hbefore := h.not_set_again hr hmove hidOld hold hform hval
      have hmem := h.store.swept k u hidOld hold key hform hbefore
      by_cases hzero : r = 0
      · subst hzero
        rw [World.put_self]
        exact hmove.remaining hmem hval
      · rw [World.put_of_ne w p s (Ne.symm hzero)]
        exact hmem
    · have hzero : r = 0 := by
        by_contra hne
        rw [World.put_of_ne w p s (Ne.symm hne)] at hsix
        exact hold hsix
      subst hzero
      rw [World.put_self] at hsix ⊢
      obtain ⟨-, ⟨timeout, hcall⟩, -⟩ := (h.procs 0).ids k u hidOld
      rcases hmove.reached_six rfl hcall hsix with hreach | ⟨u', poll, hphase, hk, hnew, hs⟩
      · exact absurd hreach hold
      · have hid' := ((h.procs 0).barrier_at (u := u') (by rw [hphase]; rfl)).2
        rw [← hk, hidOld] at hid'
        obtain rfl := Option.some.inj hid'
        rw [hnew]
        rw [hs] at hval
        obtain ⟨i, hform⟩ := hform
        obtain ⟨val, hval⟩ := Option.ne_none_iff_exists'.mp hval
        -- what is there was set by a rank, and the keys of all ranks are to be deleted
        have hlt : i < worldSize := by
          rcases hform with rfl | rfl
          · exact (h.store.arrival u i val hval).1
          · exact (h.store.departure u i val hval).1
        show key ∈ cleanupKeys worldSize u
        exact List.mem_flatMap.mpr ⟨i, List.mem_range.mpr hlt, by simpa using hform⟩
  · intro k k' u hid hid'
    rcases h.ids_back hmove hid with hold | ⟨-, hk, -, hfresh⟩
    · rcases h.ids_back hmove hid' with hold' | ⟨-, hk', -, hfresh'⟩
      · exact h.store.idsInj k k' u hold hold'
      · exact absurd hold (hfresh' k)
    · rcases h.ids_back hmove hid' with hold' | ⟨-, hk', -, hfresh'⟩
      · exact absurd hold' (hfresh k')
      · exact hk.trans hk'.symm

/-- The step lemma. -/
theorem Inv.step {e : Event V} (h : Inv worldSize calls w) (htimely : Timely calls w e)
    (hfresh : Fresh w e) (hstep : w.step worldSize calls e = .ok w') :
    Inv worldSize calls w' := by
  obtain ⟨hr, p, s, hmove, rfl⟩ := step_moves htimely hfresh hstep
  refine ⟨fun r => ?_, h.step_store hr hmove⟩
  by_cases heq : r = e.rank
  · rw [heq, World.put_self]
    exact h.step_proc hmove
  · rw [World.put_of_ne w p s heq]
    obtain ⟨hreached, hids⟩ := h.grows hmove
    exact (h.procs r).grow hreached hids

/-! ## What the barrier is for -/

/-- The rank has called its call `k`. -/
def Proc.Entered (p : Proc V) (k : Nat) : Prop := k < p.pc ∨ (p.pc = k ∧ p.phase ≠ .idle)

/-- The call `k` of the rank has returned. -/
def Proc.Returned (p : Proc V) (k : Nat) : Prop := k < p.pc

/-- The keys that a rank waits for. -/
def Proc.Awaits (worldSize rank : Nat) (call : Call V) (p : Proc V) (key : Key V) : Prop :=
  match p.phase with
  | .called =>
    match call with
    | .broadcast kind src _ =>
      rank ≠ src ∧ key = .broadcastFrom kind src (p.group.broadcastRecvSrcCounter src)
    | .barrier _ => rank ≠ 0 ∧ key = .broadcastFrom .obj 0 (p.group.broadcastRecvSrcCounter 0)
  | .arriving barrierId poll => ∃ j < worldSize, j ∉ poll.seen ∧ key = .arrival barrierId j
  | .departing barrierId poll => ∃ j < worldSize, j ∉ poll.seen ∧ key = .departure barrierId j
  | _ => False

/-- The barriers separate the ranks: no rank is back from one that another has not entered,
rank 0 is the last to be back, no rank waits for a key that has been deleted, and rank 0
leaves no key of a barrier behind. -/
structure Separates (worldSize : Nat) (calls : List (Call V)) (w : World V) : Prop where
  entered : ∀ k timeout, calls[k]? = some (.barrier timeout) → ∀ r < worldSize,
    (w.procs r).Returned k → ∀ j < worldSize, (w.procs j).Entered k
  zeroLast : ∀ k timeout, calls[k]? = some (.barrier timeout) → (w.procs 0).Returned k →
    ∀ j < worldSize, j ≠ 0 → (w.procs j).Returned k
  awaited : ∀ r < worldSize, ∀ call, calls[(w.procs r).pc]? = some call → ∀ key,
    (w.procs r).Awaits worldSize r call key → key ∉ w.store.deleted
  swept : ∀ k timeout, calls[k]? = some (.barrier timeout) → (w.procs 0).Returned k →
    (∃ u, (w.procs 0).barrierIds k = some u) ∧
    ∀ r u, (w.procs r).barrierIds k = some u → ∀ i,
      w.store.data (.arrival u i) = none ∧ w.store.data (.departure u i) = none

omit [DecidableEq V] in
theorem Inv.separates (h : Inv worldSize calls w) : Separates worldSize calls w := by
  refine ⟨?_, ?_, ?_, ?_⟩
  · intro k timeout hcall r _ hreturned j hj
    have hreach := (h.procs r).allArrived k timeout hcall (Or.inl hreturned) j hj
    rcases hreach with hlt | ⟨hpc, hle⟩
    · exact Or.inl hlt
    · refine Or.inr ⟨hpc, fun hidle => ?_⟩
      rw [hidle] at hle
      exact absurd hle (by simp [Phase.stage])
  · intro k timeout hcall hreturned j hj hne
    have hreach := (h.procs 0).allDeparted rfl k timeout hcall (Or.inl hreturned) j hj
    rcases hreach with hlt | ⟨-, hle⟩
    · exact hlt
    · exact absurd ((h.procs j).onlyZero hle) hne
  · intro r hr call hcall key hawaits hdeleted
    obtain ⟨k, u, i, hid, hform, hsix⟩ := h.store.deleted key hdeleted
    -- a key of the barrier that the rank is in: rank 0 is not at its end
    have hsame : ∀ u', (w.procs r).phase.barrierId = some u' → u' = u →
        (w.procs 0).Reached (w.procs r).pc 6 ∧ (w.procs r).Reached (w.procs r).pc 5 := by
      intro u' hphase huu
      obtain ⟨⟨timeout, hbarrier⟩, hid'⟩ := (h.procs r).barrier_at hphase
      rw [huu] at hid'
      have hk := h.store.idsInj _ _ u hid hid'
      rw [hk] at hsix
      exact ⟨hsix, (h.procs 0).allDeparted rfl _ timeout hbarrier hsix r hr⟩
    unfold Proc.Awaits at hawaits
    cases hphase : (w.procs r).phase with
    | called =>
      rw [hphase] at hawaits
      cases call with
      | broadcast kind src obj =>
        obtain ⟨-, rfl⟩ := hawaits
        rcases hform with hform | hform
        · cases hform
        · cases hform
      | barrier timeout =>
        obtain ⟨-, rfl⟩ := hawaits
        rcases hform with hform | hform
        · cases hform
        · cases hform
    | arriving barrierId poll =>
      rw [hphase] at hawaits
      obtain ⟨j, -, -, rfl⟩ := hawaits
      rcases hform with hform | hform
      · injection hform with hu hj
        obtain ⟨-, hfive⟩ := hsame barrierId (by rw [hphase]; rfl) hu
        rw [Proc.reached_pc, hphase] at hfive
        exact absurd hfive (by simp [Phase.stage])
      · cases hform
    | departing barrierId poll =>
      rw [hphase] at hawaits
      obtain ⟨j, -, -, rfl⟩ := hawaits
      rcases hform with hform | hform
      · cases hform
      · injection hform with hu hj
        obtain ⟨hsix, -⟩ := hsame barrierId (by rw [hphase]; rfl) hu
        have hzero := (h.procs r).onlyZero (by rw [hphase]; exact Nat.le_refl 5)
        subst hzero
        rw [Proc.reached_pc, hphase] at hsix
        exact absurd hsix (by simp [Phase.stage])
    | _ =>
      rw [hphase] at hawaits
      exact hawaits
  · intro k timeout hcall hreturned
    refine ⟨(h.procs 0).idsKnown k timeout hcall (Or.inl hreturned), fun r u hid i => ?_⟩
    have hid0 := ((h.procs r).ids k u hid).2.2
    have hswept := h.store.swept k u hid0 (Or.inl hreturned)
    -- what rank 0 has still to delete is of a later barrier
    have hnone : ∀ key, (∃ i, key = .arrival u i ∨ key = .departure u i) →
        w.store.data key = none := by
      intro key hform
      by_contra hne
      have hmem := hswept key hform hne
      cases hphase : (w.procs 0).phase with
      | deleting u' keys =>
        rw [hphase] at hmem
        obtain ⟨i', hform'⟩ := (h.procs 0).deleting u' keys hphase key hmem
        have huu : u = u' := by
          obtain ⟨i, rfl | rfl⟩ := hform
          · rcases hform' with hform' | hform'
            · injection hform'
            · cases hform'
          · rcases hform' with hform' | hform'
            · cases hform'
            · injection hform'
        have hid' := ((h.procs 0).barrier_at (by rw [hphase]; rfl)).2
        rw [← huu] at hid'
        have hk := h.store.idsInj _ _ u hid0 hid'
        exact Nat.lt_irrefl k (hk.symm ▸ hreturned)
      | _ =>
        rw [hphase] at hmem
        exact absurd hmem List.not_mem_nil
    exact ⟨hnone _ ⟨i, Or.inl rfl⟩, hnone _ ⟨i, Or.inr rfl⟩⟩

/-- In every run without time-outs whose barriers have ids of their own, the barriers
separate the ranks. -/
theorem barrier_separates (worldSize dataExpirationSeconds : Nat) (calls : List (Call V))
    (events : List (Event V)) (w : World V)
    (hevents : Run.Guarded (World.step worldSize calls)
      (fun w e => Timely calls w e ∧ Fresh w e) (World.start dataExpirationSeconds) events)
    (hrun : Run.exec (World.step worldSize calls) (World.start dataExpirationSeconds) events =
      .ok w) : Separates worldSize calls w := by
  refine Inv.separates ?_
  refine Run.exec_inv (I := Inv worldSize calls) ?_ events _ w
    (Inv.start worldSize dataExpirationSeconds calls) hevents hrun
  intro w e w' hw hguard hstep
  exact hw.step hguard.1 hguard.2 hstep

/-- A computable check of the conditions on a step. -/
def timelyFresh (calls : List (Call V)) (w : World V) (e : Event V) : Bool :=
  let p := w.procs e.rank
  (p.group.entries.all fun entry => decide (e.now - entry.2 ≤ p.group.dataExpirationSeconds)) &&
  (match calls[p.pc]?, p.phase with
    | some call, .arriving _ poll => decide (e.now - poll.startTime ≤ call.timeout)
    | some call, .departing _ poll => decide (e.now - poll.startTime ≤ call.timeout)
    | _, _ => true) &&
  (List.range (w.procs 0).pc).all fun k => decide ((w.procs 0).barrierIds k ≠ some e.uuid)

theorem timelyFresh_sound {e : Event V} (h : timelyFresh calls w e = true) :
    Timely calls w e ∧ Fresh w e := by
  unfold timelyFresh at h
  simp only [Bool.and_eq_true] at h
  obtain ⟨⟨hentries, hpoll⟩, hids⟩ := h
  refine ⟨⟨?_, ?_⟩, ?_⟩
  · intro entry hentry
    exact of_decide_eq_true (List.all_eq_true.mp hentries entry hentry)
  · intro barrierId poll call hcall hphase
    rw [hcall] at hpoll
    rcases hphase with hphase | hphase
    · rw [hphase] at hpoll
      exact of_decide_eq_true hpoll
    · rw [hphase] at hpoll
      exact of_decide_eq_true hpoll
  · intro _ _ k hk
    exact of_decide_eq_true (List.all_eq_true.mp hids k (List.mem_range.mpr hk))

/-- Two barriers with a broadcast of rank 1 between them. -/
def twoBarriers : List (Call Nat) := [.barrier 30, .broadcast .tensor 1 5, .barrier 30]

/-- The steps of two ranks that make these calls, by an unmoved clock. -/
def twoRankRun : List (Event Nat) :=
  [0, 1, 0, 1, 0, 1, 0, 1, 0, 1, 0, 1, 0, 1, 0, 1, 0, 1, 0, 1, 0, 0, 0, 0, 0, 0, 0, 0, 0, 1, 0, 1, 0, 1,
    0, 1, 0, 1, 0, 1, 0, 0, 0, 0, 0, 0, 0, 0].zipIdx.map fun (rank, uuid) => ⟨rank, 0, uuid⟩

/-- Both ranks are back from the second barrier in the end. -/
theorem barrier_separates_two : ∃ w,
    Run.exec (World.step 2 twoBarriers) (World.start 3600) twoRankRun = .ok w ∧
      (w.procs 0).Returned 2 ∧ (w.procs 1).Returned 2 ∧ Separates 2 twoBarriers w := by
  refine ⟨_, rfl, ?_, ?_, ?_⟩
  · exact Nat.lt_succ_self 2
  · exact Nat.lt_succ_self 2
  · refine barrier_separates 2 3600 twoBarriers twoRankRun _ ?_ rfl
    exact Run.Guarded.of_check (fun _ _ h => timelyFresh_sound h) _ _ rfl

end VllmEngine.Distributed.Stateless
