import VllmEngine.Distributed.StoreGroup

/-!
# Collective calls through the store

`all_gather_obj` is a loop over the ranks: each iteration is a broadcast, of the rank itself or of
another one. `GatherInv` counts for every pair of ranks the broadcasts against the calls they
belong to. Since the ranks are in step, the broadcast that a rank gets in its k-th
`all_gather_obj` belongs to the k-th `all_gather_obj` of the other.
-/

namespace VllmEngine.Distributed

variable {n : Nat} {Obj : Type*}

/-! ## Calls in step -/

/-- Every rank broadcasts in an `all_gather_obj`: the calls in which a rank broadcasts have all of
them. -/
theorem gatherObjs_eq_callsFrom (events : List (GroupEvent n Obj)) (src rank : Fin n) :
    gatherObjs events rank = (callsFrom events src rank).filterMap (·.gatherObj) := by
  unfold gatherObjs callsFrom
  rw [List.filterMap_filter]
  refine List.filterMap_congr fun call _ => ?_
  cases call with
  | broadcast s obj => simp [CollectiveCall.gatherObj]
  | allGather obj => simp [CollectiveCall.involves]

/-- The kinds of the calls tell how many of them gather. -/
theorem count_isGather : ∀ xs : List (CollectiveCall n Obj),
    (xs.map (·.isGather)).count true = (xs.filterMap (·.gatherObj)).length
  | [] => rfl
  | .broadcast _ _ :: xs => by
    rw [List.map_cons, List.filterMap_cons_none rfl, ← count_isGather xs]
    exact List.count_cons_of_ne Bool.false_ne_true
  | .allGather _ :: xs => by
    rw [List.map_cons, List.filterMap_cons]
    show List.count true (true :: _) = (_ :: xs.filterMap (·.gatherObj)).length
    rw [List.count_cons_self, List.length_cons, count_isGather xs]

/-- How many calls are an `all_gather_obj` depends on their kinds alone. -/
theorem length_gatherObj_of_kinds {xs ys : List (CollectiveCall n Obj)}
    (h : xs.map (·.isGather) = ys.map (·.isGather)) :
    (xs.filterMap (·.gatherObj)).length = (ys.filterMap (·.gatherObj)).length := by
  rw [← count_isGather, ← count_isGather, h]

variable {events new : List (GroupEvent n Obj)} {o : Obj} {w w' : GroupWorld n Obj} {rank : Fin n}
  {ag : AllGather Obj}

/-- Ranks stay in step as long as none makes a call. -/
theorem InStep.append (h : InStep events) (hcalls : ∀ rank, collectiveCalls new rank = []) :
    InStep (events ++ new) := by
  intro rank src
  have hfrom : ∀ r, callsFrom (events ++ new) src r = callsFrom events src r := by
    intro r
    simp [callsFrom, hcalls]
  rw [hfrom, hfrom]
  exact h rank src

/-- Of two lists in step, one is the other up to its length. -/
theorem take_of_comparable {α : Type*} {xs ys : List α} (h : xs <+: ys ∨ ys <+: xs) {k : Nat}
    (hx : k ≤ xs.length) (hy : k ≤ ys.length) : xs.take k = ys.take k := by
  obtain ⟨rest, hrest⟩ | ⟨rest, hrest⟩ := h
  · rw [← hrest, List.take_append_of_le_length hx]
  · rw [← hrest, List.take_append_of_le_length hy]

/-- In calls that are in step with others, what stands where the others have an `all_gather_obj`
is the `all_gather_obj` with the same number. -/
theorem gatherObj_of_inStep {pre calls xs : List (CollectiveCall n Obj)} {obj : Obj}
    (hcalls : calls = pre ++ [.allGather obj])
    (hstep : calls.map (·.isGather) <+: xs.map (·.isGather) ∨ xs.map (·.isGather) <+: calls.map (·.isGather))
    (ho : (xs.map (·.obj))[pre.length]? = some o) :
    (xs.filterMap (·.gatherObj))[(pre.filterMap (·.gatherObj)).length]? = some o := by
  subst hcalls
  rw [List.getElem?_map] at ho
  obtain ⟨call, hcall, hobj⟩ := Option.map_eq_some_iff.mp ho
  obtain ⟨hlt, hget⟩ := List.getElem?_eq_some_iff.mp hcall
  have hkinds := take_of_comparable (k := pre.length + 1) hstep (by simp) (by simpa using hlt)
  have htake : xs.take (pre.length + 1) = xs.take pre.length ++ [call] := by
    rw [List.take_add_one, hcall]
    rfl
  rw [← List.map_take, ← List.map_take, htake, List.take_of_length_le (by simp), List.map_append,
    List.map_append] at hkinds
  obtain ⟨hpre, hlast⟩ := List.append_inj hkinds (by simp [Nat.le_of_lt hlt])
  have hgather : call = .allGather o := by
    cases call with
    | broadcast s x => simp [CollectiveCall.isGather] at hlast
    | allGather x => rw [← hobj]; rfl
  rw [length_gatherObj_of_kinds hpre]
  have hsplit : xs.filterMap (·.gatherObj)
      = (xs.take pre.length).filterMap (·.gatherObj)
        ++ o :: (xs.drop (pre.length + 1)).filterMap (·.gatherObj) := by
    conv_lhs => rw [← List.take_append_drop (pre.length + 1) xs, htake, hgather]
    simp [CollectiveCall.gatherObj]
  rw [hsplit, List.getElem?_append_right (Nat.le_refl _), Nat.sub_self]
  rfl

/-! ## The invariant -/

/-- What the running `all_gather_obj` of a rank has still to broadcast, or to get, from `i`. -/
def pendingObj (g : Option (AllGather Obj)) (i : Fin n) : List Obj :=
  match g with
  | some ag => if ag.gatheredObjs.length ≤ i.val then [ag.obj] else []
  | none => []

/-- Broadcasts and the calls they belong to. -/
structure GatherInv (w : GroupWorld n Obj) (events : List (GroupEvent n Obj)) : Prop where
  inStep : InStep events
  own : ∀ i : Fin n,
    broadcastObjs events i ++ pendingObj (w.gathering i) i = (callsFrom events i i).map (·.obj)
  counts : ∀ rank i : Fin n, rank ≠ i →
    (broadcastReceivedObjs events rank i).length + (pendingObj (w.gathering rank) i).length
      = (callsFrom events i rank).length
  current : ∀ (rank : Fin n) (ag : AllGather Obj), w.gathering rank = some ag →
    ag.gatheredObjs.length < n
      ∧ ∃ before, collectiveCalls events rank = before ++ [.allGather ag.obj]
        ∧ ∀ i : Fin n, i.val < ag.gatheredObjs.length → ∃ o, ag.gatheredObjs[i.val]? = some o
          ∧ ((callsFrom events i i).map (·.obj))[(before.filter (·.involves i)).length]? = some o
  returned : ∀ rank : Fin n,
    (gatherResults events rank).length + (w.gathering rank).toList.length
      = (gatherObjs events rank).length
  results : ∀ (rank : Fin n) (k : Nat) (objs : List Obj),
    (gatherResults events rank)[k]? = some objs →
      ∃ passed : Fin n → Obj, objs = List.ofFn passed
        ∧ ∀ i : Fin n, (gatherObjs events i)[k]? = some (passed i)

theorem GatherInv.init : GatherInv (GroupWorld.init n Obj) [] where
  inStep _ _ := Or.inl (List.prefix_refl _)
  own _ := rfl
  counts _ _ _ := rfl
  current _ _ h := by cases h
  returned _ := rfl
  results _ k _ h := by
    have hnone : ([] : List (List Obj))[k]? = none := rfl
    exact absurd (hnone.symm.trans h) (by simp)

/-- Calls that are made later leave what is known of the running calls and of the results. -/
theorem GatherInv.results_append (hinv : GatherInv w events) (new : List (GroupEvent n Obj))
    (hnew : ∀ rank, gatherResults new rank = []) (rank : Fin n) (k : Nat) (objs : List Obj)
    (h : (gatherResults (events ++ new) rank)[k]? = some objs) :
    ∃ passed : Fin n → Obj, objs = List.ofFn passed
      ∧ ∀ i : Fin n, (gatherObjs (events ++ new) i)[k]? = some (passed i) := by
  rw [gatherResults_append, hnew, List.append_nil] at h
  obtain ⟨passed, hobjs, hpassed⟩ := hinv.results rank k objs h
  refine ⟨passed, hobjs, fun i => ?_⟩
  have hget := hpassed i
  rw [gatherObjs_append, List.getElem?_append_left (List.getElem?_eq_some_iff.mp hget).1]
  exact hget

theorem GatherInv.current_append (hinv : GatherInv w events) (new : List (GroupEvent n Obj))
    (hag : w.gathering rank = some ag) (hcalls : collectiveCalls new rank = []) :
    ag.gatheredObjs.length < n
      ∧ ∃ before, collectiveCalls (events ++ new) rank = before ++ [.allGather ag.obj]
        ∧ ∀ i : Fin n, i.val < ag.gatheredObjs.length → ∃ o, ag.gatheredObjs[i.val]? = some o
          ∧ ((callsFrom (events ++ new) i i).map (·.obj))[(before.filter (·.involves i)).length]?
            = some o := by
  obtain ⟨hlt, before, hbefore, hgot⟩ := hinv.current rank ag hag
  refine ⟨hlt, before, ?_, fun i hi => ?_⟩
  · rw [collectiveCalls_append, hcalls, List.append_nil]
    exact hbefore
  · obtain ⟨o, ho, hsource⟩ := hgot i hi
    refine ⟨o, ho, ?_⟩
    rw [callsFrom_append, List.map_append,
      List.getElem?_append_left (List.getElem?_eq_some_iff.mp hsource).1]
    exact hsource

/-- Sends and their receipts are no part of it. -/
theorem GatherInv.frame (hinv : GatherInv w events) (hgathering : w'.gathering = w.gathering)
    (hcalls : ∀ rank, collectiveCalls new rank = []) (hsent : ∀ src, broadcastObjs new src = [])
    (hreceived : ∀ rank src, broadcastReceivedObjs new rank src = [])
    (hresults : ∀ rank, gatherResults new rank = []) : GatherInv w' (events ++ new) := by
  have hfrom : ∀ src rank, callsFrom (events ++ new) src rank = callsFrom events src rank := by
    intro src rank
    simp [callsFrom, hcalls]
  constructor
  case inStep => exact hinv.inStep.append hcalls
  case own =>
    intro i
    rw [broadcastObjs_append, hsent, List.append_nil, hfrom, hgathering]
    exact hinv.own i
  case counts =>
    intro rank i hne
    rw [broadcastReceivedObjs_append, hreceived, List.append_nil, hfrom, hgathering]
    exact hinv.counts rank i hne
  case current =>
    intro rank ag hag
    rw [hgathering] at hag
    exact hinv.current_append new hag (hcalls rank)
  case returned =>
    intro rank
    rw [gatherResults_append, hresults, List.append_nil, hgathering, hinv.returned]
    simp [gatherObjs, hcalls]
  case results => exact hinv.results_append new hresults

/-! ## Steps -/

/-- `broadcast_obj` called on its own. -/
theorem GatherInv.broadcastObj {src : Fin n} {obj : Obj} (hinv : GatherInv w events)
    (hnone : w.gathering rank = none)
    (hstep : InStep (events ++ [.called rank (.broadcast src obj)]))
    (h : w.broadcastObj rank obj src = some (w', o)) :
    GatherInv w' (events ++ ([.called rank (.broadcast src obj)] ++ [broadcastEvent rank src o])) := by
  have hgathering := (GroupWorld.broadcastObj_frame h).2.2
  have hcalls : ∀ r, collectiveCalls ([.called rank (.broadcast src obj)] ++ [broadcastEvent rank src o]) r
      = if rank = r then [.broadcast src obj] else [] := by
    intro r
    rw [collectiveCalls_append, collectiveCalls_broadcastEvent, List.append_nil]
    by_cases hr : rank = r <;> simp [collectiveCalls, hr]
  have hfrom : ∀ s r, callsFrom ([.called rank (.broadcast src obj)] ++ [broadcastEvent rank src o]) s r
      = if rank = r ∧ src = s then [.broadcast src obj] else [] := by
    intro s r
    rw [callsFrom, hcalls]
    by_cases hr : rank = r
    · by_cases hs : src = s <;> simp [hr, hs, CollectiveCall.involves]
    · simp [hr]
  have hsent : ∀ s, broadcastObjs ([.called rank (.broadcast src obj)] ++ [broadcastEvent rank src o]) s
      = if rank = src ∧ src = s then [o] else [] := by
    intro s
    rw [broadcastObjs_append, broadcastObjs_broadcastEvent]
    rfl
  have hgot : ∀ r s,
      broadcastReceivedObjs ([.called rank (.broadcast src obj)] ++ [broadcastEvent rank src o]) r s
        = if rank ≠ src ∧ rank = r ∧ src = s then [o] else [] := by
    intro r s
    rw [broadcastReceivedObjs_append, broadcastReceivedObjs_broadcastEvent]
    rfl
  have hresults : ∀ r,
      gatherResults ([.called rank (.broadcast src obj)] ++ [broadcastEvent rank src o]) r = [] := by
    intro r
    rw [gatherResults_append, gatherResults_broadcastEvent]
    rfl
  constructor
  case inStep =>
    rw [← List.append_assoc]
    exact hstep.append fun r => collectiveCalls_broadcastEvent rank src r o
  case own =>
    intro i
    rw [broadcastObjs_append, callsFrom_append, List.map_append, hsent, hfrom, hgathering, ← hinv.own]
    by_cases hi : rank = i ∧ src = i
    · obtain ⟨hr, hs⟩ := hi
      subst hr hs
      cases GroupWorld.broadcastObj_own h
      simp [hnone, pendingObj, CollectiveCall.obj]
    · rw [if_neg (fun hc => hi ⟨hc.1.trans hc.2, hc.2⟩), if_neg hi]
      simp
  case counts =>
    intro r i hne
    rw [broadcastReceivedObjs_append, callsFrom_append, List.length_append, List.length_append, hgot,
      hfrom, hgathering, ← hinv.counts r i hne]
    by_cases hi : rank = r ∧ src = i
    · obtain ⟨hr, hs⟩ := hi
      subst hr hs
      rw [if_pos ⟨hne, rfl, rfl⟩, if_pos ⟨rfl, rfl⟩, List.length_singleton, List.length_singleton]
      omega
    · rw [if_neg (fun hc => hi hc.2), if_neg hi]
      rfl
  case current =>
    intro r ag hag
    rw [hgathering] at hag
    have hr : rank ≠ r := by
      intro he
      rw [he, hag] at hnone
      cases hnone
    exact hinv.current_append _ hag (by rw [hcalls, if_neg hr])
  case returned =>
    intro r
    rw [gatherResults_append, hresults, List.append_nil, hgathering, hinv.returned]
    rw [gatherObjs_append, gatherObjs, gatherObjs, hcalls]
    by_cases hr : rank = r <;> simp [hr, CollectiveCall.gatherObj]
  case results => exact hinv.results_append _ hresults

/-- The call of `all_gather_obj`. -/
theorem GatherInv.allGatherObj {obj : Obj} (hinv : GatherInv w events)
    (hnone : w.gathering rank = none) (hstep : InStep (events ++ [.called rank (.allGather obj)])) :
    GatherInv (w.allGatherObj rank obj) (events ++ [.called rank (.allGather obj)]) := by
  have hcalls : ∀ r, collectiveCalls [GroupEvent.called rank (.allGather obj)] r
      = if rank = r then [.allGather obj] else [] := by
    intro r
    by_cases hr : rank = r <;> simp [collectiveCalls, hr]
  have hfrom : ∀ s r, callsFrom [GroupEvent.called rank (.allGather obj)] s r
      = if rank = r then [.allGather obj] else [] := by
    intro s r
    rw [callsFrom, hcalls]
    by_cases hr : rank = r <;> simp [hr, CollectiveCall.involves]
  have hself : (w.allGatherObj rank obj).gathering rank = some { obj, gatheredObjs := [] } :=
    Function.update_self _ _ _
  have hother : ∀ r, r ≠ rank → (w.allGatherObj rank obj).gathering r = w.gathering r :=
    fun r hr => Function.update_of_ne hr _ _
  constructor
  case inStep => exact hstep
  case own =>
    intro i
    rw [broadcastObjs_append, callsFrom_append, List.map_append, hfrom, ← hinv.own]
    have hsent : broadcastObjs [GroupEvent.called rank (.allGather obj)] i = [] := rfl
    rw [hsent, List.append_nil]
    by_cases hi : i = rank
    · subst hi
      rw [hself, hnone]
      simp [pendingObj, CollectiveCall.obj]
    · rw [hother i hi, if_neg (Ne.symm hi)]
      simp
  case counts =>
    intro r i hne
    rw [broadcastReceivedObjs_append, callsFrom_append, List.length_append, List.length_append, hfrom,
      ← hinv.counts r i hne]
    have hgot : broadcastReceivedObjs [GroupEvent.called rank (.allGather obj)] r i = [] := rfl
    rw [hgot, List.length_nil]
    by_cases hr : r = rank
    · subst hr
      rw [hself, hnone, if_pos rfl]
      simp [pendingObj]
    · rw [hother r hr, if_neg (Ne.symm hr)]
      rfl
  case current =>
    intro r ag hag
    by_cases hr : r = rank
    · subst hr
      rw [hself] at hag
      cases hag
      refine ⟨r.pos, collectiveCalls events r, ?_, fun i hi => absurd hi (Nat.not_lt_zero _)⟩
      rw [collectiveCalls_append, hcalls, if_pos rfl]
    · rw [hother r hr] at hag
      exact hinv.current_append _ hag (by rw [hcalls, if_neg (Ne.symm hr)])
  case returned =>
    intro r
    have hresult : gatherResults [GroupEvent.called rank (.allGather obj)] r = [] := rfl
    have hreturned := hinv.returned r
    rw [gatherResults_append, hresult, List.append_nil, gatherObjs_append, List.length_append,
      ← hreturned]
    by_cases hr : r = rank
    · subst hr
      rw [hself, hnone]
      simp [gatherObjs, hcalls, CollectiveCall.gatherObj]
    · rw [hother r hr]
      simp [gatherObjs, hcalls, Ne.symm hr]
  case results => exact hinv.results_append _ (fun _ => rfl)

/-- What an iteration of `all_gather_obj` gets belongs to the call of the other rank that stands
where this one stands among its own. -/
theorem GatherInv.fetched {i : Fin n} {before : List (CollectiveCall n Obj)}
    (hinv : GatherInv w events) (hbroadcast : BroadcastInv w events)
    (hag : w.gathering rank = some ag) (hi : ag.gatheredObjs.length = i.val)
    (hbefore : collectiveCalls events rank = before ++ [.allGather ag.obj])
    (h : w.broadcastObj rank ag.obj i = some (w', o)) :
    ((callsFrom events i i).map (·.obj))[(before.filter (·.involves i)).length]? = some o := by
  have hfrom : callsFrom events i rank = before.filter (·.involves i) ++ [.allGather ag.obj] := by
    rw [callsFrom, hbefore, List.filter_append]
    rfl
  by_cases hrank : rank = i
  · subst hrank
    cases GroupWorld.broadcastObj_own h
    rw [hfrom, List.map_append, List.getElem?_append_right (by simp), List.length_map, Nat.sub_self]
    rfl
  · have hnext := hbroadcast.next hrank h
    have hcount := hinv.counts rank i hrank
    rw [hag, hfrom, List.length_append, List.length_singleton] at hcount
    have hpending : (pendingObj (some ag) i).length = 1 := by
      rw [pendingObj, if_pos (Nat.le_of_eq hi)]
      rfl
    have hnumber : (broadcastReceivedObjs events rank i).length = (before.filter (·.involves i)).length := by
      omega
    rw [← hnumber, ← hinv.own, List.getElem?_append_left (List.getElem?_eq_some_iff.mp hnext).1]
    exact hnext

/-- What is pending after an iteration. -/
theorem pendingObj_next {g : Option (AllGather Obj)}
    (hg : (ag.gatheredObjs.length + 1 < n ∧ g = some { obj := ag.obj, gatheredObjs := ag.gatheredObjs ++ [o] }) ∨ (ag.gatheredObjs.length + 1 = n ∧ g = none)) :
    pendingObj g rank = if ag.gatheredObjs.length + 1 ≤ rank.val then [ag.obj] else [] := by
  obtain ⟨-, hg⟩ | ⟨hlast, hg⟩ := hg
  · rw [hg, pendingObj, List.length_append, List.length_singleton]
  · rw [hg, pendingObj, if_neg (by omega)]

/-- An iteration of `all_gather_obj` changes broadcasts and what is pending alike. -/
theorem GatherInv.gatherNext_counts {i : Fin n} {g : Option (AllGather Obj)}
    (hinv : GatherInv w events) (hag : w.gathering rank = some ag)
    (hi : ag.gatheredObjs.length = i.val) (ho : rank = i → o = ag.obj)
    (hg : ∀ s : Fin n, pendingObj g s = if ag.gatheredObjs.length + 1 ≤ s.val then [ag.obj] else []) :
    (∀ s : Fin n, broadcastObjs (events ++ [broadcastEvent rank i o]) s
        ++ pendingObj (Function.update w.gathering rank g s) s = (callsFrom events s s).map (·.obj))
      ∧ ∀ r s : Fin n, r ≠ s → (broadcastReceivedObjs (events ++ [broadcastEvent rank i o]) r s).length
        + (pendingObj (Function.update w.gathering rank g r) s).length
          = (callsFrom events s r).length := by
  constructor
  · intro s
    rw [broadcastObjs_append, broadcastObjs_broadcastEvent, ← hinv.own]
    by_cases hs : s = rank
    · subst hs
      rw [Function.update_self, hag, hg, pendingObj, hi]
      by_cases hsi : s = i
      · subst hsi
        rw [if_pos ⟨rfl, rfl⟩, if_neg (by omega), if_pos (Nat.le_refl _), List.append_nil, ho rfl]
      · rw [if_neg (fun hc => hsi hc.1), List.append_nil]
        have hne : s.val ≠ i.val := fun he => hsi (Fin.ext he)
        by_cases hle : i.val ≤ s.val
        · rw [if_pos hle, if_pos (by omega)]
        · rw [if_neg hle, if_neg (by omega)]
    · rw [Function.update_of_ne hs, if_neg (fun hc => hs (hc.1.trans hc.2).symm), List.append_nil]
  · intro r s hrs
    rw [broadcastReceivedObjs_append, broadcastReceivedObjs_broadcastEvent, List.length_append,
      ← hinv.counts r s hrs]
    by_cases hr : r = rank
    · subst hr
      rw [Function.update_self, hag, hg, pendingObj, hi]
      by_cases hsi : i = s
      · subst hsi
        rw [if_pos ⟨hrs, rfl, rfl⟩, if_neg (by omega), if_pos (Nat.le_refl _)]
        rfl
      · rw [if_neg (fun hc => hsi hc.2.2)]
        have hne : s.val ≠ i.val := fun he => hsi (Fin.ext he.symm)
        by_cases hle : i.val ≤ s.val
        · rw [if_pos hle, if_pos (by omega)]
          rfl
        · rw [if_neg hle, if_neg (by omega)]
          rfl
    · rw [Function.update_of_ne hr, if_neg (fun hc => hr hc.2.1.symm)]
      rfl

/-- The list of the objects that a rank has gathered when the loop is done. -/
theorem ofFn_of_getElem? {objs : List Obj} (hlen : objs.length = n) {P : Fin n → Obj → Prop}
    (h : ∀ i : Fin n, ∃ o, objs[i.val]? = some o ∧ P i o) :
    ∃ passed : Fin n → Obj, objs = List.ofFn passed ∧ ∀ i, P i (passed i) := by
  choose passed hpassed using h
  refine ⟨passed, ?_, fun i => (hpassed i).2⟩
  refine List.ext_getElem? fun k => ?_
  by_cases hk : k < n
  · rw [(hpassed ⟨k, hk⟩).1]
    simp [hk]
  · rw [List.getElem?_eq_none (by omega), List.getElem?_eq_none (by simpa using hk)]

/-- What an iteration knows of all the objects gathered so far. -/
theorem GatherInv.gathered_next {hi : ag.gatheredObjs.length < n}
    {before : List (CollectiveCall n Obj)} (hinv : GatherInv w events)
    (hbroadcast : BroadcastInv w events) (hag : w.gathering rank = some ag)
    (hbefore : collectiveCalls events rank = before ++ [.allGather ag.obj])
    (hgot : ∀ i : Fin n, i.val < ag.gatheredObjs.length → ∃ x, ag.gatheredObjs[i.val]? = some x ∧ ((callsFrom events i i).map (·.obj))[(before.filter (·.involves i)).length]? = some x)
    (h : w.broadcastObj rank ag.obj ⟨ag.gatheredObjs.length, hi⟩ = some (w', o)) (i : Fin n)
    (hle : i.val < ag.gatheredObjs.length + 1) :
    ∃ x, (ag.gatheredObjs ++ [o])[i.val]? = some x
      ∧ ((callsFrom events i i).map (·.obj))[(before.filter (·.involves i)).length]? = some x := by
  by_cases hlt : i.val < ag.gatheredObjs.length
  · obtain ⟨x, hx, hsource⟩ := hgot i hlt
    exact ⟨x, by rw [List.getElem?_append_left hlt]; exact hx, hsource⟩
  · have hlast : i = ⟨ag.gatheredObjs.length, hi⟩ := by
      apply Fin.ext
      show i.val = ag.gatheredObjs.length
      omega
    subst hlast
    refine ⟨o, ?_, hinv.fetched hbroadcast hag rfl hbefore h⟩
    rw [List.getElem?_append_right (Nat.le_refl _), Nat.sub_self]
    rfl

/-- An iteration of `all_gather_obj`. -/
theorem GatherInv.gatherNext (hinv : GatherInv w events) (hbroadcast : BroadcastInv w events)
    (h : w.gatherNext rank = some (w', new)) : GatherInv w' (events ++ new) := by
  obtain ⟨ag, w₁, o, hi, hag, hfetch, hcases⟩ := GroupWorld.gatherNext_cases h
  obtain ⟨-, before, hbefore, hgot⟩ := hinv.current rank ag hag
  have hnext := hinv.gathered_next hbroadcast hag hbefore hgot hfetch
  have hown : rank = ⟨ag.gatheredObjs.length, hi⟩ → o = ag.obj := by
    intro hrank
    rw [← hrank] at hfetch
    exact GroupWorld.broadcastObj_own hfetch
  have hcount := fun g hg => hinv.gatherNext_counts (g := g) hag rfl hown hg
  obtain ⟨hlt, hw, hnew⟩ | ⟨hlast, hw, hnew⟩ := hcases
  · subst hw hnew
    obtain ⟨hsent, hreceived⟩ := hcount _ (fun s => pendingObj_next (Or.inl ⟨hlt, rfl⟩))
    constructor
    case inStep => exact hinv.inStep.append (collectiveCalls_broadcastEvent rank _ · o)
    case own =>
      intro i
      rw [hsent i]
      simp [callsFrom]
    case counts =>
      intro r i hne
      rw [hreceived r i hne]
      simp [callsFrom]
    case current =>
      intro r ag' hag'
      have hag'' : Function.update w.gathering rank _ r = some ag' := hag'
      by_cases hr : r = rank
      · subst hr
        rw [Function.update_self] at hag''
        cases hag''
        refine ⟨by simpa using hlt, before, by simpa using hbefore, fun i hlen => ?_⟩
        rw [List.length_append, List.length_singleton] at hlen
        simpa [callsFrom] using hnext i hlen
      · rw [Function.update_of_ne hr] at hag''
        exact hinv.current_append _ hag'' (collectiveCalls_broadcastEvent rank _ r o)
    case returned =>
      intro r
      have hreturned := hinv.returned r
      rw [gatherResults_append, gatherResults_broadcastEvent, List.append_nil, gatherObjs_append]
      show _ + (Function.update w.gathering rank _ r).toList.length = _
      by_cases hr : r = rank
      · subst hr
        rw [hag] at hreturned
        rw [Function.update_self]
        simpa [gatherObjs] using hreturned
      · rw [Function.update_of_ne hr]
        simpa [gatherObjs] using hreturned
    case results => exact hinv.results_append _ (gatherResults_broadcastEvent rank _ · o)
  · subst hw hnew
    obtain ⟨hsent, hreceived⟩ := hcount none (fun s => pendingObj_next (o := o) (Or.inr ⟨hlast, rfl⟩))
    have hnoCalls : ∀ r, collectiveCalls ([broadcastEvent rank ⟨ag.gatheredObjs.length, hi⟩ o]
        ++ [.gathered rank (ag.gatheredObjs ++ [o])]) r = [] := by
      intro r
      rw [collectiveCalls_append, collectiveCalls_broadcastEvent]
      rfl
    have hresult : ∀ r, gatherResults ([broadcastEvent rank ⟨ag.gatheredObjs.length, hi⟩ o]
        ++ [.gathered rank (ag.gatheredObjs ++ [o])]) r
          = if rank = r then [ag.gatheredObjs ++ [o]] else [] := by
      intro r
      rw [gatherResults_append, gatherResults_broadcastEvent]
      by_cases hr : rank = r <;> simp [gatherResults, hr]
    have hobjs : ∀ r, gatherObjs (events ++ ([broadcastEvent rank ⟨ag.gatheredObjs.length, hi⟩ o]
        ++ [.gathered rank (ag.gatheredObjs ++ [o])])) r = gatherObjs events r := by
      intro r
      rw [gatherObjs, collectiveCalls_append, hnoCalls, List.append_nil]
      rfl
    have hreturned := hinv.returned rank
    rw [hag] at hreturned
    constructor
    case inStep => exact hinv.inStep.append hnoCalls
    case own =>
      intro i
      have hno : broadcastObjs [GroupEvent.gathered rank (ag.gatheredObjs ++ [o])] i = [] := rfl
      rw [callsFrom_append, callsFrom, callsFrom, hnoCalls, List.filter_nil, List.append_nil,
        ← List.append_assoc, broadcastObjs_append, hno, List.append_nil]
      exact hsent i
    case counts =>
      intro r i hne
      have hno : broadcastReceivedObjs [GroupEvent.gathered rank (ag.gatheredObjs ++ [o])] r i = [] :=
        rfl
      rw [callsFrom_append, callsFrom, callsFrom, hnoCalls, List.filter_nil, List.append_nil,
        ← List.append_assoc, broadcastReceivedObjs_append, hno, List.append_nil]
      exact hreceived r i hne
    case current =>
      intro r ag' hag'
      have hag'' : Function.update w.gathering rank none r = some ag' := hag'
      by_cases hr : r = rank
      · subst hr
        rw [Function.update_self] at hag''
        cases hag''
      · rw [Function.update_of_ne hr] at hag''
        exact hinv.current_append _ hag'' (hnoCalls r)
    case returned =>
      intro r
      rw [gatherResults_append, hresult, hobjs, List.length_append]
      show _ + (Function.update w.gathering rank none r).toList.length = _
      by_cases hr : r = rank
      · subst hr
        rw [Function.update_self, if_pos rfl, ← hreturned]
        rfl
      · rw [Function.update_of_ne hr, if_neg (Ne.symm hr), ← hinv.returned r]
        rfl
    case results =>
      intro r k objs hget
      rw [gatherResults_append, hresult] at hget
      by_cases hnewResult : rank = r ∧ k = (gatherResults events rank).length
      · obtain ⟨hr, hk⟩ := hnewResult
        subst hr hk
        rw [if_pos rfl, List.getElem?_append_right (Nat.le_refl _), Nat.sub_self] at hget
        cases hget
        have hlen : (ag.gatheredObjs ++ [o]).length = n := by simpa using hlast
        obtain ⟨passed, hpassed, hsource⟩ := ofFn_of_getElem? hlen
          fun i => hnext i (Nat.lt_of_lt_of_le i.isLt (Nat.le_of_eq hlast.symm))
        refine ⟨passed, hpassed, fun i => ?_⟩
        have hfrom : callsFrom events i rank = before.filter (·.involves i) ++ [.allGather ag.obj] := by
          rw [callsFrom, hbefore, List.filter_append]
          rfl
        have hnumber : (gatherResults events rank).length
            = ((before.filter (·.involves i)).filterMap (·.gatherObj)).length := by
          rw [gatherObjs_eq_callsFrom events i rank, hfrom, List.filterMap_append, List.length_append]
            at hreturned
          simpa [CollectiveCall.gatherObj] using hreturned
        rw [hobjs, gatherObjs_eq_callsFrom events i i, hnumber]
        exact gatherObj_of_inStep hfrom (hinv.inStep rank i) (hsource i)
      · have hold : (gatherResults events r)[k]? = some objs := by
          by_cases hr : rank = r
          · subst hr
            rw [if_pos rfl, List.getElem?_append] at hget
            split at hget
            next => exact hget
            next hlen =>
              have hk : k ≠ (gatherResults events rank).length := fun hk => hnewResult ⟨rfl, hk⟩
              rw [List.getElem?_eq_none (by rw [List.length_singleton]; omega)] at hget
              cases hget
          · rw [if_neg hr, List.append_nil] at hget
            exact hget
        obtain ⟨passed, hpassed, hsource⟩ := hinv.results r k objs hold
        exact ⟨passed, hpassed, fun i => by rw [hobjs]; exact hsource i⟩

/-! ## Runs -/

/-- All that is known of a state of a run that meets the conditions. -/
structure GroupInv (w : GroupWorld n Obj) (events : List (GroupEvent n Obj)) : Prop where
  send : SendInv w events
  broadcast : BroadcastInv w events
  gather : GatherInv w events

theorem GroupInv.init : GroupInv (GroupWorld.init n Obj) [] where
  send :=
    { sendCounter := fun _ _ => rfl
      recvCounter := fun _ _ => rfl
      stored := fun _ _ _ _ h => by cases h
      received := fun _ _ => List.prefix_refl _ }
  broadcast :=
    { sendCounter := fun _ => rfl
      recvCounter := fun _ _ => rfl
      stored := fun _ _ => rfl
      received := fun _ _ => List.prefix_refl _ }
  gather := GatherInv.init

/-- A broadcast, with what else happens that is neither a send nor a broadcast. -/
theorem GroupInv.broadcastObj (tail : List (GroupEvent n Obj)) {src : Fin n} {obj : Obj}
    (hsend : SendInv w events) (hbroadcast : BroadcastInv w events)
    (h : w.broadcastObj rank obj src = some (w', o)) (g : Fin n → Option (AllGather Obj))
    (htail : ∀ event ∈ tail, ∃ r objs, event = .gathered r objs) :
    SendInv { w' with gathering := g } (events ++ ([broadcastEvent rank src o] ++ tail))
      ∧ BroadcastInv { w' with gathering := g } (events ++ ([broadcastEvent rank src o] ++ tail)) := by
  obtain ⟨hgroup, hstore, -⟩ := GroupWorld.broadcastObj_frame h
  have hsent : SendInv w' (events ++ [broadcastEvent rank src o]) :=
    hsend.frame hgroup hstore (fun s d => sentObjs_broadcastEvent rank src s d o)
      (fun d s => receivedObjs_broadcastEvent rank src d s o)
  rw [← List.append_assoc]
  refine ⟨hsent.frame (fun _ => ⟨rfl, rfl⟩) (fun _ _ => rfl) (fun s d => ?_) (fun d s => ?_),
    (hbroadcast.broadcastObj h).frame (fun _ => ⟨rfl, rfl⟩) (fun _ _ => rfl) (fun s => ?_) (fun r s => ?_)⟩
  all_goals
    refine List.filterMap_eq_nil_iff.mpr fun event hevent => ?_
    obtain ⟨r, objs, he⟩ := htail event hevent
    rw [he]

/-- The step lemma, one case for each operation. -/
theorem GroupInv.step {a : GroupAction n Obj} (hinv : GroupInv w events)
    (hguard : GroupGuard w events a) (h : w.step a = some (w', new)) :
    GroupInv w' (events ++ new) := by
  cases a with
  | sendObj rank obj dst =>
    simp only [GroupWorld.step] at h
    split at h
    next =>
      cases h
      refine ⟨hinv.send.sendObj rank obj dst, hinv.broadcast.frame (fun r => ?_) (fun src k => ?_)
        (fun _ => rfl) (fun _ _ => rfl), hinv.gather.frame rfl (fun _ => rfl) (fun _ => rfl)
        (fun _ _ => rfl) (fun _ => rfl)⟩
      · by_cases hr : r = rank
        · subst hr
          simp [GroupWorld.sendObj]
        · simp [GroupWorld.sendObj, hr]
      · exact Function.update_of_ne (sendKey_ne_broadcastKey dst ((w.group rank).sendDstCounter dst) src k).symm
          (some (rank, obj)) w.store
    next => cases h
  | recvObj rank src =>
    simp only [GroupWorld.step] at h
    split at h
    next =>
      obtain ⟨r, hr, hw⟩ := Option.map_eq_some_iff.mp h
      cases hw
      have hsend := hinv.send.recvObj hguard hr
      obtain ⟨entry, -, hw⟩ := Option.map_eq_some_iff.mp hr
      rw [← hw] at hsend ⊢
      refine ⟨hsend, hinv.broadcast.frame (fun r => ?_) (fun _ _ => rfl) (fun _ => rfl) (fun _ _ => rfl),
        hinv.gather.frame rfl (fun _ => rfl) (fun _ => rfl) (fun _ _ => rfl) (fun _ => rfl)⟩
      by_cases hr : r = rank
      · subst hr
        simp
      · simp [hr]
    next => cases h
  | broadcastObj rank obj src =>
    simp only [GroupWorld.step] at h
    split at h
    next hnone =>
      obtain ⟨r, hr, hw⟩ := Option.map_eq_some_iff.mp h
      cases hw
      have hsend : SendInv w (events ++ [.called rank (.broadcast src obj)]) :=
        hinv.send.frame (fun _ => ⟨rfl, rfl⟩) (fun _ _ => rfl) (fun _ _ => rfl) (fun _ _ => rfl)
      have hbroadcast : BroadcastInv w (events ++ [.called rank (.broadcast src obj)]) :=
        hinv.broadcast.frame (fun _ => ⟨rfl, rfl⟩) (fun _ _ => rfl) (fun _ => rfl) (fun _ _ => rfl)
      have hdone := GroupInv.broadcastObj [] hsend hbroadcast hr r.1.gathering
        (fun event he => (by cases he))
      rw [List.append_nil, List.append_assoc] at hdone
      exact ⟨hdone.1, hdone.2,
        hinv.gather.broadcastObj (Option.isNone_iff_eq_none.mp hnone) hguard hr⟩
    next => cases h
  | allGatherObj rank obj =>
    simp only [GroupWorld.step] at h
    split at h
    next hnone =>
      cases h
      exact ⟨hinv.send.frame (fun _ => ⟨rfl, rfl⟩) (fun _ _ => rfl) (fun _ _ => rfl) (fun _ _ => rfl),
        hinv.broadcast.frame (fun _ => ⟨rfl, rfl⟩) (fun _ _ => rfl) (fun _ => rfl) (fun _ _ => rfl),
        hinv.gather.allGatherObj (Option.isNone_iff_eq_none.mp hnone) hguard⟩
    next => cases h
  | gatherNext rank =>
    have hgather := hinv.gather.gatherNext hinv.broadcast h
    obtain ⟨ag, w₁, o, hi, -, hfetch, ⟨-, hw, hnew⟩ | ⟨-, hw, hnew⟩⟩ := GroupWorld.gatherNext_cases h
    · subst hw hnew
      have hdone := GroupInv.broadcastObj [] hinv.send hinv.broadcast hfetch
        (Function.update w.gathering rank
          (some { obj := ag.obj, gatheredObjs := ag.gatheredObjs ++ [o] })) (fun event he => (by cases he))
      exact ⟨hdone.1, hdone.2, hgather⟩
    · subst hw hnew
      have hdone := GroupInv.broadcastObj [.gathered rank (ag.gatheredObjs ++ [o])] hinv.send
        hinv.broadcast hfetch (Function.update w.gathering rank none)
        (fun event he => ⟨rank, _, List.mem_singleton.mp he⟩)
      exact ⟨hdone.1, hdone.2, hgather⟩

/-- The run lemma. -/
theorem GroupReached.inv (h : GroupReached GroupGuard w events) : GroupInv w events := by
  induction h with
  | init => exact GroupInv.init
  | step _ hguard hstep ih => exact ih.step hguard hstep

/-! ## Progress -/

/-- An iteration that is not enabled waits for a rank that is in the `all_gather_obj` with the same
number, in an earlier iteration. -/
theorem GroupInv.blocked (hinv : GroupInv w events) (hag : w.gathering rank = some ag)
    (hall : ∀ i : Fin n, (gatherObjs events rank).length ≤ (gatherObjs events i).length)
    (hblocked : w.gatherNext rank = none) :
    ∃ i ag', w.gathering i = some ag' ∧ ag'.gatheredObjs.length ≤ i.val
      ∧ i.val = ag.gatheredObjs.length
      ∧ i ≠ rank ∧ (gatherObjs events i).length = (gatherObjs events rank).length := by
  obtain ⟨hi, before, hbefore, -⟩ := hinv.gather.current rank ag hag
  have hfetch : w.broadcastObj rank ag.obj ⟨ag.gatheredObjs.length, hi⟩ = none := by
    unfold GroupWorld.gatherNext at hblocked
    rw [hag] at hblocked
    dsimp only at hblocked
    rw [dif_pos hi, Option.map_eq_none_iff] at hblocked
    exact hblocked
  generalize hwait : (⟨ag.gatheredObjs.length, hi⟩ : Fin n) = i at hfetch
  have hival : i.val = ag.gatheredObjs.length := by rw [← hwait]
  have hne : rank ≠ i := by
    intro he
    unfold GroupWorld.broadcastObj at hfetch
    rw [if_pos he] at hfetch
    cases hfetch
  -- The store does not have the entry: `i` has broadcast no more than `rank` has got from it.
  have hfew : (broadcastObjs events i).length ≤ (broadcastReceivedObjs events rank i).length := by
    unfold GroupWorld.broadcastObj at hfetch
    rw [if_neg hne, Option.map_eq_none_iff] at hfetch
    have hstored := hinv.broadcast.stored i ((w.group rank).broadcastRecvSrcCounter i)
    rw [hfetch, hinv.broadcast.recvCounter] at hstored
    exact List.getElem?_eq_none_iff.mp hstored.symm
  have hfrom : callsFrom events i rank = before.filter (·.involves i) ++ [.allGather ag.obj] := by
    rw [callsFrom, hbefore, List.filter_append]
    rfl
  have hcount := hinv.gather.counts rank i hne
  have hpending : (pendingObj (some ag) i).length = 1 := by
    rw [pendingObj, if_pos (Nat.le_of_eq hival.symm)]
    rfl
  have hown := congrArg List.length (hinv.gather.own i)
  rw [List.length_append, List.length_map] at hown
  rw [hag, hpending] at hcount
  have hstep := hinv.gather.inStep rank i
  -- `i` has called as often as `rank`: otherwise it would have gathered less often.
  have hmany : (callsFrom events i rank).length ≤ (callsFrom events i i).length := by
    by_contra hless
    have hprefix : (callsFrom events i i).map (·.isGather)
        <+: (before.filter (·.involves i)).map (·.isGather) := by
      have hlen : (callsFrom events i i).length ≤ (before.filter (·.involves i)).length := by
        rw [hfrom, List.length_append, List.length_singleton] at hless
        omega
      have hall' := take_of_comparable hstep (k := (callsFrom events i i).length) (by simp; omega) (by simp)
      rw [← List.map_take, ← List.map_take, List.take_length, hfrom,
        List.take_append_of_le_length hlen] at hall'
      rw [← hall', List.map_take]
      exact List.take_prefix _ _
    obtain ⟨rest, hrest⟩ := hprefix
    have hkinds := congrArg (List.count true) hrest
    rw [List.count_append, count_isGather, count_isGather] at hkinds
    have hgathers := hall i
    rw [gatherObjs_eq_callsFrom events i rank, gatherObjs_eq_callsFrom events i i, hfrom,
      List.filterMap_append, List.length_append] at hgathers
    have hone : ([CollectiveCall.allGather ag.obj].filterMap
        (fun call : CollectiveCall n Obj => call.gatherObj)).length = 1 := rfl
    omega
  have hpendingOwn : (pendingObj (w.gathering i) i).length ≠ 0 := by omega
  cases hgi : w.gathering i with
  | none => exact absurd (by rw [hgi]; rfl) hpendingOwn
  | some ag' =>
    rw [hgi, pendingObj] at hpendingOwn hown
    have hle : ag'.gatheredObjs.length ≤ i.val := by
      by_contra hgt
      rw [if_neg hgt] at hpendingOwn
      exact hpendingOwn rfl
    refine ⟨i, ag', hgi, hle, hival, Ne.symm hne, ?_⟩
    rw [if_pos hle, List.length_singleton] at hown
    have hsame := take_of_comparable hstep (k := (callsFrom events i i).length) (by simp; omega) (by simp)
    rw [← List.map_take, ← List.map_take, List.take_length, List.take_of_length_le (by omega)] at hsame
    rw [gatherObjs_eq_callsFrom events i rank, gatherObjs_eq_callsFrom events i i]
    exact (length_gatherObj_of_kinds hsame).symm

/-- Once all ranks have called, some rank in the loop goes on. The induction is on the iteration
that the rank is in: who waits, waits for a rank in an earlier one. -/
theorem GroupInv.gather_moves (hinv : GroupInv w events) :
    ∀ (k : Nat) (rank : Fin n) (ag : AllGather Obj), w.gathering rank = some ag →
      ag.gatheredObjs.length = k →
      (∀ i : Fin n, (gatherObjs events rank).length ≤ (gatherObjs events i).length) →
      ∃ r : Fin n, (gatherObjs events r).length = (gatherObjs events rank).length
        ∧ (w.gatherNext r).isSome := by
  intro k
  induction k using Nat.strong_induction_on with
  | _ k ih =>
    intro rank ag hag hk hall
    cases hnext : w.gatherNext rank with
    | some r => exact ⟨rank, rfl, by rw [hnext]; rfl⟩
    | none =>
      obtain ⟨i, ag', hag', hle, hival, -, hsame⟩ := hinv.blocked hag hall hnext
      by_cases hown : ag'.gatheredObjs.length = i.val
      · -- The iteration of `i` is its own broadcast, which never waits.
        refine ⟨i, hsame, ?_⟩
        cases hnext' : w.gatherNext i with
        | some r => rfl
        | none =>
          obtain ⟨j, -, -, -, hj, hne, -⟩ := hinv.blocked hag' (fun j => by rw [hsame]; exact hall j) hnext'
          exact absurd (Fin.ext (hj.trans hown)) hne
      · obtain ⟨r, hr, hmoves⟩ := ih ag'.gatheredObjs.length (by omega) i ag' hag' rfl
          (fun j => by rw [hsame]; exact hall j)
        exact ⟨r, hr.trans hsame, hmoves⟩

/-! ## Delivery -/

/-- When every `recv_obj` finds an entry of its source and the ranks make their collective calls in
step, all messages reach the right receiver, and ranks that have all called `all_gather_obj` do
not wait for each other for ever. -/
theorem messages_delivered {w : GroupWorld n Obj} {events : List (GroupEvent n Obj)}
    (h : GroupReached GroupGuard w events) :
    Delivered events
      ∧ ∀ rank : Fin n, (w.gathering rank).isSome →
        (∀ i : Fin n, (gatherObjs events rank).length ≤ (gatherObjs events i).length) →
          ∃ r : Fin n, (gatherObjs events r).length = (gatherObjs events rank).length
            ∧ (w.step (.gatherNext r)).isSome := by
  have hinv := h.inv
  refine ⟨⟨hinv.send.received, hinv.broadcast.received, hinv.gather.results⟩, fun rank hsome hall => ?_⟩
  obtain ⟨ag, hag⟩ := Option.isSome_iff_exists.mp hsome
  exact hinv.gather_moves _ rank ag hag rfl hall

instance [DecidableEq Obj] (w : GroupWorld n Obj) (events : List (GroupEvent n Obj)) :
    ∀ a, Decidable (GroupGuard w events a)
  | .recvObj rank src => decidable_of_iff
    (∀ entry ∈ w.store (sendKey rank ((w.group rank).recvSrcCounter src)), entry.1 = src)
    ⟨fun h writer obj hentry => h (writer, obj) hentry, fun h entry hentry => h entry.1 entry.2 hentry⟩
  | .broadcastObj rank obj src => by unfold GroupGuard InStep; infer_instance
  | .allGatherObj rank obj => by unfold GroupGuard InStep; infer_instance
  | .sendObj _ _ _ | .gatherNext _ => .isTrue trivial

/-- The given steps, as long as each meets the guard. -/
def GroupWorld.perform [DecidableEq Obj] : List (GroupAction n Obj) →
    GroupWorld n Obj × List (GroupEvent n Obj) → Option (GroupWorld n Obj × List (GroupEvent n Obj))
  | [], s => some s
  | a :: rest, s =>
    if GroupGuard s.1 s.2 a then (s.1.step a).bind fun r => perform rest (r.1, s.2 ++ r.2) else none

theorem GroupReached.perform [DecidableEq Obj] :
    ∀ (actions : List (GroupAction n Obj)) {s s' : GroupWorld n Obj × List (GroupEvent n Obj)},
      GroupReached GroupGuard s.1 s.2 → GroupWorld.perform actions s = some s' →
      GroupReached GroupGuard s'.1 s'.2 := by
  intro actions
  induction actions with
  | nil =>
    intro s s' h hs
    cases hs
    exact h
  | cons a rest ih =>
    intro s s' h hs
    rw [GroupWorld.perform] at hs
    split at hs
    next hguard =>
      obtain ⟨r, hr, hrest⟩ := Option.bind_eq_some_iff.mp hs
      exact ih (.step h hguard hr) hrest
    next => cases hs

/-- Two ranks send to each other, one broadcasts, and both gather. -/
def exchange {n : Nat} (i j : Fin n) : List (GroupAction n String) :=
  [.sendObj i "weights" j, .sendObj j "ready" i, .recvObj j i, .recvObj i j, .broadcastObj i "port" i,
    .broadcastObj j "" i, .allGatherObj j "b", .allGatherObj i "a", .gatherNext i, .gatherNext j,
    .gatherNext j, .gatherNext i]

theorem message_and_broadcast : ∃ s, GroupWorld.perform (exchange 0 1) (.init 2 String, []) = some s
    ∧ receivedObjs s.2 1 0 = ["weights"] ∧ receivedObjs s.2 0 1 = ["ready"]
    ∧ broadcastReceivedObjs s.2 1 0 = ["port", "a"] ∧ gatherResults s.2 0 = [["a", "b"]]
    ∧ Delivered s.2 := by
  have hlog : (GroupWorld.perform (exchange 0 1) (.init 2 String, [])).map (fun s => (receivedObjs s.2 1 0,
      receivedObjs s.2 0 1, broadcastReceivedObjs s.2 1 0, gatherResults s.2 0))
      = some (["weights"], ["ready"], ["port", "a"], [["a", "b"]]) := by
    decide +kernel
  obtain ⟨s, hs, hvalues⟩ := Option.map_eq_some_iff.mp hlog
  simp only [Prod.mk.injEq] at hvalues
  obtain ⟨hone, hzero, hport, hgathered⟩ := hvalues
  exact ⟨s, hs, hone, hzero, hport, hgathered,
    (messages_delivered (GroupReached.perform (exchange 0 1) .init hs)).1⟩

/-- Two ranks send to a third one: it gets the message of one as that of the other. -/
theorem second_sender_overwrites :
    ∃ w, GroupReached (fun (_ : GroupWorld 3 String) _ _ => True) w
        [.sent 0 2 "a", .sent 1 2 "b", .received 2 0 "b"]
      ∧ ¬ Delivered [GroupEvent.sent (0 : Fin 3) 2 "a", .sent 1 2 "b", .received 2 0 "b"] := by
  refine ⟨_, .step (.step (.step .init (a := .sendObj 0 "a" 2) trivial rfl) (a := .sendObj 1 "b" 2)
    trivial rfl) (a := .recvObj 2 0) trivial rfl, fun h => ?_⟩
  have hreceived := h.received 2 0
  simp [receivedObjs, sentObjs] at hreceived

end VllmEngine.Distributed
