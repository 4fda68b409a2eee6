import VllmEngine.Distributed.NixlRecv

/-!
# Every received request is reported once

`RecvInv` follows a request through the places it can be in: it waits for a handshake, for its callback or to
be read, it is read or has failed, or it is done. It is in one of these, and in no two (`places`). The invariant
has a list of requests that are held outside all places, and the request that is being read. While
`get_finished` is between its two parts, `Collected` has the invariant of the state that the second part leads
to: callbacks that do not fail keep it.

> `receivingRight`: where no step meets one of the four defects, every request is reported once and not
> while it is read, and nothing is left behind.
-/

namespace VllmEngine.Distributed.Nixl

/-- A request that is read or that failed. -/
def RecvWorker.busy (w : RecvWorker) (reqId : String) : Prop :=
  w.handles reqId ≠ [] ∨ reqId ∈ w.failedRecvReqs

instance (w : RecvWorker) (reqId : String) : Decidable (w.busy reqId) := by
  unfold RecvWorker.busy
  infer_instance

/-- A failure of a request, and of no other. -/
theorem RecvWorker.busy_insert (w : RecvWorker) (ids : List Nat) (r q : String) :
    RecvWorker.busy { w with invalidBlockIds := ids, failedRecvReqs := w.failedRecvReqs.insert r } q
      ↔ w.busy q ∨ q = r := by
  show (w.handles q ≠ [] ∨ q ∈ w.failedRecvReqs.insert r) ↔ (w.handles q ≠ [] ∨ q ∈ w.failedRecvReqs) ∨ q = r
  rw [List.mem_insert_iff, or_assoc, or_comm (a := q = r)]

/-- How often a request waits, for a handshake, for its callback or to be read. -/
def RecvWorker.waiting (w : RecvWorker) (reqId : String) : Nat :=
  Dict.sumOver (fun _ entries => (entries.map Prod.fst).count reqId) w.handshakeFutures
    + (w.callbacks.map fun c => c.1.1).count reqId + (w.readyRequests.map Prod.fst).count reqId

/-- One for a request that is in its place or about to be. -/
def RecvWorker.spot (w : RecvWorker) (current : Option String) (reqId : String) : Nat :=
  if w.busy reqId ∨ current = some reqId then 1 else 0

theorem RecvWorker.spot_eq_one {w : RecvWorker} {current : Option String} {r : String}
    (h : w.busy r ∨ current = some r) : w.spot current r = 1 := if_pos h

theorem RecvWorker.spot_eq_zero {w : RecvWorker} {current : Option String} {r : String} (h : ¬ w.busy r)
    (hcurrent : current ≠ some r) : w.spot current r = 0 := if_neg fun hor => hor.elim h hcurrent

theorem RecvWorker.spot_congr {w w' : RecvWorker} {current current' : Option String} {r : String}
    (h : w.busy r ↔ w'.busy r) (hcurrent : current = some r ↔ current' = some r) :
    w.spot current r = w'.spot current' r := by
  unfold RecvWorker.spot
  by_cases hor : w'.busy r ∨ current' = some r
  · rw [if_pos hor, if_pos (hor.imp h.mpr hcurrent.mpr)]
  · rw [if_neg hor, if_neg fun h' => hor (h'.imp h.mp hcurrent.mp)]

/-- A request that is about to be in its place, and not yet. -/
theorem RecvWorker.spot_some {w : RecvWorker} {r : String} (h : ¬ w.busy r) (q : String) :
    w.spot (some r) q = w.spot none q + if r = q then 1 else 0 := by
  by_cases hq : r = q
  · subst hq
    rw [RecvWorker.spot_eq_one (Or.inr rfl), RecvWorker.spot_eq_zero h (fun h => by cases h), if_pos rfl]
  · have hcurrent : some r = some q ↔ none = some q :=
      ⟨fun h => absurd (Option.some.inj h) hq, fun h => (by cases h)⟩
    rw [if_neg hq, Nat.add_zero]
    exact RecvWorker.spot_congr Iff.rfl hcurrent

structure RecvInv (s : RecvState) (held : List String) (current : Option String) : Prop where
  nodup : (s.log.given.map Prod.fst).Nodup
  nonempty : ∀ e ∈ s.log.given, e.2.localBlockIds ≠ []
  places : ∀ r, held.count r + s.worker.waiting r + s.worker.spot current r
    + s.log.done.count r = (s.log.given.map Prod.fst).count r
  metadata : ∀ r info, s.worker.recvingMetadata.get? r = some info ↔ (r, info) ∈ s.log.given ∧ r ∉ s.log.done
  futures : ∀ engineId entries, s.worker.handshakeFutures.get? engineId = some entries →
    ∀ e ∈ entries, e ∈ s.log.given ∧ e.2.remoteEngineId = engineId
  callbacks : ∀ c ∈ s.worker.callbacks, c.1 ∈ s.log.given ∧ c.1.2.remoteEngineId ∈ s.worker.engines
  ready : ∀ e ∈ s.worker.readyRequests, e ∈ s.log.given ∧ e.2.remoteEngineId ∈ s.worker.engines
  agents : ∀ engineId ∈ s.worker.remoteAgents, engineId ∈ s.worker.engines
  registered : ∀ e ∈ s.log.given, s.worker.busy e.1 → e.2.remoteEngineId ∈ s.worker.engines
  running : ∀ r handle, (r, handle) ∈ s.log.running ↔ handle ∈ s.worker.handles r
  transfers : ∀ r, s.worker.recvingTransfers.get? r ≠ some []
  failedNodup : s.worker.failedRecvReqs.Nodup
  failures : ∀ r ∈ s.log.failures, r ∈ s.log.given.map Prod.fst
  invalid : ∀ block, block ∈ s.worker.invalidBlockIds
    ↔ ∃ e ∈ s.log.given, e.1 ∈ s.log.failures ∧ block ∈ e.2.localBlockIds.headD []
  idle : s.worker.doneRecving = none

namespace RecvInv

variable {s : RecvState} {held : List String} {current : Option String} {r : String} {info : RecvMeta}

theorem init : RecvInv RecvState.init [] none where
  nodup := List.nodup_nil
  nonempty _ h := by cases h
  places r := rfl
  metadata r info := by
    constructor
    · intro h
      cases h
    · rintro ⟨h, -⟩
      cases h
  futures _ _ h := by cases h
  callbacks _ h := by cases h
  ready _ h := by cases h
  agents _ h := by cases h
  registered _ h := by cases h
  running _ _ := by
    constructor
    · intro h
      cases h
    · intro h
      cases h
  transfers _ h := by cases h
  failedNodup := List.nodup_nil
  failures _ h := by cases h
  invalid _ := by
    constructor
    · intro h
      cases h
    · rintro ⟨_, h, -⟩
      cases h
  idle := rfl

theorem count_le_one (h : RecvInv s held current) (r : String) : (s.log.given.map Prod.fst).count r ≤ 1 :=
  List.nodup_iff_count_le_one.mp h.nodup r

/-- A request has one metadata. -/
theorem info_unique (h : RecvInv s held current) {info' : RecvMeta} (hmem : (r, info) ∈ s.log.given)
    (hmem' : (r, info') ∈ s.log.given) : info = info' :=
  congrArg Prod.snd (List.inj_on_of_nodup_map h.nodup hmem hmem' rfl)

/-- What is in a place is given and not done. -/
theorem given_of_place (h : RecvInv s held current)
    (hplace : 0 < held.count r + s.worker.waiting r + s.worker.spot current r) :
    r ∈ s.log.given.map Prod.fst ∧ r ∉ s.log.done := by
  have hplaces := h.places r
  have hle := h.count_le_one r
  refine ⟨List.count_pos_iff.mp (by omega), fun hdone => ?_⟩
  have hpos := List.count_pos_iff.mpr hdone
  omega

theorem given_of_busy (h : RecvInv s held current) (hbusy : s.worker.busy r) :
    r ∈ s.log.given.map Prod.fst ∧ r ∉ s.log.done := by
  apply h.given_of_place
  rw [RecvWorker.spot_eq_one (Or.inl hbusy)]
  exact Nat.succ_pos _

/-- The engine of a request that is read or failed, or of one with a known engine, is known. -/
theorem registered_or (h : RecvInv s held current) (hmem : (r, info) ∈ s.log.given)
    (hengine : info.remoteEngineId ∈ s.worker.engines) {e : String × RecvMeta} (he : e ∈ s.log.given)
    (hbusy : s.worker.busy e.1 ∨ e.1 = r) : e.2.remoteEngineId ∈ s.worker.engines := by
  rcases hbusy with hbusy | heq
  · exact h.registered e he hbusy
  · obtain ⟨r', info'⟩ := e
    obtain rfl : r' = r := heq
    rw [← h.info_unique hmem he]
    exact hengine

/-- Failures of a request show in the invalid blocks. -/
theorem markInvalid_eq (h : RecvInv s held current) (hmem : (r, info) ∈ s.log.given) (hdone : r ∉ s.log.done) :
    s.worker.markInvalid r = .ok { s.worker with
      invalidBlockIds := info.localBlockIds.headD [] ∪ s.worker.invalidBlockIds } := by
  unfold RecvWorker.markInvalid
  rw [(h.metadata r info).mpr ⟨hmem, hdone⟩]
  cases hblocks : info.localBlockIds with
  | nil => exact absurd hblocks (h.nonempty _ hmem)
  | cons group groups =>
    dsimp only
    rw [hblocks]
    rfl

theorem invalid_insert (h : RecvInv s held current) (hmem : (r, info) ∈ s.log.given) (block : Nat) :
    block ∈ info.localBlockIds.headD [] ∪ s.worker.invalidBlockIds
      ↔ ∃ e ∈ s.log.given, e.1 ∈ s.log.failures ++ [r] ∧ block ∈ e.2.localBlockIds.headD [] := by
  rw [List.mem_union_iff, h.invalid]
  constructor
  · rintro (hblock | ⟨e, he, hfail, hblock⟩)
    · exact ⟨_, hmem, List.mem_append_right _ (List.mem_singleton_self r), hblock⟩
    · exact ⟨e, he, List.mem_append_left _ hfail, hblock⟩
  · rintro ⟨e, he, hfail, hblock⟩
    rcases List.mem_append.mp hfail with hfail | hfail
    · exact Or.inr ⟨e, he, hfail, hblock⟩
    · obtain ⟨r', info'⟩ := e
      obtain rfl : r' = r := List.mem_singleton.mp hfail
      rw [h.info_unique hmem he]
      exact Or.inl hblock

theorem failures_append (h : RecvInv s held current) (hmem : (r, info) ∈ s.log.given) :
    ∀ q ∈ s.log.failures ++ [r], q ∈ s.log.given.map Prod.fst := by
  intro q hq
  rcases List.mem_append.mp hq with hq | hq
  · exact h.failures q hq
  · rw [List.mem_singleton.mp hq]
    exact List.mem_map_of_mem (f := Prod.fst) hmem

/-! ## Reads -/

/-- One read of the current request. -/
theorem readBlocks (h : RecvInv s held (some r)) (hmem : (r, info) ∈ s.log.given)
    (hengine : info.remoteEngineId ∈ s.worker.engines) (outcome : ReadOutcome) :
    ∃ s', s.readBlocks r info outcome = .ok s' ∧ RecvInv s' held (some r) ∧ s'.worker.busy r
      ∧ s'.log.given = s.log.given ∧ s'.worker.engines = s.worker.engines
      ∧ s'.worker.readyRequests = s.worker.readyRequests := by
  have hdone : r ∉ s.log.done := (h.given_of_place (by rw [RecvWorker.spot_eq_one (Or.inr rfl)]; exact Nat.succ_pos _)).2
  have hlength : info.localBlockIds.length ≠ 0 := fun hzero =>
    h.nonempty _ hmem (List.length_eq_zero_iff.mp hzero)
  unfold RecvState.readBlocks
  rw [if_neg hlength]
  -- A read makes its own request busy, and no other.
  have hplaces : ∀ w : RecvWorker, w.waiting = s.worker.waiting → (∀ q, w.busy q ↔ s.worker.busy q ∨ q = r) →
      ∀ q, held.count q + w.waiting q + w.spot (some r) q + s.log.done.count q
        = (s.log.given.map Prod.fst).count q := by
    intro w hwaiting hbusy q
    rw [← h.places q, hwaiting]
    by_cases hq : q = r
    · subst hq
      rw [RecvWorker.spot_eq_one (Or.inr rfl), RecvWorker.spot_eq_one (Or.inr rfl)]
    · rw [RecvWorker.spot_congr ((hbusy q).trans ⟨fun h => h.resolve_right hq, Or.inl⟩) Iff.rfl]
  cases outcome with
  | started handle =>
    have hhandles : ∀ q, RecvWorker.handles { s.worker with
        recvingTransfers := s.worker.recvingTransfers.set r (s.worker.handles r ++ [handle]) } q
        = if q = r then s.worker.handles r ++ [handle] else s.worker.handles q := by
      intro q
      unfold RecvWorker.handles
      rw [Dict.get?_set]
      split
      · rfl
      · rfl
    have hne : s.worker.handles r ++ [handle] ≠ [] := List.append_ne_nil_of_right_ne_nil _ (List.cons_ne_nil _ _)
    have hbusy : ∀ q, RecvWorker.busy { s.worker with
        recvingTransfers := s.worker.recvingTransfers.set r (s.worker.handles r ++ [handle]) } q
        ↔ s.worker.busy q ∨ q = r := by
      intro q
      unfold RecvWorker.busy
      rw [hhandles]
      by_cases hq : q = r
      · rw [if_pos hq]
        exact iff_of_true (Or.inl hne) (Or.inr hq)
      · rw [if_neg hq]
        exact ⟨Or.inl, fun h => h.resolve_right hq⟩
    refine ⟨_, rfl, ?_, (hbusy r).mpr (Or.inr rfl), rfl, rfl, rfl⟩
    refine { h with
      places := hplaces _ rfl hbusy
      registered := fun e he hb => h.registered_or hmem hengine he ((hbusy e.1).mp hb)
      running := ?_
      transfers := ?_ }
    · intro q handle'
      show (q, handle') ∈ s.log.running ++ [(r, handle)] ↔ _
      rw [hhandles, List.mem_append, h.running, List.mem_singleton, Prod.mk.injEq]
      by_cases hq : q = r
      · rw [if_pos hq, hq, List.mem_append, List.mem_singleton, eq_self, true_and]
      · rw [if_neg hq]
        exact ⟨fun h => h.resolve_right fun heq => hq heq.1, Or.inl⟩
    · intro q hnil
      have hnil : (s.worker.recvingTransfers.set r (s.worker.handles r ++ [handle])).get? q = some [] := hnil
      rw [Dict.get?_set] at hnil
      split at hnil
      · exact hne (Option.some.inj hnil)
      · exact h.transfers q hnil
  | failed =>
    dsimp only
    rw [h.markInvalid_eq hmem hdone, Raises.ok_bind]
    have hbusy := s.worker.busy_insert (info.localBlockIds.headD [] ∪ s.worker.invalidBlockIds) r
    refine ⟨_, rfl, ?_, (hbusy r).mpr (Or.inr rfl), rfl, rfl, rfl⟩
    exact { h with
      places := hplaces _ rfl hbusy
      registered := fun e he hb => h.registered_or hmem hengine he ((hbusy e.1).mp hb)
      failedNodup := h.failedNodup.insert
      failures := h.failures_append hmem
      invalid := h.invalid_insert hmem }

/-- A request that is read is in its place. -/
theorem release (h : RecvInv s held (some r)) (hbusy : s.worker.busy r) : RecvInv s held none := by
  refine { h with places := fun q => ?_ }
  rw [← h.places q]
  by_cases hq : q = r
  · subst hq
    rw [RecvWorker.spot_eq_one (Or.inl hbusy), RecvWorker.spot_eq_one (Or.inl hbusy)]
  · have hcurrent : none = some q ↔ some r = some q :=
      ⟨fun h => (by cases h), fun h => absurd (Option.some.inj h).symm hq⟩
    rw [RecvWorker.spot_congr Iff.rfl hcurrent]

/-- The reads of the current request. -/
theorem readBlocksForReq (h : RecvInv s held (some r)) (hmem : (r, info) ∈ s.log.given)
    (hengine : info.remoteEngineId ∈ s.worker.engines) {outcomes : List ReadOutcome} (hne : outcomes ≠ []) :
    ∃ s', s.readBlocksForReq r info outcomes = .ok s' ∧ RecvInv s' held none
      ∧ s'.log.given = s.log.given ∧ s'.worker.engines = s.worker.engines
      ∧ s'.worker.readyRequests = s.worker.readyRequests := by
  have hreads : ∀ (outcomes : List ReadOutcome) (t : RecvState), RecvInv t held (some r) → t.worker.busy r →
      t.log.given = s.log.given → t.worker.engines = s.worker.engines →
      t.worker.readyRequests = s.worker.readyRequests →
      ∃ s', outcomes.foldlM (fun s outcome => s.readBlocks r info outcome) t = .ok s' ∧ RecvInv s' held (some r)
        ∧ s'.worker.busy r ∧ s'.log.given = s.log.given ∧ s'.worker.engines = s.worker.engines
        ∧ s'.worker.readyRequests = s.worker.readyRequests := by
    intro outcomes
    induction outcomes with
    | nil =>
      intro t ht hbusy hgiven hengines hready
      exact ⟨t, rfl, ht, hbusy, hgiven, hengines, hready⟩
    | cons outcome outcomes ih =>
      intro t ht hbusy hgiven hengines hready
      obtain ⟨t', hread, ht', hbusy', hgiven', hengines', hready'⟩ :=
        ht.readBlocks (hgiven ▸ hmem) (hengines ▸ hengine) outcome
      obtain ⟨s', hrest, hs'⟩ := ih t' ht' hbusy' (hgiven'.trans hgiven) (hengines'.trans hengines)
        (hready'.trans hready)
      exact ⟨s', Raises.foldlM_cons_ok.mpr ⟨t', hread, hrest⟩, hs'⟩
  unfold RecvState.readBlocksForReq
  rw [if_pos hengine]
  cases outcomes with
  | nil => exact absurd rfl hne
  | cons outcome outcomes =>
    obtain ⟨t, hread, ht, hbusy, hgiven, hengines, hready⟩ := h.readBlocks hmem hengine outcome
    obtain ⟨s', hrest, hs', hbusy', hgiven', hengines', hready'⟩ := hreads outcomes t ht hbusy hgiven hengines hready
    exact ⟨s', Raises.foldlM_cons_ok.mpr ⟨t, hread, hrest⟩, hs'.release hbusy', hgiven', hengines', hready'⟩

/-! ## Loading -/

/-- A request that waits in the queue is taken out to be read. -/
theorem takeReady (h : RecvInv s held none) {rest : List (String × RecvMeta)}
    (hready : s.worker.readyRequests = (r, info) :: rest) :
    RecvInv { s with worker := { s.worker with readyRequests := rest } } held (some r) := by
  have hwaiting : ∀ q, s.worker.waiting q
      = RecvWorker.waiting { s.worker with readyRequests := rest } q + if r = q then 1 else 0 := by
    intro q
    unfold RecvWorker.waiting
    rw [hready, List.map_cons, List.count_cons]
    show _ = _ + _ + _ + _
    by_cases hq : r = q
    · simp only [hq, beq_self_eq_true, if_true]
      omega
    · simp only [hq, beq_iff_eq, if_false]
      omega
  -- It was in one place, so it is not read yet.
  have hfree : ¬ s.worker.busy r := by
    intro hbusy
    have hplaces := h.places r
    have hle := h.count_le_one r
    rw [hwaiting, if_pos rfl, RecvWorker.spot_eq_one (Or.inl hbusy)] at hplaces
    omega
  refine { h with places := fun q => ?_, ready := fun e he => h.ready e (hready ▸ List.mem_cons_of_mem _ he) }
  have hplaces := h.places q
  rw [hwaiting q] at hplaces
  show held.count q + RecvWorker.waiting { s.worker with readyRequests := rest } q + s.worker.spot (some r) q
    + s.log.done.count q = (s.log.given.map Prod.fst).count q
  rw [RecvWorker.spot_some hfree]
  omega

theorem readReady (h : RecvInv s held none) {outcomes : List ReadOutcome} (hne : outcomes ≠ []) :
    ∃ s', s.readReady outcomes = .ok s' ∧ RecvInv s' held none := by
  unfold RecvState.readReady
  cases hready : s.worker.readyRequests with
  | nil => exact ⟨s, rfl, h⟩
  | cons e rest =>
    obtain ⟨hmem, hengine⟩ := h.ready e (hready ▸ List.mem_cons_self)
    obtain ⟨s', hread, hs', -⟩ := (h.takeReady hready).readBlocksForReq hmem hengine hne
    exact ⟨s', hread, hs'⟩

/-- A request is given to the worker. -/
theorem give (h : RecvInv s held none) (hnew : r ∉ s.log.given.map Prod.fst) (hblocks : info.localBlockIds ≠ []) :
    RecvInv { worker := { s.worker with recvingMetadata := s.worker.recvingMetadata.set r info }
              log := { s.log with given := s.log.given ++ [(r, info)] } } held (some r)
      ∧ ¬ s.worker.busy r ∧ r ∉ s.log.done := by
  have hzero : (s.log.given.map Prod.fst).count r = 0 := List.count_eq_zero.mpr hnew
  have hplaces := h.places r
  rw [hzero] at hplaces
  have hfree : ¬ s.worker.busy r := by
    intro hbusy
    rw [RecvWorker.spot_eq_one (Or.inl hbusy)] at hplaces
    omega
  have hdone : r ∉ s.log.done := List.count_eq_zero.mp (by omega)
  have hgiven : ∀ e, e ∈ s.log.given ++ [(r, info)] ↔ e ∈ s.log.given ∨ e = (r, info) := fun e => by
    rw [List.mem_append, List.mem_singleton]
  have hother : ∀ e ∈ s.log.given, e.1 ≠ r := fun e he heq => hnew (heq ▸ List.mem_map_of_mem he)
  have hfailures : r ∉ s.log.failures := fun hfail => hnew (h.failures r hfail)
  have hwiden : ∀ e, e ∈ s.log.given → e ∈ s.log.given ++ [(r, info)] := fun e he => List.mem_append_left _ he
  refine ⟨?_, hfree, hdone⟩
  refine { h with
    nodup := ?_
    nonempty := ?_
    places := ?_
    metadata := ?_
    futures := fun engineId entries hentries e he =>
      ⟨hwiden e (h.futures engineId entries hentries e he).1, (h.futures engineId entries hentries e he).2⟩
    callbacks := fun c hc => ⟨hwiden c.1 (h.callbacks c hc).1, (h.callbacks c hc).2⟩
    ready := fun e he => ⟨hwiden e (h.ready e he).1, (h.ready e he).2⟩
    registered := ?_
    failures := ?_
    invalid := ?_ }
  · show ((s.log.given ++ [(r, info)]).map Prod.fst).Nodup
    rw [List.map_append, List.nodup_append]
    refine ⟨h.nodup, List.nodup_singleton r, fun a ha b hb => ?_⟩
    rw [List.mem_singleton.mp hb]
    intro heq
    obtain rfl : a = r := heq
    exact hnew ha
  · intro e he
    rcases (hgiven e).mp he with he | rfl
    · exact h.nonempty e he
    · exact hblocks
  · intro q
    show held.count q + s.worker.waiting q + s.worker.spot (some r) q + s.log.done.count q
      = ((s.log.given ++ [(r, info)]).map Prod.fst).count q
    have hone : List.count q ([(r, info)].map Prod.fst) = if r = q then 1 else 0 := by
      show List.count q [r] = _
      simp only [List.count_singleton, beq_iff_eq]
    rw [List.map_append, List.count_append, hone, RecvWorker.spot_some hfree, ← h.places q]
    omega
  · intro q info'
    show (s.worker.recvingMetadata.set r info).get? q = some info' ↔ _
    rw [Dict.get?_set, hgiven, Prod.mk.injEq]
    by_cases hq : q = r
    · subst hq
      rw [if_pos rfl, Option.some.injEq]
      constructor
      · rintro rfl
        exact ⟨Or.inr ⟨rfl, rfl⟩, hdone⟩
      · rintro ⟨hin | ⟨-, rfl⟩, -⟩
        · exact absurd rfl (hother _ hin)
        · rfl
    · rw [if_neg hq, h.metadata]
      exact and_congr_left fun _ => ⟨Or.inl, fun hor => hor.resolve_right fun heq => hq heq.1⟩
  · intro e he hbusy
    rcases (hgiven e).mp he with he | rfl
    · exact h.registered e he hbusy
    · exact absurd hbusy hfree
  · intro q hq
    show q ∈ (s.log.given ++ [(r, info)]).map Prod.fst
    rw [List.map_append]
    exact List.mem_append_left _ (h.failures q hq)
  · intro block
    rw [h.invalid]
    constructor
    · rintro ⟨e, he, hrest⟩
      exact ⟨e, hwiden e he, hrest⟩
    · rintro ⟨e, he, hfail, hblock⟩
      rcases (hgiven e).mp he with he | rfl
      · exact ⟨e, he, hfail, hblock⟩
      · exact absurd hfail hfailures

/-- A request that waits for a handshake. -/
theorem backgroundHandshake (h : RecvInv s held (some r)) (hmem : (r, info) ∈ s.log.given)
    (hfree : ¬ s.worker.busy r) : RecvInv (s.backgroundHandshake r info) held none := by
  have hwaiting : ∀ q, (s.backgroundHandshake r info).worker.waiting q
      = s.worker.waiting q + if r = q then 1 else 0 := by
    intro q
    have hsum := Dict.sumOver_set (fun (_ : String) (entries : List (String × RecvMeta)) =>
      (entries.map Prod.fst).count q) s.worker.handshakeFutures info.remoteEngineId
      ((s.worker.handshakeFutures.get? info.remoteEngineId).getD [] ++ [(r, info)])
    have hold : (s.worker.handshakeFutures.get? info.remoteEngineId).elim 0
        (fun entries : List (String × RecvMeta) => (entries.map Prod.fst).count q)
        = (((s.worker.handshakeFutures.get? info.remoteEngineId).getD []).map Prod.fst).count q := by
      cases s.worker.handshakeFutures.get? info.remoteEngineId with
      | none => rfl
      | some entries => rfl
    have hnew : (([(r, info)] : List (String × RecvMeta)).map Prod.fst).count q = if r = q then 1 else 0 := by
      show [r].count q = _
      simp only [List.count_singleton, beq_iff_eq]
    rw [List.map_append, List.count_append, hnew] at hsum
    unfold RecvWorker.waiting
    show Dict.sumOver _ (s.worker.handshakeFutures.set info.remoteEngineId _) + (s.worker.callbacks.map _).count q
      + (s.worker.readyRequests.map _).count q = _
    omega
  refine { h with places := fun q => ?_, futures := ?_ }
  · have hplaces := h.places q
    show held.count q + (s.backgroundHandshake r info).worker.waiting q + s.worker.spot none q + s.log.done.count q
      = (s.log.given.map Prod.fst).count q
    rw [RecvWorker.spot_some hfree] at hplaces
    rw [hwaiting]
    omega
  · intro engineId entries hentries
    have hentries : (s.worker.handshakeFutures.set _ _).get? engineId = some entries := hentries
    rw [Dict.get?_set] at hentries
    by_cases hengine : engineId = info.remoteEngineId
    · rw [if_pos hengine] at hentries
      obtain rfl := Option.some.inj hentries
      intro e he
      rcases List.mem_append.mp he with he | he
      · cases hold : s.worker.handshakeFutures.get? info.remoteEngineId with
        | none =>
          rw [hold] at he
          cases he
        | some old =>
          rw [hold] at he
          rw [hengine]
          exact h.futures _ old hold e he
      · rw [List.mem_singleton.mp he]
        exact ⟨hmem, hengine.symm⟩
    · rw [if_neg hengine] at hentries
      exact h.futures engineId entries hentries

theorem loadRequest (h : RecvInv s held none) (hnew : r ∉ s.log.given.map Prod.fst)
    (hblocks : info.localBlockIds ≠ []) {outcomes : List ReadOutcome} (hne : outcomes ≠ []) :
    ∃ s', s.loadRequest r info outcomes = .ok s' ∧ RecvInv s' held none := by
  obtain ⟨hgive, hfree, -⟩ := h.give hnew hblocks
  have hmem : (r, info) ∈ s.log.given ++ [(r, info)] := List.mem_append_right _ (List.mem_singleton_self _)
  unfold RecvState.loadRequest
  dsimp only
  by_cases hagent : info.remoteEngineId ∈ s.worker.remoteAgents
  · rw [if_pos hagent]
    obtain ⟨s', hok, hs', -⟩ := hgive.readBlocksForReq hmem (h.agents _ hagent) hne
    exact ⟨s', hok, hs'⟩
  · rw [if_neg hagent]
    exact ⟨_, rfl, hgive.backgroundHandshake hmem hfree⟩

/-! ## Handshakes -/

/-- A held request fails. -/
theorem requestFailed (h : RecvInv s (r :: held) none) (hmem : (r, info) ∈ s.log.given)
    (hengine : info.remoteEngineId ∈ s.worker.engines) :
    RecvInv (s.requestFailed r) held none := by
  have hcount : (r :: held).count r = held.count r + 1 := List.count_cons_self
  have hdone : r ∉ s.log.done := (h.given_of_place (by omega)).2
  have hfree : ¬ s.worker.busy r := by
    intro hbusy
    have hplaces := h.places r
    have hle := h.count_le_one r
    rw [RecvWorker.spot_eq_one (Or.inl hbusy)] at hplaces
    omega
  have heq : s.requestFailed r = {
      worker := { s.worker with
        invalidBlockIds := info.localBlockIds.headD [] ∪ s.worker.invalidBlockIds
        failedRecvReqs := s.worker.failedRecvReqs.insert r }
      log := { s.log with failures := s.log.failures ++ [r] } } := by
    unfold RecvState.requestFailed
    rw [h.markInvalid_eq hmem hdone]
  have hbusy := s.worker.busy_insert (info.localBlockIds.headD [] ∪ s.worker.invalidBlockIds) r
  rw [heq]
  refine { h with
    places := ?_
    registered := fun e he hb => h.registered_or hmem hengine he ((hbusy e.1).mp hb)
    failedNodup := h.failedNodup.insert
    failures := h.failures_append hmem
    invalid := h.invalid_insert hmem }
  · intro q
    rw [← h.places q]
    show held.count q + s.worker.waiting q + RecvWorker.spot _ none q + s.log.done.count q = _
    by_cases hq : q = r
    · subst hq
      rw [RecvWorker.spot_eq_one (Or.inl ((hbusy q).mpr (Or.inr rfl))),
        RecvWorker.spot_eq_zero hfree (fun h => by cases h), hcount]
      omega
    · rw [List.count_cons_of_ne fun heq => hq heq.symm]
      rw [RecvWorker.spot_congr ((hbusy q).trans ⟨fun h => h.resolve_right hq, Or.inl⟩) Iff.rfl]

/-- A handshake ends: its requests wait for their callbacks instead. -/
theorem handshakeDone (h : RecvInv s held current) {engineId : String} {outcome : HandshakeOutcome}
    (hclean : Undisturbed s (.handshakeDone engineId outcome)) :
    RecvInv (s.handshakeDone engineId outcome) held current := by
  unfold RecvState.handshakeDone
  cases hentries : s.worker.handshakeFutures.get? engineId with
  | none => exact h
  | some entries =>
    obtain ⟨engines, hengines⟩ : ∃ engines, engines = if outcome = .failed false then s.worker.engines
      else s.worker.engines.insert engineId := ⟨_, rfl⟩
    have hwiden : ∀ e ∈ s.worker.engines, e ∈ engines := by
      intro e he
      rw [hengines]
      split
      · exact he
      · exact List.mem_insert_of_mem he
    have hknown : engineId ∈ engines := by
      by_cases hfailed : outcome = .failed false
      · exact hwiden _ (hclean hfailed)
      · rw [hengines, if_neg hfailed]
        exact List.mem_insert_self
    have hmine := h.futures engineId entries hentries
    dsimp only
    rw [← hengines]
    refine { h with
      places := fun q => ?_
      futures := fun engineId' entries' hget => ?_
      callbacks := fun c hc => ?_
      ready := fun e he => ⟨(h.ready e he).1, hwiden _ (h.ready e he).2⟩
      agents := fun e he => ?_
      registered := fun e he hbusy => hwiden _ (h.registered e he hbusy) }
    · have hsum := Dict.sumOver_erase (fun (_ : String) (entries : List (String × RecvMeta)) =>
        (entries.map Prod.fst).count q) s.worker.handshakeFutures engineId
      rw [hentries] at hsum
      have hsum : _ + (entries.map Prod.fst).count q = _ := hsum
      have hdue : (entries.map fun e => (e, decide (outcome = .succeeded))).map (fun c => c.1.1)
          = entries.map Prod.fst := by
        rw [List.map_map]
        rfl
      have hwaiting : Dict.sumOver (fun _ entries => (entries.map Prod.fst).count q)
            (s.worker.handshakeFutures.erase engineId)
          + ((s.worker.callbacks ++ entries.map fun e => (e, decide (outcome = .succeeded))).map fun c => c.1.1).count q
          + (s.worker.readyRequests.map Prod.fst).count q = s.worker.waiting q := by
        unfold RecvWorker.waiting
        rw [List.map_append, List.count_append, hdue]
        omega
      have hplaces := h.places q
      rw [← hwaiting] at hplaces
      exact hplaces
    · have hget : (s.worker.handshakeFutures.erase engineId).get? engineId' = some entries' := hget
      rw [Dict.get?_erase] at hget
      by_cases hengine : engineId' = engineId
      · rw [if_pos hengine] at hget
        cases hget
      · rw [if_neg hengine] at hget
        exact h.futures engineId' entries' hget
    · rcases List.mem_append.mp hc with hc | hc
      · exact ⟨(h.callbacks c hc).1, hwiden _ (h.callbacks c hc).2⟩
      · obtain ⟨e, he, rfl⟩ := List.mem_map.mp hc
        refine ⟨(hmine e he).1, ?_⟩
        rw [(hmine e he).2]
        exact hknown
    · by_cases hok : outcome = .succeeded
      · rw [if_pos hok] at he
        rcases List.mem_insert_iff.mp he with rfl | he
        · exact hknown
        · exact hwiden _ (h.agents e he)
      · rw [if_neg hok] at he
        exact hwiden _ (h.agents e he)

/-- One callback. -/
theorem requestReady (h : RecvInv s held none) (i : Nat) : RecvInv (s.requestReady i) held none := by
  unfold RecvState.requestReady
  cases hcallback : s.worker.callbacks[i]? with
  | none => exact h
  | some c =>
    obtain ⟨⟨r, info⟩, succeeded⟩ := c
    obtain ⟨hi, hget⟩ := List.getElem?_eq_some_iff.mp hcallback
    have hperm := List.getElem_cons_eraseIdx_perm hi
    rw [hget] at hperm
    obtain ⟨hmem, hengine⟩ := h.callbacks _ (List.mem_of_getElem? hcallback)
    -- It is held while the callback runs.
    have hheld : RecvInv { s with worker := { s.worker with callbacks := s.worker.callbacks.eraseIdx i } }
        (r :: held) none := by
      refine { h with
        places := fun q => ?_
        callbacks := fun c hc => h.callbacks c (hperm.mem_iff.mp (List.mem_cons_of_mem _ hc)) }
      have hcount := (hperm.map fun c => c.1.1).count_eq q
      rw [List.map_cons, List.count_cons] at hcount
      have hwaiting : s.worker.waiting q
          = RecvWorker.waiting { s.worker with callbacks := s.worker.callbacks.eraseIdx i } q
            + if (r == q) = true then 1 else 0 := by
        unfold RecvWorker.waiting
        dsimp only at hcount ⊢
        omega
      have hplaces := h.places q
      rw [hwaiting] at hplaces
      show (r :: held).count q + RecvWorker.waiting { s.worker with callbacks := s.worker.callbacks.eraseIdx i } q
        + s.worker.spot none q + s.log.done.count q = _
      rw [List.count_cons, ← hplaces]
      omega
    dsimp only
    cases succeeded with
    | false => exact hheld.requestFailed hmem hengine
    | true =>
      rw [if_pos rfl]
      refine { hheld with places := fun q => ?_, ready := fun e he => ?_ }
      · have hwaiting : RecvWorker.waiting { s.worker with
              callbacks := s.worker.callbacks.eraseIdx i, readyRequests := s.worker.readyRequests ++ [(r, info)] } q
            = RecvWorker.waiting { s.worker with callbacks := s.worker.callbacks.eraseIdx i } q + [r].count q := by
          unfold RecvWorker.waiting
          dsimp only
          rw [List.map_append, List.count_append, ← Nat.add_assoc]
          rfl
        have hplaces : (r :: held).count q + RecvWorker.waiting { s.worker with
            callbacks := s.worker.callbacks.eraseIdx i } q + s.worker.spot none q + s.log.done.count q
            = (s.log.given.map Prod.fst).count q := hheld.places q
        show held.count q + RecvWorker.waiting { s.worker with
              callbacks := s.worker.callbacks.eraseIdx i, readyRequests := s.worker.readyRequests ++ [(r, info)] } q
          + s.worker.spot none q + s.log.done.count q = (s.log.given.map Prod.fst).count q
        rw [← hplaces, hwaiting, List.count_singleton, List.count_cons]
        omega
      · rcases List.mem_append.mp he with he | he
        · exact h.ready e he
        · rw [List.mem_singleton.mp he]
          exact ⟨hmem, hengine⟩

end RecvInv

/-! ## What `get_finished` does -/

section Finishing

variable (xferState : Nat → XferState)

/-- The handles that are still running. -/
def remaining (handles : List Nat) : List Nat := handles.filter fun handle => xferState handle = .proc

/-- The loop over the handles of a request. -/
theorem checkXfer_loop {w : RecvWorker} {r : String} {info : RecvMeta} (hinfo : w.recvingMetadata.get? r = some info)
    (hne : info.localBlockIds ≠ []) : ∀ (handles acc : List Nat) (ids : List Nat),
    ∃ ids', handles.foldlM (checkXfer xferState r) ({ w with invalidBlockIds := ids }, acc)
        = .ok ({ w with invalidBlockIds := ids' }, acc ++ remaining xferState handles)
      ∧ ∀ block, block ∈ ids' ↔ block ∈ ids
        ∨ (∃ handle ∈ handles, xferState handle = .failed) ∧ block ∈ info.localBlockIds.headD [] := by
  intro handles
  induction handles with
  | nil =>
    intro acc ids
    refine ⟨ids, ?_, fun block => ⟨Or.inl, fun h => h.resolve_right fun h => by obtain ⟨⟨_, hin, _⟩, _⟩ := h; cases hin⟩⟩
    show Except.ok _ = _
    unfold remaining
    rw [List.filter_nil, List.append_nil]
  | cons handle handles ih =>
    intro acc ids
    have hmark : RecvWorker.markInvalid { w with invalidBlockIds := ids } r
        = .ok { w with invalidBlockIds := info.localBlockIds.headD [] ∪ ids } := by
      unfold RecvWorker.markInvalid
      dsimp only
      rw [hinfo]
      cases hblocks : info.localBlockIds with
      | nil => exact absurd hblocks hne
      | cons group groups =>
        dsimp only
        rw [hblocks]
        rfl
    -- One handle, and then the others.
    have hcons : ∀ (acc' ids₁ : List Nat),
        checkXfer xferState r ({ w with invalidBlockIds := ids }, acc) handle = .ok ({ w with invalidBlockIds := ids₁ }, acc') →
        acc' = acc ++ remaining xferState [handle] →
        (∀ block, block ∈ ids₁ ↔ block ∈ ids ∨ xferState handle = .failed ∧ block ∈ info.localBlockIds.headD []) →
        ∃ ids', (handle :: handles).foldlM (checkXfer xferState r) ({ w with invalidBlockIds := ids }, acc)
            = .ok ({ w with invalidBlockIds := ids' }, acc ++ remaining xferState (handle :: handles))
          ∧ ∀ block, block ∈ ids' ↔ block ∈ ids
            ∨ (∃ h ∈ handle :: handles, xferState h = .failed) ∧ block ∈ info.localBlockIds.headD [] := by
      intro acc' ids₁ hone hacc hids
      obtain ⟨ids', hrest, hblocks⟩ := ih acc' ids₁
      refine ⟨ids', Raises.foldlM_cons_ok.mpr ⟨_, hone, ?_⟩, fun block => ?_⟩
      · rw [hrest, hacc, List.append_assoc]
        unfold remaining
        rw [← List.filter_append]
        rfl
      · rw [hblocks, hids, List.exists_mem_cons_iff]
        tauto
    cases hstate : xferState handle with
    | done =>
      refine hcons acc ids ?_ ?_ fun block => ?_
      · unfold checkXfer
        rw [hstate]
      · unfold remaining
        rw [List.filter_cons_of_neg (by simp [hstate]), List.filter_nil, List.append_nil]
      · simp [hstate]
    | proc =>
      refine hcons (acc ++ [handle]) ids ?_ ?_ fun block => ?_
      · unfold checkXfer
        rw [hstate]
      · unfold remaining
        rw [List.filter_cons_of_pos (by simp [hstate]), List.filter_nil]
      · simp [hstate]
    | failed =>
      refine hcons acc (info.localBlockIds.headD [] ∪ ids) ?_ ?_ fun block => ?_
      · unfold checkXfer
        rw [hstate]
        dsimp only
        rw [hmark, Raises.ok_bind]
        rfl
      · unfold remaining
        rw [List.filter_cons_of_neg (by simp [hstate]), List.filter_nil, List.append_nil]
      · rw [List.mem_union_iff, or_comm]
        simp [hstate]

/-- The loop over the requests. -/
theorem popRequest_loop {w : RecvWorker} : ∀ (es : List (String × List Nat)) (done : List String)
    (transfers : Dict String (List Nat)) (ids : List Nat), (es.map Prod.fst).Nodup →
    (∀ e ∈ es, ∃ info, w.recvingMetadata.get? e.1 = some info ∧ info.localBlockIds ≠ []) →
    ∃ transfers' ids',
      es.foldlM (popRequest xferState) (done, { w with recvingTransfers := transfers, invalidBlockIds := ids })
        = .ok (done ++ (es.filter fun e => (remaining xferState e.2).isEmpty).map Prod.fst,
            { w with recvingTransfers := transfers', invalidBlockIds := ids' })
      ∧ (∀ q, transfers'.get? q = match Dict.lookup q es with
          | some handles => if (remaining xferState handles).isEmpty then none else some (remaining xferState handles)
          | none => transfers.get? q)
      ∧ ∀ block, block ∈ ids' ↔ block ∈ ids ∨ ∃ e ∈ es, (∃ handle ∈ e.2, xferState handle = .failed)
          ∧ ∃ info, w.recvingMetadata.get? e.1 = some info ∧ block ∈ info.localBlockIds.headD [] := by
  intro es
  induction es with
  | nil =>
    intro done transfers ids _ _
    refine ⟨transfers, ids, ?_, fun q => rfl, fun block => ⟨Or.inl, fun h => h.resolve_right fun ⟨e, he, _⟩ => ?_⟩⟩
    · show Except.ok _ = _
      rw [List.filter_nil, List.map_nil, List.append_nil]
    · cases he
  | cons e es ih =>
    intro done transfers ids hnodup hinfos
    obtain ⟨hfresh, hnodup⟩ := List.nodup_cons.mp hnodup
    obtain ⟨info, hinfo, hblocks⟩ := hinfos e List.mem_cons_self
    obtain ⟨ids₁, hchecked, hids₁⟩ := checkXfer_loop xferState
      (w := { w with recvingTransfers := transfers }) hinfo hblocks e.2 [] ids
    rw [List.nil_append] at hchecked
    have hmem : ∀ block, (∃ info', w.recvingMetadata.get? e.1 = some info' ∧ block ∈ info'.localBlockIds.headD [])
        ↔ block ∈ info.localBlockIds.headD [] := by
      intro block
      constructor
      · rintro ⟨info', hinfo', hblock⟩
        rw [hinfo] at hinfo'
        obtain rfl := Option.some.inj hinfo'
        exact hblock
      · exact fun hblock => ⟨info, hinfo, hblock⟩
    have hlookup : ∀ q, Dict.lookup q (e :: es) = if e.1 = q then some e.2 else Dict.lookup q es := fun q => rfl
    have hnone : Dict.lookup e.1 es = none :=
      Dict.lookup_eq_none fun e' he' heq => hfresh (heq ▸ List.mem_map_of_mem he')
    -- The request is popped or keeps what is left of it.
    have hone : ∃ transfers₁, popRequest xferState (done, { w with recvingTransfers := transfers, invalidBlockIds := ids }) e
        = .ok (done ++ ([e].filter fun e => (remaining xferState e.2).isEmpty).map Prod.fst,
            { w with recvingTransfers := transfers₁, invalidBlockIds := ids₁ })
        ∧ ∀ q, transfers₁.get? q = if e.1 = q then
            (if (remaining xferState e.2).isEmpty then none else some (remaining xferState e.2)) else transfers.get? q := by
      unfold popRequest
      dsimp only
      rw [hchecked, Raises.ok_bind]
      dsimp only
      cases hempty : (remaining xferState e.2).isEmpty with
      | true =>
        refine ⟨transfers.erase e.1, ?_, fun q => ?_⟩
        · rw [if_pos rfl, List.filter_cons_of_pos (by simpa using hempty)]
          rfl
        · rw [Dict.get?_erase, if_pos rfl]
          by_cases hq : q = e.1
          · rw [if_pos hq, if_pos hq.symm]
          · rw [if_neg hq, if_neg fun h => hq h.symm]
      | false =>
        refine ⟨transfers.set e.1 (remaining xferState e.2), ?_, fun q => ?_⟩
        · rw [if_neg Bool.false_ne_true, List.filter_cons_of_neg (by simpa using hempty), List.filter_nil, List.map_nil,
            List.append_nil]
          rfl
        · rw [Dict.get?_set, if_neg Bool.false_ne_true]
          by_cases hq : q = e.1
          · rw [if_pos hq, if_pos hq.symm]
          · rw [if_neg hq, if_neg fun h => hq h.symm]
    obtain ⟨transfers₁, hpop, htransfers₁⟩ := hone
    obtain ⟨transfers', ids', hrest, htransfers', hids'⟩ :=
      ih (done ++ ([e].filter fun e => (remaining xferState e.2).isEmpty).map Prod.fst) transfers₁ ids₁ hnodup
        fun e' he' => hinfos e' (List.mem_cons_of_mem e he')
    refine ⟨transfers', ids', Raises.foldlM_cons_ok.mpr ⟨_, hpop, ?_⟩, fun q => ?_, fun block => ?_⟩
    · rw [hrest, List.append_assoc, ← List.map_append, ← List.filter_append]
      rfl
    · rw [htransfers', hlookup]
      by_cases hq : e.1 = q
      · subst hq
        rw [if_pos rfl, hnone]
        dsimp only
        rw [htransfers₁, if_pos rfl]
      · rw [if_neg hq]
        cases Dict.lookup q es with
        | some handles => rfl
        | none =>
          dsimp only
          rw [htransfers₁, if_neg hq]
    · rw [hids', hids₁, List.exists_mem_cons_iff, hmem]
      exact or_assoc

/-- The metadata of the requests that are done. -/
theorem popMetadata_loop {w : RecvWorker} : ∀ (rs : List String) (metadata : Dict String RecvMeta), rs.Nodup →
    (∀ r ∈ rs, ∃ info, metadata.get? r = some info ∧ info.remoteEngineId ∈ w.engines) →
    ∃ metadata', rs.foldlM RecvWorker.popMetadata { w with recvingMetadata := metadata }
        = .ok { w with recvingMetadata := metadata' }
      ∧ ∀ q, metadata'.get? q = if q ∈ rs then none else metadata.get? q := by
  intro rs
  induction rs with
  | nil =>
    intro metadata _ _
    exact ⟨metadata, rfl, fun q => (if_neg List.not_mem_nil).symm⟩
  | cons r rs ih =>
    intro metadata hnodup hinfos
    obtain ⟨hfresh, hnodup⟩ := List.nodup_cons.mp hnodup
    obtain ⟨info, hinfo, hengine⟩ := hinfos r List.mem_cons_self
    have hpop : RecvWorker.popMetadata { w with recvingMetadata := metadata } r
        = .ok { w with recvingMetadata := metadata.erase r } := by
      unfold RecvWorker.popMetadata
      dsimp only
      rw [hinfo]
      exact if_pos hengine
    obtain ⟨metadata', hrest, hget⟩ := ih (metadata.erase r) hnodup fun r' hr' => by
      obtain ⟨info', hinfo', hengine'⟩ := hinfos r' (List.mem_cons_of_mem r hr')
      have hne : r' ≠ r := fun heq => hfresh (heq ▸ hr')
      exact ⟨info', (Dict.get?_erase_ne metadata hne).trans hinfo', hengine'⟩
    refine ⟨metadata', Raises.foldlM_cons_ok.mpr ⟨_, hpop, hrest⟩, fun q => ?_⟩
    rw [hget, Dict.get?_erase]
    by_cases hq : q = r
    · rw [if_pos hq, hq, if_pos List.mem_cons_self]
      split
      · rfl
      · rfl
    · rw [if_neg hq]
      simp only [List.mem_cons, hq, false_or]

end Finishing

namespace RecvInv

variable {s : RecvState}

/-- What the second part of `get_finished` leads to. -/
def finished (s : RecvState) (doneRecving : List String) (metadata : Dict String RecvMeta) : RecvState where
  worker := { s.worker with failedRecvReqs := [], doneRecving := none, recvingMetadata := metadata }
  log := { s.log with done := s.log.done ++ doneRecving }

/-- Between the two parts of `get_finished`. -/
structure Collected (s : RecvState) (doneRecving : List String) : Prop where
  under : s.worker.doneRecving = some doneRecving
  nodup : doneRecving.Nodup
  known : ∀ r ∈ doneRecving, ∃ info,
    s.worker.recvingMetadata.get? r = some info ∧ info.remoteEngineId ∈ s.worker.engines
  after : ∀ metadata : Dict String RecvMeta,
    (∀ q, metadata.get? q = if q ∈ doneRecving then none else s.worker.recvingMetadata.get? q) →
    RecvInv (finished s doneRecving metadata) [] none

theorem getFinished (h : RecvInv s [] none) {xferState : Nat → XferState}
    (hclean : Undisturbed s (.getFinished xferState)) :
    ∃ s' doneRecving, s.step (.getFinished xferState) = .ok s' ∧ Collected s' doneRecving := by
  have hentry : ∀ e ∈ s.worker.recvingTransfers.entries, s.worker.handles e.1 = e.2 ∧ e.2 ≠ [] := by
    intro e he
    have hget := (Dict.get?_eq_some_iff _).mpr he
    refine ⟨congrArg (Option.getD · []) hget, fun hnil => h.transfers e.1 ?_⟩
    rw [hget, hnil]
  have hmemEntries : ∀ q, s.worker.handles q ≠ [] → (q, s.worker.handles q) ∈ s.worker.recvingTransfers.entries := by
    intro q hq
    apply (Dict.get?_eq_some_iff _).mp
    unfold RecvWorker.handles at hq ⊢
    cases hget : s.worker.recvingTransfers.get? q with
    | none =>
      rw [hget] at hq
      exact absurd rfl hq
    | some handles => rfl
  -- What is in its place has its metadata, with an engine that is known.
  have hinfoOf : ∀ {r}, s.worker.busy r → ∃ info, (r, info) ∈ s.log.given ∧ s.worker.recvingMetadata.get? r = some info
      ∧ info.localBlockIds ≠ [] ∧ info.remoteEngineId ∈ s.worker.engines := by
    intro r hbusy
    obtain ⟨hgiven, hdone⟩ := h.given_of_busy hbusy
    obtain ⟨⟨r', info⟩, hmem, rfl⟩ := List.mem_map.mp hgiven
    exact ⟨info, hmem, (h.metadata _ _).mpr ⟨hmem, hdone⟩, h.nonempty _ hmem, h.registered _ hmem hbusy⟩
  obtain ⟨transfers, ids, hpop, htransfers, hids⟩ := popRequest_loop xferState (w := s.worker)
    s.worker.recvingTransfers.entries [] s.worker.recvingTransfers s.worker.invalidBlockIds
    s.worker.recvingTransfers.nodup fun e he => by
      obtain ⟨heq, hne⟩ := hentry e he
      obtain ⟨info, -, hinfo, hblocks, -⟩ := hinfoOf (Or.inl (heq ▸ hne))
      exact ⟨info, hinfo, hblocks⟩
  obtain ⟨popped, hpopped⟩ : ∃ popped, popped = (s.worker.recvingTransfers.entries.filter
    fun e => (remaining xferState e.2).isEmpty).map Prod.fst := ⟨_, rfl⟩
  rw [List.nil_append, ← hpopped] at hpop
  -- A request keeps the handles that are still running.
  have hget : ∀ q, transfers.get? q = if remaining xferState (s.worker.handles q) = [] then none
      else some (remaining xferState (s.worker.handles q)) := by
    intro q
    rw [htransfers]
    show (match s.worker.recvingTransfers.get? q with | some _ => _ | none => s.worker.recvingTransfers.get? q) = _
    unfold RecvWorker.handles
    cases s.worker.recvingTransfers.get? q with
    | some handles => simp only [List.isEmpty_iff, Option.getD_some]
    | none => rfl
  have hmemPopped : ∀ q, q ∈ popped ↔ s.worker.handles q ≠ [] ∧ remaining xferState (s.worker.handles q) = [] := by
    intro q
    rw [hpopped, List.mem_map]
    constructor
    · rintro ⟨e, he, rfl⟩
      obtain ⟨he, hempty⟩ := List.mem_filter.mp he
      rw [(hentry e he).1]
      exact ⟨(hentry e he).2, List.isEmpty_iff.mp hempty⟩
    · rintro ⟨hne, hempty⟩
      exact ⟨_, List.mem_filter.mpr ⟨hmemEntries q hne, List.isEmpty_iff.mpr hempty⟩, rfl⟩
  have hnodupPopped : popped.Nodup := by
    rw [hpopped]
    exact (s.worker.recvingTransfers.nodup).sublist (List.filter_sublist.map _)
  obtain ⟨doneRecving, hdoneRecving⟩ : ∃ doneRecving, doneRecving
    = popped ++ s.worker.failedRecvReqs.filter (· ∉ popped) := ⟨_, rfl⟩
  have hmemDone : ∀ q, q ∈ doneRecving ↔ q ∈ popped ∨ q ∈ s.worker.failedRecvReqs := by
    intro q
    rw [hdoneRecving, List.mem_append, List.mem_filter, decide_eq_true_eq]
    tauto
  have hnodupDone : doneRecving.Nodup := by
    rw [hdoneRecving, List.nodup_append]
    refine ⟨hnodupPopped, h.failedNodup.sublist List.filter_sublist, fun a ha b hb heq => ?_⟩
    have hb := (List.mem_filter.mp hb).2
    rw [decide_eq_true_eq] at hb
    exact hb (heq ▸ ha)
  have hbusyDone : ∀ q ∈ doneRecving, s.worker.busy q := by
    intro q hq
    rcases (hmemDone q).mp hq with hq | hq
    · exact Or.inl ((hmemPopped q).mp hq).1
    · exact Or.inr hq
  obtain ⟨s₁, hs₁⟩ : ∃ s₁ : RecvState, s₁ = {
      worker := { s.worker with
        recvingTransfers := transfers, invalidBlockIds := ids, doneRecving := some doneRecving }
      log := { s.log with
        running := s.log.running.filter fun e => xferState e.2 = .proc
        failures := s.log.failures ++ (s.log.running.filter fun e => xferState e.2 = .failed).map Prod.fst } } :=
    ⟨_, rfl⟩
  refine ⟨s₁, doneRecving, ?_, ?_⟩
  · show (s.worker.getFinished xferState >>= _) = _
    unfold RecvWorker.getFinished RecvWorker.popDoneTransfers
    show ((List.foldlM (popRequest xferState) ([], s.worker) s.worker.recvingTransfers.entries >>= _) >>= _) = _
    rw [hpop, Raises.ok_bind, hs₁, hdoneRecving]
    rfl
  refine ⟨by rw [hs₁], hnodupDone, fun r hr => ?_, fun metadata hgetMeta => ?_⟩
  · obtain ⟨info, -, hinfo, -, hengine⟩ := hinfoOf (hbusyDone r hr)
    rw [hs₁]
    exact ⟨info, hinfo, hengine⟩
  obtain ⟨s', hs'⟩ : ∃ s' : RecvState, s' = {
      worker := { s.worker with
        recvingTransfers := transfers, invalidBlockIds := ids, failedRecvReqs := [], doneRecving := none,
        recvingMetadata := metadata }
      log := { s.log with
        running := s.log.running.filter fun e => xferState e.2 = .proc
        failures := s.log.failures ++ (s.log.running.filter fun e => xferState e.2 = .failed).map Prod.fst
        done := s.log.done ++ doneRecving } } := ⟨_, rfl⟩
  have hfinished : finished s₁ doneRecving metadata = s' := by
    rw [hs₁, hs']
    rfl
  rw [hfinished]
  rw [hs₁] at hgetMeta
  have hhandles : ∀ q, s'.worker.handles q = remaining xferState (s.worker.handles q) := by
    intro q
    rw [hs']
    show (transfers.get? q).getD [] = _
    rw [hget]
    split
    · rename_i hnil
      exact hnil.symm
    · rfl
  -- What is still read was not reported: it has a running transfer.
  have hstill : ∀ q, s'.worker.busy q ↔ s.worker.busy q ∧ q ∉ doneRecving := by
    intro q
    have hfailed : s'.worker.failedRecvReqs = [] := by rw [hs']
    unfold RecvWorker.busy
    rw [hfailed, hhandles, hmemDone, hmemPopped]
    constructor
    · rintro (hrest | hin)
      · refine ⟨Or.inl fun hnil => hrest (by rw [hnil]; rfl), ?_⟩
        rintro (⟨-, hnil⟩ | hfailed)
        · exact hrest hnil
        · obtain ⟨handle, hin⟩ := List.exists_mem_of_ne_nil _ hrest
          obtain ⟨hin, hproc⟩ := List.mem_filter.mp hin
          exact hclean q hfailed handle hin (of_decide_eq_true hproc)
      · cases hin
    · rintro ⟨hhandles | hfailed, hnot⟩
      · exact Or.inl fun hnil => hnot (Or.inl ⟨hhandles, hnil⟩)
      · exact absurd (Or.inr hfailed) hnot
  have hmemFailures : ∀ q, q ∈ s'.log.failures ↔ q ∈ s.log.failures
      ∨ ∃ handle ∈ s.worker.handles q, xferState handle = .failed := by
    intro q
    rw [hs', List.mem_append, List.mem_map]
    apply or_congr Iff.rfl
    constructor
    · rintro ⟨e, he, rfl⟩
      obtain ⟨he, hfailed⟩ := List.mem_filter.mp he
      exact ⟨e.2, (h.running _ _).mp he, of_decide_eq_true hfailed⟩
    · rintro ⟨handle, hin, hfailed⟩
      exact ⟨(q, handle), List.mem_filter.mpr ⟨(h.running _ _).mpr hin, decide_eq_true hfailed⟩, rfl⟩
  have hgiven : s'.log.given = s.log.given := by rw [hs']
  refine {
    nodup := hgiven ▸ h.nodup
    nonempty := hgiven ▸ h.nonempty
    places := ?_
    metadata := ?_
    futures := by rw [hs']; exact h.futures
    callbacks := by rw [hs']; exact h.callbacks
    ready := by rw [hs']; exact h.ready
    agents := by rw [hs']; exact h.agents
    registered := ?_
    running := ?_
    transfers := ?_
    failedNodup := by rw [hs']; exact List.nodup_nil
    failures := ?_
    invalid := ?_
    idle := by rw [hs'] }
  · intro q
    have hplaces := h.places q
    have hdone : s'.log.done.count q = s.log.done.count q + doneRecving.count q := by
      rw [hs']
      exact List.count_append
    have hwaiting : s'.worker.waiting q = s.worker.waiting q := by rw [hs']; rfl
    have hspot : s.worker.spot none q = s'.worker.spot none q + doneRecving.count q := by
      by_cases hin : q ∈ doneRecving
      · rw [RecvWorker.spot_eq_one (Or.inl (hbusyDone q hin)), List.count_eq_one_of_mem hnodupDone hin,
          RecvWorker.spot_eq_zero (fun hbusy => ((hstill q).mp hbusy).2 hin) (fun h => by cases h)]
      · rw [List.count_eq_zero.mpr hin, Nat.add_zero]
        exact RecvWorker.spot_congr ⟨fun hbusy => (hstill q).mpr ⟨hbusy, hin⟩, fun hbusy => ((hstill q).mp hbusy).1⟩ Iff.rfl
    rw [hdone, hwaiting, hgiven]
    omega
  · intro q info
    have hmetadata : s'.worker.recvingMetadata = metadata := by rw [hs']
    have hdone : s'.log.done = s.log.done ++ doneRecving := by rw [hs']
    rw [hmetadata, hdone, hgetMeta, hgiven, List.mem_append]
    by_cases hin : q ∈ doneRecving
    · rw [if_pos hin]
      exact ⟨fun h => (by cases h), fun h => absurd (Or.inr hin) h.2⟩
    · rw [if_neg hin, h.metadata]
      exact and_congr_right fun _ => ⟨fun hnot hor => hor.elim hnot hin, fun hnot hdone => hnot (Or.inl hdone)⟩
  · intro e he hbusy
    have hengines : s'.worker.engines = s.worker.engines := by rw [hs']
    rw [hengines]
    exact h.registered e (hgiven ▸ he) ((hstill e.1).mp hbusy).1
  · intro q handle
    have hrunning : s'.log.running = s.log.running.filter fun e => xferState e.2 = .proc := by rw [hs']
    unfold remaining at hhandles
    rw [hrunning, hhandles, List.mem_filter, h.running, List.mem_filter]
  · intro q
    have htrans : s'.worker.recvingTransfers = transfers := by rw [hs']
    rw [htrans, hget]
    split
    · exact fun hnone => by cases hnone
    · rename_i hrest
      exact fun hnil => hrest (Option.some.inj hnil)
  · intro q hq
    rw [hgiven]
    rcases (hmemFailures q).mp hq with hq | ⟨handle, hin, -⟩
    · exact h.failures q hq
    · exact (h.given_of_busy (Or.inl (List.ne_nil_of_mem hin))).1
  · intro block
    have hinvalid : s'.worker.invalidBlockIds = ids := by rw [hs']
    rw [hinvalid, hids, h.invalid, hgiven]
    constructor
    · rintro (⟨e, he, hfail, hblock⟩ | ⟨e, he, hfailed, info, hinfo, hblock⟩)
      · exact ⟨e, he, (hmemFailures _).mpr (Or.inl hfail), hblock⟩
      · rw [← (hentry e he).1] at hfailed
        exact ⟨(e.1, info), ((h.metadata _ _).mp hinfo).1, (hmemFailures _).mpr (Or.inr hfailed), hblock⟩
    · rintro ⟨⟨r, info⟩, he, hfail, hblock⟩
      rcases (hmemFailures _).mp hfail with hfail | ⟨handle, hin, hfailed⟩
      · exact Or.inl ⟨_, he, hfail, hblock⟩
      · have hne := List.ne_nil_of_mem hin
        have hinfo := (h.metadata r info).mpr ⟨he, (h.given_of_busy (Or.inl hne)).2⟩
        exact Or.inr ⟨_, hmemEntries r hne, ⟨handle, hin, hfailed⟩, info, hinfo, hblock⟩

end RecvInv

/-! ## Runs -/

namespace RecvInv

variable {s s' : RecvState} {doneRecving : List String}

/-- A callback that does not fail, while the requests are collected. -/
theorem Collected.congr (h : Collected s doneRecving) (hunder : s'.worker.doneRecving = s.worker.doneRecving)
    (hmetadata : s'.worker.recvingMetadata = s.worker.recvingMetadata)
    (hengines : ∀ e ∈ s.worker.engines, e ∈ s'.worker.engines)
    (hafter : ∀ metadata, RecvInv (finished s doneRecving metadata) [] none →
      RecvInv (finished s' doneRecving metadata) [] none) : Collected s' doneRecving where
  under := hunder.trans h.under
  nodup := h.nodup
  known r hr := by
    obtain ⟨info, hinfo, hengine⟩ := h.known r hr
    exact ⟨info, hmetadata ▸ hinfo, hengines _ hengine⟩
  after metadata hget := hafter metadata (h.after metadata (hmetadata ▸ hget))

theorem Collected.handshakeDone (h : Collected s doneRecving) {engineId : String} {outcome : HandshakeOutcome}
    (hclean : Undisturbed s (.handshakeDone engineId outcome)) :
    Collected (s.handshakeDone engineId outcome) doneRecving := by
  have hafter : ∀ metadata, RecvInv (finished s doneRecving metadata) [] none →
      RecvInv ((finished s doneRecving metadata).handshakeDone engineId outcome) [] none :=
    fun metadata hinv => hinv.handshakeDone hclean
  unfold RecvState.handshakeDone at hafter ⊢
  unfold finished at hafter
  dsimp only at hafter
  cases hentries : s.worker.handshakeFutures.get? engineId with
  | none => exact h
  | some entries =>
    rw [hentries] at hafter
    refine h.congr rfl rfl (fun e he => ?_) hafter
    dsimp only
    split
    · exact he
    · exact List.mem_insert_of_mem he

theorem Collected.requestReady (h : Collected s doneRecving) {i : Nat} (hclean : Undisturbed s (.requestReady i)) :
    Collected (s.requestReady i) doneRecving := by
  have hafter : ∀ metadata, RecvInv (finished s doneRecving metadata) [] none →
      RecvInv ((finished s doneRecving metadata).requestReady i) [] none := fun metadata hinv => hinv.requestReady i
  unfold RecvState.requestReady at hafter ⊢
  unfold finished at hafter
  dsimp only at hafter
  cases hcallback : s.worker.callbacks[i]? with
  | none => exact h
  | some c =>
    obtain ⟨entry, succeeded⟩ := c
    rw [hcallback] at hafter
    cases succeeded with
    | true => exact h.congr rfl rfl (fun e he => he) hafter
    | false =>
      obtain hnone | hsome := hclean
      · rw [h.under] at hnone
        cases hnone
      · rw [hcallback] at hsome
        exact absurd rfl hsome

theorem Collected.report (h : Collected s doneRecving) :
    ∃ t, s.step .reportFinished = .ok t ∧ RecvInv t [] none ∧ t.log.done = s.log.done ++ doneRecving
      ∧ t.log.running = s.log.running ∧ t.log.given = s.log.given ∧ t.log.failures = s.log.failures
      ∧ t.worker.invalidBlockIds = s.worker.invalidBlockIds := by
  obtain ⟨metadata, hmetadata, hget⟩ := popMetadata_loop
    (w := { s.worker with failedRecvReqs := [], doneRecving := none }) doneRecving s.worker.recvingMetadata
    h.nodup h.known
  refine ⟨finished s doneRecving metadata, ?_, h.after metadata hget, rfl, rfl, rfl, rfl, rfl⟩
  unfold RecvState.step
  dsimp only
  rw [h.under]
  show (List.foldlM RecvWorker.popMetadata { s.worker with failedRecvReqs := [], doneRecving := none } doneRecving
    >>= _) = _
  rw [hmetadata]
  rfl

end RecvInv

/-- Between two calls, or between the two parts of `get_finished`. -/
def Received (s : RecvState) : Prop := RecvInv s [] none ∨ ∃ doneRecving, RecvInv.Collected s doneRecving

namespace Received

variable {s : RecvState}

theorem step (h : Received s) {op : RecvOp} (hpromised : Promised s op) (hclean : Undisturbed s op) :
    ∃ s', s.step op = .ok s' ∧ Received s' := by
  obtain h | ⟨doneRecving, h⟩ := h
  · cases op with
    | loadRequest reqId info outcomes =>
      obtain ⟨s', hok, hs'⟩ := h.loadRequest hpromised.2.1 hclean hpromised.2.2
      exact ⟨s', hok, Or.inl hs'⟩
    | readReady outcomes =>
      obtain ⟨s', hok, hs'⟩ := h.readReady hpromised.2
      exact ⟨s', hok, Or.inl hs'⟩
    | handshakeDone engineId outcome => exact ⟨_, rfl, Or.inl (h.handshakeDone hclean)⟩
    | requestReady i => exact ⟨_, rfl, Or.inl (h.requestReady i)⟩
    | getFinished xferState =>
      obtain ⟨s', doneRecving, hok, hs'⟩ := h.getFinished hclean
      exact ⟨s', hok, Or.inr ⟨doneRecving, hs'⟩⟩
    | reportFinished =>
      refine ⟨s, ?_, Or.inl h⟩
      unfold RecvState.step
      dsimp only
      rw [h.idle]
    | getBlockIdsWithLoadErrors =>
      refine ⟨_, rfl, Or.inl { h with failures := fun _ hin => (by cases hin), invalid := fun block => ?_ }⟩
      constructor
      · intro hin
        cases hin
      · rintro ⟨_, -, hin, -⟩
        cases hin
  · have hbusy : s.worker.doneRecving ≠ none := fun hnone => by
      rw [h.under] at hnone
      cases hnone
    cases op with
    | loadRequest reqId info outcomes => exact absurd hpromised.1 hbusy
    | readReady outcomes => exact absurd hpromised.1 hbusy
    | handshakeDone engineId outcome => exact ⟨_, rfl, Or.inr ⟨doneRecving, h.handshakeDone hclean⟩⟩
    | requestReady i => exact ⟨_, rfl, Or.inr ⟨doneRecving, h.requestReady hclean⟩⟩
    | getFinished xferState => exact absurd hpromised hbusy
    | reportFinished =>
      obtain ⟨t, hok, ht, -⟩ := h.report
      exact ⟨t, hok, Or.inl ht⟩
    | getBlockIdsWithLoadErrors => exact absurd hpromised hbusy

end Received

instance (s : RecvState) (op : RecvOp) : Decidable (Promised s op) := by
  cases op <;> unfold Promised <;> infer_instance

instance (s : RecvState) (op : RecvOp) : Decidable (Undisturbed s op) := by
  cases op <;> unfold Undisturbed <;> infer_instance

end VllmEngine.Distributed.Nixl
