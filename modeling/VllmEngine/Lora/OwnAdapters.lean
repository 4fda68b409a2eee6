import VllmEngine.Lora.AdapterSlots

/-!
# Tokens and their adapters

After every call the slot table, the two caches and the weights in the slots agree (`InOrder`). When
`set_active_adapters` returns, every requested adapter is in a slot. The slots of the tokens are
recomputed only when the mapping differs from the last one: `Refreshed` says when that is enough.

> `own_adapters`: after every run of calls whose batches fit, a call whose mapping is `Refreshed`
> leaves every token with the slot that holds its adapter, as last loaded; a load that fails changes
> nothing.
-/

namespace VllmEngine.Lora

open Cache LRUCacheWorkerLoRAManager

variable {W : Type} {cfg : LoRAConfig} {m m' : LoRAModelManager W} {done : List Nat}

/-- What the adapter's most recent successful load returned. -/
def LoRAModelManager.lastLoad (m : LoRAModelManager W) (a : Nat) : Option W := Dict.lookup a m.loads

/-- Registered adapters have the weights of their last load. -/
def Latest (m : LoRAModelManager W) : Prop :=
  ∀ a w, m.registered.data.get? a = some w → m.lastLoad a = some w

structure Good (cfg : LoRAConfig) (m : LoRAModelManager W) : Prop where
  slots : Slots cfg m
  latest : Latest m

theorem Good.init (cfg : LoRAConfig) : Good cfg (LoRAModelManager.init cfg : LoRAModelManager W) where
  slots := .init cfg
  latest := by
    intro a w h
    cases h

/-! ## Adding one adapter -/

theorem Good.dropped (h : Good cfg m) (a : Nat) : Good cfg (m.dropped a) where
  slots := h.slots.dropped a
  latest := by
    intro b w hb
    have hb' : (m.registered.pop countOne a).data.get? b = some w := hb
    rw [get?_pop] at hb'
    split at hb'
    next => cases hb'
    next => exact h.latest b w hb'

/-- A load succeeded: its adapter is taken out, and the oldest one as well if the cache is full. -/
theorem room_spec (h : Good cfg m) (hlast : Last done m) {a : Nat} (ha : a ∉ done)
    (hlen : done.length < cfg.maxLoras) (lora : W) :
    ∃ m₂ evicted,
      (if cfg.maxCpuLoras < (m.dropped a).registered.length + 1
        then LRUCacheLoRAModelManager.removeOldestAdapter { m.dropped a with loads := (a, lora) :: m.loads }
        else ({ m.dropped a with loads := (a, lora) :: m.loads }, .ok false)) = (m₂, .ok evicted)
      ∧ Slots cfg m₂ ∧ Last done m₂ ∧ m₂.registered.contains a = false
      ∧ m₂.registered.order.length < cfg.maxCpuLoras ∧ SameMapping m m₂
      ∧ m₂.loads = (a, lora) :: m.loads
      ∧ (∀ b w, m₂.registered.data.get? b = some w → m.registered.data.get? b = some w)
      ∧ (m.registered.contains a = true → m₂ = { m.dropped a with loads := (a, lora) :: m.loads }) := by
  have hgone : (m.dropped a).registered.contains a = false :=
    Bool.eq_false_iff.mpr fun hc => ((contains_pop _ _ _).mp hc).2 rfl
  have hslots : Slots cfg { m.dropped a with loads := (a, lora) :: m.loads } :=
    { h.slots.dropped a with }
  have hlast₁ := hlast.dropped h.slots ha
  have hfrom : ∀ b w, (m.dropped a).registered.data.get? b = some w → m.registered.data.get? b = some w := by
    intro b w hb
    have hb' : (m.registered.pop countOne a).data.get? b = some w := hb
    rw [get?_pop] at hb'
    split at hb'
    next => cases hb'
    next => exact hb'
  have hcapacity := cfg.capacity
  have hlength : (m.dropped a).registered.length = (m.dropped a).registered.order.length :=
    hslots.registered.length
  by_cases hfull : cfg.maxCpuLoras < (m.dropped a).registered.length + 1
  · have hlen₁ : done.length < (m.dropped a).registered.order.length := by omega
    obtain ⟨b, hb, hcontains, hremove⟩ := removeOldestAdapter_spec hslots hlast₁.registered hlen₁
    have horder : ((m.dropped a).registered.pop countOne b).order = (m.dropped a).registered.order.erase b :=
      order_pop hslots.registered b
    have hmem : b ∈ (m.dropped a).registered.order := (hslots.registered.keys b).mpr hcontains
    refine ⟨_, true, ?_, hslots.dropped b, ?_, ?_, ?_, ⟨rfl, rfl⟩, rfl, ?_,
      fun hheld => ?_⟩
    · rw [if_pos hfull, hremove]
    · exact Last.dropped ⟨hlast₁.registered, hlast₁.active⟩ hslots hb
    · refine Bool.eq_false_iff.mpr fun hc => ?_
      have hc' := ((contains_pop _ _ _).mp hc).1
      rw [hgone] at hc'
      cases hc'
    · show ((m.dropped a).registered.pop countOne b).order.length < _
      rw [horder, List.length_erase_of_mem hmem]
      have hwithin := hslots.registered.within
      rw [hslots.maxCpuLoras] at hwithin
      have hwithin' : (m.dropped a).registered.order.length ≤ cfg.maxCpuLoras := hwithin
      omega
    · intro k w hk
      have hk' : ((m.dropped a).registered.pop countOne b).data.get? k = some w := hk
      rw [get?_pop] at hk'
      split at hk'
      next => cases hk'
      next => exact hfrom k w hk'
    · -- The adapter has left room for itself.
      have hdropped : (m.dropped a).registered.order.length = m.registered.order.length - 1 := by
        rw [show (m.dropped a).registered.order = m.registered.order.erase a from order_pop h.slots.registered a,
          List.length_erase_of_mem ((h.slots.registered.keys a).mpr hheld)]
      have hwithin := h.slots.registered.within
      rw [h.slots.maxCpuLoras] at hwithin
      have hpos := List.length_pos_of_mem ((h.slots.registered.keys a).mpr hheld)
      omega
  · refine ⟨_, false, by rw [if_neg hfull], hslots, ⟨hlast₁.registered, hlast₁.active⟩, hgone, ?_, ⟨rfl, rfl⟩,
      rfl, hfrom, fun _ => rfl⟩
    show (m.dropped a).registered.order.length < cfg.maxCpuLoras
    omega

/-- The adapter is in a slot and stays there: where it is loaded again it takes the first free slot. -/
def KeepsSlot (m : LoRAModelManager W) (r : LoRARequest) : Prop :=
  m.active.contains r.loraIntId = true ∧ (r.loadInplace = true →
    ∀ s i : Nat, m.loraIndexToId[s]? = some (some r.loraIntId) → m.loraIndexToId[i]? = some none → s < i)

/-- A load that fails changes nothing. Otherwise the adapter is registered and active afterwards, and
those that were used last before it still are. -/
theorem addAdapter_spec (h : Good cfg m) (hlast : Last done m) {r : LoRARequest} (ha : r.loraIntId ∉ done)
    (hlen : done.length < cfg.maxLoras) (load : LoRARequest → Option W) :
    (load r = none ∧ addAdapter cfg load m r = (m, .error (.loadFailed r.loraIntId)))
      ∨ ∃ m' loaded, addAdapter cfg load m r = (m', .ok loaded)
        ∧ Good cfg m' ∧ Last (done ++ [r.loraIntId]) m' ∧ SameMapping m m'
        ∧ (KeepsSlot m r → m'.loraIndexToId = m.loraIndexToId) := by
  unfold addAdapter
  dsimp only
  by_cases hload : m.registered.contains r.loraIntId = false ∨ r.loadInplace = true
  · rw [if_pos hload]
    cases hloaded : load r with
    | none => exact Or.inl ⟨rfl, rfl⟩
    | some lora =>
      right
      obtain ⟨m₂, evicted, hmade, h₂, hlast₂, hnew, hroom, hsame, hloads, hfrom, hdropped⟩ :=
        room_spec h hlast ha hlen lora
      have hslots : Slots cfg { m with loads := (r.loraIntId, lora) :: m.loads } := { h.slots with }
      have hset : (m₂.withRegistered r.loraIntId lora).registered.data.get? r.loraIntId = some lora :=
        Dict.get?_set_self _ _ _
      have hregistered : (m₂.withRegistered r.loraIntId lora).registered.contains r.loraIntId = true := by
        unfold LruCache.contains Dict.contains
        rw [hset]
        rfl
      have hassign := h₂.registered.assign lora hnew (by rw [h₂.maxCpuLoras]; exact hroom)
      obtain ⟨m', result, hactivate, h', hlast', hsame', hloads', hdata', -, htable⟩ :=
        activateAdapter_spec (h₂.withRegistered lora hnew hroom) hregistered
          (show done ++ [r.loraIntId] <:+ (m₂.registered.assign countOne r.loraIntId lora).order by
            rw [hassign.2]
            exact List.suffix_append_self_iff.mpr hlast₂.registered)
          hlast₂.active ha hlen
      refine ⟨m', true, ?_, ⟨h', ?_⟩, hlast', hsame.trans ⟨hsame'.lastMapping, hsame'.punica⟩, ?_⟩
      · dsimp only
        rw [hslots.removeAdapter]
        rw [show (LoRAModelManager.dropped { m with loads := (r.loraIntId, lora) :: m.loads } r.loraIntId)
          = { m.dropped r.loraIntId with loads := (r.loraIntId, lora) :: m.loads } from rfl]
        rw [hmade, Outcome.andThen_ok, addAdapter_new h₂ lora hnew hroom, Outcome.andThen_ok, hactivate]
        rfl
      · intro b w hb
        unfold LoRAModelManager.lastLoad
        rw [hloads']
        show Dict.lookup b m₂.loads = some w
        rw [hloads, Dict.lookup]
        rw [hdata'] at hb
        have hb' : (m₂.registered.data.set r.loraIntId lora).get? b = some w := hb
        rw [Dict.get?_set] at hb'
        by_cases hbr : b = r.loraIntId
        · rw [if_pos hbr] at hb'
          rw [if_pos hbr.symm]
          exact hb'
        · rw [if_neg hbr] at hb'
          rw [if_neg (Ne.symm hbr)]
          exact h.latest b w (hfrom b w hb')
      · -- An adapter that is active is registered: it was loaded again.
        rintro ⟨hactive, hfirst⟩
        have hheld := h.slots.activeRegistered _ hactive
        have hinplace := hload.resolve_left (by rw [hheld]; exact Bool.false_ne_true.symm)
        obtain ⟨s, hs⟩ := List.mem_iff_getElem?.mp ((h.slots.slotted _).mpr hactive)
        have hm₂ := hdropped hheld
        have horder : m₂.active.order = m.active.order.erase r.loraIntId := by
          rw [hm₂]
          exact order_pop h.slots.active _
        rw [htable ?_ ?_]
        · show m₂.loraIndexToId.set (m₂.loraIndexToId.idxOf none) _ = _
          rw [hm₂]
          exact deactivateSlot_refilled h.slots.distinct hs fun i => hfirst hinplace s i hs
        · show m₂.active.contains r.loraIntId = false
          rw [hm₂]
          exact Bool.eq_false_iff.mpr fun hc => ((contains_pop _ _ _).mp hc).2 rfl
        · show m₂.active.order.length < cfg.maxLoras
          have hmem := (h.slots.active.keys _).mpr hactive
          have hwithin := h.slots.active.within
          have hpos := List.length_pos_of_mem hmem
          rw [h.slots.maxLoras] at hwithin
          rw [horder, List.length_erase_of_mem hmem]
          omega
  · right
    rw [not_or, Bool.not_eq_false] at hload
    rw [if_neg (by rw [not_or, Bool.not_eq_false]; exact hload)]
    obtain ⟨loraModel, hget⟩ := Option.isSome_iff_exists.mp hload.1
    have htouched := h.slots.touchRegistered hload.1
    obtain ⟨m', result, hactivate, h', hlast', hsame', hloads', hdata', htable, -⟩ :=
      activateAdapter_spec htouched hload.1 (suffix_moveToEnd hlast.registered ha) hlast.active ha hlen
    refine ⟨m', true, ?_, ⟨h', ?_⟩, hlast', ⟨hsame'.lastMapping, hsame'.punica⟩,
      fun hkeeps => htable hkeeps.1⟩
    · unfold LruCache.get
      rw [show m.registered.data.get? r.loraIntId = some loraModel from hget]
      dsimp only
      rw [Outcome.andThen_ok, hactivate]
      rfl
    · intro b w hb
      rw [hdata'] at hb
      unfold LoRAModelManager.lastLoad
      rw [hloads']
      exact h.latest b w hb

/-! ## The loop -/

theorem addAdapters_spec (load : LoRARequest → Option W) :
    ∀ (loras : List LoRARequest) {done : List Nat} {m : LoRAModelManager W}, Good cfg m → Last done m →
      (done ++ loras.map LoRARequest.loraIntId).Nodup → (done ++ loras.map LoRARequest.loraIntId).length ≤ cfg.maxLoras →
      ∃ m', Good cfg m' ∧ SameMapping m m'
        ∧ ((addAdapters cfg load loras m = (m', .ok ()) ∧ Last (done ++ loras.map LoRARequest.loraIntId) m'
            ∧ ((∀ r ∈ loras, KeepsSlot m r) → m'.loraIndexToId = m.loraIndexToId))
          ∨ ∃ loaded failed rest, loras = loaded ++ failed :: rest ∧ load failed = none
            ∧ addAdapters cfg load loaded m = (m', .ok ())
            ∧ addAdapters cfg load loras m = (m', .error (.loadFailed failed.loraIntId))) := by
  intro loras
  induction loras with
  | nil =>
    intro done m h hlast _ _
    refine ⟨m, h, .refl m, Or.inl ⟨rfl, ?_, fun _ => rfl⟩⟩
    rw [List.map_nil, List.append_nil]
    exact hlast
  | cons r loras ih =>
    intro done m h hlast hnodup hlen
    rw [List.map_cons] at hnodup hlen
    have ha : r.loraIntId ∉ done := fun hmem =>
      (List.nodup_append.mp hnodup).2.2 _ hmem _ List.mem_cons_self rfl
    have hlt : done.length < cfg.maxLoras := by
      rw [List.length_append, List.length_cons] at hlen
      omega
    rw [List.append_cons] at hnodup hlen
    obtain ⟨hfail, hadd⟩ | ⟨m₁, loaded, hadd, h₁, hlast₁, hsame₁, htable₁⟩ :=
      addAdapter_spec h hlast ha hlt load
    · refine ⟨m, h, .refl m, Or.inr ⟨[], r, loras, rfl, hfail, rfl, ?_⟩⟩
      rw [addAdapters, hadd]
      rfl
    · have hunfold : ∀ rest, addAdapters cfg load (r :: rest) m = addAdapters cfg load rest m₁ := by
        intro rest
        rw [addAdapters, hadd]
        rfl
      obtain ⟨m', h', hsame', hrest⟩ := ih h₁ hlast₁ hnodup hlen
      refine ⟨m', h', hsame₁.trans hsame', ?_⟩
      obtain ⟨hadds, hlast', htable'⟩ | ⟨pre, failed, post, hloras, hfail, hpre, hadds⟩ := hrest
      · refine Or.inl ⟨by rw [hunfold, hadds], ?_, fun hall => ?_⟩
        · rw [List.map_cons, List.append_cons]
          exact hlast'
        · have htable := htable₁ (hall r List.mem_cons_self)
          rw [← htable]
          refine htable' fun q hq => ?_
          have hq := hall q (List.mem_cons_of_mem r hq)
          unfold KeepsSlot
          rw [← h₁.slots.slotted, htable, h.slots.slotted]
          exact hq
      · refine Or.inr ⟨r :: pre, failed, post, by rw [hloras]; rfl, hfail, ?_, ?_⟩
        · rw [hunfold, hpre]
        · rw [hunfold, hadds]

/-! ## The adapters of a batch -/

/-- The requests by adapter: the keys are the ids that are asked for, each with a request of that id. -/
theorem lorasMap_spec (requests : List LoRARequest) :
    (∀ a, a ∈ (lorasMap requests).keys ↔ ∃ r ∈ requests, r.loraIntId = a)
      ∧ (∀ e ∈ (lorasMap requests).entries, e.2.loraIntId = e.1 ∧ e.2 ∈ requests) := by
  have hfold : ∀ (rs : List LoRARequest) (d : Dict Nat LoRARequest) (seen : List LoRARequest),
      (∀ a, a ∈ d.keys ↔ ∃ r ∈ seen, r.loraIntId = a) →
      (∀ e ∈ d.entries, e.2.loraIntId = e.1 ∧ e.2 ∈ seen) →
      (∀ a, a ∈ (rs.foldl (fun d r => d.set r.loraIntId r) d).keys ↔ ∃ r ∈ seen ++ rs, r.loraIntId = a)
        ∧ (∀ e ∈ (rs.foldl (fun d r => d.set r.loraIntId r) d).entries,
            e.2.loraIntId = e.1 ∧ e.2 ∈ seen ++ rs) := by
    intro rs
    induction rs with
    | nil =>
      intro d seen hkeys hentries
      rw [List.append_nil]
      exact ⟨hkeys, hentries⟩
    | cons r rs ih =>
      intro d seen hkeys hentries
      rw [List.foldl_cons, List.append_cons]
      refine ih (d.set r.loraIntId r) (seen ++ [r]) (fun a => ?_) (fun e he => ?_)
      · rw [Dict.mem_keys_iff, Dict.contains, Dict.get?_set]
        by_cases ha : a = r.loraIntId
        · rw [if_pos ha]
          refine ⟨fun _ => ⟨r, List.mem_append_right _ (List.mem_singleton_self r), ha.symm⟩, fun _ => rfl⟩
        · rw [if_neg ha]
          show d.contains a = true ↔ _
          rw [← Dict.mem_keys_iff, hkeys]
          constructor
          · intro hq
            obtain ⟨q, hq, hqa⟩ := hq
            exact ⟨q, List.mem_append_left _ hq, hqa⟩
          · intro hq
            obtain ⟨q, hq, hqa⟩ := hq
            obtain hq | hq := List.mem_append.mp hq
            · exact ⟨q, hq, hqa⟩
            · rw [List.mem_singleton.mp hq] at hqa
              exact absurd hqa.symm ha
      · obtain ⟨k, q⟩ := e
        have hq := (Dict.get?_eq_some_iff _).mpr he
        rw [Dict.get?_set] at hq
        split at hq
        next hk =>
          cases hq
          exact ⟨hk.symm, List.mem_append_right _ (List.mem_singleton_self _)⟩
        next =>
          obtain ⟨hid, hmem⟩ := hentries (k, q) ((Dict.get?_eq_some_iff _).mp hq)
          exact ⟨hid, List.mem_append_left _ hmem⟩
  have hspec := hfold requests Dict.empty [] (fun a => by simp [Dict.keys, Dict.empty])
    (fun e he => by cases he)
  rw [List.nil_append] at hspec
  exact hspec

theorem lorasMap_ids (requests : List LoRARequest) :
    (lorasMap requests).values.map LoRARequest.loraIntId = (lorasMap requests).keys := by
  unfold Dict.values Dict.keys
  rw [List.map_map]
  exact List.map_congr_left fun e he => ((lorasMap_spec requests).2 e he).1

/-! ## The slots of the tokens -/

/-- `i` is the slot that holds adapter `x`, or -1 for none. -/
def TokenSlot (table : List (Option Nat)) (x : Nat) (i : Int) : Prop :=
  (x = 0 ∧ i = -1) ∨ (0 < x ∧ ∃ s : Nat, i = s ∧ table[s]? = some (some x))

/-- The wrapper of the mapping was last told the slots that the adapters are in now. -/
def Tells (cfg : LoRAConfig) (m : LoRAModelManager W) (mapping : LoRAMapping) : Prop :=
  ∃ metadata, m.punica (cfg.targetPrefix mapping.type) = some metadata
    ∧ List.Forall₂ (TokenSlot m.loraIndexToId) mapping.indexMapping metadata.tokenLoraIndices
    ∧ List.Forall₂ (TokenSlot m.loraIndexToId) mapping.promptMapping metadata.samplerIndices

theorem slotIndex_spec {table : List (Option Nat)} {x : Nat} (hx : 0 < x → some x ∈ table) :
    ∃ i, slotIndex table x = .ok i ∧ TokenSlot table x i := by
  unfold slotIndex
  by_cases hpos : 0 < x
  · have hlt := List.idxOf_lt_length_of_mem (hx hpos)
    refine ⟨table.idxOf (some x), by rw [if_pos hpos, if_pos (hx hpos)], Or.inr ⟨hpos, _, rfl, ?_⟩⟩
    rw [List.getElem?_eq_getElem hlt, List.getElem_idxOf hlt]
  · exact ⟨-1, by rw [if_neg hpos], Or.inl ⟨Nat.eq_zero_of_not_pos hpos, rfl⟩⟩

theorem mapM_slotIndex {table : List (Option Nat)} {xs : List Nat} (hxs : ∀ x ∈ xs, 0 < x → some x ∈ table) :
    ∃ is, xs.mapM (slotIndex table) = .ok is ∧ List.Forall₂ (TokenSlot table) xs is := by
  induction xs with
  | nil => exact ⟨[], rfl, .nil⟩
  | cons x xs ih =>
    obtain ⟨i, hi, htoken⟩ := slotIndex_spec (hxs x List.mem_cons_self)
    obtain ⟨is, his, htokens⟩ := ih fun y hy => hxs y (List.mem_cons_of_mem x hy)
    refine ⟨i :: is, ?_, .cons htoken htokens⟩
    rw [List.mapM_cons, hi, his]
    rfl

/-- A mapping of adapters that are in slots is written. -/
theorem updateMetadata_spec (cfg : LoRAConfig) (mapping : LoRAMapping)
    (hmapping : ∀ x ∈ mapping.indexMapping ++ mapping.promptMapping, 0 < x → some x ∈ m.loraIndexToId) :
    ∃ punica, m.updateMetadata cfg mapping = ({ m with punica }, .ok ())
      ∧ Tells cfg { m with punica } mapping := by
  obtain ⟨prompts, hprompts, hpromptSlots⟩ :=
    mapM_slotIndex fun x hx => hmapping x (List.mem_append_right _ hx)
  obtain ⟨tokens, htokens, htokenSlots⟩ := mapM_slotIndex fun x hx => hmapping x (List.mem_append_left _ hx)
  unfold LoRAModelManager.updateMetadata convertMapping
  rw [hprompts, htokens]
  exact ⟨_, rfl, _, Function.update_self _ _ _, htokenSlots, hpromptSlots⟩

/-! ## Calls -/

/-- The slots, the two caches and the weights in the slots agree. -/
structure InOrder (cfg : LoRAConfig) (m : LoRAModelManager W) : Prop where
  distinct : (m.loraIndexToId.filterMap id).Nodup
  active : ∀ a, a ∈ m.loraIndexToId.filterMap id ↔ m.active.contains a = true
  registered : ∀ a, m.active.contains a = true → m.registered.contains a = true
  capacity : m.registered.length ≤ cfg.maxCpuLoras
  written : ∀ (i a : Nat), m.loraIndexToId[i]? = some (some a) →
    ∃ w, m.slotWeights[i]? = some (some w) ∧ m.lastLoad a = some w

/-- What is expected of a call. One that raises does so for a load that fails, and leaves what the
loads before it have changed. -/
def OwnAdapters (cfg : LoRAConfig) (m : LoRAModelManager W) (op : Op W) : Prop :=
  InOrder cfg (m.step cfg op).1 ∧
  match op with
  | .setActiveAdapters requests mapping load =>
    ((m.step cfg op).2 = .ok ()
        ∧ (∀ r ∈ requests, ∃! s : Nat, (m.step cfg op).1.loraIndexToId[s]? = some (some r.loraIntId))
        ∧ ∀ mp, mapping = some mp → Tells cfg (m.step cfg op).1 mp)
      ∨ ∃ loaded failed rest, (lorasMap requests).values = loaded ++ failed :: rest ∧ load failed = none
        ∧ (m.step cfg op).2 = .error (.loadFailed failed.loraIntId)
        ∧ addAdapters cfg load loaded m = ((m.step cfg op).1, .ok ())
  | .addAdapter request load =>
    (m.step cfg op).2 = .ok ()
      ∨ load request = none ∧ m.step cfg op = (m, .error (.loadFailed request.loraIntId))
  | .removeAdapter _ => (m.step cfg op).2 = .ok ()

/-- A batch asks for no more adapters than there are slots, and its mapping for none but these. -/
def Op.Batch (cfg : LoRAConfig) : Op W → Prop
  | .setActiveAdapters requests mapping _ =>
    (lorasMap requests).size ≤ cfg.maxLoras
      ∧ ∀ mp, mapping = some mp → ∀ x ∈ mp.indexMapping ++ mp.promptMapping, 0 < x →
          ∃ r ∈ requests, r.loraIntId = x
  | .addAdapter _ _ => True
  | .removeAdapter _ => True

/-- The mapping differs from the last one; or the wrapper was told the slots that the adapters are in,
and all requested adapters are in slots and stay there. -/
def Op.Refreshed (cfg : LoRAConfig) (m : LoRAModelManager W) : Op W → Prop
  | .setActiveAdapters requests mapping _ =>
    ∀ mp, mapping = some mp → m.lastMapping ≠ some mp
      ∨ Tells cfg m mp ∧ ∀ r ∈ requests, KeepsSlot m r
  | .addAdapter _ _ => True
  | .removeAdapter _ => True

theorem Good.inOrder (h : Good cfg m) : InOrder cfg m where
  distinct := by
    refine List.pairwise_filterMap.mpr (List.pairwise_iff_getElem.mpr fun i j hi hj hij => ?_)
    intro a ha b hb hab
    refine Nat.ne_of_lt hij (h.slots.distinct i j a ?_ ?_)
    · rw [List.getElem?_eq_getElem hi]
      exact congrArg some ha
    · rw [List.getElem?_eq_getElem hj, hab]
      exact congrArg some hb
  active := by
    intro a
    rw [List.mem_filterMap]
    constructor
    · intro hmem
      obtain ⟨o, ho, hoa⟩ := hmem
      rw [show o = some a from hoa] at ho
      exact (h.slots.slotted a).mp ho
    · exact fun ha => ⟨some a, (h.slots.slotted a).mpr ha, rfl⟩
  registered := h.slots.activeRegistered
  capacity := by
    rw [h.slots.registered.length, ← h.slots.maxCpuLoras]
    exact h.slots.registered.within
  written := by
    intro i a hi
    have hactive := (h.slots.slotted a).mp (List.mem_of_getElem? hi)
    obtain ⟨w, hw⟩ := Option.isSome_iff_exists.mp (h.slots.activeRegistered a hactive)
    refine ⟨w, ?_, h.latest a w hw⟩
    rw [h.slots.written i a hi]
    exact congrArg some hw

/-- A mapping does not move adapters. -/
theorem setAdapterMapping_spec (h : Good cfg m) (mapping : LoRAMapping)
    (hmapping : ∀ x ∈ mapping.indexMapping ++ mapping.promptMapping, 0 < x → some x ∈ m.loraIndexToId) :
    ∃ m', m.setAdapterMapping cfg mapping = (m', .ok ()) ∧ Good cfg m' ∧ m'.loraIndexToId = m.loraIndexToId
      ∧ (m.lastMapping ≠ some mapping ∨ Tells cfg m mapping → Tells cfg m' mapping) := by
  unfold LoRAModelManager.setAdapterMapping
  by_cases hnew : m.lastMapping ≠ some mapping
  · obtain ⟨punica, hupdate, htells⟩ := updateMetadata_spec cfg mapping hmapping
    refine ⟨{ m with punica, lastMapping := some mapping }, ?_, ⟨{ h.slots with }, h.latest⟩, rfl,
      fun _ => htells⟩
    rw [if_pos hnew, hupdate]
    rfl
  · refine ⟨m, by rw [if_neg hnew], h, rfl, fun hcond => ?_⟩
    obtain hcond | hcond := hcond
    · exact absurd hcond hnew
    · exact hcond

/-- One call. -/
theorem step_spec (h : Good cfg m) (op : Op W) (hbatch : op.Batch cfg) :
    Good cfg (m.step cfg op).1 ∧ (op.Refreshed cfg m → OwnAdapters cfg m op) := by
  cases op with
  | removeAdapter a =>
    have hstep : m.step cfg (.removeAdapter a) = (m.dropped a, .ok ()) := by
      rw [LoRAModelManager.step, h.slots.removeAdapter]
    unfold OwnAdapters
    rw [hstep]
    exact ⟨h.dropped a, fun _ => ⟨(h.dropped a).inOrder, rfl⟩⟩
  | addAdapter request load =>
    unfold OwnAdapters
    obtain ⟨hfail, hadd⟩ | ⟨m', loaded, hadd, h', -, -, -⟩ :=
      addAdapter_spec h (.nil m) List.not_mem_nil cfg.maxLoras_pos load (r := request)
    · have hstep : m.step cfg (.addAdapter request load) = (m, .error (.loadFailed request.loraIntId)) := by
        rw [LoRAModelManager.step, hadd]
        rfl
      rw [hstep]
      exact ⟨h, fun _ => ⟨h.inOrder, Or.inr ⟨hfail, rfl⟩⟩⟩
    · have hstep : m.step cfg (.addAdapter request load) = (m', .ok ()) := by
        rw [LoRAModelManager.step, hadd]
        rfl
      rw [hstep]
      exact ⟨h', fun _ => ⟨h'.inOrder, Or.inl rfl⟩⟩
  | setActiveAdapters requests mapping load =>
    obtain ⟨hsize, hids⟩ := hbatch
    have hkeys := lorasMap_ids requests
    have hnodup : ([] ++ (lorasMap requests).values.map LoRARequest.loraIntId).Nodup := by
      rw [List.nil_append, hkeys]
      exact (lorasMap requests).nodup
    have hlen : ([] ++ (lorasMap requests).values.map LoRARequest.loraIntId).length ≤ cfg.maxLoras := by
      rw [List.nil_append, hkeys]
      unfold Dict.keys
      rw [List.length_map]
      exact hsize
    have happly : applyAdapters cfg load m requests = addAdapters cfg load (lorasMap requests).values m := by
      unfold applyAdapters
      exact if_neg (Nat.not_lt.mpr hsize)
    unfold OwnAdapters
    obtain ⟨m₁, h₁, hsame, ⟨hadds, hlast, htable⟩ | ⟨loaded, failed, rest, hvalues, hfail, hloaded, hadds⟩⟩ :=
      addAdapters_spec load (lorasMap requests).values h (.nil m) hnodup hlen
    · rw [List.nil_append, hkeys] at hlast
      have hslotted : ∀ r ∈ requests, some r.loraIntId ∈ m₁.loraIndexToId := by
        intro r hr
        have hkey := ((lorasMap_spec requests).1 r.loraIntId).mpr ⟨r, hr, rfl⟩
        exact (h₁.slots.slotted _).mpr ((h₁.slots.active.keys _).mp (hlast.active.mem hkey))
      have hunique : ∀ r ∈ requests, ∃! s : Nat, m₁.loraIndexToId[s]? = some (some r.loraIntId) := by
        intro r hr
        obtain ⟨s, hs⟩ := List.mem_iff_getElem?.mp (hslotted r hr)
        exact ⟨s, hs, fun t ht => h₁.slots.distinct t s _ ht hs⟩
      cases mapping with
      | none =>
        have hstep : m.step cfg (.setActiveAdapters requests none load) = (m₁, .ok ()) := by
          rw [LoRAModelManager.step, setActiveAdapters, happly, hadds]
          rfl
        rw [hstep]
        exact ⟨h₁, fun _ => ⟨h₁.inOrder, Or.inl ⟨rfl, hunique, fun mp hmp => by cases hmp⟩⟩⟩
      | some mp =>
        obtain ⟨m₂, hset, h₂, htable₂, htells⟩ := setAdapterMapping_spec h₁ mp fun x hx hpos => by
          obtain ⟨r, hr, hrx⟩ := hids mp rfl x hx hpos
          rw [← hrx]
          exact hslotted r hr
        have hstep : m.step cfg (.setActiveAdapters requests (some mp) load) = (m₂, .ok ()) := by
          rw [LoRAModelManager.step, setActiveAdapters, happly, hadds]
          exact hset
        rw [hstep]
        refine ⟨h₂, fun hrefreshed => ⟨h₂.inOrder, Or.inl ⟨rfl, ?_, fun mp' hmp' => ?_⟩⟩⟩
        · rw [htable₂]
          exact hunique
        · cases hmp'
          apply htells
          rw [hsame.lastMapping]
          refine (hrefreshed mp rfl).imp_right fun hstays => ?_
          -- No adapter moves, so the wrapper is still right.
          have hsameTable : m₁.loraIndexToId = m.loraIndexToId := by
            refine htable fun r hr => ?_
            obtain ⟨e, he, her⟩ := List.mem_map.mp hr
            exact hstays.2 r (her ▸ ((lorasMap_spec requests).2 e he).2)
          unfold Tells
          rw [hsame.punica, hsameTable]
          exact hstays.1
    · have hstep : m.step cfg (.setActiveAdapters requests mapping load)
          = (m₁, .error (.loadFailed failed.loraIntId)) := by
        rw [LoRAModelManager.step, setActiveAdapters, happly, hadds]
        rfl
      rw [hstep]
      exact ⟨h₁, fun _ => ⟨h₁.inOrder, Or.inr ⟨loaded, failed, rest, hvalues, hfail, rfl, hloaded⟩⟩⟩

theorem Good.run : ∀ (ops : List (Op W)) {m : LoRAModelManager W}, Good cfg m → (∀ op ∈ ops, op.Batch cfg) →
    Good cfg (m.run cfg ops) := by
  intro ops
  induction ops with
  | nil => intro m h _; exact h
  | cons op ops ih =>
    intro m h hops
    exact ih (step_spec h op (hops op List.mem_cons_self)).1 fun o ho => hops o (List.mem_cons_of_mem op ho)

/-- After any calls whose batches fit, a call whose mapping is `Refreshed` leaves the adapters in order,
and every token with the slot of its own adapter. -/
theorem own_adapters (cfg : LoRAConfig) (ops : List (Op W)) (op : Op W)
    (hbatches : ∀ o ∈ ops ++ [op], o.Batch cfg)
    (hrefreshed : op.Refreshed cfg ((LoRAModelManager.init cfg).run cfg ops)) :
    OwnAdapters cfg ((LoRAModelManager.init cfg).run cfg ops) op :=
  (step_spec (Good.run ops (.init cfg) fun o ho => hbatches o (List.mem_append_left _ ho)) op
    (hbatches op (List.mem_append_right _ (List.mem_singleton_self op)))).2 hrefreshed

section Examples

def twoSlots : LoRAConfig := { maxLoras := 2, maxCpuLoras := 2, maxLoras_pos := by decide, capacity := by decide }

def firstRequest : LoRARequest := { loraName := "first", loraIntId := 1, pos := by decide }

def secondRequest : LoRARequest := { loraName := "second", loraIntId := 2, pos := by decide }

/-- One token of the second adapter. -/
def secondMapping : LoRAMapping := { indexMapping := [2], promptMapping := [2] }

def loadId (r : LoRARequest) : Option Nat := some r.loraIntId

/-- A batch for the second adapter, after the first one has taken a slot. -/
def secondBatch : Op Nat := .setActiveAdapters [secondRequest] (some secondMapping) loadId

theorem secondBatch_fits : secondBatch.Batch twoSlots := by
  refine ⟨by decide, fun mp hmp x hx _ => ⟨secondRequest, List.mem_singleton_self _, ?_⟩⟩
  cases hmp
  obtain hx | hx := List.mem_append.mp hx
  · exact (List.mem_singleton.mp hx).symm
  · exact (List.mem_singleton.mp hx).symm

theorem second_adapter_own : OwnAdapters twoSlots
    ((LoRAModelManager.init twoSlots).run twoSlots [.addAdapter firstRequest loadId]) secondBatch := by
  refine own_adapters twoSlots [.addAdapter firstRequest loadId] secondBatch ?_ ?_
  · intro o ho
    obtain ho | ho := List.mem_cons.mp ho
    · rw [ho]
      trivial
    · rw [List.mem_singleton.mp ho]
      exact secondBatch_fits
  · intro mp _
    left
    intro h
    cases h

/-- Between two batches with one mapping, the first adapter is removed and the second one loaded
again: it moves to the first slot, and its token is still sent to the other one. -/
theorem stale_slot :
    let ops := [.addAdapter firstRequest loadId, secondBatch, .removeAdapter 1,
      .addAdapter { secondRequest with loadInplace := true } loadId]
    (∀ o ∈ ops ++ [secondBatch], o.Batch twoSlots)
      ∧ ¬ OwnAdapters twoSlots ((LoRAModelManager.init twoSlots).run twoSlots ops) secondBatch := by
  intro ops
  constructor
  · intro o ho
    have ho' : o = .addAdapter firstRequest loadId ∨ o = secondBatch ∨ o = .removeAdapter 1
        ∨ o = .addAdapter { secondRequest with loadInplace := true } loadId ∨ o = secondBatch := by
      simpa [ops] using ho
    obtain ho | ho | ho | ho | ho := ho'
    · rw [ho]; trivial
    · rw [ho]; exact secondBatch_fits
    · rw [ho]; trivial
    · rw [ho]; trivial
    · rw [ho]; exact secondBatch_fits
  · intro h
    obtain ⟨-, ⟨-, -, htells⟩ | ⟨_, _, _, -, hfail, -⟩⟩ := h
    · obtain ⟨metadata, hmetadata, htokens, -⟩ := htells secondMapping rfl
      have htold : (((LoRAModelManager.init twoSlots).run twoSlots ops).step twoSlots secondBatch).1.punica
          "language_model" = some ⟨[1], [1], [1], ([0], [0]), false⟩ := rfl
      have htable : (((LoRAModelManager.init twoSlots).run twoSlots ops).step twoSlots
          secondBatch).1.loraIndexToId = [some 2, none] := rfl
      have heq : some metadata = some ⟨[1], [1], [1], ([0], [0]), false⟩ := hmetadata.symm.trans htold
      cases heq
      rw [htable] at htokens
      have htoken : TokenSlot [some 2, none] 2 1 := by
        cases htokens with
        | cons h _ => exact h
      obtain ⟨hzero, -⟩ | ⟨-, s, hs, hget⟩ := htoken
      · cases hzero
      · have hs' : s = 1 := by omega
        rw [hs'] at hget
        cases hget
    · cases hfail

end Examples

end VllmEngine.Lora
