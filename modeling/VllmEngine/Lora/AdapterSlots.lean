import Mathlib.Data.List.Perm.Subperm
import VllmEngine.Lora.AdapterManager

/-!
# The slot table

`Slots`: the ids in the slot table are distinct and are the active adapters, these are registered,
and each slot was last written with the weights its adapter is registered with. Each operation of the
managers keeps this, and says which keys it leaves last in the orders of the two caches.
-/

namespace VllmEngine.Lora

open Cache

variable {W : Type}

/-! ## The table -/

/-- No adapter is in two slots. -/
def Distinct (table : List (Option Nat)) : Prop :=
  ∀ (i j : Nat) (a : Nat), table[i]? = some (some a) → table[j]? = some (some a) → i = j

variable {table : List (Option Nat)}

theorem Distinct.idxOf (h : Distinct table) {i a : Nat} (hi : table[i]? = some (some a)) :
    table.idxOf (some a) = i := by
  have hmem : some a ∈ table := List.mem_of_getElem? hi
  have hlt := List.idxOf_lt_length_of_mem hmem
  refine h _ i a ?_ hi
  rw [List.getElem?_eq_getElem hlt, List.getElem_idxOf hlt]

theorem length_deactivateSlot (table : List (Option Nat)) (a : Nat) :
    (deactivateSlot table a).length = table.length := by
  unfold deactivateSlot
  split
  · rw [List.length_set]
  · rfl

/-- The slot of the adapter is freed, and no other is touched. -/
theorem getElem?_deactivateSlot (h : Distinct table) (a i : Nat) :
    (deactivateSlot table a)[i]? = if table[i]? = some (some a) then some none else table[i]? := by
  unfold deactivateSlot
  split
  next hmem =>
    have hlt := List.idxOf_lt_length_of_mem hmem
    have hat : table[table.idxOf (some a)]? = some (some a) := by
      rw [List.getElem?_eq_getElem hlt, List.getElem_idxOf hlt]
    rw [List.getElem?_set]
    by_cases hi : table.idxOf (some a) = i
    · rw [if_pos hi, if_pos hlt, if_pos (by rw [← hi]; exact hat)]
    · rw [if_neg hi, if_neg fun hget => hi (h.idxOf hget)]
  next hmem =>
    rw [if_neg fun hget => hmem (List.mem_of_getElem? hget)]

/-- An adapter that leaves its slot and takes the first free one is back, where none was free before it. -/
theorem deactivateSlot_refilled (h : Distinct table) {a s : Nat} (hs : table[s]? = some (some a))
    (hfree : ∀ i : Nat, table[i]? = some none → s < i) :
    (deactivateSlot table a).set ((deactivateSlot table a).idxOf none) (some a) = table := by
  have hat : (deactivateSlot table a)[s]? = some none := by
    rw [getElem?_deactivateSlot h, if_pos hs]
  have hlt := List.idxOf_lt_length_of_mem (List.mem_of_getElem? hat)
  have hfirst : (deactivateSlot table a)[(deactivateSlot table a).idxOf none]? = some none := by
    rw [List.getElem?_eq_getElem hlt, List.getElem_idxOf hlt]
  have hidx : (deactivateSlot table a).idxOf none = s := by
    rw [getElem?_deactivateSlot h] at hfirst
    by_cases hown : table[(deactivateSlot table a).idxOf none]? = some (some a)
    · exact h _ _ a hown hs
    · rw [if_neg hown] at hfirst
      obtain ⟨hlen, hget⟩ := List.getElem?_eq_some_iff.mp hat
      have hnot := List.not_of_lt_findIdx (hfree _ hfirst)
      rw [hget] at hnot
      cases hnot
  rw [hidx]
  refine List.ext_getElem? fun i => ?_
  rw [List.getElem?_set, getElem?_deactivateSlot h]
  by_cases hi : s = i
  · rw [if_pos hi, if_pos (List.getElem?_eq_some_iff.mp hat).1, ← hi, hs]
  · rw [if_neg hi, if_neg fun hown => hi (h s i a hs hown)]

theorem getElem?_deactivateSlot_some (h : Distinct table) {a b i : Nat} :
    (deactivateSlot table a)[i]? = some (some b) ↔ table[i]? = some (some b) ∧ b ≠ a := by
  rw [getElem?_deactivateSlot h]
  split
  next hget =>
    rw [hget]
    constructor
    · intro hb
      cases hb
    · intro hb
      cases hb.1
      exact absurd rfl hb.2
  next hget =>
    constructor
    · intro hb
      exact ⟨hb, fun heq => hget (heq ▸ hb)⟩
    · exact fun hb => hb.1

theorem Distinct.deactivateSlot (h : Distinct table) (a : Nat) :
    Distinct (deactivateSlot table a) := by
  intro i j b hi hj
  exact h i j b ((getElem?_deactivateSlot_some h).mp hi).1 ((getElem?_deactivateSlot_some h).mp hj).1

theorem mem_deactivateSlot (h : Distinct table) {a b : Nat} :
    some b ∈ deactivateSlot table a ↔ some b ∈ table ∧ b ≠ a := by
  rw [List.mem_iff_getElem?, List.mem_iff_getElem?]
  constructor
  · intro hb
    obtain ⟨i, hi⟩ := hb
    obtain ⟨hi, hne⟩ := (getElem?_deactivateSlot_some h).mp hi
    exact ⟨⟨i, hi⟩, hne⟩
  · intro hb
    obtain ⟨⟨i, hi⟩, hne⟩ := hb
    exact ⟨i, (getElem?_deactivateSlot_some h).mpr ⟨hi, hne⟩⟩

/-- Freeing a slot twice is freeing it once. -/
theorem deactivateSlot_twice (h : Distinct table) (a : Nat) :
    Lora.deactivateSlot (Lora.deactivateSlot table a) a = Lora.deactivateSlot table a := by
  have hnot : some a ∉ Lora.deactivateSlot table a := fun hmem => ((mem_deactivateSlot h).mp hmem).2 rfl
  generalize Lora.deactivateSlot table a = freed at hnot
  unfold Lora.deactivateSlot
  rw [if_neg hnot]

/-- With fewer adapters than slots one is free. -/
theorem exists_free (h : Distinct table) {active : List Nat}
    (hactive : ∀ a, some a ∈ table → a ∈ active) (hlt : active.length < table.length) :
    none ∈ table := by
  refine Decidable.byContradiction fun hfull => ?_
  have hsome : ∀ i (hi : i < table.length), ∃ a, table[i]? = some (some a) := by
    intro i hi
    cases hget : table[i] with
    | none => exact absurd (hget ▸ List.getElem_mem hi) hfull
    | some a => exact ⟨a, by rw [List.getElem?_eq_getElem hi, hget]⟩
  -- The adapters in the slots, each once, are among the active ones.
  have hnodup : (table.map fun o => o.getD 0).Nodup := by
    refine List.nodup_iff_getElem?_ne_getElem?.mpr fun i j hij hj heq => ?_
    rw [List.length_map] at hj
    obtain ⟨a, ha⟩ := hsome i (Nat.lt_trans hij hj)
    obtain ⟨b, hb⟩ := hsome j hj
    rw [List.getElem?_map, List.getElem?_map, ha, hb] at heq
    have hab : a = b := Option.some.inj heq
    exact Nat.ne_of_lt hij (h i j a ha (hab ▸ hb))
  have hsub : (table.map fun o => o.getD 0) ⊆ active := by
    intro a ha
    obtain ⟨o, ho, hoa⟩ := List.mem_map.mp ha
    cases o with
    | none => exact absurd ho hfull
    | some b => exact hactive a (by rw [← hoa]; exact ho)
  have hle := (hnodup.subperm hsub).length_le
  rw [List.length_map] at hle
  omega

/-! ## Last in the order -/

section Order

variable {done order : List Nat} {key : Nat}

theorem suffix_erase (h : done <:+ order) (hkey : key ∉ done) : done <:+ order.erase key := by
  obtain ⟨front, rfl⟩ := h
  by_cases hfront : key ∈ front
  · rw [List.erase_append_left _ hfront]
    exact List.suffix_append _ _
  · rw [List.erase_append_right _ hfront, List.erase_of_not_mem hkey]
    exact List.suffix_append _ _

theorem suffix_moveToEnd (h : done <:+ order) (hkey : key ∉ done) : done ++ [key] <:+ moveToEnd order key := by
  unfold moveToEnd
  exact List.suffix_append_self_iff.mpr (suffix_erase h hkey)

/-- The last key stays there. -/
theorem suffix_moveToEnd_last (hnodup : order.Nodup) (h : done ++ [key] <:+ order) :
    done ++ [key] <:+ moveToEnd order key := by
  obtain ⟨front, horder⟩ := h
  rw [← List.append_assoc] at horder
  have hnot : key ∉ front ++ done := by
    rw [← horder] at hnodup
    exact fun hmem => (List.nodup_append.mp hnodup).2.2 key hmem key (List.mem_singleton_self _) rfl
  unfold moveToEnd
  rw [← horder, List.erase_append_right _ hnot, List.erase_cons_head, List.append_nil, List.append_assoc]
  exact List.suffix_append _ _

theorem suffix_tail {rest : List Nat} (h : done <:+ key :: rest) (hlen : done.length < (key :: rest).length) :
    done <:+ rest := by
  obtain heq | hrest := List.suffix_cons_iff.mp h
  · rw [heq] at hlen
    exact absurd hlen (Nat.lt_irrefl _)
  · exact hrest

/-- Of more keys than are served, the first is not one of these. -/
theorem head_not_mem_suffix {rest : List Nat} (hnodup : (key :: rest).Nodup) (h : done <:+ key :: rest)
    (hlen : done.length < (key :: rest).length) : key ∉ done :=
  fun hmem => (List.nodup_cons.mp hnodup).1 ((suffix_tail h hlen).mem hmem)

end Order

/-! ## The invariant -/

structure Slots (cfg : LoRAConfig) (m : LoRAModelManager W) : Prop where
  registered : Counted m.registered
  active : Counted m.active
  maxCpuLoras : m.registered.maxsize = cfg.maxCpuLoras
  maxLoras : m.active.maxsize = cfg.maxLoras
  table : m.loraIndexToId.length = cfg.maxLoras
  weights : m.slotWeights.length = cfg.maxLoras
  distinct : Distinct m.loraIndexToId
  slotted : ∀ a, some a ∈ m.loraIndexToId ↔ m.active.contains a = true
  activeRegistered : ∀ a, m.active.contains a = true → m.registered.contains a = true
  written : ∀ (i a : Nat), m.loraIndexToId[i]? = some (some a) → m.slotWeights[i]? = some (m.registered.data.get? a)

/-- What calls on adapters leave alone. -/
structure SameMapping (m m' : LoRAModelManager W) : Prop where
  lastMapping : m'.lastMapping = m.lastMapping
  punica : m'.punica = m.punica

theorem SameMapping.refl (m : LoRAModelManager W) : SameMapping m m := ⟨rfl, rfl⟩

theorem SameMapping.trans {m m' m'' : LoRAModelManager W} (h : SameMapping m m') (h' : SameMapping m' m'') :
    SameMapping m m'' :=
  ⟨h'.lastMapping.trans h.lastMapping, h'.punica.trans h.punica⟩

theorem Slots.init (cfg : LoRAConfig) : Slots cfg (LoRAModelManager.init cfg : LoRAModelManager W) where
  registered := .empty _
  active := .empty _
  maxCpuLoras := rfl
  maxLoras := rfl
  table := List.length_replicate
  weights := List.length_replicate
  distinct := by
    intro i j a hi
    have hmem := List.mem_of_getElem? hi
    cases (List.mem_replicate.mp hmem).2
  slotted := by
    intro a
    constructor
    · intro hmem
      cases (List.mem_replicate.mp hmem).2
    · intro h
      cases h
  activeRegistered := by
    intro a h
    cases h
  written := by
    intro i a hi
    have hmem := List.mem_of_getElem? hi
    cases (List.mem_replicate.mp hmem).2

theorem get?_pop {V : Type} (c : LruCache Nat V) (key k : Nat) :
    (c.pop countOne key).data.get? k = if k = key then none else c.data.get? k := by
  unfold LruCache.pop
  cases hget : c.data.get? key with
  | none =>
    dsimp only
    by_cases hk : k = key
    · rw [if_pos hk, hk, hget]
    · rw [if_neg hk]
  | some value => exact Dict.get?_erase _ _ _

theorem contains_pop {V : Type} (c : LruCache Nat V) (key k : Nat) :
    (c.pop countOne key).contains k = true ↔ c.contains k = true ∧ k ≠ key := by
  unfold LruCache.contains Dict.contains
  rw [get?_pop]
  by_cases hk : k = key
  · simp [hk]
  · simp [hk]

theorem maxsize_pop {V : Type} (c : LruCache Nat V) (key : Nat) :
    (c.pop countOne key).maxsize = c.maxsize := by
  unfold LruCache.pop
  split
  · rfl
  · rfl

theorem order_pop {V : Type} {c : LruCache Nat V} (h : Counted c) (key : Nat) :
    (c.pop countOne key).order = c.order.erase key := by
  unfold LruCache.pop
  cases hget : c.data.get? key with
  | none =>
    have hnot : key ∉ c.order := by
      rw [h.keys]
      unfold LruCache.contains Dict.contains
      rw [hget]
      exact Bool.false_ne_true
    exact (List.erase_of_not_mem hnot).symm
  | some value => rfl

theorem pop_absent {V : Type} {c : LruCache Nat V} {key : Nat} (h : c.contains key = false) :
    c.pop countOne key = c := by
  have hget : c.data.get? key = none := by
    unfold LruCache.contains Dict.contains at h
    exact Option.not_isSome_iff_eq_none.mp (by rw [h]; exact Bool.false_ne_true)
  unfold LruCache.pop
  rw [hget]

/-! ## Removing -/

/-- The adapter is no longer active. -/
def LoRAModelManager.slotless (m : LoRAModelManager W) (a : Nat) : LoRAModelManager W :=
  { m with
    active := m.active.pop countOne a
    loraIndexToId := deactivateSlot m.loraIndexToId a }

/-- The adapter is no longer active or registered. -/
def LoRAModelManager.dropped (m : LoRAModelManager W) (a : Nat) : LoRAModelManager W :=
  { m.slotless a with registered := m.registered.pop countOne a }

section Removing

variable {m : LoRAModelManager W} {a : Nat}

theorem popActive_eq (hslot : some a ∈ m.loraIndexToId ↔ m.active.contains a = true) :
    m.popActive a = m.slotless a := by
  unfold LoRAModelManager.popActive LoRAModelManager.slotless
  by_cases hactive : m.active.contains a = true
  · rw [if_pos hactive]
  · have hnot : some a ∉ m.loraIndexToId := fun hmem => hactive (hslot.mp hmem)
    rw [if_neg hactive, pop_absent (Bool.eq_false_iff.mpr hactive)]
    unfold deactivateSlot
    rw [if_neg hnot]

/-- The callback of `_active_adapters.pop` finds the slot free already. -/
theorem deactivateAdapter_eq (hdistinct : Distinct m.loraIndexToId)
    (hslot : some a ∈ m.loraIndexToId ↔ m.active.contains a = true) :
    m.deactivateAdapter a = m.slotless a := by
  unfold LoRAModelManager.deactivateAdapter
  by_cases hactive : m.active.contains a = true
  · rw [if_neg (by rw [hactive]; exact Bool.false_ne_true)]
    unfold LoRAModelManager.popActive
    rw [if_pos (show m.active.contains a = true from hactive)]
    dsimp only
    rw [deactivateSlot_twice hdistinct]
    rfl
  · rw [if_pos (by rw [Bool.eq_false_iff.mpr hactive]; rfl), ← popActive_eq hslot]
    unfold LoRAModelManager.popActive
    rw [if_neg hactive]

theorem slotless_registered (hregistered : m.registered.contains a = false) : m.slotless a = m.dropped a := by
  unfold LoRAModelManager.dropped
  rw [pop_absent hregistered]
  rfl

end Removing

namespace Slots

variable {cfg : LoRAConfig} {m : LoRAModelManager W}

theorem popActive (h : Slots cfg m) (a : Nat) : m.popActive a = m.slotless a := popActive_eq (h.slotted a)

theorem popRegistered (h : Slots cfg m) (a : Nat) : m.popRegistered a = m.dropped a := by
  unfold LoRAModelManager.popRegistered
  by_cases hregistered : m.registered.contains a = true
  · rw [if_pos hregistered,
      deactivateAdapter_eq (m := { m with registered := m.registered.pop countOne a }) h.distinct (h.slotted a)]
    rfl
  · have hactive : m.active.contains a = false :=
      Bool.eq_false_iff.mpr fun hactive => hregistered (h.activeRegistered a hactive)
    rw [if_neg hregistered, ← slotless_registered (Bool.eq_false_iff.mpr hregistered), ← h.popActive]
    unfold LoRAModelManager.popActive
    rw [if_neg (by rw [hactive]; exact Bool.false_ne_true)]

theorem slotless (h : Slots cfg m) (a : Nat) : Slots cfg (m.slotless a) where
  __ := h
  active := h.active.pop a
  maxLoras := (maxsize_pop _ _).trans h.maxLoras
  table := (length_deactivateSlot _ _).trans h.table
  distinct := h.distinct.deactivateSlot a
  slotted := by
    intro b
    show some b ∈ deactivateSlot m.loraIndexToId a ↔ (m.active.pop countOne a).contains b = true
    rw [mem_deactivateSlot h.distinct, contains_pop, h.slotted]
  activeRegistered := fun b hb => h.activeRegistered b ((contains_pop _ _ _).mp hb).1
  written := fun i b hi => h.written i b ((getElem?_deactivateSlot_some h.distinct).mp hi).1

theorem dropped (h : Slots cfg m) (a : Nat) : Slots cfg (m.dropped a) := by
  have hless := h.slotless a
  constructor
  case registered => exact h.registered.pop a
  case active => exact hless.active
  case maxCpuLoras => exact (maxsize_pop _ _).trans h.maxCpuLoras
  case maxLoras => exact hless.maxLoras
  case table => exact hless.table
  case weights => exact hless.weights
  case distinct => exact hless.distinct
  case slotted => exact hless.slotted
  case activeRegistered =>
    intro b hb
    have hb' : (m.active.pop countOne a).contains b = true := hb
    obtain ⟨hactive, hne⟩ := (contains_pop _ _ _).mp hb'
    exact (contains_pop _ _ _).mpr ⟨h.activeRegistered b hactive, hne⟩
  case written =>
    intro i b hi
    have hne : b ≠ a := ((getElem?_deactivateSlot_some h.distinct).mp hi).2
    show m.slotWeights[i]? = some ((m.registered.pop countOne a).data.get? b)
    rw [get?_pop, if_neg hne]
    exact hless.written i b hi

theorem removeAdapter (h : Slots cfg m) (a : Nat) : m.removeAdapter a = m.dropped a := by
  unfold LoRAModelManager.removeAdapter
  rw [deactivateAdapter_eq h.distinct (h.slotted a), (h.slotless a).popRegistered a]
  -- The adapter is not active any more when it is popped.
  have hgone : (m.active.pop countOne a).contains a = false :=
    Bool.eq_false_iff.mpr fun hb => ((contains_pop _ _ _).mp hb).2 rfl
  unfold LoRAModelManager.dropped LoRAModelManager.slotless
  dsimp only
  rw [pop_absent hgone, deactivateSlot_twice h.distinct]

end Slots

end VllmEngine.Lora

/-!
## Loading and activating adapters

While the adapters of a batch are added one after another, those that are done come last in the
orders of both caches (`Last`). A batch has no more adapters than slots, so what is evicted for the
next adapter is never one of these, and a slot is free for it. `addAdapter_spec` is the step, and
`addAdapters_spec` the loop.
-/

namespace VllmEngine.Lora

open Cache

variable {W : Type} {cfg : LoRAConfig} {m m' : LoRAModelManager W} {a : Nat} {done : List Nat}

/-- The adapters `done` were used last, in this order. -/
structure Last (done : List Nat) (m : LoRAModelManager W) : Prop where
  registered : done <:+ m.registered.order
  active : done <:+ m.active.order

theorem Last.nil (m : LoRAModelManager W) : Last [] m := ⟨List.nil_suffix, List.nil_suffix⟩

theorem Last.slotless (h : Last done m) (hm : Slots cfg m) (ha : a ∉ done) : Last done (m.slotless a) where
  registered := h.registered
  active := by
    show done <:+ (m.active.pop countOne a).order
    rw [order_pop hm.active]
    exact suffix_erase h.active ha

theorem Last.dropped (h : Last done m) (hm : Slots cfg m) (ha : a ∉ done) : Last done (m.dropped a) where
  registered := by
    show done <:+ (m.registered.pop countOne a).order
    rw [order_pop hm.registered]
    exact suffix_erase h.registered ha
  active := (h.slotless hm ha).active

/-- A cache with more keys than are done evicts another one. -/
theorem removeOldest_other {V : Type} {c : LruCache Nat V} (hc : Counted c) (hdone : done <:+ c.order)
    (hlen : done.length < c.order.length) :
    ∃ b, b ∉ done ∧ c.contains b = true ∧ c.removeOldest countOne = .ok (some b, c.pop countOne b) := by
  cases horder : c.order with
  | nil =>
    rw [horder] at hlen
    exact absurd hlen (Nat.not_lt_zero _)
  | cons b rest =>
    have hnodup := hc.nodup
    rw [horder] at hdone hlen hnodup
    refine ⟨b, head_not_mem_suffix hnodup hdone hlen, (hc.keys b).mp ?_, hc.removeOldest horder⟩
    rw [horder]
    exact List.mem_cons_self

/-! ## Registering -/

theorem removeOldestAdapter_spec (hm : Slots cfg m) (hlast : done <:+ m.registered.order)
    (hlen : done.length < m.registered.order.length) :
    ∃ b, b ∉ done ∧ m.registered.contains b = true
      ∧ LRUCacheLoRAModelManager.removeOldestAdapter m = (m.dropped b, .ok true) := by
  obtain ⟨b, hb, hcontains, hremove⟩ := removeOldest_other hm.registered hlast hlen
  refine ⟨b, hb, hcontains, ?_⟩
  unfold LRUCacheLoRAModelManager.removeOldestAdapter
  rw [if_pos (by rw [hm.registered.length]; exact Nat.lt_of_le_of_lt (Nat.zero_le _) hlen), hremove]
  dsimp only
  rw [hm.popRegistered]

/-- The manager with one more adapter registered. -/
def LoRAModelManager.withRegistered (m : LoRAModelManager W) (a : Nat) (lora : W) : LoRAModelManager W :=
  { m with registered := m.registered.assign countOne a lora }

theorem Slots.withRegistered (h : Slots cfg m) (lora : W) (hnew : m.registered.contains a = false)
    (hroom : m.registered.order.length < cfg.maxCpuLoras) : Slots cfg (m.withRegistered a lora) := by
  have hassign := h.registered.assign lora hnew (by rw [h.maxCpuLoras]; exact hroom)
  -- No active adapter is the new one.
  have hother : ∀ b, m.active.contains b = true → b ≠ a := by
    intro b hb heq
    have hregistered := h.activeRegistered b hb
    rw [heq, hnew] at hregistered
    cases hregistered
  constructor
  case registered => exact hassign.1
  case active => exact h.active
  case maxCpuLoras => exact h.maxCpuLoras
  case maxLoras => exact h.maxLoras
  case table => exact h.table
  case weights => exact h.weights
  case distinct => exact h.distinct
  case slotted => exact h.slotted
  case activeRegistered =>
    intro b hb
    show (m.registered.data.set a lora).contains b = true
    unfold Dict.contains
    rw [Dict.get?_set_ne _ _ (hother b hb)]
    exact h.activeRegistered b hb
  case written =>
    intro i b hi
    have hb := (h.slotted b).mp (List.mem_of_getElem? hi)
    show m.slotWeights[i]? = some ((m.registered.data.set a lora).get? b)
    rw [Dict.get?_set_ne _ _ (hother b hb)]
    exact h.written i b hi

theorem addAdapter_new (h : Slots cfg m) (lora : W) (hnew : m.registered.contains a = false)
    (hroom : m.registered.order.length < cfg.maxCpuLoras) :
    LRUCacheLoRAModelManager.addAdapter m a lora = (m.withRegistered a lora, .ok true) := by
  unfold LRUCacheLoRAModelManager.addAdapter LoRAModelManager.setRegistered
  rw [if_pos (by rw [hnew]; rfl),
    h.registered.setItem hnew (by rw [h.maxCpuLoras]; exact hroom)]
  rfl

/-! ## Activating -/

theorem removeOldestActive_spec (hm : Slots cfg m) (hlast : done <:+ m.active.order)
    (hlen : done.length < m.active.order.length) :
    ∃ b, b ∉ done ∧ m.active.contains b = true
      ∧ LRUCacheLoRAModelManager.removeOldestActive m = (m.slotless b, .ok ()) := by
  obtain ⟨b, hb, hcontains, hremove⟩ := removeOldest_other hm.active hlast hlen
  refine ⟨b, hb, hcontains, ?_⟩
  unfold LRUCacheLoRAModelManager.removeOldestActive
  rw [hremove]
  dsimp only
  rw [hm.popActive]

/-- The manager with one more adapter in a slot. -/
def LoRAModelManager.withActive (m : LoRAModelManager W) (a : Nat) (loraModel : W) : LoRAModelManager W :=
  { m with
    active := m.active.assign countOne a ()
    registered := m.registered.touch a
    loraIndexToId := m.loraIndexToId.set (m.loraIndexToId.idxOf none) (some a)
    slotWeights := m.slotWeights.set (m.loraIndexToId.idxOf none) (some loraModel) }

theorem Slots.free (h : Slots cfg m) (hroom : m.active.order.length < cfg.maxLoras) :
    none ∈ m.loraIndexToId :=
  exists_free h.distinct (fun b hb => (h.active.keys b).mpr ((h.slotted b).mp hb)) (by rw [h.table]; exact hroom)

theorem activateAdapter_new (h : Slots cfg m) {loraModel : W} (hnew : m.active.contains a = false)
    (hregistered : m.registered.data.get? a = some loraModel)
    (hroom : m.active.order.length < cfg.maxLoras) :
    m.activateAdapter a = (m.withActive a loraModel, .ok true) := by
  unfold LoRAModelManager.activateAdapter LoRAModelManager.setActive
  rw [if_neg (by rw [hnew]; exact Bool.false_ne_true), if_neg (not_not.mpr (h.free hroom)),
    h.active.setItem hnew (by rw [h.maxLoras]; exact hroom)]
  unfold LruCache.get
  dsimp only [Outcome.andThen, List.foldl_nil]
  rw [hregistered]
  rfl

theorem Slots.withActive (h : Slots cfg m) {loraModel : W} (hnew : m.active.contains a = false)
    (hregistered : m.registered.data.get? a = some loraModel)
    (hroom : m.active.order.length < cfg.maxLoras) : Slots cfg (m.withActive a loraModel) := by
  have hassign := h.active.assign () hnew (by rw [h.maxLoras]; exact hroom)
  have hcontains : m.registered.contains a = true := by
    unfold LruCache.contains Dict.contains
    rw [hregistered]
    rfl
  have hlt := List.idxOf_lt_length_of_mem (h.free hroom)
  have hfree : m.loraIndexToId[m.loraIndexToId.idxOf none]? = some none := by
    rw [List.getElem?_eq_getElem hlt, List.getElem_idxOf hlt]
  have hnot : some a ∉ m.loraIndexToId := by
    rw [h.slotted, hnew]
    exact Bool.false_ne_true
  -- What the slots hold now: the new adapter in the free one, the others where they were.
  have hget : ∀ i b, (m.withActive a loraModel).loraIndexToId[i]? = some (some b) ↔
      (i = m.loraIndexToId.idxOf none ∧ b = a) ∨ m.loraIndexToId[i]? = some (some b) := by
    intro i b
    show (m.loraIndexToId.set _ _)[i]? = _ ↔ _
    rw [List.getElem?_set]
    by_cases hi : m.loraIndexToId.idxOf none = i
    · rw [if_pos hi, if_pos hlt, ← hi, hfree]
      simp [eq_comm]
    · rw [if_neg hi]
      simp [Ne.symm hi]
  constructor
  case registered => exact h.registered.touch hcontains
  case active => exact hassign.1
  case maxCpuLoras => exact h.maxCpuLoras
  case maxLoras => exact h.maxLoras
  case table => exact List.length_set.trans h.table
  case weights => exact List.length_set.trans h.weights
  case distinct =>
    intro i j b hi hj
    obtain ⟨hi, hb⟩ | hi := (hget i b).mp hi
    · obtain ⟨hj, -⟩ | hj := (hget j b).mp hj
      · rw [hi, hj]
      · exact absurd (hb ▸ List.mem_of_getElem? hj) hnot
    · obtain ⟨-, hb⟩ | hj := (hget j b).mp hj
      · exact absurd (hb ▸ List.mem_of_getElem? hi) hnot
      · exact h.distinct i j b hi hj
  case slotted =>
    intro b
    have hactive : (m.withActive a loraModel).active.contains b = true ↔ m.active.contains b = true ∨ b = a := by
      show (m.active.assign countOne a ()).contains b = true ↔ _
      rw [← hassign.1.keys, hassign.2, List.mem_append, List.mem_singleton, h.active.keys]
    rw [hactive, List.mem_iff_getElem?]
    constructor
    · intro hmem
      obtain ⟨i, hi⟩ := hmem
      obtain ⟨-, hb⟩ | hi := (hget i b).mp hi
      · exact Or.inr hb
      · exact Or.inl ((h.slotted b).mp (List.mem_of_getElem? hi))
    · intro hb
      obtain hb | hb := hb
      · obtain ⟨i, hi⟩ := List.mem_iff_getElem?.mp ((h.slotted b).mpr hb)
        exact ⟨i, (hget i b).mpr (Or.inr hi)⟩
      · exact ⟨_, (hget _ b).mpr (Or.inl ⟨rfl, hb⟩)⟩
  case activeRegistered =>
    intro b hb
    have hb' : b ∈ (m.active.assign countOne a ()).order := (hassign.1.keys b).mpr hb
    rw [hassign.2, List.mem_append, List.mem_singleton] at hb'
    obtain hb' | hb' := hb'
    · exact h.activeRegistered b ((h.active.keys b).mp hb')
    · rw [hb']
      exact hcontains
  case written =>
    intro i b hi
    show (m.slotWeights.set _ _)[i]? = some (m.registered.data.get? b)
    rw [List.getElem?_set]
    obtain ⟨hi, hb⟩ | hi := (hget i b).mp hi
    · rw [if_pos hi.symm, if_pos (by rw [h.weights, ← h.table]; exact hlt), hb, hregistered]
    · have hne : m.loraIndexToId.idxOf none ≠ i := by
        intro heq
        rw [← heq, hfree] at hi
        cases hi
      rw [if_neg hne]
      exact h.written i b hi

theorem Slots.touchActive (h : Slots cfg m) (ha : m.active.contains a = true) :
    Slots cfg { m with active := m.active.touch a } :=
  { h with active := h.active.touch ha }

theorem Slots.touchRegistered (h : Slots cfg m) (ha : m.registered.contains a = true) :
    Slots cfg { m with registered := m.registered.touch a } :=
  { h with registered := h.registered.touch ha }

/-- A registered adapter that was used last is activated, and none of those before it is evicted. -/
theorem activateAdapter_spec (h : Slots cfg m) (hregistered : m.registered.contains a = true)
    (hfirst : done ++ [a] <:+ m.registered.order) (hactive : done <:+ m.active.order) (ha : a ∉ done)
    (hlen : done.length < cfg.maxLoras) :
    ∃ m' result, LRUCacheLoRAModelManager.activateAdapter cfg m a = (m', .ok result)
      ∧ Slots cfg m' ∧ Last (done ++ [a]) m' ∧ SameMapping m m' ∧ m'.loads = m.loads
      ∧ m'.registered.data = m.registered.data
      ∧ (m.active.contains a = true → m'.loraIndexToId = m.loraIndexToId)
      ∧ (m.active.contains a = false → m.active.order.length < cfg.maxLoras →
          m'.loraIndexToId = m.loraIndexToId.set (m.loraIndexToId.idxOf none) (some a)) := by
  obtain ⟨loraModel, hget⟩ := Option.isSome_iff_exists.mp hregistered
  unfold LRUCacheLoRAModelManager.activateAdapter
  by_cases hcontains : m.active.contains a = true
  · -- Active already.
    refine ⟨{ m with active := m.active.touch a }, false, ?_, h.touchActive hcontains,
      ⟨hfirst, suffix_moveToEnd hactive ha⟩, ⟨rfl, rfl⟩, rfl, rfl, fun _ => rfl,
      fun hnew => absurd hcontains (Bool.eq_false_iff.mp hnew)⟩
    rw [if_neg (by rw [hcontains]; exact fun hc => absurd hc.1.symm Bool.false_ne_true)]
    unfold LoRAModelManager.activateAdapter
    rw [Outcome.andThen_ok, if_pos hcontains]
    rfl
  · -- The oldest active adapter makes room, when there is none.
    have hnew : m.active.contains a = false := Bool.eq_false_iff.mpr hcontains
    have hmade : ∃ m₁, (if m.active.contains a = false ∧ cfg.maxLoras ≤ m.active.length
          then LRUCacheLoRAModelManager.removeOldestActive m else (m, .ok ())) = (m₁, .ok ())
        ∧ Slots cfg m₁ ∧ done <:+ m₁.active.order ∧ m₁.active.contains a = false
        ∧ m₁.active.order.length < cfg.maxLoras ∧ SameMapping m m₁ ∧ m₁.loads = m.loads
        ∧ m₁.registered = m.registered ∧ (m.active.order.length < cfg.maxLoras → m₁ = m) := by
      by_cases hfull : cfg.maxLoras ≤ m.active.length
      · have hfull' := hfull
        rw [h.active.length] at hfull'
        obtain ⟨b, hb, hcontainsb, hremove⟩ := removeOldestActive_spec h hactive
          (Nat.lt_of_lt_of_le hlen hfull')
        have horder : (m.slotless b).active.order = m.active.order.erase b := order_pop h.active b
        refine ⟨m.slotless b, ?_, h.slotless b, ?_, ?_, ?_, ⟨rfl, rfl⟩, rfl, rfl,
          fun hroom => absurd hroom (Nat.not_lt.mpr hfull')⟩
        · rw [if_pos ⟨hnew, hfull⟩, hremove]
        · rw [horder]
          exact suffix_erase hactive hb
        · exact Bool.eq_false_iff.mpr fun hc => hcontains ((contains_pop _ _ _).mp hc).1
        · rw [horder, List.length_erase_of_mem ((h.active.keys b).mpr hcontainsb)]
          have hwithin := h.active.within
          rw [h.maxLoras] at hwithin
          have hpos := cfg.maxLoras_pos
          omega
      · refine ⟨m, ?_, h, hactive, hnew, ?_, ⟨rfl, rfl⟩, rfl, rfl, fun _ => rfl⟩
        · rw [if_neg fun hc => hfull hc.2]
        · rw [← h.active.length]
          exact Nat.not_le.mp hfull
    obtain ⟨m₁, hmade, h₁, hactive₁, hnew₁, hroom₁, hsame₁, hloads₁, hregistered₁, hkept⟩ := hmade
    have hget₁ : m₁.registered.data.get? a = some loraModel := by
      rw [hregistered₁]
      exact hget
    have hassign := h₁.active.assign () hnew₁ (by rw [h₁.maxLoras]; exact hroom₁)
    have hnow : (m₁.withActive a loraModel).active.contains a = true := by
      refine (hassign.1.keys a).mp ?_
      rw [hassign.2]
      exact List.mem_append_right _ (List.mem_singleton_self a)
    refine ⟨_, true, ?_, (h₁.withActive hnew₁ hget₁ hroom₁).touchActive hnow, ⟨?_, ?_⟩,
      hsame₁.trans ⟨rfl, rfl⟩, hloads₁, ?_, fun hc => absurd hc hcontains, fun _ hroom => ?_⟩
    · rw [hmade, Outcome.andThen_ok, activateAdapter_new h₁ hnew₁ hget₁ hroom₁, Outcome.andThen_ok]
    · show done ++ [a] <:+ moveToEnd m₁.registered.order a
      rw [hregistered₁]
      exact suffix_moveToEnd_last h.registered.nodup hfirst
    · show done ++ [a] <:+ moveToEnd (m₁.active.assign countOne a ()).order a
      refine suffix_moveToEnd_last hassign.1.nodup ?_
      rw [hassign.2]
      exact List.suffix_append_self_iff.mpr hactive₁
    · show m₁.registered.data = m.registered.data
      rw [hregistered₁]
    · rw [← hkept hroom]
      rfl

end VllmEngine.Lora
