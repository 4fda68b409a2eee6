import Mathlib.Data.List.Sort
import VllmEngine.Cache.LruOrder
import VllmEngine.Lib.Run

/-!
# Multimodal caches on both sides

The front-end (P0) and the engine core (P1) keep the processed items of requests in an LRU cache
each: P1 the data, P0 its size only (`MultiModalProcessorSenderCache`,
`MultiModalReceiverCache`). P0 leaves out of a request what it takes P1 to have.

Both touch all hashes of a request first and then look up or insert its items: P0 modality by
modality (`_merge_mm_kwargs`), P1 in the order of the prompt.

Mirroring notes:
- What the processor makes of an item is part of the item, `size` is `get_item_size`; prompt
  updates are left out.
- `argsort_mm_positions` sorts the items of all modalities by offset. The dictionaries of hashes
  and of positions have their modalities in one order.
-/

namespace VllmEngine.Cache

variable {Hash Item : Type} [DecidableEq Hash]

/-- An item of a request: its hash, where it stands in the prompt, and what the processor makes of
it. -/
structure MMItem (Hash Item : Type) where
  mmHash : Hash
  offset : Nat
  item : Item
deriving DecidableEq, Repr

/-- The items by modality. -/
structure MMRequest (Hash Item : Type) where
  modalities : List (List (MMItem Hash Item))

/-- The items as P0 goes through them. -/
def MMRequest.items (r : MMRequest Hash Item) : List (MMItem Hash Item) := r.modalities.flatten

/-- `MultiModalFeatureSpec`: no data where P1 is taken to have it. -/
structure MMFeature (Hash Item : Type) where
  mmHash : Hash
  offset : Nat
  data : Option Item
deriving DecidableEq, Repr

inductive MMError (Hash : Type)
  | lru (e : LruError)
  | expectedCachedItem (mmHash : Hash)
deriving DecidableEq, Repr

/-- What both `get_and_update_item` do: the cached value, or none when the given one is inserted. -/
def getAndUpdate {V : Type} (getsizeof : V → Nat) (c : LruCache Hash V) (mmHash : Hash) (value : Option V) :
    Except (MMError Hash) (Option V × LruCache Hash V) :=
  match c.get mmHash with
  | (some cached, c) => .ok (some cached, c)
  | (none, c) =>
    match value with
    | none => .error (.expectedCachedItem mmHash)
    | some value =>
      match c.setItem getsizeof mmHash value with
      | .error e => .error (.lru e)
      | .ok (_, c) => .ok (none, c)

/-! ## P0 -/

/-- `MultiModalProcessorSenderCache.get_and_update_item`: a cached item is not sent. -/
def senderGetAndUpdateItem (size : Item → Nat) (c : LruCache Hash Nat) (mmItem : Option Item)
    (mmHash : Hash) : Except (MMError Hash) (Option Item × LruCache Hash Nat) :=
  (getAndUpdate id c mmHash (mmItem.map size)).map fun r =>
    (if r.1.isSome then none else mmItem, r.2)

/-- The loop of `_merge_mm_kwargs` over the items, each with its `mm_is_cached`. -/
def mergeItems (size : Item → Nat) : LruCache Hash Nat → List (MMItem Hash Item × Bool) →
    Except (MMError Hash) (List (MMFeature Hash Item) × LruCache Hash Nat)
  | c, [] => .ok ([], c)
  | c, (it, isCached) :: rest =>
    match senderGetAndUpdateItem size c (if isCached then none else some it.item) it.mmHash with
    | .error e => .error e
    | .ok (kwargs, c) =>
      match mergeItems size c rest with
      | .error e => .error e
      | .ok (features, c) =>
        .ok ({ mmHash := it.mmHash, offset := it.offset, data := kwargs } :: features, c)

/-- `_merge_mm_kwargs`, with `is_cached` before it. -/
def mergeMmKwargs (size : Item → Nat) (c : LruCache Hash Nat) (r : MMRequest Hash Item) :
    Except (MMError Hash) (List (MMFeature Hash Item) × LruCache Hash Nat) :=
  mergeItems size ((r.items.map (·.mmHash)).foldl LruCache.touch c)
    (r.items.map fun it => (it, c.contains it.mmHash))

/-- `argsort_mm_positions`. -/
def argsortMmPositions (features : List (MMFeature Hash Item)) : List (MMFeature Hash Item) :=
  features.insertionSort fun a b => a.offset ≤ b.offset

/-! ## P1 -/

/-- `MultiModalReceiverCache.get_and_update_item`. -/
def receiverGetAndUpdateItem (size : Item → Nat) (c : LruCache Hash Item) (mmItem : Option Item)
    (mmHash : Hash) : Except (MMError Hash) (Option Item × LruCache Hash Item) :=
  (getAndUpdate size c mmHash mmItem).map fun r => (r.1.or mmItem, r.2)

/-- The second loop of `get_and_update_features`. -/
def updateFeatures (size : Item → Nat) : LruCache Hash Item → List (MMFeature Hash Item) →
    Except (MMError Hash) (List (MMFeature Hash Item) × LruCache Hash Item)
  | c, [] => .ok ([], c)
  | c, f :: rest =>
    match receiverGetAndUpdateItem size c f.data f.mmHash with
    | .error e => .error e
    | .ok (data, c) =>
      match updateFeatures size c rest with
      | .error e => .error e
      | .ok (features, c) => .ok ({ f with data } :: features, c)

def getAndUpdateFeatures (size : Item → Nat) (c : LruCache Hash Item)
    (mmFeatures : List (MMFeature Hash Item)) :
    Except (MMError Hash) (List (MMFeature Hash Item) × LruCache Hash Item) :=
  updateFeatures size ((mmFeatures.map (·.mmHash)).foldl LruCache.touch c) mmFeatures

/-! ## Both -/

structure MMCaches (Hash Item : Type) where
  sender : LruCache Hash Nat
  receiver : LruCache Hash Item

def MMCaches.init (capacity : Nat) : MMCaches Hash Item :=
  { sender := LruCache.empty capacity, receiver := LruCache.empty capacity }

/-- A request on P0, then on P1. -/
def MMCaches.step (size : Item → Nat) (s : MMCaches Hash Item) (r : MMRequest Hash Item) :
    Except (MMError Hash) (MMCaches Hash Item) :=
  match mergeMmKwargs size s.sender r with
  | .error e => .error e
  | .ok (features, sender) =>
    match getAndUpdateFeatures size s.receiver (argsortMmPositions features) with
    | .error e => .error e
    | .ok (_, receiver) => .ok { sender, receiver }

end VllmEngine.Cache

/-!
## The multimodal caches stay mirrored

Both sides serve the same keys with the same sizes. When a request fits into the cache, only keys of
earlier requests are dropped on either side, equally many (`Minimal.unique`), and the keys of the
request end up in the order of their last occurrence. So the caches agree after a request when
these orders do, and P1 has or gets every item when the first one of each new hash in the prompt is
the one that carries the data.

> `caches_mirrored`: in a run whose requests all meet `RequestOk`, every call returns and the
> caches agree after each request.
-/

namespace VllmEngine.Cache

/-! ## One key -/

section Key

variable {K V : Type} [DecidableEq K] {getsizeof : V → Nat} {sz : K → Nat} {c : LruCache K V}
  {old own : List K}

/-- A key of the group is looked up, or inserted when its value is given. -/
theorem Serving.getAndUpdate (h : Serving getsizeof sz c old own) {key : K} (value : Option V)
    (hkey : key ∈ own)
    (hvalue : c.data.get? key = none → ∃ v, value = some v ∧ getsizeof v = sz key)
    (hroom : c.data.get? key = none → sizeSum sz own ≤ c.maxsize) :
    ∃ d c', Cache.getAndUpdate getsizeof c key value = .ok (c.data.get? key, c')
      ∧ Serving getsizeof sz c' (old.drop d) (moveToEnd own key) ∧ c'.maxsize = c.maxsize
      ∧ (∀ k ∈ own, c'.contains k = (c.contains k || decide (k = key)))
      ∧ Minimal sz c.maxsize old (sizeSum sz own) d := by
  unfold Cache.getAndUpdate LruCache.get
  cases hget : c.data.get? key with
  | some cached =>
    refine ⟨0, c.touch key, rfl, h.touch hkey, rfl, fun k hk => ?_,
      fun e he => absurd he (Nat.not_lt_zero e)⟩
    show c.contains k = _
    by_cases hkk : k = key
    · rw [hkk]
      unfold LruCache.contains Dict.contains
      rw [hget]
      simp
    · simp [hkk]
  | none =>
    obtain ⟨v, hv, hsize⟩ := hvalue hget
    obtain ⟨d, c', hset, hserving, hmax, hsame, hminimal⟩ := h.setItem hkey hget hsize (hroom hget)
    refine ⟨d, c', ?_, hserving, hmax, fun k hk => ?_, hminimal⟩
    · rw [hv]
      dsimp only
      rw [hset]
    · unfold LruCache.contains Dict.contains
      rw [hsame k (List.mem_append_right _ hk)]
      by_cases hkk : k = key
      · simp [hkk]
      · simp [hkk]

/-- Keys with other sizes on paper, but the same where they have values. -/
theorem Serving.congr_size {sz' : K → Nat} (h : Serving getsizeof sz c old own)
    (hsize : ∀ k v, c.data.get? k = some v → getsizeof v = sz' k) : Serving getsizeof sz' c old own := by
  have hsame : ∀ k, c.contains k = true → sz k = sz' k := by
    intro k hk
    obtain ⟨v, hv⟩ := Option.isSome_iff_exists.mp hk
    rw [← h.size k v hv, hsize k v hv]
  refine { h with size := hsize, currsize := ?_ }
  rw [h.currsize]
  unfold sizeSum
  rw [List.map_congr_left fun k hk => hsame k (h.cached k hk),
    List.map_congr_left fun k hk => hsame k (List.mem_filter.mp hk).2]

/-- The group is touched before it is served. -/
theorem Serving.touchAll (h : Serving getsizeof sz c c.order []) (keys : List K) :
    Serving getsizeof sz (keys.foldl LruCache.touch c) (c.order.filter (· ∉ keys)) keys.dedup := by
  have hnodup : c.order.Nodup := by
    have hn := h.nodup
    rwa [List.append_nil] at hn
  rw [foldl_touch]
  constructor
  case order => exact foldl_moveToEnd keys c.order hnodup
  case nodup =>
    refine List.nodup_append.mpr ⟨hnodup.filter _, List.nodup_dedup keys, fun a ha b hb hab => ?_⟩
    have hnot : a ∉ keys := by simpa using (List.mem_filter.mp ha).2
    rw [hab] at hnot
    exact hnot (List.mem_dedup.mp hb)
  case cached => exact fun k hk => h.cached k (List.mem_filter.mp hk).1
  case keys =>
    intro k hk
    have hmem : k ∈ c.order := by
      have hk' := h.keys k hk
      rwa [List.append_nil] at hk'
    by_cases hkeys : k ∈ keys
    · exact List.mem_append_right _ (List.mem_dedup.mpr hkeys)
    · exact List.mem_append_left _ (List.mem_filter.mpr ⟨hmem, by simpa using hkeys⟩)
  case size => exact h.size
  case currsize =>
    have hcurr := h.currsize
    rw [List.filter_nil] at hcurr
    -- The keys of the order that are in the group are those of the group that have values.
    have hperm : (keys.dedup.filter c.contains).Perm (c.order.filter (· ∈ keys)) := by
      refine (List.perm_ext_iff_of_nodup ((List.nodup_dedup keys).filter _) (hnodup.filter _)).mpr
        fun k => ?_
      rw [List.mem_filter, List.mem_filter, List.mem_dedup, decide_eq_true_eq]
      constructor
      · intro hk
        have hk' := h.keys k hk.2
        rw [List.append_nil] at hk'
        exact ⟨hk', hk.1⟩
      · intro hk
        exact ⟨hk.2, h.cached k hk.1⟩
    show c.currsize = sizeSum sz (c.order.filter (· ∉ keys)) + sizeSum sz (keys.dedup.filter c.contains)
    rw [sizeSum_perm sz hperm, hcurr]
    have hsplit := sizeSum_perm sz (List.filter_append_perm (fun k => decide (k ∉ keys)) c.order)
    rw [sizeSum_append] at hsplit
    have hin : c.order.filter (fun k => !decide (k ∉ keys)) = c.order.filter (· ∈ keys) :=
      List.filter_congr fun k _ => by simp
    rw [hin] at hsplit
    rw [hsplit]
    rfl
  case within => exact h.within

/-- Once the whole group has its values, it is part of the order like the others. -/
theorem Serving.done (h : Serving getsizeof sz c old own) (hall : ∀ k ∈ own, c.contains k = true) :
    Serving getsizeof sz c c.order [] := by
  have hfilter : own.filter c.contains = own := List.filter_eq_self.mpr hall
  constructor
  case order => rw [List.append_nil]
  case nodup =>
    rw [List.append_nil, h.order]
    exact h.nodup
  case cached =>
    intro k hk
    rw [h.order] at hk
    obtain hk | hk := List.mem_append.mp hk
    · exact h.cached k hk
    · exact hall k hk
  case keys =>
    intro k hk
    rw [List.append_nil, h.order]
    exact h.keys k hk
  case size => exact h.size
  case currsize =>
    rw [h.currsize, hfilter, h.order, sizeSum_append]
    rfl
  case within => exact h.within

end Key

variable {Hash Item : Type} [DecidableEq Hash]

/-! ## What P0 sends -/

/-- The features of a request: each hash that is not cached has its data with its first item. -/
def carried (cached : Hash → Bool) : List (MMItem Hash Item) → List (MMFeature Hash Item)
  | [] => []
  | it :: rest =>
    { mmHash := it.mmHash, offset := it.offset, data := if cached it.mmHash then none else some it.item }
      :: carried (fun h => cached h || decide (h = it.mmHash)) rest

theorem carried_congr {cached cached' : Hash → Bool} : ∀ {items : List (MMItem Hash Item)},
    (∀ it ∈ items, cached it.mmHash = cached' it.mmHash) → carried cached items = carried cached' items := by
  intro items
  induction items generalizing cached cached' with
  | nil => intro _; rfl
  | cons it rest ih =>
    intro h
    rw [carried, carried, h it List.mem_cons_self]
    refine congrArg _ (ih fun it' hit' => ?_)
    rw [h it' (List.mem_cons_of_mem it hit')]

theorem carried_hashes (cached : Hash → Bool) (items : List (MMItem Hash Item)) :
    (carried cached items).map (·.mmHash) = items.map (·.mmHash) := by
  induction items generalizing cached with
  | nil => rfl
  | cons it rest ih => rw [carried, List.map_cons, List.map_cons, ih]

/-- Data that is sent is that of the first item with its hash, and the hash is not cached. -/
theorem carried_data {cached : Hash → Bool} {x : Item} : ∀ {items : List (MMItem Hash Item)}
    {f : MMFeature Hash Item}, f ∈ carried cached items → f.data = some x →
      cached f.mmHash = false
        ∧ ∃ it, items.find? (fun it => decide (it.mmHash = f.mmHash)) = some it ∧ it.item = x := by
  intro items
  induction items generalizing cached with
  | nil => intro f hf; cases hf
  | cons it rest ih =>
    intro f hf hdata
    obtain hf | hf := List.mem_cons.mp hf
    · rw [hf] at hdata ⊢
      cases hc : cached it.mmHash with
      | true =>
        rw [hc] at hdata
        cases hdata
      | false =>
        rw [hc] at hdata
        cases hdata
        exact ⟨rfl, it, by simp, rfl⟩
    · obtain ⟨hcached, it', hfind, hitem⟩ := ih hf hdata
      rw [Bool.or_eq_false_iff, decide_eq_false_iff_not] at hcached
      refine ⟨hcached.1, it', ?_, hitem⟩
      rw [List.find?_cons_of_neg (by simpa using Ne.symm hcached.2)]
      exact hfind

/-! ## The condition on a request -/

/-- The size that a hash of the request has in the caches: as it is cached, or as the first item
with this hash will be. -/
def hashSize (size : Item → Nat) (c : LruCache Hash Nat) (r : MMRequest Hash Item) (h : Hash) : Nat :=
  (c.data.get? h).getD ((r.items.find? fun it => decide (it.mmHash = h)).elim 0 (size ·.item))

/-- The features as P1 goes through them. -/
def MMRequest.features (c : LruCache Hash Nat) (r : MMRequest Hash Item) : List (MMFeature Hash Item) :=
  argsortMmPositions (carried c.contains r.items)

/-- When a request keeps the caches mirrored. Either all its hashes are cached or all of them fit into
the cache together; of each hash that is not cached, the first item in the prompt is also the
first one in the order of the modalities; and both orders have the same last occurrences. -/
structure RequestOk (size : Item → Nat) (c : LruCache Hash Nat) (r : MMRequest Hash Item) : Prop where
  room : (∃ it ∈ r.items, c.contains it.mmHash = false) →
    sizeSum (hashSize size c r) (r.items.map (·.mmHash)).dedup ≤ c.maxsize
  carries : ∀ h, c.contains h = false → ∀ f,
    (r.features c).find? (fun f => decide (f.mmHash = h)) = some f → f.data.isSome = true
  sameOrder : (r.items.map (·.mmHash)).dedup = ((r.features c).map (·.mmHash)).dedup

instance (size : Item → Nat) (c : LruCache Hash Nat) (r : MMRequest Hash Item) :
    Decidable (RequestOk size c r) :=
  decidable_of_iff (((∃ it ∈ r.items, c.contains it.mmHash = false) →
      sizeSum (hashSize size c r) (r.items.map (·.mmHash)).dedup ≤ c.maxsize) ∧
    (∀ g ∈ r.features c, c.contains g.mmHash = false →
      ((r.features c).find? fun f => decide (f.mmHash = g.mmHash)).all (·.data.isSome) = true) ∧
    (r.items.map (·.mmHash)).dedup = ((r.features c).map (·.mmHash)).dedup)
    ⟨fun h => ⟨h.1, fun k hk f hf => by
      have hkey : f.mmHash = k := by simpa using List.find?_some hf
      have hdata := h.2.1 f (List.mem_of_find?_eq_some hf) (hkey ▸ hk)
      rw [hkey, hf] at hdata
      exact hdata, h.2.2⟩,
    fun h => ⟨h.room, fun g _ hg => by
      cases hf : (r.features c).find? fun f => decide (f.mmHash = g.mmHash) with
      | none => rfl
      | some f => exact h.carries _ hg f hf, h.sameOrder⟩⟩

/-! ## The loops -/

variable {size : Item → Nat} {sz : Hash → Nat}

/-- What a loop over `keys` leaves of a cache: the values of the keys, in their order, and all but the
first `d` of the old keys. -/
structure Looped {V : Type} (getsizeof : V → Nat) (sz : Hash → Nat) (c : LruCache Hash V)
    (old own keys : List Hash) (d : Nat) (c' : LruCache Hash V) : Prop where
  serving : Serving getsizeof sz c' (old.drop d) (keys.foldl moveToEnd own)
  maxsize : c'.maxsize = c.maxsize
  contains : ∀ k ∈ own, c'.contains k = (c.contains k || decide (k ∈ keys))
  minimal : Minimal sz c.maxsize old (sizeSum sz own) d

/-- The first entry of each key that is not cached brings a value, for which there is room. -/
def Brings {α V : Type} (getsizeof : V → Nat) (sz : Hash → Nat) (c : LruCache Hash V) (own : List Hash)
    (key : α → Hash) (value : α → Option V) (entries : List α) : Prop :=
  ∀ k, c.contains k = false → ∀ a, entries.find? (fun a => decide (key a = k)) = some a →
    (∃ v, value a = some v ∧ getsizeof v = sz k) ∧ sizeSum sz own ≤ c.maxsize

theorem Looped.nil {V : Type} {getsizeof : V → Nat} {c : LruCache Hash V} {old own : List Hash}
    (h : Serving getsizeof sz c old own) : Looped getsizeof sz c old own [] 0 c where
  serving := h
  maxsize := rfl
  contains := fun k _ => by simp
  minimal := fun e he => absurd he (Nat.not_lt_zero e)

/-- One round of a loop, and what it adds to the rounds behind it. -/
theorem Brings.step {α V : Type} {getsizeof : V → Nat} {c : LruCache Hash V} {old own : List Hash}
    {key : α → Hash} {value : α → Option V} {x : α} {rest : List α}
    (hnew : Brings getsizeof sz c own key value (x :: rest)) (h : Serving getsizeof sz c old own)
    (hown : ∀ a ∈ x :: rest, key a ∈ own) :
    ∃ d c₁, getAndUpdate getsizeof c (key x) (value x) = .ok (c.data.get? (key x), c₁)
      ∧ (c.data.get? (key x) = none → ∃ v, value x = some v)
      ∧ Serving getsizeof sz c₁ (old.drop d) (moveToEnd own (key x))
      ∧ (∀ a ∈ rest, key a ∈ moveToEnd own (key x))
      ∧ Brings getsizeof sz c₁ (moveToEnd own (key x)) key value rest
      ∧ (∀ k ∈ own, c₁.contains k = (c.contains k || decide (k = key x)))
      ∧ ∀ {keys : List Hash} {d' : Nat} {c' : LruCache Hash V},
        Looped getsizeof sz c₁ (old.drop d) (moveToEnd own (key x)) keys d' c' →
          Looped getsizeof sz c old own (key x :: keys) (d + d') c' := by
  have hkey : key x ∈ own := hown x List.mem_cons_self
  have hperm : (moveToEnd own (key x)).Perm own := moveToEnd_perm hkey
  have hfirst : c.data.get? (key x) = none →
      (∃ v, value x = some v ∧ getsizeof v = sz (key x)) ∧ sizeSum sz own ≤ c.maxsize := by
    intro hget
    refine hnew (key x) ?_ x (by simp)
    unfold LruCache.contains Dict.contains
    rw [hget]
    rfl
  obtain ⟨d, c₁, hget, hserving, hmax, hcontains, hminimal⟩ :=
    h.getAndUpdate (value x) hkey (fun hg => (hfirst hg).1) (fun hg => (hfirst hg).2)
  refine ⟨d, c₁, hget, fun hg => (hfirst hg).1.imp fun v hv => hv.1, hserving,
    fun a ha => hperm.mem_iff.mpr (hown a (List.mem_cons_of_mem _ ha)), ?_, hcontains, fun hrest => ?_⟩
  · intro k hk a ha
    have hak : key a = k := by simpa using List.find?_some ha
    have hmem := hown a (List.mem_cons_of_mem _ (List.mem_of_find?_eq_some ha))
    rw [hak] at hmem
    rw [hcontains k hmem, Bool.or_eq_false_iff, decide_eq_false_iff_not] at hk
    rw [sizeSum_perm sz hperm, hmax]
    refine hnew k hk.1 a ?_
    rw [List.find?_cons_of_neg (by simpa using Ne.symm hk.2)]
    exact ha
  · constructor
    case serving =>
      rw [← List.drop_drop]
      exact hrest.serving
    case maxsize => exact hrest.maxsize.trans hmax
    case contains =>
      intro k hk
      rw [hrest.contains k (hperm.mem_iff.mpr hk), hcontains k hk, Bool.or_assoc]
      congr 1
      rw [Bool.eq_iff_iff]
      simp
    case minimal =>
      have hminimal' := hrest.minimal
      rw [hmax, sizeSum_perm sz hperm] at hminimal'
      exact hminimal.add hminimal'

/-- The size that P0 has for an entry. -/
def sentSize (size : Item → Nat) (e : MMItem Hash Item × Bool) : Option Nat :=
  (if e.2 then none else some e.1.item).map size

/-- The loop of P0. -/
theorem mergeItems_spec (size : Item → Nat) : ∀ (entries : List (MMItem Hash Item × Bool)) {c : LruCache Hash Nat}
    {old own : List Hash}, Serving id sz c old own → (∀ e ∈ entries, e.1.mmHash ∈ own) →
    Brings id sz c own (fun e => e.1.mmHash) (sentSize size) entries →
    ∃ d c', mergeItems size c entries = .ok (carried c.contains (entries.map (·.1)), c')
      ∧ Looped id sz c old own (entries.map (·.1.mmHash)) d c' := by
  intro entries
  induction entries with
  | nil => exact fun h _ _ => ⟨0, _, rfl, .nil h⟩
  | cons e rest ih =>
    obtain ⟨it, isCached⟩ := e
    intro c old own h hown hnew
    obtain ⟨d, c₁, hget, hvalue, hserving, hown', hnew', hcontains, hlooped⟩ := hnew.step h hown
    obtain ⟨d', c', hrest, hrounds⟩ := ih hserving hown' hnew'
    have hsent : (if (c.data.get? it.mmHash).isSome then none else if isCached then none else some it.item)
        = if c.contains it.mmHash then none else some it.item := by
      unfold LruCache.contains Dict.contains
      cases hg : c.data.get? it.mmHash with
      | some _ => rfl
      | none =>
        obtain ⟨v, hv⟩ := hvalue hg
        cases isCached with
        | true => cases hv
        | false => rfl
    have hcarried : carried c₁.contains (rest.map (·.1))
        = carried (fun h => c.contains h || decide (h = it.mmHash)) (rest.map (·.1)) := by
      refine carried_congr fun it' hit' => ?_
      obtain ⟨e, he, hee⟩ := List.mem_map.mp hit'
      rw [← hee]
      exact hcontains _ (hown e (List.mem_cons_of_mem _ he))
    refine ⟨d + d', c', ?_, hlooped hrounds⟩
    unfold sentSize at hget
    rw [mergeItems, senderGetAndUpdateItem, hget]
    dsimp only [Except.map]
    rw [hrest, hsent, hcarried]
    rfl

/-- The loop of P1. -/
theorem updateFeatures_spec : ∀ (features : List (MMFeature Hash Item)) {c : LruCache Hash Item}
    {old own : List Hash}, Serving size sz c old own → (∀ f ∈ features, f.mmHash ∈ own) →
    Brings size sz c own MMFeature.mmHash MMFeature.data features →
    ∃ d features' c', updateFeatures size c features = .ok (features', c')
      ∧ Looped size sz c old own (features.map (·.mmHash)) d c' := by
  intro features
  induction features with
  | nil => exact fun h _ _ => ⟨0, [], _, rfl, .nil h⟩
  | cons f rest ih =>
    intro c old own h hown hnew
    obtain ⟨d, c₁, hget, -, hserving, hown', hnew', -, hlooped⟩ := hnew.step h hown
    obtain ⟨d', features', c', hrest, hrounds⟩ := ih hserving hown' hnew'
    refine ⟨d + d', { f with data := (c.data.get? f.mmHash).or f.data } :: features', c', ?_,
      hlooped hrounds⟩
    rw [updateFeatures, receiverGetAndUpdateItem, hget]
    dsimp only [Except.map]
    rw [hrest]

/-! ## One request -/

/-- The caches agree: on the order of the keys, all of which have values, and on the sizes. -/
structure MMCaches.Mirrored (size : Item → Nat) (s : MMCaches Hash Item) : Prop where
  maxsize : s.receiver.maxsize = s.sender.maxsize
  order : s.receiver.order = s.sender.order
  served : ∃ sz : Hash → Nat, Serving id sz s.sender s.sender.order []
    ∧ Serving size sz s.receiver s.receiver.order []

theorem MMCaches.Mirrored.contains {s : MMCaches Hash Item} (h : s.Mirrored size) (k : Hash) :
    s.receiver.contains k = s.sender.contains k := by
  obtain ⟨sz, hsender, hreceiver⟩ := h.served
  have hin : ∀ {V : Type} {getsizeof : V → Nat} {c : LruCache Hash V},
      Serving getsizeof sz c c.order [] → (c.contains k = true ↔ k ∈ c.order) := by
    intro V getsizeof c hc
    constructor
    · intro hk
      have hmem := hc.keys k hk
      rwa [List.append_nil] at hmem
    · exact hc.cached k
  rw [Bool.eq_iff_iff, hin hsender, hin hreceiver, h.order]

omit [DecidableEq Hash] in
theorem argsort_perm (features : List (MMFeature Hash Item)) :
    (argsortMmPositions features).Perm features :=
  List.perm_insertionSort _ features

/-- The end of a loop: all keys have their values. -/
theorem Looped.finish {V : Type} {getsizeof : V → Nat} {c c' : LruCache Hash V} {old : List Hash}
    {keys : List Hash} {d : Nat} (hloop : Looped getsizeof sz c old keys.dedup keys d c') :
    Serving getsizeof sz c' c'.order [] ∧ c'.order = old.drop d ++ keys.dedup
      ∧ sizeSum sz (old.drop d) + sizeSum sz keys.dedup ≤ c'.maxsize := by
  have h := hloop.serving
  have hown : keys.foldl moveToEnd keys.dedup = keys.dedup := by
    rw [foldl_moveToEnd keys _ (List.nodup_dedup keys)]
    have hnone : keys.dedup.filter (· ∉ keys) = [] := by
      refine List.filter_eq_nil_iff.mpr fun k hk => ?_
      simpa using List.mem_dedup.mp hk
    rw [hnone, List.nil_append]
  rw [hown] at h
  have hall : ∀ k ∈ keys.dedup, c'.contains k = true := by
    intro k hk
    rw [hloop.contains k hk]
    simp [List.mem_dedup.mp hk]
  refine ⟨h.done hall, h.order, ?_⟩
  have hcurr := h.currsize
  rw [List.filter_eq_self.mpr hall] at hcurr
  rw [← hcurr]
  exact h.within

/-- The step lemma: a request that meets the condition is served by both sides, and the caches agree
afterwards. -/
theorem MMCaches.Mirrored.step {s : MMCaches Hash Item} (hs : s.Mirrored size) (r : MMRequest Hash Item)
    (hok : RequestOk size s.sender r) : ∃ s', s.step size r = .ok s' ∧ s'.Mirrored size := by
  have hsame := hs.contains
  obtain ⟨sz₀, hsender, hreceiver⟩ := hs.served
  -- The sizes of this request: those of the cached keys, and those of the new items.
  have hsize : ∀ k v, s.sender.data.get? k = some v → v = hashSize size s.sender r k := by
    intro k v hv
    rw [hashSize, hv]
    rfl
  have hsize' : ∀ k v, s.receiver.data.get? k = some v → size v = hashSize size s.sender r k := by
    intro k v hv
    have hk : s.sender.contains k = true := by
      rw [← hsame]
      unfold LruCache.contains Dict.contains
      rw [hv]
      rfl
    obtain ⟨a, ha⟩ := Option.isSome_iff_exists.mp hk
    rw [← hsize k a ha, hreceiver.size k v hv, ← hsender.size k a ha]
    rfl
  have hserve := (hsender.congr_size hsize).touchAll (r.items.map (·.mmHash))
  have hserve' := (hreceiver.congr_size hsize').touchAll ((r.features s.sender).map (·.mmHash))
  have htouched : ∀ (keys : List Hash) {V : Type} (c : LruCache Hash V) (k : Hash),
      (keys.foldl LruCache.touch c).contains k = c.contains k := by
    intro keys V c k
    rw [foldl_touch]
    rfl
  have hperm : (r.features s.sender).Perm (carried s.sender.contains r.items) := argsort_perm _
  have hhashes : ((r.features s.sender).map (·.mmHash)).Perm (r.items.map (·.mmHash)) := by
    rw [← carried_hashes s.sender.contains r.items]
    exact hperm.map _
  have hmax₀ : (List.foldl LruCache.touch s.sender (r.items.map (·.mmHash))).maxsize
      = s.sender.maxsize := by rw [foldl_touch]
  have hmax₁ : (List.foldl LruCache.touch s.receiver ((r.features s.sender).map (·.mmHash))).maxsize
      = s.sender.maxsize := by rw [foldl_touch]; exact hs.maxsize
  -- P0.
  obtain ⟨d, c, hmerge, hmerged⟩ := mergeItems_spec size
    (r.items.map fun it => (it, s.sender.contains it.mmHash)) hserve
    (by
      intro e he
      obtain ⟨it, hit, hee⟩ := List.mem_map.mp he
      rw [← hee]
      exact List.mem_dedup.mpr (List.mem_map_of_mem hit))
    (by
      intro k hk e he
      rw [htouched] at hk
      rw [List.find?_map] at he
      obtain ⟨it, hit, hee⟩ := Option.map_eq_some_iff.mp he
      have hitk : it.mmHash = k := by simpa using List.find?_some hit
      have hmem := List.mem_of_find?_eq_some hit
      rw [← hee]
      refine ⟨⟨size it.item, ?_, ?_⟩, ?_⟩
      · rw [sentSize, show s.sender.contains it.mmHash = false by rw [hitk]; exact hk]
        rfl
      · have hnone : s.sender.data.get? k = none := by
          unfold LruCache.contains Dict.contains at hk
          exact Option.isNone_iff_eq_none.mp (by simpa using hk)
        have hfind : r.items.find? (fun it => decide (it.mmHash = k)) = some it := hit
        rw [hashSize, hnone, hfind]
        rfl
      · rw [hmax₀]
        exact hok.room ⟨it, hmem, by rw [hitk]; exact hk⟩)
  have hkeysM : (r.items.map fun it => (it, s.sender.contains it.mmHash)).map (·.1.mmHash)
      = r.items.map (·.mmHash) := by rw [List.map_map]; rfl
  have hitemsM : (r.items.map fun it => (it, s.sender.contains it.mmHash)).map (·.1) = r.items := by
    rw [List.map_map]
    exact List.map_id r.items
  rw [hkeysM] at hmerged
  rw [hitemsM] at hmerge
  have hfeatures : carried (List.foldl LruCache.touch s.sender (r.items.map (·.mmHash))).contains r.items
      = carried s.sender.contains r.items :=
    carried_congr fun it _ => htouched _ _ _
  rw [hfeatures] at hmerge
  -- P1.
  obtain ⟨d', features', c', hupdate, hupdated⟩ :=
    updateFeatures_spec (r.features s.sender) hserve'
    (fun f hf => List.mem_dedup.mpr (List.mem_map_of_mem hf))
    (by
      intro k hk f hf
      rw [htouched, hsame] at hk
      obtain ⟨x, hx⟩ := Option.isSome_iff_exists.mp (hok.carries k hk f hf)
      have hfk : f.mmHash = k := by simpa using List.find?_some hf
      have hmem := hperm.mem_iff.mp (List.mem_of_find?_eq_some hf)
      obtain ⟨-, it, hit, hitx⟩ := carried_data hmem hx
      have hnone : s.sender.data.get? k = none := by
        unfold LruCache.contains Dict.contains at hk
        exact Option.isNone_iff_eq_none.mp (by simpa using hk)
      rw [hfk] at hit
      refine ⟨⟨x, hx, ?_⟩, ?_⟩
      · rw [hashSize, hnone, hit, ← hitx]
        rfl
      · rw [hmax₁, ← hok.sameOrder]
        refine hok.room ⟨it, List.mem_of_find?_eq_some hit, ?_⟩
        have hitk : it.mmHash = k := by simpa using List.find?_some hit
        rw [hitk]
        exact hk)
  have hmaxM := hmerged.maxsize
  have hmaxU := hupdated.maxsize
  have hminimal := hmerged.minimal
  have hminimal' := hupdated.minimal
  obtain ⟨hdone, horder, hfits⟩ := hmerged.finish
  obtain ⟨hdone', horder', hfits'⟩ := hupdated.finish
  -- The old keys are the same on both sides, and equally many of them go.
  have hold : s.receiver.order.filter (· ∉ (r.features s.sender).map (·.mmHash))
      = s.sender.order.filter (· ∉ r.items.map (·.mmHash)) := by
    rw [hs.order]
    exact List.filter_congr fun k _ => decide_eq_decide.mpr (not_congr hhashes.mem_iff)
  rw [hold] at horder' hfits' hminimal'
  rw [← hok.sameOrder] at horder' hfits' hminimal'
  rw [hmaxM, hmax₀] at hfits
  rw [hmaxU, hmax₁] at hfits'
  rw [hmax₀] at hminimal
  rw [hmax₁] at hminimal'
  have hdd : d = d' := hminimal.unique hminimal' hfits hfits'
  refine ⟨{ sender := c, receiver := c' }, ?_, ⟨?_, ?_, hashSize size s.sender r, hdone, hdone'⟩⟩
  · unfold MMCaches.step
    rw [show mergeMmKwargs size s.sender r = .ok (carried s.sender.contains r.items, c) from hmerge]
    dsimp only
    rw [show getAndUpdateFeatures size s.receiver (argsortMmPositions (carried s.sender.contains r.items))
      = .ok (features', c') from hupdate]
  · rw [hmaxU, hmax₁, hmaxM, hmax₀]
  · rw [horder, horder', hdd]

/-! ## Runs -/

theorem MMCaches.Mirrored.init (size : Item → Nat) (capacity : Nat) :
    (MMCaches.init capacity : MMCaches Hash Item).Mirrored size := by
  have hempty : ∀ {V : Type} (getsizeof : V → Nat),
      Serving getsizeof (fun _ => 0) (LruCache.empty capacity : LruCache Hash V) [] [] := by
    intro V getsizeof
    exact {
      order := rfl
      nodup := List.nodup_nil
      cached := fun k hk => (by cases hk)
      keys := fun k hk => (by cases hk)
      size := fun k v hv => (by cases hv)
      currsize := rfl
      within := Nat.zero_le _ }
  exact ⟨rfl, rfl, fun _ => 0, hempty id, hempty size⟩

/-- In a run whose requests all meet the condition every call on either side returns, and afterwards
the caches have the same keys in the same order. -/
theorem caches_mirrored (size : Item → Nat) (capacity : Nat) (requests : List (MMRequest Hash Item))
    (hok : Run.Guarded (MMCaches.step size) (fun s r => RequestOk size s.sender r)
      (MMCaches.init capacity) requests) :
    ∃ s, Run.exec (MMCaches.step size) (MMCaches.init capacity) requests = .ok s
      ∧ s.receiver.order = s.sender.order ∧ ∀ k, s.receiver.contains k = s.sender.contains k := by
  have hstep : ∀ (s : MMCaches Hash Item) (r : MMRequest Hash Item) (s' : MMCaches Hash Item),
      s.Mirrored size → RequestOk size s.sender r → s.step size r = .ok s' → s'.Mirrored size := by
    intro s r s' hs hr h
    obtain ⟨s'', hs'', hmirrored⟩ := hs.step r hr
    rw [hs''] at h
    cases h
    exact hmirrored
  obtain ⟨s, hs⟩ := Run.exec_total hstep
    (fun s r hs hr => (hs.step r hr).imp fun s' h => h.1) requests _ (MMCaches.Mirrored.init size capacity) hok
  have hmirrored := Run.exec_inv hstep requests _ s (MMCaches.Mirrored.init size capacity) hok hs
  exact ⟨s, hs, hmirrored.order, hmirrored.contains⟩

/-- Two images, an image and a clip, and a third image, for which the second one goes. -/
def threeRequests : List (MMRequest String Nat) :=
  [{ modalities := [[⟨"a", 0, 4⟩, ⟨"b", 7, 5⟩]] }, { modalities := [[⟨"a", 0, 4⟩], [⟨"clip", 5, 1⟩]] },
    { modalities := [[⟨"c", 3, 3⟩]] }]

theorem two_images_mirrored : ∃ s, Run.exec (MMCaches.step id) (MMCaches.init 10) threeRequests = .ok s
    ∧ s.sender.order = ["a", "clip", "c"]
    ∧ s.receiver.order = s.sender.order ∧ ∀ k, s.receiver.contains k = s.sender.contains k := by
  obtain ⟨s, hs, hmirrored⟩ := caches_mirrored id 10 threeRequests (Run.Guarded.of_decide _ _ (by decide))
  have horder : (Run.exec (MMCaches.step id) (MMCaches.init 10) threeRequests).map (·.sender.order)
      = .ok ["a", "clip", "c"] := by decide
  rw [hs] at horder
  exact ⟨s, hs, Except.ok.inj horder, hmirrored⟩

/-- Two new images that do not fit into the cache together, although each does: P0 does not return.
And an image with an audio clip before it in the prompt: the sides order the two differently, drop
different ones for the next image, and P1 does not have the clip that P0 leaves out. -/
theorem caches_diverge :
    MMCaches.step id (MMCaches.init 10) ({ modalities := [[⟨"a", 0, 6⟩, ⟨"b", 7, 6⟩]] } : MMRequest String Nat)
        = .error (.lru .forever)
      ∧ Run.exec (MMCaches.step fun _ => 1) (MMCaches.init 2)
        [({ modalities := [[⟨"image", 5, ()⟩], [⟨"clip", 0, ()⟩]] } : MMRequest String Unit),
          { modalities := [[⟨"image 2", 0, ()⟩]] },
          { modalities := [[], [⟨"clip", 0, ()⟩]] }]
        = .error (.expectedCachedItem "clip") := by
  constructor
  · rfl
  · rfl

end VllmEngine.Cache
