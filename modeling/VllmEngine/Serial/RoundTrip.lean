import VllmEngine.Serial.Payload

/-!
# A payload survives the wire

Every encoding function is followed by its decoding function: `Coded` says that
the functions add the bytes of the large tensors to the buffers, refer to each of
them once and in order, and that the decoder gives the value back from the
message and any list of buffers that has the new ones in their places.

> `round_trip`: items whose nested data has no `None` inside are decoded from the
> buffers of their encoding, and the `i`-th auxiliary buffer is that of the `i`-th
> large tensor.

`None` stands for data that the receiver has cached; the encoder asks for it
before it goes into nested data, and not inside.
-/

namespace VllmEngine.Serial

variable {torch : Torch} {sizeThreshold : Int}

/-! ## The buffers that a message refers to -/

mutual

/-- The indices of buffers in nested data, in order. -/
def nestedRefs : Native → List Int
  | .array (.str _ :: vs) =>
    match vs with
    | [_, .int i] => [i]
    | _ => []
  | .array vs => nestedRefsList vs
  | _ => []

def nestedRefsList : List Native → List Int
  | [] => []
  | v :: vs => nestedRefs v ++ nestedRefsList vs

end

def elemRefs : Native → List Int
  | .map es => (es.lookup "data").elim [] nestedRefs
  | _ => []

def itemRefs : Native → List Int
  | .map es => es.flatMap fun e => elemRefs e.2
  | _ => []

def itemListRefs : Native → List Int
  | .array vs => vs.flatMap itemRefs
  | _ => []

/-- The indices of buffers in a message, in order. -/
def bufferRefs : Native → List Int
  | .map es => es.flatMap fun e => itemListRefs e.2
  | _ => []

/-! ## The large tensors of a value -/

/-- The bytes of a tensor that do not travel in the message. -/
def Tensor.large (sizeThreshold : Int) (t : Tensor torch) : List Bytes :=
  if (t.nbytes : Int) < sizeThreshold then [] else [t.data]

mutual

def NestedTensors.large (sizeThreshold : Int) : NestedTensors torch → List Bytes
  | .none => []
  | .tensor t => t.large sizeThreshold
  | .number _ => []
  | .seq xs => largeList sizeThreshold xs

def largeList (sizeThreshold : Int) : List (NestedTensors torch) → List Bytes
  | [] => []
  | x :: xs => x.large sizeThreshold ++ largeList sizeThreshold xs

end

def elemLarge (sizeThreshold : Int) (elem : MultiModalFieldElem torch) : List Bytes :=
  elem.data.large sizeThreshold

def itemLarge (sizeThreshold : Int) (item : MultiModalKwargsItem torch) : List Bytes :=
  item.entries.flatMap fun e => elemLarge sizeThreshold e.2

/-- The bytes of the large tensors, in the order of the items. -/
def largeTensors (sizeThreshold : Int) (items : MultiModalKwargsItems torch) : List Bytes :=
  items.entries.flatMap fun e => e.2.flatMap (itemLarge sizeThreshold)

/-! ## Data without `None` inside -/

mutual

/-- Nested data without `None`. -/
def NestedTensors.solid : NestedTensors torch → Bool
  | .none => false
  | .tensor _ => true
  | .number _ => true
  | .seq xs => solidList xs

def solidList : List (NestedTensors torch) → Bool
  | [] => true
  | x :: xs => x.solid && solidList xs

end

/-- The data is `None`, or there is no `None` in it. -/
def MultiModalFieldElem.sendable (elem : MultiModalFieldElem torch) : Bool :=
  match elem.data with
  | .none => true
  | data => data.solid

/-- All elements of the items can be sent. -/
def Sendable (items : MultiModalKwargsItems torch) : Prop :=
  ∀ e ∈ items.entries, ∀ item ∈ e.2, ∀ elem ∈ item.entries, elem.2.sendable = true

/-! ## Encoding and decoding -/

/-- The indices that `k` new buffers get. -/
def refsFrom (start k : Nat) : List Int := (List.range' start k).map Nat.cast

theorem refsFrom_add (start j k : Nat) :
    refsFrom start (j + k) = refsFrom start j ++ refsFrom (start + j) k := by
  unfold refsFrom
  rw [← List.map_append, List.range'_append_1]

/-- A list of buffers that has the new ones in their places. -/
def Holds (all : List Bytes) (start : Nat) (new : List Bytes) : Prop :=
  ∀ i b, new[i]? = some b → all[start + i]? = some b

theorem Holds.left {all : List Bytes} {start : Nat} {xs ys : List Bytes}
    (h : Holds all start (xs ++ ys)) : Holds all start xs := by
  intro i b hb
  apply h i b
  have hlt := (List.getElem?_eq_some_iff.mp hb).1
  rw [List.getElem?_append_left hlt, hb]

theorem Holds.right {all : List Bytes} {start : Nat} {xs ys : List Bytes}
    (h : Holds all start (xs ++ ys)) : Holds all (start + xs.length) ys := by
  intro i b hb
  rw [Nat.add_assoc]
  apply h (xs.length + i) b
  rw [List.getElem?_append_right (by omega), Nat.add_sub_cancel_left, hb]

/-- `x` was encoded as `v` when there were `start` buffers: `new` are added, the
references are theirs, and `dec` gives `x` back. -/
structure Coded {α β : Type} (dec : List Bytes → β → Except Python.Error α)
    (refs : β → List Int) (x : α) (v : β) (start : Nat) (new : List Bytes) : Prop where
  refs : refs v = refsFrom start new.length
  decodes : ∀ all, Holds all start new → dec all v = .ok x

/-- The spec of an encoding function at `x`. -/
def Encodes {α β : Type} (enc : α → List Bytes → Except Python.Error (β × List Bytes))
    (dec : List Bytes → β → Except Python.Error α) (refs : β → List Int)
    (large : α → List Bytes) (x : α) : Prop :=
  ∀ bufs, ∃ v, enc x bufs = .ok (v, bufs ++ large x) ∧
    Coded dec refs x v bufs.length (large x)

/-- What is encoded one after the other is decoded one after the other. -/
theorem encodeAll_spec {α β : Type}
    {enc : α → List Bytes → Except Python.Error (β × List Bytes)}
    {dec : List Bytes → β → Except Python.Error α} {refs : β → List Int}
    {large : α → List Bytes} :
    ∀ xs : List α, (∀ x ∈ xs, Encodes enc dec refs large x) →
      Encodes (encodeAll enc) (fun all vs => vs.mapM (dec all)) (fun vs => vs.flatMap refs)
        (fun xs => xs.flatMap large) xs := by
  intro xs
  induction xs with
  | nil =>
    intro _ bufs
    refine ⟨[], ?_, rfl, fun all _ => rfl⟩
    dsimp only
    rw [encodeAll, List.flatMap_nil, List.append_nil]
  | cons x xs ih =>
    intro h bufs
    obtain ⟨v, hv, hc⟩ := h x List.mem_cons_self bufs
    obtain ⟨vs, hvs, hcs⟩ :=
      ih (fun y hy => h y (List.mem_cons_of_mem x hy)) (bufs ++ large x)
    rw [List.length_append] at hcs
    dsimp only at hvs
    refine ⟨v :: vs, ?_, ?_, ?_⟩
    · dsimp only
      rw [encodeAll, hv, Raises.ok_bind]
      dsimp only
      rw [hvs, Raises.ok_bind, List.flatMap_cons, List.append_assoc]
      rfl
    · dsimp only
      rw [List.flatMap_cons, List.flatMap_cons, hc.refs, hcs.refs, List.length_append,
        refsFrom_add]
    · intro all hall
      dsimp only at hall ⊢
      rw [List.flatMap_cons] at hall
      rw [List.mapM_cons, hc.decodes all hall.left, Raises.ok_bind,
        hcs.decodes all hall.right, Raises.ok_bind]
      rfl

/-! ### Tensors -/

theorem decodeShape_encoded (shape : List Nat) :
    decodeShape (.array (shape.map fun n : Nat => .int n)) = .ok shape := by
  unfold decodeShape
  dsimp only
  induction shape with
  | nil => rfl
  | cons n ns ih =>
    rw [List.map_cons, List.mapM_cons, ih]
    rfl

/-- The bytes of a tensor, viewed with its dtype and shape. -/
theorem viewTensor_data (hsize : ∀ d, 0 < torch.itemsize d) (t : Tensor torch) :
    viewTensor t.dtype t.shape t.data = .ok t := by
  obtain ⟨dtype, shape, data, size⟩ := t
  unfold viewTensor
  dsimp only
  split
  next hempty =>
    subst hempty
    have hzero : 0 ∈ shape := by
      rw [List.length_nil] at size
      rcases Nat.mul_eq_zero.mp size.symm with h | h
      · exact List.prod_eq_zero_iff.mp h
      · exact absurd h (Nat.pos_iff_ne_zero.mp (hsize dtype))
    rw [dif_pos hzero]
  next => rfl

/-- What is assumed of `torch`: a dtype is found under its name, and its elements
have bytes. -/
structure Torch.Lawful (torch : Torch) : Prop where
  getattr_name : ∀ d, torch.getattr (torch.name d) = .ok d
  itemsize_pos : ∀ d, 0 < torch.itemsize d

theorem decodeTensor_of_buffer (ht : torch.Lawful) {bufs : List Bytes} {v : Native} (t : Tensor torch)
    (h : bufferOf bufs v = .ok t.data) :
    decodeTensor bufs [.str (torch.name t.dtype), .array (t.shape.map fun n : Nat => .int n), v]
      = .ok t := by
  unfold decodeTensor
  dsimp only
  rw [h, Raises.ok_bind, ht.getattr_name, Raises.ok_bind, decodeShape_encoded, Raises.ok_bind]
  exact viewTensor_data ht.itemsize_pos t

/-! ### Nested data -/

theorem encodeTensor_spec (ht : torch.Lawful) (t : Tensor torch) :
    Encodes (encodeNestedTensors sizeThreshold) decodeNestedTensors nestedRefs
      (NestedTensors.large sizeThreshold) (.tensor t) := by
  intro bufs
  rw [encodeNestedTensors, NestedTensors.large]
  unfold encodeTensor Tensor.large
  split
  next hsmall =>
    refine ⟨_, by rw [List.append_nil], ?_, fun all _ => ?_⟩
    · rw [nestedRefs.eq_def]
      rfl
    · rw [decodeNestedTensors, decodeTensor_of_buffer ht t rfl]
      rfl
  next hlarge =>
    refine ⟨_, rfl, ?_, fun all hall => ?_⟩
    · rw [nestedRefs.eq_def]
      rfl
    · have hbuf : bufferOf all (.int bufs.length) = .ok t.data :=
        Python.getItem_natCast (hall 0 t.data rfl)
      rw [decodeNestedTensors, decodeTensor_of_buffer ht t hbuf]
      rfl

theorem encodeNumber_spec (n : Number) :
    Encodes (encodeNestedTensors sizeThreshold) decodeNestedTensors nestedRefs
      (NestedTensors.large sizeThreshold) (.number n : NestedTensors torch) := by
  intro bufs
  rw [NestedTensors.large]
  refine ⟨n.toNative, ?_, ?_, fun all _ => ?_⟩
  · rw [encodeNestedTensors, List.append_nil]
  · cases n with
    | bool b => rfl
    | int i => rfl
    | float bits => rfl
  · cases n with
    | bool b => rfl
    | int i => rfl
    | float bits => rfl

/-- A list of encoded data does not begin with a string. -/
theorem encodeNestedTensors_ne_str {x : NestedTensors torch} {bufs : List Bytes} {v : Native}
    {bufs' : List Bytes} (h : encodeNestedTensors sizeThreshold x bufs = .ok (v, bufs')) (t : String) :
    v ≠ .str t := by
  intro hv
  cases x with
  | none => cases h
  | tensor t' =>
    rw [encodeNestedTensors] at h
    have heq := congrArg Prod.fst (Except.ok.inj h)
    rw [hv] at heq
    unfold encodeTensor at heq
    dsimp only at heq
    split at heq
    · cases heq
    · cases heq
  | number n =>
    rw [encodeNestedTensors] at h
    have heq := congrArg Prod.fst (Except.ok.inj h)
    rw [hv] at heq
    cases n with
    | bool b => cases heq
    | int i => cases heq
    | float bits => cases heq
  | seq xs =>
    rw [encodeNestedTensors, Raises.bind_eq_ok] at h
    obtain ⟨⟨vs, bufs₁⟩, -, h⟩ := h
    have heq := congrArg Prod.fst (Except.ok.inj h)
    rw [hv] at heq
    cases heq

/-- An array that does not begin with a string is a nested list. -/
theorem decodeNestedTensors_array (all : List Bytes) {vs : List Native}
    (h : ∀ t ws, vs ≠ .str t :: ws) :
    (decodeNestedTensors all (.array vs) : Except Python.Error (NestedTensors torch))
      = (do let xs ← decodeNestedList all vs; return .seq xs) := by
  cases vs with
  | nil => rfl
  | cons v vs =>
    cases v with
    | str t => exact absurd rfl (h t vs)
    | none => rfl
    | bool b => rfl
    | int i => rfl
    | float bits => rfl
    | ext code data => rfl
    | array ws => rfl
    | map es => rfl

theorem nestedRefs_array {vs : List Native} (h : ∀ t ws, vs ≠ .str t :: ws) :
    nestedRefs (.array vs) = nestedRefsList vs := by
  cases vs with
  | nil => rfl
  | cons v vs =>
    cases v with
    | str t => exact absurd rfl (h t vs)
    | none => rfl
    | bool b => rfl
    | int i => rfl
    | float bits => rfl
    | ext code data => rfl
    | array ws => rfl
    | map es => rfl

mutual

/-- Nested data without `None` is decoded from its encoding. -/
theorem encodeNestedTensors_spec (ht : torch.Lawful) (x : NestedTensors torch)
    (hx : x.solid = true) :
    Encodes (encodeNestedTensors sizeThreshold) decodeNestedTensors nestedRefs
      (NestedTensors.large sizeThreshold) x := by
  cases x with
  | none => cases hx
  | tensor t => exact encodeTensor_spec ht t
  | number n => exact encodeNumber_spec n
  | seq xs =>
    intro bufs
    rw [NestedTensors.solid] at hx
    obtain ⟨vs, hvs, hc, hne⟩ := encodeNestedList_spec ht xs hx bufs
    rw [NestedTensors.large]
    refine ⟨.array vs, ?_, ?_, fun all hall => ?_⟩
    · rw [encodeNestedTensors, hvs]
      rfl
    · rw [nestedRefs_array hne, hc.refs]
    · rw [decodeNestedTensors_array all hne, hc.decodes all hall]
      rfl

theorem encodeNestedList_spec (ht : torch.Lawful) (xs : List (NestedTensors torch))
    (hxs : solidList xs = true) (bufs : List Bytes) :
    ∃ vs, encodeNestedList sizeThreshold xs bufs = .ok (vs, bufs ++ largeList sizeThreshold xs) ∧
      Coded decodeNestedList nestedRefsList xs vs bufs.length (largeList sizeThreshold xs) ∧
      ∀ t ws, vs ≠ .str t :: ws := by
  cases xs with
  | nil =>
    rw [largeList]
    refine ⟨[], ?_, ⟨rfl, fun all _ => rfl⟩, fun t ws h => (by cases h)⟩
    rw [encodeNestedList, List.append_nil]
  | cons x xs =>
    rw [solidList, Bool.and_eq_true] at hxs
    obtain ⟨v, hv, hc⟩ := encodeNestedTensors_spec ht x hxs.1 bufs
    obtain ⟨vs, hvs, hcs, -⟩ :=
      encodeNestedList_spec ht xs hxs.2 (bufs ++ x.large sizeThreshold)
    rw [List.length_append] at hcs
    rw [largeList]
    refine ⟨v :: vs, ?_, ⟨?_, fun all hall => ?_⟩, ?_⟩
    · rw [encodeNestedList, hv, Raises.ok_bind]
      dsimp only
      rw [hvs, Raises.ok_bind, List.append_assoc]
      rfl
    · rw [nestedRefsList, hc.refs, hcs.refs, List.length_append, refsFrom_add]
    · rw [decodeNestedList, hc.decodes all hall.left, Raises.ok_bind, hcs.decodes all hall.right]
      rfl
    · intro t ws heq
      exact encodeNestedTensors_ne_str hv t (List.cons.inj heq).1

end

/-! ### Fields -/

theorem decodeOptionalInt_encoded (o : Option Int) : decodeOptionalInt (optionalInt o) = .ok o := by
  cases o with
  | none => rfl
  | some i => rfl

theorem encodeSlices_isArray (x : Slices) : (encodeSlices x).isArray = true := by
  cases x with
  | one s => rfl
  | many xs => rfl

/-- A slice begins with a bound, which is no list. -/
theorem decode_encHookSlice (s : PySlice) :
    decodeNestedSlices (encHookSlice s) = .ok (.one s) := by
  obtain ⟨start, stop, step⟩ := s
  have hbound : (optionalInt start).isArray = false := by
    cases start with
    | none => rfl
    | some i => rfl
  unfold encHookSlice
  rw [decodeNestedSlices, if_neg (by rw [hbound]; exact Bool.false_ne_true), sliceOf]
  simp only [List.mapM_cons, List.mapM_nil, decodeOptionalInt_encoded]
  rfl

mutual

theorem decode_encodeSlices (x : Slices) : decodeNestedSlices (encodeSlices x) = .ok x := by
  cases x with
  | one s =>
    rw [encodeSlices]
    exact decode_encHookSlice s
  | many xs =>
    cases xs with
    | nil => rfl
    | cons y ys =>
      rw [encodeSlices, encodeSlicesList, decodeNestedSlices, if_pos (encodeSlices_isArray y),
        decode_encodeSlices y, Raises.ok_bind, decode_encodeSlicesList ys]
      rfl

theorem decode_encodeSlicesList (xs : List Slices) :
    decodeSlicesList (encodeSlicesList xs) = .ok xs := by
  cases xs with
  | nil => rfl
  | cons y ys =>
    rw [encodeSlicesList, decodeSlicesList, decode_encodeSlices y, Raises.ok_bind,
      decode_encodeSlicesList ys]
    rfl

end

/-- The factory that a field is encoded with builds it again. -/
theorem decode_encodeMmField (field : MultiModalField) :
    decodeField (encodeMmField field) = .ok field := by
  cases field with
  | batched keepOnCpu => rfl
  | flat keepOnCpu slices dim =>
    show callFactory "flat" _ = _
    unfold callFactory
    rw [if_neg (by decide), if_pos rfl]
    have hlookup : [("keep_on_cpu", Native.bool keepOnCpu), ("slices", encodeSlices slices),
        ("dim", Native.int dim)].lookup "slices" = some (encodeSlices slices) := rfl
    rw [hlookup]
    dsimp only
    rw [decode_encodeSlices, Raises.ok_bind]
    rfl
  | shared keepOnCpu batchSize => rfl

/-! ### Elements and items -/

theorem encodeData_spec (ht : torch.Lawful) (elem : MultiModalFieldElem torch)
    (h : elem.sendable = true) :
    Encodes (encodeData sizeThreshold) decodeData nestedRefs (NestedTensors.large sizeThreshold)
      elem.data := by
  unfold MultiModalFieldElem.sendable at h
  -- data that is sent as nested data is never the message's `None`
  have key : ∀ x : NestedTensors torch, x.solid = true →
      (∀ bufs, encodeData sizeThreshold x bufs = encodeNestedTensors sizeThreshold x bufs) →
      Encodes (encodeData sizeThreshold) decodeData nestedRefs
        (NestedTensors.large sizeThreshold) x := by
    intro x hx henc bufs
    obtain ⟨v, hv, hc⟩ := encodeNestedTensors_spec ht x hx bufs
    refine ⟨v, (henc bufs).trans hv, hc.refs, fun all hall => ?_⟩
    have hdec := hc.decodes all hall
    cases v with
    | none => cases hdec
    | bool b => exact hdec
    | int i => exact hdec
    | float bits => exact hdec
    | str s => exact hdec
    | ext code data => exact hdec
    | array ws => exact hdec
    | map es => exact hdec
  cases hd : elem.data with
  | none =>
    intro bufs
    refine ⟨.none, ?_, rfl, fun all _ => rfl⟩
    rw [NestedTensors.large, List.append_nil]
    rfl
  | tensor t =>
    rw [hd] at h
    exact key _ h fun _ => rfl
  | number n =>
    rw [hd] at h
    exact key _ h fun _ => rfl
  | seq xs =>
    rw [hd] at h
    exact key _ h fun _ => rfl

theorem encodeMmFieldElem_spec (ht : torch.Lawful) (elem : MultiModalFieldElem torch)
    (h : elem.sendable = true) :
    Encodes (encodeMmFieldElem sizeThreshold) decodeMmFieldElem elemRefs
      (elemLarge sizeThreshold) elem := by
  intro bufs
  obtain ⟨v, hv, hc⟩ := encodeData_spec ht elem h bufs
  have hdata : [("data", v), ("field", encodeMmField elem.field)].lookup "data" = some v := rfl
  have hfield : [("data", v), ("field", encodeMmField elem.field)].lookup "field"
    = some (encodeMmField elem.field) := rfl
  refine ⟨.map [("data", v), ("field", encodeMmField elem.field)], ?_, ?_, fun all hall => ?_⟩
  · rw [encodeMmFieldElem, hv]
    rfl
  · unfold elemRefs
    dsimp only
    rw [hdata, Option.elim_some]
    exact hc.refs
  · unfold decodeMmFieldElem
    dsimp only
    rw [hdata, hfield]
    dsimp only
    rw [hc.decodes all hall, Raises.ok_bind, decode_encodeMmField]
    rfl

/-- An entry of a dictionary. -/
theorem encodeEntry_spec {α : Type} {enc : α → List Bytes → Except Python.Error (Native × List Bytes)}
    {dec : List Bytes → Native → Except Python.Error α} {refs : Native → List Int}
    {large : α → List Bytes} {e : String × α} (h : Encodes enc dec refs large e.2) :
    Encodes (encodeEntry enc)
      (fun all (p : String × Native) => do
        let x ← dec all p.2
        return (p.1, x))
      (fun p => refs p.2) (fun e => large e.2) e := by
  intro bufs
  obtain ⟨v, hv, hc⟩ := h bufs
  refine ⟨(e.1, v), ?_, hc.refs, fun all hall => ?_⟩
  · rw [encodeEntry, hv]
    rfl
  · dsimp only
    rw [hc.decodes all hall]
    rfl

/-- A dictionary comprehension over entries with different keys. -/
theorem decodeDict_eq {α : Type} {f : Native → Except Python.Error α} {d : Dict String α} :
    ∀ {es : List (String × Native)}, es.mapM (fun p => do
        let x ← f p.2
        return (p.1, x)) = .ok d.entries → decodeDict f es = .ok d := by
  -- the entries still to be decoded are those that the dictionary does not have yet
  have key : ∀ (es : List (String × Native)) (rest : List (String × α)) (d₀ d₁ : Dict String α),
      d₁.entries = d₀.entries ++ rest →
      es.mapM (fun p => do
        let x ← f p.2
        return (p.1, x)) = .ok rest →
      es.foldlM (fun d e => do
        let x ← f e.2
        return d.set e.1 x) d₀ = .ok d₁ := by
    intro es
    induction es with
    | nil =>
      intro rest d₀ d₁ hd h
      rw [List.mapM_nil, Raises.pure_eq_ok] at h
      rw [← h, List.append_nil] at hd
      cases d₀
      cases d₁
      rw [List.foldlM_nil]
      exact congrArg Except.ok (by simpa using hd.symm)
    | cons e es ih =>
      intro rest d₀ d₁ hd h
      simp only [List.mapM_cons, Raises.bind_eq_ok, Raises.pure_eq_ok] at h
      obtain ⟨x, ⟨v, hv, rfl⟩, xs, hxs, rfl⟩ := h
      rw [List.foldlM_cons, hv]
      have hnew : e.1 ∉ d₀.entries.map Prod.fst := by
        have hnodup := d₁.nodup
        rw [hd, List.map_append, List.map_cons] at hnodup
        intro hmem
        exact (List.nodup_append.mp hnodup).2.2 _ hmem _ List.mem_cons_self rfl
      apply ih xs (d₀.set e.1 v) d₁ ?_ hxs
      have hentries : (d₀.set e.1 v).entries = d₀.entries ++ [(e.1, v)] :=
        Dict.insertEntry_of_not_mem v hnew
      rw [hd, hentries, List.append_assoc]
      rfl
  intro es h
  exact key es d.entries Dict.empty d rfl h

theorem encodeMmItem_spec (ht : torch.Lawful) (item : MultiModalKwargsItem torch)
    (h : ∀ e ∈ item.entries, e.2.sendable = true) :
    Encodes (encodeMmItem sizeThreshold) decodeMmItem itemRefs (itemLarge sizeThreshold) item := by
  intro bufs
  obtain ⟨es, hes, hc⟩ := encodeAll_spec item.entries
    (fun e he => encodeEntry_spec (encodeMmFieldElem_spec ht e.2 (h e he))) bufs
  refine ⟨.map es, ?_, hc.refs, fun all hall => decodeDict_eq (hc.decodes all hall)⟩
  rw [encodeMmItem, hes]
  rfl

theorem encodeItemList_spec (ht : torch.Lawful) (items : List (MultiModalKwargsItem torch))
    (h : ∀ item ∈ items, ∀ e ∈ item.entries, e.2.sendable = true) :
    Encodes (encodeItemList sizeThreshold) decodeItemList itemListRefs
      (fun items => items.flatMap (itemLarge sizeThreshold)) items := by
  intro bufs
  obtain ⟨vs, hvs, hc⟩ :=
    encodeAll_spec items (fun item hitem => encodeMmItem_spec ht item (h item hitem)) bufs
  refine ⟨.array vs, ?_, hc.refs, hc.decodes⟩
  rw [encodeItemList, hvs]
  rfl

theorem encodeMmItems_spec (ht : torch.Lawful) (items : MultiModalKwargsItems torch)
    (h : Sendable items) :
    Encodes (encodeMmItems sizeThreshold) decodeMmItems bufferRefs (largeTensors sizeThreshold)
      items := by
  intro bufs
  obtain ⟨es, hes, hc⟩ := encodeAll_spec items.entries
    (fun e he => encodeEntry_spec (encodeItemList_spec ht e.2 (h e he))) bufs
  refine ⟨.map es, ?_, hc.refs, fun all hall => decodeDict_eq (hc.decodes all hall)⟩
  rw [encodeMmItems, hes]
  rfl

/-! ## The round trip -/

variable {W : Type}

/-- The message and its buffers: the items come back, the auxiliary buffers are
the bytes of the large tensors in order, and the message refers to each of them
once, in order. -/
structure RoundTrip (codec : Msgpack W) (sizeThreshold : Int) (items : MultiModalKwargsItems torch)
    (msg : Message W) : Prop where
  decoded : decode codec msg = .ok items
  aux : msg.aux = largeTensors sizeThreshold items
  refs : ∃ v, codec.decode msg.main = .ok v ∧ bufferRefs v = refsFrom 1 msg.aux.length

/-- **A payload survives the wire.** -/
theorem round_trip (codec : Msgpack W) (ht : torch.Lawful) (sizeThreshold : Int)
    (items : MultiModalKwargsItems torch) (h : Sendable items) :
    ∃ msg, encode sizeThreshold codec items = .ok msg ∧
      RoundTrip codec sizeThreshold items msg := by
  have hitems : Encodes (encodeMmItems sizeThreshold) decodeMmItems bufferRefs
      (largeTensors sizeThreshold) items := encodeMmItems_spec ht items h
  obtain ⟨v, hv, hc⟩ := hitems [[]]
  refine ⟨{ main := codec.encode v, aux := largeTensors sizeThreshold items }, ?_, ?_, rfl, ?_⟩
  · rw [encode, hv]
    rfl
  · rw [decode, codec.lossless]
    apply hc.decodes
    intro i b hb
    show (_ :: largeTensors sizeThreshold items)[1 + i]? = some b
    rw [Nat.add_comm, List.getElem?_cons_succ]
    exact hb
  · exact ⟨v, codec.lossless v, hc.refs⟩

/-! ## Two payloads -/

/-- Two of the dtypes of `torch`. -/
inductive SmallDtype
  | uint8
  | float32

/-- `torch`, with these dtypes. -/
def smallTorch : Torch where
  Dtype := SmallDtype
  str := fun
    | .uint8 => "torch.uint8"
    | .float32 => "torch.float32"
  getattr := fun name =>
    if name = "uint8" then .ok .uint8
    else if name = "float32" then .ok .float32
    else .error (.attribute "module 'torch' has no such attribute")
  itemsize := fun
    | .uint8 => 1
    | .float32 => 4

theorem smallTorch_lawful : smallTorch.Lawful := by
  refine ⟨fun d => ?_, fun d => ?_⟩
  · have huint8 : smallTorch.name .uint8 = "uint8" := by decide +kernel
    have hfloat32 : smallTorch.name .float32 = "float32" := by decide +kernel
    cases d with
    | uint8 => rw [huint8]; rfl
    | float32 => rw [hfloat32]; rfl
  · cases d with
    | uint8 => exact Nat.one_pos
    | float32 => exact Nat.succ_pos 3

/-- A message that is kept as the value it has. -/
def valueCodec : Msgpack Native where
  encode := id
  decode := .ok
  bytes := fun _ => []
  lossless := fun _ => rfl

/-- One image, whose only element has the given data. -/
def oneImage (data : NestedTensors smallTorch) (field : MultiModalField) :
    MultiModalKwargsItems smallTorch :=
  Dict.empty.set "image" [Dict.empty.set "pixel_values" { data := data, field := field }]

/-- A tensor above the threshold beside one below it, an empty list and a number. -/
def mixedImage : MultiModalKwargsItems smallTorch :=
  oneImage
    (.seq [.tensor ⟨.float32, [1, 2], [0, 0, 128, 63, 0, 0, 0, 64], rfl⟩, .seq [],
      .tensor ⟨.uint8, [], [7], rfl⟩, .number (.int 3)])
    (.flat true (.many [.one ⟨none, some 2, none⟩, .many [.one ⟨some 2, some 3, none⟩]]) (-1))

theorem mixedImage_round_trip : ∃ msg, encode 4 valueCodec mixedImage = .ok msg ∧
    RoundTrip valueCodec 4 mixedImage msg :=
  round_trip valueCodec smallTorch_lawful 4 mixedImage (by unfold Sendable; decide +kernel)

/-- `None` inside nested data cannot be sent. -/
theorem inner_none_not_sent :
    ¬ ∀ (torch : Torch) (W : Type) (codec : Msgpack W), torch.Lawful →
      ∀ (sizeThreshold : Int) (items : MultiModalKwargsItems torch),
        ∃ msg, encode sizeThreshold codec items = .ok msg ∧
          RoundTrip codec sizeThreshold items msg := by
  intro h
  obtain ⟨msg, henc, -⟩ := h smallTorch Native valueCodec smallTorch_lawful 4
    (oneImage (.seq [.none]) (.batched false))
  cases henc

end VllmEngine.Serial
