import Mathlib.Algebra.BigOperators.Ring.List
import VllmEngine.Lib.Dict
import VllmEngine.Lib.Python

/-!
# Multimodal payloads on the wire

`MsgpackEncoder` and `MsgpackDecoder` (`vllm/v1/serial_utils.py`) for
`MultiModalKwargsItems` (`vllm/multimodal/inputs.py`). An item is a dictionary
of elements, an element is nested data with the field it belongs to. Tensors
below the size threshold travel in the message, the bytes of the others are
buffers of their own, and the message has their index.

The message itself is untyped: the decoder tells a tensor from a nested list, and
a slice from a list of slices, by the first element.

Mirroring notes:
- `msgspec` writes the message and reads it back; `Msgpack` is what is assumed of
  it. A tuple and a list are one kind of array on the wire, so the natives have
  one constructor for both. `ext_hook` is applied where the extension is read.
- `torch` is seen through `Torch`: the names under which it has its dtypes and
  their sizes. A tensor is its dtype, its shape and its contiguous bytes, and all
  tensors are on the CPU. `view` with an inferred dimension (`-1`) does not occur.
- A slice is encoded where its field is; `msgspec` calls the hook when it comes to
  it. Values of keyword arguments have their declared types.
- There is no out-of-band consumer.
-/

namespace VllmEngine.Serial

abbrev Bytes := List UInt8

/-! ## Values -/

/-- What is used of `torch`: `str(dtype)`, `getattr(torch, name)` and the size of
an element. -/
structure Torch where
  Dtype : Type
  str : Dtype → String
  getattr : String → Except Python.Error Dtype
  itemsize : Dtype → Nat

/-- `s.removeprefix(prefix)`. -/
def removeprefix (s pre : String) : String :=
  if pre.toList <+: s.toList then String.ofList (s.toList.drop pre.toList.length) else s

/-- `str(dtype).removeprefix("torch.")`. -/
def Torch.name (torch : Torch) (d : torch.Dtype) : String := removeprefix (torch.str d) "torch."

/-- A CPU tensor, with the bytes that `tensor_data` gives. -/
structure Tensor (torch : Torch) where
  dtype : torch.Dtype
  shape : List Nat
  data : Bytes
  size : data.length = shape.prod * torch.itemsize dtype

def Tensor.nbytes {torch : Torch} (t : Tensor torch) : Nat := t.data.length

/-- An `int` or a `float` (its 64 bits); a `bool` is an `int`. -/
inductive Number
  | bool (b : Bool)
  | int (i : Int)
  | float (bits : UInt64)
deriving DecidableEq, Repr

/-- `NestedTensors`, with the numbers that stand in some of them. -/
inductive NestedTensors (torch : Torch)
  | none
  | tensor (t : Tensor torch)
  | number (n : Number)
  | seq (xs : List (NestedTensors torch))

/-- A Python slice of integers. -/
structure PySlice where
  start : Option Int
  stop : Option Int
  step : Option Int
deriving DecidableEq, Repr

/-- The `slices` of a flat field: slices in sequences. -/
inductive Slices
  | one (s : PySlice)
  | many (xs : List Slices)

/-- `MultiModalBatchedField`, `MultiModalFlatField` and `MultiModalSharedField`. -/
inductive MultiModalField
  | batched (keepOnCpu : Bool)
  | flat (keepOnCpu : Bool) (slices : Slices) (dim : Int)
  | shared (keepOnCpu : Bool) (batchSize : Int)

structure MultiModalFieldElem (torch : Torch) where
  data : NestedTensors torch
  field : MultiModalField

abbrev MultiModalKwargsItem (torch : Torch) := Dict String (MultiModalFieldElem torch)

abbrev MultiModalKwargsItems (torch : Torch) := Dict String (List (MultiModalKwargsItem torch))

/-! ## The message -/

/-- The values that msgpack has. -/
inductive Native
  | none
  | bool (b : Bool)
  | int (i : Int)
  | float (bits : UInt64)
  | str (s : String)
  | ext (code : Int) (data : Bytes)
  | array (xs : List Native)
  | map (es : List (String × Native))

/-- `msgspec.msgpack`: what it writes it reads back. -/
structure Msgpack (W : Type) where
  encode : Native → W
  decode : W → Except Python.Error Native
  bytes : W → Bytes
  lossless : ∀ v, decode (encode v) = .ok v

/-- The buffers that are sent: the message and the bytes of the large tensors. -/
structure Message (W : Type) where
  main : W
  aux : List Bytes

/-- The list of buffers; the message is the first. -/
def Message.buffers {W : Type} (codec : Msgpack W) (msg : Message W) : List Bytes :=
  codec.bytes msg.main :: msg.aux

/-- `CUSTOM_TYPE_RAW_VIEW`. -/
def customTypeRawView : Int := 3

/-! ## The encoder

`bufs` is `self.aux_buffers`, which every function returns with what it has added. -/

section Encoder

variable {torch : Torch} (sizeThreshold : Int)

/-- `_encode_tensor`. -/
def encodeTensor (t : Tensor torch) (bufs : List Bytes) : Native × List Bytes :=
  let shape := Native.array (t.shape.map fun n : Nat => .int n)
  if (t.nbytes : Int) < sizeThreshold then
    (.array [.str (torch.name t.dtype), shape, .ext customTypeRawView t.data], bufs)
  else (.array [.str (torch.name t.dtype), shape, .int bufs.length], bufs ++ [t.data])

def Number.toNative : Number → Native
  | .bool b => .bool b
  | .int i => .int i
  | .float bits => .float bits

mutual

/-- `_encode_nested_tensors`. -/
def encodeNestedTensors : NestedTensors torch → List Bytes →
    Except Python.Error (Native × List Bytes)
  | .tensor t, bufs => .ok (encodeTensor sizeThreshold t bufs)
  | .number n, bufs => .ok (n.toNative, bufs)
  | .none, _ => .error (.type "'NoneType' object is not iterable")
  | .seq xs, bufs => do
    let (vs, bufs) ← encodeNestedList xs bufs
    return (.array vs, bufs)

def encodeNestedList : List (NestedTensors torch) → List Bytes →
    Except Python.Error (List Native × List Bytes)
  | [], bufs => .ok ([], bufs)
  | x :: xs, bufs => do
    let (v, bufs) ← encodeNestedTensors x bufs
    let (vs, bufs) ← encodeNestedList xs bufs
    return (v :: vs, bufs)

end

def optionalInt : Option Int → Native
  | none => .none
  | some i => .int i

/-- `enc_hook` on a slice. -/
def encHookSlice (s : PySlice) : Native :=
  .array [optionalInt s.start, optionalInt s.stop, optionalInt s.step]

mutual

/-- The slices of a field, as `msgspec` writes them. -/
def encodeSlices : Slices → Native
  | .one s => encHookSlice s
  | .many xs => .array (encodeSlicesList xs)

def encodeSlicesList : List Slices → List Native
  | [] => []
  | x :: xs => encodeSlices x :: encodeSlicesList xs

end

/-- `_encode_mm_field`: the name of the factory, and its keyword arguments. -/
def encodeMmField : MultiModalField → Native
  | .batched keepOnCpu => .array [.str "batched", .map [("keep_on_cpu", .bool keepOnCpu)]]
  | .flat keepOnCpu slices dim => .array [.str "flat",
      .map [("keep_on_cpu", .bool keepOnCpu), ("slices", encodeSlices slices), ("dim", .int dim)]]
  | .shared keepOnCpu batchSize => .array [.str "shared",
      .map [("keep_on_cpu", .bool keepOnCpu), ("batch_size", .int batchSize)]]

/-- `None if elem.data is None else self._encode_nested_tensors(elem.data)`. -/
def encodeData (data : NestedTensors torch) (bufs : List Bytes) :
    Except Python.Error (Native × List Bytes) :=
  match data with
  | .none => .ok (.none, bufs)
  | data => encodeNestedTensors sizeThreshold data bufs

/-- `_encode_mm_field_elem`. -/
def encodeMmFieldElem (elem : MultiModalFieldElem torch) (bufs : List Bytes) :
    Except Python.Error (Native × List Bytes) := do
  let (data, bufs) ← encodeData sizeThreshold elem.data bufs
  return (.map [("data", data), ("field", encodeMmField elem.field)], bufs)

/-- A comprehension over what is encoded one after the other. -/
def encodeAll {α β : Type} (f : α → List Bytes → Except Python.Error (β × List Bytes)) :
    List α → List Bytes → Except Python.Error (List β × List Bytes)
  | [], bufs => .ok ([], bufs)
  | x :: xs, bufs => do
    let (v, bufs) ← f x bufs
    let (vs, bufs) ← encodeAll f xs bufs
    return (v :: vs, bufs)

/-- An entry of a dictionary whose value is encoded. -/
def encodeEntry {α : Type} (f : α → List Bytes → Except Python.Error (Native × List Bytes))
    (e : String × α) (bufs : List Bytes) : Except Python.Error ((String × Native) × List Bytes) := do
  let (v, bufs) ← f e.2 bufs
  return ((e.1, v), bufs)

/-- `_encode_mm_item`. -/
def encodeMmItem (item : MultiModalKwargsItem torch) (bufs : List Bytes) :
    Except Python.Error (Native × List Bytes) := do
  let (es, bufs) ← encodeAll (encodeEntry (encodeMmFieldElem sizeThreshold)) item.entries bufs
  return (.map es, bufs)

/-- The items of one modality. -/
def encodeItemList (items : List (MultiModalKwargsItem torch)) (bufs : List Bytes) :
    Except Python.Error (Native × List Bytes) := do
  let (vs, bufs) ← encodeAll (encodeMmItem sizeThreshold) items bufs
  return (.array vs, bufs)

/-- `_encode_mm_items`. -/
def encodeMmItems (items : MultiModalKwargsItems torch) (bufs : List Bytes) :
    Except Python.Error (Native × List Bytes) := do
  let (es, bufs) ← encodeAll (encodeEntry (encodeItemList sizeThreshold)) items.entries bufs
  return (.map es, bufs)

/-- `MsgpackEncoder.encode`: the first buffer is empty until the message is
written. -/
def encode {W : Type} (codec : Msgpack W) (items : MultiModalKwargsItems torch) :
    Except Python.Error (Message W) := do
  let (v, bufs) ← encodeMmItems sizeThreshold items [[]]
  return { main := codec.encode v, aux := bufs.tail }

end Encoder

/-! ## The decoder

`bufs` is `self.aux_buffers`. -/

section Decoder

variable {torch : Torch} (bufs : List Bytes)

/-- A shape, as `view` takes it. -/
def decodeShape : Native → Except Python.Error (List Nat)
  | .array xs => xs.mapM fun
    | .int (.ofNat n) => .ok n
    | _ => .error (.type "shape must be a list of sizes")
  | _ => .error (.type "shape must be a list of sizes")

/-- `aux_buffers[data] if isinstance(data, int) else data`. -/
def bufferOf : Native → Except Python.Error Bytes
  | .int i => Python.getItem bufs i
  | .ext code data =>
    if code = customTypeRawView then .ok data
    else .error (.notImplemented "Extension type code is not supported")
  | .map _ => .error (.assertion "Received OOB tensor but tensor provider is not set")
  | _ => .error (.type "memoryview: a bytes-like object is required")

/-- The bytes of a tensor viewed with a dtype and a shape. An empty buffer is
replaced by a new tensor. -/
def viewTensor (dtype : torch.Dtype) (shape : List Nat) (buffer : Bytes) :
    Except Python.Error (Tensor torch) :=
  if buffer = [] then
    if h : 0 ∈ shape then
      .ok ⟨dtype, shape, [], by rw [List.prod_eq_zero h, Nat.zero_mul]; rfl⟩
    else .error (.assertion "")
  else
    if h : buffer.length = shape.prod * torch.itemsize dtype then .ok ⟨dtype, shape, buffer, h⟩
    else .error (.runtime "shape is invalid for input of this size")

/-- `_decode_tensor`. -/
def decodeTensor : List Native → Except Python.Error (Tensor torch)
  | [.str dtype, shape, data] => do
    let buffer ← bufferOf bufs data
    let torchDtype ← torch.getattr dtype
    let shape ← decodeShape shape
    viewTensor torchDtype shape buffer
  | _ => .error (.value "not enough values to unpack (expected 3)")

mutual

/-- `_decode_nested_tensors`: a list that begins with a string is a tensor. -/
def decodeNestedTensors : Native → Except Python.Error (NestedTensors torch)
  | .bool b => .ok (.number (.bool b))
  | .int i => .ok (.number (.int i))
  | .float bits => .ok (.number (.float bits))
  | .array (.str s :: vs) => do
    let t ← decodeTensor bufs (.str s :: vs)
    return .tensor t
  | .array vs => do
    let xs ← decodeNestedList vs
    return .seq xs
  | _ => .error (.type "Unexpected NestedTensors contents")

def decodeNestedList : List Native → Except Python.Error (List (NestedTensors torch))
  | [] => .ok []
  | v :: vs => do
    let x ← decodeNestedTensors v
    let xs ← decodeNestedList vs
    return x :: xs

end

def decodeOptionalInt : Native → Except Python.Error (Option Int)
  | .none => .ok none
  | .int i => .ok (some i)
  | _ => .error (.type "slice indices must be integers or None")

/-- `slice(*obj)`. -/
def sliceOf (vs : List Native) : Except Python.Error PySlice := do
  let parts ← vs.mapM decodeOptionalInt
  match parts with
  | [stop] => return { start := none, stop := stop, step := none }
  | [start, stop] => return { start := start, stop := stop, step := none }
  | [start, stop, step] => return { start := start, stop := stop, step := step }
  | _ => .error (.type "slice expected at most 3 arguments")

/-- `isinstance(obj, (list, tuple))`. -/
def Native.isArray : Native → Bool
  | .array _ => true
  | _ => false

mutual

/-- `_decode_nested_slices`: a list that does not begin with a list is a slice. -/
def decodeNestedSlices : Native → Except Python.Error Slices
  | .array (v :: vs) => do
    if v.isArray then
      let x ← decodeNestedSlices v
      let xs ← decodeSlicesList vs
      return .many (x :: xs)
    else
      let s ← sliceOf (v :: vs)
      return .one s
  | .array [] => .ok (.many [])
  | _ => .error (.assertion "")

def decodeSlicesList : List Native → Except Python.Error (List Slices)
  | [] => .ok []
  | v :: vs => do
    let x ← decodeNestedSlices v
    let xs ← decodeSlicesList vs
    return x :: xs

end

/-- A keyword argument that is a `bool`, with its default. -/
def boolArg (kw : List (String × Native)) (name : String) (default : Bool) :
    Except Python.Error Bool :=
  match kw.lookup name with
  | none => .ok default
  | some (.bool b) => .ok b
  | some _ => .error (.type "expected a bool")

/-- A keyword argument that is an `int`; without a default it is required. -/
def intArg (kw : List (String × Native)) (name : String) (default : Option Int) :
    Except Python.Error Int :=
  match kw.lookup name, default with
  | none, some i => .ok i
  | none, none => .error (.type "missing a required keyword argument")
  | some (.int i), _ => .ok i
  | some _, _ => .error (.type "expected an int")

/-- A call with other keyword arguments than the function has. -/
def checkArgs (kw : List (String × Native)) (names : List String) : Except Python.Error Unit :=
  if kw.all fun e => decide (e.1 ∈ names) then .ok ()
  else .error (.type "got an unexpected keyword argument")

/-- `getattr(MultiModalFieldConfig, name)("", **factory_kw).field`. -/
def callFactory (name : String) (kw : List (String × Native)) :
    Except Python.Error MultiModalField :=
  if name = "batched" then do
    checkArgs kw ["keep_on_cpu"]
    let keepOnCpu ← boolArg kw "keep_on_cpu" false
    return .batched keepOnCpu
  else if name = "flat" then do
    match kw.lookup "slices" with
    | none => .error (.key "slices")
    | some v => do
      let slices ← decodeNestedSlices v
      checkArgs kw ["keep_on_cpu", "slices", "dim"]
      let keepOnCpu ← boolArg kw "keep_on_cpu" false
      let dim ← intArg kw "dim" (some 0)
      return .flat keepOnCpu slices dim
  else if name = "shared" then do
    checkArgs kw ["keep_on_cpu", "batch_size"]
    let keepOnCpu ← boolArg kw "keep_on_cpu" false
    let batchSize ← intArg kw "batch_size" none
    return .shared keepOnCpu batchSize
  else .error (.attribute "type object 'MultiModalFieldConfig' has no such factory")

def decodeField : Native → Except Python.Error MultiModalField
  | .array [.str name, .map kw] => callFactory name kw
  | _ => .error (.value "not enough values to unpack (expected 2)")

/-- `obj["data"]`, decoded unless it is `None`. -/
def decodeData : Native → Except Python.Error (NestedTensors torch)
  | .none => .ok .none
  | v => decodeNestedTensors bufs v

/-- `_decode_mm_field_elem`. -/
def decodeMmFieldElem : Native → Except Python.Error (MultiModalFieldElem torch)
  | .map es => do
    let data ← (match es.lookup "data" with
      | none => .error (.key "data")
      | some v => decodeData bufs v)
    let field ← (match es.lookup "field" with
      | none => .error (.key "field")
      | some v => decodeField v)
    checkArgs es ["data", "field"]
    return { data := data, field := field }
  | _ => .error (.type "element must be a dict")

/-- A dictionary comprehension. -/
def decodeDict {α : Type} (f : Native → Except Python.Error α) (es : List (String × Native)) :
    Except Python.Error (Dict String α) :=
  es.foldlM (fun d e => do
    let x ← f e.2
    return d.set e.1 x) Dict.empty

/-- `_decode_mm_item`. -/
def decodeMmItem : Native → Except Python.Error (MultiModalKwargsItem torch)
  | .map es => decodeDict (decodeMmFieldElem bufs) es
  | _ => .error (.attribute "object has no attribute 'items'")

def decodeItemList : Native → Except Python.Error (List (MultiModalKwargsItem torch))
  | .array vs => vs.mapM (decodeMmItem bufs)
  | _ => .error (.type "object is not iterable")

/-- `_decode_mm_items`. -/
def decodeMmItems : Native → Except Python.Error (MultiModalKwargsItems torch)
  | .map es => decodeDict (decodeItemList bufs) es
  | _ => .error (.attribute "object has no attribute 'items'")

/-- `MsgpackDecoder.decode`. -/
def decode {W : Type} (codec : Msgpack W) (msg : Message W) :
    Except Python.Error (MultiModalKwargsItems torch) := do
  let v ← codec.decode msg.main
  decodeMmItems (msg.buffers codec) v

end Decoder

end VllmEngine.Serial
