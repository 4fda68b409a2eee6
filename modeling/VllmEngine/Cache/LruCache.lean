import Mathlib.Data.List.Dedup
import VllmEngine.Lib.Dict

/-!
# The LRU cache

`LRUCache` of `vllm/utils/cache.py` on top of `cachetools.LRUCache`: values by key, the sum of
their sizes, and the order of the keys, least recently used first. `touch` also puts keys into the
order that have no value, so the order can have more keys than the cache.

Mirroring notes:
- `pop` of a key without a value changes nothing. When such a key comes first in the order, the
  loop that makes room in `__setitem__` never ends: here it is an error.
- Nothing is pinned; hits are not counted.
-/

namespace VllmEngine.Cache

variable {K V : Type} [DecidableEq K]

structure LruCache (K V : Type) where
  maxsize : Nat
  currsize : Nat
  order : List K
  data : Dict K V

/-- How `__setitem__` can fail to return: the value is larger than the cache, `popitem` finds
nothing to pop, or the loop does not end. -/
inductive LruError
  | valueTooLarge
  | allPinned
  | forever
deriving DecidableEq, Repr

namespace LruCache

def empty (maxsize : Nat) : LruCache K V :=
  { maxsize, currsize := 0, order := [], data := Dict.empty }

/-- `key in cache`. -/
def contains (c : LruCache K V) (key : K) : Bool := c.data.contains key

/-- `len(cache)`. -/
def length (c : LruCache K V) : Nat := c.data.size

def touch (c : LruCache K V) (key : K) : LruCache K V :=
  { c with order := c.order.erase key ++ [key] }

/-- `get`, and `__getitem__` of a key that is there: the key is touched. -/
def get (c : LruCache K V) (key : K) : Option V × LruCache K V :=
  match c.data.get? key with
  | some value => (some value, c.touch key)
  | none => (none, c)

/-- `pop` with a default. -/
def pop (getsizeof : V → Nat) (c : LruCache K V) (key : K) : LruCache K V :=
  match c.data.get? key with
  | some value =>
    { c with
      currsize := c.currsize - getsizeof value
      order := c.order.erase key
      data := c.data.erase key }
  | none => c

/-- `popitem`: the key that comes first in the order. -/
def popitem (getsizeof : V → Nat) (c : LruCache K V) : Except LruError (K × LruCache K V) :=
  match c.order with
  | [] => .error .allPinned
  | key :: _ => .ok (key, c.pop getsizeof key)

/-- The loop of `__setitem__` that makes room: the keys popped, and the cache. -/
def evict (getsizeof : V → Nat) (size : Nat) : Nat → LruCache K V → Except LruError (List K × LruCache K V)
  | 0, _ => .error .forever
  | fuel + 1, c =>
    if c.currsize + size ≤ c.maxsize then .ok ([], c)
    else
      match c.popitem getsizeof with
      | .error e => .error e
      | .ok (key, popped) =>
        match evict getsizeof size fuel popped with
        | .error e => .error e
        | .ok (keys, c') => .ok (key :: keys, c')

/-- The assignment of `__setitem__`, once there is room. -/
def assign (getsizeof : V → Nat) (c : LruCache K V) (key : K) (value : V) : LruCache K V :=
  { c with
    currsize := c.currsize + getsizeof value - (c.data.get? key).elim 0 getsizeof
    data := c.data.set key value }.touch key

/-- `__setitem__`. -/
def setItem (getsizeof : V → Nat) (c : LruCache K V) (key : K) (value : V) :
    Except LruError (List K × LruCache K V) :=
  let size := getsizeof value
  if c.maxsize < size then .error .valueTooLarge
  else if (c.data.get? key).elim true (fun old => decide (getsizeof old < size)) then
    match c.evict getsizeof size (c.order.length + 1) with
    | .error e => .error e
    | .ok (keys, c') => .ok (keys, c'.assign getsizeof key value)
  else .ok ([], c.assign getsizeof key value)

/-- `remove_oldest`: the key that is removed, if any. -/
def removeOldest (getsizeof : V → Nat) (c : LruCache K V) : Except LruError (Option K × LruCache K V) :=
  if c.length = 0 then .ok (none, c)
  else
    match c.popitem getsizeof with
    | .error e => .error e
    | .ok (key, c') => .ok (some key, c')

end LruCache

end VllmEngine.Cache
