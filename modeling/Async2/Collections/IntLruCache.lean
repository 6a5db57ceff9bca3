import Async2.Collections.CacheState

/-!
# Caches with integer keys

`IntLruCache` keeps its entries in an integer map by key and its nodes in a linked list, whose
values are the keys.
-/

namespace Async2.Collections

structure IntEntry where
  v : Cell
  n : NodeId
  e : Option Time
deriving DecidableEq

structure IntLruCache extends CacheState where
  data : Dict Cell IntEntry

namespace IntLruCache

def init (maxEntries ttlSeconds : Cell) : IntLruCache where
  toCacheState := .init maxEntries ttlSeconds
  data := .empty

/-- An entry is taken out because it has expired, or because it is the oldest. -/
def expire (c : IntLruCache) (key : Cell) (nodeId : NodeId) : IntLruCache where
  toCacheState := c.evict nodeId
  data := c.data.erase key

/-- `IntLruCache_EvictOldest_` -/
def evictOldest (c : IntLruCache) : IntLruCache :=
  let tail := c.lru.last
  if tail = 0 then c
  else c.expire (c.lru.getValue tail) tail

def setValue (c : IntLruCache) (now : Time) (key value : Cell) : Option IntLruCache :=
  match c.data.find key with
  | some entry =>
    some { c with
      lru := c.lru.moveToFront entry.n
      data := c.data.insert key
        { entry with v := value, e := stampEntry c.ttlMs now entry.e } }
  | none =>
    let (nodeId, lru) := c.lru.pushFront key
    let c := { c with
      lru := lru
      data := c.data.insert key ⟨value, nodeId, stampEntry c.ttlMs now none⟩ }
    evictLoop toCacheState (fun c => some c.evictOldest) (c.lru.elements.length + 1) c

def getValue (c : IntLruCache) (now : Time) (key : Cell) : Option Cell × IntLruCache :=
  match c.data.find key with
  | none => (none, { c with toCacheState := c.miss })
  | some entry =>
    if !checkStamp c.ttlMs entry.e now then
      let c := c.expire key entry.n
      (none, { c with toCacheState := c.miss })
    else (some entry.v, { c with toCacheState := c.hit entry.n })

def has (c : IntLruCache) (now : Time) (key : Cell) : Bool × IntLruCache :=
  match c.data.find key with
  | none => (false, c)
  | some entry =>
    if 0 < c.ttlMs.toInt && !checkStamp c.ttlMs entry.e now then (false, c.expire key entry.n)
    else (true, c)

def remove (c : IntLruCache) (key : Cell) : IntLruCache :=
  match c.data.find key with
  | none => c
  | some entry => { c with lru := c.lru.remove entry.n, data := c.data.erase key }

def look (now : Time) (node : NodeId) (c : IntLruCache) : Option (Option IntLruCache) := do
  let cacheKey := c.lru.getValue node
  let entry ← c.data.find cacheKey
  if !checkStamp c.ttlMs entry.e now then some (some (c.expire cacheKey node)) else some none

def evictExpired (c : IntLruCache) (now : Time) : Option (Cell × IntLruCache) :=
  evictExpiredWith toCacheState (look now) c

def call (c : IntLruCache) (now : Time) : CacheOp Cell -> Option (CacheAnswer × IntLruCache)
  | .setValue key value => do
    let c ← c.setValue now key value
    return (.done, c)
  | .getValue key =>
    let (value, c) := c.getValue now key
    some (.value value, c)
  | .has key =>
    let (found, c) := c.has now key
    some (.has found, c)
  | .remove key => some (.done, c.remove key)
  | .evictExpired => do
    let (count, c) ← c.evictExpired now
    return (.evicted count.toInt, c)

end IntLruCache

end Async2.Collections
