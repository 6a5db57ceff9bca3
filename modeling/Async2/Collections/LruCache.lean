import Async2.Collections.CacheState
import Async2.Foundation.BigEndian

/-!
# Caches with string keys

`LruCache` keeps its entries in an integer map by the id of their node, and a mapping from keys
to ids in the same map at -1.  The entries have their keys, which are read into buffers of
`LRU_MAX_KEY_LENGTH` bytes when an entry is evicted.
-/

namespace Async2.Collections

def lruMaxKeyLength : Nat := 256

/-- `GetString` into a buffer, which is as long as it may be and ends with a NUL. -/
def getString (maxlen : Nat) (text : Bytes) : Bytes := text.take (maxlen - 1)

structure LruEntry where
  k : Bytes
  v : Cell
  e : Option Time
deriving DecidableEq

/-- The mapping is kept apart from the entries of `data`. -/
structure LruCache extends CacheState where
  mapping : Dict Bytes NodeId
  data : Dict NodeId LruEntry

namespace LruCache

def init (maxEntries ttlSeconds : Cell) : LruCache where
  toCacheState := .init maxEntries ttlSeconds
  mapping := .empty
  data := .empty

/-- An entry is taken out because it has expired, or because it is the oldest. -/
def expire (c : LruCache) (key : Bytes) (nodeId : NodeId) : LruCache where
  toCacheState := c.evict nodeId
  mapping := c.mapping.erase key
  data := c.data.erase nodeId

def evictOldest (c : LruCache) : Option LruCache :=
  let tail := c.lru.last
  if tail = 0 then some c
  else do
    let entry ← c.data.find tail
    return c.expire (getString lruMaxKeyLength entry.k) tail

/-- An entry that is there already. -/
def update (c : LruCache) (now : Time) (nodeId : NodeId) (value : Cell) : Option LruCache := do
  let entry ← c.data.find nodeId
  return { c with
    lru := c.lru.moveToFront nodeId
    data := c.data.insert nodeId
      { entry with v := value, e := stampEntry c.ttlMs now entry.e } }

def setValue (c : LruCache) (now : Time) (key : Bytes) (value : Cell) : Option LruCache :=
  match c.mapping.find key with
  | some nodeId => c.update now nodeId value
  | none =>
    let (nodeId, lru) := c.lru.pushFront 0
    -- `SetObject` would replace the mapping
    if nodeId = -1 then none
    else
      let c := { c with
        lru := lru
        data := c.data.insert nodeId ⟨key, value, stampEntry c.ttlMs now none⟩
        mapping := c.mapping.insert key nodeId }
      evictLoop toCacheState evictOldest (c.lru.elements.length + 1) c

def getValue (c : LruCache) (now : Time) (key : Bytes) : Option (Option Cell × LruCache) :=
  match c.mapping.find key with
  | none => some (none, { c with toCacheState := c.miss })
  | some nodeId => do
    let entry ← c.data.find nodeId
    if !checkStamp c.ttlMs entry.e now then
      let c := c.expire key nodeId
      some (none, { c with toCacheState := c.miss })
    else some (some entry.v, { c with toCacheState := c.hit nodeId })

def has (c : LruCache) (now : Time) (key : Bytes) : Option (Bool × LruCache) :=
  match c.mapping.find key with
  | none => some (false, c)
  | some nodeId =>
    if 0 < c.ttlMs.toInt then do
      let entry ← c.data.find nodeId
      if !checkStamp c.ttlMs entry.e now then some (false, c.expire key nodeId)
      else some (true, c)
    else some (true, c)

def remove (c : LruCache) (key : Bytes) : LruCache :=
  match c.mapping.find key with
  | none => c
  | some nodeId =>
    { c with
      mapping := c.mapping.erase key
      data := c.data.erase nodeId
      lru := c.lru.remove nodeId }

def look (now : Time) (node : NodeId) (c : LruCache) : Option (Option LruCache) := do
  let entry ← c.data.find node
  if !checkStamp c.ttlMs entry.e now then
    some (some (c.expire (getString lruMaxKeyLength entry.k) node))
  else some none

def evictExpired (c : LruCache) (now : Time) : Option (Cell × LruCache) :=
  evictExpiredWith toCacheState (look now) c

def call (c : LruCache) (now : Time) : CacheOp Bytes -> Option (CacheAnswer × LruCache)
  | .setValue key value => do
    let c ← c.setValue now key value
    return (.done, c)
  | .getValue key => do
    let (value, c) ← c.getValue now key
    return (.value value, c)
  | .has key => do
    let (found, c) ← c.has now key
    return (.has found, c)
  | .remove key => some (.done, c.remove key)
  | .evictExpired => do
    let (count, c) ← c.evictExpired now
    return (.evicted count.toInt, c)

end LruCache

end Async2.Collections
