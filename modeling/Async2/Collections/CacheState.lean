import Async2.Collections.Rows

/-!
# What both kinds of caches have

The fields of a cache without its data, the stamps of its entries, and the loops of the
setters and of `EvictExpired`, which are the same for integer and string keys.  `GetObject` of
a key that is missing gives no entry, and the natives on it are errors, which end the call
without a result; so does a loop that runs out of fuel.

The time is read once in a call.
-/

namespace Async2.Collections

/-!
## Stamps
-/

/-- `Timestamp.ElapsedMs`, the difference of the low words. -/
def elapsedMs (stamp now : Time) : Cell := now.setWidth 32 - stamp.setWidth 32

/-- `LruCache_CheckStamp_`: the entry is within its time; a missing stamp is read as 0. -/
def checkStamp (ttlMs : Cell) (e : Option Time) (now : Time) : Bool :=
  if ttlMs.toInt <= 0 then true
  else (elapsedMs (e.getD 0) now).toInt < ttlMs.toInt

def expired (ttlMs : Cell) (stamp now : Time) : Bool := !checkStamp ttlMs (some stamp) now

def stampEntry (ttlMs : Cell) (now : Time) (e : Option Time) : Option Time :=
  if 0 < ttlMs.toInt then some now else e

/-- The stamp of an entry, which has none without a time to live. -/
def stampOf (ttlMs : Cell) (stamp : Time) : Option Time :=
  if 0 < ttlMs.toInt then some stamp else none

variable {ttlMs : Cell}

theorem stampEntry_stampOf (ttlMs : Cell) (now stamp : Time) :
    stampEntry ttlMs now (stampOf ttlMs stamp) = stampOf ttlMs now := by
  unfold stampEntry stampOf
  split
  · rfl
  · rfl

theorem eq_of_stampOf {stamp stamp' : Time} (h : stampOf ttlMs stamp = some stamp') :
    stamp = stamp' := by
  unfold stampOf at h
  split at h
  · exact Option.some.inj h
  · cases h

theorem not_checkStamp (ttlMs : Cell) (stamp now : Time) :
    (!checkStamp ttlMs (stampOf ttlMs stamp) now) = expired ttlMs stamp now := by
  unfold expired checkStamp stampOf
  by_cases httl : ttlMs.toInt <= 0
  · rw [if_pos httl, if_pos httl]
  · rw [if_pos (Int.not_le.mp httl)]

theorem expired_of_disabled (httl : ttlMs.toInt <= 0) (stamp now : Time) :
    expired ttlMs stamp now = false := by
  unfold expired checkStamp
  rw [if_pos httl]
  rfl

theorem enabled_of_expired {stamp now : Time} (hexpired : expired ttlMs stamp now = true) :
    0 < ttlMs.toInt := by
  by_contra hnot
  rw [expired_of_disabled (Int.not_lt.mp hnot)] at hexpired
  cases hexpired

/-!
## States
-/

/-- The fields of a cache without `data`. -/
structure CacheState where
  lru : NodeList
  maxEntries : Cell
  ttlMs : Cell
  evictions : Cell
  hits : Cell
  misses : Cell

namespace CacheState

def init (maxEntries ttlSeconds : Cell) : CacheState where
  lru := .create
  maxEntries := maxEntries
  ttlMs := ttlSeconds * 1000
  evictions := 0
  hits := 0
  misses := 0

/-- The node of an entry that is evicted is taken out. -/
def evict (s : CacheState) (nodeId : NodeId) : CacheState :=
  { s with lru := s.lru.remove nodeId, evictions := s.evictions + 1 }

def hit (s : CacheState) (nodeId : NodeId) : CacheState :=
  { s with lru := s.lru.moveToFront nodeId, hits := s.hits + 1 }

def miss (s : CacheState) : CacheState := { s with misses := s.misses + 1 }

def size (s : CacheState) : Cell := s.lru.size

end CacheState

/-!
## Loops
-/

section

variable {C : Type} (state : C -> CacheState)

def evictLoop (evictOldest : C -> Option C) : Nat -> C -> Option C
  | 0, _ => none
  | fuel + 1, c =>
    if (state c).maxEntries.toInt < (state c).lru.size.toInt then
      (evictOldest c).bind (evictLoop evictOldest fuel)
    else some c

/-- The loop of `EvictExpired`.  The entry of a node is looked at, which gives the cache
without it if it has expired. -/
def evictExpiredLoop (look : NodeId -> C -> Option (Option C)) :
    Nat -> NodeId -> Cell -> C -> Option (Cell × C)
  | 0, _, _, _ => none
  | fuel + 1, node, count, c =>
    if node = 0 then some (count, c)
    else
      let prev := (state c).lru.prev node
      match look node c with
      | none => none
      | some none => evictExpiredLoop look fuel prev count c
      | some (some c) => evictExpiredLoop look fuel prev (count + 1) c

def evictExpiredWith (look : NodeId -> C -> Option (Option C)) (c : C) : Option (Cell × C) :=
  if (state c).ttlMs.toInt <= 0 then some (0, c)
  else
    evictExpiredLoop state look ((state c).lru.elements.length + 1) (state c).lru.last 0 c

end

def runCalls {C K : Type} (call : C -> Time -> CacheOp K -> Option (CacheAnswer × C)) :
    List (Time × CacheOp K) -> C -> Option (List CacheAnswer × C)
  | [], c => some ([], c)
  | (now, op) :: rest, c => do
    let (answer, c) ← call c now op
    let (answers, c) ← runCalls call rest c
    return (answer :: answers, c)

/-- The caches that operations lead to; an error leaves a cache as it is. -/
inductive Called {C K : Type} (call : C -> Time -> CacheOp K -> Option (CacheAnswer × C))
    (start : C) : C -> Prop where
  | start : Called call start start
  | call {c : C} (now : Time) (op : CacheOp K) :
      Called call start c -> Called call start (((call c now op).map Prod.snd).getD c)

end Async2.Collections
