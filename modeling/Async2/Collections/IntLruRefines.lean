import Async2.Collections.IntLruCache
import Async2.Collections.Keeps

/-!
# Caches with integer keys refine the reference

The cache has a node and an entry in its map for every row, and the reference has the rows in
the same order.  Every operation returns, with the answer of the reference.
-/

namespace Async2.Collections.IntLruCache

open List Option Reference

def entryOf (ttlMs : Cell) (row : Row Cell) : IntEntry :=
  ⟨row.value, row.id, stampOf ttlMs row.stamp⟩

/-- The cache with its rows, and the reference. -/
structure Refines (cap : Nat) (ttlMs : Cell) (rows : List (Row Cell)) (c : IntLruCache)
    (r : Reference Cell) : Prop where
  agrees : Agrees cap ttlMs Row.key rows c.toCacheState r
  data : Tabulates c.data Row.key (entryOf ttlMs) rows

/-- The cache and the reference give the same answer, and go on together. -/
structure Follows {A : Type} (cap : Nat) (ttlMs : Cell) (result : A × IntLruCache)
    (expected : A × Reference Cell) : Prop where
  answer_eq : result.1 = expected.1
  refines : exists rows, Refines cap ttlMs rows result.2 expected.2

variable {cap n : Nat} {ttlMs : Cell} {c : IntLruCache} {rows ys zs : List (Row Cell)}
variable {row last : Row Cell} {r : Reference Cell} {key value : Cell} {now : Time}
variable {entry : IntEntry}

theorem refines_init (cap ttlSeconds : Nat) :
    Refines cap (BitVec.ofNat 32 (1000 * ttlSeconds)) []
      (.init (BitVec.ofNat 32 cap) (BitVec.ofNat 32 ttlSeconds)) .init :=
  ⟨agrees_init cap ttlSeconds Row.key, .empty⟩

theorem Refines.expired_iff (h : Refines cap ttlMs rows c r) (row : Row Cell) :
    (!checkStamp c.ttlMs (entryOf ttlMs row).e now) = expired ttlMs row.stamp now :=
  h.agrees.expired_iff

theorem Refines.expire (h : Refines cap ttlMs (ys ++ row :: zs) c r) :
    Refines cap ttlMs (ys ++ zs) (c.expire row.key row.id) (r.expire row.key) :=
  ⟨h.agrees.evict, h.data.middle.erase⟩

/-!
## Getting values
-/

section

variable (h : Refines cap ttlMs rows c r)
include h

theorem Refines.getValue (now : Time) (key : Cell) :
    Follows cap ttlMs (c.getValue now key)
      (r.getValue (fun stamp => expired ttlMs stamp now) key) := by
  unfold IntLruCache.getValue
  cases hfind : c.data.find key with
  | none =>
    rw [getValue_of_none (h.agrees.find_none (h.data.find_eq_none.mp hfind))]
    exact ⟨rfl, rows, h.agrees.miss, h.data⟩
  | some entry =>
    rcases h.data.split hfind with ⟨ys, row, zs, rfl, rfl, rfl⟩
    dsimp only
    rw [h.expired_iff row]
    cases hexpired : expired ttlMs row.stamp now with
    | true =>
      rw [getValue_of_expired h.agrees.find_split hexpired]
      exact ⟨rfl, ys ++ zs, h.expire.agrees.miss, h.expire.data⟩
    | false =>
      rw [getValue_of_fresh h.agrees.find_split hexpired]
      exact ⟨rfl, row :: (ys ++ zs), h.agrees.hit, h.data.middle⟩

theorem Refines.has (now : Time) (key : Cell) :
    Follows cap ttlMs (c.has now key) (r.has (fun stamp => expired ttlMs stamp now) key) := by
  unfold IntLruCache.has
  cases hfind : c.data.find key with
  | none =>
    rw [has_of_none (h.agrees.find_none (h.data.find_eq_none.mp hfind))]
    exact ⟨rfl, rows, h⟩
  | some entry =>
    rcases h.data.split hfind with ⟨ys, row, zs, rfl, rfl, rfl⟩
    dsimp only
    rw [h.expired_iff row]
    cases hexpired : expired ttlMs row.stamp now with
    | true =>
      rw [has_of_expired h.agrees.find_split hexpired, decide_eq_true (h.agrees.enabled hexpired)]
      exact ⟨rfl, ys ++ zs, h.expire⟩
    | false =>
      rw [has_of_fresh h.agrees.find_split hexpired, Bool.and_false]
      exact ⟨rfl, _, h⟩

theorem Refines.remove (key : Cell) :
    exists rows', Refines cap ttlMs rows' (c.remove key) (r.remove key) := by
  unfold IntLruCache.remove
  cases hfind : c.data.find key with
  | none =>
    rw [h.agrees.remove_of_not_mem (h.data.find_eq_none.mp hfind)]
    exact ⟨rows, h⟩
  | some entry =>
    rcases h.data.split hfind with ⟨ys, row, zs, rfl, rfl, rfl⟩
    exact ⟨ys ++ zs, h.agrees.remove, h.data.middle.erase⟩

end

/-!
## Setting values
-/

def inserted (c : IntLruCache) (now : Time) (key value : Cell) : IntLruCache :=
  { c with
    lru := (c.lru.pushFront key).2
    data := c.data.insert key ⟨value, (c.lru.pushFront key).1, stampEntry c.ttlMs now none⟩ }

def newRow (c : IntLruCache) (now : Time) (key value : Cell) : Row Cell :=
  ⟨(c.lru.pushFront key).1, key, value, now⟩

theorem Refines.data_inserted (h : Refines cap ttlMs rows c r) (hkey : key ∉ rows.map Row.key) :
    Tabulates (c.inserted now key value).data Row.key (entryOf ttlMs)
      (c.newRow now key value :: rows) := by
  have hnew : (c.newRow now key value).key ∉ rows.map Row.key := hkey
  have hinsert := h.data.insert hnew
  unfold inserted
  rw [h.agrees.ttlMs_eq]
  exact hinsert

theorem evictOldest_of_last (hshaped : Shaped cap Row.key (ys ++ [last]) c.lru) :
    c.evictOldest = c.expire last.key last.id := by
  have hne : last.id ≠ 0 := hshaped.listed.ne_zero (by simp)
  have hvalue := hshaped.listed.getValue
  unfold IntLruCache.evictOldest
  rw [hshaped.listed.last_eq, lastId_concat, if_neg hne, hvalue]

theorem Refines.update (h : Refines cap ttlMs (ys ++ row :: zs) c r) :
    Refines cap ttlMs (row.set value now :: (ys ++ zs))
      { c with
        lru := c.lru.moveToFront row.id
        data := c.data.insert row.key
          { entryOf ttlMs row with
            v := value, e := stampEntry c.ttlMs now (entryOf ttlMs row).e } }
      (r.setValue cap now row.key value) := by
  refine ⟨h.agrees.update rfl, ?_⟩
  have hentry : ({ entryOf ttlMs row with
      v := value, e := stampEntry c.ttlMs now (entryOf ttlMs row).e } : IntEntry) =
      entryOf ttlMs (row.set value now) := by
    unfold entryOf
    rw [h.agrees.ttlMs_eq, stampEntry_stampOf]
    rfl
  have hdata : Tabulates (c.data.insert (row.set value now).key
      (entryOf ttlMs (row.set value now))) Row.key (entryOf ttlMs)
      (row.set value now :: (ys ++ zs)) := h.data.middle.replace rfl
  rw [hentry]
  exact hdata

theorem Refines.setValue (h : Refines cap ttlMs rows c r) (hcap : cap + 1 < 2 ^ 31)
    (now : Time) (key value : Cell) :
    exists c' rows', c.setValue now key value = some c' ∧
      Refines cap ttlMs rows' c' (r.setValue cap now key value) := by
  unfold IntLruCache.setValue
  cases hfind : c.data.find key with
  | some entry =>
    rcases h.data.split hfind with ⟨ys, row, zs, rfl, rfl, rfl⟩
    exact ⟨_, _, rfl, h.update⟩
  | none =>
    have hkey : key ∉ rows.map Row.key := h.data.find_eq_none.mp hfind
    have hshaped : Shaped cap Row.key (c.newRow now key value :: rows)
        (c.inserted now key value).lru := h.agrees.toKeeps.pushFront hcap rfl
    have hdata : Tabulates (c.inserted now key value).data Row.key (entryOf ttlMs)
        (c.newRow now key value :: rows) := h.data_inserted hkey
    have hfuel : (c.inserted now key value).lru.elements.length = rows.length + 1 := by
      rw [hshaped.listed.elements_eq, length_map, length_cons]
    change exists c' rows', evictLoop toCacheState (fun c => some c.evictOldest)
      ((c.inserted now key value).lru.elements.length + 1) (c.inserted now key value) =
        some c' ∧ _
    rw [hfuel]
    by_cases hroom : rows.length < cap
    · exact ⟨_, _, evictLoop_of_room hshaped h.agrees.maxEntries_eq (by omega) hroom,
        h.agrees.insert hcap hkey rfl hroom, hdata⟩
    · rcases h.agrees.split_last (c.newRow now key value) hroom with ⟨ys, last, hsplit, hfull⟩
      rw [hsplit] at hshaped hdata
      have herase := (hdata.of_perm perm_middle.symm).erase
      rw [append_nil] at herase
      have hevict : some (c.inserted now key value).evictOldest =
          some ((c.inserted now key value).expire last.key last.id) :=
        congrArg some (evictOldest_of_last hshaped)
      exact ⟨_, ys, evictLoop_of_full hshaped h.agrees.maxEntries_eq hcap hfull hevict rfl,
        h.agrees.replace hcap hkey rfl hsplit hfull, herase⟩

/-!
## The sweep
-/

theorem Refines.look (h : Refines cap ttlMs (ys ++ row :: zs) c r) (now : Time) :
    IntLruCache.look now row.id c =
      if expired ttlMs row.stamp now then some (some (c.expire row.key row.id))
      else some none := by
  have hentry : c.data.find row.key = some (entryOf ttlMs row) :=
    h.data.middle.find_of_mem mem_cons_self
  unfold IntLruCache.look
  rw [h.agrees.shaped.listed.getValue]
  dsimp only
  rw [hentry, some_bind, h.expired_iff row]

variable (h : Refines cap ttlMs rows c r) (hcap : cap + 1 < 2 ^ 31)
include h hcap

theorem Refines.evictExpired (now : Time) :
    exists count c', c.evictExpired now = some (count, c') ∧
      count.toInt = (r.evictExpired fun stamp => expired ttlMs stamp now).1 ∧
      Refines cap ttlMs (rows.filter fun row => !expired ttlMs row.stamp now) c'
        (r.evictExpired fun stamp => expired ttlMs stamp now).2 := by
  apply evictExpiredWith_of_agrees toCacheState (IntLruCache.look now) (Refines cap ttlMs) now
    (fun rows c r hinv => hinv.agrees) _ (by omega) h
  exact fun ys row zs c r hinv =>
    ⟨_, hinv.look now, fun r' hr' => ⟨hr', hinv.data.middle.erase⟩⟩

/-!
## Calls
-/

theorem Refines.call (now : Time) (op : CacheOp Cell) :
    exists c', c.call now op = some ((r.call cap (expired ttlMs) now op).1, c') ∧
      exists rows', Refines cap ttlMs rows' c' (r.call cap (expired ttlMs) now op).2 := by
  cases op with
  | setValue key value =>
    rcases h.setValue hcap now key value with ⟨c', rows', hset, hrefines⟩
    refine ⟨c', ?_, rows', hrefines⟩
    rw [IntLruCache.call, hset]
    rfl
  | getValue key =>
    have hget := h.getValue now key
    refine ⟨(c.getValue now key).2, ?_, hget.refines⟩
    change some (CacheAnswer.value (c.getValue now key).1, _) = _
    rw [hget.answer_eq]
    rfl
  | has key =>
    have hhas := h.has now key
    refine ⟨(c.has now key).2, ?_, hhas.refines⟩
    change some (CacheAnswer.has (c.has now key).1, _) = _
    rw [hhas.answer_eq]
    rfl
  | remove key =>
    rcases h.remove key with ⟨rows', hrefines⟩
    exact ⟨c.remove key, rfl, rows', hrefines⟩
  | evictExpired =>
    rcases h.evictExpired hcap now with ⟨count, c', hevict, hcount, hrefines⟩
    refine ⟨c', ?_, _, hrefines⟩
    rw [IntLruCache.call, hevict]
    exact congrArg (fun n => some (CacheAnswer.evicted n, c')) hcount

end Async2.Collections.IntLruCache
