import Async2.Collections.LruCache
import Async2.Collections.Keeps

/-!
# Caches with string keys refine the reference

The cache has a node and an entry for every row, whatever the keys are.  As long as the keys
fit into the buffers of the evictions, it also has the keys of the rows in its mapping, and the
reference has the rows in the same order.
-/

namespace Async2.Collections.LruCache

open List Option Reference

def entryOf (ttlMs : Cell) (row : Row Bytes) : LruEntry :=
  ⟨row.key, row.value, stampOf ttlMs row.stamp⟩

def noValue (_ : Row Bytes) : Cell := 0

/-!
## Nodes and entries
-/

/-- The rows of a cache. -/
structure Holds (cap : Nat) (ttlMs : Cell) (rows : List (Row Bytes)) (c : LruCache) : Prop where
  keeps : Keeps cap ttlMs noValue rows c.toCacheState
  data : Tabulates c.data Row.id (entryOf ttlMs) rows

def inserted (c : LruCache) (now : Time) (key : Bytes) (value : Cell) : LruCache :=
  { c with
    lru := (c.lru.pushFront 0).2
    data := c.data.insert (c.lru.pushFront 0).1 ⟨key, value, stampEntry c.ttlMs now none⟩
    mapping := c.mapping.insert key (c.lru.pushFront 0).1 }

def newRow (c : LruCache) (now : Time) (key : Bytes) (value : Cell) : Row Bytes :=
  ⟨(c.lru.pushFront 0).1, key, value, now⟩

def updated (c : LruCache) (row : Row Bytes) (ttlMs : Cell) : LruCache :=
  { c with
    lru := c.lru.moveToFront row.id
    data := c.data.insert row.id (entryOf ttlMs row) }

section

variable {cap : Nat} {ttlMs : Cell} {c c' : LruCache} {rows ys zs : List (Row Bytes)}
variable {row last : Row Bytes} {key : Bytes} {value : Cell} {now : Time} {entry : LruEntry}
variable {id : NodeId}

theorem holds_init (cap ttlSeconds : Nat) :
    Holds cap (BitVec.ofNat 32 (1000 * ttlSeconds)) []
      (.init (BitVec.ofNat 32 cap) (BitVec.ofNat 32 ttlSeconds)) :=
  ⟨keeps_init cap ttlSeconds noValue, .empty⟩

theorem Holds.find_middle (h : Holds cap ttlMs (ys ++ row :: zs) c) :
    c.data.find row.id = some (entryOf ttlMs row) :=
  h.data.middle.find_of_mem mem_cons_self

theorem Holds.expired_iff (h : Holds cap ttlMs rows c) (row : Row Bytes) :
    (!checkStamp c.ttlMs (entryOf ttlMs row).e now) = expired ttlMs row.stamp now :=
  h.keeps.expired_iff

section

variable (h : Holds cap ttlMs (ys ++ row :: zs) c)
include h

theorem Holds.expire (key : Bytes) : Holds cap ttlMs (ys ++ zs) (c.expire key row.id) :=
  ⟨h.keeps.remove rfl rfl rfl, h.data.middle.erase⟩

theorem Holds.updated (value : Cell) (now : Time) :
    Holds cap ttlMs (row.set value now :: (ys ++ zs)) (c.updated (row.set value now) ttlMs) :=
  ⟨h.keeps.moveToFront rfl rfl rfl rfl rfl, h.data.middle.replace rfl⟩

theorem Holds.update_eq (value : Cell) (now : Time) :
    c.update now row.id value = some (c.updated (row.set value now) ttlMs) := by
  have hentry : ({ entryOf ttlMs row with
      v := value, e := stampEntry c.ttlMs now (entryOf ttlMs row).e } : LruEntry) =
      entryOf ttlMs (row.set value now) := by
    unfold entryOf
    rw [h.keeps.ttlMs_eq, stampEntry_stampOf]
    rfl
  unfold LruCache.update LruCache.updated
  rw [h.find_middle, some_bind, hentry]
  rfl

theorem Holds.look (now : Time) :
    LruCache.look now row.id c =
      if expired ttlMs row.stamp now then
        some (some (c.expire (getString lruMaxKeyLength row.key) row.id))
      else some none := by
  unfold LruCache.look
  rw [h.find_middle, some_bind, h.expired_iff row]
  rfl

end

section

variable (h : Holds cap ttlMs rows c) (hcap : cap + 1 < 2 ^ 31)
include h hcap

theorem Holds.pushFront (now : Time) (key : Bytes) (value : Cell) :
    Shaped cap noValue (c.newRow now key value :: rows) (c.inserted now key value).lru :=
  h.keeps.pushFront hcap rfl

theorem Holds.id_ne : (c.lru.pushFront 0).1 ≠ -1 := by
  have hle := (h.pushFront hcap 0 [] 0).id_le hcap mem_cons_self
  intro hid
  have hnat : (newRow c 0 [] 0).id.toNat = 2 ^ 32 - 1 := by
    change (c.lru.pushFront 0).1.toNat = _
    rw [hid]
    rfl
  omega

theorem Holds.data_inserted :
    Tabulates (c.inserted now key value).data Row.id (entryOf ttlMs)
      (c.newRow now key value :: rows) := by
  have hnew : (c.newRow now key value).id ∉ rows.map Row.id :=
    (h.pushFront hcap now key value).listed.id_not_mem
  have hinsert := h.data.insert hnew
  unfold inserted
  rw [h.keeps.ttlMs_eq]
  exact hinsert

end

/-- The oldest entry is evicted under what its buffer has of the key. -/
theorem evictOldest_of_last (hshaped : Shaped cap noValue (ys ++ [last]) c.lru)
    (hdata : Tabulates c.data Row.id (entryOf ttlMs) (ys ++ [last])) :
    c.evictOldest = some (c.expire (getString lruMaxKeyLength last.key) last.id) := by
  have hne : last.id ≠ 0 := hshaped.listed.ne_zero (by simp)
  have hfind : c.data.find last.id = some (entryOf ttlMs last) :=
    hdata.find_of_mem (by simp)
  unfold LruCache.evictOldest
  rw [hshaped.listed.last_eq, lastId_concat]
  dsimp only
  rw [if_neg hne, hfind]
  rfl

section

variable (h : Holds cap ttlMs rows c) (hcap : cap + 1 < 2 ^ 31) (hfind : c.mapping.find key = none)
include h hcap hfind

theorem setValue_of_none :
    c.setValue now key value = evictLoop toCacheState evictOldest (rows.length + 2)
      (c.inserted now key value) := by
  have hshaped : Shaped cap noValue (c.newRow now key value :: rows)
      (c.inserted now key value).lru := h.pushFront hcap now key value
  have hfuel : (c.inserted now key value).lru.elements.length = rows.length + 1 := by
    rw [hshaped.listed.elements_eq, length_map, length_cons]
  unfold LruCache.setValue
  rw [hfind]
  dsimp only
  rw [if_neg (h.id_ne hcap)]
  change evictLoop toCacheState evictOldest ((c.inserted now key value).lru.elements.length + 1)
    (c.inserted now key value) = _
  rw [hfuel]

theorem Holds.setValue_of_room (hroom : rows.length < cap) :
    c.setValue now key value = some (c.inserted now key value) := by
  rw [setValue_of_none h hcap hfind]
  exact evictLoop_of_room (h.pushFront hcap now key value) h.keeps.maxEntries_eq (by omega) hroom

theorem Holds.setValue_of_full (hsplit : c.newRow now key value :: rows = ys ++ [last])
    (hfull : ys.length = cap) :
    c.setValue now key value =
      some ((c.inserted now key value).expire (getString lruMaxKeyLength last.key) last.id) := by
  have hshaped : Shaped cap noValue (c.newRow now key value :: rows)
      (c.inserted now key value).lru := h.pushFront hcap now key value
  have hdata : Tabulates (c.inserted now key value).data Row.id (entryOf ttlMs)
      (c.newRow now key value :: rows) := h.data_inserted hcap
  rw [hsplit] at hshaped hdata
  rw [setValue_of_none h hcap hfind]
  exact evictLoop_of_full hshaped h.keeps.maxEntries_eq hcap hfull
    (evictOldest_of_last hshaped hdata) rfl

end

theorem tabulates_last {K V : Type} [DecidableEq K] {d : Dict K V} {f : Row Bytes -> K}
    {g : Row Bytes -> V} (h : Tabulates d f g (ys ++ [last])) :
    Tabulates (d.erase (f last)) f g ys := by
  have herase := (h.of_perm perm_middle.symm).erase
  rw [append_nil] at herase
  exact herase

end

/-!
## Refinement
-/

/-- The cache with its rows, and the reference. -/
structure Refines (cap : Nat) (ttlMs : Cell) (rows : List (Row Bytes)) (c : LruCache)
    (r : Reference Bytes) : Prop where
  agrees : Agrees cap ttlMs noValue rows c.toCacheState r
  data : Tabulates c.data Row.id (entryOf ttlMs) rows
  mapping : Tabulates c.mapping Row.key Row.id rows
  fits : forall row, row ∈ rows -> row.key.length < lruMaxKeyLength

/-- The operation returns the answer of the reference, and both go on together. -/
def Follows {A : Type} (cap : Nat) (ttlMs : Cell) (result : Option (A × LruCache))
    (expected : A × Reference Bytes) : Prop :=
  exists c, result = some (expected.1, c) ∧ exists rows, Refines cap ttlMs rows c expected.2

variable {cap n : Nat} {ttlMs : Cell} {c : LruCache} {rows ys zs : List (Row Bytes)}
variable {row last : Row Bytes} {r : Reference Bytes} {key : Bytes} {value : Cell} {now : Time}
variable {id : NodeId}

theorem refines_init (cap ttlSeconds : Nat) :
    Refines cap (BitVec.ofNat 32 (1000 * ttlSeconds)) []
      (.init (BitVec.ofNat 32 cap) (BitVec.ofNat 32 ttlSeconds)) .init :=
  ⟨agrees_init cap ttlSeconds noValue, .empty, .empty,
    fun _ hrow => absurd hrow not_mem_nil⟩

theorem Refines.holds (h : Refines cap ttlMs rows c r) : Holds cap ttlMs rows c :=
  ⟨h.agrees.toKeeps, h.data⟩

section

variable (h : Refines cap ttlMs (ys ++ row :: zs) c r)
include h

theorem Refines.fits_rest : forall row', row' ∈ ys ++ zs -> row'.key.length < lruMaxKeyLength := by
  intro row' hrow'
  apply h.fits
  rcases mem_append.mp hrow' with hys | hzs
  · exact mem_append_left _ hys
  · exact mem_append_right _ (mem_cons_of_mem _ hzs)

theorem Refines.fits_middle {row' : Row Bytes} (hkey : row'.key = row.key) :
    forall row2, row2 ∈ row' :: (ys ++ zs) -> row2.key.length < lruMaxKeyLength := by
  intro row2 hrow2
  rcases mem_cons.mp hrow2 with rfl | hrest
  · rw [hkey]
    exact h.fits row (mem_append_right _ mem_cons_self)
  · exact h.fits_rest row2 hrest

end

theorem getString_of_fits {text : Bytes} (hfits : text.length < lruMaxKeyLength) :
    getString lruMaxKeyLength text = text :=
  take_of_length_le (Nat.le_pred_of_lt hfits)

theorem Refines.expire (h : Refines cap ttlMs (ys ++ row :: zs) c r) :
    Refines cap ttlMs (ys ++ zs) (c.expire row.key row.id) (r.expire row.key) :=
  ⟨h.agrees.evict, h.data.middle.erase, h.mapping.middle.erase, h.fits_rest⟩

/-!
## Getting values
-/

section

variable (h : Refines cap ttlMs rows c r)
include h

theorem Refines.getValue (now : Time) (key : Bytes) :
    Follows cap ttlMs (c.getValue now key)
      (r.getValue (fun stamp => expired ttlMs stamp now) key) := by
  unfold LruCache.getValue
  cases hfind : c.mapping.find key with
  | none =>
    rw [getValue_of_none (h.agrees.find_none (h.mapping.find_eq_none.mp hfind))]
    exact ⟨_, rfl, rows, h.agrees.miss, h.data, h.mapping, h.fits⟩
  | some id =>
    rcases h.mapping.split hfind with ⟨ys, row, zs, rfl, rfl, rfl⟩
    dsimp only
    rw [h.holds.find_middle, some_bind, h.holds.expired_iff row]
    cases hexpired : expired ttlMs row.stamp now with
    | true =>
      rw [getValue_of_expired h.agrees.find_split hexpired]
      exact ⟨_, rfl, ys ++ zs, h.expire.agrees.miss, h.expire.data, h.expire.mapping, h.fits_rest⟩
    | false =>
      rw [getValue_of_fresh h.agrees.find_split hexpired]
      exact ⟨_, rfl, row :: (ys ++ zs), h.agrees.hit, h.data.middle,
        h.mapping.middle, h.fits_middle rfl⟩

theorem Refines.has (now : Time) (key : Bytes) :
    Follows cap ttlMs (c.has now key) (r.has (fun stamp => expired ttlMs stamp now) key) := by
  unfold LruCache.has
  cases hfind : c.mapping.find key with
  | none =>
    rw [has_of_none (h.agrees.find_none (h.mapping.find_eq_none.mp hfind))]
    exact ⟨c, rfl, rows, h⟩
  | some id =>
    rcases h.mapping.split hfind with ⟨ys, row, zs, rfl, rfl, rfl⟩
    dsimp only
    rw [h.holds.find_middle, some_bind, h.holds.expired_iff row]
    cases hexpired : expired ttlMs row.stamp now with
    | true =>
      rw [has_of_expired h.agrees.find_split hexpired, if_pos (h.agrees.enabled hexpired)]
      exact ⟨_, rfl, ys ++ zs, h.expire⟩
    | false =>
      rw [has_of_fresh h.agrees.find_split hexpired]
      exact ⟨c, ite_self _, _, h⟩

theorem Refines.remove (key : Bytes) :
    exists rows', Refines cap ttlMs rows' (c.remove key) (r.remove key) := by
  unfold LruCache.remove
  cases hfind : c.mapping.find key with
  | none =>
    rw [h.agrees.remove_of_not_mem (h.mapping.find_eq_none.mp hfind)]
    exact ⟨rows, h⟩
  | some id =>
    rcases h.mapping.split hfind with ⟨ys, row, zs, rfl, rfl, rfl⟩
    exact ⟨ys ++ zs, h.agrees.remove, h.data.middle.erase, h.mapping.middle.erase, h.fits_rest⟩

/-!
## Setting values
-/

theorem Refines.mapping_inserted (hkey : key ∉ rows.map Row.key) :
    Tabulates (c.inserted now key value).mapping Row.key Row.id
      (c.newRow now key value :: rows) := by
  have hnew : (c.newRow now key value).key ∉ rows.map Row.key := hkey
  exact h.mapping.insert hnew

theorem Refines.setValue (hcap : cap + 1 < 2 ^ 31) (now : Time) (key : Bytes)
    (hlength : key.length < lruMaxKeyLength) (value : Cell) :
    exists c' rows', c.setValue now key value = some c' ∧
      Refines cap ttlMs rows' c' (r.setValue cap now key value) := by
  cases hfind : c.mapping.find key with
  | some id =>
    rcases h.mapping.split hfind with ⟨ys, row, zs, rfl, rfl, rfl⟩
    unfold LruCache.setValue
    rw [hfind]
    refine ⟨_, _, h.holds.update_eq value now, h.agrees.update rfl,
      (h.holds.updated value now).data, ?_, h.fits_middle rfl⟩
    exact h.mapping.middle.congr_row rfl rfl
  | none =>
    have hkey : key ∉ rows.map Row.key := h.mapping.find_eq_none.mp hfind
    have hdata : Tabulates (c.inserted now key value).data Row.id (entryOf ttlMs)
        (c.newRow now key value :: rows) := h.holds.data_inserted hcap
    have hmapping : Tabulates (c.inserted now key value).mapping Row.key Row.id
        (c.newRow now key value :: rows) := h.mapping_inserted hkey
    have hfits : forall row, row ∈ c.newRow now key value :: rows ->
        row.key.length < lruMaxKeyLength := by
      intro row hrow
      rcases mem_cons.mp hrow with rfl | hrow
      · exact hlength
      · exact h.fits row hrow
    by_cases hroom : rows.length < cap
    · exact ⟨_, _, h.holds.setValue_of_room hcap hfind hroom,
        h.agrees.insert hcap hkey rfl hroom, hdata, hmapping, hfits⟩
    · rcases h.agrees.split_last (c.newRow now key value) hroom with ⟨ys, last, hsplit, hfull⟩
      have hset := h.holds.setValue_of_full hcap hfind hsplit hfull
      rw [hsplit] at hdata hmapping hfits
      rw [getString_of_fits (hfits last (by simp))] at hset
      exact ⟨_, ys, hset, h.agrees.replace hcap hkey rfl hsplit hfull, tabulates_last hdata,
        tabulates_last hmapping, fun row hrow => hfits row (mem_append_left _ hrow)⟩

/-!
## The sweep
-/

theorem Refines.evictExpired (hcap : cap + 1 < 2 ^ 31) (now : Time) :
    exists count c', c.evictExpired now = some (count, c') ∧
      count.toInt = (r.evictExpired fun stamp => expired ttlMs stamp now).1 ∧
      Refines cap ttlMs (rows.filter fun row => !expired ttlMs row.stamp now) c'
        (r.evictExpired fun stamp => expired ttlMs stamp now).2 := by
  apply evictExpiredWith_of_agrees toCacheState (LruCache.look now) (Refines cap ttlMs) now
    (fun rows c r hinv => hinv.agrees) _ (by omega) h
  intro ys row zs c r hinv
  have hlook := hinv.holds.look now
  rw [getString_of_fits (hinv.fits row (by simp))] at hlook
  exact ⟨_, hlook, fun r' hr' =>
    ⟨hr', hinv.data.middle.erase, hinv.mapping.middle.erase, hinv.fits_rest⟩⟩

end

/-!
## Calls
-/

/-- The key of a value that is set fits into the buffers. -/
def KeyFits : CacheOp Bytes -> Prop
  | .setValue key _ => key.length < lruMaxKeyLength
  | _ => True

instance : DecidablePred KeyFits := fun op => by
  cases op <;> dsimp only [KeyFits] <;> infer_instance

theorem Refines.call (h : Refines cap ttlMs rows c r) (hcap : cap + 1 < 2 ^ 31) (now : Time)
    (op : CacheOp Bytes) (hop : KeyFits op) :
    Follows cap ttlMs (c.call now op) (r.call cap (expired ttlMs) now op) := by
  cases op with
  | setValue key value =>
    rcases h.setValue hcap now key hop value with ⟨c', rows', hset, hrefines⟩
    refine ⟨c', ?_, rows', hrefines⟩
    rw [LruCache.call, hset]
    rfl
  | getValue key =>
    rcases h.getValue now key with ⟨c', hget, hrefines⟩
    refine ⟨c', ?_, hrefines⟩
    rw [LruCache.call, hget]
    rfl
  | has key =>
    rcases h.has now key with ⟨c', hhas, hrefines⟩
    refine ⟨c', ?_, hrefines⟩
    rw [LruCache.call, hhas]
    rfl
  | remove key =>
    rcases h.remove key with ⟨rows', hrefines⟩
    exact ⟨c.remove key, rfl, rows', hrefines⟩
  | evictExpired =>
    rcases h.evictExpired hcap now with ⟨count, c', hevict, hcount, hrefines⟩
    refine ⟨c', ?_, _, hrefines⟩
    rw [LruCache.call, hevict]
    exact congrArg (fun n => some (CacheAnswer.evicted n, c')) hcount

end Async2.Collections.LruCache
