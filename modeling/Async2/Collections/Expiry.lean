import Async2.Collections.IntLruRuns
import Async2.Collections.LruRuns

/-!
# Entries that have expired

In every cache that operations lead to, an entry is reported as absent and swept out exactly if
the low words of the times say so.  They do until the entry is 2^31 milliseconds old, and then
not for as long again.  The lists of all these caches are linked lists in memory.
-/

namespace Async2.Collections

open List Option
open AssocList (keys)

/-- What the sweep takes out does not share its id or its key with what stays. -/
theorem not_mem_swept {K A : Type} {f : Row K -> A} (gone : Time -> Bool) {rows : List (Row K)}
    {row : Row K} (hdistinct : (rows.map f).Nodup) (hrow : row ∈ rows)
    (hgone : gone row.stamp = true) : f row ∉ (rows.filter fun row => !gone row.stamp).map f := by
  intro hmem
  rcases mem_map.mp hmem with ⟨row', hrow', hsame⟩
  rcases mem_filter.mp hrow' with ⟨hin, hkept⟩
  have heq := inj_on_of_nodup_map hdistinct hin hrow hsame
  rw [heq, hgone] at hkept
  cases hkept

/-!
## Integer keys
-/

namespace IntLruCache

/-- The key is reported as absent, and the sweep removes it. -/
structure NotServed (c : IntLruCache) (now : Time) (key : Cell) : Prop where
  getValue : (c.getValue now key).1 = none
  has : (c.has now key).1 = false
  evictExpired : exists count c', c.evictExpired now = some (count, c') ∧ c'.data.find key = none

variable {cap : Nat} {ttlMs : Cell} {c : IntLruCache} {key : Cell} {entry : IntEntry}
variable {stamp now : Time} {rows : List (Row Cell)} {r : Reference Cell}

theorem refines_of_called {ttlSeconds : Nat} (hcap : cap + 1 < 2 ^ 31)
    (hcalled : Called call (init (BitVec.ofNat 32 cap) (BitVec.ofNat 32 ttlSeconds)) c) :
    exists rows r, Refines cap (BitVec.ofNat 32 (1000 * ttlSeconds)) rows c r := by
  induction hcalled with
  | start => exact ⟨[], .init, refines_init cap ttlSeconds⟩
  | call now op _ ih =>
    rcases ih with ⟨rows, r, h⟩
    rcases h.call hcap now op with ⟨c', hcall, rows', hrefines⟩
    rw [hcall]
    exact ⟨rows', _, hrefines⟩

variable (h : Refines cap ttlMs rows c r)
include h

theorem Refines.row_of_stamp (hfind : c.data.find key = some entry)
    (hstamp : entry.e = some stamp) :
    exists row, row ∈ rows ∧ row.key = key ∧ row.stamp = stamp := by
  rcases (h.data.find_iff key entry).mp hfind with ⟨row, hrow, hkey, rfl⟩
  exact ⟨row, hrow, hkey, eq_of_stampOf hstamp⟩

theorem Refines.notServed_iff (hcap : cap + 1 < 2 ^ 31) (hfind : c.data.find key = some entry)
    (hstamp : entry.e = some stamp) : c.NotServed now key <-> expired ttlMs stamp now = true := by
  have hcheck : (!checkStamp c.ttlMs entry.e now) = expired ttlMs stamp now := by
    rw [hstamp, h.agrees.ttlMs_eq]
    rfl
  constructor
  · intro hnot
    have hget := hnot.getValue
    unfold IntLruCache.getValue at hget
    rw [hfind] at hget
    dsimp only at hget
    rw [hcheck] at hget
    cases hexpired : expired ttlMs stamp now with
    | true => rfl
    | false =>
      rw [hexpired] at hget
      cases hget
  · intro hexpired
    have henabled := h.agrees.enabled hexpired
    refine ⟨?_, ?_, ?_⟩
    · unfold IntLruCache.getValue
      rw [hfind]
      dsimp only
      rw [hcheck, hexpired]
      rfl
    · unfold IntLruCache.has
      rw [hfind]
      dsimp only
      rw [hcheck, hexpired, decide_eq_true henabled]
      rfl
    · rcases h.evictExpired hcap now with ⟨count, c', hevict, _, hrefines⟩
      rcases h.row_of_stamp hfind hstamp with ⟨row, hrow, rfl, rfl⟩
      have hswept := not_mem_swept (expired ttlMs · now) h.data.distinct hrow hexpired
      exact ⟨count, c', hevict, hrefines.data.find_eq_none.mpr hswept⟩

end IntLruCache

/-!
## String keys

Any keys are allowed: nodes and entries belong to each other even if the mapping has gone wrong.
-/

namespace LruCache

/-- The key is reported as absent, and the sweep removes its entry and its node. -/
structure NotServed (c : LruCache) (now : Time) (key : Bytes) (id : NodeId) : Prop where
  getValue : exists c', c.getValue now key = some (none, c')
  has : exists c', c.has now key = some (false, c')
  evictExpired : exists count c', c.evictExpired now = some (count, c') ∧
    c'.data.find id = none ∧ id ∉ keys c'.lru.elements

variable {cap : Nat} {ttlMs : Cell} {c c' : LruCache} {rows : List (Row Bytes)}
variable {key : Bytes} {id : NodeId} {entry : LruEntry} {stamp now : Time} {value : Cell}

section

variable (h : Holds cap ttlMs rows c)
include h

theorem Holds.getValue {answer : Option Cell} (hget : c.getValue now key = some (answer, c')) :
    exists rows', Holds cap ttlMs rows' c' := by
  unfold LruCache.getValue at hget
  cases hmapping : c.mapping.find key with
  | none =>
    rw [hmapping] at hget
    cases hget
    exact ⟨rows, ⟨h.keeps.shaped, h.keeps.length_le, h.keeps.maxEntries_eq,
      h.keeps.ttlMs_eq⟩, h.data⟩
  | some id =>
    rw [hmapping] at hget
    rcases bind_eq_some_iff.mp hget with ⟨entry, hfind, hrest⟩
    rcases h.data.split hfind with ⟨ys, row, zs, rfl, rfl, rfl⟩
    split at hrest
    · cases hrest
      have hrows := h.expire key
      exact ⟨ys ++ zs, ⟨hrows.keeps.shaped, hrows.keeps.length_le, hrows.keeps.maxEntries_eq,
        hrows.keeps.ttlMs_eq⟩, hrows.data⟩
    cases hrest
    exact ⟨row :: (ys ++ zs), h.keeps.moveToFront rfl rfl rfl rfl rfl, h.data.middle⟩

theorem Holds.has {found : Bool} (hhas : c.has now key = some (found, c')) :
    exists rows', Holds cap ttlMs rows' c' := by
  unfold LruCache.has at hhas
  cases hmapping : c.mapping.find key with
  | none =>
    rw [hmapping] at hhas
    cases hhas
    exact ⟨rows, h⟩
  | some id =>
    rw [hmapping] at hhas
    dsimp only at hhas
    split at hhas
    · rcases bind_eq_some_iff.mp hhas with ⟨entry, hfind, hrest⟩
      rcases h.data.split hfind with ⟨ys, row, zs, rfl, rfl, rfl⟩
      split at hrest
      · cases hrest
        exact ⟨ys ++ zs, h.expire key⟩
      cases hrest
      exact ⟨_, h⟩
    cases hhas
    exact ⟨rows, h⟩

theorem Holds.remove (key : Bytes) : exists rows', Holds cap ttlMs rows' (c.remove key) := by
  unfold LruCache.remove
  cases hmapping : c.mapping.find key with
  | none => exact ⟨rows, h⟩
  | some id =>
    cases hfind : c.data.find id with
    | some entry =>
      rcases h.data.split hfind with ⟨ys, row, zs, rfl, rfl, rfl⟩
      exact ⟨ys ++ zs, h.keeps.remove rfl rfl rfl, h.data.middle.erase⟩
    | none =>
      have hid : id ∉ keys c.lru.elements := by
        rw [h.mem_keys_iff]
        exact h.data.find_eq_none.mp hfind
      have hlru : c.lru.remove id = c.lru := if_neg hid
      have hdata : c.data.erase id = c.data := Dict.erase_of_none hfind
      dsimp only
      rw [hlru, hdata]
      exact ⟨rows, h.keeps, h.data⟩

variable (hcap : cap + 1 < 2 ^ 31)
include hcap

theorem Holds.setValue (hset : c.setValue now key value = some c') :
    exists rows', Holds cap ttlMs rows' c' := by
  cases hmapping : c.mapping.find key with
  | some id =>
    unfold LruCache.setValue at hset
    rw [hmapping] at hset
    dsimp only at hset
    have hset' := hset
    unfold LruCache.update at hset'
    rcases bind_eq_some_iff.mp hset' with ⟨entry, hfind, _⟩
    rcases h.data.split hfind with ⟨ys, row, zs, rfl, rfl, rfl⟩
    rw [h.update_eq] at hset
    cases hset
    exact ⟨_, h.updated value now⟩
  | none =>
    by_cases hroom : rows.length < cap
    · rw [h.setValue_of_room hcap hmapping hroom] at hset
      cases hset
      exact ⟨c.newRow now key value :: rows, ⟨h.pushFront hcap now key value, hroom,
        h.keeps.maxEntries_eq, h.keeps.ttlMs_eq⟩, h.data_inserted hcap⟩
    · rcases h.keeps.split_last (c.newRow now key value) hroom with ⟨ys, last, hsplit, hfull⟩
      rw [h.setValue_of_full hcap hmapping hsplit hfull] at hset
      cases hset
      have hshaped : Shaped cap noValue (c.newRow now key value :: rows)
          (c.inserted now key value).lru := h.pushFront hcap now key value
      have hdata : Tabulates (c.inserted now key value).data Row.id (entryOf ttlMs)
          (c.newRow now key value :: rows) := h.data_inserted hcap
      rw [hsplit] at hshaped hdata
      have hremoved := hshaped.remove
      rw [append_nil] at hremoved
      exact ⟨ys, ⟨hremoved, Nat.le_of_eq hfull, h.keeps.maxEntries_eq, h.keeps.ttlMs_eq⟩,
        tabulates_last hdata⟩

theorem Holds.evictExpired (now : Time) :
    exists count c', c.evictExpired now = some (count, c') ∧
      Holds cap ttlMs (rows.filter fun row => !expired ttlMs row.stamp now) c' := by
  have hlook : forall (n : Nat) ys row zs c, Holds cap ttlMs (ys ++ row :: zs) c ->
      exists c', LruCache.look now row.id c =
          (if expired ttlMs row.stamp now then some (some c') else some none) ∧
        Holds cap ttlMs (ys ++ zs) c' :=
    fun n ys row zs c hinv => ⟨_, hinv.look now, hinv.expire _⟩
  rcases evictExpiredWith_of_keeps toCacheState (LruCache.look now)
      (fun _ rows c => Holds cap ttlMs rows c) now (fun n rows c hinv => hinv.keeps) hlook
      (by omega) h
    with ⟨count, c', hevict, _, hholds⟩
  exact ⟨count, c', hevict, hholds⟩

theorem Holds.call {op : CacheOp Bytes} {answer : CacheAnswer}
    (hcall : c.call now op = some (answer, c')) : exists rows', Holds cap ttlMs rows' c' := by
  cases op with
  | setValue key value =>
    rcases bind_eq_some_iff.mp hcall with ⟨c1, hset, hreturn⟩
    cases hreturn
    exact h.setValue hcap hset
  | getValue key =>
    rcases bind_eq_some_iff.mp hcall with ⟨⟨value, c1⟩, hget, hreturn⟩
    cases hreturn
    exact h.getValue hget
  | has key =>
    rcases bind_eq_some_iff.mp hcall with ⟨⟨found, c1⟩, hhas, hreturn⟩
    cases hreturn
    exact h.has hhas
  | remove key =>
    cases hcall
    exact h.remove key
  | evictExpired =>
    rcases h.evictExpired hcap now with ⟨count, c1, hevict, hholds⟩
    rcases bind_eq_some_iff.mp hcall with ⟨⟨count', c2⟩, hevict', hreturn⟩
    cases hreturn
    cases hevict.symm.trans hevict'
    exact ⟨_, hholds⟩

end

theorem holds_of_called {ttlSeconds : Nat} (hcap : cap + 1 < 2 ^ 31)
    (hcalled : Called call (init (BitVec.ofNat 32 cap) (BitVec.ofNat 32 ttlSeconds)) c) :
    exists rows, Holds cap (BitVec.ofNat 32 (1000 * ttlSeconds)) rows c := by
  induction hcalled with
  | start => exact ⟨[], holds_init cap ttlSeconds⟩
  | @call c now op _ ih =>
    rcases ih with ⟨rows, h⟩
    cases hcall : call c now op with
    | none => exact ⟨rows, h⟩
    | some result =>
      rcases result with ⟨answer, c'⟩
      exact h.call hcap hcall

theorem Holds.row_of_stamp (h : Holds cap ttlMs rows c) (hfind : c.data.find id = some entry)
    (hstamp : entry.e = some stamp) : exists row, row ∈ rows ∧ row.id = id ∧ row.stamp = stamp := by
  rcases (h.data.find_iff id entry).mp hfind with ⟨row, hrow, hid, rfl⟩
  exact ⟨row, hrow, hid, eq_of_stampOf hstamp⟩

theorem Holds.notServed_iff (h : Holds cap ttlMs rows c) (hcap : cap + 1 < 2 ^ 31)
    (hmapping : c.mapping.find key = some id) (hfind : c.data.find id = some entry)
    (hstamp : entry.e = some stamp) :
    c.NotServed now key id <-> expired ttlMs stamp now = true := by
  have hcheck : (!checkStamp c.ttlMs entry.e now) = expired ttlMs stamp now := by
    rw [hstamp, h.keeps.ttlMs_eq]
    rfl
  constructor
  · intro hnot
    rcases hnot.getValue with ⟨c', hget⟩
    unfold LruCache.getValue at hget
    rw [hmapping] at hget
    dsimp only at hget
    rw [hfind, some_bind, hcheck] at hget
    cases hexpired : expired ttlMs stamp now with
    | true => rfl
    | false =>
      rw [hexpired] at hget
      cases hget
  · intro hexpired
    have henabled := h.keeps.enabled hexpired
    refine ⟨?_, ?_, ?_⟩
    · unfold LruCache.getValue
      rw [hmapping]
      dsimp only
      rw [hfind, some_bind, hcheck, hexpired]
      exact ⟨_, rfl⟩
    · unfold LruCache.has
      rw [hmapping]
      dsimp only
      rw [if_pos henabled, hfind, some_bind, hcheck, hexpired]
      exact ⟨_, rfl⟩
    · rcases h.evictExpired hcap now with ⟨count, c', hevict, hholds⟩
      rcases h.row_of_stamp hfind hstamp with ⟨row, hrow, rfl, rfl⟩
      have hswept : row.id ∉ (rows.filter fun row => !expired ttlMs row.stamp now).map Row.id :=
        not_mem_swept (expired ttlMs · now) h.data.distinct hrow hexpired
      refine ⟨count, c', hevict, hholds.data.find_eq_none.mpr hswept, ?_⟩
      rw [hholds.mem_keys_iff]
      exact hswept

end LruCache

/-!
## Both kinds
-/

/-- An entry is no longer served exactly if the low words of the times say that it has
expired. -/
theorem expired_entries_not_served_iff {cap ttlSeconds : Nat} (hcap : cap < 2 ^ 31 - 1)
    (hpos : 0 < ttlSeconds) (httl : 1000 * ttlSeconds < 2 ^ 31) (stamp now : Time) :
    (forall c key entry,
      Called IntLruCache.call (.init (BitVec.ofNat 32 cap) (BitVec.ofNat 32 ttlSeconds)) c ->
      c.data.find key = some entry -> entry.e = some stamp ->
      (c.NotServed now key <->
        ((1000 * ttlSeconds : Nat) : Int) <= age stamp now % 2 ^ 32 ∧
          age stamp now % 2 ^ 32 < 2 ^ 31)) ∧
      (forall c key id entry,
        Called LruCache.call (.init (BitVec.ofNat 32 cap) (BitVec.ofNat 32 ttlSeconds)) c ->
        c.mapping.find key = some id -> c.data.find id = some entry -> entry.e = some stamp ->
        (c.NotServed now key id <->
          ((1000 * ttlSeconds : Nat) : Int) <= age stamp now % 2 ^ 32 ∧
            age stamp now % 2 ^ 32 < 2 ^ 31)) := by
  have hcap' : cap + 1 < 2 ^ 31 := by omega
  have hexpired := expired_iff (by omega : 0 < 1000 * ttlSeconds) httl stamp now
  constructor
  · intro c key entry hcalled hfind hstamp
    rcases IntLruCache.refines_of_called hcap' hcalled with ⟨rows, r, h⟩
    rw [h.notServed_iff hcap' hfind hstamp, hexpired]
  · intro c key id entry hcalled hmapping hfind hstamp
    rcases LruCache.holds_of_called hcap' hcalled with ⟨rows, h⟩
    rw [h.notServed_iff hcap' hmapping hfind hstamp, hexpired]

/-- The integer cache after one value has been set at time 0. -/
def setOnce : IntLruCache :=
  (((IntLruCache.init 1 1).call 0 (.setValue 5 7)).map Prod.snd).getD (.init 1 1)

/-- The string cache after one value has been set at time 0. -/
def setOnceString : LruCache :=
  (((LruCache.init 1 1).call 0 (.setValue [97] 7)).map Prod.snd).getD (.init 1 1)

theorem called_setOnce : Called IntLruCache.call (.init 1 1) setOnce :=
  .call 0 (.setValue 5 7) .start

theorem called_setOnceString : Called LruCache.call (.init 1 1) setOnceString :=
  .call 0 (.setValue [97] 7) .start

theorem expired_not_served_setOnce :
    setOnce.NotServed 1500 5 ∧ setOnceString.NotServed 1500 [97] 1 := by
  rcases expired_entries_not_served_iff (show 1 < 2 ^ 31 - 1 by decide) (show 0 < 1 by decide)
      (by decide) 0 1500
    with ⟨hint, hstring⟩
  constructor
  · exact (hint setOnce 5 ⟨7, 1, some 0⟩ called_setOnce rfl rfl).mpr (by decide)
  · exact (hstring setOnceString [97] 1 ⟨[97], 7, some 0⟩ called_setOnceString rfl rfl rfl).mpr
      (by decide)

/-- An entry of 2^31 milliseconds is served again. -/
theorem served_when_old :
    exists c key entry stamp now,
      Called IntLruCache.call (.init 1 1) c ∧ c.data.find key = some entry ∧
        entry.e = some stamp ∧ 1000 <= age stamp now ∧ (c.getValue now key).1 = some 7 :=
  ⟨setOnce, 5, ⟨7, 1, some 0⟩, 0, BitVec.ofNat 64 (2 ^ 31), called_setOnce, rfl, rfl, by decide,
    by decide⟩

/-!
## Lists in memory
-/

/-- The list of a cache is the outcome of calls that run in memory with the same answers. -/
theorem cacheLists_run_in_memory {cap : Nat} (hcap : cap < 2 ^ 31 - 1) (ttlSeconds : Nat) :
    (forall c, Called IntLruCache.call
      (.init (BitVec.ofNat 32 cap) (BitVec.ofNat 32 ttlSeconds)) c -> c.lru.RunsInMemory) ∧
    forall c, Called LruCache.call
      (.init (BitVec.ofNat 32 cap) (BitVec.ofNat 32 ttlSeconds)) c -> c.lru.RunsInMemory := by
  have hcap' : cap + 1 < 2 ^ 31 := by omega
  constructor
  · intro c hcalled
    rcases IntLruCache.refines_of_called hcap' hcalled with ⟨rows, r, h⟩
    exact h.agrees.shaped.inMemory
  · intro c hcalled
    rcases LruCache.holds_of_called hcap' hcalled with ⟨rows, h⟩
    exact h.keeps.shaped.inMemory

theorem cacheLists_run_setOnce :
    setOnce.lru.RunsInMemory ∧ setOnceString.lru.RunsInMemory :=
  ⟨(cacheLists_run_in_memory (by decide) 1).left _ called_setOnce,
    (cacheLists_run_in_memory (by decide) 1).right _ called_setOnceString⟩

end Async2.Collections
