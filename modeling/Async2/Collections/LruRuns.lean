import Async2.Collections.Ages
import Async2.Collections.LruRefines

/-!
# Runs of caches with string keys

Without a time to live, any sequence of operations has the answers of the reference if the keys
that are set fit into the buffers of the evictions.  The eviction of a longer key leaves it in
the mapping, and the id that it is mapped to is used again for another key.
-/

namespace Async2.Collections

open AssocList (keys)

namespace LruCache

def run (ops : List (Time × CacheOp Bytes)) (c : LruCache) : Option (List CacheAnswer × LruCache) :=
  runCalls call ops c

/-- Nodes, entries and keys belong to each other. -/
structure InBijection (c : LruCache) : Prop where
  distinct : (keys c.lru.elements).Nodup
  nodes : forall id, id ∈ keys c.lru.elements <-> exists entry, c.data.find id = some entry
  mapped : forall key id, c.mapping.find key = some id <->
    exists entry, c.data.find id = some entry ∧ entry.k = key

variable {cap : Nat} {ttlMs : Cell} {c : LruCache} {rows : List (Row Bytes)}
variable {r : Reference Bytes}

theorem Holds.mem_keys_iff (h : Holds cap ttlMs rows c) (id : NodeId) :
    id ∈ keys c.lru.elements <-> id ∈ rows.map Row.id := by
  rw [h.keeps.shaped.listed.elements_eq, keys_map_node]

theorem Refines.inBijection (h : Refines cap ttlMs rows c r) : InBijection c := by
  refine ⟨?_, fun id => ?_, fun key id => ?_⟩
  · rw [h.agrees.shaped.listed.elements_eq, keys_map_node]
    exact h.agrees.shaped.listed.distinct
  · rw [h.holds.mem_keys_iff, List.mem_map]
    constructor
    · rintro ⟨row, hrow, rfl⟩
      exact ⟨_, h.data.find_of_mem hrow⟩
    · rintro ⟨entry, hfind⟩
      rcases (h.data.find_iff id entry).mp hfind with ⟨row, hrow, hid, _⟩
      exact ⟨row, hrow, hid⟩
  · rw [h.mapping.find_iff]
    constructor
    · rintro ⟨row, hrow, rfl, rfl⟩
      exact ⟨entryOf ttlMs row, h.data.find_of_mem hrow, rfl⟩
    · rintro ⟨entry, hfind, rfl⟩
      rcases (h.data.find_iff id entry).mp hfind with ⟨row, hrow, rfl, rfl⟩
      exact ⟨row, hrow, rfl, rfl⟩

theorem answers (hcap : cap + 1 < 2 ^ 31) (ttlMs : Cell) :
    Answers call cap ttlMs (fun c r => exists rows, Refines cap ttlMs rows c r) KeyFits := by
  rintro c r now op ⟨rows, h⟩ hop
  exact h.call hcap now op hop

end LruCache

/-- Without a time to live the cache answers like the reference, if the keys fit. -/
theorem lruCache_refines_reference {cap : Nat} (hcap : cap < 2 ^ 31 - 1)
    (ops : List (Time × CacheOp Bytes)) (hkeys : forall op, op ∈ ops -> LruCache.KeyFits op.2) :
    exists answers r c, Reference.run cap (fun _ _ => false) ops .init = (answers, r) ∧
      LruCache.run ops (.init (BitVec.ofNat 32 cap) 0) = some (answers, c) ∧
      c.size.toInt = r.entries.length ∧ c.InBijection := by
  have hcap' : cap + 1 < 2 ^ 31 := by omega
  rcases (LruCache.answers hcap' 0).run ops hkeys ⟨[], LruCache.refines_init cap 0⟩
    with ⟨c, hrun, rows, hrefines⟩
  rw [run_disabled] at hrun hrefines
  exact ⟨_, _, c, rfl, hrun, hrefines.agrees.size (by omega), hrefines.inBijection⟩

/-- Two keys for one place. -/
def replaced : List (Time × CacheOp Bytes) :=
  [(0, .setValue [97] 1), (0, .setValue [98] 2), (0, .getValue [97]), (0, .getValue [98])]

theorem lruCache_refines_replaced :
    exists c, LruCache.run replaced (.init (BitVec.ofNat 32 1) 0) =
        some ([.done, .done, .value none, .value (some 2)], c) ∧
      c.size.toInt = 1 ∧ c.InBijection := by
  rcases lruCache_refines_reference (show 1 < 2 ^ 31 - 1 by decide) replaced
      (by decide)
    with ⟨answers, r, c, hreference, hrun, hsize, hbijection⟩
  have hanswers : Reference.run 1 (fun _ _ => false) replaced .init =
      ([.done, .done, .value none, .value (some 2)], ⟨[([98], 2, 0)], 1, 1, 1⟩) := by
    decide
  cases hreference.symm.trans hanswers
  exact ⟨c, hrun, hsize, hbijection⟩

/-- A key that does not fit is evicted, and its id is used again. -/
def reused : List (Time × CacheOp Bytes) :=
  [(0, .setValue (List.replicate 256 97) 1), (0, .setValue [98] 2), (0, .setValue [99] 3),
    (0, .getValue (List.replicate 256 97))]

/-- The value of another key is got. -/
theorem value_of_reused :
    (Reference.run 1 (fun _ _ => false) reused .init).1 = [.done, .done, .done, .value none] ∧
      (LruCache.run reused (.init 1 0)).map Prod.fst =
        some [.done, .done, .done, .value (some 3)] := by
  constructor
  · decide +kernel
  · decide +kernel

end Async2.Collections
