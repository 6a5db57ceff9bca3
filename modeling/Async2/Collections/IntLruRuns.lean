import Async2.Collections.Ages
import Async2.Collections.IntLruRefines

/-!
# Runs of caches with integer keys

Any sequence of operations at times that do not go back, with entries of less than 2^31
milliseconds, has the answers of the reference, in which entries expire by their age.
-/

namespace Async2.Collections

open List IntLruCache

namespace IntLruCache

def run (ops : List (Time × CacheOp Cell)) (c : IntLruCache) :
    Option (List CacheAnswer × IntLruCache) :=
  runCalls call ops c

theorem answers {cap : Nat} (hcap : cap + 1 < 2 ^ 31) (ttlMs : Cell) :
    Answers call cap ttlMs (fun c r => exists rows, Refines cap ttlMs rows c r) fun _ => True := by
  rintro c r now op ⟨rows, h⟩ _
  exact h.call hcap now op

theorem run_refines {cap ttl : Nat} (hcap : cap + 1 < 2 ^ 31) (httl : ttl < 2 ^ 31)
    (ops : List (Time × CacheOp Cell)) {c : IntLruCache}
    (h : Refines cap (BitVec.ofNat 32 ttl) [] c .init)
    (hsorted : (ops.map Prod.fst).Pairwise fun s t => s.toInt <= t.toInt)
    (hages : AgesBelow cap ttl ops .init) :
    exists c', c.run ops = some ((Reference.run cap (older ttl) ops .init).1, c') ∧
      exists rows, Refines cap (BitVec.ofNat 32 ttl) rows c'
        (Reference.run cap (older ttl) ops .init).2 := by
  have hsame := run_expired_eq_older httl ops hsorted
    (fun e he => absurd he not_mem_nil) hages
  rw [← hsame]
  exact (answers hcap _).run ops (fun _ _ => trivial) ⟨[], h⟩

end IntLruCache

/-- The cache answers like the reference. -/
theorem intLruCache_refines_reference {cap ttlSeconds : Nat} (hcap : cap < 2 ^ 31 - 1)
    (httl : 1000 * ttlSeconds < 2 ^ 31) (ops : List (Time × CacheOp Cell))
    (hsorted : (ops.map Prod.fst).Pairwise fun s t => s.toInt <= t.toInt)
    (hages : AgesBelow cap (1000 * ttlSeconds) ops .init) :
    exists answers r c, Reference.run cap (older (1000 * ttlSeconds)) ops .init = (answers, r) ∧
      IntLruCache.run ops (.init (BitVec.ofNat 32 cap) (BitVec.ofNat 32 ttlSeconds)) =
        some (answers, c) ∧
      c.size.toInt = r.entries.length ∧ Counts c.hits c.misses c.evictions r := by
  have hcap' : cap + 1 < 2 ^ 31 := by omega
  rcases IntLruCache.run_refines hcap' httl ops (IntLruCache.refines_init cap ttlSeconds)
      hsorted hages
    with ⟨c, hrun, rows, hrefines⟩
  exact ⟨_, _, c, rfl, hrun, hrefines.agrees.size (by omega), hrefines.agrees.counts⟩

/-- A value is set, got in time and looked for too late. -/
def gotAndExpired : List (Time × CacheOp Cell) :=
  [(0, .setValue 5 7), (500, .getValue 5), (1500, .has 5)]

theorem intLruCache_refines_gotAndExpired :
    exists c, IntLruCache.run gotAndExpired (.init (BitVec.ofNat 32 1) (BitVec.ofNat 32 1)) =
      some ([.done, .value (some 7), .has false], c) ∧ c.evictions = 1 := by
  rcases intLruCache_refines_reference (show 1 < 2 ^ 31 - 1 by decide)
      (show 1000 * 1 < 2 ^ 31 by decide) gotAndExpired (by decide) (by decide)
    with ⟨answers, r, c, hreference, hrun, _, hcounts⟩
  have hanswers : Reference.run 1 (older (1000 * 1)) gotAndExpired .init =
      ([.done, .value (some 7), .has false], ⟨[], 1, 0, 1⟩) := by
    decide
  cases hreference.symm.trans hanswers
  exact ⟨c, hrun, hcounts.evictions_eq⟩

/-!
## Cells that wrap around
-/

def atOnce (ops : List (CacheOp Cell)) : List (Time × CacheOp Cell) := ops.map fun op => (0, op)

theorem pairwise_atOnce (ops : List (CacheOp Cell)) :
    ((atOnce ops).map Prod.fst).Pairwise fun s t => s.toInt <= t.toInt := by
  unfold atOnce
  rw [map_map, pairwise_map]
  exact pairwise_of_forall fun _ _ => Int.le_refl _

theorem agesBelow_atOnce {cap ttl : Nat} (ops : List (CacheOp Cell)) {r : Reference Cell}
    (hstamps : forall e, e ∈ r.entries -> e.2.2 = 0) : AgesBelow cap ttl (atOnce ops) r := by
  induction ops generalizing r with
  | nil => trivial
  | cons op rest ih =>
    refine ⟨fun e he => ?_, ih fun e he => ?_⟩
    · rw [hstamps e he]
      decide
    · rcases Reference.stamp_mem_call he with hnow | ⟨e', he', hstamp⟩
      · exact hnow
      · exact hstamp.symm.trans (hstamps e' he')

/-- A value is got many times. -/
def gotOften (n : Nat) : List (CacheOp Cell) := .setValue 5 7 :: replicate n (.getValue 5)

theorem hits_replicate (n h m e : Nat) :
    (Reference.run 1 (older 0) (atOnce (replicate n (.getValue 5)))
      ⟨[((5 : Cell), 7, 0)], h, m, e⟩).2.hits = h + n := by
  induction n generalizing h with
  | zero => rfl
  | succ n ih =>
    rw [replicate_succ]
    exact (ih (h + 1)).trans (Nat.add_right_comm h 1 n)

theorem run_gotOften (n : Nat) :
    exists answers r c, Reference.run 1 (older 0) (atOnce (gotOften n)) .init = (answers, r) ∧
      run (atOnce (gotOften n)) (.init 1 0) = some (answers, c) ∧
      r.hits = n ∧ c.hits = BitVec.ofNat 32 n := by
  have hhits : (Reference.run 1 (older 0) (atOnce (gotOften n)) .init).2.hits = n :=
    (hits_replicate n 0 0 0).trans (Nat.zero_add n)
  rcases run_refines (by decide) (by decide) (atOnce (gotOften n)) (refines_init 1 0)
      (pairwise_atOnce _) (agesBelow_atOnce _ fun e he => absurd he not_mem_nil)
    with ⟨c, hrun, rows, hrefines⟩
  refine ⟨_, _, c, rfl, hrun, hhits, ?_⟩
  rw [hrefines.agrees.counts.hits_eq]
  exact congrArg (BitVec.ofNat 32) hhits

/-- The keys from `k` on are set. -/
def setFrom (k n : Nat) : List (CacheOp Cell) :=
  (range' k n).map fun j => .setValue (BitVec.ofNat 32 j) 0

/-- The keys below `k` were set in a cache of the largest capacity. -/
structure Filled (k : Nat) (c : IntLruCache) : Prop where
  maxEntries_eq : c.maxEntries = BitVec.ofNat 32 (2 ^ 31 - 1)
  length_eq : c.lru.elements.length = k
  unset : forall j, k <= j -> j < 2 ^ 32 -> c.data.find (BitVec.ofNat 32 j) = none

/-- Nothing is evicted, as no size is above the capacity. -/
theorem Filled.setValue {k : Nat} {c : IntLruCache} (h : Filled k c) (hk : k < 2 ^ 32) :
    exists c', c.setValue 0 (BitVec.ofNat 32 k) 0 = some c' ∧ Filled (k + 1) c' := by
  unfold IntLruCache.setValue
  rw [h.unset k (Nat.le_refl k) hk]
  refine ⟨_, if_neg ?_, h.maxEntries_eq, congrArg (· + 1) h.length_eq, fun j hj hlt => ?_⟩
  · dsimp only
    rw [h.maxEntries_eq]
    exact Int.not_lt.mpr (Int.le_of_lt_add_one (BitVec.toInt_lt ..))
  · rw [Dict.find_insert, if_neg]
    · exact h.unset j (by omega) hlt
    · intro heq
      have hnat := congrArg BitVec.toNat heq
      rw [BitVec.toNat_ofNat, BitVec.toNat_ofNat] at hnat
      omega

theorem Filled.run {k : Nat} {c : IntLruCache} (h : Filled k c) (n : Nat)
    (hn : k + n <= 2 ^ 32) :
    exists answers c', c.run (atOnce (setFrom k n)) = some (answers, c') ∧ Filled (k + n) c' := by
  induction n generalizing k c with
  | zero => exact ⟨[], c, rfl, h⟩
  | succ n ih =>
    rcases h.setValue (by omega) with ⟨c1, hset, h1⟩
    rcases ih h1 (by omega) with ⟨answers, c', hrun, h'⟩
    have hcall : c.call 0 (.setValue (BitVec.ofNat 32 k) 0) = some (.done, c1) := by
      rw [call, hset]
      rfl
    rw [Nat.add_right_comm] at h'
    exact ⟨.done :: answers, c', runCalls_cons hcall hrun, h'⟩

/-- The hits wrap around after 2^31 - 1 successful gets, and so does the size of a cache of the
largest capacity when it should evict. -/
theorem intLruCache_not_refines_reference :
    (exists ops answers r c, (ops.map Prod.fst).Pairwise (fun s t => s.toInt <= t.toInt) ∧
      AgesBelow 1 0 ops .init ∧ Reference.run 1 (older 0) ops .init = (answers, r) ∧
      IntLruCache.run ops (.init 1 0) = some (answers, c) ∧ c.hits.toInt ≠ r.hits) ∧
    exists ops answers answers' r c,
      (ops.map Prod.fst).Pairwise (fun s t => s.toInt <= t.toInt) ∧
      AgesBelow (2 ^ 31 - 1) 0 ops .init ∧
      Reference.run (2 ^ 31 - 1) (older 0) ops .init = (answers, r) ∧
      IntLruCache.run ops (.init (BitVec.ofNat 32 (2 ^ 31 - 1)) 0) = some (answers', c) ∧
      c.size.toInt ≠ r.entries.length := by
  constructor
  · rcases run_gotOften (2 ^ 31) with ⟨answers, r, c, hreference, hrun, hhits, hcell⟩
    refine ⟨_, answers, r, c, pairwise_atOnce (gotOften (2 ^ 31)),
      agesBelow_atOnce _ fun e he => absurd he not_mem_nil, hreference, hrun, ?_⟩
    rw [hhits, hcell]
    decide
  · have hinit : Filled 0 (.init (BitVec.ofNat 32 (2 ^ 31 - 1)) 0) := ⟨rfl, rfl, fun _ _ _ => rfl⟩
    rcases hinit.run (2 ^ 31) (by decide) with ⟨answers, c, hrun, h⟩
    rcases hreference : Reference.run (2 ^ 31 - 1) (older 0) (atOnce (setFrom 0 (2 ^ 31))) .init
      with ⟨answers', r⟩
    refine ⟨_, answers', answers, r, c, pairwise_atOnce (setFrom 0 (2 ^ 31)),
      agesBelow_atOnce _ fun e he => absurd he not_mem_nil, hreference, hrun, ?_⟩
    have hsize : c.size.toInt = -2 ^ 31 := by
      unfold CacheState.size NodeList.size
      rw [h.length_eq]
      decide
    rw [hsize]
    omega

end Async2.Collections
