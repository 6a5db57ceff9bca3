import Async2.Collections.CacheState
import Mathlib.Data.List.Induction

/-!
# Caches and their rows

The state of a cache has a node for every row and not more ids than the capacity needs.  A
state agrees with the reference if that has the same rows in the same order.  The lemmas say
how the rows change with the nodes, and what the loops leave of them.
-/

namespace Async2.Collections

open List IdSupply
open AssocList (find)

/-!
## Cells
-/

/-- The counters of a cache, which are 32-bit cells. -/
structure Counts {K : Type} (hits misses evictions : Cell) (r : Reference K) : Prop where
  hits_eq : hits = BitVec.ofNat 32 r.hits
  misses_eq : misses = BitVec.ofNat 32 r.misses
  evictions_eq : evictions = BitVec.ofNat 32 r.evictions

theorem ofNat_succ (n : Nat) : BitVec.ofNat 32 n + 1 = BitVec.ofNat 32 (n + 1) := by
  rw [BitVec.ofNat_add]
  rfl

theorem toInt_ofNat {n : Nat} (hn : n < 2 ^ 31) : (BitVec.ofNat 32 n).toInt = n := by
  rw [BitVec.toInt_eq_toNat_of_lt]
  · rw [BitVec.toNat_ofNat, Nat.mod_eq_of_lt (by omega)]
  · rw [BitVec.toNat_ofNat, Nat.mod_eq_of_lt (by omega)]
    omega

/-!
## Nodes
-/

/-- The nodes of the rows, which are also nodes in memory; the ids have been counted from 1
on. -/
structure Shaped {K : Type} (cap : Nat) (val : Row K -> Cell) (rows : List (Row K))
    (lru : NodeList) : Prop where
  listed : Listed lru val rows
  count_le : lru.count <= cap + 1
  nextId_eq : lru.ids.nextId.toNat = lru.count + 1
  inMemory : lru.RunsInMemory

variable {C K : Type} {cap fuel n : Nat} {ttlMs : Cell} {val : Row K -> Cell}
variable {rows ys zs : List (Row K)} {row row' last : Row K} {lru : NodeList} {s s' : CacheState}
variable {r : Reference K} {key : K} {value : Cell} {now : Time} {state : C -> CacheState}
  {c c' : C}

theorem shaped_create : Shaped cap val [] NodeList.create :=
  ⟨listed_create, Nat.zero_le _, rfl, NodeList.runsInMemory_create⟩

theorem Shaped.remove (h : Shaped cap val (ys ++ row :: zs) lru) :
    Shaped cap val (ys ++ zs) (lru.remove row.id) := by
  refine ⟨h.listed.remove, ?_, ?_, h.inMemory.call (.remove row.id) trivial⟩
  · rw [h.listed.count_remove]
    exact h.count_le
  · rw [h.listed.count_remove, h.listed.remove_eq]
    exact h.nextId_eq

theorem Shaped.moveToFront (h : Shaped cap val (ys ++ row :: zs) lru) (hid : row'.id = row.id)
    (hval : val row' = val row) : Shaped cap val (row' :: (ys ++ zs)) (lru.moveToFront row.id) := by
  have hcount := count_moveToFront h.listed hid hval
  refine ⟨h.listed.moveToFront hid hval, ?_, ?_, h.inMemory.call (.moveToFront row.id) trivial⟩
  · rw [hcount]
    exact h.count_le
  · rw [hcount]
    exact h.nextId_eq

section

variable (h : Shaped cap val rows lru) (hcap : cap + 1 < 2 ^ 31)
include h hcap

theorem Shaped.pushFront (hlength : rows.length <= cap)
    (hid : row.id = (lru.pushFront (val row)).1) :
    Shaped cap val (row :: rows) (lru.pushFront (val row)).2 := by
  have hcount := h.listed.count
  have hle := h.count_le
  have hnext := h.nextId_eq
  have hroom : lru.ids.freeIds = [] -> lru.count + 1 < period := by
    intro _
    unfold period
    omega
  refine ⟨h.listed.pushFront hroom hid, ?_, ?_, h.inMemory.call (.pushFront _) hroom⟩
  · rw [count_pushFront]
    split
    case isTrue hfree =>
      rw [hfree, length_nil] at hcount
      omega
    · exact hle
  · rw [count_pushFront]
    change lru.ids.next.2.nextId.toNat = _
    cases hfree : lru.ids.freeIds with
    | nil =>
      have hcounted : counted lru.ids.nextId = lru.ids.nextId := by
        unfold counted
        apply if_neg
        intro hzero
        rw [hzero] at hnext
        cases hnext
      have hone : (1 : NodeId).toNat = 1 := rfl
      rw [next_of_nil hfree, hcounted, if_pos rfl, BitVec.toNat_add, hnext, hone]
      exact Nat.mod_eq_of_lt (by omega)
    | cons id rest =>
      rw [next_of_cons hfree, if_neg (cons_ne_nil id rest)]
      exact hnext

theorem Shaped.id_le (hrow : row ∈ rows) : row.id.toNat <= cap + 2 := by
  have hmem : row.id ∈ rows.map Row.id ++ lru.ids.freeIds :=
    mem_append_left _ (mem_map_of_mem hrow)
  have hage := (h.listed.fits.recent _ hmem).right
  have hcount := h.listed.count
  have hle := h.count_le
  have hnext := h.nextId_eq
  have hlt := row.id.isLt
  have hcounted : (counted lru.ids.nextId).toNat = lru.count + 1 := by
    unfold counted
    split
    case isTrue hzero =>
      rw [hzero] at hnext
      cases hnext
    · exact hnext
  unfold age period at hage
  rw [hcounted, length_append, length_map, ← hcount] at hage
  omega

end

/-!
## States
-/

/-- The state of a cache with these rows. -/
structure Keeps {K : Type} (cap : Nat) (ttlMs : Cell) (val : Row K -> Cell)
    (rows : List (Row K)) (s : CacheState) : Prop where
  shaped : Shaped cap val rows s.lru
  length_le : rows.length <= cap
  maxEntries_eq : s.maxEntries = BitVec.ofNat 32 cap
  ttlMs_eq : s.ttlMs = ttlMs

theorem keeps_init (cap ttlSeconds : Nat) (val : Row K -> Cell) :
    Keeps cap (BitVec.ofNat 32 (1000 * ttlSeconds)) val []
      (.init (BitVec.ofNat 32 cap) (BitVec.ofNat 32 ttlSeconds)) := by
  refine ⟨shaped_create, Nat.zero_le _, rfl, ?_⟩
  change BitVec.ofNat 32 ttlSeconds * 1000 = _
  rw [Nat.mul_comm, BitVec.ofNat_mul]
  rfl

theorem length_split (ys : List (Row K)) (row : Row K) (zs : List (Row K)) :
    (ys ++ row :: zs).length = (row :: (ys ++ zs)).length := by
  rw [length_append, length_cons, length_cons, length_append]
  rfl

theorem Keeps.enabled (h : Keeps cap ttlMs val rows s) {stamp now : Time}
    (hexpired : expired ttlMs stamp now = true) : 0 < s.ttlMs.toInt := by
  rw [h.ttlMs_eq]
  exact enabled_of_expired hexpired

theorem Keeps.expired_iff (h : Keeps cap ttlMs val rows s) {stamp now : Time} :
    (!checkStamp s.ttlMs (stampOf ttlMs stamp) now) = expired ttlMs stamp now := by
  rw [h.ttlMs_eq]
  exact not_checkStamp ttlMs stamp now

section

variable (h : Keeps cap ttlMs val (ys ++ row :: zs) s)
include h

theorem Keeps.remove (hlru : s'.lru = s.lru.remove row.id) (hmax : s'.maxEntries = s.maxEntries)
    (httl : s'.ttlMs = s.ttlMs) : Keeps cap ttlMs val (ys ++ zs) s' := by
  refine ⟨?_, ?_, hmax.trans h.maxEntries_eq, httl.trans h.ttlMs_eq⟩
  · rw [hlru]
    exact h.shaped.remove
  · have hlength := h.length_le
    rw [length_split, length_cons] at hlength
    omega

theorem Keeps.moveToFront (hid : row'.id = row.id) (hval : val row' = val row)
    (hlru : s'.lru = s.lru.moveToFront row.id) (hmax : s'.maxEntries = s.maxEntries)
    (httl : s'.ttlMs = s.ttlMs) : Keeps cap ttlMs val (row' :: (ys ++ zs)) s' := by
  refine ⟨?_, ?_, hmax.trans h.maxEntries_eq, httl.trans h.ttlMs_eq⟩
  · rw [hlru]
    exact h.shaped.moveToFront hid hval
  · have hlength := h.length_le
    rw [length_split] at hlength
    exact hlength

end

section

variable (h : Keeps cap ttlMs val rows s)
include h

/-- The nodes after `PushFront`, which may be one too many. -/
theorem Keeps.pushFront (hcap : cap + 1 < 2 ^ 31) (hid : row.id = (s.lru.pushFront (val row)).1) :
    Shaped cap val (row :: rows) (s.lru.pushFront (val row)).2 :=
  h.shaped.pushFront hcap h.length_le hid

theorem Keeps.split_last (row : Row K) (hfull : ¬ rows.length < cap) :
    exists ys last, row :: rows = ys ++ [last] ∧ ys.length = cap := by
  rcases (eq_nil_or_concat' (row :: rows)).resolve_left (cons_ne_nil row rows)
    with ⟨ys, last, hsplit⟩
  refine ⟨ys, last, hsplit, ?_⟩
  have heq := congrArg List.length hsplit
  rw [length_cons, length_append, length_singleton] at heq
  have hle := h.length_le
  omega

end

/-!
## The reference
-/

/-- The reference has the rows of the state. -/
structure Agrees {K : Type} (cap : Nat) (ttlMs : Cell) (val : Row K -> Cell)
    (rows : List (Row K)) (s : CacheState) (r : Reference K) : Prop
    extends Keeps cap ttlMs val rows s where
  distinct : (rows.map Row.key).Nodup
  entries_eq : r.entries = rows.map Row.entry
  counts : Counts s.hits s.misses s.evictions r

theorem agrees_init (cap ttlSeconds : Nat) (val : Row K -> Cell) :
    Agrees cap (BitVec.ofNat 32 (1000 * ttlSeconds)) val []
      (.init (BitVec.ofNat 32 cap) (BitVec.ofNat 32 ttlSeconds)) .init :=
  ⟨keeps_init cap ttlSeconds val, nodup_nil, rfl, rfl, rfl, rfl⟩

theorem distinct_middle (hdistinct : ((ys ++ row :: zs).map Row.key).Nodup)
    (hkey : row'.key = row.key) : ((row' :: (ys ++ zs)).map Row.key).Nodup := by
  rw [map_cons, hkey, ← map_cons]
  exact ((perm_middle.map Row.key).nodup_iff).mp hdistinct

theorem distinct_rest (hdistinct : ((ys ++ row :: zs).map Row.key).Nodup) :
    ((ys ++ zs).map Row.key).Nodup :=
  (nodup_cons.mp (distinct_middle hdistinct rfl)).right

section

variable (h : Agrees cap ttlMs val rows s r)
include h

theorem Agrees.size (hcap : cap < 2 ^ 31) : s.size.toInt = r.entries.length := by
  unfold CacheState.size
  rw [h.shaped.listed.size, h.entries_eq, length_map]
  exact toInt_ofNat (Nat.lt_of_le_of_lt h.length_le hcap)

theorem Agrees.miss : Agrees cap ttlMs val rows s.miss { r with misses := r.misses + 1 } := by
  refine ⟨⟨h.shaped, h.length_le, h.maxEntries_eq, h.ttlMs_eq⟩, h.distinct, h.entries_eq,
    h.counts.hits_eq, ?_, h.counts.evictions_eq⟩
  change s.misses + 1 = BitVec.ofNat 32 (r.misses + 1)
  rw [h.counts.misses_eq, ofNat_succ]

theorem Agrees.length_eq : r.entries.length = rows.length := by
  rw [h.entries_eq, length_map]

variable [DecidableEq K]

theorem Agrees.find_none (hkey : key ∉ rows.map Row.key) : find key r.entries = none := by
  rw [h.entries_eq]
  exact find_entries_none hkey

theorem Agrees.remove_of_not_mem (hkey : key ∉ rows.map Row.key) : r.remove key = r := by
  unfold Reference.remove Reference.drop
  rw [AssocList.eraseP_of_not_mem (AssocList.find_eq_none_iff.mp (h.find_none hkey))]

variable (hcap : cap + 1 < 2 ^ 31) (hkey : row.key ∉ rows.map Row.key)
  (hid : row.id = (s.lru.pushFront (val row)).1)
include hcap hkey hid

theorem Agrees.insert (hroom : rows.length < cap) :
    Agrees cap ttlMs val (row :: rows) { s with lru := (s.lru.pushFront (val row)).2 }
      (r.setValue cap row.stamp row.key row.value) := by
  rw [Reference.setValue_of_room (h.find_none hkey) (by rw [h.length_eq]; exact hroom)]
  refine ⟨⟨h.toKeeps.pushFront hcap hid, hroom, h.maxEntries_eq, h.ttlMs_eq⟩,
    nodup_cons.mpr ⟨hkey, h.distinct⟩, ?_, h.counts.hits_eq, h.counts.misses_eq,
    h.counts.evictions_eq⟩
  rw [h.entries_eq]
  rfl

theorem Agrees.replace (hsplit : row :: rows = ys ++ [last]) (hfull : ys.length = cap) :
    Agrees cap ttlMs val ys
      (CacheState.evict { s with lru := (s.lru.pushFront (val row)).2 } last.id)
      (r.setValue cap row.stamp row.key row.value) := by
  have hlength : rows.length = cap := by
    have heq := congrArg List.length hsplit
    rw [length_cons, length_append, length_singleton, hfull] at heq
    omega
  have hshaped := h.toKeeps.pushFront hcap hid
  have hdistinct : ((row :: rows).map Row.key).Nodup := nodup_cons.mpr ⟨hkey, h.distinct⟩
  rw [hsplit] at hshaped hdistinct
  have hremoved := hshaped.remove
  have hrest := distinct_rest hdistinct
  rw [append_nil] at hremoved hrest
  rw [Reference.setValue_of_full (h.find_none hkey) (by rw [h.length_eq]; omega)]
  refine ⟨⟨hremoved, Nat.le_of_eq hfull, h.maxEntries_eq, h.ttlMs_eq⟩, hrest, ?_,
    h.counts.hits_eq, h.counts.misses_eq, ?_⟩
  · have hentries : (row.key, row.value, row.stamp) :: r.entries =
        (ys ++ [last]).map Row.entry := by
      rw [← hsplit, h.entries_eq]
      rfl
    dsimp only
    rw [hentries, map_append]
    exact dropLast_concat
  · change s.evictions + 1 = BitVec.ofNat 32 (r.evictions + 1)
    rw [h.counts.evictions_eq, ofNat_succ]

end

section

variable [DecidableEq K] (h : Agrees cap ttlMs val (ys ++ row :: zs) s r)
include h

theorem Agrees.find_split : find row.key r.entries = some (row.value, row.stamp) := by
  rw [h.entries_eq]
  exact find_entries_split h.distinct

theorem Agrees.drop_split : Reference.drop row.key r.entries = (ys ++ zs).map Row.entry := by
  rw [h.entries_eq]
  exact drop_entries_split h.distinct

theorem Agrees.remove :
    Agrees cap ttlMs val (ys ++ zs) { s with lru := s.lru.remove row.id } (r.remove row.key) :=
  ⟨h.toKeeps.remove rfl rfl rfl, distinct_rest h.distinct, h.drop_split, h.counts.hits_eq,
    h.counts.misses_eq, h.counts.evictions_eq⟩

theorem Agrees.evict : Agrees cap ttlMs val (ys ++ zs) (s.evict row.id) (r.expire row.key) := by
  refine ⟨h.toKeeps.remove rfl rfl rfl, distinct_rest h.distinct, h.drop_split,
    h.counts.hits_eq, h.counts.misses_eq, ?_⟩
  change s.evictions + 1 = BitVec.ofNat 32 (r.evictions + 1)
  rw [h.counts.evictions_eq, ofNat_succ]

theorem Agrees.hit :
    Agrees cap ttlMs val (row :: (ys ++ zs)) (s.hit row.id) { r with
      entries := (row.key, row.value, row.stamp) :: Reference.drop row.key r.entries
      hits := r.hits + 1 } := by
  refine ⟨h.toKeeps.moveToFront rfl rfl rfl rfl rfl, distinct_middle h.distinct rfl, ?_, ?_,
    h.counts.misses_eq, h.counts.evictions_eq⟩
  · rw [h.drop_split]
    rfl
  · change s.hits + 1 = BitVec.ofNat 32 (r.hits + 1)
    rw [h.counts.hits_eq, ofNat_succ]

theorem Agrees.update (hval : val (row.set value now) = val row) :
    Agrees cap ttlMs val (row.set value now :: (ys ++ zs))
      { s with lru := s.lru.moveToFront row.id } (r.setValue cap now row.key value) := by
  rw [Reference.setValue_of_some h.find_split]
  refine ⟨h.toKeeps.moveToFront rfl hval rfl rfl rfl, distinct_middle h.distinct rfl, ?_,
    h.counts.hits_eq, h.counts.misses_eq, h.counts.evictions_eq⟩
  rw [h.drop_split]
  rfl

end

/-!
## The loop of the setters
-/

variable {evictOldest : C -> Option C}

theorem evictLoop_of_room (hshaped : Shaped cap val rows (state c).lru)
    (hmax : (state c).maxEntries = BitVec.ofNat 32 cap) (hcap : cap < 2 ^ 31)
    (hroom : rows.length <= cap) : evictLoop state evictOldest (fuel + 1) c = some c := by
  rw [evictLoop, if_neg]
  rw [hshaped.listed.size, hmax, toInt_ofNat hcap, toInt_ofNat (Nat.lt_of_le_of_lt hroom hcap)]
  omega

theorem evictLoop_of_full (hshaped : Shaped cap val (ys ++ [last]) (state c).lru)
    (hmax : (state c).maxEntries = BitVec.ofNat 32 cap) (hcap : cap + 1 < 2 ^ 31)
    (hfull : ys.length = cap) (hevict : evictOldest c = some c')
    (hstate : state c' = (state c).evict last.id) :
    evictLoop state evictOldest (fuel + 2) c = some c' := by
  have hrest : Shaped cap val ys (state c').lru := by
    have hremove := hshaped.remove
    rw [append_nil] at hremove
    rw [hstate]
    exact hremove
  have hmax' : (state c').maxEntries = BitVec.ofNat 32 cap := by
    rw [hstate]
    exact hmax
  rw [evictLoop, if_pos, hevict, Option.bind_some]
  · exact evictLoop_of_room hrest hmax' (by omega) (Nat.le_of_eq hfull)
  · have hlength : (ys ++ [last]).length = cap + 1 := by
      rw [length_append, length_singleton, hfull]
    rw [hshaped.listed.size, hlength, hmax, toInt_ofNat hcap, toInt_ofNat (by omega)]
    omega

/-!
## The loop of `EvictExpired`
-/

variable {look : NodeId -> C -> Option (Option C)} {gone : Row K -> Bool}
  {Inv : Nat -> List (Row K) -> C -> Prop}

/-- The loop looks at the rows from the last one on.  The invariant counts the evictions. -/
theorem evictExpiredLoop_of_keeps
    (hkeeps : forall n rows c, Inv n rows c -> Keeps cap ttlMs val rows (state c))
    (hlook : forall n ys row zs c, Inv n (ys ++ row :: zs) c ->
      exists c', look row.id c = (if gone row then some (some c') else some none) ∧
        Inv (n + 1) (ys ++ zs) c')
    (count : Cell) (h : Inv n (ys ++ zs) c) (hfuel : ys.length < fuel) :
    exists c', evictExpiredLoop state look fuel (lastId ys) count c =
        some (count + BitVec.ofNat 32 (ys.countP gone), c') ∧
      Inv (n + ys.countP gone) ((ys.filter fun row => !gone row) ++ zs) c' := by
  induction ys using List.reverseRecOn generalizing c zs fuel count n with
  | nil =>
    rcases Nat.exists_eq_add_one.mpr hfuel with ⟨k, rfl⟩
    refine ⟨c, ?_, h⟩
    rw [evictExpiredLoop]
    exact (if_pos rfl).trans (by simp)
  | append_singleton ys row ih =>
    rcases Nat.exists_eq_add_one.mpr (Nat.lt_of_le_of_lt (Nat.zero_le _) hfuel) with ⟨k, rfl⟩
    rw [length_append, length_singleton] at hfuel
    have hrest : ys.length < k := Nat.lt_of_succ_lt_succ hfuel
    rw [append_assoc] at h
    have hrow : Inv n (ys ++ row :: zs) c := h
    have hlisted := (hkeeps n _ c hrow).shaped.listed
    have hne : row.id ≠ 0 := hlisted.ne_zero (by simp)
    rw [lastId_concat, evictExpiredLoop, if_neg hne, hlisted.prev, countP_append, filter_append]
    rcases hlook n ys row zs c hrow with ⟨c1, hlook, hinv⟩
    cases hexpired : gone row with
    | true =>
      rw [if_pos hexpired] at hlook
      rcases ih (count + 1) hinv hrest with ⟨c', hloop, hinv'⟩
      have hone : [row].countP gone = 1 := by
        simp [hexpired]
      rw [hone, hlook]
      refine ⟨c', ?_, ?_⟩
      · dsimp only
        rw [hloop, ← ofNat_succ, BitVec.add_assoc, BitVec.add_comm 1]
      · rw [Nat.add_right_comm, Nat.add_assoc] at hinv'
        simpa [hexpired] using hinv'
    | false =>
      rcases ih count h hrest with ⟨c', hloop, hinv'⟩
      rw [hlook, if_neg (Bool.eq_false_iff.mp hexpired)]
      refine ⟨c', ?_, ?_⟩
      · dsimp only
        rw [hloop]
        simp [hexpired]
      · simpa [hexpired] using hinv'

theorem evictExpiredWith_of_keeps (state : C -> CacheState)
    (look : NodeId -> C -> Option (Option C)) (Inv : Nat -> List (Row K) -> C -> Prop)
    (now : Time)
    (hkeeps : forall n rows c, Inv n rows c -> Keeps cap ttlMs val rows (state c))
    (hlook : forall n ys row zs c, Inv n (ys ++ row :: zs) c ->
      exists c', look row.id c =
        (if expired ttlMs row.stamp now then some (some c') else some none) ∧
        Inv (n + 1) (ys ++ zs) c')
    (hcap : cap < 2 ^ 31) (h : Inv 0 rows c) :
    exists count c', evictExpiredWith state look c = some (count, c') ∧
      count.toInt = (rows.countP fun row => expired ttlMs row.stamp now : Nat) ∧
      Inv (rows.countP fun row => expired ttlMs row.stamp now)
        (rows.filter fun row => !expired ttlMs row.stamp now) c' := by
  have hall := hkeeps 0 rows c h
  unfold evictExpiredWith
  by_cases httl : (state c).ttlMs.toInt <= 0
  · have hfresh : forall row : Row K, expired ttlMs row.stamp now = false := by
      intro row
      apply expired_of_disabled
      rw [← hall.ttlMs_eq]
      exact httl
    rw [if_pos httl]
    refine ⟨0, c, rfl, ?_, ?_⟩
    · simp [hfresh]
    · simpa [hfresh] using h
  · have hrows : Inv 0 (rows ++ []) c := by
      rw [append_nil]
      exact h
    have hfuel : rows.length < (state c).lru.elements.length + 1 := by
      rw [hall.shaped.listed.elements_eq, length_map]
      exact Nat.lt_succ_self _
    rcases evictExpiredLoop_of_keeps hkeeps hlook 0 hrows hfuel with ⟨c', hloop, hinv⟩
    have hzero : forall n : Cell, 0 + n = n := BitVec.zero_add
    rw [append_nil, Nat.zero_add] at hinv
    rw [hzero] at hloop
    rw [if_neg httl, hall.shaped.listed.last_eq]
    refine ⟨_, c', hloop, toInt_ofNat ?_, hinv⟩
    have hle := countP_le_length (p := fun row : Row K => expired ttlMs row.stamp now)
      (l := rows)
    have hlength := hall.length_le
    omega

/-- The reference in the middle of the sweep. -/
def Reference.swept {K : Type} (r : Reference K) (n : Nat) (rows : List (Row K)) : Reference K :=
  { r with entries := rows.map Row.entry, evictions := r.evictions + n }

theorem Agrees.swept_zero (h : Agrees cap ttlMs val rows s r) : r.swept 0 rows = r := by
  unfold Reference.swept
  rw [← h.entries_eq]
  rfl

theorem Agrees.evictExpired_eq (h : Agrees cap ttlMs val rows s r) (now : Time) :
    (r.evictExpired fun stamp => expired ttlMs stamp now) =
      (rows.countP fun row => expired ttlMs row.stamp now,
        r.swept (rows.countP fun row => expired ttlMs row.stamp now)
          (rows.filter fun row => !expired ttlMs row.stamp now)) := by
  have hcount : (r.entries.countP fun e => expired ttlMs e.2.2 now) =
      rows.countP fun row => expired ttlMs row.stamp now := by
    rw [h.entries_eq, countP_map]
    rfl
  have hfilter : (r.entries.filter fun e => !expired ttlMs e.2.2 now) =
      (rows.filter fun row => !expired ttlMs row.stamp now).map Row.entry := by
    rw [h.entries_eq, filter_map]
    rfl
  unfold Reference.evictExpired Reference.swept
  rw [hcount, hfilter]

variable [DecidableEq K]

theorem Agrees.swept_evict
    (h : Agrees cap ttlMs val (ys ++ row :: zs) s (r.swept n (ys ++ row :: zs))) :
    Agrees cap ttlMs val (ys ++ zs) (s.evict row.id) (r.swept (n + 1) (ys ++ zs)) := by
  have hevict := h.evict
  have hsame : (r.swept n (ys ++ row :: zs)).expire row.key = r.swept (n + 1) (ys ++ zs) := by
    unfold Reference.expire
    rw [h.drop_split]
    rfl
  rw [hsame] at hevict
  exact hevict

theorem evictExpiredWith_of_agrees (state : C -> CacheState)
    (look : NodeId -> C -> Option (Option C))
    (Inv : List (Row K) -> C -> Reference K -> Prop) (now : Time)
    (hagrees : forall rows c r, Inv rows c r -> Agrees cap ttlMs val rows (state c) r)
    (hlook : forall ys row zs c r, Inv (ys ++ row :: zs) c r ->
      exists c', look row.id c =
        (if expired ttlMs row.stamp now then some (some c') else some none) ∧
        forall r', Agrees cap ttlMs val (ys ++ zs) ((state c).evict row.id) r' ->
          Inv (ys ++ zs) c' r')
    (hcap : cap < 2 ^ 31) (h : Inv rows c r) :
    exists count c', evictExpiredWith state look c = some (count, c') ∧
      count.toInt = (r.evictExpired fun stamp => expired ttlMs stamp now).1 ∧
      Inv (rows.filter fun row => !expired ttlMs row.stamp now) c'
        (r.evictExpired fun stamp => expired ttlMs stamp now).2 := by
  have hswept := (hagrees rows c r h).evictExpired_eq now
  rw [← (hagrees rows c r h).swept_zero] at h
  rw [hswept]
  apply evictExpiredWith_of_keeps state look (fun n rows c => Inv rows c (r.swept n rows)) now
    (fun n rows c hinv => (hagrees _ _ _ hinv).toKeeps) _ hcap h
  intro n ys row zs c hinv
  rcases hlook ys row zs c _ hinv with ⟨c', hlook, hinv'⟩
  exact ⟨c', hlook, hinv' _ (hagrees _ _ _ hinv).swept_evict⟩

end Async2.Collections
