import Async2.Collections.NodeList

/-!
# What a cache is for

The reference is the list of the cached entries, the one that was used last in front.  A value
that is set or got moves to the front, an entry too many is dropped from the end, and an entry
that has expired is dropped when it is looked at.  The caches keep the same entries in tables
and in a list of nodes; a row has everything that they know of one of them.
-/

namespace Async2.Collections

open List AssocList
open AssocList (find keys)

/-- Milliseconds since the epoch, an `int64`. -/
abbrev Time := BitVec 64

inductive CacheOp (K : Type) where
  | setValue (key : K) (value : Cell)
  | getValue (key : K)
  | has (key : K)
  | remove (key : K)
  | evictExpired
deriving DecidableEq

inductive CacheAnswer where
  | done
  /-- The value, if `GetValue` succeeds. -/
  | value (value : Option Cell)
  | has (found : Bool)
  | evicted (count : Int)
deriving DecidableEq

/-- The entries in the order of their last use, and what happened so far. -/
structure Reference (K : Type) where
  entries : List (K × Cell × Time)
  hits : Nat
  misses : Nat
  evictions : Nat
deriving DecidableEq

namespace Reference

variable {K : Type} [DecidableEq K]

def init : Reference K := ⟨[], 0, 0, 0⟩

def drop (key : K) (entries : List (K × Cell × Time)) : List (K × Cell × Time) :=
  entries.eraseP fun e => e.1 = key

def setValue (r : Reference K) (cap : Nat) (now : Time) (key : K) (value : Cell) : Reference K :=
  match find key r.entries with
  | some _ => { r with entries := (key, value, now) :: drop key r.entries }
  | none =>
    if r.entries.length < cap then { r with entries := (key, value, now) :: r.entries }
    else { r with
      entries := ((key, value, now) :: r.entries).dropLast
      evictions := r.evictions + 1 }

def expire (r : Reference K) (key : K) : Reference K :=
  { r with entries := drop key r.entries, evictions := r.evictions + 1 }

def getValue (r : Reference K) (expired : Time -> Bool) (key : K) : Option Cell × Reference K :=
  match find key r.entries with
  | none => (none, { r with misses := r.misses + 1 })
  | some (value, stamp) =>
    if expired stamp then
      (none, { r.expire key with misses := r.misses + 1 })
    else
      (some value, { r with
        entries := (key, value, stamp) :: drop key r.entries
        hits := r.hits + 1 })

def has (r : Reference K) (expired : Time -> Bool) (key : K) : Bool × Reference K :=
  match find key r.entries with
  | none => (false, r)
  | some (_, stamp) => if expired stamp then (false, r.expire key) else (true, r)

def remove (r : Reference K) (key : K) : Reference K :=
  { r with entries := drop key r.entries }

def evictExpired (r : Reference K) (expired : Time -> Bool) : Nat × Reference K :=
  let gone := r.entries.countP fun e => expired e.2.2
  (gone, { r with
    entries := r.entries.filter fun e => !expired e.2.2
    evictions := r.evictions + gone })

/-- An operation at a time; `expired` says whether an entry of a stamp has expired then. -/
def call (r : Reference K) (cap : Nat) (expired : Time -> Time -> Bool) (now : Time) :
    CacheOp K -> CacheAnswer × Reference K
  | .setValue key value => (.done, r.setValue cap now key value)
  | .getValue key =>
    let (value, r) := r.getValue (fun stamp => expired stamp now) key
    (.value value, r)
  | .has key =>
    let (found, r) := r.has (fun stamp => expired stamp now) key
    (.has found, r)
  | .remove key => (.done, r.remove key)
  | .evictExpired =>
    let (count, r) := r.evictExpired fun stamp => expired stamp now
    (.evicted count, r)

def run (cap : Nat) (expired : Time -> Time -> Bool) :
    List (Time × CacheOp K) -> Reference K -> List CacheAnswer × Reference K
  | [], r => ([], r)
  | (now, op) :: rest, r =>
    let (answer, r) := r.call cap expired now op
    let (answers, r) := run cap expired rest r
    (answer :: answers, r)

/-!
## The cases of the operations
-/

variable {r : Reference K} {cap : Nat} {expired : Time -> Bool} {now stamp : Time} {key : K}
variable {value old : Cell} {e : K × Cell × Time}

theorem setValue_of_some (hfind : find key r.entries = some (old, stamp)) :
    r.setValue cap now key value =
      { r with entries := (key, value, now) :: drop key r.entries } := by
  unfold setValue
  rw [hfind]

section

variable (hfind : find key r.entries = none)
include hfind

theorem setValue_of_room (hroom : r.entries.length < cap) :
    r.setValue cap now key value = { r with entries := (key, value, now) :: r.entries } := by
  unfold setValue
  rw [hfind]
  exact if_pos hroom

theorem setValue_of_full (hfull : ¬ r.entries.length < cap) :
    r.setValue cap now key value =
      { r with
        entries := ((key, value, now) :: r.entries).dropLast
        evictions := r.evictions + 1 } := by
  unfold setValue
  rw [hfind]
  exact if_neg hfull

theorem getValue_of_none : r.getValue expired key = (none, { r with misses := r.misses + 1 }) := by
  unfold getValue
  rw [hfind]

end

section

variable (hfind : find key r.entries = some (value, stamp))
include hfind

theorem getValue_of_expired (hexpired : expired stamp = true) :
    r.getValue expired key = (none, { r.expire key with misses := r.misses + 1 }) := by
  unfold getValue
  rw [hfind]
  exact if_pos hexpired

theorem getValue_of_fresh (hfresh : expired stamp = false) :
    r.getValue expired key = (some value, { r with
      entries := (key, value, stamp) :: drop key r.entries
      hits := r.hits + 1 }) := by
  unfold getValue
  rw [hfind]
  exact if_neg (Bool.eq_false_iff.mp hfresh)

end

theorem has_of_none (hfind : find key r.entries = none) : r.has expired key = (false, r) := by
  unfold has
  rw [hfind]

section

variable (hfind : find key r.entries = some (value, stamp))
include hfind

theorem has_of_expired (hexpired : expired stamp = true) :
    r.has expired key = (false, r.expire key) := by
  unfold has
  rw [hfind]
  exact if_pos hexpired

theorem has_of_fresh (hfresh : expired stamp = false) : r.has expired key = (true, r) := by
  unfold has
  rw [hfind]
  exact if_neg (Bool.eq_false_iff.mp hfresh)

end

/-!
## Stamps
-/

theorem mem_of_mem_drop {entries : List (K × Cell × Time)} (he : e ∈ drop key entries) :
    e ∈ entries :=
  mem_of_mem_eraseP he

theorem stamp_mem_setValue (he : e ∈ (r.setValue cap now key value).entries) :
    e.2.2 = now ∨ exists e', e' ∈ r.entries ∧ e'.2.2 = e.2.2 := by
  cases hfind : find key r.entries with
  | some found =>
    rw [setValue_of_some hfind] at he
    rcases mem_cons.mp he with rfl | he
    · exact .inl rfl
    · exact .inr ⟨e, mem_of_mem_drop he, rfl⟩
  | none =>
    have hcons : e ∈ (key, value, now) :: r.entries := by
      by_cases hroom : r.entries.length < cap
      · rw [setValue_of_room hfind hroom] at he
        exact he
      · rw [setValue_of_full hfind hroom] at he
        exact (dropLast_sublist _).subset he
    rcases mem_cons.mp hcons with rfl | he
    · exact .inl rfl
    · exact .inr ⟨e, he, rfl⟩

theorem stamp_mem_getValue (he : e ∈ (r.getValue expired key).2.entries) :
    exists e', e' ∈ r.entries ∧ e'.2.2 = e.2.2 := by
  cases hfind : find key r.entries with
  | none =>
    rw [getValue_of_none hfind] at he
    exact ⟨e, he, rfl⟩
  | some found =>
    rcases found with ⟨value, stamp⟩
    cases hexpired : expired stamp with
    | true =>
      rw [getValue_of_expired hfind hexpired] at he
      exact ⟨e, mem_of_mem_drop he, rfl⟩
    | false =>
      rw [getValue_of_fresh hfind hexpired] at he
      rcases mem_cons.mp he with rfl | he
      · exact ⟨_, mem_of_find hfind, rfl⟩
      · exact ⟨e, mem_of_mem_drop he, rfl⟩

theorem mem_of_mem_has (he : e ∈ (r.has expired key).2.entries) : e ∈ r.entries := by
  cases hfind : find key r.entries with
  | none =>
    rw [has_of_none hfind] at he
    exact he
  | some found =>
    rcases found with ⟨value, stamp⟩
    cases hexpired : expired stamp with
    | true =>
      rw [has_of_expired hfind hexpired] at he
      exact mem_of_mem_drop he
    | false =>
      rw [has_of_fresh hfind hexpired] at he
      exact he

theorem stamp_mem_call {expired : Time -> Time -> Bool} {op : CacheOp K}
    (he : e ∈ (r.call cap expired now op).2.entries) :
    e.2.2 = now ∨ exists e', e' ∈ r.entries ∧ e'.2.2 = e.2.2 := by
  cases op with
  | setValue key value => exact stamp_mem_setValue he
  | getValue key => exact .inr (stamp_mem_getValue he)
  | has key => exact .inr ⟨e, mem_of_mem_has he, rfl⟩
  | remove key => exact .inr ⟨e, mem_of_mem_drop he, rfl⟩
  | evictExpired => exact .inr ⟨e, mem_of_mem_filter he, rfl⟩

section

variable {f g : Time -> Bool} (hsame : forall e, e ∈ r.entries -> f e.2.2 = g e.2.2)

include hsame

theorem getValue_congr (key : K) : r.getValue f key = r.getValue g key := by
  unfold getValue
  cases hfind : find key r.entries with
  | none => rfl
  | some found =>
    have hfound := hsame _ (mem_of_find hfind)
    dsimp only at hfound ⊢
    rw [hfound]

theorem has_congr (key : K) : r.has f key = r.has g key := by
  unfold has
  cases hfind : find key r.entries with
  | none => rfl
  | some found =>
    have hfound := hsame _ (mem_of_find hfind)
    dsimp only at hfound ⊢
    rw [hfound]

omit [DecidableEq K] in
theorem evictExpired_congr : r.evictExpired f = r.evictExpired g := by
  have hcount : (r.entries.countP fun e => f e.2.2) = r.entries.countP fun e => g e.2.2 :=
    countP_congr fun e he => by rw [hsame e he]
  have hfilter : (r.entries.filter fun e => !f e.2.2) = r.entries.filter fun e => !g e.2.2 :=
    filter_congr fun e he => by rw [hsame e he]
  unfold evictExpired
  dsimp only
  rw [hcount, hfilter]

end

theorem call_congr {f g : Time -> Time -> Bool}
    (hsame : forall e, e ∈ r.entries -> f e.2.2 now = g e.2.2 now) (op : CacheOp K) :
    r.call cap f now op = r.call cap g now op := by
  cases op with
  | setValue key value => rfl
  | getValue key =>
    have hget : r.getValue (fun stamp => f stamp now) key =
        r.getValue (fun stamp => g stamp now) key := getValue_congr hsame key
    unfold call
    dsimp only
    rw [hget]
  | has key =>
    have hhas : r.has (fun stamp => f stamp now) key =
        r.has (fun stamp => g stamp now) key := has_congr hsame key
    unfold call
    dsimp only
    rw [hhas]
  | remove key => rfl
  | evictExpired =>
    have hevict : (r.evictExpired fun stamp => f stamp now) =
        r.evictExpired fun stamp => g stamp now := evictExpired_congr hsame
    unfold call
    dsimp only
    rw [hevict]

end Reference

/-- What a cache knows of an entry. -/
structure Row (K : Type) where
  id : NodeId
  key : K
  value : Cell
  stamp : Time

def Row.set {K : Type} (row : Row K) (value : Cell) (now : Time) : Row K :=
  { row with value := value, stamp := now }

def Row.entry {K : Type} (row : Row K) : K × Cell × Time := (row.key, row.value, row.stamp)

variable {K : Type} {rows ys zs : List (Row K)} {row : Row K} {key : K}

theorem keys_map_entry (rows : List (Row K)) : keys (rows.map Row.entry) = rows.map Row.key := by
  unfold AssocList.keys
  rw [map_map]
  rfl

theorem not_mem_of_nodup {A : Type} {f : Row K -> A}
    (hdistinct : ((ys ++ row :: zs).map f).Nodup) : f row ∉ ys.map f ∧ f row ∉ zs.map f := by
  rw [map_append, map_cons, nodup_append, nodup_cons] at hdistinct
  exact ⟨fun hmem => hdistinct.right.right _ hmem _ mem_cons_self rfl, hdistinct.right.left.left⟩

variable [DecidableEq K]

theorem find_entries_none (hkey : key ∉ rows.map Row.key) :
    find key (rows.map Row.entry) = none := by
  rw [find_eq_none_iff, keys_map_entry]
  exact hkey

variable (hdistinct : ((ys ++ row :: zs).map Row.key).Nodup)
include hdistinct

theorem find_entries_split :
    find row.key ((ys ++ row :: zs).map Row.entry) = some (row.value, row.stamp) := by
  rw [map_append, map_cons]
  apply find_middle
  rw [keys_map_entry]
  exact (not_mem_of_nodup hdistinct).left

theorem drop_entries_split :
    Reference.drop row.key ((ys ++ row :: zs).map Row.entry) = (ys ++ zs).map Row.entry := by
  rw [map_append, map_cons, map_append]
  apply eraseP_middle
  rw [keys_map_entry]
  exact (not_mem_of_nodup hdistinct).left

end Async2.Collections
