import Async2.Foundation.AssocList

/-!
# Finite maps

An association list together with the fact that its keys are distinct, so that
every entry is the only one of its key.  The entries are in iteration order, which
carries no meaning.  The lemmas say what becomes of the values that a map holds when
an entry is added, replaced or erased, and that two maps stay related entry by entry.
-/

namespace Async2

open AssocList List

/-- A finite map. -/
structure Dict (K V : Type) where
  entries : List (K × V)
  distinct : DistinctKeys entries

namespace Dict

variable {K V : Type} {W : Type} {d : Dict K V} {es : List (K × V)} {k : K} {old : V}

@[ext] theorem ext {e : Dict K V} (h : d.entries = e.entries) : d = e := by
  cases d
  cases e
  cases h
  rfl

def empty : Dict K V := ⟨[], nodup_nil⟩

def values (d : Dict K V) : List V := d.entries.map Prod.snd

@[simp] theorem values_empty : (empty : Dict K V).values = [] := rfl

variable [DecidableEq K]

def find (d : Dict K V) (k : K) : Option V := AssocList.find k d.entries

/-- A later entry replaces an earlier one with the same key. -/
def insert (d : Dict K V) (k : K) (v : V) : Dict K V :=
  ⟨upsert k v d.entries, distinctKeys_upsert d.distinct k v⟩

theorem keys_eraseP_sublist (k : K) (es : List (K × V)) :
    (keys (es.eraseP fun e => e.1 = k)).Sublist (keys es) :=
  eraseP_sublist.map Prod.fst

def erase (d : Dict K V) (k : K) : Dict K V :=
  ⟨d.entries.eraseP fun e => e.1 = k, (keys_eraseP_sublist k d.entries).nodup d.distinct⟩

theorem distinctKeys_emplace (h : DistinctKeys es) (k : K) (v : V) :
    DistinctKeys (AssocList.emplace k v es) := by
  unfold AssocList.emplace
  split
  · exact h
  case isFalse hmem =>
    have hupsert := distinctKeys_upsert h k v
    rw [upsert_of_not_mem hmem] at hupsert
    exact hupsert

/-- An earlier entry with the same key stays. -/
def emplace (d : Dict K V) (k : K) (v : V) : Dict K V :=
  ⟨AssocList.emplace k v d.entries, distinctKeys_emplace d.distinct k v⟩

omit [DecidableEq K] in
theorem keys_mapValues (f : K -> V -> W) (es : List (K × V)) :
    keys (es.map fun e => (e.1, f e.1 e.2)) = keys es := by
  unfold AssocList.keys
  rw [map_map]
  rfl

omit [DecidableEq K] in
/-- The map with other values under the same keys. -/
def mapValues {W : Type} (f : K -> V -> W) (d : Dict K V) : Dict K W :=
  ⟨d.entries.map fun e => (e.1, f e.1 e.2), by
    unfold DistinctKeys
    rw [keys_mapValues]
    exact d.distinct⟩

theorem find_mapValues (f : K -> V -> W) (d : Dict K V) (k : K) :
    (d.mapValues f).find k = (d.find k).map (f k) := by
  change AssocList.find k (d.entries.map _) = (AssocList.find k d.entries).map _
  induction d.entries with
  | nil => rfl
  | cons e rest ih =>
    rw [map_cons, AssocList.find, AssocList.find]
    split
    case isTrue hk =>
      subst hk
      rfl
    · exact ih

/-!
## Values
-/

theorem mem_values_of_find {v : V} (h : d.find k = some v) : v ∈ d.values :=
  mem_map_of_mem (mem_of_find h)

theorem find_eq_none_iff : d.find k = none <-> k ∉ keys d.entries :=
  AssocList.find_eq_none_iff

theorem find_insert (d : Dict K V) (k k' : K) (v : V) :
    (d.insert k v).find k' = if k = k' then some v else d.find k' :=
  find_upsert k k' v d.entries

theorem find_eraseP_of_ne {k' : K} (hk : k ≠ k') (es : List (K × V)) :
    AssocList.find k' (es.eraseP fun e => e.1 = k) = AssocList.find k' es := by
  induction es with
  | nil => rfl
  | cons e rest ih =>
    rcases e with ⟨k1, v1⟩
    by_cases h1 : k1 = k
    · subst h1
      rw [eraseP_cons_of_pos (by simp), AssocList.find, if_neg hk]
    · rw [eraseP_cons_of_neg (by simpa using h1), AssocList.find, AssocList.find, ih]

theorem not_mem_keys_eraseP (k : K) (h : DistinctKeys es) :
    k ∉ keys (es.eraseP fun e => e.1 = k) := by
  induction es with
  | nil => exact not_mem_nil
  | cons e rest ih =>
    rcases e with ⟨k1, v1⟩
    have hrest := nodup_cons.mp h
    by_cases h1 : k1 = k
    · subst h1
      rw [eraseP_cons_of_pos (by simp)]
      exact hrest.left
    · rw [eraseP_cons_of_neg (by simpa using h1), AssocList.keys_cons]
      intro hmem
      rcases mem_cons.mp hmem with heq | hmem
      · exact h1 heq.symm
      · exact ih hrest.right hmem

theorem find_erase (d : Dict K V) (k k' : K) :
    (d.erase k).find k' = if k = k' then none else d.find k' := by
  split
  case isTrue hk =>
    subst hk
    exact find_eq_none_iff.mpr (not_mem_keys_eraseP k d.distinct)
  case isFalse hk => exact find_eraseP_of_ne hk d.entries

omit [DecidableEq K] in
theorem length_values (d : Dict K V) : d.values.length = d.entries.length :=
  length_map _

theorem values_insert_of_none (h : d.find k = none) (v : V) :
    (d.insert k v).values = d.values ++ [v] := by
  change (upsert k v d.entries).map Prod.snd = d.entries.map Prod.snd ++ [v]
  rw [upsert_of_not_mem (find_eq_none_iff.mp h), map_append]
  rfl

theorem map_snd_upsert_perm (v : V) (h : AssocList.find k es = some old) :
    (old :: (upsert k v es).map Prod.snd).Perm (v :: es.map Prod.snd) := by
  induction es with
  | nil => cases h
  | cons e rest ih =>
    rcases e with ⟨k', v'⟩
    rw [AssocList.find] at h
    rw [upsert]
    split at h
    case isTrue hk =>
      cases h
      rw [if_pos hk]
      exact List.Perm.swap _ _ _
    case isFalse hk =>
      rw [if_neg hk]
      exact (List.Perm.swap _ _ _).trans (((ih h).cons v').trans (List.Perm.swap _ _ _))

theorem values_insert_of_some (h : d.find k = some old) (v : V) :
    (old :: (d.insert k v).values).Perm (v :: d.values) :=
  map_snd_upsert_perm v h

theorem map_snd_eraseP_perm (h : AssocList.find k es = some old) :
    (old :: (es.eraseP fun e => e.1 = k).map Prod.snd).Perm (es.map Prod.snd) := by
  induction es with
  | nil => cases h
  | cons e rest ih =>
    rcases e with ⟨k', v'⟩
    rw [AssocList.find] at h
    split at h
    case isTrue hk =>
      cases h
      rw [eraseP_cons_of_pos (by simpa using hk)]
      exact List.Perm.refl _
    case isFalse hk =>
      rw [eraseP_cons_of_neg (by simpa using hk)]
      exact (List.Perm.swap _ _ _).trans ((ih h).cons v')

theorem values_erase (h : d.find k = some old) : (old :: (d.erase k).values).Perm d.values :=
  map_snd_eraseP_perm h

theorem length_erase (h : d.find k = some old) :
    (d.erase k).entries.length + 1 = d.entries.length := by
  rw [← length_values, ← length_values, ← (values_erase h).length_eq, length_cons]

theorem length_insert_of_none (h : d.find k = none) (v : V) :
    (d.insert k v).entries.length = d.entries.length + 1 := by
  rw [← length_values, ← length_values, values_insert_of_none h, length_append, length_singleton]

theorem length_insert_le (d : Dict K V) (k : K) (v : V) :
    (d.insert k v).entries.length <= d.entries.length + 1 := by
  cases h : d.find k with
  | none => exact Nat.le_of_eq (length_insert_of_none h v)
  | some old =>
    have hperm := (values_insert_of_some h v).length_eq
    rw [length_cons, length_cons, length_values, length_values] at hperm
    omega

theorem find_of_erase {k' : K} {v : V} (h : (d.erase k).find k' = some v) : d.find k' = some v := by
  rw [find_erase] at h
  split at h
  · cases h
  · exact h

theorem erase_of_none (h : d.find k = none) : d.erase k = d := by
  apply ext
  change d.entries.eraseP _ = d.entries
  apply eraseP_of_forall_not
  intro e he hk
  have hmem : e.1 ∈ keys d.entries := mem_map_of_mem he
  rw [of_decide_eq_true hk] at hmem
  exact find_eq_none_iff.mp h hmem

theorem values_find_erase (d : Dict K V) (k : K) :
    ((d.find k).toList ++ (d.erase k).values).Perm d.values := by
  cases h : d.find k with
  | none =>
    rw [erase_of_none h]
    exact List.Perm.refl _
  | some old => exact values_erase h

theorem values_emplace_of_none (h : d.find k = none) (v : V) :
    (d.emplace k v).values = d.values ++ [v] := by
  change (AssocList.emplace k v d.entries).map Prod.snd = d.entries.map Prod.snd ++ [v]
  unfold AssocList.emplace
  rw [if_neg (find_eq_none_iff.mp h), map_append]
  rfl

end Dict

/-!
## Maps related entry by entry
-/

namespace AssocList

variable {K V W : Type} {R : V -> W -> Prop} {es : List (K × V)} {fs : List (K × W)}

/-- The same keys in the same order, with related values. -/
def Related (R : V -> W -> Prop) (es : List (K × V)) (fs : List (K × W)) : Prop :=
  List.Forall₂ (fun e f => e.1 = f.1 ∧ R e.2 f.2) es fs

variable {v : V} {w : W}

theorem Related.keys_eq (h : Related R es fs) : keys es = keys fs := by
  induction h with
  | nil => rfl
  | cons hef _ ih => rw [keys_cons, keys_cons, hef.left, ih]

theorem Related.append_one (h : Related R es fs) (k : K) (hvw : R v w) :
    Related R (es ++ [(k, v)]) (fs ++ [(k, w)]) :=
  rel_append h (.cons ⟨rfl, hvw⟩ .nil)

variable [DecidableEq K]

variable (h : Related R es fs)
include h

theorem Related.find_rel (key : K) : match find key es, find key fs with
    | some x, some s => R x s
    | none, none => True
    | _, _ => False := by
  induction h with
  | nil => trivial
  | @cons e f _ _ hef _ ih =>
    rcases e with ⟨k1, x⟩
    rcases f with ⟨k2, s⟩
    rcases hef with ⟨hk, hxs⟩
    change k1 = k2 at hk
    subst hk
    by_cases hkey : k1 = key
    · rw [find, find, if_pos hkey, if_pos hkey]
      exact hxs
    · rw [find, find, if_neg hkey, if_neg hkey]
      exact ih

theorem Related.upsert (k : K) (hvw : R v w) :
    Related R (AssocList.upsert k v es) (AssocList.upsert k w fs) := by
  induction h with
  | nil => exact .cons ⟨rfl, hvw⟩ .nil
  | @cons e f es fs hef hrest ih =>
    rcases e with ⟨k1, v1⟩
    rcases f with ⟨k2, w2⟩
    rcases hef with ⟨hk, hR⟩
    change k1 = k2 at hk
    subst hk
    rw [AssocList.upsert, AssocList.upsert]
    split
    · exact .cons ⟨rfl, hvw⟩ hrest
    · exact .cons ⟨rfl, hR⟩ ih

theorem Related.emplace {k : K} (hfresh : k ∉ keys es) (hvw : R v w) :
    Related R (AssocList.emplace k v es) (AssocList.emplace k w fs) := by
  unfold AssocList.emplace
  rw [if_neg hfresh, if_neg (h.keys_eq ▸ hfresh)]
  exact h.append_one k hvw

end AssocList
end Async2
