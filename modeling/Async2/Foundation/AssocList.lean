import Mathlib.Data.List.Nodup

/-!
# Association lists as finite maps

A finite map is the list of its entries in iteration order.  The order itself
carries no meaning, but two ways of adding an entry do: `upsert` lets a later
entry replace an earlier one with the same key, `emplace` keeps the earlier
entry.  Both leave the other entries alone and keep the keys distinct.
-/

namespace Async2

/-- Lookups are chained in `do` blocks: one that succeeds hands on its value. -/
theorem some_bind {A B : Type} (a : A) (f : A -> Option B) : (some a >>= f) = f a := rfl

namespace AssocList

open List

variable {K V : Type}

def keys (es : List (K × V)) : List K := es.map Prod.fst

def DistinctKeys (es : List (K × V)) : Prop := (keys es).Nodup

variable {es : List (K × V)} {e : K × V} {k : K} {entries : List (K × V)}

@[simp] theorem keys_nil : keys ([] : List (K × V)) = [] := rfl

@[simp] theorem keys_cons (e : K × V) (es : List (K × V)) : keys (e :: es) = e.1 :: keys es := rfl

@[simp] theorem keys_append (es fs : List (K × V)) : keys (es ++ fs) = keys es ++ keys fs := by
  simp [keys]

theorem fresh_of_distinct {rest : List (K × V)} (h : DistinctKeys (es ++ e :: rest)) :
    e.1 ∉ keys es := by
  unfold DistinctKeys at h
  rw [keys_append, keys_cons] at h
  intro hmem
  exact (nodup_append.mp h).right.right e.1 hmem e.1 (by simp) rfl

variable [DecidableEq K]

/-- The value stored first for a key. -/
def find (k : K) : List (K × V) -> Option V
  | [] => none
  | (k', v) :: rest => if k' = k then some v else find k rest

/-- Add an entry; a later entry replaces an earlier one with the same key. -/
def upsert (k : K) (v : V) : List (K × V) -> List (K × V)
  | [] => [(k, v)]
  | (k', v') :: rest =>
    if k' = k then (k, v) :: rest else (k', v') :: upsert k v rest

/-- Add an entry; an earlier entry with the same key stays. -/
def emplace (k : K) (v : V) (es : List (K × V)) : List (K × V) :=
  if k ∈ keys es then es else es ++ [(k, v)]

/-- Add a list of entries one after the other, later ones winning. -/
def upsertAll (es entries : List (K × V)) : List (K × V) :=
  entries.foldl (fun acc e => upsert e.1 e.2 acc) es

/-- Add a list of entries one after the other, earlier ones winning. -/
def emplaceAll (es entries : List (K × V)) : List (K × V) :=
  entries.foldl (fun acc e => emplace e.1 e.2 acc) es

instance (es : List (K × V)) : Decidable (DistinctKeys es) :=
  inferInstanceAs (Decidable (keys es).Nodup)

/-!
## Looking keys up
-/

theorem find_eq_none_iff : find k es = none <-> k ∉ keys es := by
  induction es with
  | nil => simp [find]
  | cons e rest ih =>
    by_cases heq : e.1 = k
    · simp [find, heq]
    · simp [find, heq, Ne.symm heq, ih]

theorem mem_of_find {v : V} (h : find k es = some v) : (k, v) ∈ es := by
  induction es with
  | nil => cases h
  | cons e rest ih =>
    rcases e with ⟨k', v'⟩
    rw [find] at h
    split at h
    · rename_i heq
      rw [← heq, ← Option.some.inj h]
      exact mem_cons_self
    · exact mem_cons_of_mem _ (ih h)

theorem find_of_mem (h : DistinctKeys es) (he : e ∈ es) : find e.1 es = some e.2 := by
  induction es with
  | nil => cases he
  | cons e' rest ih =>
    rcases nodup_cons.mp h with ⟨hnot, hrest⟩
    rcases mem_cons.mp he with rfl | hmem
    · rw [find, if_pos rfl]
    · have hne : e'.1 ≠ e.1 := by
        intro heq
        rw [heq] at hnot
        exact hnot (mem_map_of_mem hmem)
      rw [find, if_neg hne]
      exact ih hrest hmem

theorem find_append (k : K) (es fs : List (K × V)) :
    find k (es ++ fs) = (find k es).or (find k fs) := by
  induction es with
  | nil => simp [find]
  | cons e rest ih =>
    by_cases heq : e.1 = k
    · simp [find, heq]
    · simp [find, heq, ih]

theorem find_map {W : Type} (f : V -> W) (k : K) (es : List (K × V)) :
    find k (es.map fun e => (e.1, f e.2)) = (find k es).map f := by
  induction es with
  | nil => rfl
  | cons e rest ih =>
    by_cases heq : e.1 = k
    · simp [find, heq]
    · simp [find, heq, ih]

/-!
## Later entries win
-/

theorem upsert_of_not_mem {v : V} (h : k ∉ keys es) : upsert k v es = es ++ [(k, v)] := by
  induction es with
  | nil => rfl
  | cons e rest ih =>
    have hne : e.1 ≠ k := by
      intro heq
      exact h (by simp [heq])
    have hrest : k ∉ keys rest := by
      intro hmem
      exact h (by simp [hmem])
    simp [upsert, hne, ih hrest]

theorem keys_upsert (k : K) (v : V) (es : List (K × V)) :
    keys (upsert k v es) = if k ∈ keys es then keys es else keys es ++ [k] := by
  induction es with
  | nil => rfl
  | cons e rest ih =>
    by_cases heq : e.1 = k
    · simp [upsert, heq]
    · by_cases hmem : k ∈ keys rest
      · simp [upsert, heq, ih, hmem]
      · simp [upsert, heq, Ne.symm heq, ih, hmem]

theorem distinctKeys_upsert (h : DistinctKeys es) (k : K) (v : V) :
    DistinctKeys (upsert k v es) := by
  unfold DistinctKeys at *
  rw [keys_upsert]
  split
  · exact h
  · rename_i hmem
    exact nodup_append.mpr
      ⟨h, nodup_singleton k, by
        intro a ha b hb heq
        rw [mem_singleton.mp hb] at heq
        exact hmem (heq ▸ ha)⟩

theorem find_upsert (k k' : K) (v : V) (es : List (K × V)) :
    find k' (upsert k v es) = if k = k' then some v else find k' es := by
  induction es with
  | nil => rfl
  | cons e rest ih =>
    by_cases heq : e.1 = k
    · by_cases hk : k = k'
      · simp [upsert, find, heq, hk]
      · simp [upsert, find, heq, hk]
    · by_cases hk : k = k'
      · subst hk
        simpa [upsert, find, heq] using ih
      · simp [upsert, find, heq, ih, hk]

@[simp] theorem upsertAll_nil (es : List (K × V)) : upsertAll es [] = es := rfl

@[simp] theorem upsertAll_cons (es : List (K × V)) (e : K × V) (entries : List (K × V)) :
    upsertAll es (e :: entries) = upsertAll (upsert e.1 e.2 es) entries := rfl

theorem upsertAll_of_distinct (h : DistinctKeys (es ++ entries)) :
    upsertAll es entries = es ++ entries := by
  induction entries generalizing es with
  | nil => simp
  | cons e rest ih =>
    have hassoc : es ++ e :: rest = (es ++ [e]) ++ rest := by simp
    have hfresh := fresh_of_distinct h
    rw [upsertAll_cons, upsert_of_not_mem hfresh, hassoc]
    rw [hassoc] at h
    exact ih h

theorem length_upsert (k : K) (v : V) (es : List (K × V)) :
    (upsert k v es).length = if k ∈ keys es then es.length else es.length + 1 := by
  have hlength : forall fs : List (K × V), (keys fs).length = fs.length :=
    fun fs => length_map Prod.fst
  rw [← hlength, keys_upsert]
  split
  · exact hlength es
  · rw [length_append, hlength]
    rfl

theorem length_upsertAll_le (es entries : List (K × V)) :
    (upsertAll es entries).length <= es.length + entries.length := by
  induction entries generalizing es with
  | nil => exact Nat.le_refl _
  | cons e rest ih =>
    have hrest := ih (upsert e.1 e.2 es)
    rw [length_upsert] at hrest
    rw [upsertAll_cons, length_cons]
    split at hrest <;> omega

/-- When no entry has replaced another one, the keys were distinct. -/
theorem distinct_of_length_upsertAll (hes : DistinctKeys es)
    (h : (upsertAll es entries).length = es.length + entries.length) :
    DistinctKeys (es ++ entries) := by
  induction entries generalizing es with
  | nil => rwa [append_nil]
  | cons e rest ih =>
    have hrest := length_upsertAll_le (upsert e.1 e.2 es) rest
    rw [upsertAll_cons, length_cons] at h
    have hfresh : e.1 ∉ keys es := by
      intro hmem
      rw [length_upsert, if_pos hmem] at hrest
      omega
    have hdistinct := distinctKeys_upsert hes e.1 e.2
    rw [upsert_of_not_mem hfresh] at h hdistinct
    have hall := ih hdistinct (by
      rw [h, length_append, length_singleton]
      omega)
    rwa [append_assoc] at hall

/-!
## Earlier entries win
-/

theorem find_emplace (k k' : K) (v : V) (es : List (K × V)) :
    find k' (emplace k v es) = (find k' es).or (if k = k' then some v else none) := by
  unfold emplace
  split
  · rename_i hmem
    by_cases hk : k = k'
    · subst hk
      cases hfind : find k es with
      | none => exact absurd hmem (find_eq_none_iff.mp hfind)
      | some v' => rfl
    · simp [hk]
  · rw [find_append]
    rfl

theorem find_emplaceAll (k : K) (es entries : List (K × V)) :
    find k (emplaceAll es entries) = (find k es).or (find k entries) := by
  induction entries generalizing es with
  | nil => simp [emplaceAll, find]
  | cons e rest ih =>
    change find k (emplaceAll (emplace e.1 e.2 es) rest) = _
    rw [ih, find_emplace, Option.or_assoc]
    congr 1
    by_cases he : e.1 = k <;> simp [find, he]

theorem mem_emplaceAll (h : e ∈ emplaceAll es entries) : e ∈ es ∨ e ∈ entries := by
  induction entries generalizing es with
  | nil => exact .inl h
  | cons x rest ih =>
    change e ∈ emplaceAll (emplace x.1 x.2 es) rest at h
    rcases ih h with hes | hrest
    · unfold emplace at hes
      split at hes
      · exact .inl hes
      · rcases mem_append.mp hes with hes | hx
        · exact .inl hes
        · exact .inr (by simp [mem_singleton.mp hx])
    · exact .inr (by simp [hrest])

theorem emplaceAll_of_distinct (h : DistinctKeys (es ++ entries)) :
    emplaceAll es entries = es ++ entries := by
  induction entries generalizing es with
  | nil => simp [emplaceAll]
  | cons e rest ih =>
    have hassoc : es ++ e :: rest = (es ++ [e]) ++ rest := by simp
    have hfresh := fresh_of_distinct h
    change emplaceAll (emplace e.1 e.2 es) rest = _
    rw [emplace, if_neg hfresh, hassoc]
    rw [hassoc] at h
    exact ih h

end AssocList
end Async2
