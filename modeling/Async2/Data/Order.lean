import Async2.Data.Node

/-!
# Iteration order

A hash map may be iterated in any order, and the order of a map is not the order
in which its entries came.  `Reorders n n'` says that `n'` is the tree `n` with its
maps listed in another order.
-/

namespace Async2.DataNode

open AssocList

/-- The two trees differ in the order of map entries only. -/
inductive Reorders : DataNode -> DataNode -> Prop where
  | same (n : DataNode) : Reorders n n
  | array {es es' : List DataNode} (hlength : es.length = es'.length)
      (helems : forall (i : Nat) (e e' : DataNode), es[i]? = some e ->
        es'[i]? = some e' -> Reorders e e') :
      Reorders (.array es) (.array es')
  | object {es es' : List (Bytes × DataNode)} (hkeys : (keys es).Perm (keys es'))
      (hvalues : forall (k : Bytes) (v v' : DataNode), (k, v) ∈ es -> (k, v') ∈ es' ->
        Reorders v v') :
      Reorders (.object es) (.object es')
  | intMap {es es' : List (Int64 × DataNode)} (hkeys : (keys es).Perm (keys es'))
      (hvalues : forall (k : Int64) (v v' : DataNode), (k, v) ∈ es -> (k, v') ∈ es' ->
        Reorders v v') :
      Reorders (.intMap es) (.intMap es')

variable {t u : DataNode} {K V W : Type} {es : List (K × V)} {es' : List (K × W)}

theorem find_of_perm [DecidableEq K] (h : (keys es).Perm (keys es')) (k : K) :
    (find k es = none ∧ find k es' = none) ∨
      exists v v', find k es = some v ∧ find k es' = some v' := by
  cases hes : find k es with
  | none =>
    left
    refine ⟨rfl, ?_⟩
    rw [find_eq_none_iff] at hes ⊢
    rwa [← h.mem_iff]
  | some v =>
    right
    cases hes' : find k es' with
    | none =>
      rw [find_eq_none_iff, ← h.mem_iff, ← find_eq_none_iff, hes] at hes'
      cases hes'
    | some v' => exact ⟨v, v', rfl, rfl⟩

theorem exists_of_perm (h : (keys es).Perm (keys es')) {e : K × W} (he : e ∈ es') :
    exists v, (e.1, v) ∈ es := by
  have hkey : e.1 ∈ keys es := h.mem_iff.mpr (List.mem_map_of_mem he)
  rcases List.mem_map.mp hkey with ⟨⟨k, v⟩, hmem, rfl⟩
  exact ⟨v, hmem⟩

theorem exists_of_length {es : List V} {es' : List W} (h : es.length = es'.length) {e' : W}
    (he : e' ∈ es') : exists (i : Nat) (e : V), es[i]? = some e ∧ es'[i]? = some e' := by
  rcases List.getElem?_of_mem he with ⟨i, hi⟩
  rcases List.getElem?_eq_some_iff.mp hi with ⟨hlt, _⟩
  have hlt' : i < es.length := by omega
  exact ⟨i, es[i], List.getElem?_eq_getElem hlt', hi⟩

theorem exists_of_index {es : List V} {es' : List W} (h : es.length = es'.length) {i : Nat}
    {e : V} (he : es[i]? = some e) : exists e', es'[i]? = some e' := by
  rcases List.getElem?_eq_some_iff.mp he with ⟨hlt, _⟩
  exact ⟨_, List.getElem?_eq_getElem (Nat.lt_of_lt_of_eq hlt h)⟩

theorem map_eq_of_elems {X : Type} {f : V -> X} {g : W -> X} {es : List V} {es' : List W}
    (hlength : es.length = es'.length)
    (h : forall (i : Nat) (e : V) (e' : W), es[i]? = some e -> es'[i]? = some e' -> f e = g e') :
    es.map f = es'.map g := by
  refine List.ext_getElem? ?_
  intro i
  rw [List.getElem?_map, List.getElem?_map]
  cases hes : es[i]? with
  | none =>
    have hle := List.getElem?_eq_none_iff.mp hes
    rw [List.getElem?_eq_none (by omega)]
    rfl
  | some e =>
    cases hes' : es'[i]? with
    | none =>
      have hle := List.getElem?_eq_none_iff.mp hes'
      rw [List.getElem?_eq_none (by omega)] at hes
      cases hes
    | some e' => exact congrArg some (h i e e' hes hes')

theorem Reorders.symm (h : Reorders t u) : Reorders u t := by
  induction h with
  | same n => exact .same n
  | array hlength _ ih => exact .array hlength.symm fun i e e' he he' => ih i e' e he' he
  | object hkeys _ ih => exact .object hkeys.symm fun k v v' hv hv' => ih k v' v hv' hv
  | intMap hkeys _ ih => exact .intMap hkeys.symm fun k v v' hv hv' => ih k v' v hv' hv

theorem Reorders.trans {w : DataNode} (h : Reorders t u) (h' : Reorders u w) : Reorders t w := by
  induction h generalizing w with
  | same n => exact h'
  | array hlength helems ih =>
    cases h' with
    | same => exact .array hlength helems
    | array hlength' helems' =>
      refine .array (hlength.trans hlength') fun i e e'' he he'' => ?_
      rcases exists_of_index hlength he with ⟨e', he'⟩
      exact ih i e e' he he' (helems' i e' e'' he' he'')
  | object hkeys hvalues ih =>
    cases h' with
    | same => exact .object hkeys hvalues
    | object hkeys' hvalues' =>
      refine .object (hkeys.trans hkeys') fun k v v'' hv hv'' => ?_
      rcases exists_of_perm hkeys' hv'' with ⟨v', hv'⟩
      exact ih k v v' hv hv' (hvalues' k v' v'' hv' hv'')
  | intMap hkeys hvalues ih =>
    cases h' with
    | same => exact .intMap hkeys hvalues
    | intMap hkeys' hvalues' =>
      refine .intMap (hkeys.trans hkeys') fun k v v'' hv hv'' => ?_
      rcases exists_of_perm hkeys' hv'' with ⟨v', hv'⟩
      exact ih k v v' hv hv' (hvalues' k v' v'' hv' hv'')

end Async2.DataNode
