import Async2.Data.Order
import Async2.Ownership.Faithful

/-!
# Nodes with the same content

The trees of a node on two heaps differ in the order of map entries only, if this is so for
its children, and the other way round.  The node may be copied on one of the heaps.
-/

namespace Async2.Ownership

open AssocList DataNode List

section

variable {R R' : Nat -> DataNode -> Prop} {c : Content} {t t' : DataNode} {x : Nat} {K : Type}
  {m : Dict K Nat} {es : List (K × DataNode)}

theorem forall₂_index {α β : Type} {Q : α -> β -> Prop} {xs : List α} {ys : List β}
    (h : List.Forall₂ Q xs ys) {i : Nat} {y : β} (hy : ys[i]? = some y) :
    exists x, xs[i]? = some x ∧ Q x y := by
  induction h generalizing i with
  | nil => cases hy
  | @cons x y' xs ys hxy _ ih =>
    cases i with
    | zero =>
      cases hy
      exact ⟨x, rfl, hxy⟩
    | succ i => exact ih hy

theorem related_entry [DecidableEq K] (h : Related R m.entries es) {k : K} {v : DataNode}
    (hv : (k, v) ∈ es) : exists x, m.find k = some x ∧ R x v := by
  have hrel := h.find_rel k
  rw [find_of_mem (distinct_of_related h) hv] at hrel
  unfold Dict.find
  cases hfind : find k m.entries with
  | none =>
    rw [hfind] at hrel
    exact hrel.elim
  | some x =>
    rw [hfind] at hrel
    exact ⟨x, rfl, hrel⟩

theorem related_child [DecidableEq K] (h : Related R m.entries es) {k : K}
    (hx : m.find k = some x) : exists v, (k, v) ∈ es ∧ R x v := by
  have hrel := h.find_rel k
  unfold Dict.find at hx
  rw [hx] at hrel
  cases hfind : find k es with
  | none =>
    rw [hfind] at hrel
    exact hrel.elim
  | some v =>
    rw [hfind] at hrel
    exact ⟨v, mem_of_find hfind, hrel⟩

theorem exists_find [DecidableEq K] (hx : x ∈ m.values) : exists k, m.find k = some x := by
  rcases mem_map.mp hx with ⟨e, he, rfl⟩
  exact ⟨e.1, find_of_mem m.distinct he⟩

/-!
## From the children to the trees
-/

theorem Shows.reorders (h : Shows R c t) (h' : Shows R' c t')
    (hR : forall x s s', x ∈ c.children -> R x s -> R' x s' -> s.Reorders s') : t.Reorders t' := by
  have hmaps : forall {K : Type} [DecidableEq K] {m : Dict K Nat} {es es' : List (K × DataNode)},
      m.values = c.children -> Related R m.entries es -> Related R' m.entries es' ->
      (keys es).Perm (keys es') ∧ forall k v v', (k, v) ∈ es -> (k, v') ∈ es' ->
        v.Reorders v' := by
    intro K _ m es es' hm hes hes'
    constructor
    · rw [← hes.keys_eq, ← hes'.keys_eq]
    · intro k v v' hv hv'
      rcases related_entry hes hv with ⟨x, hx, hxv⟩
      rcases related_entry hes' hv' with ⟨x', hx', hxv'⟩
      rw [hx] at hx'
      cases hx'
      refine hR x v v' ?_ hxv hxv'
      rw [← hm]
      exact Dict.mem_values_of_find hx
  cases h with
  | array hes =>
    cases h' with
    | array hes' =>
      refine .array (hes.length_eq.symm.trans hes'.length_eq) fun i e e' he he' => ?_
      rcases forall₂_index hes he with ⟨x, hx, hxe⟩
      rcases forall₂_index hes' he' with ⟨x', hx', hxe'⟩
      rw [hx] at hx'
      cases hx'
      exact hR x e e' (mem_of_getElem? hx) hxe hxe'
  | object hes =>
    cases h' with
    | object hes' =>
      rcases hmaps rfl hes hes' with ⟨hkeys, hvalues⟩
      exact .object hkeys hvalues
  | intMap hes =>
    cases h' with
    | intMap hes' =>
      rcases hmaps rfl hes hes' with ⟨hkeys, hvalues⟩
      exact .intMap hkeys hvalues
  | null | bool b | int v | float bits | string s | binary b =>
    cases h'
    exact .same _

/-!
## From the trees to the children
-/

theorem reorders_elems {es es' : List DataNode} (h : (array es).Reorders (.array es'))
    {i : Nat} {e e' : DataNode} (he : es[i]? = some e) (he' : es'[i]? = some e') :
    e.Reorders e' := by
  cases h with
  | same =>
    rw [he] at he'
    cases he'
    exact .same e
  | array hlength helems => exact helems i e e' he he'

/-- The keys are the same, and so are the values up to the order of map entries. -/
def SameEntries {K : Type} (es es' : List (K × DataNode)) : Prop :=
  (keys es).Perm (keys es') ∧
    forall k v v', (k, v) ∈ es -> (k, v') ∈ es' -> v.Reorders v'

theorem SameEntries.refl [DecidableEq K] (hdistinct : DistinctKeys es) : SameEntries es es := by
  refine ⟨.refl _, fun k v v' hv hv' => ?_⟩
  have hfind := find_of_mem hdistinct hv
  rw [find_of_mem hdistinct hv'] at hfind
  cases hfind
  exact .same v

theorem sameEntries_object {es es' : List (Bytes × DataNode)} (hdistinct : DistinctKeys es)
    (h : (object es).Reorders (.object es')) : SameEntries es es' := by
  cases h with
  | same => exact .refl hdistinct
  | object hkeys hvalues => exact ⟨hkeys, hvalues⟩

theorem sameEntries_intMap {es es' : List (Int64 × DataNode)} (hdistinct : DistinctKeys es)
    (h : (intMap es).Reorders (.intMap es')) : SameEntries es es' := by
  cases h with
  | same => exact .refl hdistinct
  | intMap hkeys hvalues => exact ⟨hkeys, hvalues⟩

theorem distinct_copiedValues (h : DistinctKeys es) : DistinctKeys (copiedValues es) := by
  have hkeys : keys (copiedValues es) = keys es := by
    unfold copiedValues AssocList.keys
    rw [map_map]
    rfl
  unfold DistinctKeys
  rw [hkeys]
  exact h

theorem SameEntries.child [DecidableEq K] {es' : List (K × DataNode)}
    (h : SameEntries (copiedValues es) es') (hes : Related R m.entries es)
    (hes' : Related R' m.entries es') (hx : x ∈ m.values) :
    exists s s', R x s ∧ R' x s' ∧ (copied s).Reorders s' := by
  rcases exists_find hx with ⟨k, hk⟩
  rcases related_child hes hk with ⟨s, hs, hxs⟩
  rcases related_child hes' hk with ⟨s', hs', hxs'⟩
  have hmem : (k, copied s) ∈ copiedValues es := mem_map_of_mem hs
  exact ⟨s, s', hxs, hxs', h.right k (copied s) s' hmem hs'⟩

theorem Shows.reorders_child (h : Shows R c t) (h' : Shows R' c t')
    (hreorders : (copied t).Reorders t') (hx : x ∈ c.children) :
    exists s s', R x s ∧ R' x s' ∧ (copied s).Reorders s' := by
  cases h with
  | array hes =>
    cases h' with
    | array hes' =>
      rcases List.getElem?_of_mem hx with ⟨i, hi⟩
      rcases forall₂_index hes.flip hi with ⟨s, hs, hxs⟩
      rcases forall₂_index hes'.flip hi with ⟨s', hs', hxs'⟩
      rw [copied, copiedElems_eq] at hreorders
      refine ⟨s, s', hxs, hxs', reorders_elems hreorders ?_ hs'⟩
      rw [List.getElem?_map, hs]
      rfl
  | object hes =>
    cases h' with
    | object hes' =>
      rw [copied, copiedEntries_eq] at hreorders
      have hdistinct := distinct_copiedValues (distinct_of_related hes)
      exact (sameEntries_object hdistinct hreorders).child hes hes' hx
  | intMap hes =>
    cases h' with
    | intMap hes' =>
      rw [copied, copiedIntEntries_eq] at hreorders
      have hdistinct := distinct_copiedValues (distinct_of_related hes)
      exact (sameEntries_intMap hdistinct hreorders).child hes hes' hx
  | _ => cases hx

/-!
## Copies of reordered trees
-/

theorem copiedElems_eq_self {es : List DataNode} :
    copiedElems es = es <-> forall e, e ∈ es -> copied e = e := by
  rw [copiedElems_eq]
  nth_rewrite 2 [← map_id es]
  rw [map_inj_left]
  exact Iff.rfl

theorem copiedValues_eq_self : copiedValues es = es <-> forall e, e ∈ es -> copied e.2 = e.2 := by
  unfold copiedValues
  nth_rewrite 2 [← map_id es]
  rw [map_inj_left]
  constructor
  · intro hall e he
    exact congrArg Prod.snd (hall e he)
  · intro hall e he
    exact Prod.ext rfl (hall e he)

theorem copied_eq_of_reorders (h : t.Reorders t') (ht : copied t = t) : copied t' = t' := by
  have hmaps : forall {K : Type} {es es' : List (K × DataNode)}, (keys es).Perm (keys es') ->
      (forall k v v', (k, v) ∈ es -> (k, v') ∈ es' -> copied v = v -> copied v' = v') ->
      copiedValues es = es -> copiedValues es' = es' := by
    intro K es es' hkeys hvalues hes
    refine copiedValues_eq_self.mpr fun e' he' => ?_
    rcases exists_of_perm hkeys he' with ⟨v, hv⟩
    exact hvalues e'.1 v e'.2 hv he' (copiedValues_eq_self.mp hes _ hv)
  induction h with
  | same n => exact ht
  | array hlength _ ih =>
    rw [copied] at ht ⊢
    have hes := copiedElems_eq_self.mp (array.inj ht)
    congr 1
    refine copiedElems_eq_self.mpr fun e' he' => ?_
    rcases exists_of_length hlength he' with ⟨i, e, he, hi⟩
    exact ih i e e' he hi (hes e (mem_of_getElem? he))
  | object hkeys _ ih =>
    rw [copied, copiedEntries_eq] at ht ⊢
    rw [hmaps hkeys ih (object.inj ht)]
  | intMap hkeys _ ih =>
    rw [copied, copiedIntEntries_eq] at ht ⊢
    rw [hmaps hkeys ih (intMap.inj ht)]

end

/-!
## Kinds of maps
-/

/-- The trees of the maps of a kind, with their order and their copies. -/
structure MapKind.Orders {K : Type} [DecidableEq K] (M : MapKind K)
    (tree : List (K × DataNode) -> DataNode) : Prop where
  shows : forall {R : Nat -> DataNode -> Prop} {m : Dict K Nat} {es : List (K × DataNode)},
    Related R m.entries es -> Shows R (M.make m) (tree es)
  shape : forall {R : Nat -> DataNode -> Prop} {m : Dict K Nat} {t : DataNode},
    Shows R (M.make m) t -> exists es, t = tree es ∧ Related R m.entries es
  copied : forall es, copied (tree es) = tree (copiedValues es)
  ordered : forall {es es' : List (K × DataNode)}, SameEntries es es' ->
    (tree es).Reorders (tree es')
  entries : forall {es es' : List (K × DataNode)}, DistinctKeys es ->
    (tree es).Reorders (tree es') -> SameEntries es es'

theorem objects_orders : objects.Orders .object where
  shows := fun hes => .object hes
  shape := fun h => by
    cases h with
    | object hes => exact ⟨_, rfl, hes⟩
  copied := fun es => by rw [Ownership.copied, copiedEntries_eq]
  ordered := fun h => .object h.left h.right
  entries := sameEntries_object

theorem intMaps_orders : intMaps.Orders .intMap where
  shows := fun hes => .intMap hes
  shape := fun h => by
    cases h with
    | intMap hes => exact ⟨_, rfl, hes⟩
  copied := fun es => by rw [Ownership.copied, copiedIntEntries_eq]
  ordered := fun h => .intMap h.left h.right
  entries := sameEntries_intMap

end Async2.Ownership
