import Async2.Ownership.Faithful

/-!
# Equality of values

The value of a tree has numbers for its floats and finite maps for its maps, whatever order
their entries are in.  `Equals` on two nodes without cycles and without NaN says whether their
values are equal.  Of a map it looks at the keys on the left only; as no key occurs twice and the
sizes agree, these are the keys on the right.
-/

namespace Async2

open List Option DataNode

/-- The values that trees stand for. -/
inductive Value where
  | null
  | bool (b : Bool)
  | int (v : Int64)
  | number (bits : UInt64)
  | string (s : Bytes)
  | array (elems : List Value)
  | object (members : Bytes -> Option Value)
  | intMap (members : Int64 -> Option Value)
  | binary (b : Bytes)

namespace DataNode

open AssocList Binary64

/-- The number of a float: both zeros are zero. -/
def number (bits : UInt64) : UInt64 := if magnitude bits = 0 then 0 else bits

mutual

def value : DataNode -> Value
  | .null => .null
  | .bool b => .bool b
  | .int v => .int v
  | .float bits => .number (number bits)
  | .string s => .string s
  | .array es => .array (valueElems es)
  | .object es => .object (valueAt es)
  | .intMap es => .intMap (valueAtInt es)
  | .binary b => .binary b

def valueElems : List DataNode -> List Value
  | [] => []
  | e :: rest => value e :: valueElems rest

def valueAt : List (Bytes × DataNode) -> Bytes -> Option Value
  | [], _ => none
  | (k, v) :: rest, key => if k = key then some (value v) else valueAt rest key

def valueAtInt : List (Int64 × DataNode) -> Int64 -> Option Value
  | [], _ => none
  | (k, v) :: rest, key => if k = key then some (value v) else valueAtInt rest key

end

theorem valueElems_eq (es : List DataNode) : valueElems es = es.map value := by
  induction es with
  | nil => rfl
  | cons e rest ih => rw [valueElems, ih, map_cons]

theorem valueAt_eq (es : List (Bytes × DataNode)) (key : Bytes) :
    valueAt es key = (find key es).map value := by
  induction es with
  | nil => rfl
  | cons e rest ih =>
    rw [valueAt, ih, find]
    split <;> rfl

theorem valueAtInt_eq (es : List (Int64 × DataNode)) (key : Int64) :
    valueAtInt es key = (find key es).map value := by
  induction es with
  | nil => rfl
  | cons e rest ih =>
    rw [valueAtInt, ih, find]
    split <;> rfl

/-!
## Trees
-/

/-- No map has a key twice, and no float is a NaN. -/
def Comparable : DataNode -> Prop :=
  Everywhere fun n => n.MapKeysDistinct ∧ forall bits, n = .float bits -> ¬ isNan bits

/-- `Equals` on the tree says whether its value is that of the other. -/
def Decides (t : DataNode) : Prop :=
  forall u, u.Comparable -> (t.equals u = true <-> t.value = u.value)

theorem numEq_iff {a b : UInt64} (ha : ¬ isNan a) (hb : ¬ isNan b) :
    numEq a b = true <-> number a = number b := by
  have hzero : magnitude 0 = 0 := rfl
  simp only [numEq, number, ha, hb, Bool.not_false, Bool.true_and, Bool.or_eq_true,
    Bool.and_eq_true, beq_iff_eq]
  split <;> split <;> grind

theorem equalsElems_iff {es es' : List DataNode} (hes : forall e, e ∈ es -> Decides e)
    (hes' : forall e, e ∈ es' -> Comparable e) :
    (es.length == es'.length && equalsElems es es') = true <-> es.map value = es'.map value := by
  induction es generalizing es' with
  | nil => cases es' <;> simp [equalsElems]
  | cons e rest ih =>
    cases es' with
    | nil => simp
    | cons e' rest' =>
      rw [forall_mem_cons] at hes hes'
      have hrest := ih hes.right hes'.right
      simp only [length_cons, beq_iff_eq, Nat.add_right_cancel_iff, equalsElems, map_cons,
        List.cons.injEq, ← hes.left e' hes'.left, ← hrest, Bool.and_eq_true]
      tauto

section

variable {K : Type} [DecidableEq K] {es es' : List (K × DataNode)}

/-- Where the keys on the left are among as many keys on the right, they are all of them. -/
theorem find_none_of_keys (hes : DistinctKeys es) (hlength : es.length = es'.length)
    (hsub : keys es ⊆ keys es') {key : K}
    (hfind : find key es = none) : find key es' = none := by
  have hperm : (keys es).Perm (keys es') := by
    apply (subperm_of_subset hes hsub).perm_of_length_le
    simp only [AssocList.keys, length_map, hlength, Nat.le_refl]
  rw [find_eq_none_iff] at hfind ⊢
  rwa [← hperm.mem_iff]

theorem length_of_values (hes : DistinctKeys es) (hes' : DistinctKeys es')
    (h : forall key, (find key es).map value = (find key es').map value) :
    es.length = es'.length := by
  have hperm : (keys es).Perm (keys es') := by
    apply (perm_ext_iff_of_nodup hes hes').mpr
    intro key
    rw [← not_iff_not, ← find_eq_none_iff, ← find_eq_none_iff, ← map_eq_none_iff, h key,
      map_eq_none_iff]
  simpa [AssocList.keys] using hperm.length_eq

theorem equalsMap_iff (hes : DistinctKeys es) (hes' : DistinctKeys es')
    (hdecides : forall e, e ∈ es -> Decides e.2) (hright : forall e, e ∈ es' -> Comparable e.2) :
    (es.length == es'.length && equalsMap es es') = true <->
      forall key, (find key es).map value = (find key es').map value := by
  rw [Bool.and_eq_true, beq_iff_eq, equalsMap_eq_true]
  constructor
  · rintro ⟨hlength, hall⟩ key
    cases hfind : find key es with
    | none =>
      rw [find_none_of_keys hes hlength ?_ hfind]
      intro k hk
      rcases mem_map.mp hk with ⟨e, he, rfl⟩
      rcases hall e he with ⟨val', hfind', -⟩
      exact mem_map.mpr ⟨_, mem_of_find hfind', rfl⟩
    | some val =>
      rcases hall _ (mem_of_find hfind) with ⟨val', hfind', heq⟩
      rw [hfind']
      exact congrArg some
        ((hdecides _ (mem_of_find hfind) val' (hright _ (mem_of_find hfind'))).mp heq)
  · intro h
    refine ⟨length_of_values hes hes' h, fun e he => ?_⟩
    have hkey := h e.1
    rw [find_of_mem hes he] at hkey
    rcases map_eq_some_iff.mp hkey.symm with ⟨val', hfind', hval⟩
    exact ⟨val', hfind', (hdecides e he val' (hright _ (mem_of_find hfind'))).mpr hval.symm⟩

end

theorem equals_iff_value {t : DataNode} (ht : t.Comparable) : Decides t := by
  intro u hu
  induction t using treeInduction generalizing u with
  | array es ih =>
    rcases everywhere_array.mp ht with ⟨-, hes⟩
    cases u with
    | array es' =>
      rcases everywhere_array.mp hu with ⟨-, hes'⟩
      rw [equals, value, value, Value.array.injEq, valueElems_eq, valueElems_eq]
      exact equalsElems_iff (fun e he u hu => ih e he (hes e he) u hu) hes'
    | _ => exact ⟨fun h => Bool.noConfusion h, fun h => Value.noConfusion h⟩
  | object es ih =>
    rcases everywhere_object.mp ht with ⟨hself, hes⟩
    cases u with
    | object es' =>
      rcases everywhere_object.mp hu with ⟨hself', hes'⟩
      rw [equals, equalsEntries_eq, value, value, Value.object.injEq, funext_iff]
      simp only [valueAt_eq]
      exact equalsMap_iff hself.left hself'.left (fun e he u hu => ih e he (hes e he) u hu) hes'
    | _ => exact ⟨fun h => Bool.noConfusion h, fun h => Value.noConfusion h⟩
  | intMap es ih =>
    rcases everywhere_intMap.mp ht with ⟨hself, hes⟩
    cases u with
    | intMap es' =>
      rcases everywhere_intMap.mp hu with ⟨hself', hes'⟩
      rw [equals, equalsIntEntries_eq, value, value, Value.intMap.injEq, funext_iff]
      simp only [valueAtInt_eq]
      exact equalsMap_iff hself.left hself'.left (fun e he u hu => ih e he (hes e he) u hu) hes'
    | _ => exact ⟨fun h => Bool.noConfusion h, fun h => Value.noConfusion h⟩
  | float bits =>
    cases u with
    | float bits' =>
      rw [equals, value, value, Value.number.injEq]
      exact numEq_iff (ht.right bits rfl) (hu.right bits' rfl)
    | _ => exact ⟨fun h => Bool.noConfusion h, fun h => Value.noConfusion h⟩
  | _ => cases u <;> simp [equals, value]

end DataNode

/-!
## Nodes
-/

namespace Ownership

open RefCount.Heap

variable {h : NodeHeap} {a b k : Nat} {t : DataNode}

theorem forall_right {α β : Type} {R : α -> β -> Prop} {P : β -> Prop} {xs : List α} {ys : List β}
    (h : List.Forall₂ R xs ys) (hR : forall x y, R x y -> P y) : forall y, y ∈ ys -> P y := by
  induction h with
  | nil => exact fun y hy => absurd hy not_mem_nil
  | cons hxy _ ih => exact forall_mem_cons.mpr ⟨hR _ _ hxy, ih⟩

theorem comparable_of_denotes (hd : Denotes h k a t) (hnan : Below Content.NotNan h a) :
    t.Comparable := by
  induction k generalizing a t with
  | zero => exact hd.elim
  | succ k ih =>
    rcases hd with ⟨⟨v, c⟩, hread, hshows⟩
    rw [below_iff hread] at hnan
    have hchildren : Shows (fun _ s => s.Comparable) c t :=
      hshows.imp fun x s hx hs => ih hs (hnan.right x hx)
    have hfloat : forall bits, t = .float bits -> ¬ Binary64.isNan bits := by
      rintro bits rfl
      cases hshows
      exact hnan.left bits rfl
    cases hchildren with
    | array hes =>
      exact everywhere_array.mpr ⟨⟨trivial, hfloat⟩, forall_right hes fun _ _ h => h⟩
    | object hes =>
      exact everywhere_object.mpr
        ⟨⟨distinct_of_related hes, hfloat⟩, forall_right hes fun _ _ h => h.right⟩
    | intMap hes =>
      exact everywhere_intMap.mpr
        ⟨⟨distinct_of_related hes, hfloat⟩, forall_right hes fun _ _ h => h.right⟩
    | _ => exact ⟨trivial, hfloat⟩

/-- A node in use without cycles and without NaN below it. -/
structure Plain (h : NodeHeap) (a : Nat) : Prop where
  live : h.refcountOf a ≠ 0
  acyclic : h.AcyclicFrom a
  noNan : Below Content.NotNan h a

def HasValue (h : NodeHeap) (a : Nat) (v : Value) : Prop :=
  exists t, Denotes h h.next a t ∧ t.value = v

def SameValue (h : NodeHeap) (a b : Nat) : Prop := exists v, HasValue h a v ∧ HasValue h b v

theorem nodesEqual_iff {ext : List Nat} (hexact : Exact ext h) (ha : Plain h a) (hb : Plain h b) :
    exists r, nodesEqual h a b = some r ∧ (r = true <-> SameValue h a b) := by
  rcases exists_denotes hexact ha.live ha.acyclic with ⟨t, ht⟩
  rcases exists_denotes hexact hb.live hb.acyclic with ⟨u, hu⟩
  refine ⟨_, equals_of_denotes ht hu, ?_⟩
  rw [equals_iff_value (comparable_of_denotes ht ha.noNan) u
    (comparable_of_denotes hu hb.noNan)]
  constructor
  · exact fun heq => ⟨_, ⟨t, ht, rfl⟩, u, hu, heq.symm⟩
  · rintro ⟨v, ⟨t', ht', rfl⟩, u', hu', heq⟩
    rw [ht.unique ht', hu.unique hu', heq]

/-- `Equals` on nodes without cycles and without NaN returns, and decides whether they have the
same value; so it is symmetric and transitive. -/
theorem nodesEqual_decides_value {ext : List Nat} (hexact : Exact ext h) :
    (forall a b, Plain h a -> Plain h b ->
      (exists r, nodesEqual h a b = some r ∧ (r = true <-> SameValue h a b)) ∧
        nodesEqual h a b = nodesEqual h b a) ∧
      forall a b c, Plain h a -> Plain h b -> Plain h c -> nodesEqual h a b = some true ->
        nodesEqual h b c = some true -> nodesEqual h a c = some true := by
  refine ⟨fun a b ha hb => ⟨nodesEqual_iff hexact ha hb, ?_⟩, fun a b c ha hb hc hab hbc => ?_⟩
  · rcases nodesEqual_iff hexact ha hb with ⟨r, hr, hiff⟩
    rcases nodesEqual_iff hexact hb ha with ⟨r', hr', hiff'⟩
    rw [hr, hr']
    apply congrArg some
    rw [Bool.eq_iff_iff, hiff, hiff']
    exact ⟨fun ⟨v, hv, hv'⟩ => ⟨v, hv', hv⟩, fun ⟨v, hv, hv'⟩ => ⟨v, hv', hv⟩⟩
  · rcases nodesEqual_iff hexact ha hb with ⟨r, hr, hiff⟩
    rcases nodesEqual_iff hexact hb hc with ⟨r', hr', hiff'⟩
    rcases nodesEqual_iff hexact ha hc with ⟨r'', hr'', hiff''⟩
    rw [hab] at hr
    rw [hbc] at hr'
    cases hr
    cases hr'
    rcases hiff.mp rfl with ⟨v, hva, t, htb, rfl⟩
    rcases hiff'.mp rfl with ⟨_, ⟨u, hub, rfl⟩, hvc⟩
    rw [htb.unique hub] at hva
    rw [hr'', hiff''.mpr ⟨_, hva, hvc⟩]

/-- Two objects with the members `a` and `b` in either order, of which they share the first. -/
def sharedMember : NodeHeap :=
  let h := (makeNode (.int 5) .empty).2.setCount 0 2
  let h := (makeNode (.int 6) h).2
  let h := (makeNode (.object ((Dict.empty.insert [97] 0).insert [98] 1)) h).2
  let h := (makeNode (.int 6) h).2
  (makeNode (.object ((Dict.empty.insert [98] 3).insert [97] 0)) h).2

theorem exact_sharedMember : Exact [4, 2] sharedMember := by
  have h0 : Built .empty [] 1 _ 0 _ := built_makeNode Counted.empty rfl fun R => .int 5
  rcases h0.counted.incref (a := 0) (by decide) with ⟨_, hinc, h1⟩
  cases hinc
  have h2 : Counted [1, 0, 0] _ := (built_makeNode (k := 0) h1 rfl fun R => .int 6).counted
  have h3 : Counted [2, 0] _ := Counted.alloc
    (b := (⟨0, .object ((Dict.empty.insert [97] 0).insert [98] 1)⟩ : Node))
    (h2.perm (.swap 0 1 [0]))
  have h4 : Counted [3, 2, 0] _ := (built_makeNode (k := 0) h3 rfl fun R => .int 6).counted
  have h5 : Counted [4, 2] _ := Counted.alloc
    (b := (⟨0, .object ((Dict.empty.insert [98] 3).insert [97] 0)⟩ : Node))
    (h4.perm (.cons 3 (.swap 0 2 [])))
  exact h5.exact

theorem nodesEqual_decides_sharedMember :
    Plain sharedMember 2 ∧ Plain sharedMember 4 ∧ nodesEqual sharedMember 2 4 = some true ∧
      SameValue sharedMember 2 4 := by
  have hnumber : forall a v, sharedMember.read a = some ⟨0, .int v⟩ ->
      Denotes sharedMember 1 a (.int v) ∧ Below Content.NotNan sharedMember a := by
    intro a v hread
    refine ⟨⟨_, hread, .int v⟩, (below_iff hread).mpr ⟨fun _ hc => Content.noConfusion hc, ?_⟩⟩
    exact fun x hx => absurd hx not_mem_nil
  have hplain : forall {a obj t}, sharedMember.refcountOf a ≠ 0 ->
      sharedMember.read a = some ⟨0, .object obj⟩ -> Denotes sharedMember 2 a t ->
      (forall x, x ∈ obj.values -> Below Content.NotNan sharedMember x) ->
      Plain sharedMember a := by
    intro a obj t hlive hread ht hbelow
    refine ⟨hlive, ht.acyclicFrom, (below_iff hread).mpr ⟨?_, hbelow⟩⟩
    exact fun _ hc => Content.noConfusion hc
  have h0 := hnumber 0 5 rfl
  have h1 := hnumber 1 6 rfl
  have h3 := hnumber 3 6 rfl
  have h2 : Plain sharedMember 2 := by
    refine hplain (t := .object [([97], .int 5), ([98], .int 6)]) (by decide) rfl
      ⟨_, rfl, .object (.cons ⟨rfl, h0.left⟩ (.cons ⟨rfl, h1.left⟩ .nil))⟩ ?_
    change forall x, x ∈ [0, 1] -> _
    exact forall_mem_cons.mpr ⟨h0.right, forall_mem_singleton.mpr h1.right⟩
  have h4 : Plain sharedMember 4 := by
    refine hplain (t := .object [([98], .int 6), ([97], .int 5)]) (by decide) rfl
      ⟨_, rfl, .object (.cons ⟨rfl, h3.left⟩ (.cons ⟨rfl, h0.left⟩ .nil))⟩ ?_
    change forall x, x ∈ [3, 0] -> _
    exact forall_mem_cons.mpr ⟨h3.right, forall_mem_singleton.mpr h0.right⟩
  have hequal : nodesEqual sharedMember 2 4 = some true := by
    decide +kernel
  rcases (nodesEqual_decides_value exact_sharedMember).left 2 4 h2 h4 with ⟨⟨r, hr, hiff⟩, _⟩
  cases hequal.symm.trans hr
  exact ⟨h2, h4, hequal, hiff.mp rfl⟩

end Ownership
end Async2
