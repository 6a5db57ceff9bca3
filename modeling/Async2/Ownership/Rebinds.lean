import Async2.Ownership.Runs
import Async2.Ownership.Union

/-!
# The keys that a native changes

A native adds, rebinds or removes keys of at most one map, the one of its first handle.  The
value under any other key stays.
-/

namespace Async2.Ownership

open RefCount.Heap AssocList List Option Native

/-!
## Keys of both kinds
-/

/-- The value under a key of a map of either kind. -/
def Content.lookup (c : Content) : MapKey -> Option Nat
  | .member key => (objects.get c).bind fun m => m.find key
  | .intMember key => (intMaps.get c).bind fun m => m.find key

section

variable {K : Type} [DecidableEq K] (M : MapKind K) (wrap : K -> MapKey)

/-- The key that an insertion binds, on a map of the kind. -/
def insertedKeys (key : K) (c : Content) : List MapKey :=
  if (M.get c).isSome then [wrap key] else []

def erasedKeys (key : K) (c : Content) : List MapKey :=
  if ((M.get c).bind fun m => m.find key).isSome then [wrap key] else []

def clearedKeys (c : Content) : List MapKey :=
  match M.get c with
  | some m => (keys m.entries).map wrap
  | none => []

def mergedKeys (overwrite : Bool) (source c : Content) : List MapKey :=
  match M.get c, M.get source with
  | some m, some m' => (keys (taken m overwrite m'.entries)).map wrap
  | _, _ => []

/-- The keys of the maps of a kind. -/
structure KeyedBy : Prop where
  lookup : forall m key, (M.make m).lookup (wrap key) = m.find key
  only : forall m key v, (M.make m).lookup key = some v -> exists key', key = wrap key'
  injective : Function.Injective wrap

end

theorem objects_keyedBy : KeyedBy objects .member where
  lookup := fun _ _ => rfl
  only := fun m key v h => by
    cases key with
    | member key => exact ⟨key, rfl⟩
    | intMember key => cases h
  injective := fun _ _ h => MapKey.member.inj h

theorem intMaps_keyedBy : KeyedBy intMaps .intMember where
  lookup := fun _ _ => rfl
  only := fun m key v h => by
    cases key with
    | member key => cases h
    | intMember key => exact ⟨key, rfl⟩
  injective := fun _ _ h => MapKey.intMember.inj h

/-!
## The changed keys
-/

/-- The keys that a mutator adds, rebinds or removes. -/
def Mutator.rebinds (c : Content) : Mutator -> List MapKey
  | .set key _ => insertedKeys objects .member (cStr key) c
  | .intMapSet key _ => insertedKeys intMaps .intMember key c
  | .removeKey key => erasedKeys objects .member (cStr key) c
  | .intMapRemoveKey key => erasedKeys intMaps .intMember key c
  | .objectClear => clearedKeys objects .member c
  | .intMapClear => clearedKeys intMaps .intMember c
  | _ => []

def Slot.rebinds (c : Content) : Slot -> List MapKey
  | .member key => insertedKeys objects .member (cStr key) c
  | .intMember key => insertedKeys intMaps .intMember key c
  | _ => []

def Merger.rebinds (source c : Content) : Merger -> List MapKey
  | .object overwrite => mergedKeys objects .member overwrite source c
  | .intMap overwrite => mergedKeys intMaps .intMember overwrite source c
  | .extend => []

/-- The contents of the node of a data handle that is not at an address. -/
def State.otherContent (s : State) (id : Int) (n : Nat) : Option Content := do
  let n' ← s.getDataHandle id
  if n' = n then none
  else do
    let node ← s.heap.read n'
    return node.content

/-- The keys of the map at an address that a native adds, rebinds or removes. -/
def Native.rebinds (s : State) (n : Nat) (a : Native) : List MapKey :=
  match s.heap.read n, a with
  | some node, .mutate json m =>
    if s.getDataHandle json = some n then m.rebinds node.content else []
  | some node, .setObject json slot child =>
    if s.getDataHandle json = some n ∧ (s.otherContent child n).isSome then
      slot.rebinds node.content
    else []
  | some node, .merge json m other =>
    match s.otherContent other n with
    | some source =>
      if s.getDataHandle json = some n then m.rebinds source node.content else []
    | none => []
  | _, _ => []

section

variable {K : Type} [DecidableEq K] {M : MapKind K} {wrap : K -> MapKey}
variable {old new : Node} {key : K} {k : MapKey} {v : Nat}

omit [DecidableEq K] in
variable {c : Content} {m : Dict K Nat}

omit [DecidableEq K] in
theorem insertedKeys_of_get (hm : M.get c = some m) (key : K) :
    insertedKeys M wrap key c = [wrap key] := by
  unfold insertedKeys
  rw [hm]
  rfl

theorem KeyedBy.of_get (hM : KeyedBy M wrap) (hm : M.get c = some m) (hk : c.lookup k = some v) :
    exists key, k = wrap key ∧ m.find key = some v := by
  rw [M.make_of_get c m hm] at hk
  rcases hM.only m k v hk with ⟨key, rfl⟩
  rw [hM.lookup] at hk
  exact ⟨key, rfl, hk⟩

theorem Inserted.lookup (h1 : Inserted M key old new) (hM : KeyedBy M wrap)
    (hk : old.content.lookup k = some v) (hnot : k ∉ insertedKeys M wrap key old.content) :
    new.content.lookup k = some v := by
  rcases h1 with ⟨m, val, hm, rfl⟩
  rw [insertedKeys_of_get hm] at hnot
  rcases hM.of_get hm hk with ⟨key', rfl, hfind⟩
  change (M.make (m.insert key val)).lookup (wrap key') = some v
  rw [hM.lookup, Dict.find_insert, if_neg, hfind]
  rintro rfl
  exact hnot mem_cons_self

theorem Erased.lookup (h1 : Erased M key old new) (hM : KeyedBy M wrap)
    (hk : old.content.lookup k = some v) (hnot : k ∉ erasedKeys M wrap key old.content) :
    new.content.lookup k = some v := by
  rcases h1 with ⟨m, hm, rfl⟩
  rcases hM.of_get hm hk with ⟨key', rfl, hfind⟩
  change (M.make (m.erase key)).lookup (wrap key') = some v
  rw [hM.lookup, Dict.find_erase, if_neg, hfind]
  rintro rfl
  apply hnot
  unfold erasedKeys
  rw [hm, bind_some, hfind]
  exact mem_cons_self

theorem Cleared.lookup (h1 : Cleared M old new) (hM : KeyedBy M wrap)
    (hk : old.content.lookup k = some v) (hnot : k ∉ clearedKeys M wrap old.content) :
    new.content.lookup k = some v := by
  rcases h1 with ⟨m, hm, rfl⟩
  rcases hM.of_get hm hk with ⟨key', rfl, hfind⟩
  refine absurd ?_ hnot
  unfold clearedKeys
  rw [hm]
  exact mem_map_of_mem (mem_map_of_mem (f := Prod.fst) (mem_of_find hfind))

theorem Merged.lookup {overwrite : Bool} {m' : Dict K Nat} {source : Content}
    (h1 : Merged M overwrite (keys m'.entries) old new) (hM : KeyedBy M wrap)
    (hsource : M.get source = some m') (hk : old.content.lookup k = some v)
    (hnot : k ∉ mergedKeys M wrap overwrite source old.content) :
    new.content.lookup k = some v := by
  rcases h1 with ⟨_, m, m1, hm, hcontent, hkept⟩
  rcases hM.of_get hm hk with ⟨key, rfl, hfind⟩
  rw [hcontent, hM.lookup]
  apply hkept key v hfind
  cases overwrite with
  | false => exact .inl rfl
  | true =>
    refine .inr fun hmem => hnot ?_
    unfold mergedKeys
    rw [hm, hsource]
    rcases mem_map.mp hmem with ⟨e, he, rfl⟩
    refine mem_map_of_mem (mem_map_of_mem (f := Prod.fst) ?_)
    exact mem_filter.mpr ⟨he, Bool.or_true _⟩

end

/-!
## The node of a map before and after a step
-/

/-- How a native writes the node at an address. -/
inductive Wrote (s : State) (n : Nat) (node node' : Node) : Native -> Prop
  | same {a : Native} (h : node' = node) : Wrote s n node node' a
  | mutate {json : Int} {m : Mutator} (hn : s.getDataHandle json = some n)
      (hW : m.Writes node node') : Wrote s n node node' (.mutate json m)
  | setObject {json child : Int} {slot : Slot} {val : Nat} (hn : s.getDataHandle json = some n)
      (hval : s.getDataHandle child = some val) (hne : n ≠ val) (hW : slot.Writes node node') :
      Wrote s n node node' (.setObject json slot child)
  | merge {json other : Int} {m : Merger} {n' : Nat} (hn : s.getDataHandle json = some n)
      (hn' : s.getDataHandle other = some n') (hne : n ≠ n')
      (hW : m.Writes s.heap n' node node') : Wrote s n node node' (.merge json m other)

variable {env : Env} {lost : List Nat} {s s' : State} {a : Native} {n : Nat}
variable {node node' : Node} {k : MapKey} {v : Nat} {json child other : Int} {n' : Nat}
  {h' : NodeHeap}

theorem Effect.wrote (h1 : Effect s a h') (hn : n < s.heap.next) (hread : h'.read n = some node') :
    exists node, s.heap.read n = some node ∧ Wrote s n node node' a := by
  cases h1 with
  | quiet hquiet => exact ⟨node', hquiet.read_eq hn hread, .same rfl⟩
  | mutate hjson hchanges =>
    rcases hchanges.kept n node' hn hread with ⟨node, hnode, rfl | ⟨rfl, hW⟩⟩
    · exact ⟨_, hnode, .same rfl⟩
    · exact ⟨node, hnode, .mutate hjson hW⟩
  | setObject hjson hval hne hchanges =>
    rcases hchanges.kept n node' hn hread with ⟨node, hnode, rfl | ⟨rfl, hW⟩⟩
    · exact ⟨_, hnode, .same rfl⟩
    · exact ⟨node, hnode, .setObject hjson hval hne hW⟩
  | merge hjson hn' hne hchanges =>
    rcases hchanges.kept n node' hn hread with ⟨node, hnode, rfl | ⟨rfl, hW⟩⟩
    · exact ⟨_, hnode, .same rfl⟩
    · exact ⟨node, hnode, .merge hjson hn' hne hW⟩

theorem otherContent_eq (hn' : s.getDataHandle other = some n') (hne : n ≠ n')
    (hread' : s.heap.read n' = some node') : s.otherContent other n = some node'.content := by
  unfold State.otherContent
  rw [hn']
  change (if n' = n then none else _) = _
  rw [if_neg (Ne.symm hne), hread']
  rfl

theorem rebinds_mutate (m : Mutator) (hn : s.getDataHandle json = some n)
    (hread : s.heap.read n = some node) :
    (mutate json m).rebinds s n = m.rebinds node.content := by
  unfold rebinds
  simp only [hread, if_pos hn]

theorem rebinds_setObject (slot : Slot) {val : Nat} (hn : s.getDataHandle json = some n)
    (hval : s.getDataHandle child = some val) (hne : n ≠ val) (hread : s.heap.read n = some node)
    (hread' : s.heap.read val = some node') :
    (setObject json slot child).rebinds s n = slot.rebinds node.content := by
  unfold rebinds
  simp only [hread, hn, otherContent_eq hval hne hread', isSome_some, and_self, if_true]

theorem rebinds_merge (m : Merger) (hn : s.getDataHandle json = some n)
    (hn' : s.getDataHandle other = some n') (hne : n ≠ n') (hread : s.heap.read n = some node)
    (hread' : s.heap.read n' = some node') :
    (merge json m other).rebinds s n = m.rebinds node'.content node.content := by
  unfold rebinds
  simp only [hread, otherContent_eq hn' hne hread', if_pos hn]

theorem Rearranged.lookup (hW : Rearranged node node') (hk : node.content.lookup k = some v) :
    False := by
  rcases hW with ⟨arr, arr', harr, _⟩
  rw [harr] at hk
  cases k <;> cases hk

theorem Mutator.Writes.lookup {m : Mutator} (hW : m.Writes node node')
    (hk : node.content.lookup k = some v) (hnot : k ∉ m.rebinds node.content) :
    node'.content.lookup k = some v := by
  cases m with
  | set key sc => exact Inserted.lookup hW objects_keyedBy hk hnot
  | intMapSet key sc => exact Inserted.lookup hW intMaps_keyedBy hk hnot
  | removeKey key => exact Erased.lookup hW objects_keyedBy hk hnot
  | intMapRemoveKey key => exact Erased.lookup hW intMaps_keyedBy hk hnot
  | objectClear => exact Cleared.lookup hW objects_keyedBy hk hnot
  | intMapClear => exact Cleared.lookup hW intMaps_keyedBy hk hnot
  | _ => exact (Rearranged.lookup hW hk).elim

theorem Slot.Writes.lookup {slot : Slot} (hW : slot.Writes node node')
    (hk : node.content.lookup k = some v) (hnot : k ∉ slot.rebinds node.content) :
    node'.content.lookup k = some v := by
  cases slot with
  | member key => exact Inserted.lookup hW objects_keyedBy hk hnot
  | intMember key => exact Inserted.lookup hW intMaps_keyedBy hk hnot
  | _ => exact (Rearranged.lookup hW hk).elim

theorem heap_of_merge {m : Merger} (hstep : (natives env).step (.merge json m other) s = some s')
    (hn : s.getDataHandle json = some n) (hn' : s.getDataHandle other = some n') (hne : n ≠ n') :
    m.run s.heap n n' = .ok s'.heap := by
  rcases step_eq_some hstep with ⟨_, answer, hrun⟩
  unfold run at hrun
  simp only [call, State.withData, hn, hn', if_neg hne] at hrun
  cases hm : m.run s.heap n n' with
  | error f =>
    rw [hm] at hrun
    cases hrun
  | ok h' =>
    rw [hm] at hrun
    cases hrun
    rfl

theorem lookup_mapMerge {K : Type} [DecidableEq K] {M : MapKind K} {wrap : K -> MapKey}
    {h : NodeHeap} {overwrite : Bool} {source : Node} (hM : KeyedBy M wrap)
    (hmerge : mapMerge M h n n' overwrite = some h') (hread : h.read n = some node)
    (hread' : h'.read n = some node') (hsource : h.read n' = some source)
    (hW : MergedFrom M overwrite h n' node node') (hk : node.content.lookup k = some v)
    (hnot : k ∉ mergedKeys M wrap overwrite source.content node.content) :
    node'.content.lookup k = some v := by
  cases hm' : M.get source.content with
  | none =>
    rw [mapMerge_other hread hsource (.inr hm')] at hmerge
    cases hmerge
    cases hread.symm.trans hread'
    exact hk
  | some m' =>
    rcases hW with ⟨ks, hmerged, hks⟩
    rw [hks source m' hsource hm'] at hmerged
    exact hmerged.lookup hM hm' hk hnot

theorem eq_some_of_orFreed {α : Type} {r : Option α} {x : α} (h : orFreed r = .ok x) :
    r = some x := by
  cases r with
  | none => cases h
  | some y =>
    cases h
    rfl

/-- A step keeps the value under every key that it does not rebind. -/
theorem lookup_of_step (hs : Sound lost s) (hstep : (natives env).step a s = some s')
    (hn : n < s.heap.next) (hread' : s'.heap.read n = some node') :
    exists node, s.heap.read n = some node ∧ forall k v, node.content.lookup k = some v ->
      k ∉ a.rebinds s n -> node'.content.lookup k = some v := by
  rcases (ran_step hs hstep).stepped.effect.wrote hn hread' with ⟨node, hread, hwrote⟩
  refine ⟨node, hread, fun k v hk hnot => ?_⟩
  cases hwrote with
  | same heq =>
    rw [heq]
    exact hk
  | mutate hjson hW =>
    rw [rebinds_mutate _ hjson hread] at hnot
    exact hW.lookup hk hnot
  | @setObject json child slot val hjson hval hne hW =>
    rcases exists_read (hs.owned.data_live hval) with ⟨source, hsource⟩
    rw [rebinds_setObject slot hjson hval hne hread hsource] at hnot
    exact hW.lookup hk hnot
  | @merge json other m n' hjson hn' hne hW =>
    rcases exists_read (hs.owned.data_live hn') with ⟨source, hsource⟩
    rw [rebinds_merge m hjson hn' hne hread hsource] at hnot
    have hmerge := heap_of_merge hstep hjson hn' hne
    cases m with
    | object overwrite =>
      exact lookup_mapMerge objects_keyedBy (eq_some_of_orFreed hmerge) hread hread' hsource
        hW hk hnot
    | intMap overwrite =>
      exact lookup_mapMerge intMaps_keyedBy (eq_some_of_orFreed hmerge) hread hread' hsource
        hW hk hnot
    | extend => exact (Rearranged.lookup hW hk).elim

end Async2.Ownership
