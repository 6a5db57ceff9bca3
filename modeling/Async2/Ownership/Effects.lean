import Async2.Hjson.Slices
import Async2.Ownership.Owned

/-!
# What the parts of a native do

Making nodes, writing a node, merging and copying keep the counts exact.  Each of them is
described by what it can fail with and by the change of the heap otherwise.
-/

namespace Async2.Ownership

open RefCount RefCount.Heap Hjson.OnHeap Json.OnHeap Fault

/-!
## Making nodes
-/

/-- The text has an object that repeats a key, in the part that is read. -/
def Source.repeatsKey (env : Env) : Source -> Bool
  | .json data => Json.OnHeap.textRepeatsKey env.iterate data
  | _ => false

/-- What a source can fail with. -/
def Source.MayFault : Source -> Fault -> Prop
  | .hjson _, f => f = .uncaught
  | .msgPack _ _, f => f = .outside ∨ f = .uncaught
  | _, _ => False

/-- Nodes were made, and the reference to the root is handed out; some may be lost. -/
structure Made (h : NodeHeap) (ext : List Nat) (repeats : Bool) (r : Option Nat × NodeHeap)
    (lost : List Nat) : Prop where
  counted : Counted (r.1.toList ++ (lost ++ ext)) r.2
  builds : Builds h r.2
  fresh : forall root, r.1 = some root -> h.next <= root
  leaks : repeats = false -> lost = []

section

variable {h : NodeHeap} {ext : List Nat} {h' : NodeHeap}

theorem made_empty {c : Content} (h1 : Counted ext h) (hchildren : c.children = [])
    (repeats : Bool) : Made h ext repeats (some h.next, (makeNode c h).2) [] where
  counted := by
    apply Counted.alloc
    rw [slots_node, hchildren]
    exact h1
  builds := (Builds.refl h).alloc hchildren
  fresh := fun root hroot => by
    cases hroot
    exact Nat.le_refl _
  leaks := fun _ => rfl

theorem Built.made {k a : Nat} {t : DataNode} (h1 : Built h ext k h' a t) (repeats : Bool) :
    Made h ext repeats (some a, h') [] where
  counted := h1.counted
  builds := h1.builds
  fresh := fun root hroot => by
    cases hroot
    exact h1.fresh
  leaks := fun _ => rfl

theorem Undone.made (h1 : Undone h ext h') (repeats : Bool) : Made h ext repeats (none, h') [] where
  counted := h1.counted
  builds := h1.builds
  fresh := fun _ hroot => nomatch hroot
  leaks := fun _ => rfl

theorem made_json (env : Env) (data : Bytes) (h1 : Counted ext h) :
    exists r lost, dataParseJson env.iterate data h = some r ∧
      Made h ext (textRepeatsKey env.iterate data) r lost := by
  rcases makes_dataParseJson env.iterate data h ext h1
    with ⟨root, h', lost, hparse, _, hrepeats, hends⟩
  refine ⟨(root, h'), lost, hparse, ?_⟩
  generalize (Json.dataParseJson env.iterate data).1 = tree at hends
  cases tree with
  | some t =>
    cases root with
    | none => exact hends.elim
    | some a =>
      refine ⟨hends.counted, hends.builds, ?_, hrepeats.mpr⟩
      intro root hroot
      cases hroot
      exact hends.fresh
  | none =>
    cases root with
    | some a => exact hends.elim
    | none =>
      refine ⟨hends.counted, hends.builds, ?_, hrepeats.mpr⟩
      exact fun _ hroot => nomatch hroot

theorem yields_make (env : Env) (source : Source) (h1 : Counted ext h) :
    Yields (source.make env h) source.MayFault fun r =>
      exists lost, Made h ext (source.repeatsKey env) r lost := by
  cases source with
  | object | array | intMap => exact ⟨[], made_empty h1 rfl _⟩
  | json data =>
    rcases made_json env data h1 with ⟨r, lost, hparse, hmade⟩
    exact yields_orFreed hparse ⟨lost, hmade⟩
  | hjson data =>
    have hfollows := follows_parse (Hjson.initScanner env.avx2) data h1
    have hstuck := Hjson.hjsonParse_ne_stuck env.avx2 data
    unfold Hjson.hjsonParse at hstuck
    simp only [Source.make, hjsonParse]
    generalize Hjson.parse (Hjson.initScanner env.avx2) data = out at hfollows hstuck
    generalize parse (Hjson.initScanner env.avx2) data h = res at hfollows
    cases hfollows with
    | ok hbuilt => exact ⟨[], hbuilt.made _⟩
    | null hundone => exact ⟨[], hundone.made _⟩
    | thrown r h' => exact (rfl : uncaught = uncaught)
    | stuck r h' => exact absurd rfl hstuck
  | msgPack maxElements data =>
    have hfollows :=
      MsgPack.OnHeap.follows_msgPackParse env.build env.widen maxElements data h1
    simp only [Source.make]
    generalize MsgPack.msgPackParse env.build env.widen maxElements data = out at hfollows
    generalize MsgPack.OnHeap.msgPackParse env.build env.widen maxElements data h = res
      at hfollows
    cases hfollows with
    | ok hbuilt => exact ⟨[], hbuilt.made _⟩
    | null hundone => exact ⟨[], hundone.made _⟩
    | fault h' => exact .inl (rfl : outside = outside)
    | thrown h' => exact .inr (rfl : uncaught = uncaught)

end

/-!
## Writing a node
-/

/-- How a mutator changes the node of its handle. -/
def Mutator.Writes : Mutator -> Node -> Node -> Prop
  | .set key _ => Inserted objects (cStr key)
  | .intMapSet key _ => Inserted intMaps key
  | .removeKey key => Erased objects (cStr key)
  | .intMapRemoveKey key => Erased intMaps key
  | .objectClear => Cleared objects
  | .intMapClear => Cleared intMaps
  | _ => Rearranged

/-- How storing a child changes the node of the handle. -/
def Slot.Writes : Slot -> Node -> Node -> Prop
  | .member key => Inserted objects (cStr key)
  | .intMember key => Inserted intMaps key
  | _ => Rearranged

/-- A map after a merge with the map at another address. -/
def MergedFrom {K : Type} [DecidableEq K] (M : MapKind K) (overwrite : Bool) (h : NodeHeap)
    (other : Nat) (old new : Node) : Prop :=
  exists ks, Merged M overwrite ks old new ∧ forall source m, h.read other = some source ->
    M.get source.content = some m -> ks = AssocList.keys m.entries

/-- How a merge changes its target. -/
def Merger.Writes (h : NodeHeap) (other : Nat) : Merger -> Node -> Node -> Prop
  | .object overwrite => MergedFrom objects overwrite h other
  | .intMap overwrite => MergedFrom intMaps overwrite h other
  | .extend => Rearranged

variable {h : NodeHeap} {ext : List Nat} {n val : Nat} {node : Node} {F : Fault -> Prop}
  {other : Nat} {W : Node -> Node -> Prop} {h' : NodeHeap}

theorem counted_makeScalar (sc : Scalar) (h1 : Counted ext h) :
    Counted (h.next :: ext) (h.alloc ⟨0, sc.content⟩) := by
  apply Counted.alloc
  have hslots : slots (⟨0, sc.content⟩ : Node) = [] := by
    rw [slots_node]
    cases sc <;> rfl
  rw [hslots]
  exact h1

theorem builds_makeScalar (sc : Scalar) (h : NodeHeap) : Builds h (h.alloc ⟨0, sc.content⟩) := by
  refine (Builds.refl h).alloc ?_
  rw [slots_node]
  cases sc <;> rfl

theorem yields_pushBack (h1 : Counted (val :: ext) h) (hn : n ∈ ext)
    (hread : h.read n = some node) :
    Yields (pushBack h n val) (fun f => f = .member ∧ node.content.type ≠ .array) fun h' =>
      Counted ext h' ∧ Changes h h' n [val] Rearranged := by
  rcases node with ⟨version, c⟩
  unfold pushBack
  rw [hread]
  cases c with
  | array arr =>
    rcases counted_arrPush h1 hread rfl hn with ⟨h', hpush, hcounted, hchanges⟩
    have hwrite : h.write n ⟨version, .array (arr ++ [val])⟩ = some h' := by
      rw [← hpush]
      unfold arrPush
      rw [hread]
      rfl
    exact yields_orFreed hwrite ⟨hcounted, hchanges⟩
  | _ => exact ⟨rfl, fun htype => nomatch htype⟩

theorem yields_store (slot : Slot) (h1 : Counted (val :: ext) h) (hn : n ∈ ext)
    (hread : h.read n = some node) :
    Yields (slot.store h n val)
      (fun f => f = .member ∧ slot = .append ∧ node.content.type ≠ .array) fun h' =>
      Counted ext h' ∧ Changes h h' n [val] slot.Writes := by
  cases slot with
  | member key =>
    rcases counted_mapInsert (M := objects) (cStr key) h1 hn with ⟨h', hins, hrest⟩
    exact yields_orFreed hins hrest
  | intMember key =>
    rcases counted_mapInsert (M := intMaps) key h1 hn with ⟨h', hins, hrest⟩
    exact yields_orFreed hins hrest
  | element index =>
    rcases counted_arrSet index h1 hn with ⟨h', hset, hrest⟩
    exact yields_orFreed hset hrest
  | append =>
    refine (yields_pushBack h1 hn hread).imp ?_ fun _ hrest => hrest
    rintro f ⟨hf, htype⟩
    exact ⟨hf, rfl, htype⟩

theorem changes_makeScalar {sc : Scalar} (h1 : Changes (h.alloc ⟨0, sc.content⟩) h' n [h.next] W)
    (hn : n < h.next) : Changes h h' n [] W := by
  refine ((builds_makeScalar sc h).quiet.then h1 hn).fresh ?_
  intro y hy
  cases List.mem_singleton.mp hy
  exact Nat.le_refl _

theorem yields_setScalar (type : DataType) (store : NodeHeap -> Nat -> Run NodeHeap)
    (W : Node -> Node -> Prop) (sc : Scalar) (h1 : Counted ext h) (hn : n ∈ ext)
    (hstore : forall g v, Counted (v :: ext) g -> (forall node, g.read n = some node ->
      node.content.type = type) -> Yields (store g v) (fun _ => False) fun h' =>
        Counted ext h' ∧ Changes g h' n [v] W) :
    Yields (setScalar type store sc h n) (fun _ => False) fun r =>
      Counted ext r.2 ∧ Changes h r.2 n [] W := by
  rcases h1.live hn with ⟨node, hread⟩
  have hlt := lt_next_of_refcountOf (live_of_read hread)
  unfold setScalar
  rw [contentAt_of_read hread]
  change Yields (if node.content.type ≠ type then _ else _) _ _
  split
  · exact ⟨h1, (Quiet.refl h).changes n [] W⟩
  case isFalse htype =>
    have hread' : (h.alloc ⟨0, sc.content⟩).read n = some node := by
      rw [read_congr (cell_alloc_of_ne (Nat.ne_of_lt hlt))]
      exact hread
    refine (hstore _ h.next (counted_makeScalar sc h1) ?_).bind ?_
    · intro node' hnode'
      rw [hread'] at hnode'
      cases hnode'
      exact not_not.mp htype
    · rintro h' ⟨hcounted, hchanges⟩
      exact ⟨hcounted, changes_makeScalar hchanges hlt⟩

theorem yields_reported {res : Option (Bool × NodeHeap)} {b : Bool} (hres : res = some (b, h'))
    (hrest : Counted ext h' ∧ Changes h h' n [] W) :
    Yields (reported res) F fun r => Counted ext r.2 ∧ Changes h r.2 n [] W := by
  subst hres
  exact hrest

theorem yields_unreported {res : Option NodeHeap} (hres : res = some h')
    (hrest : Counted ext h' ∧ Changes h h' n [] W) :
    Yields (unreported res) F fun r => Counted ext r.2 ∧ Changes h r.2 n [] W := by
  subst hres
  exact hrest

theorem yields_mutator (m : Mutator) (h1 : Counted ext h) (hn : n ∈ ext) :
    Yields (m.run h n) (fun _ => False) fun r => Counted ext r.2 ∧ Changes h r.2 n [] m.Writes := by
  have hlt := lt_next_of_refcountOf (h1.exact.live_of_mem hn)
  cases m with
  | set key sc =>
    refine yields_setScalar .object (fun g v => orFreed (objInsert g n (cStr key) v))
      (Inserted objects (cStr key)) sc h1 hn fun g v hg _ => ?_
    rcases counted_mapInsert (cStr key) hg hn with ⟨h', hins, hrest⟩
    exact yields_orFreed hins hrest
  | intMapSet key sc =>
    refine yields_setScalar .intMap (fun g v => orFreed (intMapInsert g n key v))
      (Inserted intMaps key) sc h1 hn fun g v hg _ => ?_
    rcases counted_mapInsert key hg hn with ⟨h', hins, hrest⟩
    exact yields_orFreed hins hrest
  | arraySet index sc =>
    rcases counted_arrSet index (counted_makeScalar sc h1) hn
      with ⟨h', hset, hcounted, hchanges⟩
    exact yields_unreported hset ⟨hcounted, changes_makeScalar hchanges hlt⟩
  | arrayAppend sc =>
    refine yields_setScalar .array (fun g v => pushBack g n v) Rearranged sc h1 hn
      fun g v hg htype => ?_
    rcases hg.live (List.mem_cons_of_mem v hn) with ⟨node, hread⟩
    refine (yields_pushBack hg hn hread).imp ?_ fun _ hrest => hrest
    rintro f ⟨_, hne⟩
    exact hne (htype node hread)
  | removeKey key =>
    rcases counted_mapErase (cStr key) h1 hn with ⟨b, h', herase, hrest⟩
    exact yields_reported herase hrest
  | intMapRemoveKey key =>
    rcases counted_mapErase key h1 hn with ⟨b, h', herase, hrest⟩
    exact yields_reported herase hrest
  | arrayRemove index =>
    rcases counted_arrRemove index h1 hn with ⟨b, h', hremove, hrest⟩
    exact yields_reported hremove hrest
  | objectClear | intMapClear =>
    rcases counted_mapClear h1 hn with ⟨h', hclear, hrest⟩
    exact yields_unreported hclear hrest
  | arrayClear =>
    rcases counted_arrClear h1 hn with ⟨h', hclear, hrest⟩
    exact yields_unreported hclear hrest

theorem yields_mapMerge {K : Type} [DecidableEq K] (M : MapKind K) (overwrite : Bool)
    (h1 : Counted ext h) (hn : n ∈ ext) (hother : other ∈ ext) :
    Yields (orFreed (mapMerge M h n other overwrite))
      (fun f => f = .freed ∧ ¬ (h.AcyclicFrom other ∧ ¬ h.Reach other n)) fun h' =>
      Counted ext h' ∧ Changes h h' n [] (MergedFrom M overwrite h other) := by
  cases hmerge : mapMerge M h n other overwrite with
  | none =>
    refine ⟨rfl, ?_⟩
    rintro ⟨hacyclic, hsep⟩
    rcases mapMerge_returns M overwrite h1 hn hother hsep hacyclic with ⟨h', hh'⟩
    rw [hmerge] at hh'
    cases hh'
  | some h' =>
    rcases counted_mapMerge h1 hmerge with ⟨hcounted, ks, hchanges, hks⟩
    exact ⟨hcounted, hchanges.imp fun b b' hW => ⟨ks, hW, hks⟩⟩

/-- A merge fails only if it copies from a cycle or from its target. -/
theorem yields_merger (m : Merger) (h1 : Counted ext h) (hn : n ∈ ext) (hother : other ∈ ext) :
    Yields (m.run h n other)
      (fun f => f = .freed ∧ ¬ (h.AcyclicFrom other ∧ ¬ h.Reach other n)) fun h' =>
      Counted ext h' ∧ Changes h h' n [] (m.Writes h other) := by
  cases m with
  | object overwrite => exact yields_mapMerge objects overwrite h1 hn hother
  | intMap overwrite => exact yields_mapMerge intMaps overwrite h1 hn hother
  | extend =>
    change Yields (orFreed (arrExtend h n other)) _ _
    cases hextend : arrExtend h n other with
    | none =>
      refine ⟨rfl, ?_⟩
      rintro ⟨hacyclic, hsep⟩
      rcases arrExtend_returns h1 hn hother hsep hacyclic with ⟨h', hh'⟩
      rw [hextend] at hh'
      cases hh'
    | some h' => exact counted_arrExtend h1 hn hextend

theorem yields_copyNode (h1 : Counted ext h) (hn : h.refcountOf n ≠ 0) :
    Yields (orFreed (copyNode n h)) (fun f => f = .freed ∧ ¬ h.AcyclicFrom n) fun r =>
      Counted (r.1 :: ext) r.2 ∧ Builds h r.2 ∧ h.next <= r.1 := by
  cases hcopy : copyNode n h with
  | none =>
    refine ⟨rfl, fun hacyclic => ?_⟩
    rcases exists_denotes h1.exact hn hacyclic with ⟨t, ht⟩
    rcases copyNode_returns h1.exact.inBounds ht (Nat.le_refl _) with ⟨c, h', hc, _⟩
    rw [hcopy] at hc
    cases hc
  | some r =>
    rcases copied_of_copyNode h1.exact.inBounds hcopy with ⟨t, _, hcopied⟩
    exact ⟨hcopied.counted h1, hcopied.builds, hcopied.fresh⟩

end Async2.Ownership
