import Async2.Ownership.Counts
import Async2.Ownership.Union

/-!
# Merging as a union of maps

`ObjMerge` and `IntMapMerge` give the union of the two maps, unless a value that leads to
the target is copied after the target has changed.
-/

namespace Async2.Ownership

open RefCount.Heap AssocList Relation TransitionSystem List Option

section

variable {K : Type} [DecidableEq K] {M : MapKind K} {ext : List Nat} {h0 h h' : NodeHeap}
variable {n other : Nat} {node : Node} {m source now : Dict K Nat} {e : K × Nat} {overwrite : Bool}

theorem mapMerge_eq (hs : Mergeable M ext h0 n other node m source) (overwrite : Bool) :
    mapMerge M h0 n other overwrite = source.entries.foldlM (mergeEntry M overwrite n) h0 := by
  rcases hs.getSource with ⟨node', hread, hget⟩
  unfold mapMerge
  simp only [hs.read, hread, hs.get, hget, some_bind]

/-- The merge returns, the source is as before, and the target has the keys of both maps:
those that are copied with new nodes for the values that the source had, the others with
their old nodes. -/
def Unites (M : MapKind K) (h : NodeHeap) (n other : Nat) (overwrite : Bool) (node : Node)
    (m source : Dict K Nat) : Prop :=
  exists h' last, mapMerge M h n other overwrite = some h' ∧ h'.read other = h.read other ∧
    h'.read n = some { node with content := M.make last } ∧
    (forall key, last.find key = none <-> m.find key = none ∧ source.find key = none) ∧
    (forall e, e ∈ taken m overwrite source.entries -> exists c t t', last.find e.1 = some c ∧
      (forall x, h'.Reach c x -> h.next <= x) ∧ Denotes h' h'.next c t ∧
      Denotes h h.next e.2 t' ∧ t.Reorders t') ∧
    forall key, key ∉ keys (taken m overwrite source.entries) -> last.find key = m.find key

theorem mem_taken {es : List (K × Nat)} (he : e ∈ es) (hnone : m.find e.1 = none) :
    e ∈ taken m overwrite es := by
  refine mem_filter.mpr ⟨he, ?_⟩
  rw [hnone]
  rfl

theorem Progress.unites (hs : Mergeable M ext h0 n other node m source)
    (hloop : source.entries.foldlM (mergeEntry M overwrite n) h0 = some h)
    (hp : Progress M ext h0 n node m (taken m overwrite source.entries) h now) :
    Unites M h0 n other overwrite node m source := by
  refine ⟨h, now, (mapMerge_eq hs overwrite).trans hloop, hp.read_source hs, hp.read, ?_, ?_,
    hp.rest⟩
  · intro key
    constructor
    · intro hnone
      have hnot : key ∉ keys (taken m overwrite source.entries) := by
        intro hmem
        rcases mem_map.mp hmem with ⟨e, he, rfl⟩
        rcases hp.copies e he with ⟨c, _, _, hc, _⟩
        rw [hnone] at hc
        cases hc
      rw [hp.rest key hnot] at hnone
      refine ⟨hnone, ?_⟩
      by_contra hsome
      rcases ne_none_iff_exists'.mp hsome with ⟨v, hv⟩
      have he : (key, v) ∈ source.entries := mem_of_find hv
      exact hnot (mem_map_of_mem (f := Prod.fst) (mem_taken he hnone))
    · rintro ⟨hnone, hsource⟩
      rw [hp.rest key, hnone]
      intro hmem
      rcases mem_map.mp hmem with ⟨e, he, rfl⟩
      have hfind := find_of_mem source.distinct (taken_subset he)
      change source.find e.1 = some e.2 at hfind
      rw [hsource] at hfind
      cases hfind
  · intro e he
    rcases hp.copies e he with ⟨c, t, t', hc, hfresh, ⟨k, ht⟩, ht', hreorders⟩
    refine ⟨c, t, t', hc, fun x hreach => ?_, ht.at_next, ht', hreorders⟩
    rcases reflTransGen_iff_eq_or_transGen.mp hreach with rfl | hpath
    · exact hfresh
    · exact hfresh.trans (Nat.le_of_lt (hp.changes.path_new hfresh hpath))

theorem unites_iff_undisturbed {tree : List (K × DataNode) -> DataNode} (hM : M.Orders tree)
    (hs : Mergeable M ext h0 n other node m source) (overwrite : Bool) :
    Unites M h0 n other overwrite node m source <->
      forall before e after, taken m overwrite source.entries = before ++ e :: after ->
        Undisturbed ext h0 n m before e := by
  have hkeys : (keys ([] : List (K × Nat)) ++ keys source.entries).Nodup := source.distinct
  constructor
  · rintro ⟨h', last, hmerge, _, hread, _, hcopies, _⟩
    rw [mapMerge_eq hs] at hmerge
    have hall := hs.progress.loop_undisturbed hM hs source.entries (fun _ he => he)
      (fun _ he => absurd he List.not_mem_nil) hkeys hmerge hread ?_
    · exact hall
    · intro e he
      rcases hcopies e he with ⟨c, t, t', hc, _, ht, ht', hreorders⟩
      exact ⟨c, _, t, t', hc, ht, ht', hreorders⟩
  · intro hund
    rcases hs.progress.loop hM hs source.entries (fun _ he => he) hkeys hund
      with ⟨h', now, hloop, hp⟩
    exact hp.unites hs hloop

end

/-- Merging two objects or two int-maps gives the union of the maps exactly if no entry is
disturbed. -/
theorem unites_iff {ext : List Nat} {h : NodeHeap} {n other : Nat} {node : Node}
    (overwrite : Bool) :
    (forall m source : Dict Bytes Nat, Mergeable objects ext h n other node m source ->
      (Unites objects h n other overwrite node m source <->
        forall before e after, taken m overwrite source.entries = before ++ e :: after ->
          Undisturbed ext h n m before e)) ∧
    (forall m source : Dict Int64 Nat, Mergeable intMaps ext h n other node m source ->
      (Unites intMaps h n other overwrite node m source <->
        forall before e after, taken m overwrite source.entries = before ++ e :: after ->
          Undisturbed ext h n m before e)) :=
  ⟨fun _ _ hs => unites_iff_undisturbed objects_orders hs overwrite,
    fun _ _ hs => unites_iff_undisturbed intMaps_orders hs overwrite⟩

theorem acyclic_of_copies {h : NodeHeap} (hin : InBounds h)
    (hall : forall x, x < h.next -> (h.read x).isSome = true -> (copyNode x h).isSome = true) :
    Acyclic h := by
  intro a hcycle
  have hlive : h.refcountOf a ≠ 0 := by
    rcases TransGen.head'_iff.mp hcycle with ⟨c, hedge, _⟩
    exact live_of_mem_held hedge
  rcases exists_read hlive with ⟨b, hb⟩
  have hsome : (h.read a).isSome = true := by
    rw [hb]
    rfl
  rcases isSome_iff_exists.mp (hall a (lt_next_of_refcountOf hlive) hsome)
    with ⟨⟨c, h'⟩, hcopy⟩
  rcases copied_of_copyNode hin hcopy with ⟨t, ht, _⟩
  exact ht.not_cyclic hcycle

/-- An object that is a member of another one, with a handle on each. -/
def memberOfSource : List Native :=
  [Surface.jsonCreateObject 1, Surface.jsonCreateObject 2, Surface.jsonRef 2 3,
    Surface.jsonSetObject 1 [98] 2]

/-- The target is the member of the source. -/
theorem unites_memberOfSource :
    exists s, (natives plainEnv).run memberOfSource .init = some s ∧ s.heap.held 0 = [1] ∧
      Mergeable objects s.refs s.heap 1 0 ⟨0, .object .empty⟩ .empty (Dict.empty.insert [98] 1) ∧
      Unites objects s.heap 1 0 true ⟨0, .object .empty⟩ .empty (Dict.empty.insert [98] 1) := by
  refine ⟨_, rfl, rfl, ?_⟩
  have hreach : Reaches (natives plainEnv) (fun _ a => a.repeatsKey plainEnv = false) _ :=
    reaches_of_run memberOfSource .init (by decide) rfl
  have hs := sound_of_distinct (fun _ _ ha => ha) hreach
  have hbelow : forall h : NodeHeap, h.read 0 = some ⟨1, .object (Dict.empty.insert [98] 1)⟩ ->
      h.read 1 = some ⟨0, .object .empty⟩ -> Below Content.ZeroFree h 0 := by
    intro h hread0 hread1
    refine (below_iff hread0).mpr ⟨fun _ hc => Content.noConfusion hc, fun x hx => ?_⟩
    cases List.mem_singleton.mp hx
    exact (below_iff hread1).mpr
      ⟨fun _ hc => Content.noConfusion hc, fun y hy => absurd hy List.not_mem_nil⟩
  have hmergeable : Mergeable objects _ _ 1 0 ⟨0, .object .empty⟩ .empty
      (Dict.empty.insert [98] 1) :=
    { counted := hs.owned
      acyclic := acyclic_of_copies hs.owned.exact.inBounds (by decide +kernel)
      target := by decide
      held := by decide
      different := by decide
      read := rfl
      get := rfl
      getSource := ⟨_, rfl, rfl⟩
      zeroFree := hbelow _ rfl rfl }
  refine ⟨hmergeable, ((unites_iff true).left _ _ hmergeable).mpr ?_⟩
  intro before e after hsplit _
  have hnone : before = [] := by
    have hlength := congrArg List.length hsplit
    rw [List.length_append, List.length_cons] at hlength
    apply List.eq_nil_of_length_eq_zero
    change 1 = _ at hlength
    omega
  subst hnone
  refine ⟨fun _ he => absurd he List.not_mem_nil, fun old hold => ?_⟩
  cases hold

/-- The source has under a key of the target an object with the target as a member. -/
def targetInSource : List Native :=
  [Surface.jsonCreateObject 1, Surface.jsonSetString 1 [97] [120], Surface.jsonCreateObject 2,
    Surface.jsonRef 1 3, Surface.jsonSetObject 2 [116] 3, Surface.jsonCreateObject 4,
    Surface.jsonSetObject 4 [97] 2]

/-- The copy of the value reads the string that was just given back. -/
theorem targetInSource_not_united :
    exists s, (natives plainEnv).run targetInSource .init = some s ∧
      (Surface.jsonObjectMerge 1 4 true).run plainEnv s = .error .freed ∧
      Mergeable objects s.refs s.heap 0 3 ⟨1, .object (Dict.empty.insert [97] 1)⟩
        (Dict.empty.insert [97] 1) (Dict.empty.insert [97] 2) ∧
      ¬ Unites objects s.heap 0 3 true ⟨1, .object (Dict.empty.insert [97] 1)⟩
        (Dict.empty.insert [97] 1) (Dict.empty.insert [97] 2) := by
  refine ⟨_, rfl, rfl, ?_, ?_⟩
  · have hreach : Reaches (natives plainEnv) (fun _ a => a.repeatsKey plainEnv = false) _ :=
      reaches_of_run targetInSource .init (by decide) rfl
    have hs := sound_of_distinct (fun _ _ ha => ha) hreach
    have hbelow : forall h : NodeHeap,
        h.read 3 = some ⟨1, .object (Dict.empty.insert [97] 2)⟩ ->
        h.read 2 = some ⟨1, .object (Dict.empty.insert [116] 0)⟩ ->
        h.read 0 = some ⟨1, .object (Dict.empty.insert [97] 1)⟩ ->
        h.read 1 = some ⟨0, .string [120]⟩ -> Below Content.ZeroFree h 3 := by
      intro h hread3 hread2 hread0 hread1
      refine (below_iff hread3).mpr ⟨fun _ hc => Content.noConfusion hc, fun x hx => ?_⟩
      cases List.mem_singleton.mp hx
      refine (below_iff hread2).mpr ⟨fun _ hc => Content.noConfusion hc, fun y hy => ?_⟩
      cases List.mem_singleton.mp hy
      refine (below_iff hread0).mpr ⟨fun _ hc => Content.noConfusion hc, fun z hz => ?_⟩
      cases List.mem_singleton.mp hz
      refine (below_iff hread1).mpr ⟨?_, fun _ hw => absurd hw List.not_mem_nil⟩
      intro _ hc
      cases hc
      decide
    exact
      { counted := hs.owned
        acyclic := acyclic_of_copies hs.owned.exact.inBounds (by decide +kernel)
        target := by decide
        held := by decide
        different := by decide
        read := rfl
        get := rfl
        getSource := ⟨_, rfl, rfl⟩
        zeroFree := hbelow _ rfl rfl rfl rfl }
  · rintro ⟨h', last, hmerge, _⟩
    cases hmerge

end Async2.Ownership
