import Async2.Ownership.Rebinds

/-!
# The version of a map

Insertions, removals and clears count the version of a map; merges do not.  A native that
changes no key leaves the entries, and counts the version only of an empty map.
-/

namespace Async2.Ownership

open RefCount.Heap List Option Inserted Native

/-!
## Counting
-/

section

variable {K : Type} [DecidableEq K] {M : MapKind K} {wrap : K -> MapKey}
variable {h h' : NodeHeap} {n val : Nat} {node node' old new : Node} {key : K}

theorem read_releaseThenWrite {released : List Nat}
    (hwrite : releaseThenWrite h n released node = some h') : h'.read n = some node := by
  rcases bind_eq_some_iff.mp hwrite with ⟨h1, _, hwrite⟩
  rcases write_eq_some.mp hwrite with ⟨hlive, rfl⟩
  exact read_setBody_self hlive

theorem version_mapInsert (hread : h.read n = some node)
    (hkeys : insertedKeys M wrap key node.content ≠ []) (hins : mapInsert M h n key val = some h') :
    exists c, h'.read n = some ⟨node.version + 1, c⟩ := by
  cases hm : M.get node.content with
  | none =>
    refine absurd ?_ hkeys
    unfold insertedKeys
    rw [hm]
    rfl
  | some m =>
    rw [mapInsert_eq hread hm] at hins
    exact ⟨_, read_releaseThenWrite hins⟩

theorem version_mapErase {removed : Bool} (hread : h.read n = some node)
    (hkeys : erasedKeys M wrap key node.content ≠ [])
    (herase : mapErase M h n key = some (removed, h')) :
    exists c, h'.read n = some ⟨node.version + 1, c⟩ := by
  cases hfind : (M.get node.content).bind fun m => m.find key with
  | none =>
    refine absurd ?_ hkeys
    unfold erasedKeys
    rw [hfind]
    rfl
  | some v =>
    rcases bind_eq_some_iff.mp hfind with ⟨m, hm, hv⟩
    unfold mapErase at herase
    simp only [hread, hm, hv, some_bind, write_of_live (live_of_read hread)] at herase
    rcases bind_eq_some_iff.mp herase with ⟨h1, hwrite, hpure⟩
    cases hpure
    exact ⟨_, read_releaseThenWrite hwrite⟩

omit [DecidableEq K] in
theorem version_mapClear (hread : h.read n = some node)
    (hkeys : clearedKeys M wrap node.content ≠ []) (hclear : mapClear M h n = some h') :
    exists c, h'.read n = some ⟨node.version + 1, c⟩ := by
  cases hm : M.get node.content with
  | none =>
    refine absurd ?_ hkeys
    unfold clearedKeys
    rw [hm]
  | some m =>
    unfold mapClear at hclear
    simp only [hread, hm, some_bind, write_of_live (live_of_read hread)] at hclear
    exact ⟨_, read_releaseThenWrite hclear⟩

theorem yields_of_some {A : Type} {res : Option A} {Q : A -> Prop}
    (hQ : forall x, res = some x -> Q x) : Yields (orFreed res) (fun _ => True) Q := by
  cases res with
  | none => exact trivial
  | some x => exact hQ x rfl

theorem version_setScalar {type : DataType} (sc : Scalar)
    (htype : forall c m, M.get c = some m -> c.type = type) (hread : h.read n = some node)
    (hkeys : insertedKeys M wrap key node.content ≠ []) :
    Yields (setScalar type (fun h v => orFreed (mapInsert M h n key v)) sc h n) (fun _ => True)
      fun r => exists c, r.2.read n = some ⟨node.version + 1, c⟩ := by
  have hlt := lt_next_of_refcountOf (live_of_read hread)
  have hread' : (h.alloc ⟨0, sc.content⟩).read n = some node := by
    rw [read_congr (cell_alloc_of_ne (Nat.ne_of_lt hlt))]
    exact hread
  unfold setScalar
  rw [contentAt_of_read hread]
  change Yields (if node.content.type ≠ type then _ else _) _ _
  split
  case isTrue hother =>
    cases hm : M.get node.content with
    | none =>
      refine absurd ?_ hkeys
      unfold insertedKeys
      rw [hm]
      rfl
    | some m => exact absurd (htype _ m hm) hother
  refine (yields_of_some fun h' hins => ?_).bind fun h' hh' => hh'
  exact version_mapInsert hread' hkeys hins

end

variable {env : Env} {lost : List Nat} {s s' : State} {a : Native} {h : NodeHeap} {n : Nat}
variable {node node' : Node} {K : Type} {M : MapKind K} {wrap : K -> MapKey}

theorem version_mutator (m : Mutator) (hread : h.read n = some node)
    (hkeys : m.rebinds node.content ≠ []) :
    Yields (m.run h n) (fun _ => True) fun r =>
      exists c, r.2.read n = some ⟨node.version + 1, c⟩ := by
  have herased : forall {K : Type} [DecidableEq K] (M : MapKind K) (wrap : K -> MapKey) (key : K),
      erasedKeys M wrap key node.content ≠ [] ->
      Yields (reported (mapErase M h n key)) (fun _ => True) fun r =>
        exists c, r.2.read n = some ⟨node.version + 1, c⟩ := by
    intro K _ M wrap key hkeys
    refine (yields_of_some fun r herase => ?_).bind fun r hr => hr
    exact version_mapErase hread hkeys herase
  have hcleared : forall {K : Type} (M : MapKind K) (wrap : K -> MapKey),
      clearedKeys M wrap node.content ≠ [] ->
      Yields (unreported (mapClear M h n)) (fun _ => True) fun r =>
        exists c, r.2.read n = some ⟨node.version + 1, c⟩ := by
    intro K M wrap hkeys
    refine (yields_of_some fun r hclear => ?_).bind fun r hr => hr
    exact version_mapClear hread hkeys hclear
  cases m with
  | set key sc =>
    refine version_setScalar sc (fun c m hm => ?_) hread hkeys
    rw [objects.make_of_get c m hm]
    rfl
  | intMapSet key sc =>
    refine version_setScalar sc (fun c m hm => ?_) hread hkeys
    rw [intMaps.make_of_get c m hm]
    rfl
  | removeKey key => exact herased objects .member (cStr key) hkeys
  | intMapRemoveKey key => exact herased intMaps .intMember key hkeys
  | objectClear => exact hcleared objects .member hkeys
  | intMapClear => exact hcleared intMaps .intMember hkeys
  | _ => exact absurd rfl hkeys

theorem version_store (slot : Slot) {val : Nat} (hread : h.read n = some node)
    (hkeys : slot.rebinds node.content ≠ []) :
    Yields (slot.store h n val) (fun _ => True) fun h' =>
      exists c, h'.read n = some ⟨node.version + 1, c⟩ := by
  cases slot with
  | member key | intMember key =>
    exact yields_of_some fun h' hins => version_mapInsert hread hkeys hins
  | _ => exact absurd rfl hkeys

theorem reads_freeHandle (id : Int) : Yields (s.freeHandle id) (fun _ => True) fun s' =>
    forall x b, s'.heap.read x = some b -> s.heap.read x = some b := by
  unfold State.freeHandle
  split
  · exact fun _ _ hread => hread
  refine (yields_of_some fun h hrel => ?_).bind fun h hh => hh
  exact fun x b hread => (shrinks_decref hrel).read_eq hread

def Native.isMerge : Native -> Bool
  | .merge _ _ _ => true
  | _ => false

/-- A native other than a merge that changes a key of a map counts its version. -/
theorem version_of_step (hstep : (natives env).step a s = some s')
    (hread : s.heap.read n = some node) (hread' : s'.heap.read n = some node')
    (hkeys : a.rebinds s n ≠ []) (hmerge : a.isMerge = false) :
    node'.version = node.version + 1 := by
  rcases step_eq_some hstep with ⟨_, answer, hrun⟩
  suffices hyields : Yields (a.call env s) (fun _ => True) fun r =>
      forall node', r.2.heap.read n = some node' -> node'.version = node.version + 1 by
    have hbind : Yields (a.run env s) (fun _ => True) fun r =>
        forall node', r.2.heap.read n = some node' -> node'.version = node.version + 1 :=
      hyields.bind fun r hr => hr
    exact hbind.of_ok hrun node' hread'
  unfold rebinds at hkeys
  simp only [hread] at hkeys
  cases a with
  | mutate json m =>
    dsimp only at hkeys
    split at hkeys
    case isFalse => exact absurd rfl hkeys
    case isTrue hn =>
      simp only [call, State.withData, hn]
      refine (version_mutator m hread hkeys).bind ?_
      rintro ⟨answer, h'⟩ ⟨c, hc⟩ node' hnode'
      cases hc.symm.trans hnode'
      rfl
  | setObject json slot child =>
    dsimp only at hkeys
    split at hkeys
    case isFalse => exact absurd rfl hkeys
    case isTrue hboth =>
      rcases hboth with ⟨hn, hother⟩
      rcases isSome_iff_exists.mp hother with ⟨c, hc⟩
      rcases bind_eq_some_iff.mp hc with ⟨val, hval, hc⟩
      split at hc
      · cases hc
      case isFalse hne =>
        simp only [call, State.withData, hn, hval, if_neg (Ne.symm hne)]
        refine (yields_of_some (Q := fun h => h.read n = some node) fun h hinc => ?_).bind
          fun h hh => ?_
        · rw [read_incref hinc]
          exact hread
        · refine (version_store slot hh hkeys).bind fun h' hh' => ?_
          refine (reads_freeHandle child).bind fun s'' hs'' node' hnode' => ?_
          rcases hh' with ⟨c', hc'⟩
          cases hc'.symm.trans (hs'' n node' hnode')
          rfl
  | merge json m other => cases hmerge
  | _ => exact absurd rfl hkeys

/-- A mutator or a setter is called on the node at an address. -/
def Native.mutates (s : State) (n : Nat) : Native -> Bool
  | .mutate json _ => s.getDataHandle json = some n
  | .setObject json _ _ => s.getDataHandle json = some n
  | _ => false

theorem Mutator.Writes.version {m : Mutator} (hW : m.Writes node node') :
    node'.version = node.version ∨ node'.version = node.version + 1 := by
  cases m with
  | set key sc | intMapSet key sc =>
    rcases hW with ⟨_, _, _, rfl⟩
    exact .inr rfl
  | removeKey key | intMapRemoveKey key | objectClear | intMapClear =>
    rcases hW with ⟨_, _, rfl⟩
    exact .inr rfl
  | _ =>
    rcases hW with ⟨_, _, _, rfl⟩
    exact .inl rfl

theorem Slot.Writes.version {slot : Slot} (hW : slot.Writes node node') :
    node'.version = node.version ∨ node'.version = node.version + 1 := by
  cases slot with
  | member key | intMember key =>
    rcases hW with ⟨_, _, _, rfl⟩
    exact .inr rfl
  | _ =>
    rcases hW with ⟨_, _, _, rfl⟩
    exact .inl rfl

theorem Merger.Writes.version {m : Merger} {n' : Nat} (hW : m.Writes h n' node node') :
    node'.version = node.version := by
  cases m with
  | object overwrite | intMap overwrite =>
    rcases hW with ⟨_, hmerged, _⟩
    exact hmerged.left
  | extend =>
    rcases hW with ⟨_, _, _, rfl⟩
    rfl

/-- A native counts the version at most once, and only if it is called on the node. -/
theorem Wrote.version (hwrote : Wrote s n node node' a) :
    node'.version = node.version ∨ node'.version = node.version + 1 ∧ a.mutates s n = true := by
  cases hwrote with
  | same heq => exact .inl (by rw [heq])
  | mutate hn hW | setObject hn hval hne hW =>
    exact hW.version.imp id fun hv => ⟨hv, decide_eq_true hn⟩
  | merge hn hn' hne hW => exact .inl hW.version

/-!
## A map without changed keys
-/

/-- The contents are as before, and a version was counted only on an empty map. -/
structure SameMap (node node' : Node) : Prop where
  content : node'.content = node.content
  version : node'.version = node.version ∨ forall k, node.content.lookup k = none

theorem SameMap.refl (node : Node) : SameMap node node := ⟨rfl, .inl rfl⟩

theorem Inserted.not_nil [DecidableEq K] {key : K} (hW : Inserted M key node node') :
    insertedKeys M wrap key node.content ≠ [] := by
  rcases hW with ⟨m, val, hm, _⟩
  rw [insertedKeys_of_get hm]
  exact cons_ne_nil _ _

theorem mapErase_nothing [DecidableEq K] {key : K} {h' : NodeHeap} {removed : Bool}
    (hread : h.read n = some node) (hkeys : erasedKeys M wrap key node.content = [])
    (herase : mapErase M h n key = some (removed, h')) : h' = h := by
  unfold mapErase at herase
  rw [hread, some_bind] at herase
  cases hm : M.get node.content with
  | none =>
    rw [hm] at herase
    cases herase
    rfl
  | some m =>
    cases hfind : m.find key with
    | none =>
      simp only [hm, hfind] at herase
      cases herase
      rfl
    | some v =>
      unfold erasedKeys at hkeys
      rw [hm, bind_some, hfind] at hkeys
      cases hkeys

theorem Cleared.unchanged [DecidableEq K] (hW : Cleared M node node') (hM : KeyedBy M wrap)
    (hkeys : clearedKeys M wrap node.content = []) : SameMap node node' := by
  rcases hW with ⟨m, hm, rfl⟩
  have hempty : m = .empty := by
    unfold clearedKeys at hkeys
    rw [hm] at hkeys
    apply Dict.ext
    exact map_eq_nil_iff.mp (map_eq_nil_iff.mp hkeys)
  subst hempty
  refine ⟨(M.make_of_get _ _ hm).symm, .inr fun k => ?_⟩
  cases hk : node.content.lookup k with
  | none => rfl
  | some v =>
    rcases hM.of_get hm hk with ⟨key, _, hfind⟩
    cases hfind

section

variable {K : Type} [DecidableEq K] {M : MapKind K} {m : Dict K Nat} {overwrite : Bool}

variable (hread : h.read n = some node)
include hread

theorem mergeEntry_kept {e : K × Nat} (hm : M.get node.content = some m)
    (htaken : ¬ ((m.find e.1).isNone || overwrite) = true) :
    mergeEntry M overwrite n h e = some h := by
  unfold mergeEntry
  simp only [hread, hm, some_bind]
  cases hfind : m.find e.1 with
  | none =>
    rw [hfind] at htaken
    exact absurd rfl htaken
  | some old =>
    rw [hfind] at htaken
    cases overwrite with
    | false => rfl
    | true => exact absurd rfl htaken

theorem mergeLoop_nothing (hm : M.get node.content = some m) (es : List (K × Nat))
    (hes : taken m overwrite es = []) : es.foldlM (mergeEntry M overwrite n) h = some h := by
  induction es with
  | nil => rfl
  | cons e es ih =>
    have hall := filter_eq_nil_iff.mp hes
    rw [foldlM_cons, mergeEntry_kept hread hm (hall e mem_cons_self)]
    apply ih
    apply filter_eq_nil_iff.mpr
    exact fun e' he' => hall e' (mem_cons_of_mem e he')

theorem mapMerge_nothing {wrap : K -> MapKey} {h' : NodeHeap} {n' : Nat} {source : Node}
    (hsource : h.read n' = some source)
    (hkeys : mergedKeys M wrap overwrite source.content node.content = [])
    (hmerge : mapMerge M h n n' overwrite = some h') : h' = h := by
  cases hm' : M.get source.content with
  | none =>
    rw [mapMerge_other hread hsource (.inr hm')] at hmerge
    cases hmerge
    rfl
  | some m' =>
    unfold mapMerge at hmerge
    simp only [hread, hsource, hm', some_bind] at hmerge
    cases hm : M.get node.content with
    | none =>
      rw [hm] at hmerge
      cases hmerge
      rfl
    | some m =>
      rw [hm] at hmerge
      change m'.entries.foldlM (mergeEntry M overwrite n) h = some h' at hmerge
      unfold mergedKeys at hkeys
      simp only [hm, hm'] at hkeys
      have hnone := map_eq_nil_iff.mp (map_eq_nil_iff.mp hkeys)
      rw [mergeLoop_nothing hread hm m'.entries hnone] at hmerge
      cases hmerge
      rfl

end

theorem reported_eq_ok {res : Option (Bool × NodeHeap)} {answer : Answer} {h' : NodeHeap}
    (hres : reported res = .ok (answer, h')) : exists removed, res = some (removed, h') := by
  cases res with
  | none => cases hres
  | some r =>
    cases hres
    exact ⟨r.1, rfl⟩

theorem heap_of_mutate {json : Int} {m : Mutator}
    (hstep : (natives env).step (.mutate json m) s = some s') (hn : s.getDataHandle json = some n) :
    exists answer, m.run s.heap n = .ok (answer, s'.heap) := by
  rcases step_eq_some hstep with ⟨_, answer, hrun⟩
  unfold run at hrun
  simp only [call, State.withData, hn] at hrun
  cases hm : m.run s.heap n with
  | error f =>
    rw [hm] at hrun
    cases hrun
  | ok r =>
    rw [hm] at hrun
    cases hrun
    exact ⟨r.1, rfl⟩

theorem Rearranged.not_map (hW : Rearranged node node') (hmap : node.content.type ≠ .array) :
    False := by
  rcases hW with ⟨arr, arr', harr, _⟩
  rw [harr] at hmap
  exact hmap rfl

theorem sameMap_of_step (hs : Sound lost s) (hstep : (natives env).step a s = some s')
    (hread : s.heap.read n = some node) (hread' : s'.heap.read n = some node')
    (hmap : node.content.type ≠ .array) (hkeys : a.rebinds s n = []) : SameMap node node' := by
  have hn := lt_next_of_refcountOf (live_of_read hread)
  have hsame : s'.heap = s.heap -> SameMap node node' := by
    intro heq
    rw [heq, hread] at hread'
    cases hread'
    exact .refl node
  rcases (ran_step hs hstep).stepped.effect.wrote hn hread' with ⟨node0, hread0, hwrote⟩
  rw [hread] at hread0
  cases hread0
  cases hwrote with
  | same heq =>
    rw [heq]
    exact .refl node
  | @mutate json m hjson hW =>
    rw [rebinds_mutate m hjson hread] at hkeys
    rcases heap_of_mutate hstep hjson with ⟨answer, hrun⟩
    cases m with
    | set key sc | intMapSet key sc => exact absurd hkeys (not_nil hW)
    | removeKey key | intMapRemoveKey key =>
      rcases reported_eq_ok hrun with ⟨removed, herase⟩
      exact hsame (mapErase_nothing hread hkeys herase)
    | objectClear => exact Cleared.unchanged hW objects_keyedBy hkeys
    | intMapClear => exact Cleared.unchanged hW intMaps_keyedBy hkeys
    | _ => exact (Rearranged.not_map hW hmap).elim
  | @setObject json child slot val hjson hval hne hW =>
    rcases exists_read (hs.owned.data_live hval) with ⟨source, hsource⟩
    rw [rebinds_setObject slot hjson hval hne hread hsource] at hkeys
    cases slot with
    | member key | intMember key => exact absurd hkeys (not_nil hW)
    | _ => exact (Rearranged.not_map hW hmap).elim
  | @merge json other m n' hjson hn' hne hW =>
    rcases exists_read (hs.owned.data_live hn') with ⟨source, hsource⟩
    rw [rebinds_merge m hjson hn' hne hread hsource] at hkeys
    have hmerge := heap_of_merge hstep hjson hn' hne
    cases m with
    | object overwrite | intMap overwrite =>
      exact hsame (mapMerge_nothing hread hsource hkeys (eq_some_of_orFreed hmerge))
    | extend => exact (Rearranged.not_map hW hmap).elim

end Async2.Ownership
