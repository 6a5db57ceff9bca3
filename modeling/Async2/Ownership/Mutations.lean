import Async2.Ownership.Node

/-!
# What the node helpers do

A helper that changes a node writes its counter, gives references back and writes the
node again.  Every helper keeps the counts exact, as long as its caller has a reference
to the node, and says which edges it adds.
-/

namespace Async2.Ownership

open RefCount RefCount.Heap List Option Dict

/-- The change that a helper makes: a node is written, after the references `released`
were given back while its slots were still the old ones. -/
structure Mutates (h : NodeHeap) (n : Nat) (released : List Nat) (node : Node)
    (h' : NodeHeap) : Prop where
  intro ::
  steps : exists old counted h1, h.read n = some old ∧ slots counted = slots old ∧
    (h.setBody n counted).releaseAll released = some h1 ∧ h1.refcountOf n ≠ 0 ∧
    h' = h1.setBody n node

variable {h h' : NodeHeap} {n val index : Nat} {node : Node} {K : Type} {M : MapKind K}
variable {m : Dict K Nat} {released ext ext' added arr arr' : List Nat}

section

variable {old counted : Node} {B : Type}

theorem setBody_self {h : Heap B} {b : B} (hread : h.read n = some b) : h.setBody n b = h := by
  rcases read_eq_some.mp hread with ⟨k, hc⟩
  apply Heap.ext
  · rfl
  · funext x
    by_cases hx : x = n
    · subst hx
      rw [cell_setBody_self hc, hc]
    · exact cell_setBody_of_ne hx

theorem write_of_live (hlive : h.refcountOf n ≠ 0) : h.write n node = some (h.setBody n node) :=
  write_eq_some.mpr ⟨hlive, rfl⟩

theorem setBody_setBody (h : Heap B) (n : Nat) (b b' : B) :
    (h.setBody n b).setBody n b' = h.setBody n b' := by
  apply Heap.ext
  · rfl
  · funext x
    by_cases hx : x = n
    · subst hx
      unfold setBody
      rw [cell_update_self, cell_update_self, cell_update_self]
      cases h.cell x <;> rfl
    · rw [cell_setBody_of_ne hx, cell_setBody_of_ne hx, cell_setBody_of_ne hx]

theorem rewrite_of_live (hlive : h.refcountOf n ≠ 0) :
    releaseThenWrite (h.setBody n counted) n [] node = some (h.setBody n node) := by
  have hlive' : (h.setBody n counted).refcountOf n ≠ 0 := by
    rw [refcountOf_setBody]
    exact hlive
  rw [← setBody_setBody h n counted node]
  exact write_of_live hlive'

/-- The common part of the helpers.  The node that is written is referred to by the
caller, so that it is still there after the release. -/
theorem mutates_releaseThenWrite (h1 : Counted ext h) (hread : h.read n = some old)
    (hslots : slots counted = slots old)
    (hcount : forall x, (released ++ ext').count x + (slots node).count x =
      ext.count x + (slots old).count x)
    (hn : n ∈ ext') :
    exists h', releaseThenWrite (h.setBody n counted) n released node = some h' ∧
      Counted ext' h' ∧ Mutates h n released node h' := by
  have hlive := live_of_read hread
  have hcounted : Counted ext (h.setBody n counted) := by
    apply h1.setBody hread
    intro x
    rw [hslots]
  have hread' : (h.setBody n counted).read n = some counted := read_setBody_self hlive
  rw [← hslots] at hcount
  rcases hcounted.overwrite hread' hcount hn with ⟨h2, hrel, _, hread2, hfinal⟩
  have hlive2 := live_of_read hread2
  refine ⟨h2.setBody n node, ?_, hfinal, ⟨old, counted, h2, hread, hslots, hrel, hlive2, rfl⟩⟩
  unfold releaseThenWrite
  rw [hrel]
  exact write_of_live hlive2

variable (h1 : Mutates h n released node h')
include h1

theorem Mutates.next : h'.next = h.next := by
  rcases h1.steps with ⟨old, counted, h2, _, _, hrel, _, rfl⟩
  exact (shrinks_decrefAll hrel).next

theorem Mutates.builds {h0 : NodeHeap} (hbuilds : Builds h0 h) (hn : h0.next <= n)
    (hreleased : forall b, h.read n = some b -> forall x, x ∈ released -> x ∈ slots b)
    (hslots : forall x, x ∈ slots node -> n < x) : Builds h0 h' := by
  rcases h1.steps with ⟨old, counted, h2, hread, heq, hrel, hlive, rfl⟩
  have hlater : forall x, x ∈ slots old -> n < x := by
    intro x hx
    rw [← held_of_read hread] at hx
    exact hbuilds.later n x hn hx
  have hcounted : Builds h0 (h.setBody n counted) := by
    apply hbuilds.setBody hn
    rw [heq]
    exact hlater
  have hreleasing : Builds h0 h2 := by
    apply hcounted.releaseAll ?_ hrel
    intro x hx
    exact hn.trans (Nat.le_of_lt (hlater x (hreleased old hread x hx)))
  exact hreleasing.setBody hn hslots

theorem Mutates.read_of_ne {a : Nat} {b : Node} (ha : a ≠ n) (hread : h'.read a = some b) :
    h.read a = some b := by
  rcases h1.steps with ⟨old, counted, h2, _, _, hrel, _, rfl⟩
  rw [read_congr (cell_setBody_of_ne ha)] at hread
  have hold := (shrinks_decrefAll hrel).read_eq hread
  rw [read_congr (cell_setBody_of_ne ha)] at hold
  exact hold

theorem Mutates.read_self : h'.read n = some node := by
  rcases h1.steps with ⟨old, counted, h2, _, _, _, hlive, rfl⟩
  exact read_setBody_self hlive

/-- Only the node is written, and its new children are the ones that it is given. -/
theorem Mutates.changes {W : Node -> Node -> Prop}
    (hread : h.read n = some old) (hW : W old node)
    (hslots : forall x, x ∈ slots node -> x ∈ slots old ∨ x ∈ added) : Changes h h' n added W where
  next_le := Nat.le_of_eq h1.next.symm
  kept := fun x b hx hb => by
    by_cases hxn : x = n
    · subst hxn
      rw [h1.read_self] at hb
      cases hb
      exact ⟨old, hread, .inr ⟨rfl, hW⟩⟩
    · exact ⟨b, h1.read_of_ne hxn hb, .inl rfl⟩
  old := fun x y hx hedge => by
    by_cases hxn : x = n
    · subst hxn
      rcases hslots y ((edge_iff h1.read_self).mp hedge) with hold | hnew
      · exact .inl ((edge_iff hread).mpr hold)
      · exact .inr ⟨rfl, .inl hnew⟩
    · rcases exists_read (live_of_mem_held hedge) with ⟨b, hb⟩
      rw [edge_iff hb] at hedge
      exact .inl ((edge_iff (h1.read_of_ne hxn hb)).mpr hedge)
  new := fun x y hx hedge => by
    rw [← h1.next] at hx
    exact absurd (refcountOf_unallocated hx) (live_of_mem_held hedge)

end

/-!
## The map helpers
-/

theorem children_of_get {c : Content} (hm : M.get c = some m) : c.children = m.values := by
  rw [M.make_of_get c m hm, M.children_make]

theorem edge_of_find [DecidableEq K] {key : K} {v : Nat}
    (hread : h.read n = some node) (hm : M.get node.content = some m)
    (hfind : m.find key = some v) : h.Edge n v := by
  rw [edge_iff hread]
  change v ∈ node.content.children
  rw [children_of_get hm]
  exact mem_values_of_find hfind

def Cleared {K : Type} (M : MapKind K) (old new : Node) : Prop :=
  exists m, M.get old.content = some m ∧ new = ⟨old.version + 1, M.make .empty⟩

theorem mutates_dropFromMap {m' : Dict K Nat} (h1 : Counted ext h) (hn : n ∈ ext)
    (hread : h.read n = some node)
    (hm : M.get node.content = some m) (hperm : (released ++ m'.values).Perm m.values) :
    exists h', releaseThenWrite (h.setBody n { node with version := node.version + 1 }) n
        released ⟨node.version + 1, M.make m'⟩ = some h' ∧ Counted ext h' ∧
      forall W : Node -> Node -> Prop, W node ⟨node.version + 1, M.make m'⟩ ->
        Changes h h' n [] W := by
  have hslots : slots (⟨node.version + 1, node.content⟩ : Node) = slots node := rfl
  have hwritten : slots (⟨node.version + 1, M.make m'⟩ : Node) = m'.values :=
    M.children_make m'
  have hread' : slots node = m.values := children_of_get hm
  have hcount : forall x, (released ++ ext).count x +
      (slots (⟨node.version + 1, M.make m'⟩ : Node)).count x =
      ext.count x + (slots node).count x := by
    intro x
    rw [hwritten, hread', count_append, ← hperm.count_eq x, count_append]
    omega
  rcases mutates_releaseThenWrite h1 hread hslots hcount hn with ⟨h', hrel, hcounted, hmut⟩
  refine ⟨h', hrel, hcounted, fun W hW => hmut.changes hread hW ?_⟩
  intro x hx
  rw [hwritten] at hx
  rw [hread']
  exact .inl (hperm.subset (mem_append_right released hx))

theorem counted_mapClear (h1 : Counted ext h) (hn : n ∈ ext) :
    exists h', mapClear M h n = some h' ∧ Counted ext h' ∧ Changes h h' n [] (Cleared M) := by
  rcases h1.live hn with ⟨node, hread⟩
  unfold mapClear
  simp only [hread, some_bind]
  cases hm : M.get node.content with
  | none => exact ⟨h, rfl, h1, (Quiet.refl h).changes n [] _⟩
  | some m =>
    have hperm : (m.values ++ (empty : Dict K Nat).values).Perm m.values := by
      rw [values_empty, append_nil]
    rcases mutates_dropFromMap h1 hn hread hm hperm with ⟨h', hrel, hcounted, hchanges⟩
    refine ⟨h', ?_, hcounted, hchanges _ ⟨m, hm, rfl⟩⟩
    simp only [write_of_live (live_of_read hread)]
    exact hrel

section

variable [DecidableEq K] {key : K}

def Inserted (M : MapKind K) (key : K) (old new : Node) : Prop :=
  exists m val, M.get old.content = some m ∧
    new = ⟨old.version + 1, M.make (m.insert key val)⟩

def Erased (M : MapKind K) (key : K) (old new : Node) : Prop :=
  exists m, M.get old.content = some m ∧ new = ⟨old.version + 1, M.make (m.erase key)⟩

theorem values_insert_count (m : Dict K Nat) (key : K) (val x : Nat) :
    (m.find key).toList.count x + (m.insert key val).values.count x =
      [val].count x + m.values.count x := by
  cases hfind : m.find key with
  | none =>
    rw [values_insert_of_none hfind, count_append]
    simp only [toList_none, count_nil]
    omega
  | some old =>
    have hperm := (values_insert_of_some hfind val).count_eq x
    simp only [toList_some, count_cons, count_nil] at hperm ⊢
    omega

theorem mem_values_insert {x : Nat} (hx : x ∈ (m.insert key val).values) :
    x ∈ m.values ∨ x ∈ [val] := by
  have hpos := count_pos_iff.mpr hx
  have hcount := values_insert_count m key val x
  by_cases hval : x ∈ [val]
  · exact .inr hval
  · rw [count_eq_zero.mpr hval] at hcount
    exact .inl (count_pos_iff.mp (by omega))

theorem mapInsert_eq (hread : h.read n = some node) (hm : M.get node.content = some m) :
    mapInsert M h n key val =
      releaseThenWrite (h.setBody n { node with version := node.version + 1 }) n
        (m.find key).toList ⟨node.version + 1, M.make (m.insert key val)⟩ := by
  unfold mapInsert
  simp only [hread, some_bind, hm, write_of_live (live_of_read hread)]

theorem mutates_mapInsert (key : K) (h1 : Counted (val :: ext) h)
    (hread : h.read n = some node) (hm : M.get node.content = some m) (hn : n ∈ ext) :
    exists h', mapInsert M h n key val = some h' ∧ Counted ext h' ∧
      Mutates h n (m.find key).toList ⟨node.version + 1, M.make (m.insert key val)⟩ h' := by
  rw [mapInsert_eq hread hm]
  have hslots : slots (⟨node.version + 1, node.content⟩ : Node) = slots node := rfl
  apply mutates_releaseThenWrite h1 hread hslots ?_ hn
  intro x
  have hcount := values_insert_count m key val x
  change _ + (M.make (m.insert key val)).children.count x =
    _ + node.content.children.count x
  rw [M.children_make, children_of_get hm, count_append]
  simp only [count_cons, count_nil] at hcount ⊢
  omega

theorem mapInsert_other (hread : h.read n = some node) (hm : M.get node.content = none) :
    mapInsert M h n key val = h.release val := by
  unfold mapInsert
  simp only [hread, some_bind, hm]

theorem counted_refused (h1 : Counted (val :: ext) h) :
    exists h', h.release val = some h' ∧ Counted ext h' ∧ Quiet h h' := by
  rcases h1.release with ⟨h', hrel, hcounted, hshrinks⟩
  exact ⟨h', hrel, hcounted, hshrinks.quiet⟩

theorem counted_mapInsert (key : K) (h1 : Counted (val :: ext) h) (hn : n ∈ ext) :
    exists h', mapInsert M h n key val = some h' ∧ Counted ext h' ∧
      Changes h h' n [val] (Inserted M key) := by
  rcases h1.live (mem_cons_of_mem val hn) with ⟨node, hread⟩
  cases hm : M.get node.content with
  | none =>
    rw [mapInsert_other hread hm]
    rcases counted_refused h1 with ⟨h', hrel, hcounted, hquiet⟩
    exact ⟨h', hrel, hcounted, hquiet.changes n [val] _⟩
  | some m =>
    rcases mutates_mapInsert key h1 hread hm hn with ⟨h', hins, hcounted, hmut⟩
    refine ⟨h', hins, hcounted, hmut.changes hread ⟨m, val, hm, rfl⟩ ?_⟩
    intro x hx
    rw [slots_node, M.children_make] at hx
    change x ∈ node.content.children ∨ x ∈ [val]
    rw [children_of_get hm]
    exact mem_values_insert hx

theorem counted_mapErase (key : K) (h1 : Counted ext h) (hn : n ∈ ext) :
    exists b h', mapErase M h n key = some (b, h') ∧ Counted ext h' ∧
      Changes h h' n [] (Erased M key) := by
  rcases h1.live hn with ⟨node, hread⟩
  unfold mapErase
  simp only [hread, bind_eq_bind, bind_some]
  cases hm : M.get node.content with
  | none => exact ⟨false, h, rfl, h1, (Quiet.refl h).changes n [] _⟩
  | some m =>
    cases hfind : m.find key with
    | none =>
      simp only [hfind]
      exact ⟨false, h, rfl, h1, (Quiet.refl h).changes n [] _⟩
    | some old =>
      have hperm : ([old] ++ (m.erase key).values).Perm m.values := values_erase hfind
      rcases mutates_dropFromMap h1 hn hread hm hperm with ⟨h', hrel, hcounted, hchanges⟩
      refine ⟨true, h', ?_, hcounted, hchanges _ ⟨m, hm, rfl⟩⟩
      simp only [hfind, write_of_live (live_of_read hread), bind_some, hrel]
      rfl

end

/-!
## The array helpers
-/

/-- The elements of an array are replaced by others. -/
def Rearranged (old new : Node) : Prop :=
  exists arr arr', old.content = .array arr ∧ new = { old with content := .array arr' }

variable {old : Nat}

theorem children_array (harr : node.content = .array arr) : slots node = arr := by
  change node.content.children = arr
  rw [harr]
  rfl

theorem mutates_array (h1 : Counted ext h) (hread : h.read n = some node)
    (harr : node.content = .array arr)
    (hcount : forall x, (released ++ ext').count x + arr'.count x = ext.count x + arr.count x)
    (hn : n ∈ ext') :
    exists h', releaseThenWrite h n released { node with content := .array arr' } = some h' ∧
      Counted ext' h' ∧ Mutates h n released { node with content := .array arr' } h' := by
  have hslots := children_array harr
  have hcount' : forall x, (released ++ ext').count x +
      (slots ({ node with content := .array arr' } : Node)).count x =
      ext.count x + (slots node).count x := by
    intro x
    rw [hslots]
    exact hcount x
  rcases mutates_releaseThenWrite h1 hread rfl hcount' hn with ⟨h', hrel, hrest⟩
  rw [setBody_self hread] at hrel
  exact ⟨h', hrel, hrest⟩

theorem Mutates.changes_array
    (h1 : Mutates h n released { node with content := .array arr' } h')
    (hread : h.read n = some node) (harr : node.content = .array arr)
    (hsub : forall x, x ∈ arr' -> x ∈ arr ∨ x ∈ added) : Changes h h' n added Rearranged := by
  apply h1.changes hread ⟨arr, arr', harr, rfl⟩
  intro x hx
  rw [children_array harr]
  exact hsub x hx

theorem count_eraseIdx (hget : arr[index]? = some old) (x : Nat) :
    [old].count x + (arr.eraseIdx index).count x = arr.count x := by
  rcases List.getElem?_eq_some_iff.mp hget with ⟨hlt, rfl⟩
  have hperm := getElem_cons_eraseIdx_perm hlt
  rw [← hperm.count_eq x, count_cons, count_cons, count_nil]
  omega

theorem count_set (hget : arr[index]? = some old) (val x : Nat) :
    [old].count x + (arr.set index val).count x = [val].count x + arr.count x := by
  rcases List.getElem?_eq_some_iff.mp hget with ⟨hlt, rfl⟩
  rw [← count_eraseIdx hget x]
  have hset : (arr.set index val)[index]? = some val := by
    rw [List.getElem?_set_self hlt]
  have hnew := count_eraseIdx hset x
  rw [eraseIdx_set_eq] at hnew
  omega

theorem counted_arrRemove (index : Nat) (h1 : Counted ext h) (hn : n ∈ ext) :
    exists b h', arrRemove h n index = some (b, h') ∧ Counted ext h' ∧
      Changes h h' n [] Rearranged := by
  rcases h1.live hn with ⟨node, hread⟩
  have hsame := (Quiet.refl h).changes n [] Rearranged
  unfold arrRemove
  simp only [hread, some_bind]
  cases harr : node.content with
  | array arr =>
    cases hget : arr[index]? with
    | none =>
      simp only [hget]
      exact ⟨false, h, rfl, h1, hsame⟩
    | some old =>
      have hcount : forall x, ([old] ++ ext).count x + (arr.eraseIdx index).count x =
          ext.count x + arr.count x := by
        intro x
        rw [count_append, ← count_eraseIdx hget x]
        omega
      rcases mutates_array h1 hread harr hcount hn with ⟨h', hrel, hcounted, hmut⟩
      refine ⟨true, h', ?_, hcounted, hmut.changes_array hread harr ?_⟩
      · simp only [hget, hrel]
        rfl
      · exact fun x hx => .inl (mem_of_mem_eraseIdx hx)
  | _ => exact ⟨false, h, rfl, h1, hsame⟩

theorem counted_arrSet (index : Nat) (h1 : Counted (val :: ext) h) (hn : n ∈ ext) :
    exists h', arrSet h n index val = some h' ∧ Counted ext h' ∧
      Changes h h' n [val] Rearranged := by
  rcases h1.live (mem_cons_of_mem val hn) with ⟨node, hread⟩
  have hrefused : exists h', h.release val = some h' ∧ Counted ext h' ∧
      Changes h h' n [val] Rearranged := by
    rcases counted_refused h1 with ⟨h', hrel, hcounted, hquiet⟩
    exact ⟨h', hrel, hcounted, hquiet.changes n [val] _⟩
  unfold arrSet
  simp only [hread, some_bind]
  cases harr : node.content with
  | array arr =>
    cases hget : arr[index]? with
    | none =>
      simp only [hget]
      exact hrefused
    | some old =>
      have hcount : forall x, ([old] ++ ext).count x + (arr.set index val).count x =
          (val :: ext).count x + arr.count x := by
        intro x
        have hset := count_set hget val x
        simp only [count_append, count_cons, count_nil] at hset ⊢
        omega
      rcases mutates_array h1 hread harr hcount hn with ⟨h', hrel, hcounted, hmut⟩
      refine ⟨h', ?_, hcounted, hmut.changes_array hread harr ?_⟩
      · simp only [hget]
        exact hrel
      · intro x hx
        rcases mem_or_eq_of_mem_set hx with hold | rfl
        · exact .inl hold
        · exact .inr mem_cons_self
  | _ => exact hrefused

theorem counted_arrClear (h1 : Counted ext h) (hn : n ∈ ext) :
    exists h', arrClear h n = some h' ∧ Counted ext h' ∧ Changes h h' n [] Rearranged := by
  rcases h1.live hn with ⟨node, hread⟩
  unfold arrClear
  simp only [hread, some_bind]
  cases harr : node.content with
  | array arr =>
    have hcount : forall x, (arr ++ ext).count x + ([] : List Nat).count x =
        ext.count x + arr.count x := by
      intro x
      rw [count_append, count_nil]
      omega
    rcases mutates_array h1 hread harr hcount hn with ⟨h', hrel, hcounted, hmut⟩
    refine ⟨h', hrel, hcounted, hmut.changes_array hread harr ?_⟩
    exact fun x hx => absurd hx not_mem_nil
  | _ => exact ⟨h, rfl, h1, (Quiet.refl h).changes n [] _⟩

theorem arrPush_eq (hread : h.read n = some node) (harr : node.content = .array arr) :
    arrPush h n val = releaseThenWrite h n [] { node with content := .array (arr ++ [val]) } := by
  unfold arrPush
  simp only [hread, some_bind, harr]
  rfl

variable (h1 : Counted (val :: ext) h) (hread : h.read n = some node)
  (harr : node.content = .array arr) (hn : n ∈ ext)
include h1 hread harr hn

theorem mutates_arrPush :
    exists h', arrPush h n val = some h' ∧ Counted ext h' ∧
      Mutates h n [] { node with content := .array (arr ++ [val]) } h' := by
  rw [arrPush_eq hread harr]
  apply mutates_array h1 hread harr ?_ hn
  intro x
  simp only [nil_append, count_append, count_cons, count_nil]
  omega

theorem counted_arrPush :
    exists h', arrPush h n val = some h' ∧ Counted ext h' ∧ Changes h h' n [val] Rearranged := by
  rcases mutates_arrPush h1 hread harr hn with ⟨h', hpush, hcounted, hmut⟩
  refine ⟨h', hpush, hcounted, hmut.changes_array hread harr ?_⟩
  intro x hx
  exact mem_append.mp hx

end Async2.Ownership
