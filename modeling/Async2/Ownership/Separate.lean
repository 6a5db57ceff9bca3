import Async2.Ownership.Merge
import Async2.Ownership.Walks

/-!
# Merging from a separate container

A merge copies one child of the source after the other.  Where the target cannot be reached
from the source, nothing below the source changes: what the target gives back is still held
there.  Every child denotes the tree that it denoted before, and the merge returns.
-/

namespace Async2.Ownership

open RefCount RefCount.Heap List Option

section

variable {h0 h g : NodeHeap} {ext : List Nat} {n other v k : Nat} {t : DataNode} {b : Node}

theorem copyNode_returns (hin : InBounds h) (hd : Denotes h k v t) (hk : k <= h.next) :
    exists c h', copyNode v h = some (c, h') ∧ Copied h h.next h' c (copied t) := by
  have hcopies := copies_deepCopy h.next v h hin
  unfold copyNode
  generalize deepCopy h.next v h = res at hcopies
  cases hcopies with
  | @tree t' c h' hdenotes hcopied =>
    cases hdenotes.unique hd
    exact ⟨c, h', rfl, hcopied⟩
  | never hno => exact absurd (hd.mono hk) (hno t)

/-- The nodes below the source are read as before. -/
def Unchanged (h0 h : NodeHeap) (other : Nat) : Prop :=
  forall x, h0.Reach other x -> h.read x = h0.read x

variable (h1 : Unchanged h0 h other)
include h1

theorem Unchanged.denotes (hv : h0.Reach other v) (hd : Denotes h0 k v t) : Denotes h k v t := by
  refine hd.transfer (P := fun x => h0.Reach other x) ?_ hv
  intro x node hx hread
  refine ⟨(h1 x hx).trans hread, fun y hy => hx.tail ((edge_iff hread).mpr hy)⟩

/-- The way to a node below the source does not lead through a node that is not below. -/
theorem Unchanged.reach (hsep : ¬ h0.Reach other n) (node : Node) {x : Nat}
    (hx : h0.Reach other x) : (h.setBody n node).Reach other x := by
  induction hx with
  | refl => exact .refl
  | @tail y z hy hedge ih =>
    refine ih.tail ?_
    have hne : y ≠ n := by
      rintro rfl
      exact hsep hy
    unfold Edge at hedge ⊢
    rw [held_congr (cell_setBody_of_ne hne)]
    unfold held at hedge ⊢
    rw [h1 y hy]
    exact hedge

variable (hshrinks : Shrinks h g) (hcounted : Counted ext (g.setBody n b)) (hother : other ∈ ext)
  (hsep : ¬ h0.Reach other n)
include hshrinks hcounted hother hsep

/-- What the target gives back is still held below the source. -/
theorem Unchanged.released {x : Nat} (hx : h0.Reach other x) :
    g.refcountOf x ≠ 0 ∧ g.read x = h0.read x := by
  have hlive := hshrinks.live_of_reach hcounted hother (h1.reach hsep b hx)
  rcases exists_read hlive with ⟨c, hc⟩
  refine ⟨hlive, ?_⟩
  rw [hc, ← h1 x hx, hshrinks.read_eq hc]

theorem Unchanged.stored {node : Node} {g' : NodeHeap} (hbuilds : Builds g g') :
    Unchanged h0 (g'.setBody n node) other := by
  intro x hx
  have hne : x ≠ n := by
    rintro rfl
    exact hsep hx
  rcases h1.released hshrinks hcounted hother hsep hx with ⟨hlive, hread⟩
  rw [read_congr (cell_setBody_of_ne hne), ← hread]
  exact read_congr (hbuilds.old x (lt_next_of_refcountOf hlive))

end

/-!
## Maps
-/

section

variable {K : Type} [DecidableEq K] {M : MapKind K} {h0 h : NodeHeap} {ext : List Nat}
variable {n other k : Nat} {node : Node} {m : Dict K Nat} {overwrite : Bool} {t : DataNode}
  {entry : K × Nat}

theorem released_entry (h1 : Counted ext h) (hn : n ∈ ext) (hread : h.read n = some node)
    (hm : M.get node.content = some m) (key : K) :
    exists g, h.releaseAll (m.find key).toList = some g ∧ Shrinks h g ∧
      g.read n = some node ∧
      Counted ext (g.setBody n { node with content := M.make (m.erase key) }) := by
  refine h1.overwrite hread ?_ hn
  intro x
  have hcount := (Dict.values_find_erase m key).count_eq x
  have hwritten : slots ({ node with content := M.make (m.erase key) } : Node) =
      (m.erase key).values := M.children_make _
  have hold : slots node = m.values := children_of_get hm
  rw [count_append] at hcount ⊢
  rw [hwritten, hold]
  omega

theorem mergeEntry_stored (hread : h.read n = some node) (hm : M.get node.content = some m)
    (hon : m.find entry.1 = none ∨ overwrite = true) :
    mergeEntry M overwrite n h entry = (do
      let g ← h.releaseAll (m.find entry.1).toList
      let (copy, g) ← copyNode entry.2 g
      g.write n { node with content := M.make (m.insert entry.1 copy) }) := by
  unfold mergeEntry
  simp only [hread, hm, some_bind]
  cases hfind : m.find entry.1 with
  | none => rfl
  | some old =>
    rcases hon with hnone | htrue
    · rw [hfind] at hnone
      cases hnone
    · subst htrue
      change (h.release old).bind _ = (h.releaseAll [old]).bind _
      have hrel : h.releaseAll [old] = h.release old := by
        unfold Heap.releaseAll Heap.release
        rw [decrefAll_cons]
        cases h.decref h.next old <;> rfl
      rw [hrel]

theorem stores_mergeEntry {g : NodeHeap} (h1 : Counted ext h) (hread : h.read n = some node)
    (hm : M.get node.content = some m) (hon : m.find entry.1 = none ∨ overwrite = true)
    (hrel : h.releaseAll (m.find entry.1).toList = some g) (hreadg : g.read n = some node)
    (hd : Denotes g k entry.2 t) (hk : k <= h.next) :
    exists copy g', Copied g g.next g' copy (copied t) ∧
      mergeEntry M overwrite n h entry =
        some (g'.setBody n { node with content := M.make (m.insert entry.1 copy) }) := by
  have hshrinks := shrinks_decrefAll hrel
  rw [← hshrinks.next] at hk
  rcases copyNode_returns (hshrinks.inBounds h1.exact.inBounds) hd hk
    with ⟨copy, g', hcopy, hcopied⟩
  have hlt := lt_next_of_refcountOf (live_of_read hreadg)
  have hlive : g'.refcountOf n ≠ 0 := by
    rw [refcountOf_congr (hcopied.builds.old n hlt)]
    exact live_of_read hreadg
  refine ⟨copy, g', hcopied, ?_⟩
  rw [mergeEntry_stored hread hm hon, hrel]
  simp only [some_bind, hcopy]
  exact write_of_live hlive

/-- A turn of a merge from a separate map. -/
theorem unchanged_mergeEntry (overwrite : Bool) (h1 : Counted ext h) (hn : n ∈ ext)
    (hother : other ∈ ext) (hsep : ¬ h0.Reach other n) (hsame : Unchanged h0 h other)
    (hread : h.read n = some node) (hm : M.get node.content = some m)
    (hentry : h0.Reach other entry.2) (hd : Denotes h0 k entry.2 t) (hk : k <= h.next) :
    exists h', mergeEntry M overwrite n h entry = some h' ∧ Unchanged h0 h' other := by
  by_cases hon : m.find entry.1 = none ∨ overwrite = true
  · rcases released_entry h1 hn hread hm entry.1 with ⟨g, hrel, hshrinks, hreadg, hcounted⟩
    have hsameg : Unchanged h0 g other := fun x hx =>
      (hsame.released hshrinks hcounted hother hsep hx).right
    rcases stores_mergeEntry h1 hread hm hon hrel hreadg (hsameg.denotes hentry hd) hk
      with ⟨copy, g', hcopied, hmerge⟩
    exact ⟨_, hmerge, hsame.stored hshrinks hcounted hother hsep hcopied.builds⟩
  · rcases not_or.mp hon with ⟨hfind, hoff⟩
    refine ⟨h, ?_, hsame⟩
    rcases ne_none_iff_exists'.mp hfind with ⟨old, hold⟩
    unfold mergeEntry
    simp only [hread, hm, some_bind, hold, if_neg hoff]
    rfl

theorem Turn.read_target {h' : NodeHeap} (h1 : Turn M overwrite n h entry h') :
    exists node m, h'.read n = some node ∧ M.get node.content = some m := by
  cases h1 with
  | kept hread hm hfind hoff hsame =>
    subst hsame
    exact ⟨_, _, hread, hm⟩
  | stored hread hm hon hreleased hdenotes hfresh hread' hcopy =>
    exact ⟨_, _, hread', M.get_make _⟩

theorem mergeLoop_returns {entries : List (K × Nat)} (h1 : Counted ext h) (hn : n ∈ ext)
    (hother : other ∈ ext) (hsep : ¬ h0.Reach other n) (hsame : Unchanged h0 h other)
    (htarget : exists node m, h.read n = some node ∧ M.get node.content = some m)
    (hentries : forall v, v ∈ entries.map Prod.snd -> h0.Reach other v ∧ exists t, Denotes h0 k v t)
    (hk : k <= h.next) : exists h', entries.foldlM (mergeEntry M overwrite n) h = some h' := by
  induction entries generalizing h with
  | nil => exact ⟨h, rfl⟩
  | cons entry rest ih =>
    rcases htarget with ⟨node, m, hread, hm⟩
    rcases hentries entry.2 mem_cons_self with ⟨hentry, t, hd⟩
    rcases unchanged_mergeEntry overwrite h1 hn hother hsep hsame hread hm
      hentry hd hk with ⟨h', hmerge, hsame'⟩
    rcases counted_mergeEntry h1 hmerge with ⟨hcounted, hchanges, hturn⟩
    rcases ih hcounted hsame' hturn.read_target
      (fun v hv => hentries v (mem_cons_of_mem _ hv)) (hk.trans hchanges.next_le)
      with ⟨h'', hrest⟩
    refine ⟨h'', ?_⟩
    rw [foldlM_cons, hmerge]
    exact hrest

theorem children_denote (h1 : Counted ext h) (hacyclic : h.AcyclicFrom other) {x : Nat}
    (hx : x ∈ h.held other) : h.Reach other x ∧ exists t, Denotes h h.next x t :=
  ⟨.single hx, exists_denotes h1.exact (h1.exact.live_of_held hx) (hacyclic.edge hx)⟩

theorem mapMerge_returns (M : MapKind K) (overwrite : Bool) (h1 : Counted ext h)
    (hn : n ∈ ext) (hother : other ∈ ext) (hsep : ¬ h.Reach other n)
    (hacyclic : h.AcyclicFrom other) : exists h', mapMerge M h n other overwrite = some h' := by
  rcases h1.live hn with ⟨node, hread⟩
  rcases h1.live hother with ⟨source, hsource⟩
  unfold mapMerge
  simp only [hread, hsource, some_bind]
  split
  case h_1 m entries hm hentries =>
    refine mergeLoop_returns h1 hn hother hsep (fun _ _ => rfl) ⟨node, m, hread, hm⟩ ?_
      (Nat.le_refl _)
    intro v hv
    apply children_denote h1 hacyclic
    rw [held_of_read hsource]
    change v ∈ source.content.children
    rw [children_of_get hentries]
    exact hv
  · exact ⟨h, rfl⟩

end

/-!
## Arrays
-/

variable {h0 h : NodeHeap} {ext : List Nat} {n other k : Nat}

variable (h1 : Counted ext h)
include h1

theorem unchanged_extendElem {elem : Nat} {node : Node} {arr : List Nat} {t : DataNode}
    (hother : other ∈ ext) (hsep : ¬ h0.Reach other n) (hsame : Unchanged h0 h other)
    (hread : h.read n = some node) (harr : node.content = .array arr)
    (helem : h0.Reach other elem) (hd : Denotes h0 k elem t) (hk : k <= h.next) :
    exists copy h', extendElem n h elem = some h' ∧ Unchanged h0 h' other ∧
      h'.read n = some { node with content := .array (arr ++ [copy]) } := by
  rcases copyNode_returns h1.exact.inBounds (hsame.denotes helem hd) hk
    with ⟨copy, g, hcopy, hcopied⟩
  have hlt := lt_next_of_refcountOf (live_of_read hread)
  have hreadg : g.read n = some node := by
    rw [read_congr (hcopied.builds.old n hlt)]
    exact hread
  have hlive := live_of_read hreadg
  have hcounted : Counted ext (h.setBody n node) := by
    rw [setBody_self hread]
    exact h1
  refine ⟨copy, g.setBody n { node with content := .array (arr ++ [copy]) }, ?_, ?_,
    read_setBody_self hlive⟩
  · unfold extendElem arrPush
    simp only [hcopy, hreadg, harr, some_bind]
    exact write_of_live hlive
  · exact hsame.stored (Shrinks.refl h) hcounted hother hsep hcopied.builds

variable (hn : n ∈ ext) (hother : other ∈ ext)
include hn hother

theorem extendLoop_returns {elems : List Nat} (hsep : ¬ h0.Reach other n)
    (hsame : Unchanged h0 h other)
    (htarget : exists node arr, h.read n = some node ∧ node.content = .array arr)
    (helems : forall v, v ∈ elems -> h0.Reach other v ∧ exists t, Denotes h0 k v t)
    (hk : k <= h.next) : exists h', elems.foldlM (extendElem n) h = some h' := by
  induction elems generalizing h with
  | nil => exact ⟨h, rfl⟩
  | cons elem rest ih =>
    rcases htarget with ⟨node, arr, hread, harr⟩
    rcases helems elem mem_cons_self with ⟨helem, t, hd⟩
    rcases unchanged_extendElem h1 hother hsep hsame hread harr helem hd hk
      with ⟨copy, h', hextend, hsame', hread'⟩
    rcases counted_extendElem h1 hn hextend with ⟨hcounted, hchanges⟩
    rcases ih hcounted hsame' ⟨_, _, hread', rfl⟩
      (fun v hv => helems v (mem_cons_of_mem _ hv)) (hk.trans hchanges.next_le)
      with ⟨h'', hrest⟩
    refine ⟨h'', ?_⟩
    rw [foldlM_cons, hextend]
    exact hrest

theorem arrExtend_returns (hsep : ¬ h.Reach other n) (hacyclic : h.AcyclicFrom other) :
    exists h', arrExtend h n other = some h' := by
  rcases h1.live hn with ⟨node, hread⟩
  rcases h1.live hother with ⟨source, hsource⟩
  unfold arrExtend
  simp only [hread, hsource, some_bind]
  split
  case h_1 arr elems harr helems =>
    refine extendLoop_returns h1 hn hother hsep (fun _ _ => rfl) ⟨node, arr, hread, harr⟩ ?_
      (Nat.le_refl _)
    intro v hv
    apply children_denote h1 hacyclic
    rw [held_of_read hsource, children_array helems]
    exact hv
  · exact ⟨h, rfl⟩

end Async2.Ownership
