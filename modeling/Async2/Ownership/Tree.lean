import Async2.Ownership.Mutations

/-!
# The tree below a node

`Denotes` reads a node on the heap as the tree of values that it and its children form.
It is defined up to a number of levels, so that it makes sense on every heap.  `Built`
says that a function has built the nodes of a tree: what it hands out is the root, and
nothing else has changed.
-/

namespace Async2.Ownership

open RefCount RefCount.Heap AssocList List

/-!
## Denotation
-/

/-- The content of a node and the node of a tree agree, where `R` relates the children. -/
inductive Shows (R : Nat -> DataNode -> Prop) : Content -> DataNode -> Prop
  | null : Shows R .null .null
  | bool (b : Bool) : Shows R (.bool b) (.bool b)
  | int (v : Int64) : Shows R (.int v) (.int v)
  | float (bits : UInt64) : Shows R (.float bits) (.float bits)
  | string (s : Bytes) : Shows R (.string s) (.string s)
  | array {arr : List Nat} {es : List DataNode} (h : List.Forall₂ R arr es) :
      Shows R (.array arr) (.array es)
  | object {obj : Dict Bytes Nat} {es : List (Bytes × DataNode)}
      (h : Related R obj.entries es) : Shows R (.object obj) (.object es)
  | intMap {intmap : Dict Int64 Nat} {es : List (Int64 × DataNode)}
      (h : Related R intmap.entries es) : Shows R (.intMap intmap) (.intMap es)
  | binary (b : Bytes) : Shows R (.binary b) (.binary b)

/-- The node denotes the tree, which has at most `k` levels. -/
def Denotes (h : NodeHeap) : Nat -> Nat -> DataNode -> Prop
  | 0, _, _ => False
  | k + 1, a, t => exists node, h.read a = some node ∧ Shows (Denotes h k) node.content t

section

variable {R R' : Nat -> DataNode -> Prop} {c : Content} {t : DataNode}

theorem related_imp {K : Type} {es : List (K × Nat)} {fs : List (K × DataNode)}
    (h : Related R es fs)
    (hR : forall x s, x ∈ es.map Prod.snd -> R x s -> R' x s) : Related R' es fs := by
  induction h with
  | nil => exact .nil
  | @cons e f es fs hef _ ih =>
    refine .cons ⟨hef.left, hR _ _ mem_cons_self hef.right⟩ (ih ?_)
    intro x s hx
    exact hR x s (mem_cons_of_mem _ hx)

theorem forall₂_imp {arr : List Nat} {es : List DataNode} (h : List.Forall₂ R arr es)
    (hR : forall x s, x ∈ arr -> R x s -> R' x s) : List.Forall₂ R' arr es := by
  induction h with
  | nil => exact .nil
  | cons hef _ ih =>
    refine .cons (hR _ _ mem_cons_self hef) (ih ?_)
    intro x s hx
    exact hR x s (mem_cons_of_mem _ hx)

theorem Shows.imp (h : Shows R c t) (hR : forall x s, x ∈ c.children -> R x s -> R' x s) :
    Shows R' c t := by
  cases h with
  | null => exact .null
  | bool b => exact .bool b
  | int v => exact .int v
  | float bits => exact .float bits
  | string s => exact .string s
  | array h => exact .array (forall₂_imp h hR)
  | object h => exact .object (related_imp h hR)
  | intMap h => exact .intMap (related_imp h hR)
  | binary b => exact .binary b

end

section

variable {h h' : NodeHeap} {a k : Nat} {t : DataNode}

/-- A denotation carries over to a heap that has the nodes below unchanged. -/
theorem Denotes.transfer {P : Nat -> Prop}
    (hP : forall x node, P x -> h.read x = some node ->
      h'.read x = some node ∧ forall y, y ∈ slots node -> P y)
    (ha : P a) (hd : Denotes h k a t) : Denotes h' k a t := by
  induction k generalizing a t with
  | zero => exact hd
  | succ k ih =>
    rcases hd with ⟨node, hread, hshows⟩
    rcases hP a node ha hread with ⟨hread', hchildren⟩
    exact ⟨node, hread', hshows.imp fun x s hx => ih (hchildren x hx)⟩

theorem Denotes.builds (hd : Denotes h k a t) (h1 : Builds h h') (hin : InBounds h)
    (ha : a < h.next) : Denotes h' k a t := by
  refine hd.transfer (P := fun x => x < h.next) ?_ ha
  intro x node hx hread
  constructor
  · rw [read_congr (h1.old x hx)]
    exact hread
  · exact fun y hy => hin x y ((edge_iff hread).mpr hy)

theorem Denotes.of_builds (hd : Denotes h' k a t) (h1 : Builds h h') (hin : InBounds h)
    (ha : a < h.next) : Denotes h k a t := by
  refine hd.transfer (P := fun x => x < h.next) ?_ ha
  intro x node hx hread
  rw [read_congr (h1.old x hx)] at hread
  exact ⟨hread, fun y hy => hin x y ((edge_iff hread).mpr hy)⟩

/-- Writing a new node keeps what the nodes above it denote, as far as they are in use. -/
theorem Denotes.mutates {h0 : NodeHeap} {n : Nat} {released ext : List Nat} {node : Node}
    (hd : Denotes h k a t) (h1 : Mutates h n released node h') (hbuilds : Builds h0 h')
    (hn : h0.next <= n) (hexact : Exact ext h') (hna : n < a) (ha : h'.refcountOf a ≠ 0) :
    Denotes h' k a t := by
  refine hd.transfer (P := fun x => n < x ∧ h'.refcountOf x ≠ 0) ?_ ⟨hna, ha⟩
  rintro x b ⟨hnx, hlive⟩ hread
  rcases exists_read hlive with ⟨b', hread'⟩
  have hold := h1.read_of_ne (Nat.ne_of_gt hnx) hread'
  rw [hread] at hold
  cases hold
  refine ⟨hread', fun y hy => ?_⟩
  rw [← held_of_read hread'] at hy
  have hlater := hbuilds.later x y (hn.trans (Nat.le_of_lt hnx)) hy
  exact ⟨hnx.trans hlater, hexact.live_of_held hy⟩

end

/-!
## Scalars
-/

def scalarContent : DataNode -> Content
  | .bool b => .bool b
  | .int v => .int v
  | .float bits => .float bits
  | .string s => .string s
  | .binary b => .binary b
  | _ => .null

def IsScalar : DataNode -> Prop
  | .array _ => False
  | .object _ => False
  | .intMap _ => False
  | _ => True

theorem shows_scalarContent {t : DataNode} (ht : IsScalar t) (R : Nat -> DataNode -> Prop) :
    Shows R (scalarContent t) t := by
  cases t with
  | null => exact .null
  | bool b => exact .bool b
  | int v => exact .int v
  | float bits => exact .float bits
  | string s => exact .string s
  | binary b => exact .binary b
  | _ => exact ht.elim

theorem children_scalarContent (t : DataNode) : (scalarContent t).children = [] := by
  cases t <;> rfl

/-!
## Building a tree
-/

/-- The nodes of a tree were built on top of a heap, for a caller that gets the root. -/
structure Built (h0 : NodeHeap) (ext : List Nat) (k : Nat) (h : NodeHeap) (a : Nat)
    (t : DataNode) : Prop where
  counted : Counted (a :: ext) h
  builds : Builds h0 h
  fresh : h0.next <= a
  denotes : Denotes h k a t

/-- What was built was given up again. -/
structure Undone (h0 : NodeHeap) (ext : List Nat) (h : NodeHeap) : Prop where
  counted : Counted ext h
  builds : Builds h0 h

variable {h0 h h' : NodeHeap} {ext ext' : List Nat} {k a n : Nat} {c : Content}
variable {t s : DataNode} {node : Node}

theorem Built.perm (h1 : Built h0 ext k h a t) (hperm : ext.Perm ext') : Built h0 ext' k h a t :=
  ⟨h1.counted.perm (hperm.cons a), h1.builds, h1.fresh, h1.denotes⟩

theorem Undone.perm (h1 : Undone h0 ext h) (hperm : ext.Perm ext') : Undone h0 ext' h :=
  ⟨h1.counted.perm hperm, h1.builds⟩

theorem Undone.refl (h1 : Counted ext h) : Undone h ext h := ⟨h1, Builds.refl h⟩

theorem Undone.trans (h1 : Undone h0 ext' h) (h2 : Undone h ext h') : Undone h0 ext h' :=
  ⟨h2.counted, h1.builds.trans h2.builds⟩

theorem Undone.built (h1 : Undone h0 ext' h) (h2 : Built h ext k h' a t) : Built h0 ext k h' a t :=
  ⟨h2.counted, h1.builds.trans h2.builds, h1.builds.next_le.trans h2.fresh, h2.denotes⟩

theorem built_makeNode (h1 : Counted ext h) (hchildren : c.children = [])
    (hshows : forall R, Shows R c t) : Built h ext (k + 1) (makeNode c h).2 (makeNode c h).1 t where
  counted := by
    apply Counted.alloc
    rw [slots_node, hchildren]
    exact h1
  builds := (Builds.refl h).alloc hchildren
  fresh := Nat.le_refl _
  denotes := ⟨⟨0, c⟩, read_eq_some.mpr ⟨0, cell_alloc_self⟩, hshows _⟩

theorem Built.undo (h1 : Built h0 ext k h a t) :
    exists h', h.release a = some h' ∧ Undone h0 ext h' := by
  rcases h1.counted.release with ⟨h', hrel, hcounted, _⟩
  exact ⟨h', hrel, hcounted, h1.builds.release h1.fresh hrel⟩

section

variable (h1 : Built h0 ext k h n t)
include h1

theorem Built.undo_after (h2 : Undone h (n :: ext') h') :
    exists h'', h'.release n = some h'' ∧ Undone h0 ext' h'' := by
  rcases h2.counted.release with ⟨h'', hrel, hcounted, _⟩
  exact ⟨h'', hrel, hcounted, (h1.builds.trans h2.builds).release h1.fresh hrel⟩

theorem Built.read_after (h2 : Builds h h') (hread : h.read n = some node) :
    h'.read n = some node := by
  have hlive := h1.counted.exact.live_of_mem mem_cons_self
  rw [read_congr (h2.old n (lt_next_of_refcountOf hlive))]
  exact hread

theorem Built.lt_child {k' : Nat} (h2 : Built h ext' k' h' a s) : n < a :=
  Nat.lt_of_lt_of_le
    (lt_next_of_refcountOf (h1.counted.exact.live_of_mem mem_cons_self)) h2.fresh

theorem Built.after_undone (h2 : Undone h (n :: ext) h') : Built h0 ext k h' n t where
  counted := h2.counted
  builds := h1.builds.trans h2.builds
  fresh := h1.fresh
  denotes := h1.denotes.builds h2.builds h1.counted.exact.inBounds
    (lt_next_of_refcountOf (h1.counted.exact.live_of_mem mem_cons_self))

end

section

variable (h1 : Built h0 ext (k + 1) h n t) (h2 : Builds h h')
include h1 h2

/-- The common part of the insertions of a child: the container is written, and what its
children denote is what they denoted before. -/
theorem Built.mutate {c' : Content} {v : BitVec 24} {released : List Nat} {h'' : NodeHeap}
    (hmut : Mutates h' n released ⟨v, c'⟩ h'') (hcounted : Counted (n :: ext') h'')
    (hread : h'.read n = some node)
    (hreleased : forall x, x ∈ released -> x ∈ node.content.children)
    (hlater : forall x, x ∈ c'.children -> n < x) (hshows : Shows (Denotes h' k) c' s) :
    Built h0 ext' (k + 1) h'' n s := by
  have hbuilds : Builds h0 h'' := by
    apply hmut.builds (h1.builds.trans h2) h1.fresh ?_ hlater
    intro b hb x hx
    rw [hread] at hb
    cases hb
    exact hreleased x hx
  refine ⟨hcounted, hbuilds, h1.fresh, ⟨_, hmut.read_self, ?_⟩⟩
  refine hshows.imp fun x w hx hd => ?_
  exact hd.mutates hmut hbuilds h1.fresh hcounted.exact (hlater x hx)
    (hcounted.exact.live_of_held ((edge_iff hmut.read_self).mpr hx))

/-- What the children of the container denote after a child was built. -/
theorem Built.shows_after (hread : h.read n = some node)
    (hshows : Shows (Denotes h k) node.content t) : Shows (Denotes h' k) node.content t := by
  refine hshows.imp fun x w hx hd => ?_
  have hin := h1.counted.exact.inBounds
  exact hd.builds h2 hin (hin n x ((edge_iff hread).mpr hx))

end

theorem Built.later (h1 : Built h0 ext k h n t) (hread : h.read n = some node) (x : Nat)
    (hx : x ∈ node.content.children) : n < x :=
  h1.builds.later n x h1.fresh ((edge_iff hread).mpr hx)

theorem Built.push {es : List DataNode} (h1 : Built h0 ext (k + 1) h n (.array es))
    (h2 : Built h (n :: ext') k h' a s) :
    exists h'', arrPush h' n a = some h'' ∧ Built h0 ext' (k + 1) h'' n (.array (es ++ [s])) := by
  rcases h1.denotes with ⟨⟨v, c⟩, hread, hshows⟩
  have hread' := h1.read_after h2.builds hread
  have hshows' := h1.shows_after h2.builds hread hshows
  have hold := h1.later hread
  cases hshows' with
  | @array arr _ hes =>
    rcases mutates_arrPush h2.counted hread' rfl mem_cons_self
      with ⟨h'', hpush, hcounted, hmut⟩
    refine ⟨h'', hpush, h1.mutate h2.builds hmut hcounted hread' ?_ ?_ ?_⟩
    · exact fun x hx => absurd hx not_mem_nil
    · intro x hx
      rcases mem_append.mp hx with hx | hx
      · exact hold x hx
      · cases mem_singleton.mp hx
        exact h1.lt_child h2
    · exact .array (rel_append hes (.cons h2.denotes .nil))

/-- The trees that the maps of a kind denote. -/
structure MapKind.Trees {K : Type} (M : MapKind K) (tree : List (K × DataNode) -> DataNode) :
    Prop where
  shows : forall {R m es}, Related R m.entries es -> Shows R (M.make m) (tree es)
  get : forall {R c es}, Shows R c (tree es) ->
    exists m, M.get c = some m ∧ Related R m.entries es

theorem objects_trees : objects.Trees .object where
  shows := .object
  get := fun hshows => by
    cases hshows with
    | object hes => exact ⟨_, rfl, hes⟩

theorem intMaps_trees : intMaps.Trees .intMap where
  shows := .intMap
  get := fun hshows => by
    cases hshows with
    | intMap hes => exact ⟨_, rfl, hes⟩

/-- A child that was built is inserted into a map; an earlier child with its key is
released. -/
theorem Built.insert {K : Type} [DecidableEq K] {M : MapKind K}
    {tree : List (K × DataNode) -> DataNode} (hM : M.Trees tree) {es : List (K × DataNode)}
    (key : K) (h1 : Built h0 ext (k + 1) h n (tree es)) (h2 : Built h (n :: ext') k h' a s) :
    exists h'', mapInsert M h' n key a = some h'' ∧
      Built h0 ext' (k + 1) h'' n (tree (upsert key s es)) := by
  rcases h1.denotes with ⟨node, hread, hshows⟩
  have hread' := h1.read_after h2.builds hread
  have hshows' := h1.shows_after h2.builds hread hshows
  rcases hM.get hshows' with ⟨m, hm, hes⟩
  rcases mutates_mapInsert key h2.counted hread' hm mem_cons_self
    with ⟨h'', hins, hcounted, hmut⟩
  have hchildren := children_of_get hm
  refine ⟨h'', hins, h1.mutate h2.builds hmut hcounted hread' ?_ ?_ ?_⟩
  · intro x hx
    rw [hchildren]
    cases hfind : m.find key with
    | none =>
      rw [hfind] at hx
      cases hx
    | some old =>
      rw [hfind] at hx
      cases mem_singleton.mp hx
      exact Dict.mem_values_of_find hfind
  · intro x hx
    rw [M.children_make] at hx
    rcases mem_values_insert hx with hx | hx
    · exact h1.later hread x (hchildren ▸ hx)
    · cases mem_singleton.mp hx
      exact h1.lt_child h2
  · exact hM.shows (hes.upsert key h2.denotes)

end Async2.Ownership
