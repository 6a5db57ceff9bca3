import Async2.Ownership.Tree

/-!
# Deep copies

`DeepCopy` makes a node and fills it with copies of the children.  It returns exactly if
the node denotes a tree, that is, if no cycle can be reached from it; the copy is a tree
of new nodes.  Nothing is assumed about the counts of the nodes that are copied, since
`Merge` copies while a slot still holds a reference that was given back.
-/

namespace Async2.Ownership

open RefCount RefCount.Heap AssocList List

/-!
## The function
-/

section

variable (copyChild : Nat -> NodeHeap -> Option (Nat × NodeHeap)) (n : Nat)

def copyElems : List Nat -> NodeHeap -> Option NodeHeap
  | [], h => some h
  | elem :: rest, h => do
    let (copy, h) ← copyChild elem h
    let h ← arrPush h n copy
    copyElems rest h

def copyEntries {K : Type} [DecidableEq K] (M : MapKind K) :
    List (K × Nat) -> NodeHeap -> Option NodeHeap
  | [], h => some h
  | (key, val) :: rest, h => do
    let (copy, h) ← copyChild val h
    let h ← mapInsert M h n key copy
    copyEntries M rest h

end

def makeFilled (c : Content) (fill : Nat -> NodeHeap -> Option NodeHeap) (h : NodeHeap) :
    Option (Nat × NodeHeap) := do
  let (n, h) := makeNode c h
  let h ← fill n h
  return (n, h)

/-- Copy the node at an address.  A string is copied up to its first zero byte. -/
def deepCopy : Nat -> Nat -> NodeHeap -> Option (Nat × NodeHeap)
  | 0, _, _ => none
  | fuel + 1, a, h => do
    let node ← h.read a
    match node.content with
    | .null => return makeNode .null h
    | .bool b => return makeNode (.bool b) h
    | .int v => return makeNode (.int v) h
    | .float bits => return makeNode (.float bits) h
    | .string s => return makeNode (.string (cStr s)) h
    | .array arr => makeFilled (.array []) (fun n => copyElems (deepCopy fuel) n arr) h
    | .object obj =>
      makeFilled (.object .empty)
        (fun n => copyEntries (deepCopy fuel) n objects obj.entries) h
    | .intMap intmap =>
      makeFilled (.intMap .empty)
        (fun n => copyEntries (deepCopy fuel) n intMaps intmap.entries) h
    | .binary b => return makeNode (.binary b) h

/-- Copy a node; no tree on the heap is deeper than the heap is large. -/
def copyNode (a : Nat) (h : NodeHeap) : Option (Nat × NodeHeap) := deepCopy h.next a h

/-!
## The tree of a copy
-/

mutual

/-- The tree that a copy denotes: its strings end at their first zero byte. -/
def copied : DataNode -> DataNode
  | .string s => .string (cStr s)
  | .array es => .array (copiedElems es)
  | .object es => .object (copiedEntries es)
  | .intMap es => .intMap (copiedIntEntries es)
  | t => t

def copiedElems : List DataNode -> List DataNode
  | [] => []
  | e :: rest => copied e :: copiedElems rest

def copiedEntries : List (Bytes × DataNode) -> List (Bytes × DataNode)
  | [] => []
  | (k, e) :: rest => (k, copied e) :: copiedEntries rest

def copiedIntEntries : List (Int64 × DataNode) -> List (Int64 × DataNode)
  | [] => []
  | (k, e) :: rest => (k, copied e) :: copiedIntEntries rest

end

theorem copiedElems_eq (es : List DataNode) : copiedElems es = es.map copied := by
  induction es with
  | nil => rfl
  | cons e rest ih => rw [copiedElems, ih, map_cons]

def copiedValues {K : Type} (es : List (K × DataNode)) : List (K × DataNode) :=
  es.map fun e => (e.1, copied e.2)

theorem copiedEntries_eq (es : List (Bytes × DataNode)) : copiedEntries es = copiedValues es := by
  induction es with
  | nil => rfl
  | cons e rest ih =>
    rcases e with ⟨k, e⟩
    rw [copiedEntries, ih]
    rfl

theorem copiedIntEntries_eq (es : List (Int64 × DataNode)) :
    copiedIntEntries es = copiedValues es := by
  induction es with
  | nil => rfl
  | cons e rest ih =>
    rcases e with ⟨k, e⟩
    rw [copiedIntEntries, ih]
    rfl

/-!
## What is built
-/

/-- A tree of new nodes was built, and the reference to its root was handed out. -/
structure Copied (h0 : NodeHeap) (k : Nat) (h : NodeHeap) (a : Nat) (t : DataNode) :
    Prop where
  builds : Builds h0 h
  fresh : h0.next <= a
  inUse : h.refcountOf a ≠ 0
  trades : Trades h0 h [a] []
  inBounds : InBounds h
  settled : Settled h0 -> Settled h
  denotes : Denotes h k a t

section

variable {h0 h h' : NodeHeap} {k n a : Nat} {c : Content} {t s : DataNode} {node : Node}

theorem settled_alloc (hsettled : Settled h) (node : Node) : Settled (h.alloc node) := by
  intro x cell hcell
  by_cases hx : x = h.next
  · subst hx
    rw [cell_alloc_self] at hcell
    cases hcell
    exact Nat.one_ne_zero
  · rw [cell_alloc_of_ne hx] at hcell
    exact hsettled x cell hcell

theorem inBounds_alloc (hin : InBounds h) (hslots : slots node = []) : InBounds (h.alloc node) := by
  intro b x hx
  by_cases hb : b = h.next
  · subst hb
    rw [held_of_cell cell_alloc_self, hslots] at hx
    cases hx
  · rw [held_congr (cell_alloc_of_ne hb)] at hx
    exact Nat.lt_succ_of_lt (hin b x hx)

theorem copied_makeNode (hin : InBounds h) (hchildren : c.children = [])
    (hshows : forall R, Shows R c t) : Copied h (k + 1) (makeNode c h).2 (makeNode c h).1 t where
  builds := (Builds.refl h).alloc hchildren
  fresh := Nat.le_refl _
  inUse := by
    change (h.alloc ⟨0, c⟩).refcountOf h.next ≠ 0
    rw [refcountOf_of_cell cell_alloc_self]
    exact Nat.one_ne_zero
  trades := by
    have htrades := trades_alloc h (⟨0, c⟩ : Node)
    rw [slots_node, hchildren] at htrades
    exact htrades
  inBounds := inBounds_alloc hin hchildren
  settled := fun hsettled => settled_alloc hsettled _
  denotes := ⟨⟨0, c⟩, read_eq_some.mpr ⟨0, cell_alloc_self⟩, hshows _⟩

theorem Copied.lt_next (h1 : Copied h0 k h a t) : a < h.next :=
  lt_next_of_refcountOf h1.inUse

theorem Copied.read_after (h1 : Copied h0 k h n t) (h2 : Builds h h')
    (hread : h.read n = some node) : h'.read n = some node := by
  rw [read_congr (h2.old n h1.lt_next)]
  exact hread

theorem Copied.store {old : Node} {u : DataNode} (h1 : Copied h0 (k + 1) h n t)
    (h2 : Copied h k h' a s) (hread : h.read n = some old)
    (hperm : (slots node).Perm (slots old ++ [a])) (hshows : Shows (Denotes h' k) node.content u) :
    Copied h0 (k + 1) (h'.setBody n node) n u := by
  have hread' := h1.read_after h2.builds hread
  have hlive := live_of_read hread'
  have hbuilds := h1.builds.trans h2.builds
  have hlater : forall x, x ∈ slots node -> n < x := by
    intro x hx
    rcases mem_append.mp (hperm.subset hx) with hx | hx
    · exact h1.builds.later n x h1.fresh ((edge_iff hread).mpr hx)
    · cases mem_singleton.mp hx
      exact Nat.lt_of_lt_of_le h1.lt_next h2.fresh
  have hbuilds' : Builds h0 (h'.setBody n node) := hbuilds.setBody h1.fresh hlater
  constructor
  · exact hbuilds'
  · exact h1.fresh
  · rw [refcountOf_setBody]
    exact hlive
  · refine ((h1.trades.trans h2.trades).trans (trades_setBody hread')).congr ?_
    intro x
    rw [count_append, count_append, count_append, count_append, hperm.count_eq x, count_append]
    simp only [count_nil]
    omega
  · intro b x hx
    by_cases hb : b = n
    · subst hb
      rw [held_of_read (read_setBody_self hlive)] at hx
      rcases mem_append.mp (hperm.subset hx) with hx | hx
      · exact h2.inBounds b x ((edge_iff hread').mpr hx)
      · cases mem_singleton.mp hx
        exact h2.lt_next
    · rw [held_congr (cell_setBody_of_ne hb)] at hx
      exact h2.inBounds b x hx
  · exact fun hsettled => (h2.settled (h1.settled hsettled)).setBody
  · refine ⟨node, read_setBody_self hlive, hshows.imp fun x w hx hd => ?_⟩
    refine hd.transfer (P := fun y => n < y) ?_ (hlater x hx)
    intro y b hy hb
    constructor
    · rw [read_congr (cell_setBody_of_ne (Nat.ne_of_gt hy))]
      exact hb
    · intro z hz
      rw [← held_of_read hb] at hz
      exact hy.trans (hbuilds.later y z (h1.fresh.trans (Nat.le_of_lt hy)) hz)

theorem Copied.shows_after (h1 : Copied h0 (k + 1) h n t) (h2 : Builds h h')
    (hread : h.read n = some node) (hshows : Shows (Denotes h k) node.content t) :
    Shows (Denotes h' k) node.content t := by
  refine hshows.imp fun x w hx hd => hd.builds h2 h1.inBounds ?_
  exact h1.inBounds n x ((edge_iff hread).mpr hx)

theorem Copied.push {es : List DataNode} (h1 : Copied h0 (k + 1) h n (.array es))
    (h2 : Copied h k h' a s) :
    exists h'', arrPush h' n a = some h'' ∧ Copied h0 (k + 1) h'' n (.array (es ++ [s])) := by
  rcases h1.denotes with ⟨⟨v, c⟩, hread, hshows⟩
  have hread' := h1.read_after h2.builds hread
  have hshows' := h1.shows_after h2.builds hread hshows
  cases hshows' with
  | @array arr _ hes =>
    refine ⟨h'.setBody n ⟨v, .array (arr ++ [a])⟩, ?_, ?_⟩
    · unfold arrPush
      rw [hread']
      exact write_of_live (live_of_read hread')
    · refine h1.store h2 hread (List.Perm.refl _) ?_
      exact .array (rel_append hes (.cons h2.denotes .nil))

theorem Copied.insert {K : Type} [DecidableEq K] {M : MapKind K}
    {tree : List (K × DataNode) -> DataNode} (hM : M.Trees tree) {es : List (K × DataNode)}
    {key : K} (hkey : key ∉ keys es) (h1 : Copied h0 (k + 1) h n (tree es))
    (h2 : Copied h k h' a s) :
    exists h'', mapInsert M h' n key a = some h'' ∧
      Copied h0 (k + 1) h'' n (tree (es ++ [(key, s)])) := by
  rcases h1.denotes with ⟨node, hread, hshows⟩
  have hread' := h1.read_after h2.builds hread
  rcases hM.get (h1.shows_after h2.builds hread hshows) with ⟨m, hm, hes⟩
  have hfind : m.find key = none := by
    rw [Dict.find_eq_none_iff, hes.keys_eq]
    exact hkey
  have hlive := live_of_read hread'
  have hwrite : mapInsert M h' n key a =
      some (h'.setBody n ⟨node.version + 1, M.make (m.insert key a)⟩) := by
    rw [mapInsert_eq hread' hm, hfind]
    exact rewrite_of_live hlive
  refine ⟨_, hwrite, h1.store h2 hread ?_ ?_⟩
  · rw [slots_node, M.children_make, Dict.values_insert_of_none hfind]
    change (m.values ++ [a]).Perm (node.content.children ++ [a])
    rw [children_of_get hm]
  · refine hM.shows ?_
    have hupsert := hes.upsert key h2.denotes
    rw [upsert_of_not_mem hkey] at hupsert
    exact hupsert

end

/-!
## The copy of every tree
-/

/-- The results of copying a node: a copy of the tree that it denotes, or none if it
denotes no tree. -/
inductive Copies (h : NodeHeap) (k a : Nat) : Option (Nat × NodeHeap) -> Prop
  | tree {t : DataNode} {c : Nat} {h' : NodeHeap} (hdenotes : Denotes h k a t)
      (hcopied : Copied h k h' c (copied t)) : Copies h k a (some (c, h'))
  | never (hno : forall t, ¬ Denotes h k a t) : Copies h k a none

section

variable {copyChild : Nat -> NodeHeap -> Option (Nat × NodeHeap)} {k : Nat}
variable (hchild : forall a h, InBounds h -> Copies h k a (copyChild a h))

include hchild

variable {h0 h : NodeHeap} {K : Type} {M : MapKind K} {tree : List (K × DataNode) -> DataNode}

theorem copies_elems {n : Nat} {es : List DataNode} (rest : List Nat) (hin : InBounds h0)
    (hold : forall x, x ∈ rest -> x < h0.next) (h1 : Copied h0 (k + 1) h n (.array es)) :
    (exists ts h', List.Forall₂ (Denotes h0 k) rest ts ∧
        copyElems copyChild n rest h = some h' ∧
        Copied h0 (k + 1) h' n (.array (es ++ ts.map copied))) ∨
      (forall ts, ¬ List.Forall₂ (Denotes h0 k) rest ts) ∧ copyElems copyChild n rest h = none := by
  induction rest generalizing h es with
  | nil =>
    refine .inl ⟨[], h, .nil, rfl, ?_⟩
    rw [map_nil, append_nil]
    exact h1
  | cons e rest ih =>
    have he := hold e mem_cons_self
    have hcopies := hchild e h h1.inBounds
    rw [copyElems]
    generalize copyChild e h = res at hcopies
    cases hcopies with
    | @tree t c h' hdenotes hcopied =>
      rcases h1.push hcopied with ⟨h'', hpush, hnext⟩
      have heq : (arrPush h' n c).bind (copyElems copyChild n rest) =
          copyElems copyChild n rest h'' := by rw [hpush]; rfl
      rcases ih (fun x hx => hold x (mem_cons_of_mem e hx)) hnext
        with ⟨ts, h3, hts, hcopy, hfinal⟩ | ⟨hno, hnone⟩
      · refine .inl ⟨t :: ts, h3, ?_, heq.trans hcopy, ?_⟩
        · exact .cons (hdenotes.of_builds h1.builds hin he) hts
        · rw [append_assoc] at hfinal
          exact hfinal
      · refine .inr ⟨?_, heq.trans hnone⟩
        intro ts hts
        cases hts with
        | cons _ hrest => exact hno _ hrest
    | never hno =>
      refine .inr ⟨?_, rfl⟩
      intro ts hts
      cases hts with
      | cons hd _ => exact hno _ (hd.builds h1.builds hin he)

theorem copies_entries [DecidableEq K] (hM : M.Trees tree) {n : Nat} {es : List (K × DataNode)}
    (rest : List (K × Nat)) (hin : InBounds h0)
    (hold : forall x, x ∈ rest.map Prod.snd -> x < h0.next) (hkeys : (keys es ++ keys rest).Nodup)
    (h1 : Copied h0 (k + 1) h n (tree es)) :
    (exists ts h', Related (Denotes h0 k) rest ts ∧
        copyEntries copyChild n M rest h = some h' ∧
        Copied h0 (k + 1) h' n (tree (es ++ copiedValues ts))) ∨
      (forall ts, ¬ Related (Denotes h0 k) rest ts) ∧ copyEntries copyChild n M rest h = none := by
  induction rest generalizing h es with
  | nil =>
    refine .inl ⟨[], h, .nil, rfl, ?_⟩
    change Copied h0 (k + 1) h n (tree (es ++ []))
    rw [append_nil]
    exact h1
  | cons e rest ih =>
    rcases e with ⟨key, val⟩
    have hval : val < h0.next := hold val mem_cons_self
    have hfresh : key ∉ keys es := by
      intro hmem
      exact (nodup_append.mp hkeys).right.right key hmem key mem_cons_self rfl
    have hcopies := hchild val h h1.inBounds
    rw [copyEntries]
    generalize copyChild val h = res at hcopies
    cases hcopies with
    | @tree t c h' hdenotes hcopied =>
      rcases Copied.insert hM hfresh h1 hcopied with ⟨h'', hins, hnext⟩
      have heq : (mapInsert M h' n key c).bind (copyEntries copyChild n M rest) =
          copyEntries copyChild n M rest h'' := by rw [hins]; rfl
      have hkeys' : (keys (es ++ [(key, copied t)]) ++ keys rest).Nodup := by
        rw [AssocList.keys_append, append_assoc]
        exact hkeys
      rcases ih (fun x hx => hold x (mem_cons_of_mem val hx)) hkeys' hnext
        with ⟨ts, h3, hts, hcopy, hfinal⟩ | ⟨hno, hnone⟩
      · refine .inl ⟨(key, t) :: ts, h3, ?_, heq.trans hcopy, ?_⟩
        · exact .cons ⟨rfl, hdenotes.of_builds h1.builds hin hval⟩ hts
        · rw [append_assoc] at hfinal
          exact hfinal
      · refine .inr ⟨?_, heq.trans hnone⟩
        intro ts hts
        cases hts with
        | cons _ hrest => exact hno _ hrest
    | never hno =>
      refine .inr ⟨?_, rfl⟩
      intro ts hts
      cases hts with
      | cons hd _ => exact hno _ (hd.right.builds h1.builds hin hval)

theorem copies_map [DecidableEq K] (hM : M.Trees tree)
    (htree : forall {R m t}, Shows R (M.make m) t -> exists es, t = tree es)
    (hcopied : forall es, copied (tree es) = tree (copiedValues es)) {a : Nat} {node : Node}
    {m : Dict K Nat} (hin : InBounds h) (hread : h.read a = some node)
    (hm : M.get node.content = some m) :
    Copies h (k + 1) a
      (makeFilled (M.make .empty) (fun n => copyEntries copyChild n M m.entries) h) := by
  have hmade : Copied h (k + 1) (h.alloc ⟨0, M.make .empty⟩) h.next (tree []) := by
    refine copied_makeNode hin ?_ fun R => hM.shows .nil
    rw [M.children_make]
    rfl
  have hkeys : (keys ([] : List (K × DataNode)) ++ keys m.entries).Nodup := m.distinct
  have hchildren : forall x, x ∈ m.entries.map Prod.snd -> x < h.next := by
    intro x hx
    apply hin a x
    rw [held_of_read hread]
    change x ∈ node.content.children
    rw [children_of_get hm]
    exact hx
  have hcontent := M.make_of_get _ _ hm
  change Copies h (k + 1) a
    ((copyEntries copyChild h.next M m.entries (h.alloc ⟨0, M.make .empty⟩)).bind _)
  rcases copies_entries hchild hM m.entries hin hchildren hkeys hmade
    with ⟨ts, h', hts, hcopy, hfinal⟩ | ⟨hno, hnone⟩
  · have hdenotes : Denotes h (k + 1) a (tree ts) := by
      refine ⟨node, hread, ?_⟩
      rw [hcontent]
      exact hM.shows hts
    rw [hcopy]
    rw [nil_append, ← hcopied] at hfinal
    exact .tree hdenotes hfinal
  · rw [hnone]
    refine .never ?_
    rintro t ⟨node', hread', hshows⟩
    rw [hread] at hread'
    cases hread'
    rw [hcontent] at hshows
    rcases htree hshows with ⟨es, rfl⟩
    rcases hM.get hshows with ⟨m', hm', hes⟩
    rw [M.get_make] at hm'
    cases hm'
    exact hno es hes

end

theorem copies_scalar {h : NodeHeap} {k a : Nat} {node : Node} {c : Content} {t : DataNode}
    (hin : InBounds h) (hread : h.read a = some node)
    (hold : forall R, Shows R node.content t) (hchildren : c.children = [])
    (hnew : forall R, Shows R c (copied t)) : Copies h (k + 1) a (some (makeNode c h)) :=
  .tree ⟨node, hread, hold _⟩ (copied_makeNode hin hchildren hnew)

/-- Copying returns a copy of the tree that the node denotes, and does not return if the
node denotes none. -/
theorem copies_deepCopy (fuel a : Nat) (h : NodeHeap) (hin : InBounds h) :
    Copies h fuel a (deepCopy fuel a h) := by
  induction fuel generalizing a h with
  | zero => exact .never fun t ht => ht
  | succ fuel ih =>
    rw [deepCopy]
    cases hread : h.read a with
    | none =>
      refine .never ?_
      rintro t ⟨node, hnode, _⟩
      rw [hread] at hnode
      cases hnode
    | some node =>
      rcases node with ⟨v, c⟩
      cases c with
      | null => exact copies_scalar hin hread (fun R => .null) rfl fun R => .null
      | bool b => exact copies_scalar hin hread (fun R => .bool b) rfl fun R => .bool b
      | int i => exact copies_scalar hin hread (fun R => .int i) rfl fun R => .int i
      | float bits =>
        exact copies_scalar hin hread (fun R => .float bits) rfl fun R => .float bits
      | string s =>
        exact copies_scalar hin hread (fun R => .string s) rfl fun R => .string (cStr s)
      | binary b => exact copies_scalar hin hread (fun R => .binary b) rfl fun R => .binary b
      | object obj =>
        refine copies_map ih objects_trees ?_ ?_ hin hread rfl
        · intro R m t hshows
          cases hshows
          exact ⟨_, rfl⟩
        · intro es
          rw [copied, copiedEntries_eq]
      | intMap intmap =>
        refine copies_map ih intMaps_trees ?_ ?_ hin hread rfl
        · intro R m t hshows
          cases hshows
          exact ⟨_, rfl⟩
        · intro es
          rw [copied, copiedIntEntries_eq]
      | array arr =>
        have hmade : Copied h (fuel + 1) (makeNode (.array []) h).2 h.next (.array []) :=
          copied_makeNode hin rfl fun R => .array .nil
        have hchildren : forall x, x ∈ arr -> x < h.next := by
          intro x hx
          exact hin a x ((edge_iff hread).mpr hx)
        change Copies h (fuel + 1) a
          ((copyElems (deepCopy fuel) h.next arr (makeNode (.array []) h).2).bind _)
        rcases copies_elems ih arr hin hchildren hmade
          with ⟨ts, h', hts, hcopy, hfinal⟩ | ⟨hno, hnone⟩
        · rw [hcopy]
          rw [nil_append, ← copiedElems_eq] at hfinal
          exact .tree (t := .array ts) ⟨_, hread, .array hts⟩ hfinal
        · rw [hnone]
          refine .never ?_
          rintro t ⟨node', hread', hshows⟩
          rw [hread] at hread'
          cases hread'
          cases hshows with
          | array hes => exact hno _ hes

end Async2.Ownership
