import Async2.Ownership.Alike

/-!
# The loop of a merge

`Merge` copies the values of the source one after the other into the target.  A value that
leads to the target is copied together with what the target holds by then, and while the
slot that is overwritten still has its old value.  All copies have the trees that the values
had before exactly if this does not show.
-/

namespace Async2.Ownership

open RefCount.Heap AssocList DataNode Relation List Option

variable {K : Type} [DecidableEq K]

/-- The entries of the source that are copied, in the order of the loop. -/
def taken (m : Dict K Nat) (overwrite : Bool) (es : List (K × Nat)) : List (K × Nat) :=
  es.filter fun e => (m.find e.1).isNone || overwrite

/-- A slot that is not one of the target under some of its keys. -/
def EdgeBut (h : NodeHeap) (n : Nat) (m : Dict K Nat) (ks : List K) (x y : Nat) : Prop :=
  h.Edge x y ∧ (x = n -> exists key, key ∉ ks ∧ m.find key = some y)

/-- The node is in use without the slots of the target under these keys. -/
def InUseWithout (ext : List Nat) (h : NodeHeap) (n : Nat) (m : Dict K Nat) (ks : List K)
    (x : Nat) : Prop :=
  exists r, r ∈ ext ∧ ReflTransGen (EdgeBut h n m ks) r x

/-- Two nodes have the same tree up to the order of map entries. -/
def SameTree (h : NodeHeap) (x y : Nat) : Prop :=
  exists t t' : DataNode, Denotes h h.next x t ∧ Denotes h h.next y t' ∧ t.Reorders t'

/-- If the value of an entry leads to the target, then the entries before it replace equal
values, and what it replaces itself stays in use. -/
def Undisturbed (ext : List Nat) (h : NodeHeap) (n : Nat) (m : Dict K Nat)
    (before : List (K × Nat)) (e : K × Nat) : Prop :=
  h.Reach e.2 n ->
    (forall e', e' ∈ before -> exists old, m.find e'.1 = some old ∧ SameTree h old e'.2) ∧
      forall old, m.find e.1 = some old ->
        InUseWithout ext h n m (e.1 :: keys before) old

/-- Two different maps that are held from outside, on a heap without cycles, with values
whose strings have no zero bytes. -/
structure Mergeable (M : MapKind K) (ext : List Nat) (h : NodeHeap) (n other : Nat)
    (node : Node) (m source : Dict K Nat) : Prop where
  counted : Counted ext h
  acyclic : Acyclic h
  target : n ∈ ext
  held : other ∈ ext
  different : n ≠ other
  read : h.read n = some node
  get : M.get node.content = some m
  getSource : exists node', h.read other = some node' ∧ M.get node'.content = some source
  zeroFree : Below Content.ZeroFree h other

/-!
## During the merge
-/

/-- The heap during a merge: only the target was written. -/
structure Merging (M : MapKind K) (ext : List Nat) (h0 : NodeHeap) (n : Nat) (node : Node)
    (h : NodeHeap) (now : Dict K Nat) : Prop where
  counted : Counted ext h
  changes : Changes h0 h n [] fun _ _ => True
  read : h.read n = some { node with content := M.make now }

/-- Some of the entries were copied, and the copies are right. -/
structure Progress (M : MapKind K) (ext : List Nat) (h0 : NodeHeap) (n : Nat) (node : Node)
    (m : Dict K Nat) (finished : List (K × Nat)) (h : NodeHeap) (now : Dict K Nat) : Prop
    extends Merging M ext h0 n node h now where
  rest : forall key, key ∉ keys finished -> now.find key = m.find key
  copies : forall e, e ∈ finished -> exists c t t', now.find e.1 = some c ∧ h0.next <= c ∧
    (exists k, Denotes h k c t) ∧ Denotes h0 h0.next e.2 t' ∧ t.Reorders t'

variable {M : MapKind K} {ext : List Nat} {h0 h g h' : NodeHeap} {n other : Nat} {node : Node}
variable {m source now : Dict K Nat} {finished : List (K × Nat)} {e : K × Nat}

variable {overwrite : Bool} {t t' u : DataNode} {x y k c levels k0 : Nat} {key : K}
  {tree : List (K × DataNode) -> DataNode} {last : Dict K Nat} {es : List (K × Nat)}

section

variable (hs : Mergeable M ext h0 n other node m source)
include hs

omit [DecidableEq K] in
theorem Mergeable.lt_next : n < h0.next :=
  lt_next_of_refcountOf (live_of_read hs.read)

theorem Mergeable.progress : Progress M ext h0 n node m [] h0 m where
  counted := hs.counted
  changes := (Quiet.refl h0).changes n [] _
  read := by
    rw [hs.read, ← M.make_of_get _ _ hs.get]
  rest := fun _ _ => rfl
  copies := fun _ he => absurd he not_mem_nil

theorem Mergeable.edge_target (hfind : m.find key = some y) : h0.Edge n y :=
  edge_of_find hs.read hs.get hfind

theorem Mergeable.edge (he : e ∈ source.entries) : h0.Edge other e.2 := by
  rcases hs.getSource with ⟨node', hread, hget⟩
  exact edge_of_find hread hget (find_of_mem source.distinct he)

theorem Mergeable.value (he : e ∈ source.entries) :
    exists t, Denotes h0 h0.next e.2 t ∧ copied t = t := by
  have hedge := hs.edge he
  rcases exists_denotes hs.counted.exact (hs.counted.exact.live_of_held hedge)
    (hs.acyclic.acyclicFrom e.2) with ⟨t, ht⟩
  refine ⟨t, ht, copied_eq ht ?_⟩
  exact fun x b hreach hread => hs.zeroFree x b (.head hedge hreach) hread

end

/-- What is known when the value of a key is given back, before its slot is written. -/
structure Released (M : MapKind K) (ext : List Nat) (h : NodeHeap) (n : Nat) (node : Node)
    (now : Dict K Nat) (key : K) (g : NodeHeap) : Prop where
  released : h.releaseAll (now.find key).toList = some g
  shrinks : Shrinks h g
  read : g.read n = some { node with content := M.make now }
  counted : Counted ext (g.setBody n { node with content := M.make (now.erase key) })

section

variable (hr : Released M ext h n node now key g)
include hr

theorem Released.live_child (hx : x ≠ n) (hedge : g.Edge x y) : g.refcountOf y ≠ 0 := by
  rw [← refcountOf_setBody]
  refine hr.counted.exact.live_of_held (a := x) ?_
  rw [held_congr (cell_setBody_of_ne hx)]
  exact hedge

theorem Released.edge_slot_iff :
    (g.setBody n { node with content := M.make (now.erase key) }).Edge n y <->
      exists key', key ≠ key' ∧ now.find key' = some y := by
  rw [edge_iff (read_setBody_self (live_of_read hr.read)), slots_node, M.children_make]
  constructor
  · intro hy
    rcases exists_find hy with ⟨key', hkey⟩
    rw [Dict.find_erase] at hkey
    split at hkey
    · cases hkey
    case isFalse hne => exact ⟨key', hne, hkey⟩
  · rintro ⟨key', hne, hfind⟩
    refine Dict.mem_values_of_find (k := key') ?_
    rw [Dict.find_erase, if_neg hne]
    exact hfind

theorem Released.live_slot {key' : K} (hne : key ≠ key') (hfind : now.find key' = some y) :
    g.refcountOf y ≠ 0 := by
  rw [← refcountOf_setBody]
  exact hr.counted.exact.live_of_held (hr.edge_slot_iff.mpr ⟨key', hne, hfind⟩)

/-- Erasing the slot takes edges away only. -/
theorem Released.edge
    (hy : (g.setBody n { node with content := M.make (now.erase key) }).Edge x y) :
    g.Edge x y := by
  by_cases hx : x = n
  · subst hx
    rcases hr.edge_slot_iff.mp hy with ⟨key', _, hfind⟩
    exact edge_of_find hr.read (M.get_make now) hfind
  · unfold Edge at hy
    rw [held_congr (cell_setBody_of_ne hx)] at hy
    exact hy

end

theorem denotes_new (hd : Denotes h k c t) (hc : h0.next <= c) (hlive : g.refcountOf c ≠ 0)
    (hread : forall x b, h0.next <= x -> h.read x = some b -> g.refcountOf x ≠ 0 ->
      g.read x = some b)
    (hnew : forall x y, h0.next <= x -> h.Edge x y -> x < y)
    (hchild : forall x y, h0.next <= x -> g.Edge x y -> g.refcountOf y ≠ 0) : Denotes g k c t := by
  refine hd.transfer (P := fun x => h0.next <= x ∧ g.refcountOf x ≠ 0) ?_ ⟨hc, hlive⟩
  rintro x b ⟨hx, hused⟩ hb
  have hb' := hread x b hx hb hused
  refine ⟨hb', fun y hy => ⟨?_, hchild x y hx ((edge_iff hb').mpr hy)⟩⟩
  exact hx.trans (Nat.le_of_lt (hnew x y hx ((edge_iff hb).mpr hy)))

section

variable (hp : Progress M ext h0 n node m finished h now)
  (hs : Mergeable M ext h0 n other node m source) (hr : Released M ext h n node now e.1 g)
include hp

theorem Progress.read_old {b : Node} (hx : x ≠ n) (hlt : x < h0.next) (hread : h.read x = some b) :
    h0.read x = some b := by
  rcases hp.changes.kept x b hlt hread with ⟨b', hb', rfl | ⟨rfl, _⟩⟩
  · exact hb'
  · exact absurd rfl hx

/-- The keys that were copied have new nodes. -/
theorem Progress.not_copied (hlt : y < h0.next) (hkey : now.find key = some y) :
    key ∉ keys finished := by
  intro hmem
  rcases mem_map.mp hmem with ⟨e', he', rfl⟩
  rcases hp.copies e' he' with ⟨c, _, _, hc, hfresh, _⟩
  rw [hkey] at hc
  cases hc
  exact absurd hlt (Nat.not_lt.mpr hfresh)

include hr

/-- What does not depend on the slots that change is in use. -/
theorem Progress.live_of_inUse (hx : InUseWithout ext h0 n m (e.1 :: keys finished) x) :
    g.refcountOf x ≠ 0 := by
  rcases hx with ⟨r, hrmem, hpath⟩
  have hreach : (g.setBody n { node with content := M.make (now.erase e.1) }).Reach r x := by
    induction hpath with
    | refl => exact .refl
    | @tail x y _ hedge ih =>
      refine ih.tail ?_
      by_cases hxn : x = n
      · rcases hedge.right hxn with ⟨key, hkey, hfind⟩
        rcases not_or.mp (mt mem_cons.mpr hkey) with ⟨hne, hnot⟩
        subst hxn
        rw [← hp.rest key hnot] at hfind
        exact hr.edge_slot_iff.mpr ⟨key, Ne.symm hne, hfind⟩
      · have hlive := hr.counted.exact.live_of_reach (hr.counted.exact.live_of_mem hrmem) ih
        rw [refcountOf_setBody] at hlive
        have hlt := lt_next_of_refcountOf (live_of_mem_held hedge.left)
        rcases exists_read hlive with ⟨b, hb⟩
        have hb0 := hp.read_old hxn hlt (hr.shrinks.read_eq hb)
        unfold Edge
        rw [held_congr (cell_setBody_of_ne hxn)]
        exact (edge_iff hb).mpr ((edge_iff hb0).mp hedge.left)
  rw [← refcountOf_setBody]
  exact hr.counted.exact.live_of_reach (hr.counted.exact.live_of_mem hrmem) hreach

/-- If a value that leads to the target was copied right, then so was the target. -/
theorem Progress.down (hreach : h0.Reach x n) (hd : Denotes g k x t') (hd0 : Denotes h0 k0 x t)
    (hreorders : (Ownership.copied t').Reorders t) :
    exists k k0 u' u, Denotes g k n u' ∧ Denotes h0 k0 n u ∧ (Ownership.copied u').Reorders u := by
  induction hreach using ReflTransGen.head_induction_on generalizing k k0 t' t with
  | refl => exact ⟨k, k0, t', t, hd, hd0, hreorders⟩
  | @head x y hedge _ ih =>
    by_cases hxn : x = n
    · subst hxn
      exact ⟨k, k0, t', t, hd, hd0, hreorders⟩
    · cases k with
      | zero => exact hd.elim
      | succ k =>
        cases k0 with
        | zero => exact hd0.elim
        | succ k0 =>
          rcases hd with ⟨b, hread, hshows⟩
          rcases hd0 with ⟨b0, hread0, hshows0⟩
          have hlt := lt_next_of_refcountOf (live_of_read hread0)
          have hsame := hp.read_old hxn hlt (hr.shrinks.read_eq hread)
          rw [hread0] at hsame
          cases hsame
          rcases hshows.reorders_child hshows0 hreorders ((edge_iff hread0).mp hedge)
            with ⟨s', s, hs', hs, hreorders'⟩
          exact ih hs' hs hreorders'

include hs

theorem Progress.copy_released (hd : Denotes h k c t) (hc : h0.next <= c)
    (hlive : g.refcountOf c ≠ 0) : Denotes g k c t := by
  refine denotes_new hd hc hlive (fun x b _ => hr.shrinks.read_of_live) hp.changes.new ?_
  intro x y hx hedge
  refine hr.live_child ?_ hedge
  rintro rfl
  exact absurd hs.lt_next (Nat.not_lt.mpr hx)

/-- The other way round, on a heap without cycles. -/
theorem Progress.inUse_of_live (hlt : x < h0.next) (hlive : g.refcountOf x ≠ 0) :
    InUseWithout ext h0 n m (e.1 :: keys finished) x := by
  have hacyclic : Acyclic h :=
    hp.changes.acyclic hs.acyclic fun _ hy => absurd hy not_mem_nil
  have hreached : exists r, r ∈ ext ∧
      (g.setBody n { node with content := M.make (now.erase e.1) }).Reach r x := by
    rw [← refcountOf_setBody] at hlive
    exact hr.counted.exact.reached_of_live
      ((hr.shrinks.acyclic hacyclic).mono fun _ _ => hr.edge) hlive
  rcases hreached with ⟨r, hrmem, hreach⟩
  refine ⟨r, hrmem, ?_⟩
  clear hlive
  -- A new node leads to newer ones only, so that the path is among the old nodes.
  induction hreach with
  | refl => exact .refl
  | @tail a y _ hedge ih =>
    have hold : h.Edge a y := hr.shrinks.edge a y (hr.edge hedge)
    have halt : a < h0.next := by
      by_contra hnot
      have hgt := hp.changes.new a y (Nat.le_of_not_lt hnot) hold
      omega
    refine (ih halt).tail ?_
    by_cases ha : a = n
    · subst ha
      rcases hr.edge_slot_iff.mp hedge with ⟨key, hne, hkey⟩
      have hnot := hp.not_copied hlt hkey
      rw [hp.rest key hnot] at hkey
      refine ⟨hs.edge_target hkey, fun _ => ⟨key, fun hmem => ?_, hkey⟩⟩
      rcases mem_cons.mp hmem with heq | hmem
      · exact hne heq.symm
      · exact hnot hmem
    · refine ⟨?_, fun heq => absurd heq ha⟩
      rcases hp.changes.old a y halt hold with hedge0 | ⟨heq, _⟩
      · exact hedge0
      · exact absurd heq ha

end

/-!
## The value that is copied
-/

theorem keys_perm_of_find {V W : Type} {d : Dict K V} {d' : Dict K W}
    (h : forall key, d.find key = none <-> d'.find key = none) :
    (keys d.entries).Perm (keys d'.entries) := by
  refine (perm_ext_iff_of_nodup d.distinct d'.distinct).mpr fun key => ?_
  have hkey := h key
  rw [Dict.find_eq_none_iff, Dict.find_eq_none_iff] at hkey
  exact not_iff_not.mp hkey

theorem Released.target_tree {es : List (K × DataNode)} (hr : Released M ext h n node now e.1 g)
    (hM : M.Orders tree) (hes : Related (Denotes h0 levels) m.entries es)
    (hkeys : forall key, m.find key ≠ none -> now.find key ≠ none)
    (hslot : forall key y, now.find key = some y ->
      exists x s s', m.find key = some x ∧ (exists k, Denotes h0 k x s) ∧
        Denotes g g.next y s' ∧ s'.Reorders s) :
    exists t', Denotes g g.next n t' ∧ t'.Reorders (tree es) := by
  have hchildren : forall y, y ∈ (M.make now).children -> exists s, Denotes g g.next y s := by
    intro y hy
    rw [M.children_make] at hy
    rcases exists_find hy with ⟨key, hkey⟩
    rcases hslot key y hkey with ⟨_, _, s', _, _, hs', _⟩
    exact ⟨s', hs'⟩
  rcases exists_shows (M.make now) hchildren with ⟨t', ht'⟩
  rcases hM.shape ht' with ⟨es', rfl, hes'⟩
  have hd : Denotes g (g.next + 1) n (tree es') := ⟨_, hr.read, ht'⟩
  refine ⟨_, hd.at_next, hM.ordered ⟨?_, ?_⟩⟩
  · rw [← hes'.keys_eq, ← hes.keys_eq]
    refine keys_perm_of_find fun key => ?_
    constructor
    · intro hnone
      by_contra hsome
      exact hkeys key hsome hnone
    · intro hnone
      by_contra hsome
      rcases ne_none_iff_exists'.mp hsome with ⟨y, hy⟩
      rcases hslot key y hy with ⟨x, _, _, hx, _⟩
      rw [hnone] at hx
      cases hx
  · intro key v v' hv hv'
    rcases related_entry hes' hv with ⟨y, hy, hyv⟩
    rcases related_entry hes hv' with ⟨x, hx, hxv⟩
    rcases hslot key y hy with ⟨x', s, s', hx', ⟨k, hs⟩, hs', hreorders⟩
    rw [hx] at hx'
    cases hx'
    cases hyv.unique hs'
    cases hxv.unique hs
    exact hreorders

section

variable (hp : Progress M ext h0 n node m finished h now)
  (hs : Mergeable M ext h0 n other node m source) (hr : Released M ext h n node now e.1 g)
  (hnot : e.1 ∉ keys finished)
include hp hs hr hnot

/-- A slot of the target during the merge has the tree that it had, if the entries that
were copied replaced equal values. -/
theorem Progress.slot
    (hequal : forall e', e' ∈ finished -> exists old, m.find e'.1 = some old ∧ SameTree h0 old e'.2)
    (hkept : forall y, m.find e.1 = some y -> g.refcountOf y ≠ 0)
    (hold : forall key y, m.find key = some y -> g.refcountOf y ≠ 0 ->
      exists s s', Denotes h0 levels y s ∧ Denotes g g.next y s' ∧ s'.Reorders s)
    (hy : now.find key = some y) :
    exists x s s', m.find key = some x ∧ (exists k, Denotes h0 k x s) ∧
      Denotes g g.next y s' ∧ s'.Reorders s := by
  by_cases hmem : key ∈ keys finished
  · rcases mem_map.mp hmem with ⟨e', he', rfl⟩
    rcases hp.copies e' he' with ⟨c, t, t', hc, hfresh, ⟨k, hd⟩, hd', hreorders⟩
    rw [hy] at hc
    cases hc
    have hne : e.1 ≠ e'.1 := by
      intro heq
      rw [heq] at hnot
      exact hnot hmem
    have hdg := hp.copy_released hs hr hd hfresh (hr.live_slot hne hy)
    rcases hequal e' he' with ⟨old, hfind, u, u', hu, hu', huu'⟩
    cases hd'.unique hu'
    exact ⟨old, u, t, hfind, ⟨_, hu⟩, hdg.at_next, hreorders.trans huu'.symm⟩
  · have hlive : e.1 ≠ key -> g.refcountOf y ≠ 0 := fun hne => hr.live_slot hne hy
    rw [hp.rest key hmem] at hy
    have hused : g.refcountOf y ≠ 0 := by
      by_cases hkey : e.1 = key
      · subst hkey
        exact hkept y hy
      · exact hlive hkey
    rcases hold key y hy hused with ⟨s, s', hsd, hsd', hreorders⟩
    exact ⟨y, s, s', hy, ⟨_, hsd⟩, hsd', hreorders⟩

theorem Progress.denotes_old (hM : M.Orders tree) (hund : Undisturbed ext h0 n m finished e)
    (hreach : h0.Reach e.2 x) (hd : Denotes h0 levels x t) (hlive : g.refcountOf x ≠ 0) :
    exists t', Denotes g g.next x t' ∧ t'.Reorders t := by
  induction levels generalizing x t with
  | zero => exact hd.elim
  | succ levels ih =>
    rcases hd with ⟨b, hread, hshows⟩
    have hlt := lt_next_of_refcountOf (live_of_read hread)
    by_cases hxn : x = n
    · subst hxn
      rw [hs.read] at hread
      cases hread
      rcases hund hreach with ⟨hequal, hinUse⟩
      rw [M.make_of_get _ _ hs.get] at hshows
      rcases hM.shape hshows with ⟨es, rfl, hes⟩
      have hold : forall key y, m.find key = some y -> g.refcountOf y ≠ 0 ->
          exists s s', Denotes h0 levels y s ∧ Denotes g g.next y s' ∧ s'.Reorders s := by
        intro key y hy hused
        rcases related_child hes hy with ⟨s, _, hys⟩
        rcases ih (hreach.tail (hs.edge_target hy)) hys hused with ⟨s', hs', hreorders⟩
        exact ⟨s, s', hys, hs', hreorders⟩
      have hkept := fun y hy => hp.live_of_inUse hr (hinUse y hy)
      refine hr.target_tree hM hes ?_ fun key y hy => hp.slot hs hr hnot hequal hkept hold hy
      intro key hsome
      by_cases hmem : key ∈ keys finished
      · rcases mem_map.mp hmem with ⟨e', he', rfl⟩
        rcases hp.copies e' he' with ⟨c, _, _, hc, _⟩
        rw [hc]
        exact some_ne_none c
      · rw [hp.rest key hmem]
        exact hsome
    · rcases exists_read hlive with ⟨b', hb'⟩
      have hsame := hp.read_old hxn hlt (hr.shrinks.read_eq hb')
      rw [hread] at hsame
      cases hsame
      have hchild : forall y s, y ∈ b.content.children -> Denotes h0 levels y s ->
          exists s', Denotes g g.next y s' ∧ s'.Reorders s := by
        intro y s hy hys
        exact ih (hreach.tail ((edge_iff hread).mpr hy)) hys
          (hr.live_child hxn ((edge_iff hb').mpr hy))
      have hchildren : forall y, y ∈ b.content.children -> exists s, Denotes g g.next y s := by
        intro y hy
        rcases hshows.denoted hy with ⟨s, hys⟩
        rcases hchild y s hy hys with ⟨s', hs', _⟩
        exact ⟨s', hs'⟩
      rcases exists_shows b.content hchildren with ⟨t', ht'⟩
      have hd' : Denotes g (g.next + 1) x t' := ⟨b, hb', ht'⟩
      refine ⟨t', hd'.at_next, ht'.reorders hshows fun y s s' hy hys hys' => ?_⟩
      rcases hchild y s' hy hys' with ⟨s'', hs'', hreorders⟩
      cases hys.unique hs''
      exact hreorders

end

/-!
## What the copies tell
-/

theorem Released.target_entries (hr : Released M ext h n node now e.1 g)
    (hs : Mergeable M ext h0 n other node m source) (hM : M.Orders tree) {u' : DataNode}
    (hd : Denotes g k n u') (hd0 : Denotes h0 k0 n u) (hreorders : (copied u').Reorders u) :
    exists k k0 es' es, Related (Denotes g k) now.entries es' ∧
      Related (Denotes h0 k0) m.entries es ∧ SameEntries (copiedValues es') es := by
  cases k with
  | zero => exact hd.elim
  | succ k =>
    cases k0 with
    | zero => exact hd0.elim
    | succ k0 =>
      rcases hd with ⟨b, hread, hshows⟩
      rw [hr.read] at hread
      cases hread
      rcases hd0 with ⟨b0, hread0, hshows0⟩
      rw [hs.read] at hread0
      cases hread0
      rw [M.make_of_get _ _ hs.get] at hshows0
      rcases hM.shape hshows with ⟨es', rfl, hes'⟩
      rcases hM.shape hshows0 with ⟨es, rfl, hes⟩
      rw [hM.copied] at hreorders
      exact ⟨k, k0, es', es, hes', hes,
        hM.entries (distinct_copiedValues (distinct_of_related hes')) hreorders⟩

theorem Shrinks.denotes (h1 : Shrinks h g) (hd : Denotes g k x t) : Denotes h k x t :=
  hd.transfer (P := fun _ => True) (fun _ _ _ hread => ⟨h1.read_eq hread, fun _ _ => trivial⟩)
    trivial

/-- A value that leads to the target and is copied right was not disturbed. -/
theorem Progress.undisturbed (hp : Progress M ext h0 n node m finished h now)
    (hs : Mergeable M ext h0 n other node m source) (hr : Released M ext h n node now e.1 g)
    (hM : M.Orders tree) (hnot : e.1 ∉ keys finished)
    (hfinished : forall e', e' ∈ finished -> e' ∈ source.entries)
    (hd : Denotes g k e.2 t') (hd0 : Denotes h0 k0 e.2 t) (hreorders : (copied t').Reorders t) :
    Undisturbed ext h0 n m finished e := by
  intro hreach
  rcases hp.down hr hreach hd hd0 hreorders with ⟨k, k0, u', u, hu', hu, huu'⟩
  rcases hr.target_entries hs hM hu' hu huu' with ⟨k, k0, es', es, hes', hes, hkeys, hvalues⟩
  constructor
  · intro e' he'
    rcases hp.copies e' he' with ⟨c, w, w', hc, _, ⟨kc, hw⟩, hw', hww'⟩
    rcases related_child hes' hc with ⟨v, hv, hcv⟩
    -- The tree of the copy is the one that was copied.
    have hcopy : v = w := (Shrinks.denotes hr.shrinks hcv).unique hw
    subst hcopy
    have hmem : (e'.1, copied v) ∈ copiedValues es' := mem_map_of_mem hv
    rcases exists_of_perm hkeys.symm hmem with ⟨v0, hv0⟩
    rcases related_entry hes hv0 with ⟨old, hold, hdold⟩
    have hsame : copied v = v := by
      rcases hs.value (hfinished e' he') with ⟨w0, hw0, hzero⟩
      cases hw0.unique hw'
      exact copied_eq_of_reorders hww'.symm hzero
    have hequal := hvalues e'.1 (copied v) v0 hmem hv0
    rw [hsame] at hequal
    exact ⟨old, hold, v0, w', hdold.at_next, hw', hequal.symm.trans hww'⟩
  · intro old hold
    have hlt : old < h0.next := hs.counted.exact.inBounds n old (hs.edge_target hold)
    have hnow : now.find e.1 = some old := by
      rw [hp.rest e.1 hnot]
      exact hold
    rcases related_child hes' hnow with ⟨v, _, hv⟩
    exact hp.inUse_of_live hs hr hlt hv.live

/-!
## The loop
-/

section

variable (hp : Merging M ext h0 n node h now) (hs : Mergeable M ext h0 n other node m source)
include hp hs

theorem Merging.turn (hmerge : mergeEntry M overwrite n h e = some h') {next : Dict K Nat}
    (hread : h'.read n = some { node with content := M.make next }) :
    Merging M ext h0 n node h' next := by
  rcases counted_mergeEntry hp.counted hmerge with ⟨hcounted, hchanges, _⟩
  refine ⟨hcounted, ?_, hread⟩
  exact hp.changes.trans hchanges hs.lt_next (fun _ _ _ => trivial) (fun _ _ _ => trivial)
    (fun _ _ _ _ _ => trivial)

theorem Merging.copy_stays {W : Node -> Node -> Prop} (hcounted : Counted ext h')
    (hchanges : Changes h h' n [] W)
    (hread : h'.read n = some { node with content := M.make last }) (hc : last.find key = some c)
    (hfresh : h0.next <= c) (hd : Denotes h k c t) : Denotes h' k c t := by
  have hlive : h'.refcountOf c ≠ 0 :=
    hcounted.exact.live_of_held (edge_of_find hread (M.get_make last) hc)
  refine denotes_new hd hfresh hlive ?_ hp.changes.new ?_
  · intro x b hx hb hused
    have hxlt := lt_next_of_refcountOf (live_of_read hb)
    rcases exists_read hused with ⟨b', hb'⟩
    rcases hchanges.kept x b' hxlt hb' with ⟨b0, hb0, rfl | ⟨rfl, _⟩⟩
    · rw [hb] at hb0
      cases hb0
      exact hb'
    · exact absurd hs.lt_next (Nat.not_lt.mpr hx)
  · exact fun x y _ hedge => hcounted.exact.live_of_held hedge

end

section

variable (hp : Progress M ext h0 n node m finished h now)
  (hs : Mergeable M ext h0 n other node m source) (hr : Released M ext h n node now e.1 g)
  (hnot : e.1 ∉ keys finished)
include hp

theorem Progress.released (hs : Mergeable M ext h0 n other node m source) (key : K) :
    exists g, Released M ext h n node now key g := by
  rcases released_entry hp.counted hs.target hp.read (M.get_make now) key
    with ⟨g, hrel, hshrinks, hread, hcounted⟩
  exact ⟨g, hrel, hshrinks, hread, hcounted⟩

theorem Progress.read_source (hs : Mergeable M ext h0 n other node m source) :
    h.read other = h0.read other := by
  rcases hp.counted.live hs.held with ⟨b, hb⟩
  have hlt := lt_next_of_refcountOf (hs.counted.exact.live_of_mem hs.held)
  rw [hb, hp.read_old (Ne.symm hs.different) hlt hb]

include hs in
theorem Progress.live_value (hr : Released M ext h n node now e.1 g) (he : e ∈ source.entries) :
    g.refcountOf e.2 ≠ 0 := by
  refine hr.shrinks.live_of_reach hr.counted hs.held (.single ?_)
  have hedge := hs.edge he
  unfold Edge held at hedge ⊢
  rw [read_congr (cell_setBody_of_ne (Ne.symm hs.different)), hp.read_source hs]
  exact hedge

include hnot

theorem Progress.copied (hs : Mergeable M ext h0 n other node m source)
    (hmerge : mergeEntry M overwrite n h e = some h') {copy : Nat}
    (hfresh : h.next <= copy)
    (hread : h'.read n = some { node with content := M.make (now.insert e.1 copy) })
    (hu : Denotes h' k copy u) (ht : Denotes h0 h0.next e.2 t) (hreorders : u.Reorders t) :
    Progress M ext h0 n node m (finished ++ [e]) h' (now.insert e.1 copy) := by
  rcases counted_mergeEntry hp.counted hmerge with ⟨hcounted, hchanges, _⟩
  have hkeys : keys (finished ++ [e]) = keys finished ++ [e.1] := by
    rw [AssocList.keys_append]
    rfl
  refine ⟨hp.toMerging.turn hs hmerge hread, ?_, ?_⟩
  · intro key hkey
    rw [hkeys] at hkey
    rcases not_or.mp (mt mem_append.mpr hkey) with ⟨hold, hne⟩
    rw [Dict.find_insert, if_neg, hp.rest key hold]
    rintro rfl
    exact hne (mem_singleton_self _)
  · intro e' he'
    rcases mem_append.mp he' with he' | he'
    · rcases hp.copies e' he' with ⟨c, w, w', hc, hcfresh, ⟨kc, hw⟩, hw', hww'⟩
      have hne : e.1 ≠ e'.1 := by
        intro heq
        rw [heq] at hnot
        exact hnot (mem_map_of_mem he')
      have hc' : (now.insert e.1 copy).find e'.1 = some c := by
        rw [Dict.find_insert, if_neg hne]
        exact hc
      refine ⟨c, w, w', hc', hcfresh, ⟨kc, ?_⟩, hw', hww'⟩
      exact hp.toMerging.copy_stays hs hcounted hchanges hread hc' hcfresh hw
    · cases mem_singleton.mp he'
      refine ⟨copy, u, t, ?_, hp.changes.next_le.trans hfresh, ⟨k, hu⟩, ht, hreorders⟩
      rw [Dict.find_insert, if_pos rfl]

theorem Progress.kept {old : Nat} (hold : m.find e.1 = some old) :
    mergeEntry M false n h e = some h := by
  have hnow := (hp.rest e.1 hnot).trans hold
  unfold mergeEntry
  simp only [hp.read, M.get_make, some_bind, hnow]
  rfl

include hr in
theorem Progress.turn
    (hon : m.find e.1 = none ∨ overwrite = true) (hmerge : mergeEntry M overwrite n h e = some h') :
    exists copy k t', h.next <= copy ∧
      h'.read n = some { node with content := M.make (now.insert e.1 copy) } ∧
      Denotes g g.next e.2 t' ∧ Denotes h' k copy (Ownership.copied t') := by
  rcases counted_mergeEntry hp.counted hmerge with ⟨_, _, hturn⟩
  rw [← hp.rest e.1 hnot] at hon
  cases hturn with
  | kept hread hm hfind hoff _ =>
    rw [hp.read] at hread
    cases hread
    rw [M.get_make] at hm
    cases hm
    rcases hon with hnone | htrue
    · rw [hnone] at hfind
      cases hfind
    · rw [htrue] at hoff
      cases hoff
  | stored hread hm _ hreleased hdenotes hfresh hread' hcopy =>
    rw [hp.read] at hread
    cases hread
    rw [M.get_make] at hm
    cases hm
    rw [hr.released] at hreleased
    cases hreleased
    exact ⟨_, _, _, hfresh, hread', hdenotes, hcopy⟩

end

theorem taken_cons (m : Dict K Nat) (overwrite : Bool) (e : K × Nat) (es : List (K × Nat)) :
    taken m overwrite (e :: es) = taken m overwrite [e] ++ taken m overwrite es := by
  unfold taken
  rw [← filter_append]
  rfl

theorem taken_singleton (m : Dict K Nat) (overwrite : Bool) (e : K × Nat) :
    (taken m overwrite [e] = [] ∧ overwrite = false ∧ exists old, m.find e.1 = some old) ∨
      (taken m overwrite [e] = [e] ∧ (m.find e.1 = none ∨ overwrite = true)) := by
  unfold taken
  cases hfind : m.find e.1 with
  | none =>
    refine .inr ⟨?_, .inl rfl⟩
    rw [filter_cons, hfind]
    rfl
  | some old =>
    cases overwrite with
    | true =>
      refine .inr ⟨?_, .inr rfl⟩
      rw [filter_cons, hfind]
      rfl
    | false =>
      refine .inl ⟨?_, rfl, old, rfl⟩
      rw [filter_cons, hfind]
      rfl

theorem taken_subset (he : e ∈ taken m overwrite es) : e ∈ es :=
  mem_of_mem_filter he

omit [DecidableEq K] in
theorem keys_turn (hkeys : (keys finished ++ keys (e :: es)).Nodup) :
    e.1 ∉ keys finished ∧ e.1 ∉ keys es ∧ (keys finished ++ keys es).Nodup ∧
      (keys (finished ++ [e]) ++ keys es).Nodup := by
  rcases nodup_append.mp hkeys with ⟨_, hes, hdisjoint⟩
  refine ⟨fun hmem => hdisjoint e.1 hmem e.1 mem_cons_self rfl, (nodup_cons.mp hes).left,
    hkeys.sublist (List.Sublist.append_left (sublist_cons_self _ _) _), ?_⟩
  rw [AssocList.keys_append, append_assoc]
  exact hkeys

/-- The merge returns if no entry is disturbed. -/
theorem Progress.loop (hM : M.Orders tree) (hs : Mergeable M ext h0 n other node m source)
    (es : List (K × Nat)) (hp : Progress M ext h0 n node m finished h now)
    (hsource : forall e, e ∈ es -> e ∈ source.entries) (hkeys : (keys finished ++ keys es).Nodup)
    (hund : forall before e after, taken m overwrite es = before ++ e :: after ->
      Undisturbed ext h0 n m (finished ++ before) e) :
    exists h' now', es.foldlM (mergeEntry M overwrite n) h = some h' ∧
      Progress M ext h0 n node m (finished ++ taken m overwrite es) h' now' := by
  induction es generalizing finished h now with
  | nil =>
    refine ⟨h, now, rfl, ?_⟩
    change Progress M ext h0 n node m (finished ++ []) h now
    rw [append_nil]
    exact hp
  | cons e es ih =>
    rcases keys_turn hkeys with ⟨hnot, hkey, hkeysRest, hkeys'⟩
    have hrest : forall e', e' ∈ es -> e' ∈ source.entries :=
      fun e' he' => hsource e' (mem_cons_of_mem e he')
    have he := hsource e mem_cons_self
    rw [foldlM_cons, taken_cons]
    rcases taken_singleton m overwrite e with ⟨hskip, hoff, old, hold⟩ | ⟨htaken, hon⟩
    · subst hoff
      rw [hp.kept hnot hold, hskip, nil_append]
      refine ih hp hrest hkeysRest fun before e' after hsplit => hund before e' after ?_
      rw [taken_cons, hskip, hsplit]
      rfl
    · rcases hs.value he with ⟨t, ht, hzero⟩
      rcases hp.released hs e.1 with ⟨g, hr⟩
      have hund0 : Undisturbed ext h0 n m finished e := by
        have hfirst := hund [] e (taken m overwrite es) (by rw [taken_cons, htaken]; rfl)
        rw [append_nil] at hfirst
        exact hfirst
      rcases hp.denotes_old hs hr hnot hM hund0 .refl ht (hp.live_value hs hr he)
        with ⟨t', ht', hreorders⟩
      have honNow : now.find e.1 = none ∨ overwrite = true := by
        rw [hp.rest e.1 hnot]
        exact hon
      rcases stores_mergeEntry hp.counted hp.read (M.get_make now) honNow hr.released hr.read
        ht' (Nat.le_of_eq hr.shrinks.next) with ⟨_, _, _, hmerge⟩
      rcases hp.turn hr hnot hon hmerge with ⟨copy, k, u, hfresh, hread, hu, hcopy⟩
      cases hu.unique ht'
      rw [copied_eq_of_reorders hreorders.symm hzero] at hcopy
      have hp' := hp.copied hnot hs hmerge hfresh hread hcopy ht hreorders
      have hund' : forall before e' after, taken m overwrite es = before ++ e' :: after ->
          Undisturbed ext h0 n m (finished ++ [e] ++ before) e' := by
        intro before e' after hsplit
        rw [append_assoc]
        refine hund ([e] ++ before) e' after ?_
        rw [taken_cons, htaken, hsplit]
        rfl
      rcases ih hp' hrest hkeys' hund' with ⟨h', now', hloop, hfinal⟩
      refine ⟨h', now', ?_, ?_⟩
      · rw [hmerge]
        exact hloop
      · rw [htaken, ← append_assoc]
        exact hfinal

theorem Merging.final (hp : Merging M ext h0 n node h now)
    (hs : Mergeable M ext h0 n other node m source)
    (hloop : es.foldlM (mergeEntry M overwrite n) h = some h')
    (hread : h'.read n = some { node with content := M.make last }) (hkey : key ∉ keys es)
    (hc : now.find key = some c) (hfresh : h0.next <= c) (hd : Denotes h k c t) :
    last.find key = some c ∧ Denotes h' k c t := by
  have hlt : n < h.next := Nat.lt_of_lt_of_le hs.lt_next hp.changes.next_le
  rcases counted_mergeLoop hp.counted hlt hloop with ⟨hcounted, hchanges⟩
  have hlast : last.find key = some c := by
    rcases hchanges.kept n _ hlt hread with ⟨b, hb, hsame | ⟨_, _, m1, m2, hm1, hm2, hkeep⟩⟩
    · rw [hp.read] at hb
      cases hb
      have hget := congrArg (fun b : Node => M.get b.content) hsame
      dsimp only at hget
      rw [M.get_make, M.get_make] at hget
      rw [Option.some.inj hget]
      exact hc
    · rw [hp.read] at hb
      cases hb
      rw [M.get_make] at hm1
      cases hm1
      have hget := congrArg M.get hm2
      rw [M.get_make, M.get_make] at hget
      rw [Option.some.inj hget]
      exact hkeep key c hc (.inr hkey)
  exact ⟨hlast, hp.copy_stays hs hcounted hchanges hread hlast hfresh hd⟩

/-- If all copies are right in the end, then no entry was disturbed. -/
theorem Progress.loop_undisturbed (hM : M.Orders tree)
    (hs : Mergeable M ext h0 n other node m source) (es : List (K × Nat))
    (hp : Progress M ext h0 n node m finished h now)
    (hsource : forall e, e ∈ es -> e ∈ source.entries)
    (hfinished : forall e, e ∈ finished -> e ∈ source.entries)
    (hkeys : (keys finished ++ keys es).Nodup)
    (hloop : es.foldlM (mergeEntry M overwrite n) h = some h')
    (hread : h'.read n = some { node with content := M.make last })
    (hcopies : forall e, e ∈ taken m overwrite es ->
      exists c k t t', last.find e.1 = some c ∧ Denotes h' k c t ∧
        Denotes h0 h0.next e.2 t' ∧ t.Reorders t') :
    forall before e after, taken m overwrite es = before ++ e :: after ->
      Undisturbed ext h0 n m (finished ++ before) e := by
  induction es generalizing finished h now with
  | nil =>
    intro before e after hsplit
    cases before <;> cases hsplit
  | cons e es ih =>
    rcases keys_turn hkeys with ⟨hnot, hkey, hkeysRest, hkeys'⟩
    have hrest : forall e', e' ∈ es -> e' ∈ source.entries :=
      fun e' he' => hsource e' (mem_cons_of_mem e he')
    have hcopies' : forall e', e' ∈ taken m overwrite es -> exists c k t t',
        last.find e'.1 = some c ∧ Denotes h' k c t ∧ Denotes h0 h0.next e'.2 t' ∧
        t.Reorders t' := by
      intro e' he'
      refine hcopies e' ?_
      rw [taken_cons]
      exact mem_append_right _ he'
    rw [foldlM_cons] at hloop
    rcases taken_singleton m overwrite e with ⟨hskip, hoff, old, hold⟩ | ⟨htaken, hon⟩
    · subst hoff
      rw [hp.kept hnot hold] at hloop
      rw [taken_cons, hskip, nil_append]
      exact ih hp hrest hfinished hkeysRest hloop hcopies'
    · rcases bind_eq_some_iff.mp hloop with ⟨h1, hmerge, hloop⟩
      rcases hp.released hs e.1 with ⟨g, hr⟩
      rcases hp.turn hr hnot hon hmerge with ⟨copy, k, u, hfresh, hread1, hu, hcopy⟩
      have hmem : e ∈ taken m overwrite (e :: es) := by
        rw [taken_cons, htaken]
        exact mem_cons_self
      have hfresh0 := hp.changes.next_le.trans hfresh
      -- The copy is still there in the end, where it is right.
      have hinserted : (now.insert e.1 copy).find e.1 = some copy := by
        rw [Dict.find_insert, if_pos rfl]
      rcases (hp.toMerging.turn hs hmerge hread1).final hs hloop hread hkey hinserted hfresh0
        hcopy with ⟨hlast, hcopy'⟩
      rcases hcopies e hmem with ⟨c, kc, t, t', hc, ht, ht', hreorders⟩
      rw [hlast] at hc
      cases hc
      cases ht.unique hcopy'
      have hund := hp.undisturbed hs hr hM hnot hfinished hu ht' hreorders
      have hp' := hp.copied hnot hs hmerge hfresh hread1 hcopy ht' hreorders
      have hfinished' : forall e', e' ∈ finished ++ [e] -> e' ∈ source.entries := by
        intro e' he'
        rcases mem_append.mp he' with he' | he'
        · exact hfinished e' he'
        · cases mem_singleton.mp he'
          exact hsource e mem_cons_self
      have hlater := ih hp' hrest hfinished' hkeys' hloop hcopies'
      intro before e' after hsplit
      rw [taken_cons, htaken] at hsplit
      cases before with
      | nil =>
        cases hsplit
        rw [append_nil]
        exact hund
      | cons e1 before =>
        rcases List.cons.inj hsplit with ⟨rfl, htail⟩
        have hund' := hlater before e' after htail
        rw [append_assoc] at hund'
        exact hund'

end Async2.Ownership
