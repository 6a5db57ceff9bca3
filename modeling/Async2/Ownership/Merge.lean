import Async2.Ownership.Copy

/-!
# Merging containers

`ObjMerge`, `IntMapMerge` and `ArrExtend` add copies of the children of another container.
Where a value is overwritten, `Merge` gives the old one back while it is still in its slot
and copies the new one before it writes the slot.  The counts are exact afterwards, even
if the slots of the target were read in between.
-/

namespace Async2.Ownership

open RefCount RefCount.Heap AssocList List Option

section

variable {K : Type} [DecidableEq K] (M : MapKind K)

/-- One turn of the loop over the entries of the other map.  `find` is evaluated before
anything changes, and its position is written at the end. -/
def mergeEntry (overwrite : Bool) (n : Nat) (h : NodeHeap) (entry : K × Nat) :
    Option NodeHeap := do
  let node ← h.read n
  let m ← M.get node.content
  match m.find entry.1 with
  | some old =>
    if overwrite then do
      let h ← h.release old
      let (copy, h) ← copyNode entry.2 h
      h.write n { node with content := M.make (m.insert entry.1 copy) }
    else return h
  | none => do
    let (copy, h) ← copyNode entry.2 h
    h.write n { node with content := M.make (m.insert entry.1 copy) }

/-- Add copies of the values of another map; values under known keys are replaced if
`overwrite` is set.  The other map is a different node, so that its entries stay. -/
def mapMerge (h : NodeHeap) (n other : Nat) (overwrite : Bool) : Option NodeHeap := do
  let node ← h.read n
  let source ← h.read other
  match M.get node.content, M.get source.content with
  | some _, some entries => entries.entries.foldlM (mergeEntry M overwrite n) h
  | _, _ => return h

end

def objMerge (h : NodeHeap) := mapMerge objects h

def intMapMerge (h : NodeHeap) := mapMerge intMaps h

def extendElem (n : Nat) (h : NodeHeap) (elem : Nat) : Option NodeHeap := do
  let (copy, h) ← copyNode elem h
  arrPush h n copy

/-- Append copies of the elements of another array. -/
def arrExtend (h : NodeHeap) (n other : Nat) : Option NodeHeap := do
  let node ← h.read n
  let source ← h.read other
  match node.content, source.content with
  | .array _, .array arr => arr.foldlM (extendElem n) h
  | _, _ => return h

/-!
## What one turn does
-/

variable {h h' : NodeHeap}

theorem Copied.counted {ext : List Nat} {k a : Nat} {t : DataNode} (h1 : Copied h k h' a t)
    (h2 : Counted ext h) : Counted (a :: ext) h' := by
  refine ⟨h2.exact.trades h1.trades ?_, h1.settled h2.settled⟩
  intro x
  simp only [count_cons, count_nil]
  omega

theorem copied_of_copyNode {a c : Nat} (hin : InBounds h) (hcopy : copyNode a h = some (c, h')) :
    exists t, Denotes h h.next a t ∧ Copied h h.next h' c (copied t) := by
  have hcopies := copies_deepCopy h.next a h hin
  unfold copyNode at hcopy
  rw [hcopy] at hcopies
  cases hcopies with
  | tree hdenotes hcopied => exact ⟨_, hdenotes, hcopied⟩

section

variable {K : Type} [DecidableEq K] {M : MapKind K}
variable {h h' : NodeHeap} {n : Nat} {ext : List Nat} {node : Node} {m : Dict K Nat}

/-- The entries of a map after a merge: those that are not overwritten stay. -/
def Merged (M : MapKind K) (overwrite : Bool) (ks : List K) (old new : Node) : Prop :=
  new.version = old.version ∧ exists m m', M.get old.content = some m ∧
    new.content = M.make m' ∧
    forall key v, m.find key = some v -> overwrite = false ∨ key ∉ ks -> m'.find key = some v

variable {overwrite : Bool} {a b : Node} {ks ks' : List K}

/-- A copy that was made on the heap `g`, which shrank from `h`, is stored in the map.  The
references that left the heap before are those that leave the slots. -/
theorem stored_copy (overwrite : Bool) {g : NodeHeap} {key : K} {released : List Nat}
    {val : Nat} (h1 : Counted ext h) (hread : h.read n = some node)
    (hm : M.get node.content = some m) (hshrinks : Shrinks h g)
    (htrades : Trades h g [] released) (hreleased : released = (m.find key).toList)
    (hkept : released = [] ∨ overwrite = true)
    (hstore : (do
      let (copy, h) ← copyNode val g
      h.write n { node with content := M.make (m.insert key copy) }) = some h') :
    exists copy t, Denotes g g.next val t ∧ h.next <= copy ∧
      h'.read n = some { node with content := M.make (m.insert key copy) } ∧
      (exists k, Denotes h' k copy (copied t)) ∧
      Counted ext h' ∧ Changes h h' n [] (Merged M overwrite [key]) := by
  rcases bind_eq_some_iff.mp hstore with ⟨⟨copy, g'⟩, hcopy, hwrite⟩
  rcases write_eq_some.mp hwrite with ⟨hlive, rfl⟩
  rcases copied_of_copyNode (hshrinks.inBounds h1.exact.inBounds) hcopy
    with ⟨t, hdenotes, hcopied⟩
  have hnlt : n < g.next := by
    rw [hshrinks.next]
    exact lt_next_of_refcountOf (live_of_read hread)
  have hliveg : g.refcountOf n ≠ 0 := by
    rw [← refcountOf_congr (hcopied.builds.old n hnlt)]
    exact hlive
  have hreadg : g.read n = some node := hshrinks.read_of_live hread hliveg
  have hread' : g'.read n = some node := by
    rw [read_congr (hcopied.builds.old n hnlt)]
    exact hreadg
  have hslots : slots ({ node with content := M.make (m.insert key copy) } : Node) =
      (m.insert key copy).values := M.children_make _
  have hold : slots node = m.values := children_of_get hm
  have hfresh : h.next <= copy := by
    rw [← hshrinks.next]
    exact hcopied.fresh
  refine ⟨copy, t, hdenotes, hfresh, read_setBody_self hlive, ?_, ⟨?_, ?_⟩, ?_⟩
  · -- The nodes of the copy are above the one that is written.
    refine ⟨g.next, hcopied.denotes.transfer (P := fun y => g.next <= y) ?_ hcopied.fresh⟩
    intro y b hy hb
    constructor
    · rw [read_congr (cell_setBody_of_ne (Nat.ne_of_gt (Nat.lt_of_lt_of_le hnlt hy)))]
      exact hb
    · intro z hz
      rw [← held_of_read hb] at hz
      exact hcopied.builds.closed y hy z hz
  · refine h1.exact.trades ((htrades.trans hcopied.trades).trans (trades_setBody hread')) ?_
    intro x
    have hcount := values_insert_count m key copy x
    rw [hslots, hold, hreleased]
    simp only [count_append, count_nil] at hcount ⊢
    omega
  · exact (hcopied.settled (hshrinks.settled h1.settled)).setBody
  · have hquiet : Quiet h g' := hshrinks.quiet.trans hcopied.builds.quiet
    have hnlt' : n < h.next := by
      rw [← hshrinks.next]
      exact hnlt
    have hwritten : Changes g' (g'.setBody n
        { node with content := M.make (m.insert key copy) }) n [copy]
        (Merged M overwrite [key]) := by
      refine changes_setBody hread' ⟨rfl, m, _, hm, rfl, ?_⟩ ?_
      · intro key' v hv hkeep
        rw [Dict.find_insert]
        split
        case isTrue heq =>
          subst heq
          rcases hkeep with hoff | hnot
          · rcases hkept with hnil | hon
            · rw [hreleased, hv] at hnil
              cases hnil
            · rw [hoff] at hon
              cases hon
          · exact absurd mem_cons_self hnot
        · exact hv
      · intro y hy
        rw [hslots] at hy
        rw [hold]
        exact mem_values_insert hy
    -- The copy is not among the nodes that were there.
    refine (hquiet.then hwritten hnlt').fresh ?_
    intro y hy
    cases mem_singleton.mp hy
    exact hfresh

/-- What one turn of the loop does to the target. -/
inductive Turn (M : MapKind K) (overwrite : Bool) (n : Nat) (h : NodeHeap) (entry : K × Nat)
    (h' : NodeHeap) : Prop
  | kept {node : Node} {m : Dict K Nat} {old : Nat} (hread : h.read n = some node)
      (hm : M.get node.content = some m) (hfind : m.find entry.1 = some old)
      (hoff : overwrite = false) (hsame : h' = h) : Turn M overwrite n h entry h'
  | stored {g : NodeHeap} {node : Node} {m : Dict K Nat} {copy k : Nat} {t : DataNode}
      (hread : h.read n = some node) (hm : M.get node.content = some m)
      (hon : m.find entry.1 = none ∨ overwrite = true)
      (hreleased : h.releaseAll (m.find entry.1).toList = some g)
      (hdenotes : Denotes g g.next entry.2 t) (hfresh : h.next <= copy)
      (hread' : h'.read n = some { node with content := M.make (m.insert entry.1 copy) })
      (hcopy : Denotes h' k copy (copied t)) : Turn M overwrite n h entry h'

theorem counted_mergeEntry {entry : K × Nat} (h1 : Counted ext h)
    (hmerge : mergeEntry M overwrite n h entry = some h') :
    Counted ext h' ∧ Changes h h' n [] (Merged M overwrite [entry.1]) ∧
      Turn M overwrite n h entry h' := by
  unfold mergeEntry at hmerge
  rcases bind_eq_some_iff.mp hmerge with ⟨node, hread, hmerge⟩
  rcases bind_eq_some_iff.mp hmerge with ⟨m, hm, hmerge⟩
  cases hfind : m.find entry.1 with
  | none =>
    rw [hfind] at hmerge
    have hreleased : ([] : List Nat) = (m.find entry.1).toList := by
      rw [hfind]
      rfl
    rcases stored_copy overwrite h1 hread hm (Shrinks.refl h) (Trades.refl h)
      hreleased (.inl rfl) hmerge
      with ⟨copy, t, hdenotes, hfresh, hread', ⟨k, hcopy⟩, hcounted, hchanges⟩
    refine ⟨hcounted, hchanges, ?_⟩
    refine .stored (g := h) hread hm (.inl hfind) ?_ hdenotes hfresh hread' hcopy
    rw [hfind]
    rfl
  | some old =>
    rw [hfind] at hmerge
    dsimp only at hmerge
    cases overwrite with
    | false =>
      cases hmerge
      exact ⟨h1, (Quiet.refl h).changes n [] _, .kept hread hm hfind rfl rfl⟩
    | true =>
      rcases bind_eq_some_iff.mp hmerge with ⟨g, hrel, hstore⟩
      have hreleased : [old] = (m.find entry.1).toList := by
        rw [hfind]
        rfl
      rcases stored_copy true h1 hread hm (shrinks_decref hrel)
        (trades_decref hrel) hreleased (.inr rfl) hstore
        with ⟨copy, t, hdenotes, hfresh, hread', ⟨k, hcopy⟩, hcounted, hchanges⟩
      refine ⟨hcounted, hchanges, ?_⟩
      refine .stored (g := g) hread hm (.inr rfl) ?_ hdenotes hfresh hread' hcopy
      rw [← hreleased]
      unfold Heap.releaseAll
      rw [decrefAll_cons]
      unfold Heap.release at hrel
      rw [hrel]
      rfl

theorem Merged.append {c : Node} (h1 : Merged M overwrite ks a b)
    (h2 : Merged M overwrite ks' b c) : Merged M overwrite (ks ++ ks') a c := by
  rcases h1 with ⟨hversion, m, m1, hm, hb, hkeeps⟩
  rcases h2 with ⟨hversion', m2, m3, hm2, hc, hkeeps'⟩
  rw [hb, M.get_make] at hm2
  cases hm2
  refine ⟨hversion'.trans hversion, m, m3, hm, hc, ?_⟩
  intro key v hv hkeep
  apply hkeeps' key v
  · apply hkeeps key v hv
    rcases hkeep with hoff | hnot
    · exact .inl hoff
    · exact .inr fun hmem => hnot (mem_append_left _ hmem)
  · rcases hkeep with hoff | hnot
    · exact .inl hoff
    · exact .inr fun hmem => hnot (mem_append_right _ hmem)

theorem Merged.mono (h1 : Merged M overwrite ks a b) (hsub : forall key, key ∈ ks -> key ∈ ks') :
    Merged M overwrite ks' a b := by
  rcases h1 with ⟨hversion, m, m1, hm, hb, hkeeps⟩
  refine ⟨hversion, m, m1, hm, hb, fun key v hv hkeep => hkeeps key v hv ?_⟩
  rcases hkeep with hoff | hnot
  · exact .inl hoff
  · exact .inr fun hmem => hnot (hsub key hmem)

theorem counted_mergeLoop {entries : List (K × Nat)} (h1 : Counted ext h) (hn : n < h.next)
    (hmerge : entries.foldlM (mergeEntry M overwrite n) h = some h') :
    Counted ext h' ∧ Changes h h' n [] (Merged M overwrite (keys entries)) := by
  induction entries generalizing h with
  | nil =>
    cases hmerge
    exact ⟨h1, (Quiet.refl _).changes n [] _⟩
  | cons entry rest ih =>
    rw [foldlM_cons] at hmerge
    rcases bind_eq_some_iff.mp hmerge with ⟨g, hfirst, hrest⟩
    rcases counted_mergeEntry h1 hfirst with ⟨hcounted, hchanges, _⟩
    rcases ih hcounted (Nat.lt_of_lt_of_le hn hchanges.next_le) hrest
      with ⟨hcounted', hchanges'⟩
    refine ⟨hcounted', ?_⟩
    have hboth : Changes h h' n ([] ++ []) (Merged M overwrite (keys (entry :: rest))) := by
      refine hchanges.trans hchanges' hn ?_ ?_ ?_
      · intro b b' hW
        refine hW.mono fun key hkey => ?_
        cases mem_singleton.mp hkey
        exact mem_cons_self
      · intro b b' hW
        exact hW.mono fun key hkey => mem_cons_of_mem _ hkey
      · intro b b' b'' hW hW'
        exact hW.append hW'
    exact hboth

theorem counted_mapMerge {other : Nat} (h1 : Counted ext h)
    (hmerge : mapMerge M h n other overwrite = some h') :
    Counted ext h' ∧ exists ks, Changes h h' n [] (Merged M overwrite ks) ∧
      forall source m, h.read other = some source -> M.get source.content = some m ->
        ks = keys m.entries := by
  unfold mapMerge at hmerge
  rcases bind_eq_some_iff.mp hmerge with ⟨node, hread, hmerge⟩
  rcases bind_eq_some_iff.mp hmerge with ⟨source, hsource, hmerge⟩
  have hn := lt_next_of_refcountOf (live_of_read hread)
  cases hm : M.get source.content with
  | none =>
    have hsame : h' = h := by
      rw [hm] at hmerge
      cases hnode : M.get node.content with
      | none | some _ =>
        rw [hnode] at hmerge
        cases hmerge
        rfl
    subst hsame
    refine ⟨h1, [], (Quiet.refl h').changes n [] _, ?_⟩
    intro source' m hsource' hm'
    rw [hsource] at hsource'
    cases hsource'
    rw [hm] at hm'
    cases hm'
  | some entries =>
    have hkeys : forall source' m, h.read other = some source' ->
        M.get source'.content = some m -> keys entries.entries = keys m.entries := by
      intro source' m hsource' hm'
      rw [hsource] at hsource'
      cases hsource'
      rw [hm] at hm'
      cases hm'
      rfl
    cases hnode : M.get node.content with
    | none =>
      rw [hm, hnode] at hmerge
      cases hmerge
      exact ⟨h1, keys entries.entries, (Quiet.refl h).changes n [] _, hkeys⟩
    | some _ =>
      rw [hm, hnode] at hmerge
      rcases counted_mergeLoop h1 hn hmerge with ⟨hcounted, hchanges⟩
      exact ⟨hcounted, keys entries.entries, hchanges, hkeys⟩

end

/-!
## Extending an array
-/

theorem Rearranged.trans {a b c : Node} (h1 : Rearranged a b) (h2 : Rearranged b c) :
    Rearranged a c := by
  rcases h1 with ⟨arr, arr', ha, rfl⟩
  rcases h2 with ⟨_, arr'', _, rfl⟩
  exact ⟨arr, arr'', ha, rfl⟩

section

variable {h h' : NodeHeap} {n : Nat} {ext : List Nat}

variable (h1 : Counted ext h) (hn : n ∈ ext)
include h1 hn

theorem counted_extendElem {elem : Nat} (hextend : extendElem n h elem = some h') :
    Counted ext h' ∧ Changes h h' n [] Rearranged := by
  rcases bind_eq_some_iff.mp hextend with ⟨⟨copy, g⟩, hcopy, hpush⟩
  rcases copied_of_copyNode h1.exact.inBounds hcopy with ⟨t, _, hcopied⟩
  have hcounted := hcopied.counted h1
  have hnlt : n < h.next := lt_next_of_refcountOf (h1.exact.live_of_mem hn)
  rcases hcounted.live (mem_cons_of_mem copy hn) with ⟨node, hread⟩
  cases harr : node.content with
  | array arr =>
    rcases counted_arrPush hcounted hread harr hn with ⟨h2, hpush', hcounted', hchanges⟩
    dsimp only at hpush
    rw [hpush] at hpush'
    cases hpush'
    refine ⟨hcounted', (hcopied.builds.quiet.then hchanges hnlt).fresh ?_⟩
    intro y hy
    cases mem_singleton.mp hy
    exact hcopied.fresh
  | _ =>
    unfold arrPush at hpush
    dsimp only at hpush
    rw [hread] at hpush
    simp only [some_bind, harr] at hpush
    cases hpush

theorem counted_extendLoop {elems : List Nat} (hextend : elems.foldlM (extendElem n) h = some h') :
    Counted ext h' ∧ Changes h h' n [] Rearranged := by
  induction elems generalizing h with
  | nil =>
    cases hextend
    exact ⟨h1, (Quiet.refl _).changes n [] _⟩
  | cons elem rest ih =>
    rw [foldlM_cons] at hextend
    rcases bind_eq_some_iff.mp hextend with ⟨g, hfirst, hrest⟩
    rcases counted_extendElem h1 hn hfirst with ⟨hcounted, hchanges⟩
    rcases ih hcounted hrest with ⟨hcounted', hchanges'⟩
    have hnlt : n < h.next := lt_next_of_refcountOf (h1.exact.live_of_mem hn)
    have hboth : Changes h h' n ([] ++ []) Rearranged :=
      hchanges.trans hchanges' hnlt (fun _ _ hW => hW) (fun _ _ hW => hW)
        fun _ _ _ hW hW' => hW.trans hW'
    exact ⟨hcounted', hboth⟩

theorem counted_arrExtend {other : Nat} (hextend : arrExtend h n other = some h') :
    Counted ext h' ∧ Changes h h' n [] Rearranged := by
  unfold arrExtend at hextend
  rcases bind_eq_some_iff.mp hextend with ⟨node, hread, hextend⟩
  rcases bind_eq_some_iff.mp hextend with ⟨source, hsource, hextend⟩
  split at hextend
  · exact counted_extendLoop h1 hn hextend
  cases hextend
  exact ⟨h1, (Quiet.refl h).changes n [] _⟩

end

theorem mapMerge_other {K : Type} [DecidableEq K] {M : MapKind K} {h : NodeHeap}
    {n n' : Nat} {node node' : Node} {overwrite : Bool} (hread : h.read n = some node)
    (hread' : h.read n' = some node')
    (hother : M.get node.content = none ∨ M.get node'.content = none) :
    mapMerge M h n n' overwrite = some h := by
  unfold mapMerge
  simp only [hread, hread', some_bind]
  rcases hother with hnone | hnone
  · rw [hnone]
    rfl
  · rw [hnone]
    cases M.get node.content <;> rfl

end Async2.Ownership
