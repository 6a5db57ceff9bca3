import Async2.Foundation.Fallible
import Async2.Ownership.Natives
import Async2.Ownership.Separate

/-!
# Who holds the references

The references from outside of the heap are those of the handles and of the copies that the
event thread still has; `lost` are references that nothing gives back.  The functions below
keep the counts exact, and what they can fail with is said.
-/

namespace Async2.Ownership

open RefCount.Heap List State

def State.refs (s : State) : List Nat := s.handles.values.map Handle.node ++ s.sent

def Owned (lost : List Nat) (s : State) : Prop := Counted (lost ++ s.refs) s.heap

section

variable {lost : List Nat} {s : State} {id : Int} {hd : Handle} {n : Nat} {F : Fault -> Prop}

theorem find_of_getDataHandle (h : s.getDataHandle id = some n) :
    s.handles.find id = some (.json n) := by
  unfold getDataHandle at h
  split at h
  case h_1 node hfind =>
    cases h
    exact hfind
  · cases h

theorem find_of_getDataIterator {it : DataIterator} (h : s.getDataIterator id = some it) :
    s.handles.find id = some (.iterator it) := by
  unfold getDataIterator at h
  split at h
  case h_1 it' hfind =>
    cases h
    exact hfind
  · cases h

theorem mem_refs (h : s.handles.find id = some hd) : hd.node ∈ s.refs :=
  mem_append_left _ (mem_map_of_mem (Dict.mem_values_of_find h))

theorem Owned.mem (h : s.getDataHandle id = some n) : n ∈ lost ++ s.refs :=
  mem_append_right lost (mem_refs (find_of_getDataHandle h))

theorem Owned.live (h1 : Owned lost s) (h : s.handles.find id = some hd) :
    s.heap.refcountOf hd.node ≠ 0 :=
  h1.exact.live_of_mem (mem_append_right lost (mem_refs h))

theorem Owned.data_live (h1 : Owned lost s) (h : s.getDataHandle id = some n) :
    s.heap.refcountOf n ≠ 0 :=
  h1.live (find_of_getDataHandle h)

/-!
## Handles
-/

theorem refs_insert_new (h : s.handles.find id = none) :
    ({ s with handles := s.handles.insert id hd } : State).refs.Perm (hd.node :: s.refs) := by
  unfold refs
  dsimp only
  rw [Dict.values_insert_of_none h, map_append, append_assoc]
  exact perm_middle

theorem refs_insert_same {old : Handle} (h : s.handles.find id = some old)
    (hnode : hd.node = old.node) :
    ({ s with handles := s.handles.insert id hd } : State).refs.Perm s.refs := by
  unfold refs
  dsimp only
  refine List.Perm.append_right _ ?_
  have hperm := (Dict.values_insert_of_some h hd).map Handle.node
  rw [map_cons, map_cons, hnode] at hperm
  exact hperm.cons_inv

theorem refs_erase (h : s.handles.find id = some hd) :
    s.refs.Perm (hd.node :: ({ s with handles := s.handles.erase id } : State).refs) := by
  unfold refs
  dsimp only
  have hperm := ((Dict.values_erase h).map Handle.node).symm
  rw [map_cons] at hperm
  exact hperm.append_right _

/-- What making or freeing a handle leaves. -/
structure Handed (lost : List Nat) (s s' : State) : Prop where
  owned : Owned lost s'
  quiet : Quiet s.heap s'.heap
  sent : s'.sent = s.sent

theorem handed_createHandle (h1 : Counted (hd.node :: (lost ++ s.refs)) s.heap)
    (hid : s.handles.find id = none) :
    exists answer s', s.createHandle hd id = .ok (answer, s') ∧ Handed lost s s' ∧
      (s'.handles = s.handles ∨ s'.handles = s.handles.insert id hd) := by
  unfold createHandle
  split
  · rcases h1.release with ⟨h', hrel, hcounted, hshrinks⟩
    rw [hrel]
    exact ⟨_, _, rfl, ⟨hcounted, hshrinks.quiet, rfl⟩, .inl rfl⟩
  refine ⟨_, _, rfl, ⟨?_, Quiet.refl _, rfl⟩, .inr rfl⟩
  apply h1.perm
  exact perm_middle.symm.trans ((refs_insert_new hid).symm.append_left lost)

theorem handed_freeHandle (id : Int) (h1 : Owned lost s) :
    exists s', s.freeHandle id = .ok s' ∧ Handed lost s s' ∧ s'.handles = s.handles.erase id := by
  unfold freeHandle
  cases hfind : s.handles.find id with
  | none => exact ⟨s, rfl, ⟨h1, Quiet.refl _, rfl⟩, (Dict.erase_of_none hfind).symm⟩
  | some hd =>
    have hcounted : Counted (hd.node ::
        (lost ++ ({ s with handles := s.handles.erase id } : State).refs)) s.heap := by
      apply Counted.perm h1
      exact ((refs_erase hfind).append_left lost).trans perm_middle
    rcases hcounted.release with ⟨h', hrel, hrest, hshrinks⟩
    dsimp only
    rw [hrel]
    exact ⟨_, rfl, ⟨hrest, hshrinks.quiet, rfl⟩, rfl⟩

theorem yields_withData {invalid : Answer} {f : Nat -> Run (Answer × State)}
    {Q : Answer × State -> Prop} (hnone : Q (invalid, s))
    (hsome : forall n, s.getDataHandle id = some n -> Yields (f n) F Q) :
    Yields (s.withData id invalid f) F Q := by
  unfold withData
  cases h : s.getDataHandle id with
  | none => exact hnone
  | some n => exact hsome n h

theorem yields_orFreed {A : Type} {res : Option A} {Q : A -> Prop} {x : A} (h : res = some x)
    (hx : Q x) : Yields (orFreed res) F Q := by
  rw [h]
  exact hx

end

/-!
## Looking below a node
-/

variable {h : NodeHeap} {ext : List Nat} {n : Nat} {node : Node} {K : Type}

theorem contentAt_of_read (hread : h.read n = some node) : contentAt h n = .ok node.content := by
  unfold contentAt
  rw [hread]
  rfl

theorem mapFind_of_read [DecidableEq K] (M : MapKind K) (key : K) (hread : h.read n = some node) :
    mapFind M h n key = some ((M.get node.content).bind fun m => m.find key) := by
  unfold mapFind
  rw [hread]
  rfl

theorem edge_of_elem {arr : List Nat} {index v : Nat} (hread : h.read n = some node)
    (harr : node.content = .array arr) (hget : arr[index]? = some v) : h.Edge n v := by
  rw [edge_iff hread, children_array harr]
  exact mem_of_getElem? hget

def FindsChild (h : NodeHeap) (n : Nat) (res : Run (Option Nat)) : Prop :=
  Yields res (fun _ => False) fun r => forall v, r = some v -> h.Reach n v

theorem findsChild_map [DecidableEq K] (M : MapKind K) (key : K) (hread : h.read n = some node) :
    FindsChild h n (orFreed (mapFind M h n key)) := by
  refine yields_orFreed (mapFind_of_read M key hread) ?_
  intro v hv
  rcases Option.bind_eq_some_iff.mp hv with ⟨m, hm, hfind⟩
  exact .single (edge_of_find hread hm hfind)

theorem findsChild_none (h : NodeHeap) (n : Nat) : FindsChild h n (.ok none) :=
  fun _ hv => nomatch hv

theorem findsChild_arrayElem (index : Nat) (hread : h.read n = some node) :
    FindsChild h n (arrayElem h n index) := by
  rcases node with ⟨version, c⟩
  unfold arrayElem
  rw [contentAt_of_read hread]
  cases c with
  | array arr => exact fun v hv => .single (edge_of_elem hread rfl hv)
  | _ => exact findsChild_none h n

theorem findsChild_pathStep (arg : PathArg) (hread : h.read n = some node) :
    FindsChild h n (pathStep h n arg) := by
  rcases node with ⟨version, c⟩
  rcases arg with ⟨key, cell⟩
  unfold pathStep
  rw [contentAt_of_read hread]
  cases c with
  | object obj =>
    cases key with
    | none => exact findsChild_none h n
    | some key =>
      exact fun v hv => .single (edge_of_find (M := objects) hread rfl hv)
  | intMap intmap =>
    cases cell with
    | none => exact findsChild_none h n
    | some cell =>
      exact fun v hv => .single (edge_of_find (M := intMaps) hread rfl hv)
  | array arr =>
    cases cell with
    | none => exact findsChild_none h n
    | some cell =>
      change FindsChild h n (if cell < 0 then .ok none else .ok arr[cell.toInt.toNat]?)
      split
      · exact findsChild_none h n
      · exact fun v hv => .single (edge_of_elem hread rfl hv)
  | _ => exact findsChild_none h n

theorem findsChild_resolveJsonPath (hexact : Exact ext h) (args : List PathArg)
    (hlive : h.refcountOf n ≠ 0) : FindsChild h n (resolveJsonPath h args n) := by
  induction args generalizing n with
  | nil =>
    intro v hv
    cases hv
    exact .refl
  | cons arg rest ih =>
    rcases exists_read hlive with ⟨node, hread⟩
    refine (findsChild_pathStep arg hread).bind ?_
    intro r hr
    cases r with
    | none => exact findsChild_none h n
    | some child =>
      have hchild := hr child rfl
      refine (ih (hexact.live_of_reach hlive hchild)).imp (fun _ hf => hf) ?_
      exact fun r' hr' v hv => hchild.trans (hr' v hv)

theorem findsChild_find (hexact : Exact ext h) (at_ : Locator) (hlive : h.refcountOf n ≠ 0) :
    FindsChild h n (at_.find h n) := by
  rcases exists_read hlive with ⟨node, hread⟩
  cases at_ with
  | self =>
    intro v hv
    cases hv
    exact .refl
  | member key => exact findsChild_map objects (cStr key) hread
  | element index => exact findsChild_arrayElem index hread
  | intMember key => exact findsChild_map intMaps key hread
  | path args => exact findsChild_resolveJsonPath hexact args hlive

/-!
## Queries
-/

/-- The queries that walk over everything below a node. -/
def Query.Walks : Query -> Prop
  | .msgPackSerialize => True
  | .memorySize => True
  | _ => False

theorem yields_readAt (hexact : Exact ext h) (hlive : h.refcountOf n ≠ 0) (at_ : Locator)
    (missing : Answer) {read : Content -> Run Answer} (hread : forall c, exists a, read c = .ok a)
    (F : Fault -> Prop) : Yields (readAt h n at_ missing read) F fun _ => True := by
  refine ((findsChild_find hexact at_ hlive).imp (fun _ hf => hf.elim) fun r hr => hr).bind ?_
  intro r hr
  cases r with
  | none => trivial
  | some val =>
    rcases exists_read (hexact.live_of_reach hlive (hr val rfl)) with ⟨node, hnode⟩
    rcases hread node.content with ⟨a, ha⟩
    dsimp only
    rw [contentAt_of_read hnode]
    change Yields (read node.content) F fun _ => True
    rw [ha]
    trivial

theorem yields_mapSize (M : MapKind K) {type : DataType}
    (htype : forall c, c.type = type -> exists m, M.get c = some m) (hread : h.read n = some node)
    (F : Fault -> Prop) : Yields (mapSize M type h n) F fun _ => True := by
  unfold mapSize
  rw [contentAt_of_read hread]
  by_cases ht : node.content.type = type
  · rcases htype _ ht with ⟨m, hm⟩
    change Yields (if node.content.type ≠ type then _ else _) F fun _ => True
    rw [if_neg (not_not.mpr ht)]
    unfold getMap
    rw [hm]
    trivial
  · change Yields (if node.content.type ≠ type then _ else _) F fun _ => True
    rw [if_pos ht]
    trivial

theorem get_of_type_object (c : Content) (h : c.type = .object) :
    exists m, objects.get c = some m := by
  cases c with
  | object obj => exact ⟨obj, rfl⟩
  | _ => cases h

theorem get_of_type_intMap (c : Content) (h : c.type = .intMap) :
    exists m, intMaps.get c = some m := by
  cases c with
  | intMap intmap => exact ⟨intmap, rfl⟩
  | _ => cases h

theorem yields_query (env : Env) (q : Query) (hexact : Exact ext h) (hlive : h.refcountOf n ≠ 0) :
    Yields (q.run env h n) (fun f => f = .freed ∧ q.Walks ∧ ¬ h.AcyclicFrom n) fun _ => True := by
  rcases exists_read hlive with ⟨node, hread⟩
  -- Without a cycle the node denotes a tree, on which every walk returns.
  have hwalk : forall {A : Type} (res : Option A) (f : A -> Answer), q.Walks ->
      (forall t, Denotes h h.next n t -> exists x, res = some x) ->
      Yields (do return f (← orFreed res))
        (fun e => e = Fault.freed ∧ q.Walks ∧ ¬ h.AcyclicFrom n) fun _ => True := by
    intro A res f hq hres
    cases hr : res with
    | some x => trivial
    | none =>
      refine ⟨rfl, hq, fun hacyclic => ?_⟩
      rcases exists_denotes hexact hlive hacyclic with ⟨t, ht⟩
      rcases hres t ht with ⟨x, hx⟩
      rw [hr] at hx
      cases hx
  cases q with
  | get g at_ => exact yields_readAt hexact hlive at_ _ (fun c => g.read_ok _ c) _
  | getStrict g at_ => exact yields_readAt hexact hlive at_ _ g.strict_ok _
  | objectSize => exact yields_mapSize objects get_of_type_object hread _
  | intMapSize => exact yields_mapSize intMaps get_of_type_intMap hread _
  | arrayLength | buffer =>
    rcases node with ⟨version, c⟩
    change Yields (contentAt h n >>= _) _ _
    rw [contentAt_of_read hread]
    cases c <;> trivial
  | hasKey key =>
    exact (yields_orFreed (mapFind_of_read objects (cStr key) hread) trivial).bind
      (Q := fun _ => True) fun _ _ => trivial
  | intMapHasKey key =>
    exact (yields_orFreed (mapFind_of_read intMaps key hread) trivial).bind
      (Q := fun _ => True) fun _ _ => trivial
  | serialize pretty =>
    rcases exists_dataSerializeJson pretty hexact hlive with ⟨b, hb⟩
    exact (yields_orFreed hb trivial).bind (Q := fun _ => True) fun _ _ => trivial
  | msgPackSerialize =>
    exact hwalk _ .bytes trivial fun t ht => ⟨_, serializeNode_of_denotes ht⟩
  | memorySize =>
    exact hwalk _ .size trivial fun t ht => exists_estimateBytes env.layout ht

end Async2.Ownership
