import Async2.Ownership.Effects

/-!
# What a native does

Every native keeps the counts exact.  `Effect` says which node it writes, `Held` where the
handles that are there afterwards come from; all properties of runs are derived from these.
`MayFault` lists everything that a native can fail with.
-/

namespace Async2.Ownership

open RefCount.Heap List

/-- The nodes that a native can put a handle on: those below the node of a handle, the
current values of the iterators, and new ones. -/
inductive State.Sees (s : State) : Nat -> Prop
  | below {id : Int} {hd : Handle} {x : Nat} (hfind : s.handles.find id = some hd)
      (hreach : s.heap.Reach hd.node x) : Sees s x
  | value {id : Int} {it : DataIterator} {x : Nat}
      (hfind : s.handles.find id = some (.iterator it)) (hvalue : it.value = some x) : Sees s x
  | fresh {x : Nat} (hx : s.heap.next <= x) : Sees s x

/-- The change of the heap by a native. -/
inductive Effect (s : State) : Native -> NodeHeap -> Prop
  | quiet {a : Native} {h' : NodeHeap} (hquiet : Quiet s.heap h') : Effect s a h'
  | mutate {json : Int} {m : Mutator} {n : Nat} {h' : NodeHeap}
      (hn : s.getDataHandle json = some n) (hchanges : Changes s.heap h' n [] m.Writes) :
      Effect s (.mutate json m) h'
  | setObject {json child : Int} {slot : Slot} {n val : Nat} {h' : NodeHeap}
      (hn : s.getDataHandle json = some n) (hval : s.getDataHandle child = some val)
      (hne : n ≠ val) (hchanges : Changes s.heap h' n [val] slot.Writes) :
      Effect s (.setObject json slot child) h'
  | merge {json other : Int} {m : Merger} {n n' : Nat} {h' : NodeHeap}
      (hn : s.getDataHandle json = some n) (hn' : s.getDataHandle other = some n')
      (hne : n ≠ n') (hchanges : Changes s.heap h' n [] (m.Writes s.heap n')) :
      Effect s (.merge json m other) h'

/-- Where a handle comes from that is there after a native. -/
inductive Held (s : State) (a : Native) (id : Int) : Handle -> Prop
  | old {hd : Handle} (hfind : s.handles.find id = some hd) : Held s a id hd
  | json {n : Nat} (hid : a.newId = some id) (hsees : s.Sees n) : Held s a id (.json n)
  | created {json : Int} {type : IteratorType} {n : Nat} {it : DataIterator}
      (ha : a = .iterCreate json type id) (hn : s.getDataHandle json = some n)
      (hit : DataIterator.create type s n = .ok it) : Held s a id (.iterator it)
  | moved {type : IteratorType} {it it' : DataIterator} {key : MapKey}
      (ha : a = .iterNext id type) (hit : s.handles.find id = some (.iterator it))
      (hnext : it.next s = .ok (some (key, it'))) : Held s a id (.iterator it')

/-- The copies that the event thread has after a native. -/
inductive SentAfter (s : State) : Native -> List Nat -> Prop
  | same {a : Native} : SentAfter s a s.sent
  | send {json : Int} {n root : Nat} {h : NodeHeap} (hn : s.getDataHandle json = some n)
      (hcopy : copyNode n s.heap = some (root, h)) : SentAfter s (.send json) (root :: s.sent)
  | delivered {root : Nat} : SentAfter s (.delivered root) (s.sent.erase root)

def Native.repeatsKey (env : Env) : Native -> Bool
  | .make source _ => source.repeatsKey env
  | _ => false

structure Stepped (env : Env) (lost : List Nat) (s : State) (a : Native) (s' : State) :
    Prop where
  owned : exists lost', Owned lost' s' ∧ (a.repeatsKey env = false -> lost' = lost)
  effect : Effect s a s'.heap
  handles : forall id hd, s'.handles.find id = some hd -> Held s a id hd
  sent : SentAfter s a s'.sent

/-- A native whose walk over the nodes below a data handle may not end. -/
def walksInCycle (s : State) (json : Int) (f : Fault) : Prop :=
  f = .freed ∧ exists n, s.getDataHandle json = some n ∧ ¬ s.heap.AcyclicFrom n

/-- The current value of an iterator is freed. -/
def State.ValueFreed (s : State) (iter : Int) : Prop :=
  exists it v, s.getDataIterator iter = some it ∧ it.value = some v ∧ s.heap.read v = none

/-- Two data handles are on different nodes. -/
def State.Distinct (s : State) (json other : Int) (n n' : Nat) : Prop :=
  s.getDataHandle json = some n ∧ s.getDataHandle other = some n' ∧ n ≠ n'

/-- Everything that a native can fail with. -/
def Native.MayFault (s : State) : Native -> Fault -> Prop
  | .make source _, f => source.MayFault f
  | .query json q, f => q.Walks ∧ walksInCycle s json f
  | .equals json other, f => walksInCycle s json f ∨ walksInCycle s other f
  | .copy json _, f => walksInCycle s json f
  | .send json, f => walksInCycle s json f
  | .setObject json slot child, f => f = .member ∧ slot = .append ∧
      exists n val node, s.Distinct json child n val ∧ s.heap.read n = some node ∧
        node.content.type ≠ .array
  | .merge json _ other, f => f = .freed ∧ exists n n', s.Distinct json other n n' ∧
      ¬ (s.heap.AcyclicFrom n' ∧ ¬ s.heap.Reach n' n)
  | .iterNext iter type, f => f = .position ∧ exists it node, s.getDataIterator iter = some it ∧
      it.type = type ∧ s.heap.read it.node = some node ∧ node.version = it.version ∧
      s.epoch it.node ≠ it.epoch
  | .iterGet iter _, f => f = .freed ∧ s.ValueFreed iter
  | .iterGetObject iter _, f => f = .freed ∧ s.ValueFreed iter
  | _, _ => False

/-- The node of an iterator is a map of its type. -/
def Typed (s : State) : Prop :=
  forall id it node, s.handles.find id = some (.iterator it) ->
    s.heap.read it.node = some node -> node.content.type = it.type.dataType

/-- The native keeps the counts exact, and fails only as listed. -/
def Native.Keeps (env : Env) (lost : List Nat) (s : State) (a : Native) : Prop :=
  Yields (a.call env s) (a.MayFault s) fun r => Stepped env lost s a r.2

section

variable {env : Env} {lost : List Nat} {s s' : State} {a : Native} {id : Int} {hd : Handle}
  {id' : Int}

theorem Stepped.refl (h1 : Owned lost s) : Stepped env lost s a s where
  owned := ⟨lost, h1, fun _ => rfl⟩
  effect := .quiet (Quiet.refl _)
  handles := fun _ _ hfind => .old hfind
  sent := .same

theorem held_insert {hd' : Handle} {handles : Dict Int Handle}
    (hhandles : handles = s.handles ∨ handles = s.handles.insert id hd) (hnew : Held s a id hd)
    (hfind : handles.find id' = some hd') : Held s a id' hd' := by
  rcases hhandles with rfl | rfl
  · exact .old hfind
  · rw [Dict.find_insert] at hfind
    split at hfind
    case isTrue heq =>
      subst heq
      cases hfind
      exact hnew
    · exact .old hfind

theorem find_of_erase (hfind : (s.handles.erase id).find id' = some hd) :
    s.handles.find id' = some hd := by
  rw [Dict.find_erase] at hfind
  split at hfind
  · cases hfind
  · exact hfind

theorem stepped_createHandle (hd : Handle) {lost' : List Nat} {h : NodeHeap}
    (h1 : Counted (hd.node :: (lost' ++ s.refs)) h) (hid : s.handles.find id = none)
    (hlost : a.repeatsKey env = false -> lost' = lost) (hquiet : Quiet s.heap h)
    (hnew : Held s a id hd) (F : Fault -> Prop) :
    Yields (State.createHandle { s with heap := h } hd id) F fun r => Stepped env lost s a r.2 := by
  rcases handed_createHandle (s := { s with heap := h }) h1 hid
    with ⟨answer, s', hcreate, hhanded, hhandles⟩
  rw [hcreate]
  constructor
  · exact ⟨lost', hhanded.owned, hlost⟩
  · exact .quiet (hquiet.trans hhanded.quiet)
  · intro id' hd' hfind
    exact held_insert hhandles hnew hfind
  · change SentAfter s a s'.sent
    rw [hhanded.sent]
    exact .same

theorem stepped_freeHandle (s : State) {s1 : State} {answer : Answer} (h1 : Owned lost s1)
    (hhandles : s1.handles = s.handles) (hsent : SentAfter s a s1.sent)
    (heffect : forall h', Quiet s1.heap h' -> Effect s a h') (F : Fault -> Prop) :
    Yields (do return (answer, ← s1.freeHandle id)) F fun r => Stepped env lost s a r.2 := by
  rcases handed_freeHandle id h1 with ⟨s', hfree, hhanded, herase⟩
  rw [hfree]
  constructor
  · exact ⟨lost, hhanded.owned, fun _ => rfl⟩
  · exact heffect _ hhanded.quiet
  · intro id' hd' hfind
    change s'.handles.find id' = some hd' at hfind
    rw [herase, hhandles] at hfind
    exact .old (find_of_erase hfind)
  · change SentAfter s a s'.sent
    rw [hhanded.sent]
    exact hsent

theorem stepped_wrapChildNode {val : Nat} (h1 : Owned lost s) (hlive : s.heap.refcountOf val ≠ 0)
    (hid : s.handles.find id = none) (hnew : a.newId = some id) (hsees : s.Sees val)
    (F : Fault -> Prop) : Yields (s.wrapChildNode val id) F fun r => Stepped env lost s a r.2 := by
  rcases Counted.incref h1 hlive with ⟨h', hinc, hcounted⟩
  unfold State.wrapChildNode
  rw [hinc]
  exact stepped_createHandle (.json val) hcounted hid (fun _ => rfl) (quiet_incref hinc)
    (.json hnew hsees) F

theorem stepped_heap {h' : NodeHeap} (h1 : Counted (lost ++ s.refs) h')
    (heffect : Effect s a h') : Stepped env lost s a { s with heap := h' } where
  owned := ⟨lost, h1, fun _ => rfl⟩
  effect := heffect
  handles := fun _ _ hfind => .old hfind
  sent := .same

end

/-!
## The natives
-/

variable {env : Env} {lost : List Nat} {s : State} {F : Fault -> Prop} (h1 : Owned lost s)
include h1

theorem stepped_make (source : Source) (id : Int) (hid : s.handles.find id = none)
    (hF : forall f, source.make env s.heap = .error f -> F f) :
    Yields ((Native.make source id).call env s) F
      fun r => Stepped env lost s (.make source id) r.2 := by
  have hmake : Yields (source.make env s.heap) F fun r =>
      exists lost', Made s.heap (lost ++ s.refs) (source.repeatsKey env) r lost' := by
    have hyields := yields_make env source h1
    cases hres : source.make env s.heap with
    | ok r => exact hyields.of_ok hres
    | error f => exact hF f hres
  refine hmake.bind ?_
  rintro ⟨root, h⟩ ⟨lost', hmade⟩
  have hlost : (Native.make source id).repeatsKey env = false -> lost' ++ lost = lost := by
    intro hno
    rw [hmade.leaks hno]
    rfl
  have hcounted := hmade.counted
  rw [← append_assoc lost'] at hcounted
  cases root with
  | none =>
    refine ⟨⟨_, hcounted, hlost⟩, .quiet hmade.builds.quiet, ?_, .same⟩
    exact fun _ _ hfind => .old hfind
  | some root =>
    exact stepped_createHandle (.json root) hcounted hid hlost hmade.builds.quiet
      (.json rfl (.fresh (hmade.fresh root rfl))) _

theorem stepped_query (json : Int) (q : Query) : (Native.query json q).Keeps env lost s := by
  refine yields_withData (Stepped.refl h1) fun n hn => ?_
  refine ((yields_query env q h1.exact (h1.data_live hn)).imp ?_ fun _ hr => hr).bind
    fun _ _ => Stepped.refl h1
  rintro f ⟨hf, hwalks, hcycle⟩
  exact ⟨hwalks, hf, n, hn, hcycle⟩

theorem stepped_equals (json other : Int) : (Native.equals json other).Keeps env lost s := by
  refine yields_withData (Stepped.refl h1) fun n hn => ?_
  refine yields_withData (Stepped.refl h1) fun n' hn' => ?_
  cases heq : nodesEqual s.heap n n' with
  | some b => exact Stepped.refl h1
  | none =>
    by_cases hacyclic : s.heap.AcyclicFrom n
    · refine .inr ⟨rfl, n', hn', fun hacyclic' => ?_⟩
      rcases exists_denotes h1.exact (h1.data_live hn) hacyclic with ⟨t, ht⟩
      rcases exists_denotes h1.exact (h1.data_live hn') hacyclic' with ⟨t', ht'⟩
      have hequals : nodesEqual s.heap n n' = _ := equals_of_denotes ht ht'
      rw [heq] at hequals
      cases hequals
    · exact .inl ⟨rfl, n, hn, hacyclic⟩

theorem stepped_wrap (json : Int) (at_ : Locator) (filter : ChildFilter) (id : Int)
    (hid : s.handles.find id = none) : (Native.wrap json at_ filter id).Keeps env lost s := by
  refine yields_withData (Stepped.refl h1) fun n hn => ?_
  have hlive := h1.data_live hn
  refine Yields.bind (findsChild_find h1.exact at_ hlive) fun r hr => ?_
  cases r with
  | none => exact Stepped.refl h1
  | some val =>
    have hreach := hr val rfl
    have hval := h1.exact.live_of_reach hlive hreach
    rcases exists_read hval with ⟨node, hread⟩
    dsimp only
    rw [contentAt_of_read hread]
    change Yields (if filter.admits node.content.type then _ else _) _ _
    split
    · exact stepped_wrapChildNode h1 hval hid rfl
        (.below (find_of_getDataHandle hn) hreach) _
    · exact Stepped.refl h1

theorem stepped_copy (json id : Int) (hid : s.handles.find id = none) :
    (Native.copy json id).Keeps env lost s := by
  refine yields_withData (Stepped.refl h1) fun n hn => ?_
  refine ((yields_copyNode h1 (h1.data_live hn)).imp ?_ fun _ hr => hr).bind ?_
  · rintro f ⟨hf, hcycle⟩
    exact ⟨hf, n, hn, hcycle⟩
  · rintro ⟨root, h⟩ ⟨hcounted, hbuilds, hfresh⟩
    exact stepped_createHandle (.json root) hcounted hid (fun _ => rfl) hbuilds.quiet
      (.json rfl (.fresh hfresh)) _

theorem stepped_mutate (json : Int) (m : Mutator) : (Native.mutate json m).Keeps env lost s := by
  refine yields_withData (Stepped.refl h1) fun n hn => ?_
  refine (yields_mutator m h1 (Owned.mem hn)).bind ?_
  rintro ⟨answer, h'⟩ ⟨hcounted, hchanges⟩
  exact stepped_heap hcounted (.mutate hn hchanges)

theorem stepped_setObject (json : Int) (slot : Slot) (child : Int) :
    (Native.setObject json slot child).Keeps env lost s := by
  refine yields_withData (Stepped.refl h1) fun n hn => ?_
  refine yields_withData (Stepped.refl h1) fun val hval => ?_
  split
  · exact Stepped.refl h1
  case isFalse hne =>
    rcases Counted.incref h1 (h1.data_live hval) with ⟨h', hinc, hcounted⟩
    rw [hinc]
    rcases exists_read (h1.data_live hn) with ⟨node, hread⟩
    have hread' : h'.read n = some node := by
      rw [read_incref hinc]
      exact hread
    have hlt := lt_next_of_refcountOf (h1.data_live hn)
    refine ((yields_store slot hcounted (Owned.mem hn) hread').imp ?_ fun _ hr => hr).bind ?_
    · rintro f ⟨hf, hslot, htype⟩
      exact ⟨hf, hslot, n, val, node, ⟨hn, hval, hne⟩, hread, htype⟩
    · rintro h'' ⟨hcounted', hchanges⟩
      have howned : Owned lost { s with heap := h'' } := hcounted'
      refine stepped_freeHandle s howned rfl .same ?_ _
      intro h3 hquiet
      exact .setObject hn hval hne (((quiet_incref hinc).then hchanges hlt).quiet hquiet hlt)

theorem stepped_merge (json : Int) (m : Merger) (other : Int) :
    (Native.merge json m other).Keeps env lost s := by
  refine yields_withData (Stepped.refl h1) fun n hn => ?_
  refine yields_withData (Stepped.refl h1) fun n' hn' => ?_
  split
  · exact Stepped.refl h1
  case isFalse hne =>
    refine ((yields_merger m h1 (Owned.mem hn) (Owned.mem hn')).imp ?_ fun _ hr => hr).bind ?_
    · rintro f ⟨hf, hcycle⟩
      exact ⟨hf, n, n', ⟨hn, hn', hne⟩, hcycle⟩
    · rintro h' ⟨hcounted, hchanges⟩
      exact stepped_heap hcounted (.merge hn hn' hne hchanges)

omit h1 in
theorem entries_of_type (type : IteratorType) {c : Content} (h : c.type = type.dataType) :
    exists es, type.entries c = .ok es := by
  cases type with
  | object =>
    rcases get_of_type_object c h with ⟨m, hm⟩
    refine ⟨m.entries.map fun e => (.member e.1, e.2), ?_⟩
    simp only [IteratorType.entries, getMap, hm]
    rfl
  | intMap =>
    rcases get_of_type_intMap c h with ⟨m, hm⟩
    refine ⟨m.entries.map fun e => (.intMember e.1, e.2), ?_⟩
    simp only [IteratorType.entries, getMap, hm]
    rfl

omit h1 in
theorem create_of_read {type : IteratorType} {n : Nat} {node : Node}
    (hread : s.heap.read n = some node) (htype : node.content.type = type.dataType) :
    DataIterator.create type s n = .ok ⟨type, n, node.version, 0, s.epoch n, none, none⟩ := by
  rcases entries_of_type type htype with ⟨es, hes⟩
  unfold DataIterator.create
  rw [hread]
  change (type.entries node.content >>= _) = _
  rw [hes]
  rfl

theorem stepped_iterCreate (json : Int) (type : IteratorType) (id : Int)
    (hid : s.handles.find id = none) : (Native.iterCreate json type id).Keeps env lost s := by
  refine yields_withData (Stepped.refl h1) fun n hn => ?_
  rcases exists_read (h1.data_live hn) with ⟨node, hread⟩
  rw [contentAt_of_read hread]
  change Yields (if node.content.type ≠ type.dataType then _ else _) _ _
  split
  · exact Stepped.refl h1
  case isFalse htype =>
    have hcreate := create_of_read hread (not_not.mp htype)
    rw [hcreate]
    rcases Counted.incref h1 (h1.data_live hn) with ⟨h', hinc, hcounted⟩
    change Yields (orFreed (s.heap.incref n) >>= _) _ _
    rw [hinc]
    exact stepped_createHandle (.iterator ⟨type, n, node.version, 0, s.epoch n, none, none⟩)
      hcounted hid (fun _ => rfl) (quiet_incref hinc) (.created rfl hn hcreate) _

omit h1 in
theorem yields_next {it : DataIterator} {node : Node} (hread : s.heap.read it.node = some node)
    (htype : node.content.type = it.type.dataType) :
    Yields (it.next s) (fun f => f = .position ∧ node.version = it.version ∧
      s.epoch it.node ≠ it.epoch) fun r => forall key it', r = some (key, it') ->
        it'.node = it.node := by
  unfold DataIterator.next
  rw [hread]
  change Yields (if node.version ≠ it.version then _ else _) _ _
  split
  · exact fun _ _ hr => nomatch hr
  case isFalse hversion =>
    rcases entries_of_type it.type htype with ⟨es, hes⟩
    rw [hes]
    change Yields (if s.epoch it.node ≠ it.epoch then _ else _) _ _
    split
    case isTrue hepoch => exact ⟨rfl, not_not.mp hversion, hepoch⟩
    cases es[it.position]? with
    | none => exact fun _ _ hr => nomatch hr
    | some entry =>
      intro key it' hr
      cases hr
      rfl

theorem stepped_iterNext (iter : Int) (type : IteratorType) (htyped : Typed s) :
    (Native.iterNext iter type).Keeps env lost s := by
  rw [Native.Keeps, Native.call]
  cases hit : s.getDataIterator iter with
  | none => exact Stepped.refl h1
  | some it =>
    have hfind := find_of_getDataIterator hit
    rcases exists_read (h1.live hfind) with ⟨node, hread⟩
    change Yields (if it.type ≠ type then _ else _) _ _
    split
    · exact Stepped.refl h1
    case isFalse htype =>
      have hnext := yields_next hread (htyped iter it node hfind hread)
      cases hres : it.next s with
      | error f =>
        rcases hnext.of_error hres with ⟨hf, hversion, hepoch⟩
        exact ⟨hf, it, node, hit, not_not.mp htype, hread, hversion, hepoch⟩
      | ok r =>
        cases r with
        | none => exact Stepped.refl h1
        | some r =>
          rcases r with ⟨key, it'⟩
          have hnode := hnext.of_ok hres key it' rfl
          constructor
          · refine ⟨lost, Counted.perm h1 ?_, fun _ => rfl⟩
            have hrefs : ({ s with handles := s.handles.insert iter (.iterator it') } :
                State).refs.Perm s.refs := refs_insert_same hfind hnode
            exact (hrefs.append_left lost).symm
          · exact .quiet (Quiet.refl _)
          · intro id' hd' hfind'
            exact held_insert (.inr rfl) (.moved rfl hfind hres) hfind'
          · exact .same

omit h1 in
theorem yields_value {iter : Int} {missing : Answer} {f : Nat -> Content -> Run (Answer × State)}
    {Q : Answer × State -> Prop} (hnone : Q (missing, s)) (hfreed : s.ValueFreed iter -> F .freed)
    (hsome : forall it v node, s.handles.find iter = some (.iterator it) -> it.value = some v ->
      s.heap.read v = some node -> Yields (f v node.content) F Q) :
    Yields (match (s.getDataIterator iter).bind DataIterator.value with
      | none => .ok (missing, s)
      | some v => contentAt s.heap v >>= f v) F Q := by
  cases hit : s.getDataIterator iter with
  | none => exact hnone
  | some it =>
    change Yields (match it.value with
      | none => .ok (missing, s)
      | some v => contentAt s.heap v >>= f v) F Q
    cases hvalue : it.value with
    | none => exact hnone
    | some v =>
      cases hread : s.heap.read v with
      | none =>
        change Yields (contentAt s.heap v >>= f v) F Q
        unfold contentAt
        rw [hread]
        exact hfreed ⟨it, v, hit, hvalue, hread⟩
      | some node =>
        change Yields (contentAt s.heap v >>= f v) F Q
        rw [contentAt_of_read hread]
        exact hsome it v node (find_of_getDataIterator hit) hvalue hread

theorem stepped_iterGet (iter : Int) (g : Getter) : (Native.iterGet iter g).Keeps env lost s := by
  refine yields_value (Stepped.refl h1) (fun hfreed => ⟨rfl, hfreed⟩) ?_
  intro it v node _ _ _
  rcases g.read_ok g.default node.content with ⟨answer, hanswer⟩
  change Yields (g.lenient node.content >>= _) _ _
  unfold Getter.lenient
  rw [hanswer]
  exact Stepped.refl h1

theorem stepped_iterGetObject (iter id : Int) (hid : s.handles.find id = none) :
    (Native.iterGetObject iter id).Keeps env lost s := by
  refine yields_value (Stepped.refl h1) (fun hfreed => ⟨rfl, hfreed⟩) ?_
  intro it v node hfind hvalue hread
  split
  · exact stepped_wrapChildNode h1 (live_of_read hread) hid rfl
      (.value hfind hvalue) _
  · exact Stepped.refl h1

theorem stepped_send (json : Int) : (Native.send json).Keeps env lost s := by
  refine yields_withData (Stepped.refl h1) fun n hn => ?_
  have hcopy := yields_copyNode h1 (h1.data_live hn)
  cases hres : copyNode n s.heap with
  | none =>
    rw [hres] at hcopy
    exact ⟨rfl, n, hn, hcopy.right⟩
  | some r =>
    rcases r with ⟨root, h⟩
    rw [hres] at hcopy
    rcases hcopy with ⟨hcounted, hbuilds, _⟩
    have hsent : Owned lost { s with heap := h, sent := root :: s.sent } := by
      refine Counted.perm hcounted ?_
      refine perm_middle.symm.trans (List.Perm.append_left lost ?_)
      exact perm_middle.symm
    refine stepped_freeHandle s hsent rfl (.send hn hres) ?_ _
    exact fun h' hquiet => .quiet (hbuilds.quiet.trans hquiet)

theorem stepped_delivered (root : Nat) : (Native.delivered root).Keeps env lost s := by
  rw [Native.Keeps, Native.call]
  split
  case isTrue hmem =>
    have hcounted : Counted (root :: (lost ++ ({ s with sent := s.sent.erase root } :
        State).refs)) s.heap := by
      refine Counted.perm h1 ?_
      refine List.Perm.trans (List.Perm.append_left lost ?_) perm_middle
      refine List.Perm.trans (List.Perm.append_left _ (perm_cons_erase hmem)) ?_
      exact perm_middle
    rcases hcounted.release with ⟨h', hrel, hrest, hshrinks⟩
    rw [hrel]
    exact ⟨⟨lost, hrest, fun _ => rfl⟩, .quiet hshrinks.quiet, fun _ _ hfind => .old hfind,
      .delivered⟩
  · exact Stepped.refl h1

theorem stepped_call (a : Native) (htyped : Typed s) (hfresh : a.FreshId s) :
    a.Keeps env lost s := by
  cases a with
  | make source id =>
    exact stepped_make h1 source id (hfresh id rfl) fun f hf =>
      (yields_make env source h1).of_error hf
  | query json q => exact stepped_query h1 json q
  | equals json other => exact stepped_equals h1 json other
  | wrap json at_ filter id => exact stepped_wrap h1 json at_ filter id (hfresh id rfl)
  | copy json id => exact stepped_copy h1 json id (hfresh id rfl)
  | mutate json m => exact stepped_mutate h1 json m
  | setObject json slot child => exact stepped_setObject h1 json slot child
  | merge json m other => exact stepped_merge h1 json m other
  | close json =>
    refine yields_withData (Stepped.refl h1) fun n hn => ?_
    exact stepped_freeHandle s h1 rfl .same (fun _ hquiet => .quiet hquiet) _
  | iterCreate json type id => exact stepped_iterCreate h1 json type id (hfresh id rfl)
  | iterNext iter type => exact stepped_iterNext h1 iter type htyped
  | iterGet iter g => exact stepped_iterGet h1 iter g
  | iterGetObject iter id => exact stepped_iterGetObject h1 iter id (hfresh id rfl)
  | iterClose iter =>
    rw [Native.Keeps, Native.call]
    cases s.getDataIterator iter with
    | none => exact Stepped.refl h1
    | some it => exact stepped_freeHandle s h1 rfl .same (fun _ hquiet => .quiet hquiet) _
  | send json => exact stepped_send h1 json
  | free id => exact stepped_freeHandle s h1 rfl .same (fun _ hquiet => .quiet hquiet) _
  | delivered root => exact stepped_delivered h1 root

end Async2.Ownership
