import Async2.Ownership.Steps

/-!
# Runs of natives

In every run the counts are exact, up to the nodes that a parser has lost, and every
iterator goes over a map of its type.
-/

namespace Async2.Ownership

open RefCount.Heap TransitionSystem

/-!
## The types of nodes
-/

section

variable {old new : Node}

theorem type_of_make {K : Type} {M : MapKind K} {m m' : Dict K Nat} {c c' : Content}
    {type : DataType} (htype : forall m, (M.make m).type = type) (hm : M.get c = some m)
    (hc' : c' = M.make m') : c.type = type ∧ c'.type = type := by
  rw [M.make_of_get c m hm, hc']
  exact ⟨htype m, htype m'⟩

theorem Inserted.type {K : Type} [DecidableEq K] {M : MapKind K} {key : K} {type : DataType}
    (h : Inserted M key old new) (htype : forall m, (M.make m).type = type) :
    old.content.type = type ∧ new.content.type = type := by
  rcases h with ⟨m, val, hm, rfl⟩
  exact type_of_make htype hm rfl

theorem Erased.type {K : Type} [DecidableEq K] {M : MapKind K} {key : K} {type : DataType}
    (h : Erased M key old new) (htype : forall m, (M.make m).type = type) :
    old.content.type = type ∧ new.content.type = type := by
  rcases h with ⟨m, hm, rfl⟩
  exact type_of_make htype hm rfl

theorem Cleared.type {K : Type} {M : MapKind K} {type : DataType} (h : Cleared M old new)
    (htype : forall m, (M.make m).type = type) :
    old.content.type = type ∧ new.content.type = type := by
  rcases h with ⟨m, hm, rfl⟩
  exact type_of_make htype hm rfl

theorem Rearranged.type (h : Rearranged old new) :
    old.content.type = .array ∧ new.content.type = .array := by
  rcases h with ⟨arr, arr', hold, rfl⟩
  rw [hold]
  exact ⟨rfl, rfl⟩

theorem MergedFrom.type {K : Type} [DecidableEq K] {M : MapKind K} {overwrite : Bool}
    {h0 : NodeHeap} {other : Nat} {type : DataType} (h : MergedFrom M overwrite h0 other old new)
    (htype : forall m, (M.make m).type = type) :
    old.content.type = type ∧ new.content.type = type := by
  rcases h with ⟨ks, ⟨_, m, m', hm, hnew, _⟩, _⟩
  exact type_of_make htype hm hnew

end

def Mutator.type : Mutator -> DataType
  | .set _ _ => .object
  | .removeKey _ => .object
  | .objectClear => .object
  | .intMapSet _ _ => .intMap
  | .intMapRemoveKey _ => .intMap
  | .intMapClear => .intMap
  | _ => .array

def Slot.type : Slot -> DataType
  | .member _ => .object
  | .intMember _ => .intMap
  | _ => .array

def Merger.type : Merger -> DataType
  | .object _ => .object
  | .intMap _ => .intMap
  | .extend => .array

variable {node' : Node} {h' : NodeHeap}

theorem Mutator.Writes.type {m : Mutator} {old new : Node} (h : m.Writes old new) :
    old.content.type = m.type ∧ new.content.type = m.type := by
  cases m with
  | set key sc | intMapSet key sc => exact Inserted.type h fun _ => rfl
  | removeKey key | intMapRemoveKey key => exact Erased.type h fun _ => rfl
  | objectClear | intMapClear => exact Cleared.type h fun _ => rfl
  | _ => exact Rearranged.type h

theorem Slot.Writes.type {slot : Slot} {old new : Node} (h : slot.Writes old new) :
    old.content.type = slot.type ∧ new.content.type = slot.type := by
  cases slot with
  | member key | intMember key => exact Inserted.type h fun _ => rfl
  | _ => exact Rearranged.type h

theorem Merger.Writes.type {m : Merger} {h0 : NodeHeap} {other : Nat} {old new : Node}
    (h : m.Writes h0 other old new) : old.content.type = m.type ∧ new.content.type = m.type := by
  cases m with
  | object overwrite | intMap overwrite => exact MergedFrom.type h fun _ => rfl
  | extend => exact Rearranged.type h

theorem type_of_changes {h : NodeHeap} {n x : Nat} {added : List Nat} {W : Node -> Node -> Prop}
    (h1 : Changes h h' n added W)
    (hW : forall old new, W old new -> new.content.type = old.content.type) (hx : x < h.next)
    (hread : h'.read x = some node') :
    exists node, h.read x = some node ∧ node'.content.type = node.content.type := by
  rcases h1.kept x node' hx hread with ⟨node, hnode, rfl | ⟨_, hwrite⟩⟩
  · exact ⟨_, hnode, rfl⟩
  · exact ⟨node, hnode, hW _ _ hwrite⟩

theorem Effect.type {s : State} {a : Native} {x : Nat} (h1 : Effect s a h') (hx : x < s.heap.next)
    (hread : h'.read x = some node') :
    exists node, s.heap.read x = some node ∧ node'.content.type = node.content.type := by
  cases h1 with
  | quiet hquiet => exact ⟨node', hquiet.read_eq hx hread, rfl⟩
  | mutate hn hchanges | setObject hn hval hne hchanges | merge hn hn' hne hchanges =>
    refine type_of_changes hchanges (fun old new hW => ?_) hx hread
    rw [hW.type.left, hW.type.right]

/-!
## The steps of iterators
-/

section

variable {s : State} {type : IteratorType} {n : Nat} {it it' : DataIterator} {key : MapKey}

theorem type_of_entries {c : Content} {es : List (MapKey × Nat)}
    (h : type.entries c = .ok es) : c.type = type.dataType := by
  cases type with
  | object =>
    cases c with
    | object obj => rfl
    | _ => cases h
  | intMap =>
    cases c with
    | intMap intmap => rfl
    | _ => cases h

theorem create_eq_ok (h : DataIterator.create type s n = .ok it) :
    exists node, s.heap.read n = some node ∧ node.content.type = type.dataType ∧
      it = ⟨type, n, node.version, 0, s.epoch n, none, none⟩ := by
  unfold DataIterator.create at h
  cases hread : s.heap.read n with
  | none =>
    rw [hread] at h
    cases h
  | some node =>
    rw [hread] at h
    change (type.entries node.content >>= _) = _ at h
    cases hes : type.entries node.content with
    | error f =>
      rw [hes] at h
      cases h
    | ok es =>
      rw [hes] at h
      cases h
      exact ⟨node, rfl, type_of_entries hes, rfl⟩

/-- What a successful step of an iterator finds. -/
structure Advances (s : State) (it : DataIterator) (key : MapKey) (it' : DataIterator)
    (node : Node) (es : List (MapKey × Nat)) (val : Nat) : Prop where
  read : s.heap.read it.node = some node
  version : node.version = it.version
  entries : it.type.entries node.content = .ok es
  epoch : s.epoch it.node = it.epoch
  entry : es[it.position]? = some (key, val)
  moved : it' = { it with position := it.position + 1, key := some key, value := some val }

theorem next_eq_some (h : it.next s = .ok (some (key, it'))) :
    exists node es val, Advances s it key it' node es val := by
  unfold DataIterator.next at h
  cases hread : s.heap.read it.node with
  | none =>
    rw [hread] at h
    cases h
  | some node =>
    rw [hread] at h
    change (if node.version ≠ it.version then _ else _) = _ at h
    split at h
    · cases h
    case isFalse hversion =>
      cases hes : it.type.entries node.content with
      | error f =>
        rw [hes] at h
        cases h
      | ok es =>
        rw [hes] at h
        change (if s.epoch it.node ≠ it.epoch then _ else _) = _ at h
        split at h
        · cases h
        case isFalse hepoch =>
          cases hentry : es[it.position]? with
          | none =>
            rw [hentry] at h
            cases h
          | some entry =>
            rcases entry with ⟨key', val⟩
            rw [hentry] at h
            cases h
            exact ⟨node, es, val, hread, not_not.mp hversion, hes, not_not.mp hepoch, hentry, rfl⟩

end

/-!
## What holds in every state
-/

/-- The invariant of all runs. -/
structure Sound (lost : List Nat) (s : State) : Prop where
  owned : Owned lost s
  typed : Typed s

variable {env : Env} {lost : List Nat} {s s' : State} {a : Native}
  {Allowed : State -> Native -> Prop}

theorem sound_init : Sound [] State.init := ⟨Counted.empty, fun _ _ _ hfind => nomatch hfind⟩

theorem Typed.stepped (htyped : Typed s) (howned : Owned lost s)
    (h1 : Stepped env lost s a s') : Typed s' := by
  -- The node of an old iterator is in use, and it has the type that it had.
  have hkept : forall id it node, s.handles.find id = some (.iterator it) ->
      s'.heap.read it.node = some node -> node.content.type = it.type.dataType := by
    intro id it node hfind hread
    have hlt := lt_next_of_refcountOf (howned.live hfind)
    rcases h1.effect.type hlt hread with ⟨node0, hread0, htype⟩
    rw [htype]
    exact htyped id it node0 hfind hread0
  intro id it node hfind hread
  cases h1.handles id _ hfind with
  | old hold => exact hkept id it node hold hread
  | @created json type n it ha hn hit =>
    rcases create_eq_ok hit with ⟨node0, hread0, htype0, rfl⟩
    have hlt := lt_next_of_refcountOf (live_of_read hread0)
    rcases h1.effect.type hlt hread with ⟨node1, hread1, htype⟩
    rw [hread0] at hread1
    cases hread1
    rw [htype, htype0]
  | @moved type it0 it key ha hit hnext =>
    rcases next_eq_some hnext with ⟨_, _, val, hadv⟩
    have hmoved := hadv.moved
    subst hmoved
    exact hkept id it0 node hit hread

/-- The result of a native in a sound state. -/
structure Ran (env : Env) (lost : List Nat) (s : State) (a : Native) (s' : State) : Prop where
  stepped : Stepped env lost s a s'
  sound : exists lost', Sound lost' s' ∧ (a.repeatsKey env = false -> lost' = lost)
  epoch : s'.epoch = countChanges s.heap s'.heap s.epoch

theorem ran_run (a : Native) (hs : Sound lost s) (hfresh : a.FreshId s) :
    Yields (a.run env s) (a.MayFault s) fun r => Ran env lost s a r.2 := by
  refine (stepped_call hs.owned a hs.typed hfresh).bind ?_
  rintro ⟨answer, s'⟩ h1
  have hstepped : Stepped env lost s a
      { s' with epoch := countChanges s.heap s'.heap s.epoch } :=
    ⟨h1.owned, h1.effect, h1.handles, h1.sent⟩
  refine ⟨hstepped, ?_, rfl⟩
  rcases h1.owned with ⟨lost', howned, hlost⟩
  exact ⟨lost', ⟨howned, hs.typed.stepped hs.owned hstepped⟩, hlost⟩

theorem step_eq_some (h : (natives env).step a s = some s') :
    a.FreshId s ∧ exists answer, a.run env s = .ok (answer, s') := by
  change (if a.FreshId s then _ else _) = _ at h
  split at h
  case isTrue hfresh =>
    refine ⟨hfresh, ?_⟩
    cases hrun : a.run env s with
    | error f =>
      rw [hrun] at h
      cases h
    | ok r =>
      rw [hrun] at h
      cases h
      exact ⟨r.1, rfl⟩
  · cases h

theorem ran_step (hs : Sound lost s) (h : (natives env).step a s = some s') :
    Ran env lost s a s' := by
  rcases step_eq_some h with ⟨hfresh, answer, hrun⟩
  exact (ran_run a hs hfresh).of_ok hrun

theorem step_of_run {answer : Answer} (hfresh : a.FreshId s)
    (hrun : a.run env s = .ok (answer, s')) : (natives env).step a s = some s' := by
  change (if a.FreshId s then _ else _) = _
  rw [if_pos hfresh, hrun]

theorem sound_of_reaches (h : Reaches (natives env) Allowed s) : exists lost, Sound lost s := by
  refine h.invariant (fun s => exists lost, Sound lost s) ⟨[], sound_init⟩ ?_
  rintro s a s' ⟨lost, hs⟩ _ hstep
  rcases (ran_step hs hstep).sound with ⟨lost', hs', _⟩
  exact ⟨lost', hs'⟩

theorem sound_of_distinct (hallowed : forall s a, Allowed s a -> a.repeatsKey env = false)
    (h : Reaches (natives env) Allowed s) : Sound [] s := by
  refine h.invariant (Sound []) sound_init ?_
  intro s a s' hs ha hstep
  rcases (ran_step hs hstep).sound with ⟨lost', hs', hlost⟩
  rw [hlost (hallowed s a ha)] at hs'
  exact hs'

end Async2.Ownership
