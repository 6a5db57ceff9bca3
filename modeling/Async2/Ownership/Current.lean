import Async2.Ownership.Counts
import Async2.Ownership.Opened
import Async2.Ownership.Rebinds

/-!
# The current value of an iterator

An iterator has a reference to its container, but none to the value that it is at.  The
value is in use as long as the container has it under the key of the last step, and the
accessors do not look at anything else.
-/

namespace Async2.Ownership

open RefCount.Heap AssocList TransitionSystem List Option

/-- The container of an iterator and the key of its last step. -/
def Handle.current : Handle -> Option (Nat × MapKey)
  | .json _ => none
  | .iterator it => it.key.map fun key => (it.node, key)

/-- The native rebinds or removes no key that an iterator is at. -/
def KeepsCurrent (s : State) (a : Native) : Prop :=
  forall e, e ∈ s.handles.entries -> forall c, c ∈ e.2.current -> c.2 ∉ a.rebinds s c.1

instance (s : State) (a : Native) : Decidable (KeepsCurrent s a) :=
  inferInstanceAs (Decidable (forall e, e ∈ s.handles.entries ->
    forall c, c ∈ e.2.current -> c.2 ∉ a.rebinds s c.1))

/-- An accessor reads the value of the last step, which is in use, or reports that there is
none. -/
def Native.ReadsCurrent (env : Env) (s : State) : Native -> Prop
  | .iterGet iter g =>
    match (s.getDataIterator iter).bind DataIterator.value with
    | none => (Native.iterGet iter g).run env s = .ok (g.default, s)
    | some v => exists node answer, s.heap.read v = some node ∧
        g.lenient node.content = .ok answer ∧
        (Native.iterGet iter g).run env s = .ok (answer, s)
  | .iterGetObject iter id =>
    match (s.getDataIterator iter).bind DataIterator.value with
    | none => (Native.iterGetObject iter id).run env s = .ok (.handle 0, s)
    | some v => exists node r, s.heap.read v = some node ∧
        (Native.iterGetObject iter id).run env s = .ok r
  | _ => True

/-- The container of an iterator still has the value under the key of the last step. -/
def HasCurrent (s : State) : Prop :=
  forall id it v, s.handles.find id = some (.iterator it) -> it.value = some v ->
    exists key node, it.key = some key ∧ s.heap.read it.node = some node ∧
      node.content.lookup key = some v

section

variable {env : Env} {lost : List Nat} {s s' : State} {a : Native} {c : Content} {iter : Int}
  {type : IteratorType}

theorem lookup_of_entries {es : List (MapKey × Nat)} (hes : type.entries c = .ok es)
    {e : MapKey × Nat} (he : e ∈ es) : c.lookup e.1 = some e.2 := by
  cases type with
  | object =>
    cases c with
    | object obj =>
      cases hes
      rcases mem_map.mp he with ⟨e0, he0, rfl⟩
      exact find_of_mem obj.distinct he0
    | _ => cases hes
  | intMap =>
    cases c with
    | intMap intmap =>
      cases hes
      rcases mem_map.mp he with ⟨e0, he0, rfl⟩
      exact find_of_mem intmap.distinct he0
    | _ => cases hes

theorem mem_children_of_lookup {key : MapKey} {v : Nat} (h : c.lookup key = some v) :
    v ∈ c.children := by
  cases key with
  | member key | intMember key =>
    rcases bind_eq_some_iff.mp h with ⟨m, hm, hfind⟩
    rw [children_of_get hm]
    exact Dict.mem_values_of_find hfind

theorem not_mem_rebinds_iterNext {n : Nat} (k : MapKey) :
    k ∉ (Native.iterNext iter type).rebinds s n := by
  unfold Native.rebinds
  cases s.heap.read n with
  | none | some node => exact not_mem_nil

theorem HasCurrent.step (hcur : HasCurrent s) (hs : Sound lost s) (hkeeps : KeepsCurrent s a)
    (hstep : (natives env).step a s = some s') : HasCurrent s' := by
  have hran := ran_step hs hstep
  rcases hran.sound with ⟨lost', hs', _⟩
  -- The container is in use in both states, since the handle is there in both.
  have hkept : forall n key node v, s.heap.read n = some node -> s'.heap.refcountOf n ≠ 0 ->
      node.content.lookup key = some v -> key ∉ a.rebinds s n ->
      exists node', s'.heap.read n = some node' ∧ node'.content.lookup key = some v := by
    intro n key node v hread hlive hlookup hnot
    rcases exists_read hlive with ⟨node', hread'⟩
    have hlt := lt_next_of_refcountOf (live_of_read hread)
    rcases lookup_of_step hs hstep hlt hread' with ⟨node0, hread0, hsame⟩
    rw [hread] at hread0
    cases hread0
    exact ⟨node', hread', hsame key v hlookup hnot⟩
  intro id it v hfind hvalue
  have hlive := hs'.owned.live hfind
  cases hran.stepped.handles id _ hfind with
  | old hold =>
    rcases hcur id it v hold hvalue with ⟨key, node, hkey, hread, hlookup⟩
    have hnot : key ∉ a.rebinds s it.node := by
      refine hkeeps (id, .iterator it) (mem_of_find hold) (it.node, key) ?_
      change it.key.map _ = some (it.node, key)
      rw [hkey]
      rfl
    rcases hkept it.node key node v hread hlive hlookup hnot with ⟨node', hread', hlookup'⟩
    exact ⟨key, node', hkey, hread', hlookup'⟩
  | created ha hn hit =>
    rcases create_eq_ok hit with ⟨_, _, _, rfl⟩
    cases hvalue
  | @moved type it0 it key ha hit hnext =>
    rcases next_eq_some hnext with ⟨node, es, val, hadv⟩
    have hmoved := hadv.moved
    subst hmoved
    cases hvalue
    have hlookup := lookup_of_entries hadv.entries (mem_of_getElem? hadv.entry)
    subst ha
    rcases hkept it0.node key node v hadv.read hlive hlookup
      (not_mem_rebinds_iterNext key) with ⟨node', hread', hlookup'⟩
    exact ⟨key, node', rfl, hread', hlookup'⟩

theorem hasCurrent_of_reaches (h : Reaches (natives env) KeepsCurrent s) :
    exists lost, Sound lost s ∧ HasCurrent s := by
  refine h.invariant (fun s => exists lost, Sound lost s ∧ HasCurrent s)
    ⟨[], sound_init, fun _ _ _ hfind => by cases hfind⟩ ?_
  rintro s a s' ⟨lost, hs, hcur⟩ hkeeps hstep
  rcases (ran_step hs hstep).sound with ⟨lost', hs', _⟩
  exact ⟨lost', hs', hcur.step hs hkeeps hstep⟩

theorem HasCurrent.live (hcur : HasCurrent s) (hs : Sound lost s) {v : Nat}
    (hvalue : (s.getDataIterator iter).bind DataIterator.value = some v) :
    exists node, s.heap.read v = some node := by
  rcases bind_eq_some_iff.mp hvalue with ⟨it, hit, hv⟩
  rcases hcur iter it v (find_of_getDataIterator hit) hv with ⟨key, node, _, hread, hlookup⟩
  apply exists_read
  apply hs.owned.exact.live_of_held (a := it.node)
  rw [held_of_read hread]
  exact mem_children_of_lookup hlookup

/-- In every run in which no key is rebound or removed while an iterator is at it, the
accessors read values that are in use. -/
theorem readsCurrent_of_reaches (h : Reaches (natives env) KeepsCurrent s)
    (hfresh : a.FreshId s) : a.ReadsCurrent env s := by
  rcases hasCurrent_of_reaches h with ⟨lost, hs, hcur⟩
  cases a with
  | iterGet iter g =>
    cases hvalue : (s.getDataIterator iter).bind DataIterator.value with
    | none =>
      simp only [Native.ReadsCurrent, hvalue]
      refine run_of_call ?_ rfl rfl
      simp only [Native.call, hvalue]
      rfl
    | some v =>
      rcases hcur.live hs hvalue with ⟨node, hread⟩
      rcases g.read_ok g.default node.content with ⟨answer, hanswer⟩
      simp only [Native.ReadsCurrent, hvalue]
      refine ⟨node, answer, hread, hanswer, run_of_call ?_ rfl rfl⟩
      simp only [Native.call, hvalue, contentAt_of_read hread]
      change (g.read g.default node.content >>= _) = _
      rw [hanswer]
      rfl
  | iterGetObject iter id =>
    cases hvalue : (s.getDataIterator iter).bind DataIterator.value with
    | none =>
      simp only [Native.ReadsCurrent, hvalue]
      refine run_of_call ?_ rfl rfl
      simp only [Native.call, hvalue]
      rfl
    | some v =>
      rcases hcur.live hs hvalue with ⟨node, hread⟩
      have hno : forall f, ¬ (Native.iterGetObject iter id).MayFault s f := by
        rintro f ⟨_, it, v', hit, hv', hfreed⟩
        rw [hit] at hvalue
        cases hv'.symm.trans hvalue
        rw [hread] at hfreed
        cases hfreed
      rcases (ran_run _ hs hfresh).returns hno with ⟨r, hr, _⟩
      simp only [Native.ReadsCurrent, hvalue]
      exact ⟨node, r, hread, hr⟩
  | _ => trivial

end

/-- An iterator over an object that is at its only key. -/
def atOnlyKey : List Native :=
  [Surface.jsonCreateObject 1, Surface.jsonSetInt 1 [97] 7, Surface.objectIterCreate 1 2,
    Surface.iterNext 2]

theorem readsCurrent_atOnlyKey :
    exists s, (natives plainEnv).run atOnlyKey .init = some s ∧
      (s.getDataIterator 2).bind DataIterator.value = some 1 ∧
      (Surface.iterGetInt 2).ReadsCurrent plainEnv s := by
  refine ⟨_, rfl, rfl, ?_⟩
  have hreach : Reaches (natives plainEnv) KeepsCurrent _ :=
    reaches_of_run atOnlyKey .init (by decide) rfl
  exact readsCurrent_of_reaches hreach (Native.freshId_of_none rfl)

/-- The key is removed, and its value is freed. -/
theorem removedKey_not_read :
    exists s,
      (natives plainEnv).run (atOnlyKey ++ [Surface.jsonRemoveKey 1 [97]]) .init = some s ∧
      (Surface.iterGetInt 2).run plainEnv s = .error .freed ∧
      ¬ (Surface.iterGetInt 2).ReadsCurrent plainEnv s := by
  refine ⟨_, rfl, rfl, ?_⟩
  rintro ⟨node, answer, hread, _⟩
  cases hread

end Async2.Ownership
