import Async2.Ownership.Runs

/-!
# Open iterators

The handle of an iterator stays until it is closed or freed: the natives on data look at
data handles, and a new handle gets an unused id.
-/

namespace Async2.Ownership

open Native

def Native.closes (id : Int) : Native -> Bool
  | .iterClose iter => iter = id
  | .free id' => id' = id
  | _ => false

variable {env : Env} {lost : List Nat} {s s' : State} {a : Native} {id : Int} {it : DataIterator}

def State.Open (s : State) (id : Int) : Prop := (s.handles.find id).isSome = true

variable {answer : Answer} {json : Int} {type : IteratorType}

theorem open_createHandle (hopen : s.Open id) (hd : Handle) (id' : Int) :
    Yields (s.createHandle hd id') (fun _ => True) fun r => r.2.Open id := by
  unfold State.createHandle
  split
  · exact (yields_any _).bind fun _ _ => hopen
  change ((s.handles.insert id' hd).find id).isSome = true
  rw [Dict.find_insert]
  split
  · rfl
  · exact hopen

theorem open_freeHandle (hopen : s.Open id) {id' : Int} (hne : id ≠ id') :
    Yields (s.freeHandle id') (fun _ => True) fun s' => s'.Open id := by
  unfold State.freeHandle
  split
  · exact hopen
  refine (yields_any _).bind fun h _ => ?_
  change ((s.handles.erase id').find id).isSome = true
  rw [Dict.find_erase, if_neg (Ne.symm hne)]
  exact hopen

theorem open_withData (hopen : s.Open id) {invalid : Answer} {f : Nat -> Run (Answer × State)}
    (hf : forall n, s.getDataHandle json = some n ->
      Yields (f n) (fun _ => True) fun r => r.2.Open id) :
    Yields (s.withData json invalid f) (fun _ => True) fun r => r.2.Open id :=
  yields_withData hopen hf

theorem ne_of_iterator (hfind : s.handles.find id = some (.iterator it)) {n : Nat}
    (hn : s.getDataHandle json = some n) : id ≠ json := by
  rintro rfl
  rw [find_of_getDataHandle hn] at hfind
  cases hfind

theorem open_call (a : Native) (hfind : s.handles.find id = some (.iterator it))
    (hcloses : a.closes id = false) :
    Yields (a.call env s) (fun _ => True) fun r => r.2.Open id := by
  have hopen : s.Open id := by
    unfold State.Open
    rw [hfind]
    rfl
  -- The handles of a state do not depend on its heap.
  have hheap : forall h : NodeHeap, State.Open { s with heap := h } id := fun _ => hopen
  cases a with
  | make source id' =>
    refine (yields_any _).bind ?_
    rintro ⟨root, h⟩ _
    cases root with
    | none => exact hopen
    | some root => exact open_createHandle (hheap h) _ id'
  | query json q => exact open_withData hopen fun n _ => (yields_any _).bind fun _ _ => hopen
  | equals json other =>
    exact open_withData hopen fun n _ => open_withData hopen fun n' _ =>
      (yields_any _).bind fun _ _ => hopen
  | wrap json at_ filter id' =>
    refine open_withData hopen fun n _ => (yields_any _).bind fun r _ => ?_
    cases r with
    | none => exact hopen
    | some val =>
      refine (yields_any (contentAt s.heap val)).bind fun c _ => ?_
      split
      · exact (yields_any _).bind fun h _ => open_createHandle (hheap h) _ id'
      · exact hopen
  | copy json id' =>
    refine open_withData hopen fun n _ => (yields_any _).bind ?_
    rintro ⟨root, h⟩ _
    exact open_createHandle (hheap h) _ id'
  | mutate json m =>
    refine open_withData hopen fun n _ => (yields_any _).bind ?_
    exact fun _ _ => hopen
  | setObject json slot child =>
    refine open_withData hopen fun n _ => open_withData hopen fun val hval => ?_
    split
    · exact hopen
    refine (yields_any _).bind fun h _ => (yields_any _).bind fun h' _ => ?_
    refine (open_freeHandle (hheap h') (ne_of_iterator hfind hval)).bind fun s' hs' => ?_
    exact hs'
  | merge json m other =>
    refine open_withData hopen fun n _ => open_withData hopen fun n' _ => ?_
    split
    · exact hopen
    · exact (yields_any _).bind fun _ _ => hopen
  | close json =>
    refine open_withData hopen fun n hn => ?_
    exact (open_freeHandle hopen (ne_of_iterator hfind hn)).bind fun _ hs' => hs'
  | iterCreate json type id' =>
    refine open_withData hopen fun n _ => (yields_any _).bind fun c _ => ?_
    split
    · exact hopen
    refine (yields_any _).bind fun it' _ => (yields_any _).bind fun h _ => ?_
    exact open_createHandle (hheap h) _ id'
  | iterNext iter type =>
    simp only [call]
    cases s.getDataIterator iter with
    | none => exact hopen
    | some it0 =>
      dsimp only
      split
      · exact hopen
      refine (yields_any _).bind fun r _ => ?_
      cases r with
      | none => exact hopen
      | some r =>
        rcases r with ⟨key, it'⟩
        change ((s.handles.insert iter (.iterator it')).find id).isSome = true
        rw [Dict.find_insert]
        split
        · rfl
        · exact hopen
  | iterGet iter g =>
    refine yields_value (F := fun _ => True) hopen (fun _ => trivial) fun it0 v node _ _ _ => ?_
    exact (yields_any _).bind fun _ _ => hopen
  | iterGetObject iter id' =>
    refine yields_value (F := fun _ => True) hopen (fun _ => trivial) fun it0 v node _ _ _ => ?_
    split
    · exact (yields_any _).bind fun h _ => open_createHandle (hheap h) _ id'
    · exact hopen
  | iterClose iter =>
    have hne : id ≠ iter := fun heq => by
      simp [closes, heq] at hcloses
    simp only [call]
    cases s.getDataIterator iter with
    | none => exact hopen
    | some it0 => exact (open_freeHandle hopen hne).bind fun _ hs' => hs'
  | send json =>
    refine open_withData hopen fun n hn => (yields_any _).bind ?_
    rintro ⟨root, h⟩ _
    refine (open_freeHandle (s := { s with heap := h, sent := root :: s.sent }) hopen
      (ne_of_iterator hfind hn)).bind fun _ hs' => hs'
  | free id' =>
    have hne : id ≠ id' := fun heq => by
      simp [closes, heq] at hcloses
    exact (open_freeHandle hopen hne).bind fun _ hs' => hs'
  | delivered root =>
    change Yields (if root ∈ s.sent then _ else _) _ _
    split
    · exact (yields_any _).bind fun _ _ => hopen
    · exact hopen

/-!
## A step of the iterator
-/

theorem getDataIterator_of_find (hfind : s.handles.find id = some (.iterator it)) :
    s.getDataIterator id = some it := by
  unfold State.getDataIterator
  rw [hfind]

theorem getDataIterator_insert (s : State) (id : Int) (it : DataIterator) :
    ({ s with handles := s.handles.insert id (.iterator it) } : State).getDataIterator id =
      some it := by
  apply getDataIterator_of_find
  change (s.handles.insert id (.iterator it)).find id = _
  rw [Dict.find_insert, if_pos rfl]

theorem countChanges_self (h : NodeHeap) (epoch : Nat -> Nat) : countChanges h h epoch = epoch := by
  funext n
  exact if_pos rfl

theorem run_of_call (h : a.call env s = .ok (answer, s')) (hheap : s'.heap = s.heap)
    (hepoch : s'.epoch = s.epoch) : a.run env s = .ok (answer, s') := by
  unfold run
  rw [h]
  change Except.ok (answer, { s' with epoch := countChanges s.heap s'.heap s.epoch }) = _
  rw [hheap, countChanges_self, ← hepoch, ← hheap]

section

variable (hfind : s.handles.find id = some (.iterator it))
include hfind

theorem run_iterNext_other (htype : it.type ≠ type) :
    (iterNext id type).run env s = .ok (.flag false, s) := by
  refine run_of_call ?_ rfl rfl
  simp only [call, getDataIterator_of_find hfind, if_pos htype]
  rfl

theorem run_iterNext_none (hnext : it.next s = .ok none) :
    (iterNext id it.type).run env s = .ok (.flag false, s) := by
  refine run_of_call ?_ rfl rfl
  simp only [call, getDataIterator_of_find hfind, ne_eq, not_true_eq_false, if_false, hnext]
  rfl

theorem run_iterNext_some {key : MapKey} {it' : DataIterator}
    (hnext : it.next s = .ok (some (key, it'))) :
    (iterNext id it.type).run env s =
      .ok (.key key, { s with handles := s.handles.insert id (.iterator it') }) := by
  refine run_of_call ?_ rfl rfl
  simp only [call, getDataIterator_of_find hfind, ne_eq, not_true_eq_false, if_false, hnext]
  rfl

end

/-- What a step leaves of an open iterator. -/
inductive Stays (id : Int) (it : DataIterator) (s : State) (a : Native) : DataIterator -> Prop
  | same (h : a = .iterNext id it.type -> it.next s = .ok none) : Stays id it s a it
  | moved {key : MapKey} {it' : DataIterator} (ha : a = .iterNext id it.type)
      (hnext : it.next s = .ok (some (key, it'))) : Stays id it s a it'

theorem stays_iterNext (hfind : s.handles.find id = some (.iterator it))
    (hrun : (iterNext id type).run env s = .ok (answer, s')) :
    exists it', s'.handles.find id = some (.iterator it') ∧
      Stays id it s (.iterNext id type) it' := by
  by_cases htype : it.type = type
  · subst htype
    cases hnext : it.next s with
    | error f =>
      unfold run at hrun
      simp only [call, getDataIterator_of_find hfind, ne_eq, not_true_eq_false,
        if_false, hnext] at hrun
      cases hrun
    | ok r =>
      cases r with
      | none =>
        rw [run_iterNext_none hfind hnext] at hrun
        cases hrun
        exact ⟨it, hfind, .same fun _ => hnext⟩
      | some r =>
        rcases r with ⟨key, it'⟩
        rw [run_iterNext_some hfind hnext] at hrun
        cases hrun
        exact ⟨it', find_of_getDataIterator (getDataIterator_insert s id it'), .moved rfl hnext⟩
  · rw [run_iterNext_other hfind htype] at hrun
    cases hrun
    refine ⟨it, hfind, .same fun heq => ?_⟩
    cases heq
    exact absurd rfl htype

theorem stays_of_step (hs : Sound lost s) (hstep : (natives env).step a s = some s')
    (hfind : s.handles.find id = some (.iterator it)) (hcloses : a.closes id = false) :
    exists it', s'.handles.find id = some (.iterator it') ∧ Stays id it s a it' := by
  rcases step_eq_some hstep with ⟨hfresh, answer, hrun⟩
  have hopen : s'.Open id := by
    have hyields : Yields (a.run env s) (fun _ => True) fun r => r.2.Open id :=
      (open_call a hfind hcloses).bind fun r hr => hr
    exact hyields.of_ok hrun
  have hnew : a.newId ≠ some id := by
    intro hid
    rw [hfresh id hid] at hfind
    cases hfind
  rcases Option.isSome_iff_exists.mp hopen with ⟨hd, hfind'⟩
  by_cases hself : exists type, a = .iterNext id type
  · rcases hself with ⟨type, rfl⟩
    exact stays_iterNext hfind hrun
  · cases (ran_step hs hstep).stepped.handles id hd hfind' with
    | old hold =>
      rw [hfind] at hold
      cases hold
      exact ⟨it, hfind', .same fun ha => absurd ⟨it.type, ha⟩ hself⟩
    | json hid hsees => exact absurd hid hnew
    | created ha hn hit =>
      subst ha
      exact absurd rfl hnew
    | @moved type it0 it' key ha hit hnext => exact absurd ⟨type, ha⟩ hself

end Async2.Ownership
