import Async2.Ownership.Counts

/-!
# Tags and members

Every native looks at the tag of a node before it uses a member of the union, but for
`ArrayAppendObject`, which uses the vector of any node.  A mutator that is called on a node
of another type changes the value of no node.
-/

namespace Async2.Ownership

open RefCount.Heap TransitionSystem Native

/-- A child is appended to a node that is not an array. -/
def Native.AppendsToOther (a : Native) (s : State) : Prop :=
  exists json child n val node, a = .setObject json .append child ∧
    s.Distinct json child n val ∧ s.heap.read n = some node ∧ node.content.type ≠ .array

/-- The node of a data handle has another type. -/
def State.HasOtherType (s : State) (json : Int) (type : DataType) : Prop :=
  exists n node, s.getDataHandle json = some n ∧ s.heap.read n = some node ∧
    node.content.type ≠ type

/-- A mutator is called on a node of another type than the one it is for. -/
def Native.Misapplied (s : State) : Native -> Prop
  | .mutate json m => s.HasOtherType json m.type
  | .setObject json slot _ => s.HasOtherType json slot.type
  | .merge json m other => s.HasOtherType json m.type ∨ s.HasOtherType other m.type
  | _ => False

/-- The native returns, and every node that is still there has the value that it had. -/
def Native.KeepsValues (env : Env) (s : State) (a : Native) : Prop :=
  exists answer s', a.run env s = .ok (answer, s') ∧
    forall x node, x < s.heap.next -> s'.heap.read x = some node -> s.heap.read x = some node

/-- The members are used under their tags, and a mutator leaves a node of another type
alone. -/
def Native.RespectsTags (env : Env) (s : State) (a : Native) : Prop :=
  a.run env s ≠ .error .member ∧ (a.Misapplied s -> a.KeepsValues env s)

section

variable {env : Env} {lost : List Nat} {s : State} {a : Native} {c : Content} {n' : Nat}

theorem Source.not_member (source : Source) : ¬ source.MayFault .member := by
  cases source with
  | hjson data | msgPack maxElements data => exact fun hf => nomatch hf
  | _ => exact fun hf => hf

theorem appendsToOther_of_member (h : a.MayFault s .member) : a.AppendsToOther s := by
  cases a with
  | make source id => exact absurd h source.not_member
  | setObject json slot child =>
    rcases h with ⟨_, rfl, n, val, node, hdistinct, hread, htype⟩
    exact ⟨json, child, n, val, node, rfl, hdistinct, hread, htype⟩
  | query json q => cases h.right.left
  | equals json other =>
    rcases h with h | h
    · cases h.left
    · cases h.left
  | copy json id | send json | merge json m other | iterNext iter type | iterGet iter g
  | iterGetObject iter id => cases h.left
  | _ => exact h.elim

theorem member_of_appendsToOther (h : a.AppendsToOther s) (hs : Sound lost s) :
    a.run env s = .error .member := by
  rcases h with ⟨json, child, n, val, node, rfl, ⟨hn, hval, hne⟩, hread, htype⟩
  rcases Counted.incref hs.owned (hs.owned.data_live hval) with ⟨h', hinc, _⟩
  have hread' : h'.read n = some node := by
    rw [read_incref hinc]
    exact hread
  have harr : node.content.getArr = .error .member := by
    cases hc : node.content with
    | array arr =>
      rw [hc] at htype
      exact absurd rfl htype
    | _ => rfl
  have hpush : pushBack h' n val = .error .member := by
    unfold pushBack
    rw [hread']
    change (node.content.getArr >>= _) = _
    rw [harr]
    rfl
  have hcall : (setObject json .append child).call env s = .error .member := by
    simp only [call, State.withData, hn, hval, if_neg hne, hinc, Slot.store]
    change (pushBack h' n val >>= _) = _
    rw [hpush]
    rfl
  unfold run
  rw [hcall]
  rfl

theorem Effect.quiet_of_misapplied {h' : NodeHeap} (h1 : Effect s a h') (hmis : a.Misapplied s)
    (hmerge : forall json m other n n', a = .merge json m other ->
      s.Distinct json other n n' -> h' = s.heap) :
    Quiet s.heap h' := by
  cases h1 with
  | quiet hquiet => exact hquiet
  | mutate hn hchanges | setObject hn hval hne hchanges =>
    rcases hmis with ⟨n, node, hn', hread, htype⟩
    rw [hn] at hn'
    cases hn'
    refine hchanges.unwritten fun b b' hb hW => ?_
    rw [hread] at hb
    cases hb
    exact htype hW.type.left
  | merge hn hn' hne hchanges =>
    rw [hmerge _ _ _ _ _ rfl ⟨hn, hn', hne⟩]
    exact Quiet.refl _

theorem objects_get_none (h : c.type ≠ .object) : objects.get c = none := by
  cases c with
  | object obj => exact absurd rfl h
  | _ => rfl

theorem intMaps_get_none (h : c.type ≠ .intMap) : intMaps.get c = none := by
  cases c with
  | intMap intmap => exact absurd rfl h
  | _ => rfl

theorem merger_other {h : NodeHeap} {n : Nat} {node node' : Node} (m : Merger)
    (hread : h.read n = some node) (hread' : h.read n' = some node')
    (htype : node.content.type ≠ m.type ∨ node'.content.type ≠ m.type) : m.run h n n' = .ok h := by
  cases m with
  | object overwrite =>
    have hmerge : mapMerge objects h n n' overwrite = some h :=
      mapMerge_other hread hread' (htype.imp objects_get_none objects_get_none)
    change orFreed (mapMerge objects h n n' overwrite) = _
    rw [hmerge]
    rfl
  | intMap overwrite =>
    have hmerge : mapMerge intMaps h n n' overwrite = some h :=
      mapMerge_other hread hread' (htype.imp intMaps_get_none intMaps_get_none)
    change orFreed (mapMerge intMaps h n n' overwrite) = _
    rw [hmerge]
    rfl
  | extend =>
    have hextend : arrExtend h n n' = some h := by
      unfold arrExtend
      simp only [hread, hread', some_bind]
      split
      case h_1 arr arr' harr harr' =>
        rcases htype with htype | htype
        · rw [harr] at htype
          exact absurd rfl htype
        · rw [harr'] at htype
          exact absurd rfl htype
      · rfl
    change orFreed (arrExtend h n n') = _
    rw [hextend]
    rfl

theorem merge_misapplied {json other : Int} {m : Merger} {n : Nat} (env : Env)
    (hmis : (merge json m other).Misapplied s) (hs : Sound lost s)
    (hdistinct : s.Distinct json other n n') :
    exists s', (merge json m other).run env s = .ok (.void, s') ∧ s'.heap = s.heap := by
  rcases hdistinct with ⟨hn, hn', hne⟩
  rcases exists_read (hs.owned.data_live hn) with ⟨node, hread⟩
  rcases exists_read (hs.owned.data_live hn') with ⟨node', hread'⟩
  have hother : forall {id : Int} {k : Nat} {b : Node}, s.getDataHandle id = some k ->
      s.heap.read k = some b -> s.HasOtherType id m.type -> b.content.type ≠ m.type := by
    rintro id k b hk hb ⟨k', b', hk', hb', htype'⟩
    rw [hk] at hk'
    cases hk'
    rw [hb] at hb'
    cases hb'
    exact htype'
  have hrun := merger_other m hread hread' (hmis.imp (hother hn hread) (hother hn' hread'))
  refine ⟨{ s with epoch := countChanges s.heap s.heap s.epoch }, ?_, rfl⟩
  simp only [run, call, State.withData, hn, hn', if_neg hne, hrun]
  rfl

theorem Native.Misapplied.not_mayFault (env : Env) (hmis : a.Misapplied s) (hs : Sound lost s)
    (hother : ¬ a.AppendsToOther s) (f : Fault) : a.run env s ≠ .error f ∨ ¬ a.MayFault s f := by
  cases a with
  | merge json m other =>
    refine or_iff_not_imp_right.mpr fun hmay herror => ?_
    rcases not_not.mp hmay with ⟨_, n, n', hdistinct, _⟩
    rcases merge_misapplied env hmis hs hdistinct with ⟨s', hrun, _⟩
    rw [hrun] at herror
    cases herror
  | setObject json slot child =>
    right
    rintro ⟨_, rfl, n, val, node, hdistinct, hread, htype⟩
    exact hother ⟨json, child, n, val, node, rfl, hdistinct, hread, htype⟩
  | mutate json m => exact .inr fun hmay => hmay
  | _ => exact hmis.elim

theorem Native.Misapplied.keepsValues (env : Env) (hmis : a.Misapplied s) (hs : Sound lost s)
    (hfresh : a.FreshId s) (hother : ¬ a.AppendsToOther s) : a.KeepsValues env s := by
  have hyields : Yields (a.run env s) (a.MayFault s) fun r => Ran env lost s a r.2 :=
    ran_run a hs hfresh
  cases hrun : a.run env s with
  | error f =>
    rcases hmis.not_mayFault env hs hother f with hno | hno
    · exact absurd hrun hno
    · exact absurd (hyields.of_error hrun) hno
  | ok r =>
    rcases r with ⟨answer, s'⟩
    have hran : Ran env lost s a s' := hyields.of_ok hrun
    refine ⟨answer, s', hrun, fun x node hx hread => ?_⟩
    refine (hran.stepped.effect.quiet_of_misapplied hmis ?_).read_eq hx hread
    rintro json m other n n' rfl hdistinct
    rcases merge_misapplied env hmis hs hdistinct with ⟨s'', hrun', hsame⟩
    rw [hrun] at hrun'
    cases hrun'
    exact hsame

/-- In every reachable state a native respects the tags, unless it appends a child to a
node that is not an array. -/
theorem respectsTags_iff (env : Env) {s : State} {a : Native}
    (hreach : Reaches (natives env) (fun _ _ => True) s) (hfresh : a.FreshId s) :
    a.RespectsTags env s <-> ¬ a.AppendsToOther s := by
  rcases sound_of_reaches hreach with ⟨lost, hs⟩
  constructor
  · rintro ⟨hmember, _⟩ hother
    exact hmember (member_of_appendsToOther hother hs)
  · intro hother
    have hyields : Yields (a.run env s) (a.MayFault s) fun r => Ran env lost s a r.2 :=
      ran_run a hs hfresh
    refine ⟨fun hmember => ?_, fun hmis => hmis.keepsValues env hs hfresh hother⟩
    exact hother (appendsToOther_of_member (hyields.of_error hmember))

end

/-- A string is set in an array. -/
theorem respectsTags_array :
    exists s, (natives plainEnv).run [Surface.jsonCreateArray 1] .init = some s ∧
      (Surface.jsonSetString 1 [97] [98]).Misapplied s ∧
      (Surface.jsonSetString 1 [97] [98]).RespectsTags plainEnv s := by
  refine ⟨_, rfl, ⟨0, _, rfl, rfl, ?_⟩, (respectsTags_iff plainEnv
    (reaches_of_run [Surface.jsonCreateArray 1] .init (by decide) rfl) ?_).mpr ?_⟩
  · intro htype
    cases htype
  · decide
  · rintro ⟨json, child, n, val, node, ha, _⟩
    cases ha

/-- `ArrayAppendObject` on an object uses the vector of its map. -/
theorem appendObject_to_object :
    exists s, (natives plainEnv).run
        [Surface.jsonCreateObject 1, Surface.jsonCreateObject 2] .init = some s ∧
      (Surface.jsonArrayAppendObject 1 2).FreshId s ∧
      (Surface.jsonArrayAppendObject 1 2).run plainEnv s = .error .member ∧
      ¬ (Surface.jsonArrayAppendObject 1 2).RespectsTags plainEnv s :=
  ⟨_, rfl, by decide, rfl, fun h => h.left rfl⟩

end Async2.Ownership
