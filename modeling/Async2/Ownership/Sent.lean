import Async2.Json.RoundTrip
import Async2.Ownership.Counts
import Async2.Ownership.Faithful

/-!
# Copies for the event thread

A request body or a message is a deep copy of a tree, to which the event thread has the only
reference.  No handle leads to its nodes, so that no native changes them.
-/

namespace Async2.Ownership

open RefCount.Heap TransitionSystem List

/-!
## Addresses of values
-/

/-- The counts are exact, and the value of an iterator was a node at some time. -/
structure Consistent (lost : List Nat) (s : State) : Prop where
  sound : Sound lost s
  values : forall id it v, s.handles.find id = some (.iterator it) -> it.value = some v ->
    v < s.heap.next

section

variable {env : Env} {lost : List Nat} {s s' : State} {a : Native} {es : List (MapKey × Nat)}

theorem mem_children_of_entries {type : IteratorType} {c : Content}
    (hes : type.entries c = .ok es) {e : MapKey × Nat} (he : e ∈ es) : e.2 ∈ c.children := by
  cases type with
  | object =>
    cases c with
    | object obj =>
      cases hes
      rcases mem_map.mp he with ⟨e0, he0, rfl⟩
      exact mem_map_of_mem he0
    | _ => cases hes
  | intMap =>
    cases c with
    | intMap intmap =>
      cases hes
      rcases mem_map.mp he with ⟨e0, he0, rfl⟩
      exact mem_map_of_mem he0
    | _ => cases hes

theorem Advances.edge {it it' : DataIterator} {key : MapKey} {node : Node} {val : Nat}
    (h1 : Advances s it key it' node es val) : s.heap.Edge it.node val := by
  rw [edge_iff h1.read]
  exact mem_children_of_entries h1.entries (mem_of_getElem? h1.entry)

theorem Effect.next_le {h' : NodeHeap} (h1 : Effect s a h') : s.heap.next <= h'.next := by
  cases h1 with
  | quiet hquiet => exact (hquiet 0).next_le
  | mutate _ hchanges | setObject _ _ _ hchanges | merge _ _ _ hchanges => exact hchanges.next_le

theorem consistent_init : Consistent [] State.init where
  sound := sound_init
  values := fun _ _ _ hfind => by cases hfind

theorem Consistent.step (hs : Consistent lost s) (hstep : (natives env).step a s = some s') :
    exists lost', Consistent lost' s' := by
  have hran := ran_step hs.sound hstep
  rcases hran.sound with ⟨lost', hs', _⟩
  refine ⟨lost', hs', fun id it v hfind hvalue => ?_⟩
  refine Nat.lt_of_lt_of_le ?_ hran.stepped.effect.next_le
  cases hran.stepped.handles id _ hfind with
  | old hold => exact hs.values id it v hold hvalue
  | created ha hn hit =>
    rcases create_eq_ok hit with ⟨_, _, _, rfl⟩
    cases hvalue
  | moved ha hit hnext =>
    rcases next_eq_some hnext with ⟨_, _, val, hadv⟩
    have hmoved := hadv.moved
    subst hmoved
    cases hvalue
    exact hs.sound.owned.exact.inBounds _ _ hadv.edge

theorem consistent_of_reaches {Allowed : State -> Native -> Prop}
    (h : Reaches (natives env) Allowed s) : exists lost, Consistent lost s := by
  refine h.invariant (fun s => exists lost, Consistent lost s) ⟨[], consistent_init⟩ ?_
  rintro s a s' ⟨lost, hs⟩ _ hstep
  exact hs.step hstep

end

/-!
## Isolation
-/

/-- The nodes below `root` are as in `h0`, and nothing but the event thread leads to them. -/
structure Isolated (h0 : NodeHeap) (root : Nat) (s : State) : Prop where
  sent : root ∈ s.sent
  same : forall x, h0.Reach root x -> s.heap.read x = h0.read x
  outside : forall x y, ¬ h0.Reach root x -> s.heap.Edge x y -> ¬ h0.Reach root y
  handles : forall id hd, s.handles.find id = some hd -> ¬ h0.Reach root hd.node
  values : forall id it v, s.handles.find id = some (.iterator it) -> it.value = some v ->
    ¬ h0.Reach root v

section

variable {env : Env} {lost : List Nat} {s s' : State} {a : Native} {h0 h' : NodeHeap}
variable {root n : Nat} {added ext : List Nat} {W : Node -> Node -> Prop}

/-- Every native writes the node of a handle only, and stores the nodes of handles. -/
theorem Effect.by_handles {P : Nat -> Prop} (h1 : Effect s a h')
    (hP : forall id n, s.getDataHandle id = some n -> P n) (hnext : P s.heap.next) :
    exists (n : Nat) (added : List Nat) (W : Node -> Node -> Prop),
      P n ∧ (forall y, y ∈ added -> P y) ∧ Changes s.heap h' n added W := by
  have hnone : forall y, y ∈ ([] : List Nat) -> P y := fun y hy => absurd hy not_mem_nil
  cases h1 with
  | quiet hquiet => exact ⟨s.heap.next, [], _, hnext, hnone, hquiet s.heap.next⟩
  | mutate hn hchanges | merge hn _ _ hchanges => exact ⟨_, [], _, hP _ _ hn, hnone, hchanges⟩
  | setObject hn hval _ hchanges =>
    refine ⟨_, _, _, hP _ _ hn, fun y hy => ?_, hchanges⟩
    cases mem_singleton.mp hy
    exact hP _ _ hval

section

variable (h1 : Isolated h0 root s)
variable (hlive : forall x, h0.Reach root x -> exists node, h0.read x = some node)
include h1 hlive

/-- Isolated nodes are not freed, since the event thread has the reference to the root. -/
theorem Isolated.read_after
    (hchanges : Changes s.heap h' n added W) (hn : ¬ h0.Reach root n) (hexact : Exact ext h')
    (hroot : root ∈ ext) : forall x, h0.Reach root x -> h'.read x = h0.read x := by
  have hkept : forall x, h0.Reach root x -> h'.refcountOf x ≠ 0 -> h'.read x = h0.read x := by
    intro x hx hused
    rcases hlive x hx with ⟨node, hread⟩
    have hbefore : s.heap.read x = some node := (h1.same x hx).trans hread
    have hlt := lt_next_of_refcountOf (live_of_read hbefore)
    rcases exists_read hused with ⟨node', hread'⟩
    rcases hchanges.kept x node' hlt hread' with ⟨b, hb, rfl | ⟨rfl, _⟩⟩
    · rw [hbefore] at hb
      cases hb
      exact hread'.trans hread.symm
    · exact absurd hx hn
  intro x hx
  induction hx with
  | refl => exact hkept root .refl (hexact.live_of_mem hroot)
  | @tail y z hy hedge ih =>
    rcases hlive y hy with ⟨node, hread⟩
    have hedge' : h'.Edge y z := (edge_iff (ih.trans hread)).mpr ((edge_iff hread).mp hedge)
    have hused : h'.refcountOf y ≠ 0 := live_of_read (ih.trans hread)
    exact hkept z (hy.tail hedge) (hexact.live_of_reach hused (.single hedge'))

theorem Isolated.lt_next {x : Nat} (hx : h0.Reach root x) : x < s.heap.next := by
  rcases hlive x hx with ⟨node, hread⟩
  exact lt_next_of_refcountOf (live_of_read ((h1.same x hx).trans hread))

theorem Isolated.outside_after
    (hchanges : Changes s.heap h' n added W) (hadded : forall y, y ∈ added -> ¬ h0.Reach root y)
    (x y : Nat) (hx : ¬ h0.Reach root x) (hedge : h'.Edge x y) : ¬ h0.Reach root y := by
  rcases hchanges.closed h1.outside hadded x y (.inl hx) hedge with hy | hy
  · exact hy
  · intro hreach
    exact absurd (h1.lt_next hlive hreach) (Nat.not_lt.mpr hy)

/-- Nothing that a native can put a handle on is isolated. -/
theorem Isolated.not_sees {x : Nat} (hsees : s.Sees x) : ¬ h0.Reach root x := by
  cases hsees with
  | @below id hd _ hfind hreach =>
    have hstart := h1.handles id hd hfind
    induction hreach with
    | refl => exact hstart
    | tail _ hedge ih => exact h1.outside _ _ ih hedge
  | value hfind hvalue => exact h1.values _ _ _ hfind hvalue
  | fresh hx => exact fun hreach => absurd (h1.lt_next hlive hreach) (Nat.not_lt.mpr hx)

theorem Isolated.step (hs : Sound lost s) (hstep : (natives env).step a s = some s')
    (hkeeps : a ≠ .delivered root) : Isolated h0 root s' := by
  have hran := ran_step hs hstep
  rcases hran.sound with ⟨lost', hs', _⟩
  have hsent : root ∈ s'.sent := by
    have hafter := hran.stepped.sent
    generalize s'.sent = sent' at hafter
    cases hafter with
    | same => exact h1.sent
    | send hn hcopy => exact mem_cons_of_mem _ h1.sent
    | @delivered root' =>
      refine (mem_erase_of_ne ?_).mpr h1.sent
      rintro rfl
      exact hkeeps rfl
  have hhandle : forall id n, s.getDataHandle id = some n -> ¬ h0.Reach root n :=
    fun id n hn => h1.handles id _ (find_of_getDataHandle hn)
  have hnext : ¬ h0.Reach root s.heap.next :=
    fun hreach => absurd (h1.lt_next hlive hreach) (Nat.lt_irrefl _)
  rcases hran.stepped.effect.by_handles hhandle hnext with ⟨n, added, W, hn, hadded, hchanges⟩
  have hroot : root ∈ lost' ++ s'.refs :=
    mem_append_right lost' (mem_append_right _ hsent)
  constructor
  · exact hsent
  · exact h1.read_after hlive hchanges hn hs'.owned.exact hroot
  · exact h1.outside_after hlive hchanges hadded
  · intro id hd hfind
    cases hran.stepped.handles id hd hfind with
    | old hold => exact h1.handles id hd hold
    | json _ hsees => exact h1.not_sees hlive hsees
    | created _ hn hit =>
      rcases create_eq_ok hit with ⟨_, _, _, rfl⟩
      exact hhandle _ _ hn
    | @moved _ it _ _ _ hit hnext =>
      rcases next_eq_some hnext with ⟨_, _, _, hadv⟩
      have hmoved := hadv.moved
      subst hmoved
      exact h1.handles id (.iterator it) hit
  · intro id it v hfind hvalue
    cases hran.stepped.handles id _ hfind with
    | old hold => exact h1.values id it v hold hvalue
    | created _ hn hit =>
      rcases create_eq_ok hit with ⟨_, _, _, rfl⟩
      cases hvalue
    | moved _ hit hnext =>
      rcases next_eq_some hnext with ⟨_, _, _, hadv⟩
      have hmoved := hadv.moved
      subst hmoved
      cases hvalue
      exact h1.outside _ _ (h1.handles _ _ hit) hadv.edge

/-- A copy stays isolated in every run that does not deliver it. -/
theorem Isolated.run (hs : Sound lost s) (actions : List Native)
    (hkeeps : .delivered root ∉ actions) (hrun : (natives env).run actions s = some s') :
    Isolated h0 root s' := by
  induction actions generalizing s lost with
  | nil =>
    cases hrun
    exact h1
  | cons a rest ih =>
    rcases System.run_cons hrun with ⟨mid, hstep, hrun⟩
    rcases not_or.mp (mt mem_cons.mpr hkeeps) with ⟨hne, hrest⟩
    rcases (ran_step hs hstep).sound with ⟨lost', hs', _⟩
    exact ih (h1.step hlive hs hstep (Ne.symm hne)) hs' hrest hrun

theorem Isolated.handed (hhanded : Handed lost s s')
    (hhandles : forall id hd, s'.handles.find id = some hd -> s.handles.find id = some hd) :
    Isolated h0 root s' := by
  have hnext : ¬ h0.Reach root s.heap.next :=
    fun hreach => absurd (h1.lt_next hlive hreach) (Nat.lt_irrefl _)
  have hsent : root ∈ s'.sent := by
    rw [hhanded.sent]
    exact h1.sent
  have hroot : root ∈ lost ++ s'.refs :=
    mem_append_right lost (mem_append_right _ hsent)
  have hchanges := hhanded.quiet s.heap.next
  constructor
  · exact hsent
  · exact h1.read_after hlive hchanges hnext hhanded.owned.exact hroot
  · exact h1.outside_after hlive hchanges fun y hy => absurd hy not_mem_nil
  · exact fun id hd hfind => h1.handles id hd (hhandles id hd hfind)
  · exact fun id it v hfind => h1.values id it v (hhandles id _ hfind)

end

theorem isolated_copy {k : Nat} {t : DataNode} (hs : Consistent lost s)
    (h1 : Copied s.heap k h0 root t) :
    Isolated h0 root { s with heap := h0, sent := root :: s.sent } := by
  have hcounted : Counted (root :: (lost ++ s.refs)) h0 := h1.counted hs.sound.owned
  have hexact : Exact ([root] ++ (lost ++ s.refs)) h0 := hcounted.exact
  have hnew : forall x, h0.Reach root x -> s.heap.next <= x := fun x hreach =>
    h1.fresh.trans (h1.builds.reach_le h1.fresh hreach)
  have hold : forall x, x < s.heap.next -> ¬ h0.Reach root x := fun x hx hreach =>
    absurd (hnew x hreach) (Nat.not_le.mpr hx)
  constructor
  · exact mem_cons_self
  · exact fun _ _ => rfl
  · intro x y hx hedge hy
    by_cases hlt : x < s.heap.next
    · exact hold y (h1.builds.held_old hs.sound.owned.exact.inBounds hlt hedge) hy
    · rcases h1.builds.reached hs.sound.owned.exact hexact (Nat.le_of_not_lt hlt)
        (live_of_mem_held hedge) with ⟨r, hr, hreach⟩
      cases mem_singleton.mp hr
      exact hx hreach
  · exact fun id hd hfind => hold _ (lt_next_of_refcountOf (hs.sound.owned.live hfind))
  · exact fun id it v hfind hvalue => hold v (hs.values id it v hfind hvalue)

end

/-!
## The values that are sent
-/

/-- Two nodes serialize to the same JSON value and to the same MessagePack value: to the
texts of trees that differ in the order of map entries only. -/
def SameValues (h : NodeHeap) (n : Nat) (h' : NodeHeap) (root : Nat) : Prop :=
  exists t t' : DataNode, t.Reorders t' ∧
    (forall levels, Json.nodeValue levels t = Json.nodeValue levels t') ∧
    (forall pretty, dataSerializeJson h n pretty = some (Json.dataSerializeJson t pretty) ∧
      dataSerializeJson h' root pretty = some (Json.dataSerializeJson t' pretty)) ∧
    msgPackSerialize h n = some (MsgPack.serializeNode t) ∧
    msgPackSerialize h' root = some (MsgPack.serializeNode t')

/-- What is sent keeps the values of the handle until it is delivered, whatever is done in
the meantime. -/
def SentFaithfully (env : Env) (s : State) (json : Int) (n : Nat) : Prop :=
  exists root s1, (natives env).step (.send json) s = some s1 ∧ s1.sent = root :: s.sent ∧
    forall actions s2, .delivered root ∉ actions -> (natives env).run actions s1 = some s2 ->
      SameValues s.heap n s2.heap root

/-- The copy is equal to the node, it is separate from it, and so is what is sent. -/
def CopiesFaithfully (env : Env) (s : State) (n : Nat) : Prop :=
  (exists root h', copyNode n s.heap = some (root, h') ∧ nodesEqual h' root n = some true ∧
    Separated h' n root) ∧
    forall json, s.getDataHandle json = some n -> SentFaithfully env s json n

section

variable {env : Env} {lost : List Nat} {s : State} {h0 : NodeHeap} {n root : Nat}
variable {t : DataNode}

theorem sameValues_of_denotes {h h' : NodeHeap} (hd : Denotes h h.next n t)
    (hd' : Denotes h' h'.next root t) : SameValues h n h' root :=
  ⟨t, t, .same t, fun _ => rfl,
    fun pretty => ⟨dataSerializeJson_of_denotes pretty hd,
      dataSerializeJson_of_denotes pretty hd'⟩,
    serializeNode_of_denotes hd, serializeNode_of_denotes hd'⟩

theorem exists_step_send (env : Env) {json : Int} (hs : Consistent lost s)
    (hn : s.getDataHandle json = some n) (hcopy : copyNode n s.heap = some (root, h0))
    (hcopied : Copied s.heap s.heap.next h0 root t) :
    exists s1, (natives env).step (.send json) s = some s1 ∧ s1.sent = root :: s.sent ∧
      Isolated h0 root s1 := by
  have hmid : Owned lost { s with heap := h0, sent := root :: s.sent } := by
    refine Counted.perm (hcopied.counted hs.sound.owned) ?_
    refine perm_middle.symm.trans (List.Perm.append_left lost ?_)
    exact perm_middle.symm
  have hlive : forall x, h0.Reach root x -> exists node, h0.read x = some node :=
    fun x hreach => exists_read (hmid.exact.live_of_reach hcopied.inUse hreach)
  rcases handed_freeHandle json hmid with ⟨s1, hfree, hhanded, hhandles⟩
  have hkept : forall id hd, s1.handles.find id = some hd -> s.handles.find id = some hd := by
    intro id hd hfind
    rw [hhandles] at hfind
    exact find_of_erase hfind
  have hiso := (isolated_copy hs hcopied).handed hlive hhanded hkept
  have hrun : (Native.send json).run env s =
      .ok (.code 0, { s1 with epoch := countChanges s.heap s1.heap s.epoch }) := by
    simp only [Native.run, Native.call, State.withData, hn, hcopy, orFreed]
    change ((State.freeHandle _ json >>= _) >>= _) = _
    rw [hfree]
    rfl
  refine ⟨_, step_of_run (Native.freshId_of_none rfl) hrun, hhanded.sent, ?_⟩
  exact ⟨hiso.sent, hiso.same, hiso.outside, hiso.handles, hiso.values⟩

/-- A copy of an acyclic graph without NaN is faithful exactly if no string of the graph has
a zero byte. -/
theorem copiesFaithfully_iff (env : Env) {lost : List Nat} {s : State} {n : Nat}
    (hs : Consistent lost s) (hlive : s.heap.refcountOf n ≠ 0)
    (hacyclic : s.heap.AcyclicFrom n) (hnan : Below Content.NotNan s.heap n) :
    CopiesFaithfully env s n <-> Below Content.ZeroFree s.heap n := by
  have hexact := hs.sound.owned.exact
  rcases exists_denotes hexact hlive hacyclic with ⟨t, ht⟩
  rcases copyNode_returns hexact.inBounds ht (Nat.le_refl _) with ⟨root, h0, hcopy, hcopied⟩
  have hequal : nodesEqual h0 root n = some ((copied t).equals t) := by
    have ht' := ht.builds hcopied.builds hexact.inBounds (lt_next_of_refcountOf hlive)
    exact equals_of_denotes (hcopied.denotes.mono hcopied.builds.next_le) ht'
  constructor
  · rintro ⟨⟨root', h', hcopy', hequal', _⟩, _⟩
    rw [hcopy] at hcopy'
    cases hcopy'
    rw [hequal] at hequal'
    exact (equals_copied_iff ht hnan).mp (Option.some.inj hequal')
  · intro hzero
    refine ⟨⟨root, h0, hcopy, ?_, hcopied.separated hs.sound.owned hlive⟩, ?_⟩
    · rw [hequal, (equals_copied_iff ht hnan).mpr hzero]
    · intro json hn
      rcases exists_step_send env hs hn hcopy hcopied with ⟨s1, hstep, hsent, hiso⟩
      refine ⟨root, s1, hstep, hsent, fun actions s2 hkeeps hrun => ?_⟩
      have hread : forall x, h0.Reach root x -> exists node, h0.read x = some node :=
        fun x hreach => exists_read
          ((hcopied.counted hs.sound.owned).exact.live_of_reach hcopied.inUse hreach)
      rcases (ran_step hs.sound hstep).sound with ⟨lost1, hs1, _⟩
      have hiso2 := hiso.run hread hs1 actions hkeeps hrun
      have hd := hcopied.denotes
      rw [copied_eq ht hzero] at hd
      have hd2 : Denotes s2.heap s.heap.next root t := by
        refine hd.transfer (P := fun x => h0.Reach root x) ?_ .refl
        intro x node hx hnode
        refine ⟨(hiso2.same x hx).trans hnode, fun y hy => hx.tail ?_⟩
        exact (edge_iff hnode).mpr hy
      have hle : s.heap.next <= s2.heap.next :=
        hcopied.fresh.trans (Nat.le_of_lt (hiso2.lt_next hread .refl))
      exact sameValues_of_denotes ht (hd2.mono hle)

end

def arrayOfString : List Native :=
  [Surface.jsonCreateArray 1, Surface.jsonArrayAppendString 1 [98]]

theorem copiesFaithfully_arrayOfString :
    exists s, (natives plainEnv).run arrayOfString .init = some s ∧
      s.getDataHandle 1 = some 0 ∧ s.heap.held 0 = [1] ∧ CopiesFaithfully plainEnv s 0 := by
  refine ⟨_, rfl, rfl, rfl, ?_⟩
  have hreach : Reaches (natives plainEnv) (fun _ _ => True) _ :=
    reaches_of_run arrayOfString .init (by decide) rfl
  rcases consistent_of_reaches hreach with ⟨lost, hs⟩
  have hbelow : forall (h : NodeHeap) (P : Content -> Prop),
      h.read 0 = some ⟨0, .array [1]⟩ -> h.read 1 = some ⟨0, .string [98]⟩ ->
      P (.array [1]) -> P (.string [98]) -> Below P h 0 := by
    intro h P hread0 hread1 harray hstring
    refine (below_iff hread0).mpr ⟨harray, fun x hx => ?_⟩
    cases List.mem_singleton.mp hx
    exact (below_iff hread1).mpr ⟨hstring, fun y hy => absurd hy List.not_mem_nil⟩
  refine (copiesFaithfully_iff plainEnv hs (by decide) ?_ (hbelow _ _ rfl rfl ?_ ?_)).mpr
    (hbelow _ _ rfl rfl ?_ ?_)
  · apply Denotes.acyclicFrom (k := 2) (t := .array [.string [98]])
    exact ⟨_, rfl, .array (.cons ⟨_, rfl, .string _⟩ .nil)⟩
  · exact fun _ hc => Content.noConfusion hc
  · exact fun _ hc => Content.noConfusion hc
  · exact fun _ hc => Content.noConfusion hc
  · intro _ hc
    cases hc
    decide

/-- A MessagePack string with a zero byte. -/
def zeroInString : List Native := [Surface.msgPackParseBuffer 10 [163, 97, 0, 98] 1]

/-- The copy of the string ends at its zero byte. -/
theorem zeroInString_not_copied :
    exists s, (natives plainEnv).run zeroInString .init = some s ∧
      s.getDataHandle 1 = some 0 ∧ s.heap.read 0 = some ⟨0, .string [97, 0, 98]⟩ ∧
      (exists root h', copyNode 0 s.heap = some (root, h') ∧
        h'.read root = some ⟨0, .string [97]⟩ ∧ nodesEqual h' root 0 = some false) ∧
      ¬ CopiesFaithfully plainEnv s 0 := by
  refine ⟨_, rfl, rfl, rfl, ⟨_, _, rfl, rfl, rfl⟩, ?_⟩
  rintro ⟨⟨root, h', hcopy, hequal, _⟩, _⟩
  cases hcopy
  cases hequal

end Async2.Ownership
