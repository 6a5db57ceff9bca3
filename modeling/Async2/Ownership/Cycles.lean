import Async2.Ownership.Counts

/-!
# Cycles

The natives that store a child reject the container itself, but not a container above it.
As long as no stored child leads back to its container, no node is below itself, every walk
over the nodes below a handle returns, and closing all handles frees all nodes.
-/

namespace Async2.Ownership

open RefCount.Heap TransitionSystem List Native State

/-- No text repeats a key, and a child is stored only in a container that cannot be reached
from it. -/
def AcyclicStep (env : Env) (s : State) (a : Native) : Prop :=
  a.repeatsKey env = false ∧ forall json slot child n val node,
    a = .setObject json slot child -> s.Distinct json child n val ->
    s.heap.read n = some node -> node.content.type = slot.type -> ¬ s.heap.Reach val n

section

variable {env : Env} {s : State} {a : Native} {h' : NodeHeap}

theorem Effect.acyclic (h1 : Effect s a h') (hacyclic : Acyclic s.heap)
    (hstep : AcyclicStep env s a) : Acyclic h' := by
  cases h1 with
  | quiet hquiet => exact hquiet.acyclic hacyclic
  | mutate hn hchanges | merge hn hn' hne hchanges =>
    exact hchanges.acyclic hacyclic fun _ hy => absurd hy not_mem_nil
  | @setObject json child slot n val _ hn hval hne hchanges =>
    by_cases hfits : exists node, s.heap.read n = some node ∧ node.content.type = slot.type
    · rcases hfits with ⟨node, hread, htype⟩
      refine hchanges.acyclic hacyclic fun y hy => ?_
      cases mem_singleton.mp hy
      exact hstep.right json slot child n val node rfl ⟨hn, hval, hne⟩ hread htype
    · -- The child is not stored in a node of another type.
      refine (hchanges.unwritten ?_).acyclic hacyclic
      intro b b' hb hW
      exact hfits ⟨b, hb, hW.type.left⟩

theorem acyclic_of_reaches (h : Reaches (natives env) (AcyclicStep env) s) :
    Sound [] s ∧ Acyclic s.heap := by
  have hempty : Acyclic init.heap := by
    intro x hcycle
    rcases Relation.TransGen.head'_iff.mp hcycle with ⟨y, hedge, _⟩
    cases hedge
  refine h.invariant (fun s => Sound [] s ∧ Acyclic s.heap) ⟨sound_init, hempty⟩ ?_
  rintro s a s' ⟨hs, hacyclic⟩ ha hstep
  have hran := ran_step hs hstep
  rcases hran.sound with ⟨lost', hs', hlost⟩
  rw [hlost ha.left] at hs'
  exact ⟨hs', hran.stepped.effect.acyclic hacyclic ha⟩

/-!
## Walks
-/

/-- Every walk over the nodes below a data handle returns. -/
def WalksReturn (env : Env) (s : State) : Prop :=
  forall json n, s.getDataHandle json = some n ->
    (exists r, copyNode n s.heap = some r) ∧
    (forall other n', s.getDataHandle other = some n' ->
      exists b, nodesEqual s.heap n n' = some b) ∧
    (exists bytes, msgPackSerialize s.heap n = some bytes) ∧
    exists size, estimateBytes env.layout s.heap.next s.heap n = some size

theorem walksReturn_of_acyclic {lost : List Nat} (hs : Sound lost s)
    (hacyclic : Acyclic s.heap) : WalksReturn env s := by
  have htree : forall json n, s.getDataHandle json = some n ->
      exists t, Denotes s.heap s.heap.next n t := fun json n hn =>
    exists_denotes hs.owned.exact (hs.owned.data_live hn) (hacyclic.acyclicFrom n)
  intro json n hn
  rcases htree json n hn with ⟨t, ht⟩
  refine ⟨?_, ?_, ⟨_, serializeNode_of_denotes ht⟩, exists_estimateBytes env.layout ht⟩
  · rcases copyNode_returns hs.owned.exact.inBounds ht (Nat.le_refl _) with ⟨c, h', hc, _⟩
    exact ⟨_, hc⟩
  · intro other n' hn'
    rcases htree other n' hn' with ⟨t', ht'⟩
    exact ⟨_, equals_of_denotes ht ht'⟩

/-!
## Closing everything
-/

def closeHandle : Int × Handle -> Native
  | (id, .json _) => .close id
  | (id, .iterator _) => .iterClose id

/-- Close all handles, and let the event thread give back what it has. -/
def State.closing (s : State) : List Native :=
  s.handles.entries.map closeHandle ++ s.sent.map .delivered

theorem run_closeHandle (env : Env) {id : Int} {hd : Handle} {rest : List (Int × Handle)}
    (hs : Sound [] s) (hentries : s.handles.entries = (id, hd) :: rest) :
    exists s', (natives env).step (closeHandle (id, hd)) s = some s' ∧ Sound [] s' ∧
      Quiet s.heap s'.heap ∧ s'.handles.entries = rest ∧ s'.sent = s.sent := by
  have hfind : s.handles.find id = some hd := by
    unfold Dict.find
    rw [hentries, AssocList.find, if_pos rfl]
  rcases handed_freeHandle id hs.owned with ⟨s1, hfree, hhanded, herase⟩
  have hrun : (closeHandle (id, hd)).run env s =
      .ok (.void, { s1 with epoch := countChanges s.heap s1.heap s.epoch }) := by
    cases hd with
    | json n =>
      simp only [closeHandle, run, call, withData, getDataHandle, hfind, hfree]
      rfl
    | iterator it =>
      simp only [closeHandle, run, call, getDataIterator, hfind, hfree]
      rfl
  have hfresh : (closeHandle (id, hd)).FreshId s := by
    cases hd with
    | json n | iterator it => exact freshId_of_none rfl
  have hstep := step_of_run hfresh hrun
  have hran := ran_step hs hstep
  rcases hran.sound with ⟨lost', hs', hlost⟩
  have hdistinct : (closeHandle (id, hd)).repeatsKey env = false := by
    cases hd <;> rfl
  rw [hlost hdistinct] at hs'
  refine ⟨_, hstep, hs', hhanded.quiet, ?_, hhanded.sent⟩
  change s1.handles.entries = rest
  rw [herase]
  change s.handles.entries.eraseP _ = rest
  rw [hentries, eraseP_cons_of_pos (by simp)]

theorem run_delivered (env : Env) {root : Nat} {rest : List Nat} (hs : Sound [] s)
    (hsent : s.sent = root :: rest) :
    exists s', (natives env).step (.delivered root) s = some s' ∧ Sound [] s' ∧
      Quiet s.heap s'.heap ∧ s'.handles = s.handles ∧ s'.sent = rest := by
  have hfresh : (delivered root).FreshId s := freshId_of_none rfl
  have hmem : root ∈ s.sent := by
    rw [hsent]
    exact mem_cons_self
  have hyields : Yields ((delivered root).run env s) _ _ :=
    ran_run (.delivered root) hs hfresh
  rcases hyields.returns fun _ hf => hf with ⟨⟨answer, s'⟩, hrun, hran⟩
  have hrest : s'.handles = s.handles ∧ s'.sent = s.sent.erase root := by
    rw [run, call, if_pos hmem] at hrun
    cases hrel : s.heap.release root with
    | none =>
      rw [hrel] at hrun
      cases hrun
    | some h' =>
      rw [hrel] at hrun
      cases hrun
      exact ⟨rfl, rfl⟩
  rcases hran.sound with ⟨lost', hs', hlost⟩
  rw [hlost rfl] at hs'
  refine ⟨s', step_of_run hfresh hrun, hs', ?_, hrest.left, ?_⟩
  · have heffect := hran.stepped.effect
    generalize s'.heap = h' at heffect
    cases heffect with
    | quiet hquiet => exact hquiet
  · rw [hrest.right, hsent, erase_cons_head]

theorem run_closeHandles (entries : List (Int × Handle)) (hs : Sound [] s)
    (hacyclic : Acyclic s.heap) (hentries : s.handles.entries = entries) :
    exists s', (natives env).run (entries.map closeHandle) s = some s' ∧ Sound [] s' ∧
      Acyclic s'.heap ∧ s'.handles.entries = [] ∧ s'.sent = s.sent := by
  induction entries generalizing s with
  | nil => exact ⟨s, rfl, hs, hacyclic, hentries, rfl⟩
  | cons e rest ih =>
    rcases run_closeHandle env hs hentries with ⟨s1, hstep, hs1, hquiet, hrest, hsent⟩
    rcases ih hs1 (hquiet.acyclic hacyclic) hrest with ⟨s', hrun, hs', hacyclic', hnil, hsent'⟩
    refine ⟨s', ?_, hs', hacyclic', hnil, hsent'.trans hsent⟩
    rw [map_cons, System.run, hstep]
    exact hrun

theorem run_deliverAll (env : Env) (roots : List Nat) (hs : Sound [] s) (hacyclic : Acyclic s.heap)
    (hsent : s.sent = roots) :
    exists s', (natives env).run (roots.map .delivered) s = some s' ∧ Sound [] s' ∧
      Acyclic s'.heap ∧ s'.handles = s.handles ∧ s'.sent = [] := by
  induction roots generalizing s with
  | nil => exact ⟨s, rfl, hs, hacyclic, rfl, hsent⟩
  | cons root rest ih =>
    rcases run_delivered env hs hsent with ⟨s1, hstep, hs1, hquiet, hhandles, hrest⟩
    rcases ih hs1 (hquiet.acyclic hacyclic) hrest with ⟨s', hrun, hs', hacyclic', hsame, hnil⟩
    refine ⟨s', ?_, hs', hacyclic', hsame.trans hhandles, hnil⟩
    rw [map_cons, System.run, hstep]
    exact hrun

theorem closing_frees (hs : Sound [] s) (hacyclic : Acyclic s.heap) :
    exists s', (natives env).run s.closing s = some s' ∧ forall x, s'.heap.cell x = none := by
  rcases run_closeHandles s.handles.entries hs hacyclic rfl
    with ⟨s1, hrun1, hs1, hacyclic1, hnil, hsent⟩
  rcases run_deliverAll env s.sent hs1 hacyclic1 hsent
    with ⟨s2, hrun2, hs2, hacyclic2, hhandles, hsent2⟩
  refine ⟨s2, ?_, ?_⟩
  · unfold closing
    rw [System.run_append _ _ _ hrun1]
    exact hrun2
  · have hcounted : Counted ([] ++ s2.refs) s2.heap := hs2.owned
    have hrefs : refs s2 = [] := by
      unfold refs Dict.values
      rw [hhandles, hnil, hsent2]
      rfl
    rw [hrefs] at hcounted
    exact hcounted.all_freed hacyclic2

/-- In every run in which no stored child leads back to its container, nothing is below
itself, the walks return, and closing all handles frees all nodes. -/
theorem acyclic_while_children_lead_away (env : Env) {s : State}
    (hreach : Reaches (natives env) (AcyclicStep env) s) :
    Acyclic s.heap ∧ WalksReturn env s ∧
      exists s', (natives env).run s.closing s = some s' ∧
        forall x, s'.heap.cell x = none := by
  rcases acyclic_of_reaches hreach with ⟨hs, hacyclic⟩
  exact ⟨hacyclic, walksReturn_of_acyclic hs hacyclic, closing_frees hs hacyclic⟩

end

def nested : List Native :=
  [Surface.jsonCreateObject 1, Surface.jsonCreateObject 2, Surface.jsonSetObject 1 [98] 2]

theorem acyclic_nested :
    exists s, (natives plainEnv).run nested .init = some s ∧ s.heap.held 0 = [1] ∧
      Acyclic s.heap ∧ WalksReturn plainEnv s ∧
      exists s', (natives plainEnv).run s.closing s = some s' ∧
        forall x, s'.heap.cell x = none := by
  refine ⟨_, rfl, rfl, acyclic_while_children_lead_away plainEnv
    (reaches_of_run nested .init ⟨⟨rfl, ?_⟩, ⟨rfl, ?_⟩, ⟨rfl, ?_⟩, trivial⟩ rfl)⟩
  · intro _ _ _ _ _ _ ha
    cases ha
  · intro _ _ _ _ _ _ ha
    cases ha
  · rintro json slot child n val node ha ⟨hn, hval, _⟩ _ _ hreach
    cases ha
    cases hn
    cases hval
    -- The child is empty.
    rcases Relation.ReflTransGen.cases_head hreach with heq | ⟨c, hedge, _⟩
    · cases heq
    · cases hedge

/-- A handle on the inner object and a second one on the outer object, which is then stored
in the inner one. -/
def outerInInner : List Native :=
  nested ++ [Surface.jsonGetObject 1 [98] 2, Surface.jsonRef 1 3,
    Surface.jsonSetObject 2 [120] 3]

/-- The outer object is below itself.  A copy of it and its MessagePack bytes have no end,
and it is not freed when all handles are closed. -/
theorem outerInInner_is_cyclic :
    exists s, (natives plainEnv).run outerInInner .init = some s ∧
      Relation.TransGen s.heap.Edge 0 0 ∧ (forall k t, ¬ Denotes s.heap k 0 t) ∧
      copyNode 0 s.heap = none ∧ msgPackSerialize s.heap 0 = none ∧
      exists s', (natives plainEnv).run s.closing s = some s' ∧ s'.refs = [] ∧
        s'.heap.refcountOf 0 = 1 ∧ s'.heap.refcountOf 1 = 1 := by
  have hcycle : forall s, (natives plainEnv).run outerInInner .init = some s ->
      Relation.TransGen s.heap.Edge 0 0 := by
    intro s hrun
    cases hrun
    exact .tail (.single List.mem_cons_self) List.mem_cons_self
  refine ⟨_, rfl, hcycle _ rfl, ?_, rfl, rfl, _, rfl, rfl, rfl, rfl⟩
  intro k t hd
  exact hd.not_cyclic (hcycle _ rfl)

end Async2.Ownership
