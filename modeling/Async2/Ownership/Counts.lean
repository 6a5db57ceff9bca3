import Async2.Ownership.Runs
import Async2.Ownership.Surface

/-!
# Reference counts

As long as no text repeats a key, the count of every node is the number of data handles on
it, of iterators over it and of slots that hold it, and a node is freed exactly if this
number is zero.  The natives that make, share, store and release nodes all return, unless
they copy from a cycle.
-/

namespace Async2.Ownership

open TransitionSystem List

def State.dataHandlesOn (s : State) (n : Nat) : Nat :=
  s.handles.values.countP fun hd =>
    match hd with
    | .json m => m = n
    | .iterator _ => false

def State.iteratorsOn (s : State) (n : Nat) : Nat :=
  s.handles.values.countP fun hd =>
    match hd with
    | .json _ => false
    | .iterator it => it.node = n

/-- The data handles, the iterators and the slots that refer to a node. -/
def State.referencesTo (s : State) (n : Nat) : Nat :=
  s.dataHandlesOn n + s.iteratorsOn n + s.heap.incoming n

theorem count_nodes (n : Nat) (hds : List Handle) :
    (hds.map Handle.node).count n =
      (hds.countP fun hd =>
        match hd with
        | .json m => m = n
        | .iterator _ => false) +
      hds.countP fun hd =>
        match hd with
        | .json _ => false
        | .iterator it => it.node = n := by
  induction hds with
  | nil => rfl
  | cons hd rest ih =>
    rw [map_cons, count_cons, ih, countP_cons, countP_cons]
    cases hd with
    | json m | iterator it =>
      simp only [Handle.node, beq_iff_eq, decide_eq_true_eq, Bool.false_eq_true, if_false]
      omega

def Native.isSend : Native -> Bool
  | .send _ => true
  | _ => false

/-- No text repeats a key, and no copy is handed to the event thread. -/
def CountingStep (env : Env) (_ : State) (a : Native) : Prop :=
  a.repeatsKey env = false ∧ a.isSend = false

instance (env : Env) (s : State) (a : Native) : Decidable (CountingStep env s a) :=
  inferInstanceAs (Decidable (_ ∧ _))

/-- The natives that make, share, store and release nodes, as they are meant to be called:
a parser reads its text without an exception, a child is appended to an array, the target
of a merge is not below its source, and nothing is copied from a cycle. -/
def Native.Proper (env : Env) (s : State) : Native -> Prop
  | .make source _ =>
    source.repeatsKey env = false ∧ forall f, source.make env s.heap ≠ .error f
  | .wrap _ _ _ _ => True
  | .copy json _ => forall n, s.getDataHandle json = some n -> s.heap.AcyclicFrom n
  | .mutate _ _ => True
  | .setObject json slot _ => slot = .append -> forall n node,
      s.getDataHandle json = some n -> s.heap.read n = some node -> node.content.type = .array
  | .merge json _ other => forall n n', s.Distinct json other n n' ->
      s.heap.AcyclicFrom n' ∧ ¬ s.heap.Reach n' n
  | .close _ => True
  | .iterCreate _ _ _ => True
  | .iterClose _ => True
  | _ => False

section

variable {env : Env} {lost : List Nat} {s : State} {a : Native}

theorem returns_of_not_mayFault (hs : Sound lost s) (hfresh : a.FreshId s)
    (hno : forall f, ¬ a.MayFault s f) : exists r, a.run env s = .ok r := by
  rcases (ran_run a hs hfresh).returns hno with ⟨r, hr, _⟩
  exact ⟨r, hr⟩

theorem returns_of_proper (hs : Sound lost s) (hfresh : a.FreshId s) (hproper : a.Proper env s) :
    exists r, a.run env s = .ok r := by
  cases a with
  | make source id =>
    have hno : forall f, source.make env s.heap = .error f -> False :=
      fun f hf => hproper.right f hf
    rcases (stepped_make hs.owned source id (hfresh id rfl) hno).returns fun _ hf => hf
      with ⟨r, hr, _⟩
    refine ⟨(r.1, { r.2 with epoch := countChanges s.heap r.2.heap s.epoch }), ?_⟩
    unfold Native.run
    rw [hr]
    rfl
  | copy json id =>
    refine returns_of_not_mayFault hs hfresh ?_
    rintro f ⟨_, n, hn, hcycle⟩
    exact hcycle (hproper n hn)
  | setObject json slot child =>
    refine returns_of_not_mayFault hs hfresh ?_
    rintro f ⟨_, hslot, n, val, node, hdistinct, hread, htype⟩
    exact htype (hproper hslot n node hdistinct.left hread)
  | merge json m other =>
    refine returns_of_not_mayFault hs hfresh ?_
    rintro f ⟨_, n, n', hdistinct, hcycle⟩
    exact hcycle (hproper n n' hdistinct)
  | wrap json at_ filter id | mutate json m | close json | iterCreate json type id
  | iterClose iter => exact returns_of_not_mayFault hs hfresh fun _ hf => hf
  | _ => exact hproper.elim

theorem sent_of_counting (h : Reaches (natives env) (CountingStep env) s) : s.sent = [] := by
  have hboth : Sound [] s ∧ s.sent = [] := by
    refine h.invariant (fun s => Sound [] s ∧ s.sent = []) ⟨sound_init, rfl⟩ ?_
    rintro s a s' ⟨hs, hsent⟩ ⟨hdistinct, hsend⟩ hstep
    have hran := ran_step hs hstep
    constructor
    · rcases hran.sound with ⟨lost', hs', hlost⟩
      rw [hlost hdistinct] at hs'
      exact hs'
    · have hafter := hran.stepped.sent
      generalize s'.sent = sent' at hafter
      cases hafter with
      | same => exact hsent
      | send => cases hsend
      | delivered =>
        rw [hsent]
        rfl
  exact hboth.right

theorem refcountOf_eq (hs : Sound [] s) (hsent : s.sent = []) (n : Nat) :
    s.heap.refcountOf n = s.referencesTo n := by
  have hcount := hs.owned.exact n
  have hrefs : State.refs s = s.handles.values.map Handle.node := by
    unfold State.refs
    rw [hsent, append_nil]
  rw [nil_append, hrefs, count_nodes] at hcount
  exact hcount

/-- In every run without repeated keys the counts are exact, a node is freed exactly if
nothing refers to it, and the natives that change references return. -/
theorem refcounts_exact (env : Env) {s : State}
    (hreach : Reaches (natives env) (CountingStep env) s) :
    (forall n, s.heap.refcountOf n = s.referencesTo n) ∧
      (forall n, s.heap.cell n = none <-> s.referencesTo n = 0) ∧
      forall a : Native, a.FreshId s -> a.Proper env s -> exists r, a.run env s = .ok r := by
  have hs : Sound [] s := sound_of_distinct (fun _ _ ha => ha.left) hreach
  have hcount := refcountOf_eq hs (sent_of_counting hreach)
  refine ⟨hcount, ?_, fun a hfresh hproper => returns_of_proper hs hfresh hproper⟩
  intro n
  rw [hs.owned.freed_iff n, ← hs.owned.exact n, hcount n]

end

/-- An environment in which no text can be read. -/
def plainEnv : Env where
  iterate := fun _ => .error ""
  avx2 := false
  build := MsgPack.x64
  widen := fun _ => 0
  layout := ⟨0, 0, 0, 0, 0, fun _ => 0, fun _ _ => 0⟩

/-- A child that is stored under two keys of an object with an iterator. -/
def sharedChild : List Native :=
  [Surface.jsonCreateObject 1, Surface.jsonCreateArray 2, Surface.jsonRef 2 3,
    Surface.jsonSetObject 1 [97] 2, Surface.jsonSetObject 1 [98] 3,
    Surface.objectIterCreate 1 4, Surface.jsonGet 1 [97] 5]

theorem refcounts_exact_sharedChild :
    exists s, (natives plainEnv).run sharedChild .init = some s ∧
      s.heap.refcountOf 0 = 2 ∧ s.heap.refcountOf 1 = 3 ∧
      (forall n, s.heap.refcountOf n = s.referencesTo n) ∧
      (forall n, s.heap.cell n = none <-> s.referencesTo n = 0) ∧
      forall a : Native, a.FreshId s -> a.Proper plainEnv s -> exists r, a.run plainEnv s = .ok r :=
  ⟨_, rfl, rfl, rfl, refcounts_exact plainEnv
    (reaches_of_run sharedChild .init (by decide) rfl)⟩

end Async2.Ownership
