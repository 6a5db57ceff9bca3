import Async2.Ownership.Separate
import Async2.Ownership.Text
import Mathlib.Data.List.TakeWhile

/-!
# Faithful copies

The copy of a tree without NaN is equal to it exactly if none of its strings has a zero
byte.  Its nodes are new, and each has a single reference.
-/

namespace Async2.Ownership

open RefCount.Heap AssocList List

/-!
## What is below a node
-/

/-- The contents of the nodes below an address. -/
def Below (P : Content -> Prop) (h : NodeHeap) (a : Nat) : Prop :=
  forall x node, h.Reach a x -> h.read x = some node -> P node.content

def Content.NotNan (c : Content) : Prop := forall bits, c = .float bits -> ¬ Binary64.isNan bits

def Content.ZeroFree (c : Content) : Prop := forall s, c = .string s -> 0 ∉ s

variable {P : Content -> Prop} {h : NodeHeap} {a k : Nat} {node : Node} {t : DataNode}
  {Q : Nat -> Prop} {K : Type} {ms : List (K × Nat)} {es : List (K × DataNode)}

theorem below_iff (hread : h.read a = some node) :
    Below P h a <-> P node.content ∧ forall x, x ∈ node.content.children -> Below P h x := by
  constructor
  · intro hbelow
    refine ⟨hbelow a node .refl hread, fun x hx y b hreach => ?_⟩
    exact hbelow y b (.head ((edge_iff hread).mpr hx) hreach)
  · rintro ⟨hself, hchildren⟩ x b hreach hb
    rcases Relation.ReflTransGen.cases_head hreach with rfl | ⟨c, hac, hcx⟩
    · rw [hread] at hb
      cases hb
      exact hself
    · exact hchildren c ((edge_iff hread).mp hac) x b hcx hb

theorem cStr_eq_self_iff (s : Bytes) : cStr s = s <-> 0 ∉ s := by
  unfold cStr
  rw [takeWhile_eq_self_iff]
  constructor
  · intro hall hzero
    exact of_decide_eq_true (hall 0 hzero) rfl
  · intro hzero b hb
    refine decide_eq_true ?_
    rintro rfl
    exact hzero hb

theorem numEq_self (bits : UInt64) (hnan : ¬ Binary64.isNan bits) :
    Binary64.numEq bits bits = true := by
  simp [Binary64.numEq, hnan]

/-!
## Equality with the copy
-/

theorem equalsElems_copied {arr : List Nat} {es : List DataNode}
    (hes : List.Forall₂ (fun x e => (copied e).equals e = true <-> Q x) arr es) :
    DataNode.equalsElems (copiedElems es) es = true <-> forall x, x ∈ arr -> Q x := by
  induction hes with
  | nil => exact ⟨fun _ x hx => absurd hx not_mem_nil, fun _ => rfl⟩
  | @cons x e arr es hx _ ih =>
    rw [copiedElems, DataNode.equalsElems, Bool.and_eq_true, ih, hx, forall_mem_cons]

theorem equalsMap_copied [DecidableEq K] (hdistinct : DistinctKeys es)
    (hes : Related (fun x e => (copied e).equals e = true <-> Q x) ms es) :
    DataNode.equalsMap (copiedValues es) es = true <-> forall x, x ∈ ms.map Prod.snd -> Q x := by
  rw [DataNode.equalsMap_eq_true]
  have hvalues : (forall e, e ∈ copiedValues es -> exists val', find e.1 es = some val' ∧
      e.2.equals val' = true) <-> forall e, e ∈ es -> (copied e.2).equals e.2 = true := by
    constructor
    · intro hall e he
      rcases hall (e.1, copied e.2) (mem_map_of_mem he) with ⟨val', hfind, hequal⟩
      rw [find_of_mem hdistinct he] at hfind
      cases hfind
      exact hequal
    · intro hall e he
      rcases mem_map.mp he with ⟨e0, he0, rfl⟩
      exact ⟨e0.2, find_of_mem hdistinct he0, hall e0 he0⟩
  rw [hvalues]
  clear hvalues hdistinct
  induction hes with
  | nil =>
    constructor
    · exact fun _ x hx => absurd hx not_mem_nil
    · exact fun _ e he => absurd he not_mem_nil
  | @cons m e ms es hme _ ih =>
    rw [forall_mem_cons, map_cons, forall_mem_cons]
    exact and_congr hme.right ih

theorem distinct_of_related {V W : Type} {R : V -> W -> Prop} {m : Dict K V} {es : List (K × W)}
    (h : Related R m.entries es) : DistinctKeys es := by
  unfold DistinctKeys
  rw [← h.keys_eq]
  exact m.distinct

theorem length_copiedValues (es : List (K × DataNode)) :
    ((copiedValues es).length == es.length) = true := by
  rw [copiedValues, length_map, beq_self_eq_true]

/-- A tree without NaN is equal to its copy exactly if its strings have no zero byte. -/
theorem equals_copied_iff (hd : Denotes h k a t) (hnan : Below Content.NotNan h a) :
    (copied t).equals t = true <-> Below Content.ZeroFree h a := by
  induction k generalizing a t with
  | zero => exact hd.elim
  | succ k ih =>
    rcases hd with ⟨⟨v, c⟩, hread, hshows⟩
    rw [below_iff hread] at hnan ⊢
    rcases hnan with ⟨hself, hnans⟩
    have hchild : forall x s, x ∈ c.children -> Denotes h k x s ->
        ((copied s).equals s = true <-> Below Content.ZeroFree h x) :=
      fun x s hx hs => ih hs (hnans x hx)
    have hzero : (forall s, c ≠ .string s) -> c.ZeroFree := fun hno s hs => absurd hs (hno s)
    have hleaf : c.children = [] -> (forall s, c ≠ .string s) -> c.ZeroFree ∧
        forall x, x ∈ c.children -> Below Content.ZeroFree h x := by
      intro hnone hno
      rw [hnone]
      exact ⟨hzero hno, fun x hx => absurd hx not_mem_nil⟩
    cases hshows with
    | string s =>
      have hiff : (cStr s == s) = true <-> 0 ∉ s := by
        rw [beq_iff_eq, cStr_eq_self_iff]
      rw [copied, DataNode.equals, hiff]
      constructor
      · intro hs
        refine ⟨?_, fun x hx => absurd hx not_mem_nil⟩
        rintro s' heq
        cases heq
        exact hs
      · exact fun hs => hs.left s rfl
    | float bits =>
      have hequal : (copied (.float bits)).equals (.float bits) = true :=
        numEq_self bits (hself bits rfl)
      exact ⟨fun _ => hleaf rfl fun _ => Content.noConfusion, fun _ => hequal⟩
    | @array arr es hes =>
      have hlength : ((copiedElems es).length == es.length) = true := by
        rw [copiedElems_eq, length_map, beq_self_eq_true]
      rw [copied, DataNode.equals, hlength, Bool.true_and,
        equalsElems_copied (forall₂_imp hes hchild),
        and_iff_right (hzero fun _ => Content.noConfusion)]
      exact Iff.rfl
    | @object obj es hes =>
      rw [copied, DataNode.equals, copiedEntries_eq, length_copiedValues, Bool.true_and,
        DataNode.equalsEntries_eq,
        equalsMap_copied (distinct_of_related hes) (related_imp hes hchild),
        and_iff_right (hzero fun _ => Content.noConfusion)]
      exact Iff.rfl
    | @intMap intmap es hes =>
      rw [copied, DataNode.equals, copiedIntEntries_eq, length_copiedValues, Bool.true_and,
        DataNode.equalsIntEntries_eq,
        equalsMap_copied (distinct_of_related hes) (related_imp hes hchild),
        and_iff_right (hzero fun _ => Content.noConfusion)]
      exact Iff.rfl
    | null => exact ⟨fun _ => hleaf rfl fun _ => Content.noConfusion, fun _ => rfl⟩
    | bool v | int v | binary v =>
      exact ⟨fun _ => hleaf rfl fun _ => Content.noConfusion, fun _ => beq_self_eq_true v⟩

theorem copiedValues_eq (hes : Related (fun _ e => copied e = e) ms es) : copiedValues es = es := by
  unfold copiedValues
  induction hes with
  | nil => rfl
  | cons hme _ ih => rw [map_cons, ih, hme.right]

theorem copied_eq (hd : Denotes h k a t) (hzero : Below Content.ZeroFree h a) : copied t = t := by
  induction k generalizing a t with
  | zero => exact hd.elim
  | succ k ih =>
    rcases hd with ⟨⟨v, c⟩, hread, hshows⟩
    rcases (below_iff hread).mp hzero with ⟨hself, hzeros⟩
    have hchild : forall x s, x ∈ c.children -> Denotes h k x s -> copied s = s :=
      fun x s hx hs => ih hs (hzeros x hx)
    cases hshows with
    | string s => rw [copied, (cStr_eq_self_iff s).mpr (hself s rfl)]
    | @array arr es hes =>
      have hsame : copiedElems es = es := by
        have hall := forall₂_imp hes hchild
        clear hes hread hself hzeros hchild
        induction hall with
        | nil => rfl
        | cons he _ ih => rw [copiedElems, he, ih]
      rw [copied, hsame]
    | object hes => rw [copied, copiedEntries_eq, copiedValues_eq (related_imp hes hchild)]
    | intMap hes =>
      rw [copied, copiedIntEntries_eq, copiedValues_eq (related_imp hes hchild)]
    | _ => rfl

/-!
## The nodes of a copy
-/

/-- The copy shares no node, and every node of it has one reference. -/
structure Separated (h : NodeHeap) (n root : Nat) : Prop where
  unshared : forall x, h.Reach root x -> ¬ h.Reach n x
  single : forall x, h.Reach root x -> h.refcountOf x = 1
  unheld : h.incoming root = 0
  parent : forall x, h.Reach root x -> x ≠ root -> h.incoming x = 1

theorem Copied.separated {ext : List Nat} {h' : NodeHeap} {n : Nat} (h1 : Copied h k h' a t)
    (hcounted : Counted ext h) (hn : h.refcountOf n ≠ 0) : Separated h' n a := by
  have hexact : Exact ([a] ++ ext) h' := (h1.counted hcounted).exact
  have hout : forall r, r ∈ [a] -> h.next <= r := by
    intro r hr
    cases mem_singleton.mp hr
    exact h1.fresh
  have howned := h1.builds.ownedBy hcounted.exact hexact hout
  have hnew : forall x, h'.Reach a x -> h.next <= x := fun x hreach =>
    h1.fresh.trans (h1.builds.reach_le h1.fresh hreach)
  have hlive : forall x, h'.Reach a x -> h'.refcountOf x ≠ 0 := fun x hreach =>
    (howned.reached x (hnew x hreach)).mpr ⟨a, mem_singleton_self a, hreach⟩
  constructor
  · intro x hreach hreach'
    have hold := h1.builds.reach_old hcounted.exact.inBounds (lt_next_of_refcountOf hn) hreach'
    exact absurd (hnew x hreach) (Nat.not_le.mpr hold)
  · exact fun x hreach => howned.single x (hnew x hreach) (hlive x hreach)
  · exact howned.root a (mem_singleton_self a)
  · intro x hreach hne
    refine howned.parent x (hnew x hreach) (hlive x hreach) ?_
    intro hmem
    exact hne (mem_singleton.mp hmem)

end Async2.Ownership
