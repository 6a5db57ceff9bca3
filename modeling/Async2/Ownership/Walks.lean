import Async2.Data.Equal
import Async2.Json.Serialize
import Async2.MsgPack.Serialize
import Async2.Ownership.Tree

/-!
# Walks over the nodes below a node

A node in use from which no cycle can be reached denotes exactly one tree.  `Equals`, the
serializers and `EstimateBytes` walk over that tree: each of them returns if the node
denotes a tree, and returns what it would return on the tree.
-/

namespace Async2.Ownership

open RefCount.Heap AssocList List Option

/-!
## The tree of a node
-/

variable {R : Nat -> DataNode -> Prop} {α β : Type}

theorem exists_forall₂ {R : α -> β -> Prop} (xs : List α)
    (h : forall x, x ∈ xs -> exists y, R x y) : exists ys, List.Forall₂ R xs ys := by
  induction xs with
  | nil => exact ⟨[], .nil⟩
  | cons x rest ih =>
    rcases h x mem_cons_self with ⟨y, hy⟩
    rcases ih fun z hz => h z (mem_cons_of_mem x hz) with ⟨ys, hys⟩
    exact ⟨y :: ys, .cons hy hys⟩

theorem forall₂_unique {R R' : α -> β -> Prop} (hR : forall x y y', R x y -> R' x y' -> y = y')
    {xs : List α} {ys ys' : List β} (h1 : List.Forall₂ R xs ys) (h2 : List.Forall₂ R' xs ys') :
    ys = ys' := by
  induction h1 generalizing ys' with
  | nil =>
    cases h2
    rfl
  | cons hy _ ih =>
    cases h2 with
    | cons hy' hrest => rw [hR _ _ _ hy hy', ih hrest]

theorem exists_related {K V W : Type} {R : V -> W -> Prop} (es : List (K × V))
    (h : forall v, v ∈ es.map Prod.snd -> exists w, R v w) : exists fs, Related R es fs := by
  apply exists_forall₂
  intro e he
  rcases h e.2 (mem_map_of_mem he) with ⟨w, hw⟩
  exact ⟨(e.1, w), rfl, hw⟩

theorem exists_shows (c : Content) (h : forall x, x ∈ c.children -> exists t, R x t) :
    exists t, Shows R c t := by
  cases c with
  | null => exact ⟨_, .null⟩
  | bool b => exact ⟨_, .bool b⟩
  | int v => exact ⟨_, .int v⟩
  | float bits => exact ⟨_, .float bits⟩
  | string s => exact ⟨_, .string s⟩
  | binary b => exact ⟨_, .binary b⟩
  | array arr =>
    rcases exists_forall₂ arr h with ⟨es, hes⟩
    exact ⟨_, .array hes⟩
  | object obj =>
    rcases exists_related obj.entries h with ⟨es, hes⟩
    exact ⟨_, .object hes⟩
  | intMap intmap =>
    rcases exists_related intmap.entries h with ⟨es, hes⟩
    exact ⟨_, .intMap hes⟩

theorem Shows.denoted {c : Content} {t : DataNode} (h : Shows R c t) {x : Nat}
    (hx : x ∈ c.children) : exists s, R x s := by
  have hrelated : forall {K : Type} {es : List (K × Nat)} {fs : List (K × DataNode)},
      Related R es fs -> x ∈ es.map Prod.snd -> exists s, R x s := by
    intro K es fs hfs hmem
    induction hfs with
    | nil => cases hmem
    | cons hef _ ih =>
      rcases mem_cons.mp hmem with rfl | hmem
      · exact ⟨_, hef.right⟩
      · exact ih hmem
  cases h with
  | array hes =>
    change x ∈ _ at hx
    induction hes with
    | nil => cases hx
    | cons he _ ih =>
      rcases mem_cons.mp hx with rfl | hx
      · exact ⟨_, he⟩
      · exact ih hx
  | object hes | intMap hes => exact hrelated hes hx
  | _ => cases hx

section

variable {h : NodeHeap} {ext : List Nat} {a b k k' : Nat} {t t' : DataNode}

section

variable (hexact : Exact ext h) (hlive : h.refcountOf a ≠ 0) (hacyclic : h.AcyclicFrom a)
include hexact hlive hacyclic

/-- The levels below a node are bounded by the number of nodes below it. -/
theorem exists_denotes_of_rank (hrank : h.rank a < k) : exists t, Denotes h k a t := by
  induction k generalizing a with
  | zero => exact absurd hrank (Nat.not_lt_zero _)
  | succ k ih =>
    rcases exists_read hlive with ⟨node, hread⟩
    have hchildren : forall x, x ∈ node.content.children -> exists t, Denotes h k x t := by
      intro x hx
      have hedge : h.Edge a x := (edge_iff hread).mpr hx
      have hlive' := hexact.live_of_held hedge
      have hlower := rank_lt hedge hlive' (hacyclic x (.single hedge))
      exact ih hlive' (hacyclic.edge hedge) (by omega)
    rcases exists_shows node.content hchildren with ⟨t, ht⟩
    exact ⟨t, node, hread, ht⟩

theorem exists_denotes : exists t, Denotes h h.next a t :=
  exists_denotes_of_rank hexact hlive hacyclic (rank_lt_next hlive (hacyclic a .refl))

end

theorem Denotes.mono (hd : Denotes h k a t) (hle : k <= k') : Denotes h k' a t := by
  induction k generalizing a t k' with
  | zero => exact hd.elim
  | succ k ih =>
    cases k' with
    | zero => exact absurd hle (Nat.not_succ_le_zero k)
    | succ k' =>
      rcases hd with ⟨node, hread, hshows⟩
      refine ⟨node, hread, hshows.imp fun x s _ hx => ih hx ?_⟩
      exact Nat.le_of_succ_le_succ hle

theorem Shows.unique {R R' : Nat -> DataNode -> Prop} {c : Content} (h1 : Shows R c t)
    (h2 : Shows R' c t') (hR : forall x s s', R x s -> R' x s' -> s = s') : t = t' := by
  have hrelated : forall {K : Type} {es : List (K × Nat)} {fs fs' : List (K × DataNode)},
      Related R es fs -> Related R' es fs' -> fs = fs' := by
    intro K es fs fs' hfs hfs'
    refine forall₂_unique ?_ hfs hfs'
    rintro e f f' ⟨hkey, hval⟩ ⟨hkey', hval'⟩
    exact Prod.ext (hkey.symm.trans hkey') (hR _ _ _ hval hval')
  cases h1 with
  | array hes =>
    cases h2 with
    | array hes' => rw [forall₂_unique hR hes hes']
  | object hes =>
    cases h2 with
    | object hes' => rw [hrelated hes hes']
  | intMap hes =>
    cases h2 with
    | intMap hes' => rw [hrelated hes hes']
  | _ =>
    cases h2
    rfl

theorem Denotes.unique (h1 : Denotes h k a t) (h2 : Denotes h k' a t') : t = t' := by
  induction k generalizing a t k' t' with
  | zero => exact h1.elim
  | succ k ih =>
    cases k' with
    | zero => exact h2.elim
    | succ k' =>
      rcases h1 with ⟨node, hread, hshows⟩
      rcases h2 with ⟨node', hread', hshows'⟩
      rw [hread] at hread'
      cases hread'
      exact hshows.unique hshows' fun x s s' hs hs' => ih hs hs'

end

section

variable {h : NodeHeap} {a x k : Nat} {t : DataNode}

theorem Denotes.live (hd : Denotes h k a t) : h.refcountOf a ≠ 0 := by
  cases k with
  | zero => exact hd.elim
  | succ k =>
    rcases hd with ⟨node, hread, _⟩
    exact live_of_read hread

theorem Denotes.edge (hd : Denotes h (k + 1) a t) (hedge : h.Edge a x) :
    exists s, Denotes h k x s := by
  rcases hd with ⟨node, hread, hshows⟩
  exact hshows.denoted ((edge_iff hread).mp hedge)

variable (hd : Denotes h k a t)
include hd

theorem Denotes.below (hpath : Relation.TransGen h.Edge a x) :
    exists k' s, k' < k ∧ Denotes h k' x s := by
  have hedge : forall {k y z u}, Denotes h k y u -> h.Edge y z ->
      exists k' s, k' < k ∧ Denotes h k' z s := by
    intro k y z u hy hyz
    cases k with
    | zero => exact hy.elim
    | succ k =>
      rcases hy.edge hyz with ⟨s, hs⟩
      exact ⟨k, s, Nat.lt_succ_self k, hs⟩
  induction hpath with
  | single hax => exact hedge hd hax
  | tail _ hyz ih =>
    rcases ih with ⟨k1, s1, hk1, hs1⟩
    rcases hedge hs1 hyz with ⟨k2, s2, hk2, hs2⟩
    exact ⟨k2, s2, hk2.trans hk1, hs2⟩

theorem Denotes.not_cyclic : ¬ Relation.TransGen h.Edge a a := by
  intro hcycle
  induction k using Nat.strong_induction_on generalizing t with
  | _ k ih =>
    rcases hd.below hcycle with ⟨k', s, hlt, hs⟩
    exact ih k' hlt hs

theorem Denotes.at_next : Denotes h h.next a t := by
  have hranked : forall {k' k a t}, Denotes h k a t -> h.rank a < k' -> Denotes h k' a t := by
    intro k'
    induction k' with
    | zero => exact fun _ hrank => absurd hrank (Nat.not_lt_zero _)
    | succ k' ih =>
      intro k a t hd hrank
      cases k with
      | zero => exact hd.elim
      | succ k =>
        rcases hd with ⟨node, hread, hshows⟩
        refine ⟨node, hread, hshows.imp fun x s hx hs => ih hs ?_⟩
        have hedge : h.Edge a x := (edge_iff hread).mpr hx
        have hlower := rank_lt hedge hs.live hs.not_cyclic
        omega
  exact hranked hd (rank_lt_next hd.live hd.not_cyclic)

theorem Denotes.acyclicFrom : h.AcyclicFrom a := by
  intro x hreach
  rcases Relation.reflTransGen_iff_eq_or_transGen.mp hreach with rfl | hpath
  · exact hd.not_cyclic
  · rcases hd.below hpath with ⟨k', s, _, hs⟩
    exact hs.not_cyclic

end

/-!
## Equality
-/

def equalsElems (eq : Nat -> Nat -> Option Bool) : List Nat -> List Nat -> Option Bool
  | e :: rest, e' :: rest' => do
    if ← eq e e' then equalsElems eq rest rest' else return false
  | _, _ => return true

def equalsEntries {K : Type} [DecidableEq K] (eq : Nat -> Nat -> Option Bool)
    (other : Dict K Nat) : List (K × Nat) -> Option Bool
  | [] => return true
  | (key, val) :: rest =>
    match other.find key with
    | none => return false
    | some val' => do
      if ← eq val val' then equalsEntries eq other rest else return false

def equalsMaps {K : Type} [DecidableEq K] (eq : Nat -> Nat -> Option Bool)
    (m other : Dict K Nat) : Option Bool :=
  if m.entries.length ≠ other.entries.length then return false
  else equalsEntries eq other m.entries

def equals : Nat -> NodeHeap -> Nat -> Nat -> Option Bool
  | 0, _, _, _ => none
  | fuel + 1, h, a, b => do
    let node ← h.read a
    let other ← h.read b
    match node.content, other.content with
    | .null, .null => return true
    | .bool v, .bool v' => return v == v'
    | .int v, .int v' => return v == v'
    | .float bits, .float bits' => return Binary64.numEq bits bits'
    | .string s, .string s' => return s == s'
    | .array arr, .array arr' =>
      if arr.length ≠ arr'.length then return false
      else equalsElems (equals fuel h) arr arr'
    | .object obj, .object obj' => equalsMaps (equals fuel h) obj obj'
    | .intMap intmap, .intMap intmap' => equalsMaps (equals fuel h) intmap intmap'
    | .binary b, .binary b' => return b == b'
    | _, _ => return false

/-- Compare two nodes; no tree on the heap is deeper than the heap is large. -/
def nodesEqual (h : NodeHeap) (a b : Nat) : Option Bool := equals h.next h a b

section

variable {eq : Nat -> Nat -> Option Bool} {R R' : Nat -> DataNode -> Prop}
variable (heq : forall x y s s', R x s -> R' y s' -> eq x y = some (s.equals s'))

include heq

variable {K : Type} {fs fs' : List (K × DataNode)} {other : Dict K Nat}

theorem equalsElems_eq {arr arr' : List Nat} {es es' : List DataNode}
    (hes : List.Forall₂ R arr es) (hes' : List.Forall₂ R' arr' es') :
    equalsElems eq arr arr' = some (DataNode.equalsElems es es') := by
  induction hes generalizing arr' es' with
  | nil => cases hes' <;> rfl
  | @cons x s _ _ hx _ ih =>
    cases hes' with
    | nil => rfl
    | @cons y s' _ _ hy hrest' =>
      rw [equalsElems, heq _ _ _ _ hx hy, DataNode.equalsElems]
      cases s.equals s' with
      | true => exact ih hrest'
      | false => rfl

theorem equalsEntries_eq [DecidableEq K] {es : List (K × Nat)} (hes : Related R es fs)
    (hes' : Related R' other.entries fs') :
    equalsEntries eq other es = some (DataNode.equalsMap fs fs') := by
  induction hes with
  | nil => rfl
  | @cons e f _ _ hef _ ih =>
    rcases e with ⟨k1, x⟩
    rcases f with ⟨k2, s⟩
    rcases hef with ⟨hk, hxs⟩
    change k1 = k2 at hk
    subst hk
    have hfind := hes'.find_rel k1
    rw [equalsEntries, DataNode.equalsMap]
    unfold Dict.find
    generalize find k1 other.entries = o at hfind
    generalize find k1 fs' = o' at hfind
    cases o with
    | none =>
      cases o' with
      | none => rfl
      | some _ => exact hfind.elim
    | some y =>
      cases o' with
      | none => exact hfind.elim
      | some s' =>
        change (eq x y).bind _ = _
        rw [heq _ _ _ _ hxs hfind]
        dsimp only
        cases s.equals s' with
        | true => exact ih
        | false => rfl

theorem equalsMaps_eq [DecidableEq K] {m : Dict K Nat} (hes : Related R m.entries fs)
    (hes' : Related R' other.entries fs') :
    equalsMaps eq m other = some (fs.length == fs'.length && DataNode.equalsMap fs fs') := by
  unfold equalsMaps
  rw [equalsEntries_eq heq hes hes', hes.length_eq, hes'.length_eq]
  split
  case isTrue hne =>
    rw [beq_eq_false_iff_ne.mpr hne]
    rfl
  case isFalse hlength =>
    rw [beq_iff_eq.mpr (not_not.mp hlength)]
    rfl

end

/-- Two nodes are compared as the trees that they denote. -/
theorem equals_of_denotes {h : NodeHeap} {k k' a b : Nat} {t t' : DataNode} (hd : Denotes h k a t)
    (hd' : Denotes h k' b t') : equals k h a b = some (t.equals t') := by
  induction k generalizing a b t k' t' with
  | zero => exact hd.elim
  | succ k ih =>
    cases k' with
    | zero => exact hd'.elim
    | succ k' =>
      rcases hd with ⟨⟨v, c⟩, hread, hshows⟩
      rcases hd' with ⟨⟨v', c'⟩, hread', hshows'⟩
      have heq : forall x y s s', Denotes h k x s -> Denotes h k' y s' ->
          equals k h x y = some (s.equals s') := fun x y s s' hs hs' => ih hs hs'
      rw [equals, hread, hread']
      cases hshows with
      | array hes =>
        cases hshows' with
        | array hes' =>
          have hloop := equalsElems_eq heq hes hes'
          simp only [some_bind, hloop, hes.length_eq, hes'.length_eq, DataNode.equals]
          split
          case isTrue hne =>
            rw [beq_eq_false_iff_ne.mpr hne]
            rfl
          case isFalse hlength =>
            rw [beq_iff_eq.mpr (not_not.mp hlength)]
            rfl
        | _ => rfl
      | object hes =>
        cases hshows' with
        | object hes' =>
          rw [DataNode.equals, DataNode.equalsEntries_eq]
          exact equalsMaps_eq heq hes hes'
        | _ => rfl
      | intMap hes =>
        cases hshows' with
        | intMap hes' =>
          rw [DataNode.equals, DataNode.equalsIntEntries_eq]
          exact equalsMaps_eq heq hes hes'
        | _ => rfl
      | _ => cases hshows' <;> rfl

/-!
## Serializers
-/

def serializeElems (serialize : Nat -> Option Bytes) : List Nat -> Option Bytes
  | [] => return []
  | e :: rest => do return (← serialize e) ++ (← serializeElems serialize rest)

def serializeEntries {K : Type} (writeKey : K -> Bytes) (serialize : Nat -> Option Bytes) :
    List (K × Nat) -> Option Bytes
  | [] => return []
  | (key, val) :: rest => do
    return writeKey key ++ (← serialize val) ++
      (← serializeEntries writeKey serialize rest)

def serializeNode : Nat -> NodeHeap -> Nat -> Option Bytes
  | 0, _, _ => none
  | fuel + 1, h, a => do
    let node ← h.read a
    match node.content with
    | .array arr =>
      return MsgPack.writeArrayHeader arr.length ++
        (← serializeElems (serializeNode fuel h) arr)
    | .object obj =>
      return MsgPack.writeMsgpackMapHeader obj.entries.length ++
        (← serializeEntries MsgPack.writeMsgpackStr (serializeNode fuel h) obj.entries)
    | .intMap intmap =>
      return MsgPack.writeMsgpackMapHeader intmap.entries.length ++
        (← serializeEntries MsgPack.writeMsgpackInt (serializeNode fuel h)
          intmap.entries)
    | .null => return MsgPack.serializeNode .null
    | .bool b => return MsgPack.serializeNode (.bool b)
    | .int v => return MsgPack.serializeNode (.int v)
    | .float bits => return MsgPack.serializeNode (.float bits)
    | .string s => return MsgPack.serializeNode (.string s)
    | .binary b => return MsgPack.serializeNode (.binary b)

def msgPackSerialize (h : NodeHeap) (a : Nat) : Option Bytes := serializeNode h.next h a

section

variable {serialize : Nat -> Option Bytes} {R : Nat -> DataNode -> Prop}
variable (hser : forall x s, R x s -> serialize x = some (MsgPack.serializeNode s))

include hser

theorem serializeElems_eq {arr : List Nat} {es : List DataNode} (hes : List.Forall₂ R arr es) :
    serializeElems serialize arr = some (MsgPack.serializeElems es) := by
  induction hes with
  | nil => rfl
  | cons hx _ ih =>
    rw [serializeElems, hser _ _ hx, ih]
    rfl

theorem serializeEntries_eq {K : Type} {writeKey : K -> Bytes}
    (write : List (K × DataNode) -> Bytes) (hnil : write [] = [])
    (hcons : forall k s es,
      write ((k, s) :: es) = writeKey k ++ MsgPack.serializeNode s ++ write es)
    {es : List (K × Nat)} {fs : List (K × DataNode)} (hes : Related R es fs) :
    serializeEntries writeKey serialize es = some (write fs) := by
  induction hes with
  | nil =>
    rw [serializeEntries, hnil]
    rfl
  | @cons e f _ _ hef _ ih =>
    rcases e with ⟨key, x⟩
    rcases f with ⟨_, s⟩
    rcases hef with ⟨rfl, hxs⟩
    rw [serializeEntries, hser _ _ hxs, ih, hcons]
    rfl

end

variable {t : DataNode} {h : NodeHeap}

theorem serializeNode_of_denotes {k a : Nat} (hd : Denotes h k a t) :
    serializeNode k h a = some (MsgPack.serializeNode t) := by
  induction k generalizing a t with
  | zero => exact hd.elim
  | succ k ih =>
    rcases hd with ⟨⟨v, c⟩, hread, hshows⟩
    have hser : forall x s, Denotes h k x s ->
        serializeNode k h x = some (MsgPack.serializeNode s) := fun x s hs => ih hs
    rw [serializeNode, hread]
    cases hshows with
    | array hes =>
      simp only [some_bind, serializeElems_eq hser hes, hes.length_eq]
      rfl
    | object hes =>
      simp only [some_bind, serializeEntries_eq hser MsgPack.serializeEntries rfl
        (fun _ _ _ => rfl) hes, hes.length_eq]
      rfl
    | intMap hes =>
      simp only [some_bind, serializeEntries_eq hser MsgPack.serializeIntEntries rfl
        (fun _ _ _ => rfl) hes, hes.length_eq]
      rfl
    | _ => rfl

/-!
## Memory
-/

/-- Sizes of the types of a platform, and the capacities of strings, vectors and hash
tables of the nodes. -/
structure Layout where
  node : Nat
  pointer : Nat
  string : Nat
  objTable : Nat
  intTable : Nat
  /-- Capacity of the string, vector or hash table of the node at an address. -/
  capacity : Nat -> Nat
  /-- Capacity of a key in the object at an address. -/
  keyCapacity : Nat -> Bytes -> Nat

/-- The sum of a quantity over the children of a node. -/
def sumOver {α : Type} (count : α -> Option Nat) : List α -> Option Nat
  | [] => return 0
  | x :: rest => do return (← count x) + (← sumOver count rest)

/-- The memory of the node at an address and of the nodes below it. -/
def estimateBytes (L : Layout) : Nat -> NodeHeap -> Nat -> Option Nat
  | 0, _, _ => none
  | fuel + 1, h, a => do
    let node ← h.read a
    match node.content with
    | .string _ => return L.node + L.capacity a
    | .array arr =>
      return L.node + L.capacity a * L.pointer + (← sumOver (estimateBytes L fuel h) arr)
    | .object obj =>
      return L.node + L.objTable + L.capacity a * (L.string + L.pointer + 1) +
        (← sumOver (fun e : Bytes × Nat => do
          return L.keyCapacity a e.1 + (← estimateBytes L fuel h e.2)) obj.entries)
    | .intMap intmap =>
      return L.node + L.intTable + L.capacity a * (8 + L.pointer + 1) +
        (← sumOver (fun e : Int64 × Nat => estimateBytes L fuel h e.2) intmap.entries)
    | .binary _ => return L.node + L.capacity a
    | _ => return L.node

theorem exists_sumOver {α : Type} {count : α -> Option Nat} {xs : List α}
    (h : forall x, x ∈ xs -> exists n, count x = some n) : exists n, sumOver count xs = some n := by
  induction xs with
  | nil => exact ⟨0, rfl⟩
  | cons x rest ih =>
    rcases h x mem_cons_self with ⟨n, hn⟩
    rcases ih fun y hy => h y (mem_cons_of_mem x hy) with ⟨m, hm⟩
    refine ⟨n + m, ?_⟩
    rw [sumOver, hn, hm]
    rfl

theorem exists_estimateBytes (L : Layout) {k a : Nat} (hd : Denotes h k a t) :
    exists n, estimateBytes L k h a = some n := by
  induction k generalizing a t with
  | zero => exact hd.elim
  | succ k ih =>
    rcases hd with ⟨⟨v, c⟩, hread, hshows⟩
    have hchild : forall x, x ∈ c.children -> exists n, estimateBytes L k h x = some n := by
      intro x hx
      rcases hshows.denoted hx with ⟨s, hs⟩
      exact ih hs
    rw [estimateBytes, hread]
    cases c with
    | array arr =>
      have hloop : exists n, sumOver (estimateBytes L k h) arr = some n :=
        exists_sumOver hchild
      rcases hloop with ⟨n, hn⟩
      simp only [some_bind, hn]
      exact ⟨_, rfl⟩
    | object obj =>
      have hentries : forall e, e ∈ obj.entries -> exists n, (do
          return L.keyCapacity a e.1 + (← estimateBytes L k h e.2)) = some n := by
        intro e he
        rcases hchild e.2 (mem_map_of_mem he) with ⟨n, hn⟩
        exact ⟨_, by rw [hn]; rfl⟩
      rcases exists_sumOver hentries with ⟨n, hn⟩
      simp only [some_bind] at hn ⊢
      rw [hn]
      exact ⟨_, rfl⟩
    | intMap intmap =>
      have hentries : forall e, e ∈ intmap.entries ->
          exists n, estimateBytes L k h e.2 = some n :=
        fun e he => hchild e.2 (mem_map_of_mem he)
      rcases exists_sumOver hentries with ⟨n, hn⟩
      simp only [some_bind, hn]
      exact ⟨_, rfl⟩
    | _ => exact ⟨_, rfl⟩

end Async2.Ownership
