import Async2.Ownership.Walks

/-!
# JSON texts of nodes

`DataSerializeJson` walks over the nodes down to its depth limit, so that it returns on
every heap.  The text of a node that denotes a tree is the text of the tree.
-/

namespace Async2.Ownership

open RefCount.Heap List Option
open Json (serializeString serializeLeaf separated spaces maxSerializeDepth)

/-- The node of a tree that stands for a node without JSON members. -/
def leafTree : Content -> DataNode
  | .bool b => .bool b
  | .int v => .int v
  | .float bits => .float bits
  | .string s => .string s
  | .intMap _ => .intMap []
  | .binary b => .binary b
  | _ => .null

def textsOf {α : Type} (text : α -> Option Bytes) : List α -> Option (List Bytes)
  | [] => return []
  | x :: rest => do return (← text x) :: (← textsOf text rest)

def serializeValue : Nat -> NodeHeap -> Nat -> Option Bytes
  | 0, _, _ => return ascii ['n', 'u', 'l', 'l']
  | levels + 1, h, a => do
    let node ← h.read a
    match node.content with
    | .array arr =>
      return byte '[' :: (separated [byte ','] (← textsOf (serializeValue levels h) arr) ++
        [byte ']'])
    | .object obj =>
      return byte '{' :: (separated [byte ','] (← textsOf (fun e : Bytes × Nat => do
        return serializeString e.1 ++ byte ':' :: (← serializeValue levels h e.2))
        obj.entries) ++ [byte '}'])
    | c => return serializeLeaf (leafTree c)

def serializeValuePretty : Nat -> Nat -> NodeHeap -> Nat -> Option Bytes
  | 0, _, _, _ => return ascii ['n', 'u', 'l', 'l']
  | levels + 1, depth, h, a => do
    let node ← h.read a
    match node.content with
    | .array arr =>
      if arr = [] then return ascii ['[', ']']
      else
        return byte '[' :: byte '\n' ::
          (separated [byte ',', byte '\n'] (← textsOf (fun e : Nat => do
            return spaces ((depth + 1) * 4) ++
              (← serializeValuePretty levels (depth + 1) h e)) arr) ++
          (byte '\n' :: (spaces (depth * 4) ++ [byte ']'])))
    | .object obj =>
      if obj.entries = [] then return [byte '{', byte '}']
      else
        return byte '{' :: byte '\n' ::
          (separated [byte ',', byte '\n'] (← textsOf (fun e : Bytes × Nat => do
            return spaces ((depth + 1) * 4) ++ (serializeString e.1 ++
              (byte ':' :: byte ' ' ::
                (← serializeValuePretty levels (depth + 1) h e.2)))) obj.entries) ++
          (byte '\n' :: (spaces (depth * 4) ++ [byte '}'])))
    | c => return serializeLeaf (leafTree c)

def dataSerializeJson (h : NodeHeap) (a : Nat) (pretty : Bool) : Option Bytes :=
  if pretty then serializeValuePretty (maxSerializeDepth + 1) 0 h a
  else serializeValue (maxSerializeDepth + 1) h a

/-!
## The text of a tree
-/

theorem textsOf_eq {α β : Type} {R : α -> β -> Prop} {text : α -> Option Bytes}
    {text' : β -> Bytes} (htext : forall x y, R x y -> text x = some (text' y)) {xs : List α}
    {ys : List β} (h : List.Forall₂ R xs ys) : textsOf text xs = some (ys.map text') := by
  induction h with
  | nil => rfl
  | cons hxy _ ih =>
    rw [textsOf, htext _ _ hxy, ih]
    rfl

section

variable {h : NodeHeap} {k a : Nat} {t : DataNode}

theorem serializeValue_of_denotes (levels : Nat) (hd : Denotes h k a t) :
    serializeValue levels h a = some (Json.serializeValue levels t) := by
  induction levels generalizing k a t with
  | zero =>
    cases t <;> rfl
  | succ levels ih =>
    cases k with
    | zero => exact hd.elim
    | succ k =>
      rcases hd with ⟨⟨v, c⟩, hread, hshows⟩
      rw [serializeValue, hread]
      cases hshows with
      | array hes =>
        have hparts := textsOf_eq (fun x s (hs : Denotes h k x s) => ih hs) hes
        simp only [some_bind, hparts]
        rfl
      | object hes =>
        have hpart : forall (e : Bytes × Nat) (f : Bytes × DataNode),
            e.1 = f.1 ∧ Denotes h k e.2 f.2 -> (do
              return serializeString e.1 ++ byte ':' :: (← serializeValue levels h e.2)) =
            some (serializeString f.1 ++ byte ':' :: Json.serializeValue levels f.2) := by
          rintro e f ⟨hkey, hval⟩
          rw [hkey, ih hval]
          rfl
        have hparts := textsOf_eq hpart hes
        simp only [some_bind] at hparts ⊢
        rw [hparts]
        rfl
      | _ => rfl

theorem serializeValuePretty_of_denotes (levels depth : Nat) (hd : Denotes h k a t) :
    serializeValuePretty levels depth h a = some (Json.serializeValuePretty levels depth t) := by
  induction levels generalizing k a t depth with
  | zero =>
    cases t <;> rfl
  | succ levels ih =>
    cases k with
    | zero => exact hd.elim
    | succ k =>
      rcases hd with ⟨⟨v, c⟩, hread, hshows⟩
      rw [serializeValuePretty, hread]
      cases hshows with
      | @array arr es hes =>
        have hpart : forall (e : Nat) (f : DataNode), Denotes h k e f -> (do
              return spaces ((depth + 1) * 4) ++
                (← serializeValuePretty levels (depth + 1) h e)) =
            some (spaces ((depth + 1) * 4) ++
              Json.serializeValuePretty levels (depth + 1) f) := by
          intro e f hval
          rw [ih (depth + 1) hval]
          rfl
        have hparts := textsOf_eq hpart hes
        simp only [some_bind] at hparts ⊢
        rw [hparts, Json.serializeValuePretty]
        cases hes with
        | nil | cons _ _ => rfl
      | @object obj es hes =>
        have hpart : forall (e : Bytes × Nat) (f : Bytes × DataNode),
            e.1 = f.1 ∧ Denotes h k e.2 f.2 -> (do
              return spaces ((depth + 1) * 4) ++ (serializeString e.1 ++
                (byte ':' :: byte ' ' ::
                  (← serializeValuePretty levels (depth + 1) h e.2)))) =
            some (spaces ((depth + 1) * 4) ++ (serializeString f.1 ++
              (byte ':' :: byte ' ' ::
                Json.serializeValuePretty levels (depth + 1) f.2))) := by
          rintro e f ⟨hkey, hval⟩
          rw [hkey, ih (depth + 1) hval]
          rfl
        have hparts := textsOf_eq hpart hes
        simp only [some_bind] at hparts ⊢
        rw [hparts, Json.serializeValuePretty]
        generalize obj.entries = entries at hes
        cases hes with
        | nil | cons _ _ => rfl
      | _ => rfl

theorem dataSerializeJson_of_denotes (pretty : Bool) (hd : Denotes h k a t) :
    dataSerializeJson h a pretty = some (Json.dataSerializeJson t pretty) := by
  unfold dataSerializeJson Json.dataSerializeJson
  cases pretty with
  | true => exact serializeValuePretty_of_denotes _ 0 hd
  | false => exact serializeValue_of_denotes _ hd

end

/-!
## The text of any node
-/

variable {α : Type} {xs : List α}

theorem exists_textsOf {text : α -> Option Bytes}
    (h : forall x, x ∈ xs -> exists b, text x = some b) : exists bs, textsOf text xs = some bs := by
  induction xs with
  | nil => exact ⟨[], rfl⟩
  | cons x rest ih =>
    rcases h x mem_cons_self with ⟨b, hb⟩
    rcases ih fun y hy => h y (mem_cons_of_mem x hy) with ⟨bs, hbs⟩
    refine ⟨b :: bs, ?_⟩
    rw [textsOf, hb, hbs]
    rfl

theorem exists_partsOf (child : α -> Nat) (wrap : α -> Bytes -> Bytes)
    {text : Nat -> Option Bytes} (h : forall x, x ∈ xs.map child -> exists b, text x = some b) :
    exists bs, textsOf (fun x => do return wrap x (← text (child x))) xs = some bs := by
  apply exists_textsOf
  intro x hx
  rcases h (child x) (mem_map_of_mem hx) with ⟨b, hb⟩
  exact ⟨_, by rw [hb]; rfl⟩

variable {h : NodeHeap} {ext : List Nat} {a : Nat}

theorem exists_serializeValue (levels : Nat) (hexact : Exact ext h)
    (hlive : h.refcountOf a ≠ 0) : exists b, serializeValue levels h a = some b := by
  induction levels generalizing a with
  | zero => exact ⟨_, rfl⟩
  | succ levels ih =>
    rcases exists_read hlive with ⟨⟨v, c⟩, hread⟩
    have hchild : forall x, x ∈ c.children -> exists b, serializeValue levels h x = some b := by
      intro x hx
      exact ih (hexact.live_of_held ((edge_iff hread).mpr hx))
    rw [serializeValue, hread]
    cases c with
    | array arr =>
      have hparts : exists bs, textsOf (serializeValue levels h) arr = some bs :=
        exists_textsOf hchild
      rcases hparts with ⟨bs, hbs⟩
      simp only [some_bind, hbs]
      exact ⟨_, rfl⟩
    | object obj =>
      rcases exists_partsOf Prod.snd
        (fun (e : Bytes × Nat) b => serializeString e.1 ++ byte ':' :: b) hchild
        with ⟨bs, hbs⟩
      simp only [some_bind] at hbs ⊢
      rw [hbs]
      exact ⟨_, rfl⟩
    | _ => exact ⟨_, rfl⟩

theorem exists_serializeValuePretty (levels depth : Nat) (hexact : Exact ext h)
    (hlive : h.refcountOf a ≠ 0) : exists b, serializeValuePretty levels depth h a = some b := by
  induction levels generalizing a depth with
  | zero => exact ⟨_, rfl⟩
  | succ levels ih =>
    rcases exists_read hlive with ⟨⟨v, c⟩, hread⟩
    have hchild : forall x, x ∈ c.children ->
        exists b, serializeValuePretty levels (depth + 1) h x = some b := by
      intro x hx
      exact ih (depth + 1) (hexact.live_of_held ((edge_iff hread).mpr hx))
    rw [serializeValuePretty, hread]
    cases c with
    | array arr =>
      rcases exists_partsOf id (fun (_ : Nat) b => spaces ((depth + 1) * 4) ++ b)
        (fun x hx => hchild x (map_id arr ▸ hx)) with ⟨bs, hbs⟩
      simp only [some_bind, id_eq] at hbs ⊢
      rw [hbs]
      split <;> exact ⟨_, rfl⟩
    | object obj =>
      rcases exists_partsOf Prod.snd (fun (e : Bytes × Nat) b =>
        spaces ((depth + 1) * 4) ++ (serializeString e.1 ++ (byte ':' :: byte ' ' :: b)))
        hchild with ⟨bs, hbs⟩
      simp only [some_bind] at hbs ⊢
      rw [hbs]
      split <;> exact ⟨_, rfl⟩
    | _ => exact ⟨_, rfl⟩

/-- The depth is limited, so that there is a text even for a cycle. -/
theorem exists_dataSerializeJson (pretty : Bool) (hexact : Exact ext h)
    (hlive : h.refcountOf a ≠ 0) : exists b, dataSerializeJson h a pretty = some b := by
  unfold dataSerializeJson
  split
  · exact exists_serializeValuePretty _ 0 hexact hlive
  · exact exists_serializeValue _ hexact hlive

end Async2.Ownership
