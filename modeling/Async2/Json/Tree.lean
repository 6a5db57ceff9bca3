import Async2.Json.OnDemand

/-!
# The trees that JSON texts denote

`tree j` is the tree for a document: numbers by value, strings by the bytes that
they denote, and the members of objects in their order.  It is meant for
documents whose objects repeat no key and whose numbers have a place in a tree;
for these the JSON parser returns it, if the library under it gives all answers.
-/

namespace Async2.Json

open Decimal CLib AssocList List Option

/-- The literals that have an exact place in a tree: integers of 64 bits, and
other numbers in the range of binary64. -/
def LiteralOk (l : Literal) : Prop :=
  if l.IsInteger then -2 ^ 63 <= l.intValue ∧ l.intValue < 2 ^ 63
  else Binary64.isInf (literalBits l) = false

/-- The literal of a number has its exact place in a tree. -/
def NumberOk : Json -> Prop
  | .num l => LiteralOk l
  | _ => True

/-- All literals have their exact place in a tree. -/
def NumbersOk (j : Json) : Prop := j.Everywhere NumberOk

def MembersDistinct : Json -> Prop
  | .obj members => (members.map fun m => string m.1).Nodup
  | _ => True

def KeysDistinct (j : Json) : Prop := j.Everywhere MembersDistinct

def literalNode (l : Literal) : DataNode :=
  if l.IsInteger then .int (Int64.ofInt l.intValue) else .float (literalBits l)

mutual

def tree : Json -> DataNode
  | .null => .null
  | .bool b => .bool b
  | .num l => literalNode l
  | .str s => .string (string s)
  | .arr elems => .array (trees elems)
  | .obj members => .object (treeEntries members)

def trees : List Json -> List DataNode
  | [] => []
  | j :: elems => tree j :: trees elems

def treeEntries : List (List Item × Json) -> List (Bytes × DataNode)
  | [] => []
  | (k, j) :: members => (string k, tree j) :: treeEntries members

end

variable {j : Json} {odChild : OdValue -> Option DataNode}

theorem keys_treeEntries (members : List (List Item × Json)) :
    keys (treeEntries members) = members.map fun m => string m.1 := by
  induction members with
  | nil => rfl
  | cons m rest ih =>
    rcases m with ⟨k, j⟩
    rw [treeEntries, AssocList.keys_cons, ih, map_cons]

/-!
## The parser returns the tree
-/

theorem eq_of_gives {V : Type} {a : V} {answer : Option V}
    (h : Gives true a answer) : answer = some a := by
  rcases h with h | ⟨h, _⟩
  · exact h
  · cases h

theorem eq_of_stringAnswers {s : List Item} {answer : Option Bytes}
    (h : StringAnswers true s answer) (hdecode : decode s ≠ none) : answer = some (string s) := by
  unfold StringAnswers at h
  cases hs : decode s with
  | none => exact absurd hs hdecode
  | some bs =>
    rw [hs] at h
    rw [eq_of_gives h, string, hs]
    rfl

theorem odNumber_of_answers {l : Literal} {i : Option Int64} {u d : Option UInt64}
    (h : NumberAnswers true l i u d) (hok : LiteralOk l) :
    odNumber i u d = some (literalNode l) := by
  rcases h with ⟨rfl, rfl, hd⟩
  unfold LiteralOk at hok
  unfold odNumber literalNode
  split at hok
  · rename_i hint
    rw [if_pos ⟨hint, hok⟩, if_pos hint]
  · rename_i hreal
    rw [hok] at hd
    rw [if_neg (fun h => hreal h.left), if_neg (fun h => hreal h.left), if_neg hreal,
      eq_of_gives hd]
    rfl

theorem odElems_of_answers {elems : List Json}
    (hchild : forall j, j ∈ elems -> forall v, Answers true j v -> odChild v = some (tree j))
    {children : List (Option OdValue)} (h : AnswersElems true elems children)
    (acc : List DataNode) : odElems odChild acc children = some (acc ++ trees elems) := by
  induction elems generalizing children acc with
  | nil =>
    cases children with
    | nil => rw [odElems, trees, append_nil]
    | cons child rest => cases child <;> cases h
  | cons j elems ih =>
    cases children with
    | nil => cases h
    | cons child rest =>
      cases child with
      | none => cases h
      | some child =>
        rw [odElems, hchild j (by simp) child h.left]
        dsimp only
        rw [ih (fun x hx => hchild x (by simp [hx])) h.right]
        simp [trees]

theorem odFields_of_answers {members : List (List Item × Json)}
    (hkeys : forall m, m ∈ members -> decode m.1 ≠ none)
    (hchild : forall m, m ∈ members -> forall v, Answers true m.2 v -> odChild v = some (tree m.2))
    {fields : List (Option (Option Bytes × OdValue))} (h : AnswersFields true members fields)
    (acc : List (Bytes × DataNode)) :
    odFields odChild acc fields = some (emplaceAll acc (treeEntries members)) := by
  induction members generalizing fields acc with
  | nil =>
    cases fields with
    | nil => rfl
    | cons field rest => cases field <;> cases h
  | cons m members ih =>
    rcases m with ⟨k, j⟩
    cases fields with
    | nil => cases h
    | cons field rest =>
      cases field with
      | none => cases h
      | some field =>
        rcases field with ⟨key, v⟩
        rw [eq_of_stringAnswers h.left (hkeys (k, j) (by simp)), odFields,
          hchild (k, j) (by simp) v h.right.left]
        dsimp only
        rw [ih (fun x hx => hkeys x (by simp [hx]))
          (fun x hx => hchild x (by simp [hx])) h.right.right]
        rfl

theorem odNode_of_answers {levels : Nat} {nullOk : Bool -> Bool} (hnull : nullOk true = true)
    (hchild : forall j v, Answers true j v -> height j < levels -> j.NumbersOk -> j.Decodable ->
      j.KeysDistinct -> odChild v = some (tree j))
    {v : OdValue} (h : Answers true j v) (hheight : height j <= levels) (hnumbers : j.NumbersOk)
    (hdecodable : j.Decodable) (hdistinct : j.KeysDistinct) :
    odNode odChild nullOk v = some (tree j) := by
  cases v with
  | invalid => cases j <;> cases h
  | null isNull =>
    cases j <;> try exact h.elim
    rw [eq_of_gives h, odNode, any_some, hnull]
    rfl
  | boolean getBool =>
    cases j <;> try exact h.elim
    rw [eq_of_gives h]
    rfl
  | number i u d =>
    cases j <;> try exact h.elim
    exact odNumber_of_answers h hnumbers
  | string getString =>
    cases j <;> try exact h.elim
    rw [eq_of_stringAnswers h hdecodable]
    rfl
  | array getArray =>
    cases getArray with
    | none => cases j <;> cases h
    | some children =>
      cases j <;> try exact h.elim
      rename_i elems
      have helem : forall j, j ∈ elems -> forall v, Answers true j v ->
          odChild v = some (tree j) := by
        intro j hj v hv
        exact hchild j v hv (Nat.lt_of_lt_of_le (height_lt_of_mem_arr hj) hheight)
          ((everywhere_arr.mp hnumbers).right j hj)
          ((everywhere_arr.mp hdecodable).right j hj)
          ((everywhere_arr.mp hdistinct).right j hj)
      rw [odNode, bind_some, odElems_of_answers helem h []]
      rfl
  | object getObject =>
    cases getObject with
    | none => cases j <;> cases h
    | some fields =>
      cases j <;> try exact h.elim
      rename_i members
      have hobj := everywhere_obj.mp hdecodable
      have hvalue : forall m, m ∈ members -> forall v, Answers true m.2 v ->
          odChild v = some (tree m.2) := by
        intro m hm v hv
        exact hchild m.2 v hv
          (Nat.lt_of_lt_of_le (height_lt_of_mem_obj hm) hheight)
          ((everywhere_obj.mp hnumbers).right m hm) (hobj.right m hm)
          ((everywhere_obj.mp hdistinct).right m hm)
      have hkeys : DistinctKeys ([] ++ treeEntries members) := by
        unfold DistinctKeys
        rw [nil_append, keys_treeEntries]
        exact (everywhere_obj.mp hdistinct).left
      rw [odNode, bind_some, odFields_of_answers hobj.left hvalue h [],
        emplaceAll_of_distinct hkeys]
      rfl

theorem odToNode_of_answers (levels : Nat) (j : Json) (v : OdValue) (h : Answers true j v)
    (hheight : height j < levels) (hnumbers : j.NumbersOk) (hdecodable : j.Decodable)
    (hdistinct : j.KeysDistinct) : odToNode levels v = some (tree j) := by
  induction levels generalizing j v with
  | zero => omega
  | succ levels ih =>
    exact odNode_of_answers rfl ih h (by omega) hnumbers hdecodable hdistinct

theorem dataParseJson_of_conforms {iterate : Bytes -> Except String OdValue} {data : Bytes}
    (hdata : data ≠ []) (hconforms : Conforms true iterate j data)
    (hheight : height j <= maxParseDepth) (hnumbers : j.NumbersOk) (hdecodable : j.Decodable)
    (hdistinct : j.KeysDistinct) : dataParseJson iterate data = (some (tree j), none) := by
  unfold Conforms at hconforms
  unfold dataParseJson
  rw [if_neg hdata]
  cases hdoc : iterate data with
  | error message =>
    rw [hdoc] at hconforms
    cases hconforms
  | ok doc =>
    rw [hdoc] at hconforms
    dsimp only
    rw [odToNodeDoc, odNode_of_answers rfl (odToNode_of_answers maxParseDepth)
      hconforms hheight hnumbers hdecodable hdistinct]

end Async2.Json
