import Async2.Data.Node
import Async2.Foundation.Binary64

/-!
# Equality of trees

`Equals` compares two trees kind by kind.  Floats are compared as numbers, and maps are
compared by looking the keys of the first one up in the second.
-/

namespace Async2.DataNode

open AssocList Binary64

mutual

def equals : DataNode -> DataNode -> Bool
  | .null, .null => true
  | .bool b, .bool b' => b == b'
  | .int v, .int v' => v == v'
  | .float bits, .float bits' => numEq bits bits'
  | .string s, .string s' => s == s'
  | .array es, .array es' => es.length == es'.length && equalsElems es es'
  | .object es, .object es' => es.length == es'.length && equalsEntries es es'
  | .intMap es, .intMap es' => es.length == es'.length && equalsIntEntries es es'
  | .binary b, .binary b' => b == b'
  | _, _ => false
termination_by structural t => t

def equalsElems : List DataNode -> List DataNode -> Bool
  | e :: rest, e' :: rest' => equals e e' && equalsElems rest rest'
  | _, _ => true
termination_by structural es => es

def equalsEntries : List (Bytes × DataNode) -> List (Bytes × DataNode) -> Bool
  | [], _ => true
  | (key, val) :: rest, es' =>
    match find key es' with
    | some val' => equals val val' && equalsEntries rest es'
    | none => false
termination_by structural es => es

def equalsIntEntries : List (Int64 × DataNode) -> List (Int64 × DataNode) -> Bool
  | [], _ => true
  | (key, val) :: rest, es' =>
    match find key es' with
    | some val' => equals val val' && equalsIntEntries rest es'
    | none => false
termination_by structural es => es

end

/-- The loop over the entries of a map, whatever its keys are. -/
def equalsMap {K : Type} [DecidableEq K] :
    List (K × DataNode) -> List (K × DataNode) -> Bool
  | [], _ => true
  | (key, val) :: rest, es' =>
    match find key es' with
    | some val' => equals val val' && equalsMap rest es'
    | none => false

theorem equalsEntries_eq (es es' : List (Bytes × DataNode)) :
    equalsEntries es es' = equalsMap es es' := by
  induction es with
  | nil => rfl
  | cons e rest ih =>
    rcases e with ⟨key, val⟩
    rw [equalsEntries, equalsMap, ih]

theorem equalsIntEntries_eq (es es' : List (Int64 × DataNode)) :
    equalsIntEntries es es' = equalsMap es es' := by
  induction es with
  | nil => rfl
  | cons e rest ih =>
    rcases e with ⟨key, val⟩
    rw [equalsIntEntries, equalsMap, ih]

theorem equalsMap_eq_true {K : Type} [DecidableEq K] {es es' : List (K × DataNode)} :
    equalsMap es es' = true <->
      forall e, e ∈ es -> exists val', find e.1 es' = some val' ∧ equals e.2 val' = true := by
  induction es with
  | nil => simp [equalsMap]
  | cons e rest ih =>
    rcases e with ⟨key, val⟩
    rw [equalsMap, List.forall_mem_cons, ← ih]
    cases hfind : find key es' with
    | none | some val' => simp

end Async2.DataNode
