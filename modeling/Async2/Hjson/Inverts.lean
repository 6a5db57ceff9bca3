import Async2.Hjson.Reads

/-!
# The parser inverts the JSON serializer

Reading what the serializer wrote gives the tree back, up to the parts for which
JSON has no form: nodes below the depth limit of the serializer, int-maps,
binaries, and floats that are no numbers.  Strings and keys come back byte by
byte, whatever bytes they hold.
-/

namespace Async2.Hjson

open Json CLib AssocList DataNode List Binary64

/-- The tree with null in place of everything that JSON cannot hold, and of the
nodes below the first `levels` levels. -/
def norm : Nat -> DataNode -> DataNode
  | 0, _ => .null
  | levels + 1, .array es => .array (es.map (norm levels))
  | levels + 1, .object es => .object (es.map fun e => (e.1, norm levels e.2))
  | _ + 1, .float bits =>
    if Binary64.isNan bits || Binary64.isInf bits then .null else .float bits
  | _ + 1, .intMap _ => .null
  | _ + 1, .binary _ => .null
  | _ + 1, n => n

/-!
## Written documents are in the range of the parser
-/

variable {bits : UInt64}

theorem height_written (levels : Nat) (n : DataNode) : (written levels n).height <= levels := by
  induction levels generalizing n with
  | zero => exact Nat.le_refl 0
  | succ levels ih =>
    cases n with
    | array es =>
      refine height_arr_le ?_
      intro j hj
      rcases mem_map.mp hj with ⟨e, _, rfl⟩
      exact Nat.lt_succ_of_le (ih e)
    | object es =>
      refine height_obj_le ?_
      intro m hm
      rcases mem_map.mp hm with ⟨e, _, rfl⟩
      exact Nat.lt_succ_of_le (ih e.2)
    | float bits =>
      rw [written]
      split <;> exact Nat.zero_le _
    | _ => exact Nat.zero_le _

theorem literalOk_lldLiteral (v : Int64) : LiteralOk (lldLiteral v) := by
  have hlow : -2 ^ 63 <= v.toInt := Int64.le_toInt v
  have hhigh : v.toInt < 2 ^ 63 := Int64.toInt_lt v
  unfold LiteralOk
  rw [if_pos (lldLiteral_isInteger v), intValue_lldLiteral]
  exact ⟨hlow, hhigh⟩

theorem literalOk_floatLiteral (h : ¬(isNan bits || isInf bits) = true) :
    LiteralOk (floatLiteral bits) := by
  unfold LiteralOk
  rw [if_neg (not_isInteger_floatLiteral bits), literalBits_floatLiteral (magnitude_lt_infinity h)]
  simp only [Bool.or_eq_true, not_or, Bool.not_eq_true] at h
  exact h.right

theorem numbersOk_written (levels : Nat) (n : DataNode) : NumbersOk (written levels n) := by
  induction levels generalizing n with
  | zero => trivial
  | succ levels ih =>
    cases n with
    | array es =>
      refine everywhere_arr.mpr ⟨trivial, ?_⟩
      intro j hj
      rcases mem_map.mp hj with ⟨e, _, rfl⟩
      exact ih e
    | object es =>
      refine everywhere_obj.mpr ⟨trivial, ?_⟩
      intro m hm
      rcases mem_map.mp hm with ⟨e, _, rfl⟩
      exact ih e.2
    | float bits =>
      rw [written]
      split
      · trivial
      · rename_i hfinite
        exact literalOk_floatLiteral hfinite
    | int v => exact literalOk_lldLiteral v
    | _ => trivial

/-!
## Written documents are read back
-/

theorem stringBytes_itemsOf (s : Bytes) : stringBytes (itemsOf s) = s := by
  induction s with
  | nil => rfl
  | cons c rest ih =>
    have hitem : forall c, itemBytes (itemOf c) = [c] := by
      decide +kernel
    change itemBytes (itemOf c) ++ stringBytes (itemsOf rest) = _
    rw [hitem, ih]
    rfl

theorem literalNode_lldLiteral (v : Int64) : literalNode (lldLiteral v) = .int v := by
  rw [literalNode, if_pos (lldLiteral_isInteger v), intValue_lldLiteral, Int64.ofInt_toInt]

theorem literalNode_floatLiteral (h : ¬(isNan bits || isInf bits) = true) :
    literalNode (floatLiteral bits) = .float bits := by
  rw [literalNode, if_neg (not_isInteger_floatLiteral bits),
    literalBits_floatLiteral (magnitude_lt_infinity h)]

theorem hjsonTrees_eq_map (elems : List Json) : hjsonTrees elems = elems.map hjsonTree := by
  induction elems with
  | nil => rfl
  | cons j rest ih => rw [hjsonTrees, ih, map_cons]

theorem hjsonEntries_eq_map (members : List (List Item × Json)) :
    hjsonEntries members = members.map fun m => (stringBytes m.1, hjsonTree m.2) := by
  induction members with
  | nil => rfl
  | cons m rest ih =>
    rcases m with ⟨k, j⟩
    rw [hjsonEntries, ih, map_cons]

theorem hjsonTree_written {levels : Nat} {n : DataNode} (h : n.WellFormed) :
    hjsonTree (written levels n) = norm levels n := by
  induction levels generalizing n with
  | zero => rfl
  | succ levels ih =>
    cases n with
    | array es =>
      rw [written, hjsonTree, hjsonTrees_eq_map, norm, map_map]
      congr 1
      refine map_congr_left ?_
      intro e he
      exact ih ((everywhere_array.mp h).right e he)
    | object es =>
      have hentries : hjsonEntries (es.map fun e =>
          (itemsOf e.1, written levels e.2)) =
          es.map fun e => (e.1, norm levels e.2) := by
        rw [hjsonEntries_eq_map, map_map]
        refine map_congr_left ?_
        intro e he
        dsimp only [Function.comp]
        rw [stringBytes_itemsOf, ih ((everywhere_object.mp h).right e he)]
      have hdistinct : DistinctKeys ([] ++ es.map fun e =>
          (e.1, norm levels e.2)) := by
        have hkeys : DistinctKeys es := (everywhere_object.mp h).left
        unfold DistinctKeys AssocList.keys at *
        rw [nil_append, map_map]
        exact hkeys
      rw [written, hjsonTree, hentries, upsertAll_of_distinct hdistinct, nil_append, norm]
    | float bits =>
      rw [written, norm]
      split
      · rfl
      · rename_i hfinite
        exact literalNode_floatLiteral hfinite
    | int v => exact literalNode_lldLiteral v
    | string s =>
      rw [written, hjsonTree, stringBytes_itemsOf]
      rfl
    | _ => rfl

/-- Whatever the tree, the iteration order of its maps and the layout of the
text, the parser reads the serialized tree back as its normal form. -/
theorem hjsonParse_dataSerializeJson (t : Tree) (pretty avx2 : Bool) :
    hjsonParse (initScanner avx2) (dataSerializeJson t.node pretty) =
      .ok (norm (maxSerializeDepth + 1) t.node) := by
  have hspells := spells_dataSerializeJson t.node pretty
  have hheight := height_written (maxSerializeDepth + 1) t.node
  have hdepth : maxSerializeDepth + 1 <= maxDepth := by decide
  have hread := hjsonParse_spells hspells ws_nil (hheight.trans hdepth)
    (numbersOk_written _ _) ws_nil avx2
  rw [List.append_nil, List.nil_append, hjsonTree_written t.wellFormed] at hread
  exact hread

end Async2.Hjson
