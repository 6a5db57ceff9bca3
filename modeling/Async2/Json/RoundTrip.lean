import Async2.Data.Order
import Async2.Json.Encoding
import Async2.Json.OnDemand

/-!
# Parsing and serializing JSON

The text that the serializer writes for a parsed text denotes the value of that
text, except where a tree cannot hold it: the serializer cuts at its depth limit,
an integer beyond `int64_t` keeps the bits of a `uint64_t`, and an integer beyond
both is rounded.  `stored` says what becomes of a number, `Value.cut` what becomes
of the deep parts.
-/

namespace Async2.Json

open Decimal Binary64 CLib Utf8 AssocList DataNode List Literal

def stored (l : Literal) : Number :=
  if FitsInt64 l then .int l.intValue
  else if FitsUint64 l then .int (l.intValue - 2 ^ 64)
  else .real (literalBits l)

/-- The value of the first `levels` levels of a tree, null taking the place of
what JSON cannot hold. -/
def nodeValue : Nat -> DataNode -> Value
  | 0, _ => .null
  | _ + 1, .null => .null
  | _ + 1, .bool b => .bool b
  | _ + 1, .int v => .num (.int v.toInt)
  | _ + 1, .float bits => if isNan bits || isInf bits then .null else .num (.real bits)
  | _ + 1, .string s => .str s
  | levels + 1, .array es => .arr (es.map (nodeValue levels))
  | levels + 1, .object es => .obj fun k => (find k es).map (nodeValue levels)
  | _ + 1, .intMap _ => .null
  | _ + 1, .binary _ => .null

/-- The texts of a node itself are UTF-8. -/
def TextUtf8 : DataNode -> Prop
  | .string s => IsUtf8 s
  | .object es => forall e, e ∈ es -> IsUtf8 e.1
  | _ => True

/-!
## What the serializer writes
-/

variable {total : Bool} {n n' : DataNode}

theorem value_written (levels : Nat) (n : DataNode) :
    (written levels n).value = nodeValue levels n := by
  induction levels generalizing n with
  | zero => rfl
  | succ levels ih =>
    cases n with
    | array es =>
      rw [written, value, valueWith, valuesWith_eq_map, nodeValue, map_map]
      congr 1
      exact map_congr_left (fun e _ => ih e)
    | object es =>
      rw [written, value, valueWith, nodeValue]
      congr 1
      funext k
      rw [memberWith_eq_find, map_map]
      have hentries : ((fun m : List Item × Json => (string m.1, m.2)) ∘
          fun e : Bytes × DataNode => (itemsOf e.1, written levels e.2)) =
          fun e => (e.1, written levels e.2) := by
        funext e
        simp only [Function.comp, string_itemsOf]
      rw [hentries, find_map, Option.map_map]
      congr 1
      funext e
      exact ih e
    | float bits =>
      rw [written, nodeValue]
      split
      · rfl
      · rename_i hfinite
        rw [value, valueWith, Number.ofLiteral,
          if_neg (not_isInteger_floatLiteral bits),
          literalBits_floatLiteral (magnitude_lt_infinity hfinite)]
    | int v =>
      rw [written, value, valueWith, Number.ofLiteral,
        if_pos (lldLiteral_isInteger v), intValue_lldLiteral, nodeValue]
    | string s =>
      rw [written, value, valueWith, string_itemsOf, nodeValue]
    | _ => rfl

theorem decodable_written (levels : Nat) (n : DataNode) : (written levels n).Decodable := by
  have hdecode : forall s : Bytes, decode (itemsOf s) ≠ none := by
    intro s
    rw [decode_itemsOf]
    exact Option.some_ne_none s
  induction levels generalizing n with
  | zero => trivial
  | succ levels ih =>
    cases n with
    | array es =>
      refine everywhere_arr.mpr ⟨trivial, ?_⟩
      intro j hj
      rcases mem_map.mp hj with ⟨e, _, rfl⟩
      exact ih e
    | object es =>
      refine everywhere_obj.mpr ⟨?_, ?_⟩
      · intro m hm
        rcases mem_map.mp hm with ⟨e, _, rfl⟩
        exact hdecode e.1
      · intro m hm
        rcases mem_map.mp hm with ⟨e, _, rfl⟩
        exact ih e.2
    | float bits =>
      rw [written]
      split <;> trivial
    | string s => exact hdecode s
    | _ => trivial

theorem stringsUtf8_written {levels : Nat} (h : n.Everywhere TextUtf8) :
    (written levels n).Everywhere StringsUtf8 := by
  induction levels generalizing n with
  | zero => trivial
  | succ levels ih =>
    cases n with
    | array es =>
      refine everywhere_arr.mpr ⟨trivial, ?_⟩
      intro j hj
      rcases mem_map.mp hj with ⟨e, he, rfl⟩
      exact ih ((everywhere_array.mp h).right e he)
    | object es =>
      have hobj := everywhere_object.mp h
      refine everywhere_obj.mpr ⟨?_, ?_⟩
      · intro m hm
        rcases mem_map.mp hm with ⟨e, he, rfl⟩
        exact isUtf8_itemsOf (hobj.left e he)
      · intro m hm
        rcases mem_map.mp hm with ⟨e, he, rfl⟩
        exact ih (hobj.right e he)
    | float bits =>
      rw [written]
      split <;> trivial
    | string s => exact isUtf8_itemsOf h
    | _ => trivial

/-!
## The order of map entries
-/

theorem nodeValue_reorders (h : Reorders n n') (levels : Nat) :
    nodeValue levels n = nodeValue levels n' := by
  induction h generalizing levels with
  | same n => rfl
  | array hlength _ ih =>
    cases levels with
    | zero => rfl
    | succ levels =>
      rw [nodeValue, nodeValue,
        map_eq_of_elems hlength (fun i e e' he he' => ih i e e' he he' levels)]
  | object hkeys _ ih =>
    cases levels with
    | zero => rfl
    | succ levels =>
      rw [nodeValue, nodeValue]
      congr 1
      funext k
      rcases find_of_perm hkeys k with ⟨hes, hes'⟩ | ⟨v, v', hes, hes'⟩
      · rw [hes, hes']
      · rw [hes, hes', Option.map_some, Option.map_some,
          ih k v v' (mem_of_find hes) (mem_of_find hes') levels]
  | intMap hkeys _ _ => cases levels <;> rfl

theorem textUtf8_reorders (h : Reorders n n') (hn : n.Everywhere TextUtf8) :
    n'.Everywhere TextUtf8 := by
  induction h with
  | same n => exact hn
  | array hlength _ ih =>
    refine everywhere_array.mpr ⟨trivial, ?_⟩
    intro e' he'
    rcases exists_of_length hlength he' with ⟨i, e, hi, hi'⟩
    exact ih i e e' hi hi'
      ((everywhere_array.mp hn).right e (mem_of_getElem? hi))
  | object hkeys _ ih =>
    have hobj := everywhere_object.mp hn
    refine everywhere_object.mpr ⟨?_, ?_⟩
    · intro e' he'
      rcases exists_of_perm hkeys he' with ⟨v, hv⟩
      exact hobj.left (e'.1, v) hv
    · intro e' he'
      rcases exists_of_perm hkeys he' with ⟨v, hv⟩
      exact ih e'.1 v e'.2 hv he' (hobj.right (e'.1, v) hv)
  | intMap hkeys _ ih =>
    have hmap := everywhere_intMap.mp hn
    refine everywhere_intMap.mpr ⟨trivial, ?_⟩
    intro e' he'
    rcases exists_of_perm hkeys he' with ⟨v, hv⟩
    exact ih e'.1 v e'.2 hv he' (hmap.right (e'.1, v) hv)

/-!
## What the parser stores
-/

/-- The tree holds the value of the document. -/
structure Stores (j : Json) (n : DataNode) : Prop where
  decodable : j.Decodable
  value : forall levels, (j.valueWith stored).cut levels = nodeValue levels n
  isUtf8 : j.Everywhere StringsUtf8 -> n.Everywhere TextUtf8

theorem Stores.leaf {j : Json} (hdecodable : j.Decodable)
    (hvalue : forall levels, (j.valueWith stored).cut (levels + 1) = nodeValue (levels + 1) n)
    (hutf8 : j.Everywhere StringsUtf8 -> n.Everywhere TextUtf8) : Stores j n := by
  refine ⟨hdecodable, ?_, hutf8⟩
  intro levels
  cases levels with
  | zero => rfl
  | succ levels => exact hvalue levels

theorem eq_some_of_gives {V : Type} {a b : V} {answer : Option V} (h : Gives total a answer)
    (hanswer : answer = some b) : b = a := by
  rcases h with h | ⟨_, h⟩
  · rw [h] at hanswer
    exact (Option.some.inj hanswer).symm
  · rw [h] at hanswer
    cases hanswer

theorem decode_of_stringAnswers {s : List Item} {bs : Bytes} {answer : Option Bytes}
    (h : StringAnswers total s answer) (hanswer : answer = some bs) : decode s = some bs := by
  unfold StringAnswers at h
  cases hdecode : decode s with
  | none =>
    rw [hdecode, hanswer] at h
    cases h
  | some bs' =>
    rw [hdecode] at h
    rw [eq_some_of_gives h hanswer]

theorem toInt_toInt64_ofNat {m : Nat} (hlow : 2 ^ 63 <= m) (hhigh : m < 2 ^ 64) :
    (UInt64.ofNat m).toInt64.toInt = (m : Int) - 2 ^ 64 := by
  change (Int64.ofNat m).toInt = _
  rw [Int64.toInt_ofNat']
  simp only [Int.bmod, Int64.size]
  omega

theorem stores_number {l : Literal} {i : Option Int64} {u d : Option UInt64}
    (h : NumberAnswers total l i u d) (hn : odNumber i u d = some n) : Stores (.num l) n := by
  rcases h with ⟨rfl, rfl, hd⟩
  unfold odNumber at hn
  by_cases hint : FitsInt64 l
  · rw [if_pos hint] at hn
    rw [← Option.some.inj hn]
    refine Stores.leaf trivial ?_ (fun _ => trivial)
    intro levels
    rw [valueWith, stored, if_pos hint, nodeValue,
      Int64.toInt_ofInt_of_le hint.right.left hint.right.right]
    rfl
  · by_cases huint : FitsUint64 l
    · rw [if_neg hint, if_pos huint] at hn
      rw [← Option.some.inj hn]
      refine Stores.leaf trivial ?_ (fun _ => trivial)
      intro levels
      have hnonneg : 0 <= l.intValue := by
        rw [intValue, huint.right.left]
        exact Int.natCast_nonneg _
      have hlow : 2 ^ 63 <= l.intValue := by
        by_contra hlt
        exact hint ⟨huint.left, by omega, by omega⟩
      have hhigh := huint.right.right
      have hbits := toInt_toInt64_ofNat (m := l.intValue.toNat) (by omega) (by omega)
      rw [valueWith, stored, if_neg hint, if_pos huint, nodeValue, hbits,
        Int.toNat_of_nonneg hnonneg]
      rfl
    · rw [if_neg hint, if_neg huint] at hn
      rcases Option.map_eq_some_iff.mp hn with ⟨bits, rfl, rfl⟩
      have hnan : isNan (literalBits l) = false := not_isNan_ofDecimal _ _ _
      refine Stores.leaf trivial ?_ (fun _ => trivial)
      intro levels
      rw [valueWith, stored, if_neg hint, if_neg huint, nodeValue]
      split at hd
      · cases hd
      · rename_i hfinite
        rw [Bool.not_eq_true] at hfinite
        rw [eq_some_of_gives hd rfl, hnan, hfinite]
        rfl

section

variable {odChild : OdValue -> Option DataNode}
  (hchild : forall j v n, Answers false j v -> odChild v = some n -> Stores j n)
include hchild

theorem stores_odElems {elems : List Json} {children : List (Option OdValue)}
    {acc es : List DataNode} (h : AnswersElems false elems children)
    (hes : odElems odChild acc children = some es) :
    exists ns, es = acc ++ ns ∧ List.Forall₂ Stores elems ns := by
  induction elems generalizing children acc with
  | nil =>
    cases children with
    | nil =>
      rw [← Option.some.inj hes]
      exact ⟨[], (append_nil acc).symm, .nil⟩
    | cons child rest =>
      cases child with
      | none => cases hes
      | some child => cases h
  | cons j elems ih =>
    cases children with
    | nil => cases h
    | cons child rest =>
      cases child with
      | none => cases hes
      | some child =>
        rw [odElems] at hes
        split at hes
        · cases hes
        · rename_i n hn
          rcases ih h.right hes with ⟨ns, rfl, hns⟩
          exact ⟨n :: ns, by simp, .cons (hchild j child n h.left hn) hns⟩

theorem stores_odFields {members : List (List Item × Json)}
    {fields : List (Option (Option Bytes × OdValue))} {acc es : List (Bytes × DataNode)}
    (h : AnswersFields false members fields) (hes : odFields odChild acc fields = some es) :
    exists entries, es = emplaceAll acc entries ∧
      List.Forall₂ (fun m e => decode m.1 = some e.1 ∧ Stores m.2 e.2) members entries := by
  induction members generalizing fields acc with
  | nil =>
    cases fields with
    | nil =>
      rw [← Option.some.inj hes]
      exact ⟨[], rfl, .nil⟩
    | cons field rest =>
      cases field with
      | none => cases hes
      | some field => cases h
  | cons m members ih =>
    rcases m with ⟨k, j⟩
    cases fields with
    | nil => cases h
    | cons field rest =>
      cases field with
      | none => cases hes
      | some field =>
        rcases field with ⟨key, value⟩
        cases key with
        | none => cases hes
        | some key =>
          rw [odFields] at hes
          split at hes
          · cases hes
          · rename_i n hn
            rcases ih h.right.right hes with ⟨entries, rfl, hentries⟩
            exact ⟨(key, n) :: entries, rfl,
              .cons ⟨decode_of_stringAnswers h.left rfl,
                hchild j value n h.right.left hn⟩ hentries⟩

end

variable {n : DataNode} {j : Json}

theorem stores_array {elems : List Json} {ns : List DataNode}
    (h : List.Forall₂ Stores elems ns) : Stores (.arr elems) (.array ns) := by
  refine Stores.leaf ?_ ?_ ?_
  · refine everywhere_arr.mpr ⟨trivial, ?_⟩
    induction h with
    | nil => exact forall_mem_nil _
    | cons hj _ ih => exact forall_mem_cons.mpr ⟨hj.decodable, ih⟩
  · intro levels
    rw [valueWith, valuesWith_eq_map, Value.cut, nodeValue]
    congr 1
    induction h with
    | nil => rfl
    | cons hj _ ih => rw [map_cons, map_cons, map_cons, hj.value, ih]
  · intro hutf8
    have hall := (everywhere_arr.mp hutf8).right
    refine everywhere_array.mpr ⟨trivial, ?_⟩
    clear hutf8
    induction h with
    | nil => exact forall_mem_nil _
    | cons hj _ ih =>
      rw [forall_mem_cons] at hall
      exact forall_mem_cons.mpr ⟨hj.isUtf8 hall.left, ih hall.right⟩

theorem stores_object {members : List (List Item × Json)} {entries : List (Bytes × DataNode)}
    (h : List.Forall₂ (fun m e => decode m.1 = some e.1 ∧ Stores m.2 e.2) members entries) :
    Stores (.obj members) (.object (emplaceAll [] entries)) := by
  refine Stores.leaf ?_ ?_ ?_
  · have hall : forall m, m ∈ members -> decode m.1 ≠ none ∧ Decodable m.2 := by
      induction h with
      | nil => exact forall_mem_nil _
      | cons hm _ ih =>
        refine forall_mem_cons.mpr ⟨⟨?_, hm.right.decodable⟩, ih⟩
        rw [hm.left]
        exact Option.some_ne_none _
    exact everywhere_obj.mpr
      ⟨fun m hm => (hall m hm).left, fun m hm => (hall m hm).right⟩
  · intro levels
    rw [valueWith, Value.cut, nodeValue]
    congr 1
    funext k
    rw [find_emplaceAll, find, Option.none_or]
    induction h with
    | nil => rfl
    | cons hm _ ih =>
      rename_i m e _ _ _
      rcases m with ⟨i, j⟩
      rcases e with ⟨key, n⟩
      rw [memberWith, find, string, hm.left, Option.getD_some]
      split
      · rw [Option.map_some, Option.map_some, hm.right.value]
      · exact ih
  · intro hutf8
    have hall : forall e, e ∈ entries -> IsUtf8 e.1 ∧ e.2.Everywhere TextUtf8 := by
      have hobj := everywhere_obj.mp hutf8
      have hkeys : forall m, m ∈ members -> IsUtf8 (itemsText m.1) := hobj.left
      have hvalues := hobj.right
      clear hutf8 hobj
      induction h with
      | nil => exact forall_mem_nil _
      | cons hm _ ih =>
        rw [forall_mem_cons] at hkeys hvalues
        exact forall_mem_cons.mpr
          ⟨⟨isUtf8_decode hkeys.left hm.left, hm.right.isUtf8 hvalues.left⟩,
            ih hkeys.right hvalues.right⟩
    have hmem : forall e, e ∈ emplaceAll [] entries -> e ∈ entries := by
      intro e he
      rcases mem_emplaceAll he with hnil | he
      · cases hnil
      · exact he
    exact everywhere_object.mpr
      ⟨fun e he => (hall e (hmem e he)).left, fun e he => (hall e (hmem e he)).right⟩

theorem stores_odNode {odChild : OdValue -> Option DataNode} {nullOk : Bool -> Bool}
    (hchild : forall j v n, Answers false j v -> odChild v = some n -> Stores j n) {v : OdValue}
    (h : Answers false j v) (hn : odNode odChild nullOk v = some n) : Stores j n := by
  cases v with
  | invalid => cases hn
  | null isNull =>
    cases j <;> try exact h.elim
    rw [odNode] at hn
    split at hn
    · rw [← Option.some.inj hn]
      exact Stores.leaf trivial (fun _ => rfl) (fun _ => trivial)
    · cases hn
  | boolean getBool =>
    cases j <;> try exact h.elim
    rcases Option.map_eq_some_iff.mp hn with ⟨b, hb, rfl⟩
    rw [eq_some_of_gives h hb]
    exact Stores.leaf trivial (fun _ => rfl) (fun _ => trivial)
  | number i u d =>
    cases j <;> try exact h.elim
    exact stores_number h hn
  | string getString =>
    cases j <;> try exact h.elim
    rename_i s
    rcases Option.map_eq_some_iff.mp hn with ⟨bs, hbs, rfl⟩
    have hdecode := decode_of_stringAnswers h hbs
    refine Stores.leaf ?_ ?_ ?_
    · change decode s ≠ none
      rw [hdecode]
      exact Option.some_ne_none bs
    · intro levels
      rw [valueWith, string, hdecode]
      rfl
    · intro hutf8
      exact isUtf8_decode hutf8 hdecode
  | array getArray =>
    rcases Option.bind_eq_some_iff.mp hn with ⟨children, rfl, hmap⟩
    rcases Option.map_eq_some_iff.mp hmap with ⟨es, hes, rfl⟩
    cases j <;> try exact h.elim
    rcases stores_odElems hchild h hes with ⟨ns, rfl, hns⟩
    exact stores_array hns
  | object getObject =>
    rcases Option.bind_eq_some_iff.mp hn with ⟨fields, rfl, hmap⟩
    rcases Option.map_eq_some_iff.mp hmap with ⟨es, hes, rfl⟩
    cases j <;> try exact h.elim
    rcases stores_odFields hchild h hes with ⟨entries, rfl, hentries⟩
    exact stores_object hentries

theorem stores_odToNode (levels : Nat) (j : Json) (v : OdValue) (n : DataNode)
    (h : Answers false j v) (hn : odToNode levels v = some n) : Stores j n := by
  induction levels generalizing j v n with
  | zero => cases hn
  | succ levels ih => exact stores_odNode ih h hn

/-- What the parser returns for a JSON text holds the value of the text. -/
theorem stores_dataParseJson {iterate : Bytes -> Except String OdValue} {data : Bytes}
    (hconforms : Conforms false iterate j data) (hn : (dataParseJson iterate data).1 = some n) :
    Stores j n := by
  unfold dataParseJson at hn
  unfold Conforms at hconforms
  split at hn
  · cases hn
  · cases hdoc : iterate data with
    | error message =>
      rw [hdoc] at hn
      cases hn
    | ok doc =>
      rw [hdoc] at hn hconforms
      exact stores_odNode (stores_odToNode maxParseDepth) hconforms hn

/-- Whatever the order in which maps are iterated, the text that the serializer
writes for a parsed JSON text is a JSON text again, and it denotes the value of
the parsed text with numbers as they are stored and cut at the depth limit. -/
theorem dataSerializeJson_dataParseJson {iterate : Bytes -> Except String OdValue} {j : Json}
    {data : Bytes} {n n' : DataNode} (htext : IsText j data)
    (hconforms : Conforms false iterate j data) (hn : (dataParseJson iterate data).1 = some n)
    (horder : Reorders n n') (pretty : Bool) :
    j.Decodable ∧ exists j', IsText j' (dataSerializeJson n' pretty) ∧
      j'.Decodable ∧
      j'.value = (j.valueWith stored).cut (maxSerializeDepth + 1) := by
  have hstores := stores_dataParseJson hconforms hn
  have hstrings : j.Everywhere StringsUtf8 := by
    rcases htext.spelled with ⟨a, w, b, ha, hw, hb, rfl⟩
    exact (isUtf8_spells hw).mp ((isUtf8_ws ha hb).mp htext.isUtf8)
  have hspells := spells_dataSerializeJson n' pretty
  have hutf8 := textUtf8_reorders horder (hstores.isUtf8 hstrings)
  refine ⟨hstores.decodable, written (maxSerializeDepth + 1) n', ⟨?_, ?_⟩,
    decodable_written _ _, ?_⟩
  · exact ⟨[], _, [], ws_nil, hspells, ws_nil, by simp⟩
  · exact (isUtf8_spells hspells).mpr (stringsUtf8_written hutf8)
  · rw [value_written, hstores.value, nodeValue_reorders horder]

theorem wf_integer {neg : Bool} {ds : List Digit} (h : NoLeadingZero ds) :
    Literal.Wf ⟨neg, ds, [], none⟩ := by
  refine ⟨h, ?_⟩
  intro e he
  cases he

/-- The document with the members `"a":1` and `"a":2`. -/
def repeatedKey : Json :=
  .obj [([.raw (byte 'a')], .num ⟨false, [1], [], none⟩),
    ([.raw (byte 'a')], .num ⟨false, [2], [], none⟩)]

theorem isText_repeatedKey : IsText repeatedKey
    (ascii ['{', '"', 'a', '"', ':', '1', ',', '"', 'a', '"', ':', '2', '}']) := by
  have hkey : forall i, i ∈ [Item.raw (byte 'a')] -> i.Ok := by decide
  have hone : Literal.Wf ⟨false, [1], [], none⟩ := wf_integer (by decide)
  have htwo : Literal.Wf ⟨false, [2], [], none⟩ := wf_integer (by decide)
  refine ⟨⟨[], _, [], ws_nil, .obj (.more ws_nil hkey ws_nil ws_nil (.num hone) ws_nil
    (.last ws_nil hkey ws_nil ws_nil (.num htwo) ws_nil)), ws_nil, ?_⟩, ?_⟩
  · decide
  · exact isUtf8_of_allAscii (by decide)

theorem dataSerializeJson_dataParseJson_repeatedKey :
    repeatedKey.Decodable ∧ exists j',
      IsText j' (dataSerializeJson (.object [([byte 'a'], .int 1)]) true) ∧
      j'.Decodable ∧
      j'.value = (repeatedKey.valueWith stored).cut (maxSerializeDepth + 1) := by
  have hparse : (dataParseJson (fun _ => .ok (reply repeatedKey)) (ascii
      ['{', '"', 'a', '"', ':', '1', ',', '"', 'a', '"', ':', '2', '}'])).1 =
      some (.object [([byte 'a'], .int 1)]) := by
    have hone : FitsInt64 ⟨false, [1], [], none⟩ := by decide
    have htwo : FitsInt64 ⟨false, [2], [], none⟩ := by decide
    simp only [dataParseJson, repeatedKey, reply, replyFields, if_pos hone,
      if_pos htwo]
    rfl
  exact dataSerializeJson_dataParseJson isText_repeatedKey
    (conforms_reply false repeatedKey _) hparse (.same _) true

/-!
## Where the value changes
-/

def uint64Max : Literal :=
  ⟨false, [1, 8, 4, 4, 6, 7, 4, 4, 0, 7, 3, 7, 0, 9, 5, 5, 1, 6, 1, 5], [], none⟩

theorem not_positive_of_minus {rest : Bytes} {v : Int} (h : IsText j (byte '-' :: rest))
    (hv : 0 < v) : j.value ≠ .num (.int v) := by
  intro hvalue
  rcases h.spelled with ⟨a, w, b, ha, hw, _, hdata⟩
  have hstart : byte '-' :: rest = w ++ b := by
    cases a with
    | nil => exact hdata
    | cons c a =>
      have hws := ha c (by simp)
      rw [cons_append, List.cons.injEq] at hdata
      rw [← hdata.left] at hws
      cases hws
  cases hw <;> try cases hvalue
  rename_i l hwf
  rw [value, valueWith, Number.ofLiteral] at hvalue
  split at hvalue
  · have hint : l.intValue = v := by
      injection hvalue with hnum
      injection hnum
    cases hneg : l.neg with
    | true =>
      rw [intValue, if_pos hneg] at hint
      omega
    | false =>
      rcases exists_cons_of_ne_nil hwf.left.left with ⟨d, ds, hdigits⟩
      have htext : l.text = digitByte d :: (digitText ds ++
          (fracText l.frac ++ expText l.exp)) := by
        simp [text, hneg, hdigits, digitText]
      rw [htext, cons_append, List.cons.injEq] at hstart
      have hminus : forall d : Digit, byte '-' ≠ digitByte d := by decide
      exact hminus d hstart.left
  · injection hvalue with hnum
    cases hnum

/-- With a library that answers everything as documented, the greatest `uint64_t`
comes back as another number. -/
theorem value_changes_uint64Max :
    exists (iterate : Bytes -> Except String OdValue) (j : Json) (data : Bytes)
      (n : DataNode), IsText j data ∧ Conforms true iterate j data ∧
      (dataParseJson iterate data).1 = some n ∧
      forall pretty j', IsText j' (dataSerializeJson n pretty) -> j'.value ≠ j.value := by
  have hwf : uint64Max.Wf := wf_integer (by decide)
  refine ⟨fun _ => .ok (reply (.num uint64Max)), .num uint64Max, uint64Max.text,
    .int (-1), ⟨⟨[], _, [], ws_nil, .num hwf, ws_nil, by simp⟩, ?_⟩,
    conforms_reply true _ _, rfl, ?_⟩
  · exact isUtf8_of_allAscii (allAscii_literal _)
  · intro pretty j' htext
    have htext' : dataSerializeJson (.int (-1)) pretty = byte '-' :: [byte '1'] := by
      cases pretty <;> decide +kernel
    rw [htext'] at htext
    have hvalue : Json.value (.num uint64Max) = .num (.int (2 ^ 64 - 1)) := by
      have hnumber : Number.ofLiteral uint64Max = .int (2 ^ 64 - 1) := by decide +kernel
      rw [value, valueWith, hnumber]
    rw [hvalue]
    exact not_positive_of_minus htext (by decide)

end Async2.Json
