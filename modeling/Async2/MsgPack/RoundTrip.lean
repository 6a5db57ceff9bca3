import Async2.MsgPack.Accepts

/-!
# Serialized trees come back

What the serializer writes is an encoding in the format, whatever width it
picks for a number, a length or a count.  The parser therefore returns the tree,
except that the format does not tell an empty int-map from an empty object.
-/

namespace Async2.MsgPack

open AssocList BigEndian DataNode Int64

/-!
## The tree that comes back
-/

mutual

/-- The tree with every empty int-map replaced by an empty object. -/
def comesBack : DataNode -> DataNode
  | .array es => .array (comesBackElems es)
  | .object es => .object (comesBackEntries es)
  | .intMap es => if es.isEmpty then .object [] else .intMap (comesBackIntEntries es)
  | n => n

def comesBackElems : List DataNode -> List DataNode
  | [] => []
  | e :: rest => comesBack e :: comesBackElems rest

def comesBackEntries : List (Bytes × DataNode) -> List (Bytes × DataNode)
  | [] => []
  | (k, v) :: rest => (k, comesBack v) :: comesBackEntries rest

def comesBackIntEntries : List (Int64 × DataNode) -> List (Int64 × DataNode)
  | [] => []
  | (k, v) :: rest => (k, comesBack v) :: comesBackIntEntries rest

end

theorem comesBackElems_eq (es : List DataNode) : comesBackElems es = es.map comesBack := by
  induction es with
  | nil => rfl
  | cons e rest ih => rw [comesBackElems, ih, List.map_cons]

theorem comesBackEntries_eq (es : List (Bytes × DataNode)) :
    comesBackEntries es = es.map fun e => (e.1, comesBack e.2) := by
  induction es with
  | nil => rfl
  | cons e rest ih => rw [comesBackEntries, ih, List.map_cons]

theorem comesBackIntEntries_eq (es : List (Int64 × DataNode)) :
    comesBackIntEntries es = es.map fun e => (e.1, comesBack e.2) := by
  induction es with
  | nil => rfl
  | cons e rest ih => rw [comesBackIntEntries, ih, List.map_cons]

/-!
## Lengths and counts
-/

section

variable {widen : UInt32 -> UInt64} {bs : Bytes} {E : Bytes -> DataNode -> Prop} {v : Int64}
  {n k : Nat} {tag : UInt8}

theorem writeU8_ofNat (hn : n <= 0xff) : writeU8 (UInt8.ofNat n) = beBytes 1 n := by
  rw [writeU8_eq, UInt8.toNat_ofNat_of_lt' (Nat.lt_succ_of_le hn)]

theorem writeU16_ofNat (hn : n <= 0xffff) : writeU16 (UInt16.ofNat n) = beBytes 2 n := by
  rw [writeU16_eq, UInt16.toNat_ofNat_of_lt' (Nat.lt_succ_of_le hn)]

theorem writeU32_ofNat (hn : n < 2 ^ 32) : writeU32 (UInt32.ofNat n) = beBytes 4 n := by
  rw [writeU32_eq, UInt32.toNat_ofNat_of_lt' hn]

theorem leafEncodes_writeMsgpackStr {s : Bytes} (hs : s.length < 2 ^ 32) :
    LeafEncodes widen (writeMsgpackStr s) (.string s) := by
  rw [writeMsgpackStr]
  split
  case isTrue h31 =>
    have hlead : forall n, n < 32 -> (0xa0 : UInt8) ||| UInt8.ofNat n =
        UInt8.ofNat (0xa0 + n) := by decide
    rw [hlead s.length (by omega)]
    exact .fixstr (by omega)
  split
  case isTrue h8 =>
    rw [writeU8_ofNat h8]
    exact .str (by decide) (by omega)
  split
  case isTrue h16 =>
    rw [writeU16_ofNat h16]
    exact .str (by decide) (by omega)
  rw [writeU32_ofNat hs]
  exact .str (by decide) (by omega)

theorem leafEncodes_writeBinary {b : Bytes} (hb : b.length < 2 ^ 32) :
    LeafEncodes widen (writeBinaryHeader b.length ++ b) (.binary b) := by
  rw [writeBinaryHeader]
  split
  case isTrue h8 =>
    rw [writeU8_ofNat h8]
    exact .bin (by decide) (by omega)
  split
  case isTrue h16 =>
    rw [writeU16_ofNat h16]
    exact .bin (by decide) (by omega)
  rw [writeU32_ofNat hb]
  exact .bin (by decide) (by omega)

theorem countEncodes_writeCount {fix tag16 tag32 : UInt8}
    (hfix : forall k, k < 16 -> fix ||| UInt8.ofNat k = UInt8.ofNat (fix.toNat + k))
    (hn : n < 2 ^ 32) : CountEncodes fix.toNat tag16 tag32 (writeCount fix tag16 tag32 n) n := by
  rw [writeCount]
  split
  case isTrue h15 =>
    rw [hfix n (by omega)]
    exact .fixed (by omega)
  split
  case isTrue h16 =>
    rw [writeU16_ofNat h16]
    exact .wide16 (by omega)
  rw [writeU32_ofNat hn]
  exact .wide32 (by omega)

theorem arrayHeader_writeArrayHeader (hn : n < 2 ^ 32) : ArrayHeader (writeArrayHeader n) n := by
  change CountEncodes (0x90 : UInt8).toNat 0xdc 0xdd (writeCount 0x90 0xdc 0xdd n) n
  exact countEncodes_writeCount (by decide) hn

theorem mapHeader_writeMsgpackMapHeader (hn : n < 2 ^ 32) :
    MapHeader (writeMsgpackMapHeader n) n := by
  change CountEncodes (0x80 : UInt8).toNat 0xde 0xdf (writeCount 0x80 0xde 0xdf n) n
  exact countEncodes_writeCount (by decide) hn

/-!
## Integers

Casts of a 64-bit integer keep its low bits, so they stand for its residues.
-/

theorem eq_emod_of_bmod_eq {m : Nat} {n : Int} (hk : k < m) (h : n.bmod m = (k : Int).bmod m) :
    (k : Int) = n % m := by
  have hmod := congrArg (fun x : Int => x % m) h
  simp only [Int.bmod_emod] at hmod
  rw [hmod, Int.emod_eq_of_lt (by omega) (by omega)]

theorem toUInt64_toNat (v : Int64) : (v.toUInt64.toNat : Int) = v.toInt % 256 ^ 8 := by
  have hcast := toInt64_toInt v.toUInt64
  rw [toInt64_toUInt64] at hcast
  refine eq_emod_of_bmod_eq (m := 2 ^ 64) v.toUInt64.toNat_lt ?_
  rw [← hcast, hcast, Int.bmod_bmod]

theorem toInt8_toUInt8_toNat (v : Int64) : (v.toInt8.toUInt8.toNat : Int) = v.toInt % 256 ^ 1 := by
  have hcast := toInt8_toInt v.toInt8.toUInt8
  rw [Int8.toInt8_toUInt8, toInt_toInt8] at hcast
  exact eq_emod_of_bmod_eq (m := 256) (UInt8.toNat_lt _) hcast

theorem toInt16_toUInt16_toNat (v : Int64) :
    (v.toInt16.toUInt16.toNat : Int) = v.toInt % 256 ^ 2 := by
  have hcast := toInt16_toInt v.toInt16.toUInt16
  rw [Int16.toInt16_toUInt16, toInt_toInt16] at hcast
  exact eq_emod_of_bmod_eq (m := 65536) (UInt16.toNat_lt _) hcast

theorem toInt32_toUInt32_toNat (v : Int64) :
    (v.toInt32.toUInt32.toNat : Int) = v.toInt % 256 ^ 4 := by
  have hcast := toInt32_toInt v.toInt32.toUInt32
  rw [Int32.toInt32_toUInt32, toInt_toInt32] at hcast
  exact eq_emod_of_bmod_eq (m := 4294967296) (UInt32.toNat_lt _) hcast

theorem leafEncodes_of_nonneg (htag : (tag, k) ∈ uintTags) (hk : v.toUInt64.toNat < 256 ^ k)
    (hbs : bs = beBytes k v.toUInt64.toNat) : LeafEncodes widen (writeU8 tag ++ bs) (.int v) := by
  have hvalue : v = Int64.ofNat v.toUInt64.toNat := by
    rw [← toInt64_eq_ofNat, toInt64_toUInt64]
  have h : LeafEncodes widen _ _ := .uint htag hk
  rwa [← hvalue, ← hbs] at h

theorem leafEncodes_of_neg {m : Nat} (htag : (tag, k) ∈ sintTags)
    (hlow : -(128 * 256 ^ (k - 1)) <= v.toInt) (hhigh : v.toInt < 128 * 256 ^ (k - 1))
    (hm : (m : Int) = v.toInt % 256 ^ k) (hbs : bs = beBytes k m) :
    LeafEncodes widen (writeU8 tag ++ bs) (.int v) := by
  have h : LeafEncodes widen _ _ := .sint htag hlow hhigh
  rwa [← hm, Int.toNat_natCast, ← hbs, ofInt_toInt] at h

theorem leafEncodes_writeMsgpackInt (v : Int64) :
    LeafEncodes widen (writeMsgpackInt v) (.int v) := by
  have hlt := v.toInt_lt
  have hle := v.le_toInt
  have hnat := toUInt64_toNat v
  have hnat8 := toInt8_toUInt8_toNat v
  simp only [writeMsgpackInt, ge_iff_le, le_iff_toInt_le]
  split
  case isTrue hpos =>
    replace hpos : 0 <= v.toInt := hpos
    split
    case isTrue h7 =>
      replace h7 : v.toInt <= 0x7f := h7
      have hvalue : v = Int64.ofNat v.toUInt64.toNat := by
        rw [← toInt64_eq_ofNat, toInt64_toUInt64]
      have h : LeafEncodes widen _ _ := .posFixint (n := v.toUInt64.toNat) (by omega)
      rwa [← hvalue] at h
    split
    case isTrue h8 =>
      replace h8 : v.toInt <= 0xff := h8
      refine leafEncodes_of_nonneg (k := 1) (by decide) (by omega) ?_
      rw [writeU8_eq, UInt64.toNat_toUInt8, Nat.mod_eq_of_lt (by omega)]
    split
    case isTrue h16 =>
      replace h16 : v.toInt <= 0xffff := h16
      refine leafEncodes_of_nonneg (k := 2) (by decide) (by omega) ?_
      rw [writeU16_eq, UInt64.toNat_toUInt16, Nat.mod_eq_of_lt (by omega)]
    split
    case isTrue h32 =>
      replace h32 : v.toInt <= 0xffffffff := h32
      refine leafEncodes_of_nonneg (k := 4) (by decide) (by omega) ?_
      rw [writeU32_eq, UInt64.toNat_toUInt32, Nat.mod_eq_of_lt (by omega)]
    exact leafEncodes_of_nonneg (k := 8) (by decide) (by omega) (writeU64_eq _)
  case isFalse hneg =>
    replace hneg : ¬ 0 <= v.toInt := hneg
    split
    case isTrue h5 =>
      replace h5 : -32 <= v.toInt := h5
      have h : LeafEncodes widen _ _ :=
        .negFixint (n := (-v.toInt).toNat) (by omega) (by omega)
      have hbyte : v.toInt8.toUInt8 = UInt8.ofNat (256 - (-v.toInt).toNat) := by
        apply UInt8.toNat_inj.mp
        rw [UInt8.toNat_ofNat_of_lt' (show 256 - (-v.toInt).toNat < 256 by omega)]
        omega
      rwa [← hbyte, Int.toNat_of_nonneg (by omega), Int.neg_neg, ofInt_toInt] at h
    split
    case isTrue h8 =>
      replace h8 : -128 <= v.toInt := h8
      exact leafEncodes_of_neg (k := 1) (by decide) (by omega) (by omega) hnat8
        (writeU8_eq _)
    split
    case isTrue h16 =>
      replace h16 : -32768 <= v.toInt := h16
      exact leafEncodes_of_neg (k := 2) (by decide) (by omega) (by omega)
        (toInt16_toUInt16_toNat v) (writeU16_eq _)
    split
    case isTrue h32 =>
      replace h32 : -2147483648 <= v.toInt := h32
      exact leafEncodes_of_neg (k := 4) (by decide) (by omega) (by omega)
        (toInt32_toUInt32_toNat v) (writeU32_eq _)
    exact leafEncodes_of_neg (k := 8) (by decide) (by omega) (by omega) hnat
      (writeU64_eq _)

/-!
## Trees
-/

/-- The sizes in a node fit into the format and under the element limit. -/
def NodeFits (maxElements : Nat) : DataNode -> Prop
  | .string s => s.length < 2 ^ 32
  | .binary b => b.length < 2 ^ 32
  | .array es => es.length <= maxElements
  | .object es => es.length <= maxElements ∧ forall e, e ∈ es -> e.1.length < 2 ^ 32
  | .intMap es => es.length <= maxElements
  | _ => True

theorem seqEncodes_serializeElems {es : List DataNode}
    (h : forall e, e ∈ es -> E (serializeNode e) (comesBack e)) :
    SeqEncodes E (serializeElems es) (es.map comesBack) := by
  induction es with
  | nil => exact .nil
  | cons e rest ih =>
    exact .cons (h e (by simp)) (ih fun x hx => h x (by simp [hx]))

/-- The entries of either kind of map, `body` being what is written for them. -/
theorem entriesEncode_serialize {K : Type} {key : K -> DataNode} {write : K -> Bytes}
    (body : List (K × DataNode) -> Bytes) (hnil : body [] = [])
    (hcons : forall k v es, body ((k, v) :: es) = write k ++ serializeNode v ++ body es)
    {es : List (K × DataNode)} (h : forall e, e ∈ es ->
      E (write e.1) (key e.1) ∧ E (serializeNode e.2) (comesBack e.2)) :
    EntriesEncode E key (body es) (es.map fun e => (e.1, comesBack e.2)) := by
  induction es with
  | nil =>
    rw [hnil]
    exact .nil
  | cons e rest ih =>
    rw [hcons, List.append_assoc]
    exact .cons (h e (by simp)).1 (h e (by simp)).2 (ih fun x hx => h x (by simp [hx]))

theorem upsertAll_comesBack {K : Type} [DecidableEq K] {es : List (K × DataNode)}
    (h : DistinctKeys es) :
    upsertAll [] (es.map fun e => (e.1, comesBack e.2)) = es.map fun e => (e.1, comesBack e.2) :=
  upsertAll_of_distinct (by simpa [DistinctKeys, keys, Function.comp_def] using h)

variable {maxElements : Nat}

section

variable {levels : Nat} (hmax : maxElements < 2 ^ 32)
include hmax

theorem encodes_array {es : List DataNode} (hcount : es.length <= maxElements)
    (h : forall e, e ∈ es -> Encodes widen maxElements levels (serializeNode e) (comesBack e)) :
    Encodes widen maxElements (levels + 1) (serializeNode (.array es)) (comesBack (.array es)) := by
  rw [comesBack, comesBackElems_eq]
  refine .array ?_ ?_ (seqEncodes_serializeElems h) <;> rw [List.length_map]
  · exact arrayHeader_writeArrayHeader (by omega)
  · exact hcount

theorem encodes_object {es : List (Bytes × DataNode)} (hcount : es.length <= maxElements)
    (hdistinct : DistinctKeys es) (h : forall e, e ∈ es ->
      Encodes widen maxElements levels (writeMsgpackStr e.1) (.string e.1) ∧
        Encodes widen maxElements levels (serializeNode e.2) (comesBack e.2)) :
    Encodes widen maxElements (levels + 1) (serializeNode (.object es))
      (comesBack (.object es)) := by
  rw [comesBack, comesBackEntries_eq, ← upsertAll_comesBack hdistinct]
  refine .object ?_ ?_ (entriesEncode_serialize serializeEntries rfl (fun _ _ _ => rfl) h) <;>
    rw [List.length_map]
  · exact mapHeader_writeMsgpackMapHeader (by omega)
  · exact hcount

theorem encodes_intMap {es : List (Int64 × DataNode)} (hcount : es.length <= maxElements)
    (hdistinct : DistinctKeys es) (h : forall e, e ∈ es ->
      Encodes widen maxElements levels (writeMsgpackInt e.1) (.int e.1) ∧
        Encodes widen maxElements levels (serializeNode e.2) (comesBack e.2)) :
    Encodes widen maxElements (levels + 1) (serializeNode (.intMap es))
      (comesBack (.intMap es)) := by
  cases es with
  | nil =>
    -- The header of an empty int-map is that of an empty object.
    exact @NodeEncodes.object widen maxElements _ _ [] []
      (mapHeader_writeMsgpackMapHeader (by decide)) (Nat.zero_le _) .nil
  | cons e rest =>
    change NodeEncodes widen maxElements _ _ (.intMap (comesBackIntEntries (e :: rest)))
    rw [comesBackIntEntries_eq, ← upsertAll_comesBack hdistinct]
    refine .intMap (by simp) ?_ ?_
      (entriesEncode_serialize serializeIntEntries rfl (fun _ _ _ => rfl) h) <;>
      rw [List.length_map]
    · exact mapHeader_writeMsgpackMapHeader (by omega)
    · exact hcount

end

/-- The serializer writes an encoding of the tree that comes back. -/
theorem encodes_serializeNode (hmax : maxElements < 2 ^ 32) (n : DataNode) (hwf : WellFormed n)
    (hfits : Everywhere (NodeFits maxElements) n) (levels : Nat) (hheight : height n <= levels) :
    Encodes widen maxElements (levels + 1) (serializeNode n) (comesBack n) := by
  induction n using treeInduction generalizing levels with
  | null => exact .leaf .nil
  | bool b => exact .leaf (.bool b)
  | int v => exact .leaf (leafEncodes_writeMsgpackInt v)
  | float bits =>
    rw [serializeNode, writeF64, writeU64_eq]
    exact .leaf (.float64 bits)
  | string s => exact .leaf (leafEncodes_writeMsgpackStr hfits)
  | binary b => exact .leaf (leafEncodes_writeBinary hfits)
  | array es ih =>
    obtain ⟨-, hwfs⟩ := everywhere_array.mp hwf
    obtain ⟨hcount, hfitss⟩ := everywhere_array.mp hfits
    refine encodes_array hmax hcount fun e he => ?_
    have hlt := height_lt_of_mem_array he
    obtain ⟨l, rfl⟩ : exists l, levels = l + 1 := ⟨levels - 1, by omega⟩
    exact ih e he (hwfs e he) (hfitss e he) l (by omega)
  | object es ih =>
    obtain ⟨hdistinct, hwfs⟩ := everywhere_object.mp hwf
    obtain ⟨⟨hcount, hkeylen⟩, hfitss⟩ := everywhere_object.mp hfits
    refine encodes_object hmax hcount hdistinct fun e he => ?_
    have hlt := height_lt_of_mem_object he
    obtain ⟨l, rfl⟩ : exists l, levels = l + 1 := ⟨levels - 1, by omega⟩
    exact ⟨.leaf (leafEncodes_writeMsgpackStr (hkeylen e he)),
      ih e he (hwfs e he) (hfitss e he) l (by omega)⟩
  | intMap es ih =>
    obtain ⟨hdistinct, hwfs⟩ := everywhere_intMap.mp hwf
    obtain ⟨hcount, hfitss⟩ := everywhere_intMap.mp hfits
    refine encodes_intMap hmax hcount hdistinct fun e he => ?_
    have hlt := height_lt_of_mem_intMap he
    obtain ⟨l, rfl⟩ : exists l, levels = l + 1 := ⟨levels - 1, by omega⟩
    exact ⟨.leaf (leafEncodes_writeMsgpackInt e.1),
      ih e he (hwfs e he) (hfitss e he) l (by omega)⟩

end

/-- Parsing what was serialized gives the tree back, up to empty int-maps, on every build that
can hold the buffer. -/
theorem msgPackParse_msgPackSerialize {B : Build} (widen : UInt32 -> UInt64) {maxElements : Nat}
    (hmax : maxElements < 2 ^ 32) (t : Tree) (hheight : height t.node <= kMaxDepth)
    (hfits : Everywhere (NodeFits maxElements) t.node)
    (hbuffer : B.Holds (msgPackSerialize t.node).length) :
    msgPackParse B widen maxElements (msgPackSerialize t.node) = .ok (comesBack t.node) :=
  msgPackParse_of_encodes hbuffer
    (encodes_serializeNode hmax t.node t.wellFormed hfits kMaxDepth hheight)

/-- An int-map with one entry inside an array, next to an empty one. -/
theorem msgPackParse_msgPackSerialize_nested :
    msgPackParse x64 (fun bits => bits.toUInt64) 1000000
        (msgPackSerialize (.array [.intMap [(-1, .bool true)], .intMap []])) =
      .ok (.array [.intMap [(-1, .bool true)], .object []]) :=
  msgPackParse_msgPackSerialize (fun bits => bits.toUInt64) (by decide)
    ⟨.array [.intMap [(-1, .bool true)], .intMap []],
      by simp [WellFormed, Everywhere, EverywhereElems, EverywhereIntEntries,
        MapKeysDistinct, DistinctKeys, keys]⟩
    (by decide)
    (by simp [Everywhere, EverywhereElems, EverywhereIntEntries, NodeFits])
    ⟨by decide, by decide, by decide, by decide, by decide⟩

end Async2.MsgPack
