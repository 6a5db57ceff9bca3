import Async2.Hjson.Inverts

/-!
# HJSON as a superset of JSON

The parser returns the tree of a JSON text exactly when no `\u` escape of the
text is half of a surrogate pair.  The two halves of a pair denote one character,
but the parser encodes each half by itself, which gives six bytes instead of
four.
-/

namespace Async2.Hjson

open Json AssocList List Option

/-!
## One escape
-/

/-- The item is half of a surrogate pair. -/
def isSurrogate : Item -> Bool
  | .unicode u => decide (u.IsHigh ∨ u.IsLow)
  | _ => false

/-- The strings of a value itself use no surrogate pairs. -/
def NoSurrogates : Json -> Prop
  | .str s => forall i, i ∈ s -> isSurrogate i = false
  | .obj members => forall m, m ∈ members -> forall i, i ∈ m.1 -> isSurrogate i = false
  | _ => True

variable {u : CodeUnit} {s : List Item}

theorem mark_or {i a b : Nat} (h : b < 2 ^ i) : 2 ^ i * a ||| b = b + 2 ^ i * a := by
  rw [← Nat.two_pow_add_eq_or_of_lt h, Nat.add_comm]

theorem utf8Encode_eq_utf8 {cp : Nat} (hcp : cp < 0x10000)
    (hplain : ¬(0xD800 <= cp ∧ cp < 0xE000)) : utf8Encode cp = utf8 cp := by
  have hvalid : cp.isValidChar := by
    unfold Nat.isValidChar
    omega
  have hval : (Char.ofNat cp).val.toNat = cp := by
    rw [Char.ofNat, dif_pos hvalid]
    rfl
  have hcont : forall v, 0x80 ||| (v &&& 0x3F) = v % 64 + 128 := by
    intro v
    rw [show (0x3F : Nat) = 2 ^ 6 - 1 by decide, Nat.and_two_pow_sub_one_eq_mod]
    exact mark_or (i := 6) (a := 2) (Nat.mod_lt v (by decide))
  unfold utf8Encode utf8 String.utf8EncodeChar
  dsimp only
  rw [hval]
  by_cases hone : cp < 0x80
  · rw [if_pos hone, if_pos (by omega)]
  · rw [if_neg hone, if_neg (show ¬cp <= 127 by omega)]
    by_cases htwo : cp < 0x800
    · have hlead : 0xC0 ||| (cp >>> 6) = cp / 64 % 32 + 192 := by
        rw [Nat.shiftRight_eq_div_pow, Nat.mod_eq_of_lt (by omega)]
        exact mark_or (i := 5) (a := 6) (by omega)
      rw [if_pos htwo, if_pos (by omega), hlead, hcont]
    · have hlead : 0xE0 ||| (cp >>> 12) = cp / 4096 % 16 + 224 := by
        rw [Nat.shiftRight_eq_div_pow, Nat.mod_eq_of_lt (by omega)]
        exact mark_or (i := 4) (a := 14) (by omega)
      rw [if_neg htwo, if_pos hcp, if_neg (show ¬cp <= 2047 by omega),
        if_pos (show cp <= 65535 by omega), hlead, hcont, hcont,
        Nat.shiftRight_eq_div_pow]

theorem value_lt (u : CodeUnit) : u.value < 0x10000 := by
  have h1 := u.first.value.isLt
  have h2 := u.second.value.isLt
  have h3 := u.third.value.isLt
  have h4 := u.fourth.value.isLt
  unfold CodeUnit.value
  omega

/-- Outside of surrogate pairs the parser makes of an item what it denotes. -/
theorem alone_of_not_surrogate {i : Item} (h : isSurrogate i = false) :
    i.alone = some (itemBytes i) := by
  cases i with
  | raw b | escape e => rfl
  | unicode u =>
    rw [isSurrogate, decide_eq_false_iff_not] at h
    rw [Item.alone, if_neg h, itemBytes, utf8Encode_eq_utf8 (value_lt u) (by
      rw [CodeUnit.IsHigh, CodeUnit.IsLow] at h
      omega)]

/-!
## Strings
-/

theorem decode_of_not_surrogate (h : forall i, i ∈ s -> isSurrogate i = false) :
    decode s = some (stringBytes s) := by
  induction s with
  | nil => rfl
  | cons i rest ih =>
    rw [decode_cons_of_alone (alone_of_not_surrogate (h i (by simp))),
      ih (fun x hx => h x (by simp [hx]))]
    rfl

def surrogates (s : List Item) : Nat := s.countP isSurrogate

theorem length_utf8Encode_surrogate (h : u.IsHigh ∨ u.IsLow) : (utf8Encode u.value).length = 3 := by
  rw [CodeUnit.IsHigh, CodeUnit.IsLow] at h
  unfold utf8Encode
  rw [if_neg (by omega), if_neg (by omega), if_pos (by omega)]
  rfl

theorem length_utf8_pair {v : CodeUnit} (hu : u.IsHigh) (hv : v.IsLow) :
    (utf8 (pairCodePoint u.value v.value)).length = 4 := by
  have hcp : 0x10000 <= pairCodePoint u.value v.value ∧
      pairCodePoint u.value v.value < 0x110000 := by
    rw [CodeUnit.IsHigh] at hu
    rw [CodeUnit.IsLow] at hv
    unfold pairCodePoint
    omega
  have hval : (Char.ofNat (pairCodePoint u.value v.value)).val.toNat =
      pairCodePoint u.value v.value := by
    have hvalid : (pairCodePoint u.value v.value).isValidChar := by
      unfold Nat.isValidChar
      omega
    rw [Char.ofNat, dif_pos hvalid]
    rfl
  unfold utf8 String.utf8EncodeChar
  dsimp only
  rw [hval, if_neg (by omega), if_neg (by omega), if_neg (by omega)]
  rfl

/-- Each half of a pair costs one byte more than it should.  When the first half
has just been read, its three bytes are still to be paid for. -/
theorem length_stringBytes (s : List Item) (p : Option CodeUnit) (bs : Bytes)
    (hp : forall u, p = some u -> u.IsHigh) (h : decodeFrom p s = some bs) :
    (stringBytes s).length + (if p = none then 0 else 2) = bs.length + surrogates s := by
  induction s generalizing p bs with
  | nil =>
    cases p with
    | none =>
      rw [← Option.some.inj h]
      rfl
    | some u => cases h
  | cons i rest ih =>
    have hbytes : (stringBytes (i :: rest)).length =
        (itemBytes i).length + (stringBytes rest).length := by
      rw [stringBytes, flatMap_cons, length_append, stringBytes]
    have hcount : surrogates (i :: rest) =
        surrogates rest + if isSurrogate i then 1 else 0 := countP_cons
    have hnone : forall u : CodeUnit, none = some u -> u.IsHigh := by
      intro u hu
      cases hu
    -- An item that denotes its bytes by itself changes nothing.
    have hplain : isSurrogate i = false -> p = none ->
        (stringBytes (i :: rest)).length + (if p = none then 0 else 2) =
          bs.length + surrogates (i :: rest) := by
      intro hi hp
      subst hp
      change decode (i :: rest) = some bs at h
      rw [decode_cons_of_alone (alone_of_not_surrogate hi)] at h
      rcases map_eq_some_iff.mp h with ⟨ds, hds, rfl⟩
      have hrest := ih none ds hnone hds
      rw [if_pos rfl] at hrest ⊢
      rw [hbytes, hcount, hi, if_neg Bool.false_ne_true, length_append]
      omega
    cases i with
    | raw b | escape e =>
      cases p with
      | none => exact hplain rfl rfl
      | some u => cases h
    | unicode v =>
      have hsurrogate : v.IsHigh ∨ v.IsLow ->
          (stringBytes (.unicode v :: rest)).length =
            3 + (stringBytes rest).length ∧
          surrogates (.unicode v :: rest) = surrogates rest + 1 := by
        intro hv
        rw [hbytes, hcount, isSurrogate, decide_eq_true hv, itemBytes,
          length_utf8Encode_surrogate hv]
        exact ⟨rfl, rfl⟩
      cases p with
      | none =>
        rw [decodeFrom] at h
        split at h
        · rename_i hhigh
          have hrest := ih (some v) bs (by
            intro u hu
            rw [← Option.some.inj hu]
            exact hhigh) h
          have hsizes := hsurrogate (.inl hhigh)
          rw [if_neg (some_ne_none v)] at hrest
          rw [if_pos rfl]
          omega
        · split at h
          · cases h
          · rename_i hhigh hlow
            refine hplain ?_ rfl
            rw [isSurrogate, decide_eq_false_iff_not, not_or]
            exact ⟨hhigh, hlow⟩
      | some u =>
        rw [decodeFrom] at h
        split at h
        · rename_i hlow
          rcases map_eq_some_iff.mp h with ⟨ds, hds, rfl⟩
          have hrest := ih none ds hnone hds
          have hsizes := hsurrogate (.inr hlow)
          rw [if_pos rfl] at hrest
          rw [if_neg (some_ne_none u), length_append, length_utf8_pair (hp u rfl) hlow]
          omega
        · cases h

/-- The parser makes of a string what it denotes exactly when the string uses no
surrogate pairs. -/
theorem stringBytes_eq_string_iff (h : decode s ≠ none) :
    stringBytes s = string s <-> forall i, i ∈ s -> isSurrogate i = false := by
  constructor
  · intro heq
    cases hs : decode s with
    | none => exact absurd hs h
    | some bs =>
      have hlength := length_stringBytes s none bs (by intro u hu; cases hu) hs
      rw [string, hs, getD_some] at heq
      rw [if_pos rfl, heq] at hlength
      have hzero : surrogates s = 0 := by omega
      intro i hi
      exact Bool.eq_false_iff.mpr (countP_eq_zero.mp hzero i hi)
  · intro hplain
    rw [string, decode_of_not_surrogate hplain]
    rfl

/-!
## Trees
-/

/-- An object comes out right exactly when all of its entries do: an entry that
takes the place of another one would be missing. -/
theorem upsertAll_eq_iff {es fs : List (Bytes × DataNode)} (hlength : es.length = fs.length)
    (hfs : DistinctKeys fs) : upsertAll [] es = fs <-> es = fs := by
  constructor
  · intro h
    have hdistinct : DistinctKeys ([] ++ es) := by
      refine distinct_of_length_upsertAll nodup_nil ?_
      rw [h, length_nil, Nat.zero_add, hlength]
    rw [upsertAll_of_distinct hdistinct, nil_append] at h
    exact h
  · intro h
    subst h
    have hdistinct : DistinctKeys ([] ++ es) := hfs
    rw [upsertAll_of_distinct hdistinct, nil_append]

theorem length_hjsonEntries (members : List (List Item × Json)) :
    (hjsonEntries members).length = (treeEntries members).length := by
  induction members with
  | nil => rfl
  | cons m rest ih =>
    rcases m with ⟨k, j⟩
    rw [hjsonEntries, treeEntries, length_cons, length_cons, ih]

mutual

/-- The parser makes the tree of a document exactly when the document uses no
surrogate pairs. -/
theorem hjsonTree_eq_tree_iff : forall {j : Json}, j.Decodable -> j.KeysDistinct ->
    (hjsonTree j = tree j <-> j.Everywhere NoSurrogates)
  | .null, _, _ => iff_of_true rfl trivial
  | .bool _, _, _ => iff_of_true rfl trivial
  | .num _, _, _ => iff_of_true rfl trivial
  | .str s, hdecodable, _ => by
    rw [hjsonTree, tree, DataNode.string.injEq]
    exact stringBytes_eq_string_iff hdecodable
  | .arr elems, hdecodable, hdistinct => by
    rw [hjsonTree, tree, DataNode.array.injEq,
      hjsonTrees_eq_trees_iff hdecodable.right hdistinct.right]
    exact (and_iff_right trivial).symm
  | .obj members, hdecodable, hdistinct => by
    have hkeys : DistinctKeys (treeEntries members) := by
      unfold DistinctKeys
      rw [keys_treeEntries]
      exact hdistinct.left
    rw [hjsonTree, tree, DataNode.object.injEq,
      upsertAll_eq_iff (length_hjsonEntries members) hkeys,
      hjsonEntries_eq_treeEntries_iff hdecodable.left hdecodable.right
        hdistinct.right]
    rfl

theorem hjsonTrees_eq_trees_iff : forall {elems : List Json},
    EverywhereElems StringsDecode elems -> EverywhereElems MembersDistinct elems ->
    (hjsonTrees elems = trees elems <-> EverywhereElems NoSurrogates elems)
  | [], _, _ => iff_of_true rfl trivial
  | j :: elems, hdecodable, hdistinct => by
    rw [hjsonTrees, trees, List.cons.injEq,
      hjsonTree_eq_tree_iff hdecodable.left hdistinct.left,
      hjsonTrees_eq_trees_iff hdecodable.right hdistinct.right]
    rfl

theorem hjsonEntries_eq_treeEntries_iff : forall {members : List (List Item × Json)},
    (forall m, m ∈ members -> decode m.1 ≠ none) ->
    EverywhereMembers StringsDecode members ->
    EverywhereMembers MembersDistinct members ->
    (hjsonEntries members = treeEntries members <->
      (forall m, m ∈ members -> forall i, i ∈ m.1 -> isSurrogate i = false) ∧
        EverywhereMembers NoSurrogates members)
  | [], _, _, _ => iff_of_true rfl ⟨forall_mem_nil _, trivial⟩
  | (k, j) :: members, hkeys, hdecodable, hdistinct => by
    rw [forall_mem_cons] at hkeys
    rw [hjsonEntries, treeEntries, List.cons.injEq, Prod.mk.injEq,
      stringBytes_eq_string_iff hkeys.left,
      hjsonTree_eq_tree_iff hdecodable.left hdistinct.left,
      hjsonEntries_eq_treeEntries_iff hkeys.right hdecodable.right hdistinct.right,
      forall_mem_cons, EverywhereMembers]
    constructor
    · rintro ⟨⟨hk, hj⟩, hks, hjs⟩
      exact ⟨⟨hk, hks⟩, hj, hjs⟩
    · rintro ⟨⟨hk, hks⟩, hj, hjs⟩
      exact ⟨⟨hk, hj⟩, hks, hjs⟩

end

variable {data : Bytes} {j : Json}

theorem hjsonParse_isText (htext : IsText j data) (hheight : j.height <= maxDepth)
    (hnumbers : j.NumbersOk) (avx2 : Bool) :
    hjsonParse (initScanner avx2) data = .ok (hjsonTree j) := by
  rcases htext.spelled with ⟨a, w, b, ha, hw, hb, rfl⟩
  exact hjsonParse_spells hw hb hheight hnumbers ha avx2

theorem isText_ne_nil (htext : IsText j data) : data ≠ [] := by
  rcases htext.spelled with ⟨a, w, b, _, hw, _, rfl⟩
  rcases spells_starts hw with ⟨c, t, rfl, _⟩
  simp

/-- Take a JSON text whose objects repeat no key, whose numbers and nesting
respect the limits of the parser and whose strings all denote bytes.  The JSON
parser returns the tree of the text, and the HJSON parser returns the same tree
exactly when the text uses no surrogate pairs. -/
theorem hjsonParse_eq_tree_iff {iterate : Bytes -> Except String OdValue} {j : Json}
    {data : Bytes} (htext : IsText j data) (hdistinct : j.KeysDistinct)
    (hheight : j.height <= maxDepth) (hnumbers : j.NumbersOk) (hdecodable : j.Decodable)
    (hconforms : Conforms true iterate j data) (avx2 : Bool) :
    (dataParseJson iterate data).1 = some (tree j) ∧
      (hjsonParse (initScanner avx2) data = .ok (tree j) <-> j.Everywhere NoSurrogates) := by
  have hdepth : maxDepth <= maxParseDepth := by decide
  constructor
  · rw [dataParseJson_of_conforms (isText_ne_nil htext) hconforms
      (hheight.trans hdepth) hnumbers hdecodable hdistinct]
  · rw [hjsonParse_isText htext hheight hnumbers, Outcome.ok.injEq]
    exact hjsonTree_eq_tree_iff hdecodable hdistinct

/-- The string `"\u0041"`. -/
def letterA : Json := .str [.unicode ⟨⟨0, false⟩, ⟨0, false⟩, ⟨4, false⟩, ⟨1, false⟩⟩]

theorem hjsonParse_eq_tree_iff_letterA :
    (dataParseJson (fun _ => .ok (reply letterA)) (ascii
        ['"', '\\', 'u', '0', '0', '4', '1', '"'])).1 = some (tree letterA) ∧
      (hjsonParse (initScanner true) (ascii
          ['"', '\\', 'u', '0', '0', '4', '1', '"']) = .ok (tree letterA) <->
        letterA.Everywhere NoSurrogates) := by
  have hitems : forall i, i ∈ [Item.unicode ⟨⟨0, false⟩, ⟨0, false⟩, ⟨4, false⟩,
      ⟨1, false⟩⟩] -> i.Ok := by decide
  have htext : IsText letterA (ascii ['"', '\\', 'u', '0', '0', '4', '1', '"']) :=
    ⟨⟨[], _, [], ws_nil, .str hitems, ws_nil, by decide⟩,
      Utf8.isUtf8_of_allAscii (by decide)⟩
  have hdecodable : letterA.Decodable := by
    change decode _ ≠ none
    decide
  exact hjsonParse_eq_tree_iff htext trivial (Nat.zero_le _) trivial hdecodable
    (conforms_reply true letterA _) true

/-- The string `"\ud83d\ude00"`, a surrogate pair. -/
def grinningFace : Json :=
  .str [.unicode ⟨⟨13, false⟩, ⟨8, false⟩, ⟨3, false⟩, ⟨13, false⟩⟩,
    .unicode ⟨⟨13, false⟩, ⟨14, false⟩, ⟨0, false⟩, ⟨0, false⟩⟩]

/-- A pair is one character of four bytes; the parser makes six bytes of it. -/
theorem hjsonParse_grinningFace :
    exists data, IsText grinningFace data ∧ grinningFace.KeysDistinct ∧
      grinningFace.height <= maxDepth ∧ grinningFace.NumbersOk ∧
      grinningFace.Decodable ∧
      tree grinningFace = .string [0xF0, 0x9F, 0x98, 0x80] ∧
      forall avx2, hjsonParse (initScanner avx2) data =
        .ok (.string [0xED, 0xA0, 0xBD, 0xED, 0xB8, 0x80]) := by
  have hitems : forall i, i ∈ [
      Item.unicode ⟨⟨13, false⟩, ⟨8, false⟩, ⟨3, false⟩, ⟨13, false⟩⟩,
      Item.unicode ⟨⟨13, false⟩, ⟨14, false⟩, ⟨0, false⟩, ⟨0, false⟩⟩] -> i.Ok := by
    decide
  have hdecodable : grinningFace.Decodable := by
    change decode _ ≠ none
    decide
  have htext : IsText grinningFace (ascii ['"', '\\', 'u', 'd', '8', '3', 'd',
      '\\', 'u', 'd', 'e', '0', '0', '"']) :=
    ⟨⟨[], _, [], ws_nil, .str hitems, ws_nil, by decide⟩,
      Utf8.isUtf8_of_allAscii (by decide)⟩
  refine ⟨_, htext, trivial, Nat.zero_le _, trivial, hdecodable, rfl, ?_⟩
  intro avx2
  rw [hjsonParse_isText htext (Nat.zero_le _) trivial]
  rfl

end Async2.Hjson
