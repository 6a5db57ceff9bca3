import Async2.Hjson.Tokens

/-!
# The parser reads every JSON text

For each JSON document whose numbers fit the tree and whose nesting respects the
depth limit, the parser returns `hjsonTree`: numbers and keywords by value,
strings with every `\u` escape encoded by itself, and in each object the last
value of a repeated key.
-/

namespace Async2.Hjson

open Json Decimal CLib AssocList List Reader Literal

/-!
## The tree of a document
-/

mutual

/-- The tree that the parser makes of a document. -/
def hjsonTree : Json -> DataNode
  | .null => .null
  | .bool b => .bool b
  | .num l => literalNode l
  | .str s => .string (stringBytes s)
  | .arr elems => .array (hjsonTrees elems)
  | .obj members => .object (upsertAll [] (hjsonEntries members))

def hjsonTrees : List Json -> List DataNode
  | [] => []
  | j :: elems => hjsonTree j :: hjsonTrees elems

def hjsonEntries : List (List Item × Json) -> List (Bytes × DataNode)
  | [] => []
  | (k, j) :: members => (stringBytes k, hjsonTree j) :: hjsonEntries members

end

/-!
## Where values begin and end
-/

/-- The bytes that start a JSON value, among others. -/
def startsValue (b : UInt8) : Bool :=
  !isWs b && b != byte '#' && b != byte '/' && b != byte ']' && b != byte '}' &&
    b != byte ','

variable {w a s t tail : Bytes} {j : Json} {l : Literal} {b : UInt8}

theorem isTokenByte_digit (d : Digit) : isTokenByte (digitByte d) = true := by
  revert d
  decide

theorem isTokenByte_literal (h : b ∈ l.text) : isTokenByte b = true := by
  have hdigits : forall ds : List Digit, b ∈ digitText ds ->
      isTokenByte b = true := by
    intro ds hb
    rcases mem_map.mp hb with ⟨d, _, rfl⟩
    exact isTokenByte_digit d
  unfold text at h
  simp only [mem_append] at h
  rcases h with hsign | hint | hfrac | hexp
  · split at hsign
    · rw [mem_singleton.mp hsign]
      decide
    · cases hsign
  · exact hdigits l.int hint
  · unfold fracText at hfrac
    split at hfrac
    · cases hfrac
    · rcases mem_cons.mp hfrac with rfl | hfrac
      · decide
      · exact hdigits l.frac hfrac
  · cases hexp' : l.exp with
    | none =>
      rw [hexp'] at hexp
      cases hexp
    | some e =>
      rw [hexp'] at hexp
      rcases mem_cons.mp hexp with rfl | hexp
      · cases e.upper <;> decide
      · rcases mem_append.mp hexp with hsign | hdigit
        · cases hs : e.sign with
          | none =>
            rw [hs] at hsign
            cases hsign
          | some neg =>
            rw [hs] at hsign
            cases neg <;> rw [mem_singleton.mp hsign] <;> decide
        · exact hdigits e.digits hdigit

theorem startsValue_of_token (h : isTokenByte b = true) : startsValue b = true := by
  revert b
  decide +kernel

theorem text_starts (h : l.Wf) :
    exists b t, l.text = b :: t ∧ (b = byte '-' ∨ isDigit b = true) := by
  rcases exists_cons_of_ne_nil h.left.left with ⟨d, ds, hint⟩
  cases hneg : l.neg with
  | true => exact ⟨_, _, by simp [text, hneg]; rfl, .inl rfl⟩
  | false =>
    exact ⟨digitByte d, _, by simp [text, hneg, hint, digitText]; rfl,
      .inr (isDigit_digitByte d)⟩

theorem spells_starts (h : Spells j w) : exists b t, w = b :: t ∧ startsValue b = true := by
  cases h with
  | null | true | false => exact ⟨_, _, rfl, by decide⟩
  | num hwf =>
    rename_i l
    rcases text_starts hwf with ⟨b, t, ht, _⟩
    refine ⟨b, t, ht, startsValue_of_token ?_⟩
    exact isTokenByte_literal (l := l) (by rw [ht]; simp)
  | str _ | emptyArr _ | arr _ | emptyObj _ | obj _ => exact ⟨_, _, rfl, by decide⟩

theorem settled_of_starts (h : startsValue b = true) (s : Bytes) : Settled (b :: s) := by
  simp only [startsValue, Bool.and_eq_true, bne_iff_ne, Bool.not_eq_true'] at h
  exact settled_cons h.left.left.left.left.left h.left.left.left.left.right
    h.left.left.left.right

/-- Two ways to split off whitespace before a byte that is none. -/
theorem ws_split {u : Bytes} (hu : Ws u) (hs : exists b s', s = b :: s' ∧ isWs b = false)
    (h : a ++ s = u ++ t) : exists a', a = u ++ a' ∧ t = a' ++ s := by
  rcases append_eq_append_iff.mp h with ⟨a', hu', hs'⟩ | ⟨a', ha', ht⟩
  · rcases hs with ⟨b, s', rfl, hb⟩
    cases a' with
    | nil => exact ⟨[], by rw [hu']; simp, by rw [hs']; rfl⟩
    | cons c a' =>
      rw [cons_append] at hs'
      have hmem : c ∈ u := by
        rw [hu']
        simp
      rw [← (List.cons.inj hs').left] at hmem
      have hws := hu b hmem
      rw [hb] at hws
      cases hws
  · exact ⟨a', ha', ht⟩

/-!
## Reading values
-/

/-- The parser reads the byte string, and possibly whitespace behind it, as the
given tree. -/
def ReadsAs (p : Parser DataNode) (w : Bytes) (n : DataNode) : Prop :=
  forall (r : Reader) (tail : Bytes), r.rest = w ++ tail -> Follows tail ->
    exists r' u tail', p r = (.ok n, r') ∧ Left r r' tail' ∧ tail = u ++ tail' ∧
      Ws u

theorem follows_close {a s : Bytes} {b : UInt8} (ha : Ws a)
    (hb : b = byte ',' ∨ b = byte '}' ∨ b = byte ']') : Follows (a ++ b :: s) := by
  refine ⟨a, b :: s, rfl, ha, ?_⟩
  intro c hc
  rw [← Option.some.inj hc]
  exact hb

theorem ReadsAs.child {p : Parser DataNode} {w : Bytes} {n : DataNode}
    (h : ReadsAs p w n) {r : Reader} {a s : Bytes} {b : UInt8}
    (hrest : r.rest = w ++ (a ++ b :: s)) (ha : Ws a)
    (hb : b = byte ',' ∨ b = byte '}' ∨ b = byte ']') :
    exists r' a', p r = (.ok n, r') ∧ Left r r' (a' ++ b :: s) ∧ Ws a' := by
  rcases h r _ hrest (follows_close ha hb) with ⟨r', u, tail', hp, hr', htail, hu⟩
  have hbws : isWs b = false := by
    rcases hb with rfl | rfl | rfl <;> decide
  rcases ws_split hu ⟨b, s, rfl, hbws⟩ htail with ⟨a', hsplit, rfl⟩
  refine ⟨r', a', hp, hr', ?_⟩
  intro c hc
  exact ha c (by rw [hsplit]; simp [hc])

theorem skipWs_value {r : Reader} (hrest : r.rest = a ++ (w ++ s)) (ha : Ws a) (h : Spells j w) :
    Left r (skipWs scalarScanner r) (w ++ s) := by
  rcases spells_starts h with ⟨b, t, rfl, hb⟩
  exact left_skipWs hrest ha (settled_of_starts hb _)

theorem arrayLoop_elems {child : Parser DataNode} {elems : List Json} {w : Bytes}
    (h : SpellsElems elems w)
    (hchild : forall j, j ∈ elems -> forall w, Spells j w ->
      ReadsAs child w (hjsonTree j))
    {fuel : Nat} (hfuel : elems.length < fuel) (acc : List DataNode) {r : Reader}
    {tail : Bytes} (hrest : r.rest = w ++ byte ']' :: tail) :
    exists r', arrayLoop scalarScanner child fuel acc (skipWs scalarScanner r) =
      (.ok (acc ++ hjsonTrees elems), r') ∧ Left r r' (byte ']' :: tail) := by
  induction elems generalizing w fuel acc r with
  | nil => cases h
  | cons j elems ih =>
    rcases Nat.exists_eq_add_one_of_ne_zero (n := fuel) (by omega) with ⟨fuel, rfl⟩
    -- The first element starts here, so the loop is entered.
    have henter : forall {w0 s : Bytes} {r0 : Reader}, Spells j w0 ->
        r0.rest = w0 ++ s -> r0.pos < r0.len ∧ r0.peek ≠ byte ']' := by
      intro w0 s r0 hj hr0
      rcases spells_starts hj with ⟨b, t, rfl, hb⟩
      refine ⟨pos_lt_of_rest hr0, ?_⟩
      rw [peek_of_rest hr0]
      rintro rfl
      revert hb
      decide
    cases h with
    | last ha hj hb =>
      rename_i a w0 b
      have hstart := skipWs_value (s := b ++ byte ']' :: tail)
        (by rw [hrest]; simp) ha hj
      rcases (hchild j (by simp) w0 hj).child hstart.rest hb
        (.inr (.inr rfl)) with ⟨r1, b', hread, hr1, hb'⟩
      have hsep := left_skipSeparator hr1.rest hb'
        (settled_cons (by decide) (by decide) (by decide)) (by decide)
      rcases Nat.exists_eq_add_one_of_ne_zero (n := fuel) (by
        rw [length_cons] at hfuel
        omega) with ⟨fuel, rfl⟩
      refine ⟨_, ?_, (hstart.trans hr1).trans hsep⟩
      rw [arrayLoop, if_pos (henter hj hstart.rest), Parser.andThen, hread]
      dsimp only
      rw [arrayLoop, if_neg (by
        rw [peek_of_rest hsep.rest]
        exact fun h => h.right rfl)]
      rfl
    | more ha hj hb helems =>
      rename_i a w0 b rest
      have hstart := skipWs_value (s := b ++ byte ',' :: (rest ++ byte ']' :: tail))
        (by rw [hrest]; simp) ha hj
      rcases (hchild j (by simp) w0 hj).child hstart.rest hb (.inl rfl) with
        ⟨r1, b', hread, hr1, hb'⟩
      rcases skipSeparator_comma hr1.rest hb' with ⟨r2, hsep, hr2⟩
      rcases ih helems (fun x hx => hchild x (by simp [hx]))
        (show elems.length < fuel by
          rw [length_cons] at hfuel
          omega) (acc ++ [hjsonTree j]) hr2.rest with ⟨r3, hloop, hr3⟩
      refine ⟨r3, ?_, ((hstart.trans hr1).trans hr2).trans hr3⟩
      rw [arrayLoop, if_pos (henter hj hstart.rest), Parser.andThen, hread]
      dsimp only
      rw [hsep, hloop]
      simp [hjsonTrees]

theorem objectLoop_members {child : Parser DataNode}
    {members : List (List Item × Json)} {w : Bytes}
    (h : SpellsMembers members w)
    (hchild : forall m, m ∈ members -> forall w, Spells m.2 w ->
      ReadsAs child w (hjsonTree m.2))
    {fuel : Nat} (hfuel : members.length < fuel) (acc : List (Bytes × DataNode))
    {r : Reader} {tail : Bytes} (hrest : r.rest = w ++ byte '}' :: tail) :
    exists r', objectLoop scalarScanner child true fuel acc
        (skipWs scalarScanner r) =
      (.ok (upsertAll acc (hjsonEntries members)), r') ∧ Left r r' (byte '}' :: tail) := by
  induction members generalizing w fuel acc r with
  | nil => cases h
  | cons m members ih =>
    rcases m with ⟨k, j⟩
    rcases Nat.exists_eq_add_one_of_ne_zero (n := fuel) (by omega) with ⟨fuel, rfl⟩
    -- Up to the value, both forms of a member are read alike.
    have hkey : forall {a b c w0 s : Bytes}, Ws a -> (forall i, i ∈ k -> i.Ok) ->
        Ws b -> Ws c -> Spells j w0 ->
        r.rest = a ++ (quoted k ++ (b ++ byte ':' :: (c ++ (w0 ++ s)))) ->
        exists r2, Left r r2 (w0 ++ s) ∧
          objectLoop scalarScanner child true (fuel + 1) acc
            (skipWs scalarScanner r) =
          (child.andThen fun val r =>
            objectLoop scalarScanner child true fuel
              (upsert (stringBytes k) val acc) (skipSeparator scalarScanner r)) r2 := by
      intro a b c w0 s ha hk hb hc hj hr
      have hstart : Left r (skipWs scalarScanner r)
          (quoted k ++ (b ++ byte ':' :: (c ++ (w0 ++ s)))) :=
        left_skipWs hr ha (settled_cons (by decide) (by decide) (by decide))
      rcases readKey_quoted hk hstart.rest with ⟨r1, hread, hr1⟩
      have hcolon := left_skipWs hr1.rest hb
        (settled_cons (by decide) (by decide) (by decide))
      have hvalue := skipWs_value (left_advance hcolon.rest).rest hc hj
      refine ⟨_, (((hstart.trans hr1).trans hcolon).trans
        (left_advance hcolon.rest)).trans hvalue, ?_⟩
      have hquote : (skipWs scalarScanner r).rest = byte '"' ::
          (k.flatMap Item.text ++ [byte '"'] ++
            (b ++ byte ':' :: (c ++ (w0 ++ s)))) := hstart.rest
      rw [objectLoop, if_pos (by
        refine ⟨pos_lt_of_rest hquote, ?_⟩
        rw [peek_of_rest hquote]
        decide), Parser.andThen, hread]
      dsimp only
      rw [peek_of_rest hcolon.rest, if_neg (by decide)]
    cases h with
    | last ha hk hb hc hj hd =>
      rename_i a b c w0 d
      rcases hkey (s := d ++ byte '}' :: tail) ha hk hb hc hj
        (by rw [hrest]; simp) with ⟨r2, hr2, hloop⟩
      rcases (hchild (k, j) (by simp) w0 hj).child hr2.rest hd
        (.inr (.inl rfl)) with ⟨r3, d', hread, hr3, hd'⟩
      have hsep := left_skipSeparator hr3.rest hd'
        (settled_cons (by decide) (by decide) (by decide)) (by decide)
      rcases Nat.exists_eq_add_one_of_ne_zero (n := fuel) (by
        rw [length_cons] at hfuel
        omega) with ⟨fuel, rfl⟩
      refine ⟨_, ?_, (hr2.trans hr3).trans hsep⟩
      rw [hloop, Parser.andThen, hread]
      dsimp only
      rw [objectLoop, if_neg (by
        rw [peek_of_rest hsep.rest]
        exact fun h => h.right ⟨rfl, rfl⟩)]
      rfl
    | more ha hk hb hc hj hd hmembers =>
      rename_i a b c w0 d rest
      rcases hkey (s := d ++ byte ',' :: (rest ++ byte '}' :: tail)) ha hk hb hc hj
        (by rw [hrest]; simp) with ⟨r2, hr2, hloop⟩
      rcases (hchild (k, j) (by simp) w0 hj).child hr2.rest hd (.inl rfl) with
        ⟨r3, d', hread, hr3, hd'⟩
      rcases skipSeparator_comma hr3.rest hd' with ⟨r4, hsep, hr4⟩
      rcases ih hmembers (fun x hx => hchild x (by simp [hx]))
        (show members.length < fuel by
          rw [length_cons] at hfuel
          omega) (upsert (stringBytes k) (hjsonTree j) acc) hr4.rest with
        ⟨r5, hrec, hr5⟩
      refine ⟨r5, ?_, ((hr2.trans hr3).trans hr4).trans hr5⟩
      rw [hloop, Parser.andThen, hread]
      dsimp only
      rw [hsep, hrec]
      rfl

theorem spellsElems_length {elems : List Json} (h : SpellsElems elems w) :
    elems.length <= w.length := by
  have hpos : forall {j : Json} {w : Bytes}, Spells j w -> 1 <= w.length := by
    intro j w hj
    rcases spells_starts hj with ⟨b, t, rfl, _⟩
    simp
  induction elems generalizing w with
  | nil => exact Nat.zero_le _
  | cons j elems ih =>
    cases h with
    | last _ hj _ =>
      have hone := hpos hj
      simp only [length_append, length_cons, length_nil]
      omega
    | more _ hj _ helems =>
      have hrest := ih helems
      simp only [length_append, length_cons]
      omega

theorem spellsMembers_length {members : List (List Item × Json)} (h : SpellsMembers members w) :
    members.length <= w.length := by
  induction members generalizing w with
  | nil => exact Nat.zero_le _
  | cons m members ih =>
    cases h with
    | last =>
      simp only [length_append, length_cons, length_nil, quoted]
      omega
    | more _ _ _ _ _ _ hmembers =>
      have hrest := ih hmembers
      simp only [length_append, length_cons]
      omega

theorem readsAs_token {levels : Nat} {n : DataNode} (hw : w = b :: t)
    (htoken : forall c, c ∈ w -> isTokenByte c = true) (hquote : inClass b ccQuote = false)
    (hkw : forall tail, Follows tail -> tryParseKeywordOrNumber (w ++ tail) w.length = some n) :
    ReadsAs (readValue scalarScanner (levels + 1)) w n := by
  intro r tail hrest htail
  subst hw
  have hfirst := htoken b (by simp)
  have hb := startsValue_of_token hfirst
  have hstart : Left r (skipWs scalarScanner r) (b :: (t ++ tail)) :=
    left_skipWs (a := []) hrest ws_nil (settled_of_starts hb _)
  have hbrace : b ≠ byte '{' ∧ b ≠ byte '[' := by
    constructor <;> rintro rfl <;> exact absurd hfirst (by decide)
  rcases readUnquotedValue_token (cons_ne_nil b t) htoken hstart.rest htail
    (hkw tail htail) with ⟨r', u, tail', hread, hr', hsplit, hu⟩
  refine ⟨r', u, tail', ?_, hstart.trans hr', hsplit, hu⟩
  rw [readValue, if_neg (Nat.not_le_of_lt (pos_lt_of_rest hstart.rest)),
    peek_of_rest hstart.rest, if_neg hbrace.left, if_neg hbrace.right, hquote]
  exact hread

theorem stops_of_follows (h : Follows tail) : Stops continuesNumber tail := by
  rcases h with ⟨a, s, rfl, ha, hs⟩
  intro b hb
  cases a with
  | nil =>
    rcases hs b hb with rfl | rfl | rfl <;> decide
  | cons c a =>
    have hc := ha c (by simp)
    rw [← Option.some.inj hb]
    have hall : forall c, isWs c = true -> continuesNumber c = false := by
      decide +kernel
    exact hall c hc

theorem inClass_quote_of_number (h : b = byte '-' ∨ isDigit b = true) :
    inClass b ccQuote = false := by
  revert b
  decide +kernel

theorem tryParseKeywordOrNumber_text (h : l.Wf) (hok : LiteralOk l) (htail : Follows tail) :
    tryParseKeywordOrNumber (l.text ++ tail) l.text.length = some (literalNode l) := by
  rcases text_starts h with ⟨b, t, htext, hb⟩
  have hkeyword : forall (c : Char) (cs : List Char), isDigit (byte c) = false ->
      byte c ≠ byte '-' -> l.text ≠ ascii (c :: cs) := by
    intro c cs hdigit hminus heq
    rw [htext] at heq
    rw [(List.cons.inj heq).left] at hb
    rcases hb with hb | hb
    · exact hminus hb
    · rw [hdigit] at hb
      cases hb
  have hhead : (l.text ++ tail).getD 0 0 = b := by
    rw [htext]
    rfl
  unfold tryParseKeywordOrNumber
  rw [if_neg (by simp [htext]), take_left,
    if_neg (hkeyword _ _ (by decide) (by decide)),
    if_neg (hkeyword _ _ (by decide) (by decide)),
    if_neg (hkeyword _ _ (by decide) (by decide)), hhead, if_pos hb]
  exact tryParseNumber_text h hok (stops_of_follows htail)

section

variable (child : Parser DataNode) {r : Reader} {w tail : Bytes}

theorem inside_of_rest {b : UInt8} (h : r.rest = b :: tail) : ¬(r.len <= r.pos ∨ b ≠ b) := by
  rintro (hend | hne)
  · exact absurd hend (Nat.not_le_of_lt (pos_lt_of_rest h))
  · exact hne rfl

theorem readArray_elems {child : Parser DataNode} {elems : List Json} (h : SpellsElems elems w)
    (hchild : forall j, j ∈ elems -> forall w, Spells j w ->
      ReadsAs child w (hjsonTree j))
    (hrest : r.rest = w ++ byte ']' :: tail) :
    exists r', readArray scalarScanner child r =
      (.ok (.array (hjsonTrees elems)), r') ∧ Left r r' tail := by
  have hfuel : elems.length < r.len + 1 := by
    have hle := r.rest_length_le
    have hlen := spellsElems_length h
    rw [hrest, length_append] at hle
    omega
  rcases arrayLoop_elems h hchild hfuel [] hrest with ⟨r1, hloop, hr1⟩
  refine ⟨_, ?_, hr1.trans (left_advance hr1.rest)⟩
  rw [readArray, Parser.andThen, hloop]
  dsimp only
  rw [peek_of_rest hr1.rest, if_neg (inside_of_rest hr1.rest)]
  rfl

theorem readArray_empty (hw : Ws w) (hrest : r.rest = w ++ byte ']' :: tail) :
    exists r', readArray scalarScanner child r = (.ok (.array []), r') ∧ Left r r' tail := by
  have hclose := left_skipWs hrest hw
    (settled_cons (by decide) (by decide) (by decide))
  refine ⟨_, ?_, hclose.trans (left_advance hclose.rest)⟩
  rw [readArray, Parser.andThen, arrayLoop, if_neg (by
    rw [peek_of_rest hclose.rest]
    exact fun h => h.right rfl)]
  dsimp only
  rw [peek_of_rest hclose.rest, if_neg (inside_of_rest hclose.rest)]

theorem readObject_members {child : Parser DataNode} {members : List (List Item × Json)}
    (h : SpellsMembers members w)
    (hchild : forall m, m ∈ members -> forall w, Spells m.2 w ->
      ReadsAs child w (hjsonTree m.2))
    (hrest : r.rest = w ++ byte '}' :: tail) :
    exists r', readObject scalarScanner child true r =
      (.ok (.object (upsertAll [] (hjsonEntries members))), r') ∧ Left r r' tail := by
  have hfuel : members.length < r.len + 1 := by
    have hle := r.rest_length_le
    have hlen := spellsMembers_length h
    rw [hrest, length_append] at hle
    omega
  rcases objectLoop_members h hchild hfuel [] hrest with ⟨r1, hloop, hr1⟩
  refine ⟨_, ?_, hr1.trans (left_advance hr1.rest)⟩
  rw [readObject, Parser.andThen, hloop]
  dsimp only
  rw [if_pos rfl, peek_of_rest hr1.rest, if_neg (inside_of_rest hr1.rest)]

theorem readObject_empty (hw : Ws w) (hrest : r.rest = w ++ byte '}' :: tail) :
    exists r', readObject scalarScanner child true r = (.ok (.object []), r') ∧ Left r r' tail := by
  have hclose := left_skipWs hrest hw
    (settled_cons (by decide) (by decide) (by decide))
  refine ⟨_, ?_, hclose.trans (left_advance hclose.rest)⟩
  rw [readObject, Parser.andThen, objectLoop, if_neg (by
    rw [peek_of_rest hclose.rest]
    exact fun h => h.right ⟨rfl, rfl⟩)]
  dsimp only
  rw [if_pos rfl, peek_of_rest hclose.rest, if_neg (inside_of_rest hclose.rest)]

end

/-- Every value is read as its tree, with enough levels left for it. -/
theorem readsAs_readValue {levels : Nat} {j : Json} {w : Bytes} (h : Spells j w)
    (hheight : j.height < levels) (hnumbers : NumbersOk j) :
    ReadsAs (readValue scalarScanner levels) w (hjsonTree j) := by
  induction levels generalizing j w with
  | zero => omega
  | succ levels ih =>
    -- Up to the first byte of the value, all forms are read alike.
    have hstart : forall {r : Reader} {b : UInt8} {s : Bytes},
        r.rest = b :: s -> startsValue b = true ->
        exists r0, Left r r0 (b :: s) ∧
          readValue scalarScanner (levels + 1) r =
            if b = byte '{' then
              readObject scalarScanner (readValue scalarScanner levels) true
                (r0.advance 1)
            else if b = byte '[' then
              readArray scalarScanner (readValue scalarScanner levels)
                (r0.advance 1)
            else if inClass b ccQuote then
              ((readQuotedString scalarScanner true).andThen fun s r =>
                (.ok (.string s), r)) r0
            else readUnquotedValue r0 := by
      intro r b s hr hb
      have hskip : Left r (skipWs scalarScanner r) (b :: s) :=
        left_skipWs (a := []) hr ws_nil (settled_of_starts hb s)
      refine ⟨_, hskip, ?_⟩
      rw [readValue,
        if_neg (Nat.not_le_of_lt (pos_lt_of_rest hskip.rest)),
        peek_of_rest hskip.rest]
    cases h with
    | null | true | false =>
      exact readsAs_token rfl (all_eq_true.mp rfl) (by decide) (fun tail _ => rfl)
    | num hwf =>
      rename_i l
      rcases text_starts hwf with ⟨b, t, ht, hb⟩
      exact readsAs_token ht (fun c hc => isTokenByte_literal hc)
        (inClass_quote_of_number hb)
        (fun tail htail => tryParseKeywordOrNumber_text hwf hnumbers htail)
    | str hok =>
      rename_i s
      intro r tail hrest _
      rcases hstart (b := byte '"') (s := s.flatMap Item.text ++ [byte '"'] ++ tail)
        hrest (by decide) with ⟨r0, hr0, hvalue⟩
      rcases readQuotedString_quoted hok (hr0.rest : r0.rest = quoted s ++ tail) true with
        ⟨r1, hread, hr1⟩
      refine ⟨r1, [], tail, ?_, hr0.trans hr1, rfl, ws_nil⟩
      rw [hvalue, if_neg (by decide), if_neg (by decide), if_pos (by decide),
        Parser.andThen, hread]
      rfl
    | emptyArr ha =>
      rename_i a
      intro r tail hrest _
      rcases hstart (b := byte '[') (s := a ++ byte ']' :: tail)
        (by rw [hrest]; simp) (by decide) with ⟨r0, hr0, hvalue⟩
      rcases readArray_empty (readValue scalarScanner levels) ha
        (left_advance hr0.rest).rest with ⟨r1, hread, hr1⟩
      refine ⟨r1, [], tail, ?_, (hr0.trans (left_advance hr0.rest)).trans hr1, rfl, ws_nil⟩
      rw [hvalue, if_neg (by decide), if_pos rfl, hread]
      rfl
    | arr helems =>
      rename_i elems w
      intro r tail hrest _
      rcases hstart (b := byte '[') (s := w ++ byte ']' :: tail)
        (by rw [hrest]; simp) (by decide) with ⟨r0, hr0, hvalue⟩
      rcases readArray_elems helems (fun j hj w hw => ih hw (by
        have hlt := height_lt_of_mem_arr hj
        omega) ((everywhere_arr.mp hnumbers).right j hj))
        (left_advance hr0.rest).rest with ⟨r1, hread, hr1⟩
      refine ⟨r1, [], tail, ?_, (hr0.trans (left_advance hr0.rest)).trans hr1, rfl, ws_nil⟩
      rw [hvalue, if_neg (by decide), if_pos rfl, hread]
      rfl
    | emptyObj ha =>
      rename_i a
      intro r tail hrest _
      rcases hstart (b := byte '{') (s := a ++ byte '}' :: tail)
        (by rw [hrest]; simp) (by decide) with ⟨r0, hr0, hvalue⟩
      rcases readObject_empty (readValue scalarScanner levels) ha
        (left_advance hr0.rest).rest with ⟨r1, hread, hr1⟩
      refine ⟨r1, [], tail, ?_, (hr0.trans (left_advance hr0.rest)).trans hr1, rfl, ws_nil⟩
      rw [hvalue, if_pos rfl, hread]
      rfl
    | obj hmembers =>
      rename_i members w
      intro r tail hrest _
      rcases hstart (b := byte '{') (s := w ++ byte '}' :: tail)
        (by rw [hrest]; simp) (by decide) with ⟨r0, hr0, hvalue⟩
      rcases readObject_members hmembers (fun m hm w hw => ih hw (by
        have hlt := height_lt_of_mem_obj hm
        omega) ((everywhere_obj.mp hnumbers).right m hm))
        (left_advance hr0.rest).rest with ⟨r1, hread, hr1⟩
      refine ⟨r1, [], tail, ?_, (hr0.trans (left_advance hr0.rest)).trans hr1, rfl, ws_nil⟩
      rw [hvalue, if_pos rfl, hread]
      rfl

/-!
## Reading documents

A document that is neither an object nor an array is first tried as an object
without braces, which fails because no colon follows.
-/

theorem unquotedKeyLoop_null {fuel : Nat} (keyStart keyEnd : Nat) (firstSpace : Int) {r : Reader}
    (hkey : forall b, b ∈ r.rest -> b ≠ 0 ∧ isPunctuator b = false) (hfuel : r.rest.length < fuel) :
    exists r', unquotedKeyLoop keyStart fuel keyEnd firstSpace r = (.null, r') ∧
      r'.data = r.data := by
  induction fuel generalizing keyEnd firstSpace r with
  | zero => omega
  | succ fuel ih =>
    rw [unquotedKeyLoop]
    cases hrest : r.rest with
    | nil =>
      rw [if_neg (Nat.not_lt_of_le (r.len_le_iff.mpr hrest))]
      exact ⟨r, rfl, rfl⟩
    | cons b s =>
      have hb := hkey b (by simp [hrest])
      have hcolon : b ≠ byte ':' := by
        rintro rfl
        exact absurd hb.right (by decide)
      have hnext := left_advance hrest
      have hrec : forall keyEnd firstSpace, exists r',
          unquotedKeyLoop keyStart fuel keyEnd firstSpace (r.advance 1) =
            (.null, r') ∧ r'.data = r.data := by
        intro keyEnd firstSpace
        refine ih keyEnd firstSpace (r := r.advance 1) ?_ ?_
        · intro c hc
          rw [hnext.rest] at hc
          exact hkey c (by simp [hrest, hc])
        · rw [hnext.rest]
          rw [hrest, length_cons] at hfuel
          omega
      rw [if_pos (pos_lt_of_rest hrest), peek_of_rest hrest, if_neg hcolon]
      split
      · rw [if_neg hb.left]
        exact hrec _ _
      · rw [hb.right]
        exact hrec _ _

/-- A key without a colon behind it is no member of an object. -/
theorem readObject_null {child : Parser DataNode} {r : Reader} {b : UInt8}
    {s : Bytes} (hrest : r.rest = b :: s) (hb : startsValue b = true)
    (hkey : forall r0, Left r r0 r.rest ->
      exists r', ((readKey scalarScanner).andThen fun key r =>
        let r := skipWs scalarScanner r
        if r.peek ≠ byte ':' then (.null, r)
        else
          (child.andThen fun val r =>
            objectLoop scalarScanner child false r0.len (upsert key val [])
              (skipSeparator scalarScanner r)) (skipWs scalarScanner (r.advance 1)))
          r0 = (.null, r') ∧ r'.data = r.data) :
    exists r', readObject scalarScanner child false r = (.null, r') ∧
      r'.data = r.data := by
  have hskip : Left r (skipWs scalarScanner r) r.rest := by
    rw [hrest]
    exact left_skipWs (a := []) hrest ws_nil (settled_of_starts hb s)
  rcases hkey _ hskip with ⟨r', hread, hdata⟩
  rw [hskip.len] at hread
  refine ⟨r', ?_, hdata⟩
  have hlt := hskip.rest
  rw [hrest] at hlt
  rw [readObject, Parser.andThen, objectLoop, if_pos (by
    refine ⟨pos_lt_of_rest hlt, ?_⟩
    rintro ⟨hfalse, _⟩
    cases hfalse), hread]

theorem readObject_token {child : Parser DataNode} {r : Reader} {w b : Bytes} {c : UInt8}
    {t : Bytes} (hw : w = c :: t) (htoken : forall x, x ∈ w -> isTokenByte x = true)
    (hquote : inClass c ccQuote = false) (hb : Ws b) (hrest : r.rest = w ++ b) :
    exists r', readObject scalarScanner child false r = (.null, r') ∧ r'.data = r.data := by
  have hbytes : forall x, x ∈ r.rest -> x ≠ 0 ∧ isPunctuator x = false := by
    intro x hx
    rw [hrest] at hx
    have hall : forall x, isTokenByte x = true ∨ isWs x = true ->
        x ≠ 0 ∧ isPunctuator x = false := by
      decide +kernel
    apply hall
    rcases mem_append.mp hx with hx | hx
    · exact .inl (htoken x hx)
    · exact .inr (hb x hx)
  subst hw
  refine readObject_null (b := c) (s := t ++ b) hrest
    (startsValue_of_token (htoken c (by simp))) ?_
  intro r0 hr0
  have hpeek : r0.peek = c := peek_of_rest (hr0.rest.trans hrest)
  have hfuel : r0.rest.length < r0.len + 1 := by
    have hle := r0.rest_length_le
    omega
  rw [← hr0.rest] at hbytes
  rcases unquotedKeyLoop_null r0.pos r0.pos (-1) hbytes hfuel with ⟨r', hread, hdata⟩
  refine ⟨r', ?_, hdata.trans hr0.data⟩
  rw [Parser.andThen, readKey, hpeek, hquote]
  simp [readUnquotedKey, hread]

theorem readObject_string {child : Parser DataNode} {r : Reader} {s : List Item} {b : Bytes}
    (hok : forall i, i ∈ s -> i.Ok) (hb : Ws b) (hrest : r.rest = quoted s ++ b) :
    exists r', readObject scalarScanner child false r = (.null, r') ∧ r'.data = r.data := by
  refine readObject_null (b := byte '"') (s := s.flatMap Item.text ++ [byte '"'] ++ b)
    hrest (by decide) ?_
  intro r0 hr0
  rw [hrest] at hr0
  rcases readKey_quoted hok hr0.rest with ⟨r1, hread, hr1⟩
  have hend := left_skipWs (s := []) (by rw [hr1.rest]; simp) hb settled_nil
  have hpeek : (skipWs scalarScanner r1).peek = 0 := by
    rw [peek_eq, hend.rest]
    rfl
  refine ⟨_, ?_, ((hr0.trans hr1).trans hend).data⟩
  rw [Parser.andThen, hread]
  dsimp only
  rw [hpeek, if_pos (by decide)]

/-- Tried as an object without braces, a scalar fails. -/
theorem readObject_scalar (child : Parser DataNode) {j : Json} {w b : Bytes}
    (h : Spells j w) (hb : Ws b) {r : Reader} (hrest : r.rest = w ++ b)
    (hscalar : ¬(r.peek = byte '[' ∨ r.peek = byte '{')) :
    exists r', readObject scalarScanner child false r = (.null, r') ∧ r'.data = r.data := by
  have hpeek : forall {c : UInt8} {t : Bytes}, w = c :: t -> r.peek = c := by
    intro c t hw
    rw [hw] at hrest
    exact peek_of_rest hrest
  cases h with
  | null | true | false => exact readObject_token rfl (all_eq_true.mp rfl) (by decide) hb hrest
  | num hwf =>
    rcases text_starts hwf with ⟨c, t, ht, hc⟩
    exact readObject_token ht (fun x hx => isTokenByte_literal hx)
      (inClass_quote_of_number hc) hb hrest
  | str hok => exact readObject_string hok hb hrest
  | emptyArr _ | arr _ => exact absurd (.inl (hpeek rfl)) hscalar
  | emptyObj _ | obj _ => exact absurd (.inr (hpeek rfl)) hscalar

variable {j : Json} {w b : Bytes} (h : Spells j w) (hb : Ws b)
  (hheight : j.height <= maxDepth) (hnumbers : NumbersOk j)
include h hb hheight hnumbers

theorem readValue_atEnd {r : Reader} (hrest : r.rest = w ++ b) :
    exists r', ((readValue scalarScanner (maxDepth + 1)).andThen
      (atEnd scalarScanner)) r = (.ok (hjsonTree j), r') := by
  have hfollows : Follows b := ⟨b, [], by simp, hb, by intro c hc; cases hc⟩
  rcases readsAs_readValue h (Nat.lt_succ_of_le hheight) hnumbers r b hrest
    hfollows with ⟨r1, u, tail, hread, hr1, hsplit, hu⟩
  have htail : Ws tail := by
    intro c hc
    exact hb c (by rw [hsplit]; simp [hc])
  have hend := left_skipWs (s := []) (by rw [hr1.rest]; simp) htail settled_nil
  refine ⟨skipWs scalarScanner r1, ?_⟩
  rw [Parser.andThen, hread]
  dsimp only
  rw [atEnd, if_neg (by
    rw [lt_len_iff, hend.rest]
    exact fun hne => hne rfl)]

theorem hjsonParse_spells {a : Bytes} (ha : Ws a) (avx2 : Bool) :
    hjsonParse (initScanner avx2) (a ++ (w ++ b)) = .ok (hjsonTree j) := by
  rw [initScanner_eq]
  rcases spells_starts h with ⟨c, t, hw, hc⟩
  have hinit : forall slices,
      (⟨a ++ (w ++ b), 0, slices⟩ : Reader).rest = a ++ (w ++ b) := by
    intro slices
    rfl
  have hstart := fun slices => skipWs_value (hinit slices) ha h
  have hfirst := (hstart []).rest
  have hlt := (lt_len_iff _).mpr (by
    rw [hfirst, hw]
    exact cons_ne_nil c _)
  unfold hjsonParse parse
  dsimp only
  rw [if_neg (by
    change ¬(a ++ (w ++ b)).length = 0
    rw [hw]
    simp), if_neg (Nat.not_le_of_lt hlt)]
  split
  · rcases readValue_atEnd h hb hheight hnumbers hfirst with ⟨r', hread⟩
    rw [hread]
  · rename_i hscalar
    rcases readObject_scalar (readValue scalarScanner maxDepth) h hb
      hfirst hscalar with ⟨r1, hnull, hdata⟩
    have hback : ({ r1 with pos := 0 } : Reader) = ⟨a ++ (w ++ b), 0, r1.slices⟩ := by
      rw [(hstart []).data] at hdata
      rw [hdata]
    rcases readValue_atEnd h hb hheight hnumbers
      (hstart r1.slices).rest with ⟨r', hread⟩
    rw [readBraceless, Parser.andThen, hnull]
    dsimp only
    rw [hback, hread]

end Async2.Hjson
