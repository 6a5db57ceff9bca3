import Async2.Json.Written

/-!
# The character encoding of JSON texts

Everything in a JSON text outside of its strings is ASCII.  So a text is UTF-8
exactly when each of its strings is written in UTF-8, and a string that is
written in UTF-8 denotes UTF-8, because an escape stands for a whole character.
-/

namespace Async2.Json

open Decimal Utf8 List Option

/-- What stands between the quotes of a string. -/
def itemsText (s : List Item) : Bytes := s.flatMap Item.text

/-- The strings of a value itself are written in UTF-8. -/
def StringsUtf8 : Json -> Prop
  | .str s => IsUtf8 (itemsText s)
  | .obj members => forall m, m ∈ members -> IsUtf8 (itemsText m.1)
  | _ => True

/-!
## Texts
-/

variable {a w b : Bytes}

theorem allAscii_ws (h : Ws a) : AllAscii a := by
  have hall : forall b, isWs b = true -> IsAscii b := by
    decide +kernel
  intro b hb
  exact hall b (h b hb)

theorem allAscii_digitText (ds : List Digit) : AllAscii (digitText ds) := by
  intro b hb
  rcases mem_map.mp hb with ⟨d, _, rfl⟩
  have hdigit : forall d : Digit, IsAscii (digitByte d) := by decide
  exact hdigit d

theorem allAscii_literal (l : Literal) : AllAscii l.text := by
  unfold Literal.text
  refine allAscii_append ?_ (allAscii_append (allAscii_digitText _)
    (allAscii_append ?_ ?_))
  · cases l.neg
    · exact allAscii_nil
    · exact allAscii_cons (by decide) allAscii_nil
  · unfold Literal.fracText
    split
    · exact allAscii_nil
    · exact allAscii_cons (by decide) (allAscii_digitText _)
  · unfold Literal.expText
    cases l.exp with
    | none => exact allAscii_nil
    | some e =>
      refine allAscii_cons ?_ (allAscii_append ?_ (allAscii_digitText _))
      · cases e.upper <;> decide
      · cases e.sign with
        | none => exact allAscii_nil
        | some neg =>
          cases neg <;> exact allAscii_cons (by decide) allAscii_nil

theorem isUtf8_quoted (s : List Item) : IsUtf8 (quoted s) <-> IsUtf8 (itemsText s) := by
  rw [quoted, isUtf8_cons (by decide),
    isUtf8_append_ascii (allAscii_cons (by decide) allAscii_nil), itemsText]

theorem isUtf8_ws (ha : Ws a) (hb : Ws b) : IsUtf8 (a ++ (w ++ b)) <-> IsUtf8 w := by
  rw [isUtf8_ascii_append (allAscii_ws ha), isUtf8_append_ascii (allAscii_ws hb)]

theorem isUtf8_bracketed {x y : UInt8} (hx : IsAscii x) (hy : IsAscii y) :
    IsUtf8 (x :: (w ++ [y])) <-> IsUtf8 w := by
  rw [isUtf8_cons hx, isUtf8_append_ascii (allAscii_cons hy allAscii_nil)]

theorem isUtf8_comma {rest : Bytes} (hb : Ws b) :
    IsUtf8 (w ++ (b ++ byte ',' :: rest)) <-> IsUtf8 w ∧ IsUtf8 rest := by
  rw [← append_assoc, isUtf8_append_cons (by decide),
    isUtf8_append_ascii (allAscii_ws hb)]

theorem isUtf8_key {k : List Item} {c : Bytes} (ha : Ws a) (hb : Ws b) (hc : Ws c) :
    IsUtf8 (a ++ (quoted k ++ (b ++ byte ':' :: (c ++ w)))) <->
      IsUtf8 (itemsText k) ∧ IsUtf8 w := by
  have hassoc : a ++ (quoted k ++ (b ++ byte ':' :: (c ++ w))) =
      (a ++ (quoted k ++ b)) ++ byte ':' :: (c ++ w) := by simp
  rw [hassoc, isUtf8_append_cons (by decide), isUtf8_ws ha hb, isUtf8_quoted,
    isUtf8_ascii_append (allAscii_ws hc)]

mutual

/-- A text is UTF-8 exactly when all of its strings are. -/
theorem isUtf8_spells {j : Json} {w : Bytes} (h : Spells j w) :
    IsUtf8 w <-> Everywhere StringsUtf8 j := by
  cases h with
  | null | true | false => exact iff_of_true (isUtf8_of_allAscii (by decide)) trivial
  | num => exact iff_of_true (isUtf8_of_allAscii (allAscii_literal _)) trivial
  | str => exact isUtf8_quoted _
  | emptyArr ha =>
    rw [isUtf8_bracketed (by decide) (by decide)]
    exact iff_of_true (isUtf8_of_allAscii (allAscii_ws ha)) ⟨trivial, trivial⟩
  | arr helems =>
    rw [isUtf8_bracketed (by decide) (by decide), isUtf8_spellsElems helems,
      everywhere_arr]
    exact (and_iff_right trivial).symm
  | emptyObj ha =>
    rw [isUtf8_bracketed (by decide) (by decide)]
    refine iff_of_true (isUtf8_of_allAscii (allAscii_ws ha)) ⟨?_, trivial⟩
    intro m hm
    cases hm
  | obj hmembers =>
    rw [isUtf8_bracketed (by decide) (by decide),
      isUtf8_spellsMembers hmembers, everywhere_obj]
    exact forall₂_and

theorem isUtf8_spellsElems {elems : List Json} {w : Bytes} (h : SpellsElems elems w) :
    IsUtf8 w <-> forall j, j ∈ elems -> Everywhere StringsUtf8 j := by
  cases h with
  | last ha hj hb =>
    rw [isUtf8_ws ha hb, isUtf8_spells hj]
    simp
  | more ha hj hb hrest =>
    rw [isUtf8_ascii_append (allAscii_ws ha), isUtf8_comma hb, isUtf8_spells hj,
      isUtf8_spellsElems hrest]
    simp

theorem isUtf8_spellsMembers {members : List (List Item × Json)} {w : Bytes}
    (h : SpellsMembers members w) :
    IsUtf8 w <-> forall m, m ∈ members -> IsUtf8 (itemsText m.1) ∧ Everywhere StringsUtf8 m.2 := by
  cases h with
  | last ha hk hb hc hj hd =>
    rw [isUtf8_key ha hb hc, isUtf8_append_ascii (allAscii_ws hd), isUtf8_spells hj]
    simp
  | more ha hk hb hc hj hd hrest =>
    rw [isUtf8_key ha hb hc, isUtf8_comma hd, isUtf8_spells hj, isUtf8_spellsMembers hrest]
    simp [and_assoc]

end

/-!
## Strings
-/

theorem allAscii_codeUnit (u : CodeUnit) : AllAscii u.text := by
  have hdigit : forall h : HexDigit, IsAscii h.byte := by
    rintro ⟨v, upper⟩
    revert v upper
    decide
  exact allAscii_cons (hdigit _) (allAscii_cons (hdigit _)
    (allAscii_cons (hdigit _) (allAscii_cons (hdigit _) allAscii_nil)))

theorem isUtf8_cut {pre a rest : Bytes} {b : UInt8} (hb : IsAscii b) (ha : AllAscii a)
    (h : IsUtf8 (pre ++ ((b :: a) ++ rest))) : IsUtf8 pre ∧ IsUtf8 rest := by
  have hsplit := isUtf8_split hb h
  exact ⟨hsplit.left, (isUtf8_ascii_append ha).mp hsplit.right⟩

theorem isUtf8_decodeFrom (s : List Item) (p : Option CodeUnit) (pre bs : Bytes)
    (h : IsUtf8 (pre ++ itemsText s)) (hbs : decodeFrom p s = some bs) : IsUtf8 (pre ++ bs) := by
  induction s generalizing p pre bs with
  | nil =>
    cases p with
    | none =>
      rw [← Option.some.inj hbs]
      exact h
    | some u => cases hbs
  | cons i rest ih =>
    change IsUtf8 (pre ++ (i.text ++ itemsText rest)) at h
    -- An element that is cut out leaves the bytes before it and the rest.
    have hjoin : forall {q : Option CodeUnit} {cs ds : Bytes},
        IsUtf8 pre ∧ IsUtf8 (itemsText rest) -> IsUtf8 cs ->
        decodeFrom q rest = some ds -> IsUtf8 (pre ++ (cs ++ ds)) := by
      intro q cs ds hcut hcs hds
      exact isUtf8_append hcut.left (isUtf8_append hcs (ih q [] ds hcut.right hds))
    cases i with
    | raw b =>
      cases p with
      | none =>
        rcases map_eq_some_iff.mp hbs with ⟨ds, hds, rfl⟩
        have hrest := ih none (pre ++ [b]) ds (by simpa [Item.text] using h) hds
        simpa using hrest
      | some u => cases hbs
    | escape e =>
      cases p with
      | none =>
        rcases map_eq_some_iff.mp hbs with ⟨ds, hds, rfl⟩
        have hletter : AllAscii [e.letter] :=
          allAscii_cons (by cases e <;> decide) allAscii_nil
        exact hjoin (isUtf8_cut (by decide) hletter h)
          (isUtf8_singleton (by cases e <;> decide)) hds
      | some u => cases hbs
    | unicode v =>
      have hcut := isUtf8_cut (by decide)
        (allAscii_cons (by decide) (allAscii_codeUnit v)) h
      cases p with
      | none =>
        rw [decodeFrom] at hbs
        split at hbs
        · rw [← nil_append bs]
          exact hjoin hcut isUtf8_nil hbs
        · split at hbs
          · cases hbs
          · rcases map_eq_some_iff.mp hbs with ⟨ds, hds, rfl⟩
            exact hjoin hcut (isUtf8_utf8EncodeChar _) hds
      | some u =>
        rw [decodeFrom] at hbs
        split at hbs
        · rcases map_eq_some_iff.mp hbs with ⟨ds, hds, rfl⟩
          exact hjoin hcut (isUtf8_utf8EncodeChar _) hds
        · cases hbs

theorem isUtf8_decode {s : List Item} {bs : Bytes} (h : IsUtf8 (itemsText s))
    (hbs : decode s = some bs) : IsUtf8 bs :=
  isUtf8_decodeFrom s none [] bs h hbs

theorem isUtf8_itemsOf {s : Bytes} (h : IsUtf8 s) : IsUtf8 (itemsText (itemsOf s)) := by
  have hitem : forall b, (IsAscii b -> AllAscii (itemOf b).text) ∧
      (¬IsAscii b -> (itemOf b).text = [b]) := by
    intro b
    -- The members are checked by the list, not by an enumeration of all bytes.
    have hall : (IsAscii b -> (itemOf b).text.all (fun c => decide (IsAscii c)) = true) ∧
        (¬IsAscii b -> (itemOf b).text = [b]) := by
      revert b
      decide +kernel
    refine ⟨fun hb c hc => ?_, hall.right⟩
    exact of_decide_eq_true (all_eq_true.mp (hall.left hb) c hc)
  have hothers : forall w : Bytes, (forall b, b ∈ w -> ¬IsAscii b) ->
      itemsText (itemsOf w) = w := by
    intro w hw
    induction w with
    | nil => rfl
    | cons b rest ih =>
      change (itemOf b).text ++ itemsText (itemsOf rest) = _
      rw [(hitem b).right (hw b (by simp)), ih (fun c hc => hw c (by simp [hc]))]
      rfl
  rcases h with ⟨cs, rfl⟩
  induction cs with
  | nil => exact isUtf8_nil
  | cons c cs ih =>
    have hsplit : itemsText (itemsOf ((c :: cs).flatMap String.utf8EncodeChar)) =
        itemsText (itemsOf (String.utf8EncodeChar c)) ++
          itemsText (itemsOf (cs.flatMap String.utf8EncodeChar)) := by
      simp [itemsText, itemsOf]
    rw [hsplit]
    refine isUtf8_append ?_ ih
    rcases utf8EncodeChar_cases c with ⟨b, hb, hc⟩ | hc
    · rw [hc]
      refine isUtf8_of_allAscii ?_
      change AllAscii ((itemOf b).text ++ [])
      rw [append_nil]
      exact (hitem b).left hb
    · rw [hothers _ hc]
      exact isUtf8_utf8EncodeChar c

end Async2.Json
