import Async2.Hjson.Cursor
import Async2.Json.Tree

/-!
# The tokens of JSON texts

The parser reads every JSON string, keyword and number to its end.  An unquoted
token also takes the blanks behind it, up to the end of the line or to the byte
that ends the value.
-/

namespace Async2.Hjson

open Json Decimal CLib Scan List Reader Literal

/-!
## Strings
-/

/-- The bytes that the parser makes of an element of a string: every `\u` escape
is encoded by itself. -/
def itemBytes : Item -> Bytes
  | .raw b => [b]
  | .escape e => [e.meaning]
  | .unicode u => utf8Encode u.value

def stringBytes (s : List Item) : Bytes := s.flatMap itemBytes

variable {s : Bytes} {r : Reader}

theorem hexValue_byte (h : HexDigit) : hexValue h.byte = some h.value.val := by
  have hall : forall (v : Fin 16) (upper : Bool),
      hexValue (HexDigit.byte ⟨v, upper⟩) = some v.val := by
    decide
  exact hall h.value h.upper

theorem hexNumber_text (u : CodeUnit) : hexNumber 0 u.text = some u.value := by
  simp [CodeUnit.text, hexNumber, hexValue_byte, CodeUnit.value]

theorem parseUEscape_text {u : CodeUnit} (h : r.rest = u.text ++ s) :
    exists r', parseUEscape r = (.ok u.value, r') ∧ Left r r' s := by
  have hfour : u.text.length = 4 := rfl
  have hlen := r.rest_length
  rw [h, length_append, hfour] at hlen
  have htake : r.slice r.pos (r.pos + 4) = u.text := by
    rw [r.slice_pos, h, ← hfour, take_left]
  refine ⟨r.advance 4, ?_, rfl, ?_⟩
  · unfold parseUEscape
    rw [if_neg (by omega), htake, hexNumber_text]
  · rw [rest_advance, h, ← hfour, drop_left]

theorem escapeChar_letter (e : Escape) : escapeChar e.letter = some e.meaning := by
  cases e <;> decide

theorem letter_ne_u (e : Escape) : e.letter ≠ byte 'u' := by
  cases e <;> decide

theorem exists_run (s : List Item) :
    exists (bs : Bytes) (more : List Item), s = bs.map Item.raw ++ more ∧
      (more = [] ∨ exists i more', (forall b, i ≠ Item.raw b) ∧ more = i :: more') := by
  induction s with
  | nil => exact ⟨[], [], rfl, .inl rfl⟩
  | cons i rest ih =>
    cases i with
    | raw b =>
      rcases ih with ⟨bs, more, hrest, hmore⟩
      exact ⟨b :: bs, more, by rw [hrest]; rfl, hmore⟩
    | escape e | unicode u => exact ⟨[], _, rfl, .inr ⟨_, rest, fun _ => Item.noConfusion, rfl⟩⟩

theorem endsRun_of_ok {b : UInt8} (h : (Item.raw b).Ok) : endsRun (byte '"') b = false := by
  revert b
  decide +kernel

theorem flatMap_text_raw (bs : Bytes) : (bs.map Item.raw).flatMap Item.text = bs := by
  induction bs with
  | nil => rfl
  | cons b rest ih =>
    rw [List.map_cons, List.flatMap_cons, ih]
    rfl

theorem stringBytes_raw (bs : Bytes) : stringBytes (bs.map Item.raw) = bs := by
  induction bs with
  | nil => rfl
  | cons b rest ih =>
    rw [List.map_cons, stringBytes, List.flatMap_cons, ← stringBytes, ih]
    rfl

theorem quotedLoop_run (fuel : Nat) (out : Bytes) {bs : Bytes} {c : UInt8}
    (hrest : r.rest = bs ++ c :: s) (hbs : forall b, b ∈ bs -> endsRun (byte '"') b = false)
    (hc : endsRun (byte '"') c = true) :
    exists r1, Left r r1 (c :: s) ∧
      quotedLoop scalarScanner (byte '"') (fuel + 1) out r =
        quotedSpecial (byte '"') (quotedLoop scalarScanner (byte '"') fuel)
          (out ++ bs) r1 := by
  have hlt : r.pos < r.len := by
    rw [lt_len_iff, hrest]
    simp
  have hrun : scalarScanner.findQuoteSpecial r.rest (r.len - r.pos) (byte '"') =
      bs.length := by
    change scanBytes (endsRun (byte '"')) r.rest (r.len - r.pos) = bs.length
    rw [← r.rest_length, hrest]
    apply scanBytes_append hbs
    intro b hb
    rw [← Option.some.inj hb]
    exact hc
  have hcopy : r.slice r.pos (r.pos + bs.length) = bs := by
    rw [r.slice_pos, hrest, take_left]
  refine ⟨(r.noteSlice r.pos (r.pos + bs.length)).advance bs.length, ⟨rfl, ?_⟩, ?_⟩
  · rw [rest_advance, rest_noteSlice, hrest, drop_left]
  · rw [quotedLoop, if_pos hlt]
    dsimp only
    rw [hrun, hcopy]

section

variable {r : Reader} (goOn : Bytes -> Parser Bytes) (out : Bytes) {s : Bytes}

theorem quotedSpecial_quote (h : r.rest = byte '"' :: s) :
    quotedSpecial (byte '"') goOn out r = (.ok out, r.advance 1) := by
  have hlen : ¬r.len <= r.pos := Nat.not_le_of_lt (pos_lt_of_rest h)
  unfold quotedSpecial
  rw [if_neg hlen, peek_of_rest h]
  rfl

theorem quotedSpecial_item {i : Item} (hi : forall b, i ≠ .raw b) (h : r.rest = i.text ++ s) :
    exists r1, Left r r1 s ∧
      quotedSpecial (byte '"') goOn out r = goOn (out ++ itemBytes i) r1 := by
  -- Up to the letter behind the backslash, both kinds of escapes are read alike.
  have hletter : forall {esc : UInt8} {t : Bytes}, r.rest = byte '\\' :: esc :: t ->
      exists r1, Left r r1 t ∧
        (esc = byte 'u' -> quotedSpecial (byte '"') goOn out r =
          (parseUEscape.andThen fun cp => goOn (out ++ utf8Encode cp)) r1) ∧
        (forall e, esc ≠ byte 'u' -> escapeChar esc = some e ->
          quotedSpecial (byte '"') goOn out r = goOn (out ++ [e]) r1) := by
    intro esc t hesc
    have hnext := left_advance hesc
    have hlen : ¬r.len <= r.pos := Nat.not_le_of_lt (Reader.pos_lt_of_rest hesc)
    have hlen' : ¬(r.advance 1).len <= (r.advance 1).pos :=
      Nat.not_le_of_lt (Reader.pos_lt_of_rest hnext.rest)
    refine ⟨_, hnext.trans (left_advance hnext.rest), ?_, ?_⟩
    · intro hu
      unfold quotedSpecial
      rw [if_neg hlen, Reader.peek_of_rest hesc]
      dsimp only
      rw [if_neg (by decide), if_neg (by decide), if_neg (by decide), if_neg hlen',
        Reader.peek_of_rest hnext.rest, if_pos hu]
    · intro e hu he
      unfold quotedSpecial
      rw [if_neg hlen, Reader.peek_of_rest hesc]
      dsimp only
      rw [if_neg (by decide), if_neg (by decide), if_neg (by decide), if_neg hlen',
        Reader.peek_of_rest hnext.rest, if_neg hu, he]
  cases i with
  | raw b => exact absurd rfl (hi b)
  | escape e =>
    rcases hletter h with ⟨r1, hr1, _, hplain⟩
    exact ⟨r1, hr1, hplain e.meaning (letter_ne_u e) (escapeChar_letter e)⟩
  | unicode u =>
    rcases hletter h with ⟨r1, hr1, hunicode, _⟩
    rcases parseUEscape_text hr1.rest with ⟨r2, hparse, hr2⟩
    refine ⟨r2, hr1.trans hr2, ?_⟩
    rw [hunicode rfl, Parser.andThen, hparse]
    rfl

end

variable {tail : Bytes} {ds : List Digit} {s : List Item} {l : Literal} {r : Reader}

theorem quotedLoop_items {fuel : Nat} (hok : forall i, i ∈ s -> i.Ok) (hfuel : s.length < fuel)
    (out : Bytes) (hrest : r.rest = s.flatMap Item.text ++ byte '"' :: tail) :
    exists r', quotedLoop scalarScanner (byte '"') fuel out r =
      (.ok (out ++ stringBytes s), r') ∧ Left r r' tail := by
  induction fuel generalizing s r out with
  | zero => omega
  | succ fuel ih =>
    rcases exists_run s with ⟨bs, more, hs, hmore⟩
    have hbs : forall b, b ∈ bs -> endsRun (byte '"') b = false := by
      intro b hb
      exact endsRun_of_ok (hok (.raw b) (by simp [hs, hb]))
    rw [hs, flatMap_append, flatMap_text_raw, append_assoc] at hrest
    have hbytes : out ++ stringBytes s = out ++ bs ++ stringBytes more := by
      rw [hs, stringBytes, flatMap_append, ← stringBytes, ← stringBytes,
        stringBytes_raw, append_assoc]
    rw [hbytes]
    have hlen := congrArg List.length hs
    rw [length_append] at hlen
    rcases hmore with rfl | ⟨i, more, hi, rfl⟩
    · rcases quotedLoop_run fuel out hrest hbs (by decide) with
        ⟨r1, hr1, hloop⟩
      rw [hloop, quotedSpecial_quote _ _ hr1.rest]
      exact ⟨_, by simp [stringBytes], hr1.trans (left_advance hr1.rest)⟩
    · have hmoreok : forall x, x ∈ more -> x.Ok := by
        intro x hx
        exact hok x (by simp [hs, hx])
      have hstart : exists c t, i.text = c :: t ∧ endsRun (byte '"') c = true := by
        cases i with
        | raw b => exact absurd rfl (hi b)
        | escape e | unicode u => exact ⟨_, _, rfl, by decide⟩
      rcases hstart with ⟨c, t, htext, hc⟩
      rw [List.flatMap_cons, htext, List.append_assoc, List.cons_append] at hrest
      rcases quotedLoop_run fuel out hrest hbs hc with ⟨r1, hr1, hloop⟩
      rw [← List.cons_append, ← htext] at hr1
      rcases quotedSpecial_item (quotedLoop scalarScanner (byte '"') fuel)
        (out ++ bs) hi hr1.rest with ⟨r2, hr2, hspecial⟩
      rw [length_cons] at hlen
      rcases ih hmoreok (by omega) (out ++ bs ++ itemBytes i) hr2.rest with
        ⟨r3, hrec, hr3⟩
      rw [hloop, hspecial, hrec]
      exact ⟨r3, by simp [stringBytes], (hr1.trans hr2).trans hr3⟩

theorem length_le_text (s : List Item) : s.length <= (s.flatMap Item.text).length := by
  induction s with
  | nil => exact Nat.le_refl 0
  | cons i rest ih =>
    have hpos : 1 <= i.text.length := by
      cases i <;> simp [Item.text]
    rw [flatMap_cons, length_append, length_cons]
    omega

section

variable (hok : forall i, i ∈ s -> i.Ok) (hrest : r.rest = quoted s ++ tail)
include hok hrest

theorem readQuotedString_quoted (allowMl : Bool) :
    exists r', readQuotedString scalarScanner allowMl r =
      (.ok (stringBytes s), r') ∧ Left r r' tail := by
  have hquote : r.rest = byte '"' ::
      (s.flatMap Item.text ++ byte '"' :: tail) := by
    simpa [quoted] using hrest
  have hnext : Left r r.skipOne (s.flatMap Item.text ++ byte '"' :: tail) := by
    refine ⟨r.data_skipOne, ?_⟩
    rw [r.rest_skipOne, hquote]
    rfl
  have hfuel : s.length < r.skipOne.len + 1 := by
    have hle := r.skipOne.rest_length_le
    have htext := length_le_text s
    rw [hnext.rest, List.length_append] at hle
    omega
  rcases quotedLoop_items hok hfuel [] hnext.rest with ⟨r', hloop, hr'⟩
  refine ⟨r', ?_, hnext.trans hr'⟩
  unfold readQuotedString
  rw [Reader.peek_of_rest hquote]
  dsimp only
  rw [if_neg (by decide), if_neg (fun h => absurd h.left (by decide)),
    if_neg (fun h => absurd h.left (by decide)), hloop]
  rfl

theorem readKey_quoted :
    exists r', readKey scalarScanner r = (.ok (stringBytes s), r') ∧ Left r r' tail := by
  have hpeek : r.peek = byte '"' := by
    refine peek_of_rest (s := s.flatMap Item.text ++ byte '"' :: tail) ?_
    simpa [quoted] using hrest
  unfold readKey
  rw [hpeek, if_pos (by decide), if_neg (fun h => absurd h.left (by decide))]
  exact readQuotedString_quoted hok hrest false

end

/-!
## Numbers
-/

theorem stops_expText (exp : Option Exponent) :
    Stops (fun b => isDigit b || b == byte '.') (expText exp) := by
  cases exp with
  | none => exact stops_nil _
  | some e =>
    apply stops_cons
    cases e.upper <;> decide

theorem stops_fracText (frac : List Digit) (exp : Option Exponent) :
    Stops isDigit (fracText frac ++ expText exp) := by
  unfold fracText
  split
  · refine (stops_expText exp).of_imp ?_
    intro b hb
    simp [hb]
  · exact stops_cons (by decide)

theorem skipDigits_digitText (hds : ds ≠ []) {s : Bytes} (hs : Stops isDigit s) :
    skipDigits (digitText ds ++ s) = some s := by
  have hdrop := congrArg Prod.snd (scanDigits_digitText ds hs)
  rcases exists_cons_of_ne_nil hds with ⟨d, rest, rfl⟩
  change (digitText (d :: rest) ++ s).dropWhile isDigit = s at hdrop
  unfold skipDigits
  simp only [digitText, map_cons, cons_append] at hdrop ⊢
  rw [if_pos (isDigit_digitByte d), hdrop]

theorem skipFraction_fracText (frac : List Digit) (exp : Option Exponent) :
    skipFraction (fracText frac ++ expText exp) = some (decide (frac ≠ []), expText exp) := by
  have hexp := stops_expText exp
  unfold fracText
  split
  · rename_i hnil
    rw [hnil, nil_append]
    cases hw : expText exp with
    | nil => rfl
    | cons b w =>
      rw [hw] at hexp
      have hb := hexp b rfl
      simp only [Bool.or_eq_false_iff, beq_eq_false_iff_ne] at hb
      simp [skipFraction, hb.right]
  · rename_i hne
    have hdigits := skipDigits_digitText hne (hexp.of_imp (by
      intro b hb
      simp [hb]))
    simp [skipFraction, hdigits, hne]

theorem skipExponent_expText {exp : Option Exponent} (h : forall e, exp = some e -> e.digits ≠ []) :
    skipExponent (expText exp) = some (exp.isSome, []) := by
  cases exp with
  | none => rfl
  | some e =>
    have hne := h e rfl
    have hdigits := skipDigits_digitText hne (stops_nil isDigit)
    rw [append_nil] at hdigits
    rcases exists_cons_of_ne_nil hne with ⟨d, ds, hds⟩
    have hplus := digitByte_ne_of_not_isDigit (b := byte '+') (by decide) d
    have hminus := digitByte_ne_of_not_isDigit (b := byte '-') (by decide) d
    have hsign : dropExpSign (signText e.sign ++ digitText e.digits) =
        digitText e.digits := by
      cases e.sign with
      | none => simp [signText, hds, digitText, dropExpSign, hplus, hminus]
      | some neg =>
        cases neg with
        | true | false => rfl
    simp only [expText, Exponent.text, skipExponent]
    rw [if_pos (letter_cases e.upper), hsign, hdigits]
    rfl

theorem hasLeadingZero_digitText (h : NoLeadingZero ds) {s : Bytes} (hs : Stops isDigit s) :
    hasLeadingZero (digitText ds ++ s) = false := by
  rcases exists_cons_of_ne_nil h.left with ⟨d, rest, rfl⟩
  cases rest with
  | nil =>
    cases s with
    | nil => rfl
    | cons b s =>
      have hb := hs b rfl
      simp [hasLeadingZero, digitText, hb]
  | cons d' rest =>
    have hne : d ≠ 0 := by
      rintro rfl
      have hlen := h.right rfl
      simp at hlen
    have hzero : forall d : Digit, d ≠ 0 -> digitByte d ≠ byte '0' := by decide
    simp [hasLeadingZero, digitText, hzero d hne]

theorem numberShape_text (h : l.Wf) : numberShape l.text = some (!decide l.IsInteger) := by
  have hbody : dropMinus l.text =
      digitText l.int ++ (fracText l.frac ++ expText l.exp) := by
    rcases exists_cons_of_ne_nil h.left.left with ⟨d, ds, hint⟩
    have hminus := digitByte_ne_of_not_isDigit (b := byte '-') (by decide) d
    cases hneg : l.neg with
    | true => simp [text, hneg, dropMinus]
    | false => simp [text, hneg, hint, digitText, dropMinus, hminus]
  have hkind : (decide (l.frac ≠ []) || l.exp.isSome) = !decide l.IsInteger := by
    by_cases hfrac : l.frac = [] <;> cases hexp : l.exp <;>
      simp [Literal.IsInteger, hfrac, hexp]
  unfold numberShape
  rw [hbody, hasLeadingZero_digitText h.left (stops_fracText l.frac l.exp),
    skipDigits_digitText h.left.left (stops_fracText l.frac l.exp)]
  dsimp only
  rw [skipFraction_fracText]
  dsimp only
  rw [skipExponent_expText h.right]
  simpa using hkind

theorem isNan_literalBits (l : Literal) : Binary64.isNan (literalBits l) = false :=
  Binary64.not_isNan_ofDecimal _ _ _

/-- A number is read as its node, whatever stands behind it, as long as that
does not go on like a number. -/
theorem tryParseNumber_text (h : l.Wf) (hok : LiteralOk l) {s : Bytes}
    (hs : Stops continuesNumber s) :
    tryParseNumber (l.text ++ s) l.text.length = some (literalNode l) := by
  have hdigits : Stops isDigit s := hs.of_imp (by
    intro b hb
    simp [continuesNumber, hb])
  unfold tryParseNumber literalNode
  unfold LiteralOk at hok
  rw [take_left, numberShape_text h]
  by_cases hint : l.IsInteger
  · rw [if_pos hint] at hok
    rw [if_pos hint, decide_eq_true hint]
    have hread := strtoll_text h hint hdigits
    rw [if_neg (by omega), if_neg (by omega)] at hread
    simp [hread]
  · rw [if_neg hint] at hok
    rw [if_neg hint, decide_eq_false hint]
    simp [floatOf, strtod_text h hs, hok, isNan_literalBits]

/-!
## Unquoted tokens
-/

/-- The bytes of keywords and numbers, among others: no blanks, no punctuation
and no start of a comment. -/
def isTokenByte (b : UInt8) : Bool :=
  decide (32 < b) && !isPunctuator b && b != byte '#' && b != byte '/'

def isBlank (b : UInt8) : Bool := b == byte ' ' || b == byte '\t'

/-- The bytes at which an unquoted token ends. -/
def endsToken (b : UInt8) : Bool :=
  inClass b ccNl || b == byte ',' || b == byte '}' || b == byte ']'

/-- What may follow a value in a JSON text: whitespace, and then a comma, a
closing bracket or the end of the text. -/
def Follows (tail : Bytes) : Prop :=
  exists a s, tail = a ++ s ∧ Ws a ∧
    forall b, s.head? = some b -> b = byte ',' ∨ b = byte '}' ∨ b = byte ']'

section

variable {r : Reader} {b : UInt8} {s : Bytes} {valStart valEnd fuel : Nat}

variable (h : r.rest = b :: s)
include h

theorem isBreak_of_token (hb : isTokenByte b = true) : isBreak r = false := by
  have hall : forall b, isTokenByte b = true ->
      (b == byte ',' || b == byte '}' || b == byte ']' || inClass b ccHash ||
        inClass b ccSlash) = false := by
    decide +kernel
  have hb' := hall b hb
  simp only [Bool.or_eq_false_iff] at hb'
  simp [isBreak, isCommentStart, peek_of_rest h, hb'.left.left.left.left,
    hb'.left.left.left.right, hb'.left.left.right, hb'.left.right, hb'.right]

theorem isBreak_of_blank (hb : isBlank b = true) : isBreak r = false := by
  simp only [isBlank, Bool.or_eq_true, beq_iff_eq] at hb
  unfold isBreak isCommentStart
  rw [peek_of_rest h]
  rcases hb with rfl | rfl
  · simp [show inClass (byte ' ') ccHash = false by decide,
      show inClass (byte ' ') ccSlash = false by decide]
    decide
  · simp [show inClass (byte '\t') ccHash = false by decide,
      show inClass (byte '\t') ccSlash = false by decide]
    decide

theorem unquotedLoop_tokenByte (hb : isTokenByte b = true) :
    unquotedLoop valStart (fuel + 1) valEnd r =
      unquotedLoop valStart fuel (r.pos + 1) (r.advance 1) := by
  have hall : forall b, isTokenByte b = true ->
      inClass b ccNl = false ∧ decide (32 < b) = true := by
    decide +kernel
  have hb' := hall b hb
  rw [unquotedLoop, if_neg (Nat.not_le_of_lt (pos_lt_of_rest h)),
    peek_of_rest h, hb'.left, isBreak_of_token h hb]
  simp [of_decide_eq_true hb'.right]

theorem unquotedLoop_blank (hb : isBlank b = true) :
    unquotedLoop valStart (fuel + 1) valEnd r =
      unquotedLoop valStart fuel valEnd (r.advance 1) := by
  have hall : forall b, isBlank b = true ->
      inClass b ccNl = false ∧ decide (32 < b) = false := by
    decide +kernel
  have hb' := hall b hb
  rw [unquotedLoop, if_neg (Nat.not_le_of_lt (pos_lt_of_rest h)),
    peek_of_rest h, hb'.left, isBreak_of_blank h hb]
  simp [of_decide_eq_false hb'.right]

end

variable {w s tail : Bytes} {node : DataNode} {valStart fuel valEnd : Nat} {r : Reader}

theorem advance_advance (r : Reader) (m n : Nat) : (r.advance m).advance n = r.advance (m + n) := by
  simp [advance, Nat.add_assoc]

theorem unquotedLoop_token (hw : forall b, b ∈ w -> isTokenByte b = true) (h : r.rest = w ++ s) :
    unquotedLoop valStart (fuel + w.length) r.pos r =
      unquotedLoop valStart fuel (r.pos + w.length) (r.advance w.length) := by
  induction w generalizing r with
  | nil => rfl
  | cons b w ih =>
    have hnext := left_advance h
    have hrec := ih (r := r.advance 1) (fun c hc => hw c (by simp [hc])) hnext.rest
    rw [length_cons, ← Nat.add_assoc,
      unquotedLoop_tokenByte h (hw b (by simp))]
    change unquotedLoop valStart (fuel + w.length) (r.advance 1).pos _ = _
    rw [hrec, advance_advance, Nat.add_comm 1]
    congr 1
    change r.pos + 1 + w.length = _
    omega

theorem unquotedLoop_blanks {u : Bytes} (hu : forall b, b ∈ u -> isBlank b = true)
    (h : r.rest = u ++ s) :
    unquotedLoop valStart (fuel + u.length) valEnd r =
      unquotedLoop valStart fuel valEnd (r.advance u.length) := by
  induction u generalizing r with
  | nil => rfl
  | cons b u ih =>
    have hnext := left_advance h
    rw [length_cons, ← Nat.add_assoc, unquotedLoop_blank h (hu b (by simp)),
      ih (fun c hc => hu c (by simp [hc])) hnext.rest, advance_advance,
      Nat.add_comm 1]

theorem unquotedLoop_end (fuel : Nat) (hne : valEnd ≠ valStart)
    (hkw : keywordBetween r valStart valEnd = some node)
    (hend : forall b, r.rest.head? = some b -> endsToken b = true) :
    exists r', unquotedLoop valStart (fuel + 1) valEnd r = (.ok node, r') ∧ Left r r' r.rest := by
  have hstop : endUnquoted valStart valEnd r =
      (.ok node, r.noteSlice valStart valEnd) := by
    rw [endUnquoted, if_neg hne]
    simp [hkw]
  refine ⟨r.noteSlice valStart valEnd, ?_, rfl, rfl⟩
  rw [unquotedLoop]
  cases hrest : r.rest with
  | nil => rw [if_pos (r.len_le_iff.mpr hrest), hstop]
  | cons b s =>
    have hb := hend b (by rw [hrest]; rfl)
    rw [if_neg (Nat.not_le_of_lt (pos_lt_of_rest hrest)), peek_of_rest hrest]
    by_cases hnl : inClass b ccNl = true
    · rw [if_pos hnl, hstop]
    · have hbreak : isBreak r = true := by
        simp only [endsToken, Bool.or_eq_true, hnl] at hb
        unfold isBreak
        rw [peek_of_rest hrest]
        simp only [Bool.or_eq_true]
        exact .inl (by tauto)
      rw [if_neg hnl, hbreak]
      simp [hkw]

theorem exists_blanks (h : Follows tail) :
    exists u tail', tail = u ++ tail' ∧ (forall b, b ∈ u -> isBlank b = true) ∧
      Ws u ∧ forall b, tail'.head? = some b -> endsToken b = true := by
  rcases h with ⟨a, s, rfl, ha, hs⟩
  induction a with
  | nil =>
    refine ⟨[], s, rfl, forall_mem_nil _, ws_nil, ?_⟩
    intro b hb
    rcases hs b hb with rfl | rfl | rfl <;> decide
  | cons c a ih =>
    have hc := ha c (by simp)
    by_cases hblank : isBlank c = true
    · rcases ih (fun b hb => ha b (by simp [hb])) with ⟨u, tail', htail, hu, hws, hend⟩
      refine ⟨c :: u, tail', by rw [cons_append, htail]; rfl, ?_,
        ws_cons hc hws, hend⟩
      intro b hb
      rcases mem_cons.mp hb with rfl | hb
      · exact hblank
      · exact hu b hb
    · refine ⟨[], c :: (a ++ s), rfl, forall_mem_nil _, ws_nil, ?_⟩
      intro b hb
      rw [← Option.some.inj hb]
      have hall : forall c, isWs c = true -> ¬isBlank c = true ->
          endsToken c = true := by
        decide +kernel
      exact hall c hc hblank

theorem readUnquotedValue_token (hne : w ≠ []) (hw : forall b, b ∈ w -> isTokenByte b = true)
    (hrest : r.rest = w ++ tail) (htail : Follows tail)
    (hkw : tryParseKeywordOrNumber (w ++ tail) w.length = some node) :
    exists r' u tail', readUnquotedValue r = (.ok node, r') ∧ Left r r' tail' ∧
      tail = u ++ tail' ∧ Ws u := by
  rcases exists_blanks htail with ⟨u, tail', rfl, hu, hws, hend⟩
  rcases exists_cons_of_ne_nil hne with ⟨b, w', hb⟩
  have hfirst : r.peek = b := by
    rw [hb] at hrest
    exact peek_of_rest hrest
  have htoken := hw b (by simp [hb])
  have hall : forall b, isTokenByte b = true -> isPunctuator b = false ∧
      ¬(charValue b <= 32 ∧ 0 < charValue b) := by
    decide +kernel
  have hfuel : exists fuel, r.len + 1 = fuel + 1 + u.length + w.length := by
    have hle := r.rest_length_le
    rw [hrest, length_append, length_append] at hle
    exact ⟨r.len - u.length - w.length, by omega⟩
  rcases hfuel with ⟨fuel, hfuel⟩
  -- The reader behind the token, and behind the blanks.
  have hblanks : (r.advance w.length).rest = u ++ tail' := by
    rw [rest_advance, hrest, drop_left]
  have hfinal : ((r.advance w.length).advance u.length).rest = tail' := by
    rw [rest_advance, hblanks, drop_left]
  have hbetween : keywordBetween ((r.advance w.length).advance u.length) r.pos
      (r.pos + w.length) = some node := by
    rw [keywordBetween, if_neg (by omega), Nat.add_sub_cancel_left]
    change tryParseKeywordOrNumber r.rest w.length = some node
    rw [hrest, hkw]
  have hlen : w.length ≠ 0 := by
    rw [hb]
    simp
  rcases unquotedLoop_end fuel (by omega) hbetween
    (by rw [hfinal]; exact hend) with ⟨r', hloop, hr'⟩
  rw [hfinal] at hr'
  refine ⟨r', u, tail', ?_, ⟨hr'.data, hr'.rest⟩, rfl, hws⟩
  unfold readUnquotedValue
  dsimp only
  rw [hfirst, (hall b htoken).left, if_neg (by decide), if_neg (hall b htoken).right,
    hfuel]
  rw [unquotedLoop_token hw hrest, unquotedLoop_blanks hu hblanks]
  exact hloop

end Async2.Hjson
