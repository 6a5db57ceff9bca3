import Async2.Json.Value
import Async2.Json.Serialize

/-!
# The document that the serializer writes

Whatever the tree, the serializer writes a document: `written levels n`.  Both
the compact and the indented text spell it, its strings denote the bytes of the
tree, and its floats denote the very numbers of the tree.
-/

namespace Async2.Json

open Decimal Binary64 CLib List Literal

/-!
## Strings
-/

/-- The element of a string that the serializer writes for a byte. -/
def itemOf (c : UInt8) : Item :=
  if c = byte '"' then .escape .quote
  else if c = byte '\\' then .escape .backslash
  else if c = 8 then .escape .backspace
  else if c = 12 then .escape .formFeed
  else if c = 10 then .escape .lineFeed
  else if c = 13 then .escape .carriageReturn
  else if c = 9 then .escape .tab
  else if c < 0x20 then
    .unicode ⟨⟨0, false⟩, ⟨0, false⟩, ⟨Fin.ofNat 16 (c.toNat / 16), false⟩,
      ⟨Fin.ofNat 16 c.toNat, false⟩⟩
  else .raw c

def itemsOf (s : Bytes) : List Item := s.map itemOf

/-- What can be decided of each byte can be decided of all of them. -/
instance decidableBytes {P : UInt8 -> Prop} [DecidablePred P] : Decidable (forall c, P c) :=
  decidable_of_iff (forall n, n < 256 -> P (UInt8.ofNat n))
    ⟨fun h c => UInt8.ofNat_toNat (x := c) ▸ h c.toNat c.toNat_lt, fun h _ _ => h _⟩

theorem escapeByte_eq_text (c : UInt8) : escapeByte c = (itemOf c).text := by
  revert c
  decide +kernel

instance (i : Item) : Decidable i.Ok :=
  match i with
  | .raw _ => inferInstanceAs (Decidable (_ ∧ _))
  | .escape _ => inferInstanceAs (Decidable True)
  | .unicode _ => inferInstanceAs (Decidable True)

theorem itemOf_ok (c : UInt8) : (itemOf c).Ok := by
  revert c
  decide +kernel

theorem alone_itemOf (c : UInt8) : (itemOf c).alone = some [c] := by
  revert c
  decide +kernel

theorem decode_itemsOf (s : Bytes) : decode (itemsOf s) = some s := by
  induction s with
  | nil => rfl
  | cons c rest ih =>
    change decode (itemOf c :: itemsOf rest) = _
    rw [decode_cons_of_alone (alone_itemOf c), ih]
    rfl

theorem string_itemsOf (s : Bytes) : string (itemsOf s) = s := by
  rw [string, decode_itemsOf]
  rfl

theorem itemsOf_ok (s : Bytes) : forall i, i ∈ itemsOf s -> i.Ok := by
  intro i hi
  rcases mem_map.mp hi with ⟨c, _, rfl⟩
  exact itemOf_ok c

theorem serializeString_eq_quoted (s : Bytes) : serializeString s = quoted (itemsOf s) := by
  have hflat : s.flatMap escapeByte = (itemsOf s).flatMap Item.text := by
    rw [itemsOf, flatMap_map]
    congr 1
    funext c
    exact escapeByte_eq_text c
  rw [serializeString, quoted, hflat]

/-!
## Numbers
-/

/-- The precision at which the search for a short text stops. -/
def bestPrec (bits : UInt64) : Nat -> Nat -> Nat
  | 0, prec => prec
  | left + 1, prec =>
    if readsBack (printNumber prec bits) bits then prec
    else bestPrec bits left (prec + 1)

theorem shortest_eq (bits : UInt64) (left prec : Nat) :
    shortest bits left prec = printNumber (bestPrec bits left prec) bits := by
  induction left generalizing prec with
  | zero => rfl
  | succ left ih =>
    rw [shortest, bestPrec]
    split
    · rfl
    · exact ih (prec + 1)

theorem le_bestPrec (bits : UInt64) (left prec : Nat) :
    prec <= bestPrec bits left prec ∧ bestPrec bits left prec <= prec + left := by
  induction left generalizing prec with
  | zero => exact ⟨Nat.le_refl _, Nat.le_refl _⟩
  | succ left ih =>
    rw [bestPrec]
    split
    · omega
    · have hrest := ih (prec + 1)
      omega

section

variable {bits : UInt64} (hfinite : magnitude bits < infinity)
include hfinite

variable {prec : Nat}

theorem printNumber_eq (hprec : prec <= 17) : printNumber prec bits = (gLiteral prec bits).text :=
  snprintf_gLiteral hprec hfinite

/-- The test of the search compares the numbers bit by bit. -/
theorem literalBits_of_readsBack (hpos : 0 < prec) (hprec : prec <= 17)
    (h : readsBack (printNumber prec bits) bits = true) :
    literalBits (gLiteral prec bits) = bits := by
  have hread := strtod_text (gLiteral_wf hpos bits)
    (stops_nil continuesNumber)
  rw [append_nil] at hread
  rw [readsBack, printNumber_eq hfinite hprec, hread, Bool.and_eq_true, beq_iff_eq] at h
  exact eq_of_numEq h.left h.right

/-- The search ends with a text of the number itself: seventeen digits would
do. -/
theorem literalBits_bestPrec (left prec : Nat) (hpos : 0 < prec) (hleft : prec + left = 17) :
    literalBits (gLiteral (bestPrec bits left prec) bits) = bits := by
  induction left generalizing prec with
  | zero =>
    rw [bestPrec, show prec = 17 by omega]
    exact literalBits_gLiteral hfinite
  | succ left ih =>
    rw [bestPrec]
    split
    · rename_i hread
      exact literalBits_of_readsBack hfinite hpos (by omega) hread
    · exact ih (prec + 1) (by omega) (by omega)

end

def tidyLiteral (l : Literal) : Literal :=
  match l.exp with
  | none => if l.frac = [] then ⟨l.neg, l.int, [0], none⟩ else l
  | some e =>
    ⟨l.neg, l.int, l.frac,
      some ⟨e.upper, if e.sign = some false then none else e.sign, e.digits⟩⟩

variable {l : Literal}

theorem tidyLiteral_wf (h : l.Wf) : (tidyLiteral l).Wf := by
  unfold tidyLiteral
  cases hexp : l.exp with
  | none =>
    dsimp only
    split
    · exact ⟨h.left, by intro e he; cases he⟩
    · exact h
  | some e =>
    refine ⟨h.left, ?_⟩
    intro f hf
    rw [← Option.some.inj hf]
    exact h.right e hexp

/-- A float is never written like an integer. -/
theorem not_isInteger_tidyLiteral (l : Literal) : ¬(tidyLiteral l).IsInteger := by
  intro h
  unfold tidyLiteral at h
  cases hexp : l.exp with
  | none =>
    rw [hexp] at h
    dsimp only at h
    split at h
    · cases h.left
    · rename_i hfrac
      exact hfrac h.left
  | some e =>
    rw [hexp] at h
    cases h.right

theorem literalBits_tidyLiteral (l : Literal) : literalBits (tidyLiteral l) = literalBits l := by
  unfold tidyLiteral
  cases hexp : l.exp with
  | none =>
    dsimp only
    split
    · rename_i hfrac
      have hzero : ofDigits (l.int ++ [0]) = ofDigits (l.int ++ l.frac) * 10 ^ 1 := by
        rw [hfrac, ofDigits_append, append_nil]
        rfl
      unfold literalBits mantissa exponent
      rw [hexp, hfrac] at *
      dsimp only
      rw [hzero, ofDecimal_mul_pow]
      rfl
    · rfl
  | some e =>
    unfold literalBits mantissa exponent
    rw [hexp]
    dsimp only [expValue, Exponent.value]
    by_cases hplus : e.sign = some false
    · simp [hplus]
    · simp [hplus]

def mantissaText (l : Literal) : Bytes :=
  (if l.neg then [byte '-'] else []) ++ (digitText l.int ++ Literal.fracText l.frac)

theorem text_eq_mantissaText (l : Literal) : l.text = mantissaText l ++ expText l.exp := by
  simp [text, mantissaText]

theorem isMantissaByte_of_mem {c : UInt8} (h : c ∈ mantissaText l) : isMantissaByte c = true := by
  have hdigit : forall d : Digit, isMantissaByte (digitByte d) = true := by
    decide
  have hdigits : forall ds : List Digit, c ∈ digitText ds ->
      isMantissaByte c = true := by
    intro ds hc
    rcases mem_map.mp hc with ⟨d, _, rfl⟩
    exact hdigit d
  unfold mantissaText fracText at h
  simp only [mem_append] at h
  rcases h with hsign | hint | hfrac
  · split at hsign
    · rw [mem_singleton.mp hsign]
      decide
    · cases hsign
  · exact hdigits l.int hint
  · split at hfrac
    · cases hfrac
    · rcases mem_cons.mp hfrac with rfl | hfrac
      · decide
      · exact hdigits l.frac hfrac

theorem mem_point_mantissaText : (mantissaText l).contains (byte '.') = true <-> l.frac ≠ [] := by
  have hdigits : forall ds : List Digit, byte '.' ∉ digitText ds := by
    intro ds hmem
    rcases mem_map.mp hmem with ⟨d, _, hd⟩
    exact digitByte_ne_of_not_isDigit (by decide) d hd
  have hsign : byte '.' ∉ (if l.neg then [byte '-'] else []) := by
    cases l.neg <;> decide
  rw [contains_iff_mem]
  unfold mantissaText fracText
  by_cases hfrac : l.frac = []
  · simp [hfrac, hdigits, hsign]
  · simp [hfrac]

theorem tidyNumber_text (h : l.Wf) : tidyNumber l.text = (tidyLiteral l).text := by
  have hstops : Stops isMantissaByte (expText l.exp) := by
    cases l.exp with
    | none => exact stops_nil _
    | some e =>
      apply stops_cons
      cases e.upper <;> decide
  have htake : l.text.takeWhile isMantissaByte = mantissaText l := by
    rw [text_eq_mantissaText, takeWhile_append_of_pos
      (fun c hc => isMantissaByte_of_mem hc), takeWhile_of_stops hstops,
      append_nil]
  have hdrop : l.text.dropWhile isMantissaByte = expText l.exp := by
    rw [text_eq_mantissaText, dropWhile_append_of_pos
      (fun c hc => isMantissaByte_of_mem hc), dropWhile_of_stops hstops]
  have hpoint : (mantissaText l).contains (byte '.') = false <-> l.frac = [] := by
    rw [← Bool.not_eq_true, mem_point_mantissaText, not_not]
  simp only [tidyNumber, htake, hdrop, hpoint]
  unfold tidyLiteral
  cases hexp : l.exp with
  | none =>
    by_cases hfrac : l.frac = []
    · simp [hfrac, expText, text, mantissaText,
        fracText, digitText]
      rfl
    · simp [hfrac, expText, text_eq_mantissaText, hexp]
  | some e =>
    have hne : expText (some e) ≠ [] := cons_ne_nil _ _
    rw [if_neg (by simp [hne]), append_nil, text_eq_mantissaText]
    have hmantissa : mantissaText ⟨l.neg, l.int, l.frac, some ⟨e.upper,
        if e.sign = some false then none else e.sign, e.digits⟩⟩ =
        mantissaText l := rfl
    dsimp only
    rw [hmantissa]
    congr 1
    dsimp only [expText, Exponent.text]
    cases hsign : e.sign with
    | none =>
      rcases exists_cons_of_ne_nil (h.right e hexp) with ⟨d, ds, hds⟩
      have hd : digitByte d ≠ byte '+' :=
        digitByte_ne_of_not_isDigit (by decide) d
      simp [hds, digitText, signText, hd]
    | some neg =>
      cases neg with
      | true | false => rfl

/-- The literal that the serializer writes for a finite number. -/
def floatLiteral (bits : UInt64) : Literal :=
  tidyLiteral (gLiteral (bestPrec bits 16 1) bits)

theorem floatLiteral_wf (bits : UInt64) : (floatLiteral bits).Wf :=
  tidyLiteral_wf (gLiteral_wf (le_bestPrec bits 16 1).left bits)

theorem not_isInteger_floatLiteral (bits : UInt64) : ¬(floatLiteral bits).IsInteger :=
  not_isInteger_tidyLiteral _

section

variable {bits : UInt64} (hfinite : magnitude bits < infinity)
include hfinite

theorem literalBits_floatLiteral : literalBits (floatLiteral bits) = bits := by
  rw [floatLiteral, literalBits_tidyLiteral]
  exact literalBits_bestPrec hfinite 16 1 (by decide) rfl

theorem tidyNumber_shortest : tidyNumber (shortest bits 16 1) = (floatLiteral bits).text := by
  rw [shortest_eq, printNumber_eq hfinite (le_bestPrec bits 16 1).right,
    tidyNumber_text (gLiteral_wf (le_bestPrec bits 16 1).left bits)]
  rfl

end

/-!
## Documents
-/

/-- The document that the serializer writes for a tree, `levels` levels deep. -/
def written : Nat -> DataNode -> Json
  | 0, _ => .null
  | levels + 1, .array es => .arr (es.map (written levels))
  | levels + 1, .object es =>
    .obj (es.map fun e => (itemsOf e.1, written levels e.2))
  | _ + 1, .bool b => .bool b
  | _ + 1, .int v => .num (lldLiteral v)
  | _ + 1, .float bits =>
    if isNan bits || isInf bits then .null else .num (floatLiteral bits)
  | _ + 1, .string s => .str (itemsOf s)
  | _ + 1, _ => .null

variable {a : Bytes}

theorem magnitude_lt_infinity {bits : UInt64}
    (h : ¬(isNan bits || isInf bits) = true) : magnitude bits < infinity := by
  simp only [isNan, isInf, Bool.or_eq_true, decide_eq_true_eq, beq_iff_eq, not_or] at h
  omega

theorem ws_nil : Ws [] := by
  intro b hb
  cases hb

theorem ws_append {b : Bytes} (ha : Ws a) (hb : Ws b) : Ws (a ++ b) := by
  intro c hc
  rcases mem_append.mp hc with hc | hc
  · exact ha c hc
  · exact hb c hc

theorem ws_cons {c : UInt8} (hc : isWs c = true) (ha : Ws a) : Ws (c :: a) := by
  intro b hb
  rcases mem_cons.mp hb with rfl | hb
  · exact hc
  · exact ha b hb

theorem ws_spaces (n : Nat) : Ws (spaces n) := by
  intro b hb
  rw [(mem_replicate.mp hb).right]
  decide

section

variable {α : Type} {json : α -> Json} {text : α -> Bytes} {a c : Bytes}
  (ha : Ws a) (hc : Ws c)
include ha hc

variable {p q : Bytes} {es : List α}

theorem spellsElems_separated (hne : es ≠ []) (h : forall e, e ∈ es -> Spells (json e) (text e))
    (hp : Ws p) (hq : Ws q) :
    SpellsElems (es.map json)
      (p ++ (separated (byte ',' :: c) (es.map fun e => a ++ text e) ++ q)) := by
  induction es generalizing p with
  | nil => exact absurd rfl hne
  | cons e rest ih =>
    have hfirst := h e (by simp)
    cases rest with
    | nil =>
      have hlast := SpellsElems.last (ws_append hp ha) hfirst hq
      simpa [separated] using hlast
    | cons f rest =>
      have htail := ih (by simp) (fun x hx => h x (by simp [hx])) hc
      have hmore := SpellsElems.more (ws_append hp ha) hfirst ws_nil htail
      simpa [separated] using hmore

theorem spellsMembers_separated {key : α -> List Item} {d : Bytes} (hd : Ws d) (hne : es ≠ [])
    (hkey : forall e i, i ∈ key e -> i.Ok) (h : forall e, e ∈ es -> Spells (json e) (text e))
    (hp : Ws p) (hq : Ws q) :
    SpellsMembers (es.map fun e => (key e, json e))
      (p ++ (separated (byte ',' :: c) (es.map fun e =>
        a ++ (quoted (key e) ++ (byte ':' :: (d ++ text e)))) ++ q)) := by
  induction es generalizing p with
  | nil => exact absurd rfl hne
  | cons e rest ih =>
    have hfirst := h e (by simp)
    cases rest with
    | nil =>
      have hlast := SpellsMembers.last (ws_append hp ha) (hkey e) ws_nil hd
        hfirst hq
      simpa [separated] using hlast
    | cons f rest =>
      have htail := ih (by simp) (fun x hx => h x (by simp [hx])) hc
      have hmore := SpellsMembers.more (ws_append hp ha) (hkey e) ws_nil hd
        hfirst ws_nil htail
      simpa [separated] using hmore

end

theorem spells_null : Spells .null (ascii ['n', 'u', 'l', 'l']) := Spells.null

theorem spells_bool (b : Bool) : Spells (.bool b) (serializeLeaf (.bool b)) := by
  cases b with
  | true => exact Spells.true
  | false => exact Spells.false

theorem spells_int (v : Int64) : Spells (.num (lldLiteral v)) (serializeLeaf (.int v)) := by
  rw [serializeLeaf, snprintf_lldLiteral]
  exact Spells.num (lldLiteral_wf v)

theorem spells_float (levels : Nat) (bits : UInt64) :
    Spells (written (levels + 1) (.float bits)) (serializeLeaf (.float bits)) := by
  rw [serializeLeaf, written]
  split
  · exact Spells.null
  · rename_i hfinite
    rw [tidyNumber_shortest (magnitude_lt_infinity hfinite)]
    exact Spells.num (floatLiteral_wf bits)

theorem spells_string (s : Bytes) : Spells (.str (itemsOf s)) (serializeLeaf (.string s)) := by
  rw [serializeLeaf, serializeString_eq_quoted]
  exact Spells.str (itemsOf_ok s)

theorem spells_serializeValue (levels : Nat) (n : DataNode) :
    Spells (written levels n) (serializeValue levels n) := by
  induction levels generalizing n with
  | zero => exact spells_null
  | succ levels ih =>
    cases n with
    | null => exact spells_null
    | bool b => exact spells_bool b
    | int v => exact spells_int v
    | float bits => exact spells_float levels bits
    | string s => exact spells_string s
    | intMap es | binary b => exact spells_null
    | array es =>
      rw [written, serializeValue]
      by_cases hne : es = []
      · subst hne
        exact Spells.emptyArr ws_nil
      · have helems := spellsElems_separated ws_nil ws_nil hne
          (fun e _ => ih e) ws_nil ws_nil
        simpa using Spells.arr helems
    | object es =>
      rw [written, serializeValue]
      by_cases hne : es = []
      · subst hne
        exact Spells.emptyObj ws_nil
      · have hmembers := spellsMembers_separated ws_nil ws_nil ws_nil hne
          (fun e : Bytes × DataNode => itemsOf_ok e.1) (fun e _ => ih e.2)
          ws_nil ws_nil
        simpa [serializeString_eq_quoted] using Spells.obj hmembers

theorem spells_serializeValuePretty (levels depth : Nat) (n : DataNode) :
    Spells (written levels n) (serializeValuePretty levels depth n) := by
  induction levels generalizing depth n with
  | zero => exact spells_null
  | succ levels ih =>
    have hline : Ws [byte '\n'] := ws_cons (by decide) ws_nil
    have hclose : Ws (byte '\n' :: spaces (depth * 4)) :=
      ws_cons (by decide) (ws_spaces _)
    cases n with
    | null => exact spells_null
    | bool b => exact spells_bool b
    | int v => exact spells_int v
    | float bits => exact spells_float levels bits
    | string s => exact spells_string s
    | intMap es | binary b => exact spells_null
    | array es =>
      rw [written, serializeValuePretty]
      split
      · rename_i hnil
        subst hnil
        exact Spells.emptyArr ws_nil
      · rename_i hne
        have helems := spellsElems_separated (ws_spaces ((depth + 1) * 4)) hline
          hne (fun e _ => ih (depth + 1) e) hline hclose
        simpa using Spells.arr helems
    | object es =>
      rw [written, serializeValuePretty]
      split
      · rename_i hnil
        subst hnil
        exact Spells.emptyObj ws_nil
      · rename_i hne
        have hspace : Ws [byte ' '] := ws_cons (by decide) ws_nil
        have hmembers := spellsMembers_separated (ws_spaces ((depth + 1) * 4))
          hline hspace hne (fun e : Bytes × DataNode => itemsOf_ok e.1)
          (fun e _ => ih (depth + 1) e.2) hline hclose
        simpa [serializeString_eq_quoted] using Spells.obj hmembers

theorem spells_dataSerializeJson (n : DataNode) (pretty : Bool) :
    Spells (written (maxSerializeDepth + 1) n) (dataSerializeJson n pretty) := by
  unfold dataSerializeJson
  split
  · exact spells_serializeValuePretty _ 0 n
  · exact spells_serializeValue _ n

end Async2.Json
