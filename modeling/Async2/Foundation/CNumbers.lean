import Async2.Foundation.Binary64

/-!
# Numbers in the C library

The conversions of `printf` and the `strto` functions, in the C locale and the
default rounding mode.  A buffer is a byte string; the end of the string stands
for its terminating zero byte.  The hexadecimal, infinity and NaN forms that
`strtod` knows besides decimals are left out: callers hand it decimals.
-/

namespace Async2.CLib

open Decimal Binary64 List Literal

/-!
## Reading
-/

/-- The bytes that `isspace` accepts. -/
def isSpace (b : UInt8) : Bool := b == byte ' ' || (9 <= b && b <= 13)

/-- An optional sign; the flag tells whether it is a minus sign. -/
def scanSign : Bytes -> Bool × Bytes
  | [] => (false, [])
  | b :: rest =>
    if b = byte '-' then (true, rest)
    else if b = byte '+' then (false, rest)
    else (false, b :: rest)

/-- The longest run of digits. -/
def scanDigits (s : Bytes) : List Digit × Bytes :=
  ((s.takeWhile isDigit).map digitOf, s.dropWhile isDigit)

/-- An optional point with the digits behind it. -/
def scanFraction : Bytes -> List Digit × Bytes
  | [] => ([], [])
  | b :: rest => if b = byte '.' then scanDigits rest else ([], b :: rest)

/-- An optional exponent; a letter without digits behind it is not one. -/
def scanExponent : Bytes -> Int × Bytes
  | [] => (0, [])
  | b :: rest =>
    if b = byte 'e' ∨ b = byte 'E' then
      let sign := scanSign rest
      let ds := scanDigits sign.2
      if ds.1 = [] then (0, b :: rest)
      else (if sign.1 then -(ofDigits ds.1 : Int) else ofDigits ds.1, ds.2)
    else (0, b :: rest)

/-- The number at the start of a buffer, and how many bytes it takes. -/
def strtod (s : Bytes) : UInt64 × Nat :=
  let sign := scanSign (s.dropWhile isSpace)
  let int := scanDigits sign.2
  let frac := scanFraction int.2
  if int.1 ++ frac.1 = [] then (pack false 0, 0)
  else
    let exp := scanExponent frac.2
    (ofDecimal sign.1 (ofDigits (int.1 ++ frac.1)) (exp.1 - frac.1.length),
      s.length - exp.2.length)

/-- The answer of `strtoll`: the value, the bytes taken, and whether `errno` was
set to `ERANGE`. -/
structure StrtollResult where
  value : Int64
  taken : Nat
  erange : Bool
  deriving DecidableEq

/-- The integer at the start of a buffer, clamped to the range of its type. -/
def strtoll (s : Bytes) : StrtollResult :=
  let sign := scanSign (s.dropWhile isSpace)
  let int := scanDigits sign.2
  if int.1 = [] then ⟨0, 0, false⟩
  else
    let v : Int := if sign.1 then -(ofDigits int.1 : Int) else ofDigits int.1
    let taken := s.length - int.2.length
    if v < -2 ^ 63 then ⟨Int64.minValue, taken, true⟩
    else if 2 ^ 63 <= v then ⟨Int64.maxValue, taken, true⟩
    else ⟨Int64.ofInt v, taken, false⟩

/-!
## Printing
-/

/-- Text written into a buffer of a given size; a zero byte takes the last
place. -/
def snprintf (size : Nat) (text : Bytes) : Bytes := text.take (size - 1)

/-- The literal that `%lld` prints. -/
def lldLiteral (v : Int64) : Literal :=
  ⟨decide (v.toInt < 0), decDigits v.toInt.natAbs, [], none⟩

/-- The exponent digits of `%e`: at least two. -/
def expDigits (n : Nat) : List Digit := fixedDigits (max 2 (Nat.log 10 n + 1)) n

/-- The literal that `%.*g` prints for digits `d` of a number whose first digit
has the power of ten `x`: plain for small exponents, else with an exponent, and
always without trailing zeros. -/
def gDigits (neg : Bool) (prec d : Nat) (x : Int) : Literal :=
  let ds := fixedDigits prec d
  if -4 <= x ∧ x < prec then
    if 0 <= x then
      ⟨neg, ds.take (x.toNat + 1), stripZeros (ds.drop (x.toNat + 1)), none⟩
    else
      ⟨neg, [0], stripZeros (List.replicate ((-x).toNat - 1) 0 ++ ds), none⟩
  else
    ⟨neg, ds.take 1, stripZeros (ds.drop 1),
      some ⟨false, some (decide (x < 0)), expDigits x.natAbs⟩⟩

/-- The literal that `%.*g` prints for a finite number. -/
def gLiteral (prec : Nat) (bits : UInt64) : Literal :=
  if magnitude bits = 0 then ⟨signBit bits, [0], [], none⟩
  else
    let dec := toDecimal prec (units (magnitude bits))
    gDigits (signBit bits) prec dec.1 dec.2

/-- A lower-case hexadecimal digit. -/
def hexByte (n : Nat) : UInt8 :=
  if n < 10 then UInt8.ofNat (48 + n) else UInt8.ofNat (87 + n)

/-- What `%04x` prints for a number below `65536`. -/
def hexText (v : Nat) : Bytes :=
  [hexByte (v / 4096 % 16), hexByte (v / 256 % 16), hexByte (v / 16 % 16),
    hexByte (v % 16)]

/-- The number that a literal denotes, rounded to binary64. -/
def literalBits (l : Literal) : UInt64 := ofDecimal l.neg l.mantissa l.exponent

/-!
## Reading a literal back

What follows a literal in a buffer must not continue it.
-/

/-- The bytes that may continue a number. -/
def continuesNumber (b : UInt8) : Bool :=
  isDigit b || b == byte '.' || b == byte 'e' || b == byte 'E'

/-- The buffer does not start with a byte of the given kind. -/
def Stops (p : UInt8 -> Bool) (s : Bytes) : Prop :=
  forall b, s.head? = some b -> p b = false

variable {s : Bytes} {l : Literal} {b : UInt8} {p : UInt8 -> Bool}

theorem Stops.of_imp {q : UInt8 -> Bool} (h : Stops p s)
    (himp : forall b, q b = true -> p b = true) : Stops q s := by
  intro b hb
  rw [Bool.eq_false_iff]
  intro hq
  have hp := h b hb
  rw [himp b hq] at hp
  cases hp

theorem stops_nil (p : UInt8 -> Bool) : Stops p [] := by
  intro b hb
  cases hb

theorem stops_cons (h : p b = false) : Stops p (b :: s) := by
  intro c hc
  rw [← Option.some.inj hc]
  exact h

theorem dropWhile_of_stops (h : Stops p s) : s.dropWhile p = s := by
  cases s with
  | nil => rfl
  | cons b rest => rw [dropWhile_cons, h b rfl]; rfl

theorem takeWhile_of_stops (h : Stops p s) : s.takeWhile p = [] := by
  cases s with
  | nil => rfl
  | cons b rest => rw [takeWhile_cons, h b rfl]; rfl

theorem scanDigits_digitText (ds : List Digit) (h : Stops isDigit s) :
    scanDigits (digitText ds ++ s) = (ds, s) := by
  have hall : forall b, b ∈ digitText ds -> isDigit b = true := by
    intro b hb
    rcases mem_map.mp hb with ⟨d, _, rfl⟩
    exact isDigit_digitByte d
  have hback : (digitText ds).map digitOf = ds := by
    rw [digitText, map_map]
    conv => rhs; rw [← map_id ds]
    refine map_congr_left ?_
    intro d _
    exact digitOf_digitByte d
  rw [scanDigits, takeWhile_append_of_pos hall, takeWhile_of_stops h,
    append_nil, dropWhile_append_of_pos hall, dropWhile_of_stops h, hback]

theorem scanSign_of_digit (neg : Bool) (h : isDigit b = true) :
    scanSign ((if neg then [byte '-'] else []) ++ b :: s) = (neg, b :: s) := by
  cases neg with
  | true => rfl
  | false =>
    have hminus : b ≠ byte '-' := by
      rintro rfl
      revert h
      decide
    have hplus : b ≠ byte '+' := by
      rintro rfl
      revert h
      decide
    simp [scanSign, hminus, hplus]

theorem scanFraction_fracText (ds : List Digit)
    (h : Stops (fun b => isDigit b || b == byte '.') s) :
    scanFraction (fracText ds ++ s) = (ds, s) := by
  have hdigit : Stops isDigit s := h.of_imp (by
    intro b hb
    simp [hb])
  unfold fracText
  split
  · rename_i hnil
    subst hnil
    cases s with
    | nil => rfl
    | cons b rest =>
      have hb := h b rfl
      simp only [Bool.or_eq_false_iff, beq_eq_false_iff_ne] at hb
      simp [scanFraction, hb.right]
  · rw [cons_append, scanFraction, if_pos rfl, scanDigits_digitText ds hdigit]

theorem scanSign_signText {sign : Option Bool} {ds : List Digit} (h : ds ≠ []) :
    scanSign (signText sign ++ (digitText ds ++ s)) = (sign == some true, digitText ds ++ s) := by
  cases ds with
  | nil => exact absurd rfl h
  | cons d rest =>
    cases sign with
    | none => exact scanSign_of_digit false (isDigit_digitByte d)
    | some neg =>
      cases neg with
      | true | false => rfl

theorem letter_cases (upper : Bool) :
    (if upper = true then byte 'E' else byte 'e') = byte 'e' ∨
      (if upper = true then byte 'E' else byte 'e') = byte 'E' := by
  cases upper with
  | true => exact .inr rfl
  | false => exact .inl rfl

theorem scanExponent_expText (exp : Option Exponent)
    (hdigits : forall e, exp = some e -> e.digits ≠ []) (h : Stops continuesNumber s) :
    scanExponent (expText exp ++ s) = (expValue exp, s) := by
  have hstops : Stops isDigit s := h.of_imp (by
    intro b hb
    simp [continuesNumber, hb])
  cases exp with
  | none =>
    cases s with
    | nil => rfl
    | cons b rest =>
      have hb := h b rfl
      simp only [continuesNumber, Bool.or_eq_false_iff, beq_eq_false_iff_ne] at hb
      simp [expText, expValue, scanExponent, hb.left.right, hb.right]
  | some e =>
    have hne := hdigits e rfl
    simp only [expText, Exponent.text, cons_append,
      append_assoc, scanExponent, if_pos (letter_cases e.upper), scanSign_signText hne,
      scanDigits_digitText e.digits hstops, if_neg hne, expValue,
      Exponent.value, beq_iff_eq]

/-- A literal starts with its sign or its first digit, never with a space. -/
theorem dropWhile_isSpace_text (h : l.int ≠ []) (s : Bytes) :
    (l.text ++ s).dropWhile isSpace = l.text ++ s := by
  rcases exists_cons_of_ne_nil h with ⟨d, rest, hint⟩
  have hdigit : forall d : Digit, isSpace (digitByte d) = false := by decide
  apply dropWhile_of_stops
  intro b hb
  cases hneg : l.neg with
  | true =>
    simp only [text, hneg, if_true, cons_append, List.head?_cons, Option.some.injEq] at hb
    rw [← hb]
    decide
  | false =>
    simp only [text, hneg, hint, digitText, Bool.false_eq_true, if_false,
      nil_append, map_cons, cons_append, List.head?_cons,
      Option.some.injEq] at hb
    rw [← hb]
    exact hdigit d

theorem scanSign_text (h : l.int ≠ []) (s : Bytes) :
    scanSign (l.text ++ s) = (l.neg, digitText l.int ++
      (fracText l.frac ++ (expText l.exp ++ s))) := by
  rcases exists_cons_of_ne_nil h with ⟨d, rest, hint⟩
  have hsign := scanSign_of_digit l.neg (b := digitByte d)
    (s := digitText rest ++
      (fracText l.frac ++ (expText l.exp ++ s)))
    (isDigit_digitByte d)
  simpa [text, hint, digitText] using hsign

theorem strtod_text (h : l.Wf) (hs : Stops continuesNumber s) :
    strtod (l.text ++ s) = (literalBits l, l.text.length) := by
  have hint : l.int ≠ [] := h.left.left
  have hexp : Stops (fun b => isDigit b || b == byte '.')
      (expText l.exp ++ s) := by
    cases hexp : l.exp with
    | none =>
      refine hs.of_imp ?_
      intro b hb
      simp only [Bool.or_eq_true] at hb
      rcases hb with hb | hb <;> simp [continuesNumber, hb]
    | some e =>
      apply stops_cons
      cases e.upper <;> decide
  have hfrac : Stops isDigit (fracText l.frac ++
      (expText l.exp ++ s)) := by
    unfold fracText
    split
    · exact hexp.of_imp (by intro b hb; simp [hb])
    · exact stops_cons (by decide)
  have hne : l.int ++ l.frac ≠ [] := by
    intro hnil
    exact hint (append_eq_nil_iff.mp hnil).left
  have htaken : (l.text ++ s).length - s.length = l.text.length := by
    simp only [length_append]
    omega
  simp only [strtod, dropWhile_isSpace_text hint, scanSign_text hint,
    scanDigits_digitText l.int hfrac, scanFraction_fracText l.frac hexp,
    scanExponent_expText l.exp h.right hs, if_neg hne, literalBits,
    mantissa, exponent, htaken]

theorem strtoll_text (h : l.Wf) (hinteger : l.IsInteger) (hs : Stops isDigit s) :
    strtoll (l.text ++ s) =
      if l.intValue < -2 ^ 63 then ⟨Int64.minValue, l.text.length, true⟩
      else if 2 ^ 63 <= l.intValue then ⟨Int64.maxValue, l.text.length, true⟩
      else ⟨Int64.ofInt l.intValue, l.text.length, false⟩ := by
  have hint : l.int ≠ [] := h.left.left
  have htail : fracText l.frac ++ (expText l.exp ++ s) = s := by
    rw [hinteger.left, hinteger.right]
    rfl
  have htaken : (l.text ++ s).length - s.length = l.text.length := by
    simp only [length_append]
    omega
  simp only [strtoll, dropWhile_isSpace_text hint, scanSign_text hint,
    htail, scanDigits_digitText l.int hs, if_neg hint, htaken, intValue]
  rfl

/-!
## Printing a number that reads back
-/

theorem lldLiteral_wf (v : Int64) : (lldLiteral v).Wf :=
  ⟨noLeadingZero_decDigits _, by intro e he; cases he⟩

theorem lldLiteral_isInteger (v : Int64) : (lldLiteral v).IsInteger := ⟨rfl, rfl⟩

theorem intValue_lldLiteral (v : Int64) : (lldLiteral v).intValue = v.toInt := by
  unfold intValue lldLiteral
  simp only [ofDigits_decDigits, decide_eq_true_eq]
  split <;> omega

section

variable (neg : Bool) {prec d : Nat} (x : Int) (hprec : 0 < prec)
include hprec

theorem gDigits_wf (hlow : 10 ^ (prec - 1) <= d) (hhigh : d < 10 ^ prec) :
    (gDigits neg prec d x).Wf := by
  have hsucc : prec - 1 + 1 = prec := by omega
  have hhead : (fixedDigits prec d).head? ≠ some 0 := by
    rw [← hsucc]
    exact head_fixedDigits_ne_zero hlow (hsucc ▸ hhigh)
  have hint : forall k, NoLeadingZero ((fixedDigits prec d).take (k + 1)) := by
    intro k
    rw [← hsucc, fixedDigits_succ] at hhead ⊢
    refine ⟨by simp, ?_⟩
    intro hzero
    exact absurd hzero hhead
  unfold gDigits
  dsimp only
  split
  · split
    · exact ⟨hint x.toNat, by intro e he; cases he⟩
    · exact ⟨⟨cons_ne_nil _ _, fun _ => rfl⟩, by intro e he; cases he⟩
  · refine ⟨hint 0, ?_⟩
    intro e he
    rw [← Option.some.inj he]
    intro hnil
    have hlen := congrArg List.length hnil
    simp only [expDigits, fixedDigits_length, length_nil] at hlen
    omega

theorem literalBits_gDigits (hhigh : d < 10 ^ prec) :
    literalBits (gDigits neg prec d x) = ofDecimal neg d (x - (prec - 1 : Nat)) := by
  -- Each form lists the digits up to trailing zeros, behind leading ones.
  have hcore : forall (int frac : List Digit) (exp : Option Exponent),
      ofDigits (int ++ frac) = d ->
      expValue exp - (frac.length : Int) = x - (prec - 1 : Nat) ->
      literalBits ⟨neg, int, stripZeros frac, exp⟩ =
        ofDecimal neg d (x - (prec - 1 : Nat)) := by
    intro int frac exp hdigits hexp
    rcases stripZeros_append frac with ⟨k, hk⟩
    have hlen := congrArg List.length hk
    rw [length_append, length_replicate] at hlen
    have hd : d = ofDigits (int ++ stripZeros frac) * 10 ^ k := by
      rw [← hdigits]
      conv => lhs; rw [hk]
      rw [← append_assoc, ofDigits_append, ofDigits_replicate_zero, length_replicate, Nat.add_zero]
    rw [hd, ofDecimal_mul_pow]
    unfold literalBits mantissa exponent
    dsimp only
    congr 1
    omega
  have htake : forall k, (fixedDigits prec d).take k ++
      (fixedDigits prec d).drop k = fixedDigits prec d := by
    intro k
    exact take_append_drop k _
  have hvalue : ofDigits (fixedDigits prec d) = d :=
    ofDigits_fixedDigits_of_lt hhigh
  unfold gDigits
  dsimp only
  split
  · rename_i hplain
    split
    · apply hcore
      · rw [htake, hvalue]
      · rw [length_drop, fixedDigits_length]
        simp only [expValue]
        omega
    · apply hcore
      · rw [singleton_append, ← cons_append, ← replicate_succ,
          ofDigits_append, ofDigits_replicate_zero, hvalue]
        omega
      · rw [length_append, length_replicate, fixedDigits_length]
        simp only [expValue]
        omega
  · apply hcore
    · rw [htake, hvalue]
    · have hexp : ofDigits (expDigits x.natAbs) = x.natAbs := by
        apply ofDigits_fixedDigits_of_lt
        exact (Nat.lt_pow_succ_log_self (by decide) x.natAbs).trans_le
          (Nat.pow_le_pow_right (by decide) (by omega))
      rw [length_drop, fixedDigits_length]
      simp only [expValue, Exponent.value, hexp, Option.some.injEq, decide_eq_true_eq]
      split <;> omega

end

section

variable {bits : UInt64} (hfinite : magnitude bits < infinity)

theorem gLiteral_wf {prec : Nat} (hprec : 0 < prec) (bits : UInt64) : (gLiteral prec bits).Wf := by
  unfold gLiteral
  split
  · exact ⟨⟨cons_ne_nil _ _, fun _ => rfl⟩, by intro e he; cases he⟩
  · have hpos : 0 < units (magnitude bits) := units_pos (by omega)
    exact gDigits_wf _ _ hprec (toDecimal_bounds hprec hpos).left
      (toDecimal_bounds hprec hpos).right

include hfinite in
/-- With seventeen digits the printed number is the number itself. -/
theorem literalBits_gLiteral : literalBits (gLiteral 17 bits) = bits := by
  unfold gLiteral
  split
  · rename_i hzero
    have hvalue : literalBits ⟨signBit bits, [0], [], none⟩ =
        ofDecimal (signBit bits) 0 0 := rfl
    rw [hvalue, ofDecimal, decimalMagnitude_zero, Nat.zero_min]
    conv => rhs; rw [← pack_signBit_magnitude bits, hzero]
  · rename_i hne
    have hpos : 0 < magnitude bits := by omega
    rw [literalBits_gDigits _ _ (by decide)
      (toDecimal_bounds (by decide) (units_pos hpos)).right, ofDecimal,
      decimalMagnitude_toDecimal hpos, Nat.min_eq_left (by omega),
      pack_signBit_magnitude]

end

/-!
## The printed texts fit their buffers
-/

@[simp] theorem digitText_length (ds : List Digit) : (digitText ds).length = ds.length := by
  simp [digitText]

theorem stripZeros_length_le (ds : List Digit) : (stripZeros ds).length <= ds.length := by
  rcases stripZeros_append ds with ⟨k, hk⟩
  have hlen := congrArg List.length hk
  rw [length_append] at hlen
  omega

theorem text_length_le (l : Literal) :
    l.text.length <= 2 + l.int.length + l.frac.length + (expText l.exp).length := by
  have hfrac : (fracText l.frac).length <= 1 + l.frac.length := by
    unfold fracText
    split
    · simp
    · simp only [length_cons, digitText_length]
      omega
  have hsign : (if l.neg then [byte '-'] else []).length <= 1 := by
    cases l.neg <;> simp
  simp only [text, length_append, digitText_length]
  omega

theorem expDigits_length {n : Nat} (h : n < 1000) : (expDigits n).length <= 3 := by
  have hlog : Nat.log 10 n < 3 := by
    rcases Nat.eq_zero_or_pos n with hzero | hpos
    · rw [hzero, Nat.log_zero_right]
      decide
    · exact (Nat.log_lt_iff_lt_pow (by decide) (by omega)).mpr h
  rw [expDigits, fixedDigits_length]
  omega

theorem gDigits_text_length (neg : Bool) (prec d : Nat) {x : Int} (hx : x.natAbs < 1000) :
    (gDigits neg prec d x).text.length <= prec + 8 := by
  refine (text_length_le _).trans ?_
  have hlen : (fixedDigits prec d).length = prec := fixedDigits_length prec d
  unfold gDigits
  dsimp only
  split
  · split
    · have hstrip := stripZeros_length_le
        ((fixedDigits prec d).drop (x.toNat + 1))
      simp only [length_drop, length_take, hlen, expText, length_nil] at hstrip ⊢
      omega
    · have hstrip := stripZeros_length_le
        (List.replicate ((-x).toNat - 1) 0 ++ fixedDigits prec d)
      simp only [length_append, length_replicate, hlen, expText,
        length_nil, length_cons] at hstrip ⊢
      omega
  · have hstrip := stripZeros_length_le ((fixedDigits prec d).drop 1)
    have hexp := expDigits_length hx
    have hsign : (signText (some (decide (x < 0)))).length = 1 := by
      cases decide (x < 0) <;> rfl
    simp only [length_drop, length_take, hlen, expText,
      Exponent.text, length_cons, length_append, digitText_length,
      hsign] at hstrip ⊢
    omega

/-- Seventeen digits and the shorter forms fit a buffer of 32 bytes. -/
theorem snprintf_gLiteral {prec : Nat} {bits : UInt64} (hprec : prec <= 17)
    (hfinite : magnitude bits < infinity) :
    snprintf 32 (gLiteral prec bits).text = (gLiteral prec bits).text := by
  apply take_of_length_le
  unfold gLiteral
  split
  · exact (text_length_le _).trans (by simp [expText])
  · have hrange := toDecimal_range prec (by omega) hfinite
    have hlen := gDigits_text_length (signBit bits) prec
      (toDecimal prec (units (magnitude bits))).1 hrange
    exact hlen.trans (by omega)

theorem snprintf_lldLiteral (v : Int64) :
    snprintf 32 (lldLiteral v).text = (lldLiteral v).text := by
  have hlow : -2 ^ 63 <= v.toInt := Int64.le_toInt v
  have hhigh : v.toInt < 2 ^ 63 := Int64.toInt_lt v
  have hlog : Nat.log 10 v.toInt.natAbs < 19 := by
    apply Nat.log_lt_of_lt_pow'
    · decide
    · omega
  apply take_of_length_le
  refine (text_length_le _).trans ?_
  simp only [lldLiteral, decDigits, fixedDigits_length, expText, length_nil]
  omega

end Async2.CLib
