import Async2.Foundation.BigEndian
import Mathlib.Data.Nat.Log

/-!
# Decimal numerals

A numeral is a list of digits, most significant digit first.  `fixedDigits k v`
writes the `k` low digits of a number and `decDigits v` all of them, without
leading zeros.  A `Literal` is a signed decimal with an optional fraction and an
optional exponent, the form that JSON and the C library share.
-/

namespace Async2

open List

def byte (c : Char) : UInt8 := UInt8.ofNat c.toNat

def ascii (cs : List Char) : Bytes := cs.map byte

namespace Decimal

abbrev Digit := Fin 10

instance neZero_ten : NeZero 10 := ⟨by decide⟩

def digitByte (d : Digit) : UInt8 := UInt8.ofNat (48 + d.val)

def isDigit (b : UInt8) : Bool := byte '0' <= b && b <= byte '9'

/-- The digit that a digit byte stands for. -/
def digitOf (b : UInt8) : Digit := Fin.ofNat 10 (b.toNat - 48)

@[simp] theorem isDigit_digitByte (d : Digit) : isDigit (digitByte d) = true := by
  revert d
  decide

@[simp] theorem digitOf_digitByte (d : Digit) : digitOf (digitByte d) = d := by
  revert d
  decide

theorem digitByte_ne_of_not_isDigit {b : UInt8} (h : isDigit b = false)
    (d : Digit) : digitByte d ≠ b := by
  intro heq
  rw [← heq, isDigit_digitByte] at h
  cases h

/-!
## Numerals as numbers
-/

/-- The number that a digit string stands for. -/
def ofDigits : List Digit -> Nat
  | [] => 0
  | d :: rest => d.val * 10 ^ rest.length + ofDigits rest

/-- The `k` low digits of `v`, most significant digit first. -/
def fixedDigits : Nat -> Nat -> List Digit
  | 0, _ => []
  | k + 1, v => Fin.ofNat 10 (v / 10 ^ k) :: fixedDigits k v

/-- The digits of `v` without leading zeros; the digits of zero are `0`. -/
def decDigits (v : Nat) : List Digit := fixedDigits (Nat.log 10 v + 1) v

@[simp] theorem ofDigits_nil : ofDigits [] = 0 := rfl

theorem ofDigits_cons (d : Digit) (rest : List Digit) :
    ofDigits (d :: rest) = d.val * 10 ^ rest.length + ofDigits rest := rfl

theorem fixedDigits_succ (k v : Nat) :
    fixedDigits (k + 1) v = Fin.ofNat 10 (v / 10 ^ k) :: fixedDigits k v := rfl

@[simp] theorem fixedDigits_length (k v : Nat) : (fixedDigits k v).length = k := by
  induction k with
  | zero => rfl
  | succ k ih => rw [fixedDigits_succ, length_cons, ih]

theorem ofDigits_append (ds es : List Digit) :
    ofDigits (ds ++ es) = ofDigits ds * 10 ^ es.length + ofDigits es := by
  induction ds with
  | nil => simp
  | cons d rest ih =>
    rw [cons_append, ofDigits_cons, ofDigits_cons, ih, length_append, Nat.pow_add]
    ring

theorem ofDigits_replicate_zero (k : Nat) : ofDigits (List.replicate k 0) = 0 := by
  induction k with
  | zero => rfl
  | succ k ih =>
    rw [replicate_succ, ofDigits_cons, ih]
    simp

theorem ofDigits_fixedDigits (k v : Nat) : ofDigits (fixedDigits k v) = v % 10 ^ k := by
  induction k with
  | zero => simp [fixedDigits, Nat.mod_one]
  | succ k ih =>
    rw [fixedDigits_succ, ofDigits_cons, fixedDigits_length, ih]
    have hdigit : (Fin.ofNat 10 (v / 10 ^ k)).val = v / 10 ^ k % 10 := rfl
    rw [hdigit, Nat.pow_succ, Nat.mod_mul]
    ring

theorem ofDigits_fixedDigits_of_lt {k v : Nat} (h : v < 10 ^ k) :
    ofDigits (fixedDigits k v) = v := by
  rw [ofDigits_fixedDigits, Nat.mod_eq_of_lt h]

theorem ofDigits_decDigits (v : Nat) : ofDigits (decDigits v) = v :=
  ofDigits_fixedDigits_of_lt (Nat.lt_pow_succ_log_self (by decide) v)

theorem head_fixedDigits_ne_zero {k v : Nat} (hlow : 10 ^ k <= v) (hhigh : v < 10 ^ (k + 1)) :
    (fixedDigits (k + 1) v).head? ≠ some 0 := by
  have hpos : 0 < 10 ^ k := Nat.pow_pos (by decide)
  have hone : 1 <= v / 10 ^ k := (Nat.one_le_div_iff hpos).mpr hlow
  have hten : v / 10 ^ k < 10 := by
    rw [Nat.div_lt_iff_lt_mul hpos]
    rw [Nat.pow_succ] at hhigh
    omega
  intro hhead
  rw [fixedDigits_succ, List.head?_cons] at hhead
  have hval := congrArg Fin.val (Option.some.inj hhead)
  change v / 10 ^ k % 10 = 0 at hval
  omega

/-- Digits without a superfluous leading zero, as JSON and C print them. -/
def NoLeadingZero (ds : List Digit) : Prop :=
  ds ≠ [] ∧ (ds.head? = some 0 -> ds.length = 1)

instance (ds : List Digit) : Decidable (NoLeadingZero ds) :=
  inferInstanceAs (Decidable (_ ∧ _))

theorem noLeadingZero_decDigits (v : Nat) : NoLeadingZero (decDigits v) := by
  refine ⟨by simp [decDigits, fixedDigits_succ], ?_⟩
  intro hhead
  rw [decDigits, fixedDigits_length]
  rcases Nat.eq_zero_or_pos v with hzero | hpos
  · rw [hzero, Nat.log_zero_right]
  · exact absurd hhead (head_fixedDigits_ne_zero
      (Nat.pow_log_le_self 10 (by omega))
      (Nat.lt_pow_succ_log_self (by decide) v))

/-!
## Trailing zeros
-/

/-- The digits up to the last one that is not zero. -/
def stripZeros : List Digit -> List Digit
  | [] => []
  | d :: rest =>
    match stripZeros rest with
    | [] => if d = 0 then [] else [d]
    | kept => d :: kept

theorem stripZeros_append (ds : List Digit) :
    exists k, ds = stripZeros ds ++ List.replicate k 0 := by
  induction ds with
  | nil => exact ⟨0, rfl⟩
  | cons d rest ih =>
    rcases ih with ⟨k, hk⟩
    rw [stripZeros]
    cases hrest : stripZeros rest with
    | nil =>
      rw [hrest, nil_append] at hk
      by_cases hd : d = 0
      · exact ⟨k + 1, by simp [hd, hk, replicate_succ]⟩
      · exact ⟨k, by simp [hd, hk]⟩
    | cons x xs =>
      rw [hrest] at hk
      exact ⟨k, by simp [hk]⟩

/-!
## Literals
-/

/-- An exponent: the case of its letter, its sign and its digits. -/
structure Exponent where
  upper : Bool
  sign : Option Bool
  digits : List Digit
  deriving DecidableEq

/-- A decimal literal; an empty fraction is an absent one. -/
structure Literal where
  neg : Bool
  int : List Digit
  frac : List Digit
  exp : Option Exponent
  deriving DecidableEq

def digitText (ds : List Digit) : Bytes := ds.map digitByte

/-- The sign of an exponent as text; `some true` is the minus sign. -/
def signText : Option Bool -> Bytes
  | none => []
  | some true => [byte '-']
  | some false => [byte '+']

namespace Exponent

def text (e : Exponent) : Bytes :=
  (if e.upper then byte 'E' else byte 'e') :: (signText e.sign ++ digitText e.digits)

def value (e : Exponent) : Int :=
  if e.sign = some true then -(ofDigits e.digits : Int) else ofDigits e.digits

end Exponent

namespace Literal

def fracText (ds : List Digit) : Bytes :=
  if ds = [] then [] else byte '.' :: digitText ds

def expText : Option Exponent -> Bytes
  | none => []
  | some e => e.text

def text (l : Literal) : Bytes :=
  (if l.neg then [byte '-'] else []) ++
    (digitText l.int ++ (fracText l.frac ++ expText l.exp))

/-- The shape of a JSON number: no superfluous zero, no empty exponent. -/
def Wf (l : Literal) : Prop :=
  NoLeadingZero l.int ∧ forall e, l.exp = some e -> e.digits ≠ []

/-- The literal has neither a fraction nor an exponent. -/
def IsInteger (l : Literal) : Prop := l.frac = [] ∧ l.exp = none

instance (l : Literal) : Decidable l.IsInteger :=
  inferInstanceAs (Decidable (_ ∧ _))

/-- The digits of the literal as one number, the point left out. -/
def mantissa (l : Literal) : Nat := ofDigits (l.int ++ l.frac)

def expValue : Option Exponent -> Int
  | none => 0
  | some e => e.value

/-- The power of ten that belongs to the mantissa. -/
def exponent (l : Literal) : Int := expValue l.exp - l.frac.length

/-- The number that an integer literal denotes. -/
def intValue (l : Literal) : Int :=
  if l.neg then -(ofDigits l.int : Int) else ofDigits l.int

end Literal

end Decimal
end Async2
