import Async2.Foundation.Decimal
import Async2.Foundation.Utf8

/-!
# JSON texts

The grammar of RFC 8259.  A `Json` is a document without its insignificant
whitespace: members stay in the order of the text, repeated keys included, and
numbers and strings keep their spelling.  `Spells j w` says that the byte string
`w` is one way to write `j`, and `IsText j data` that `data` is a JSON text for
`j`, which is UTF-8 and may be surrounded by whitespace.
-/

namespace Async2
namespace Json

/-!
## Strings
-/

/-- The characters that a backslash gives a meaning, `\u` aside. -/
inductive Escape where
  | quote
  | backslash
  | slash
  | backspace
  | formFeed
  | lineFeed
  | carriageReturn
  | tab
  deriving DecidableEq

def Escape.letter : Escape -> UInt8
  | .quote => byte '"'
  | .backslash => byte '\\'
  | .slash => byte '/'
  | .backspace => byte 'b'
  | .formFeed => byte 'f'
  | .lineFeed => byte 'n'
  | .carriageReturn => byte 'r'
  | .tab => byte 't'

def Escape.meaning : Escape -> UInt8
  | .quote => byte '"'
  | .backslash => byte '\\'
  | .slash => byte '/'
  | .backspace => 8
  | .formFeed => 12
  | .lineFeed => 10
  | .carriageReturn => 13
  | .tab => 9

instance neZero_sixteen : NeZero 16 := ⟨by decide⟩

/-- A hexadecimal digit and the case of its letter. -/
structure HexDigit where
  value : Fin 16
  upper : Bool
  deriving DecidableEq

def HexDigit.byte (h : HexDigit) : UInt8 :=
  if h.value.val < 10 then UInt8.ofNat (48 + h.value.val)
  else if h.upper then UInt8.ofNat (55 + h.value.val)
  else UInt8.ofNat (87 + h.value.val)

/-- The four digits of a `\u` escape. -/
structure CodeUnit where
  first : HexDigit
  second : HexDigit
  third : HexDigit
  fourth : HexDigit
  deriving DecidableEq

namespace CodeUnit

def text (u : CodeUnit) : Bytes :=
  [u.first.byte, u.second.byte, u.third.byte, u.fourth.byte]

/-- The UTF-16 code unit that the digits spell. -/
def value (u : CodeUnit) : Nat :=
  ((u.first.value.val * 16 + u.second.value.val) * 16 + u.third.value.val) * 16 +
    u.fourth.value.val

def IsHigh (u : CodeUnit) : Prop := 0xD800 <= u.value ∧ u.value < 0xDC00

def IsLow (u : CodeUnit) : Prop := 0xDC00 <= u.value ∧ u.value < 0xE000

instance (u : CodeUnit) : Decidable u.IsHigh := inferInstanceAs (Decidable (_ ∧ _))

instance (u : CodeUnit) : Decidable u.IsLow := inferInstanceAs (Decidable (_ ∧ _))

end CodeUnit

/-- One element of a string between its quotes. -/
inductive Item where
  | raw (b : UInt8)
  | escape (e : Escape)
  | unicode (u : CodeUnit)
  deriving DecidableEq

namespace Item

/-- Unescaped bytes are no control characters, quotes or backslashes. -/
def Ok : Item -> Prop
  | .raw b => 0x20 <= b ∧ b ≠ byte '"' ∧ b ≠ byte '\\'
  | _ => True

def text : Item -> Bytes
  | .raw b => [b]
  | .escape e => [byte '\\', e.letter]
  | .unicode u => byte '\\' :: byte 'u' :: u.text

end Item

def quoted (s : List Item) : Bytes :=
  byte '"' :: (s.flatMap Item.text ++ [byte '"'])

def utf8 (cp : Nat) : Bytes := String.utf8EncodeChar (Char.ofNat cp)

def pairCodePoint (high low : Nat) : Nat :=
  0x10000 + (high - 0xD800) * 0x400 + (low - 0xDC00)

/-- The bytes that the rest of a string denotes, after the first half of a
surrogate pair if there is one waiting for its second half. -/
def decodeFrom : Option CodeUnit -> List Item -> Option Bytes
  | none, [] => some []
  | some _, [] => none
  | none, .raw b :: rest => (decodeFrom none rest).map ([b] ++ ·)
  | none, .escape e :: rest => (decodeFrom none rest).map ([e.meaning] ++ ·)
  | none, .unicode u :: rest =>
    if u.IsHigh then decodeFrom (some u) rest
    else if u.IsLow then none
    else (decodeFrom none rest).map (utf8 u.value ++ ·)
  | some u, .unicode v :: rest =>
    if v.IsLow then
      (decodeFrom none rest).map (utf8 (pairCodePoint u.value v.value) ++ ·)
    else none
  | some _, .raw _ :: _ => none
  | some _, .escape _ :: _ => none

/-- The bytes that a string denotes: two `\u` escapes may form a surrogate pair,
and a half without its partner denotes nothing. -/
def decode (s : List Item) : Option Bytes := decodeFrom none s

/-- The bytes that an element of a string denotes by itself. -/
def Item.alone : Item -> Option Bytes
  | .raw b => some [b]
  | .escape e => some [e.meaning]
  | .unicode u => if u.IsHigh ∨ u.IsLow then none else some (utf8 u.value)

theorem decode_cons_of_alone {i : Item} {bs : Bytes} (h : i.alone = some bs)
    (rest : List Item) : decode (i :: rest) = (decode rest).map (bs ++ ·) := by
  cases i with
  | raw b | escape e => rw [← Option.some.inj h]; rfl
  | unicode u =>
    rw [Item.alone] at h
    split at h
    · cases h
    · rename_i hplain
      rw [not_or] at hplain
      rw [← Option.some.inj h]
      change decodeFrom none (.unicode u :: rest) = _
      rw [decodeFrom, if_neg hplain.left, if_neg hplain.right]
      rfl

/-!
## Documents
-/

end Json

inductive Json where
  | null
  | bool (b : Bool)
  | num (l : Decimal.Literal)
  | str (s : List Json.Item)
  | arr (elems : List Json)
  | obj (members : List (List Json.Item × Json))

namespace Json

open Decimal

def isWs (b : UInt8) : Bool :=
  b == byte ' ' || b == byte '\t' || b == byte '\n' || b == byte '\r'

def Ws (w : Bytes) : Prop := forall b, b ∈ w -> isWs b = true

mutual

/-- The byte string is a way to write the value, without whitespace around it. -/
inductive Spells : Json -> Bytes -> Prop where
  | null : Spells .null (ascii ['n', 'u', 'l', 'l'])
  | true : Spells (.bool true) (ascii ['t', 'r', 'u', 'e'])
  | false : Spells (.bool false) (ascii ['f', 'a', 'l', 's', 'e'])
  | num {l : Literal} : l.Wf -> Spells (.num l) l.text
  | str {s : List Item} : (forall i, i ∈ s -> i.Ok) -> Spells (.str s) (quoted s)
  | emptyArr {a : Bytes} : Ws a ->
      Spells (.arr []) (byte '[' :: (a ++ [byte ']']))
  | arr {elems : List Json} {w : Bytes} : SpellsElems elems w ->
      Spells (.arr elems) (byte '[' :: (w ++ [byte ']']))
  | emptyObj {a : Bytes} : Ws a ->
      Spells (.obj []) (byte '{' :: (a ++ [byte '}']))
  | obj {members : List (List Item × Json)} {w : Bytes} :
      SpellsMembers members w ->
      Spells (.obj members) (byte '{' :: (w ++ [byte '}']))

/-- The byte string is a way to write the elements of an array. -/
inductive SpellsElems : List Json -> Bytes -> Prop where
  | last {j : Json} {a w b : Bytes} : Ws a -> Spells j w -> Ws b ->
      SpellsElems [j] (a ++ (w ++ b))
  | more {j : Json} {elems : List Json} {a w b rest : Bytes} :
      Ws a -> Spells j w -> Ws b -> SpellsElems elems rest ->
      SpellsElems (j :: elems) (a ++ (w ++ (b ++ byte ',' :: rest)))

/-- The byte string is a way to write the members of an object. -/
inductive SpellsMembers : List (List Item × Json) -> Bytes -> Prop where
  | last {k : List Item} {j : Json} {a b c w d : Bytes} :
      Ws a -> (forall i, i ∈ k -> i.Ok) -> Ws b -> Ws c -> Spells j w -> Ws d ->
      SpellsMembers [(k, j)]
        (a ++ (quoted k ++ (b ++ byte ':' :: (c ++ (w ++ d)))))
  | more {k : List Item} {j : Json} {members : List (List Item × Json)}
      {a b c w d rest : Bytes} :
      Ws a -> (forall i, i ∈ k -> i.Ok) -> Ws b -> Ws c -> Spells j w -> Ws d ->
      SpellsMembers members rest ->
      SpellsMembers ((k, j) :: members)
        (a ++ (quoted k ++ (b ++ byte ':' ::
          (c ++ (w ++ (d ++ byte ',' :: rest))))))

end

/-- The byte string is a JSON text for the document. -/
structure IsText (j : Json) (data : Bytes) : Prop where
  spelled : exists a w b, Ws a ∧ Spells j w ∧ Ws b ∧ data = a ++ (w ++ b)
  isUtf8 : Utf8.IsUtf8 data

end Json
end Async2
