import Async2.Data.Node
import Async2.Foundation.CNumbers
import Async2.Hjson.Scanner

/-!
# The HJSON reader

The reader walks over a copy of the input that is followed by zero bytes.  All
functions pass it on explicitly.  One field is not part of the program: the
slices of the input from which strings and keys were built, and those that were
tried as numbers.
-/

namespace Async2.Hjson

/-- A cursor over the input. -/
structure Reader where
  data : Bytes
  pos : Nat
  slices : List (Nat × Nat)

namespace Reader

def len (r : Reader) : Nat := r.data.length

/-- The byte at a position; zero past the end of the input. -/
def charAt (r : Reader) (i : Nat) : UInt8 := r.data.getD i 0

def peek (r : Reader) : UInt8 := r.charAt r.pos

def peekAt (r : Reader) (off : Nat) : UInt8 := r.charAt (r.pos + off)

def rest (r : Reader) : Bytes := r.data.drop r.pos

def advance (r : Reader) (n : Nat) : Reader := { r with pos := r.pos + n }

def skipOne (r : Reader) : Reader := if r.pos < r.len then r.advance 1 else r

def slice (r : Reader) (start stop : Nat) : Bytes :=
  (r.data.drop start).take (stop - start)

def noteSlice (r : Reader) (start stop : Nat) : Reader :=
  { r with slices := (start, stop) :: r.slices }

end Reader

/-- How a reading function ends: with a result, with a null pointer, with an
exception, or, which never happens, out of fuel. -/
inductive Outcome (α : Type) where
  | ok (a : α)
  | null
  | thrown
  | stuck

abbrev Parser (α : Type) := Reader -> Outcome α × Reader

namespace Parser

def andThen {α β : Type} (p : Parser α) (f : α -> Parser β) : Parser β := fun r =>
  match p r with
  | (.ok a, r) => f a r
  | (.null, r) => (.null, r)
  | (.thrown, r) => (.thrown, r)
  | (.stuck, r) => (.stuck, r)

end Parser

/-!
## Whitespace and comments
-/

section

variable (S : Scanner)

def skipLine (r : Reader) : Reader :=
  (r.advance (S.findNewline r.rest (r.len - r.pos))).skipOne

def skipBlock : Nat -> Reader -> Reader
  | 0, r => r
  | fuel + 1, r =>
    if r.pos + 1 < r.len then
      let r := r.advance (S.findChar r.rest (r.len - r.pos) (byte '*'))
      if r.pos + 1 < r.len ∧ r.peek = byte '*' ∧ r.peekAt 1 = byte '/' then
        r.advance 2
      else skipBlock fuel r.skipOne
    else r

def skipWsLoop : Nat -> Reader -> Reader
  | 0, r => r
  | fuel + 1, r =>
    if r.pos < r.len then
      let r := r.advance (S.skipWs r.rest (r.len - r.pos))
      if r.len <= r.pos then r
      else if r.peek = byte '#' then skipWsLoop fuel (skipLine S (r.advance 1))
      else if r.peek = byte '/' ∧ r.pos + 1 < r.len ∧ r.peekAt 1 = byte '/' then
        skipWsLoop fuel (skipLine S (r.advance 2))
      else if r.peek = byte '/' ∧ r.pos + 1 < r.len ∧ r.peekAt 1 = byte '*' then
        skipWsLoop fuel (skipBlock S r.len (r.advance 2))
      else r
    else r

def skipWs (r : Reader) : Reader := skipWsLoop S (r.len + 1) r

def skipSeparator (r : Reader) : Reader :=
  let r := skipWs S r
  if r.pos < r.len ∧ r.peek = byte ',' then skipWs S (r.advance 1) else r

end

/-!
## Escapes
-/

/-- The UTF-8 form of a code point, as the parser computes it. -/
def utf8Encode (cp : Nat) : Bytes :=
  if cp < 0x80 then [UInt8.ofNat cp]
  else if cp < 0x800 then
    [UInt8.ofNat (0xC0 ||| (cp >>> 6)), UInt8.ofNat (0x80 ||| (cp &&& 0x3F))]
  else if cp < 0x10000 then
    [UInt8.ofNat (0xE0 ||| (cp >>> 12)),
      UInt8.ofNat (0x80 ||| ((cp >>> 6) &&& 0x3F)),
      UInt8.ofNat (0x80 ||| (cp &&& 0x3F))]
  else if cp < 0x110000 then
    [UInt8.ofNat (0xF0 ||| (cp >>> 18)),
      UInt8.ofNat (0x80 ||| ((cp >>> 12) &&& 0x3F)),
      UInt8.ofNat (0x80 ||| ((cp >>> 6) &&& 0x3F)),
      UInt8.ofNat (0x80 ||| (cp &&& 0x3F))]
  else []

def hexValue (h : UInt8) : Option Nat :=
  if byte '0' <= h ∧ h <= byte '9' then some (h.toNat - 48)
  else if byte 'a' <= h ∧ h <= byte 'f' then some (h.toNat - 97 + 10)
  else if byte 'A' <= h ∧ h <= byte 'F' then some (h.toNat - 65 + 10)
  else none

/-- The value of a run of hexadecimal digits. -/
def hexNumber : Nat -> Bytes -> Option Nat
  | cp, [] => some cp
  | cp, h :: rest =>
    match hexValue h with
    | none => none
    | some hex => hexNumber (cp * 16 + hex) rest

def parseUEscape : Parser Nat := fun r =>
  if r.len < r.pos + 4 then (.null, r)
  else
    match hexNumber 0 (r.slice r.pos (r.pos + 4)) with
    | none => (.null, r)
    | some cp => (.ok cp, r.advance 4)

/-- What the letter behind a backslash stands for, `u` aside. -/
def escapeChar (esc : UInt8) : Option UInt8 :=
  if esc = byte '"' then some (byte '"')
  else if esc = byte '\'' then some (byte '\'')
  else if esc = byte '\\' then some (byte '\\')
  else if esc = byte '/' then some (byte '/')
  else if esc = byte 'b' then some 8
  else if esc = byte 'f' then some 12
  else if esc = byte 'n' then some 10
  else if esc = byte 'r' then some 13
  else if esc = byte 't' then some 9
  else none

end Async2.Hjson
