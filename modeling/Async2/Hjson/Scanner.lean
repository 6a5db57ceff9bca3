import Async2.Foundation.Decimal
import Async2.Foundation.Scan

/-!
# Character classes and scanners of the HJSON parser

A table classifies bytes, and four scanners skip runs of bytes in bulk.  There
are two sets of scanners, one that looks at single bytes and one that uses AVX2
instructions; which one runs is decided when the parser is first used.  They
compute the same positions, so nothing about the parser depends on the choice.
-/

namespace Async2.Hjson

open Scan

/-!
## Character classes
-/

def ccWs : UInt8 := 1
def ccNl : UInt8 := 2
def ccStruct : UInt8 := 4
def ccQuote : UInt8 := 8
def ccBslash : UInt8 := 16
def ccHash : UInt8 := 32
def ccSlash : UInt8 := 64
def ccSquote : UInt8 := 128

/-- The classes of a byte, one bit for each. -/
def cc (c : UInt8) : UInt8 :=
  if c = byte ' ' then ccWs
  else if c = byte '\t' then ccWs
  else if c = byte '\r' then ccWs ||| ccNl
  else if c = byte '\n' then ccWs ||| ccNl
  else if c = byte '{' then ccStruct
  else if c = byte '}' then ccStruct
  else if c = byte '[' then ccStruct
  else if c = byte ']' then ccStruct
  else if c = byte ',' then ccStruct
  else if c = byte ':' then ccStruct
  else if c = byte '"' then ccQuote
  else if c = byte '\'' then ccQuote ||| ccSquote
  else if c = byte '\\' then ccBslash
  else if c = byte '#' then ccHash
  else if c = byte '/' then ccSlash
  else 0

/-- The byte belongs to a class. -/
def inClass (c flag : UInt8) : Bool := (cc c &&& flag) != 0

/-- The bytes that structure objects and arrays. -/
def isPunctuator (c : UInt8) : Bool := inClass c ccStruct

/-!
## Scanners
-/

/-- The scanning functions that the parser calls through. -/
structure Scanner where
  skipWs : Bytes -> Nat -> Nat
  findQuoteSpecial : Bytes -> Nat -> UInt8 -> Nat
  findNewline : Bytes -> Nat -> Nat
  findChar : Bytes -> Nat -> UInt8 -> Nat

/-- The end of a run of whitespace. -/
def endsWs (c : UInt8) : Bool := !inClass c ccWs

/-- The end of a run of plain bytes in a quoted string. -/
def endsRun (quote c : UInt8) : Bool :=
  c == quote || c == byte '\\' || c == byte '\n' || c == byte '\r'

def endsLine (c : UInt8) : Bool := c == byte '\n' || c == byte '\r'

/-- The comparison that the vector form of `skip_ws` makes. -/
def endsWsLane (c : UInt8) : Bool :=
  !(c == byte ' ' || c == byte '\t' || c == byte '\r' || c == byte '\n')

/-- One byte at a time. -/
def scalarScanner : Scanner where
  skipWs := fun buf len => scanBytes endsWs buf len
  findQuoteSpecial := fun buf len quote => scanBytes (endsRun quote) buf len
  findNewline := fun buf len => scanBytes endsLine buf len
  findChar := fun buf len target => scanBytes (· == target) buf len

/-- Thirty-two bytes at a time. -/
def avx2Scanner : Scanner where
  skipWs := fun buf len => scanBlocks endsWsLane buf len len 0
  findQuoteSpecial := fun buf len quote => scanBlocks (endsRun quote) buf len len 0
  findNewline := fun buf len => scanBlocks endsLine buf len len 0
  findChar := fun buf len target => scanBlocks (· == target) buf len len 0

/-- The scanner that is installed on a machine with or without AVX2. -/
def initScanner (avx2 : Bool) : Scanner :=
  if avx2 then avx2Scanner else scalarScanner

theorem endsWsLane_eq : endsWsLane = endsWs := by
  funext c
  have hall : forall n, n < 256 ->
      endsWsLane (UInt8.ofNat n) = endsWs (UInt8.ofNat n) := by
    decide +kernel
  have hc := hall c.toNat c.toNat_lt
  rwa [UInt8.ofNat_toNat] at hc

theorem avx2Scanner_eq : avx2Scanner = scalarScanner := by
  unfold avx2Scanner scalarScanner
  simp only [scanBlocks_eq_scanBytes, endsWsLane_eq]

theorem initScanner_eq (avx2 : Bool) : initScanner avx2 = scalarScanner := by
  cases avx2 with
  | true => exact avx2Scanner_eq
  | false => rfl

end Async2.Hjson
