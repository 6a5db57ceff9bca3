import Async2.Data.Node
import Async2.Foundation.CNumbers

/-!
# The JSON serializer

`DataSerializeJson` writes a tree as JSON, compact or indented by four spaces.
Nodes below the depth limit, int-maps, binaries and numbers that are not finite
are written as null.  The recursion counts the levels that are left until the
limit, so a level count of zero means that the limit is passed.
-/

namespace Async2.Json

open Binary64 CLib

/-!
## Strings
-/

/-- One byte of a string, escaped where JSON asks for it. -/
def escapeByte (c : UInt8) : Bytes :=
  if c = byte '"' then ascii ['\\', '"']
  else if c = byte '\\' then ascii ['\\', '\\']
  else if c = 8 then ascii ['\\', 'b']
  else if c = 12 then ascii ['\\', 'f']
  else if c = 10 then ascii ['\\', 'n']
  else if c = 13 then ascii ['\\', 'r']
  else if c = 9 then ascii ['\\', 't']
  else if c < 0x20 then snprintf 8 (ascii ['\\', 'u'] ++ hexText c.toNat)
  else [c]

def serializeString (s : Bytes) : Bytes :=
  byte '"' :: (s.flatMap escapeByte ++ [byte '"'])

/-!
## Numbers
-/

/-- A number in a buffer of 32 bytes. -/
def printNumber (prec : Nat) (bits : UInt64) : Bytes :=
  snprintf 32 (gLiteral prec bits).text

/-- The text reads back as the number, sign included. -/
def readsBack (buf : Bytes) (bits : UInt64) : Bool :=
  numEq (strtod buf).1 bits && signBit (strtod buf).1 == signBit bits

/-- Try one precision after the other until the text reads back; `left` counts
the precisions after the present one. -/
def shortest (bits : UInt64) : Nat -> Nat -> Bytes
  | 0, prec => printNumber prec bits
  | left + 1, prec =>
    if readsBack (printNumber prec bits) bits then printNumber prec bits
    else shortest bits left (prec + 1)

def isMantissaByte (c : UInt8) : Bool := c != byte 'e' && c != byte 'E'

/-- Drop the plus sign of the exponent, and mark a number without point and
exponent as a float. -/
def tidyNumber (buf : Bytes) : Bytes :=
  let mantissa := buf.takeWhile isMantissaByte
  let exponent := buf.dropWhile isMantissaByte
  let tidied :=
    match exponent with
    | e :: sign :: rest => if sign = byte '+' then e :: rest else e :: sign :: rest
    | short => short
  mantissa ++ (tidied ++
    if mantissa.contains (byte '.') = false ∧ exponent = [] then ascii ['.', '0']
    else [])

/-!
## Nodes
-/

def serializeLeaf : DataNode -> Bytes
  | .null => ascii ['n', 'u', 'l', 'l']
  | .bool b =>
    if b then ascii ['t', 'r', 'u', 'e'] else ascii ['f', 'a', 'l', 's', 'e']
  | .int v => snprintf 32 (lldLiteral v).text
  | .float bits =>
    if isNan bits || isInf bits then ascii ['n', 'u', 'l', 'l']
    else tidyNumber (shortest bits 16 1)
  | .string s => serializeString s
  | .intMap _ => ascii ['n', 'u', 'l', 'l']
  | .binary _ => ascii ['n', 'u', 'l', 'l']
  | .array _ => []
  | .object _ => []

/-- Texts with a separator between neighbours. -/
def separated (sep : Bytes) : List Bytes -> Bytes
  | [] => []
  | [w] => w
  | w :: rest => w ++ (sep ++ separated sep rest)

def maxSerializeDepth : Nat := 128

/-- The compact form. -/
def serializeValue : Nat -> DataNode -> Bytes
  | 0, _ => ascii ['n', 'u', 'l', 'l']
  | levels + 1, .array es =>
    byte '[' :: (separated [byte ','] (es.map (serializeValue levels)) ++
      [byte ']'])
  | levels + 1, .object es =>
    byte '{' :: (separated [byte ','] (es.map fun e =>
      serializeString e.1 ++ byte ':' :: serializeValue levels e.2) ++
      [byte '}'])
  | _ + 1, node => serializeLeaf node

def spaces (n : Nat) : Bytes := List.replicate n (byte ' ')

/-- The indented form; empty containers stay on one line. -/
def serializeValuePretty : Nat -> Nat -> DataNode -> Bytes
  | 0, _, _ => ascii ['n', 'u', 'l', 'l']
  | levels + 1, depth, .array es =>
    if es = [] then ascii ['[', ']']
    else
      byte '[' :: byte '\n' ::
        (separated [byte ',', byte '\n'] (es.map fun e =>
          spaces ((depth + 1) * 4) ++ serializeValuePretty levels (depth + 1) e) ++
        (byte '\n' :: (spaces (depth * 4) ++ [byte ']'])))
  | levels + 1, depth, .object es =>
    if es = [] then [byte '{', byte '}']
    else
      byte '{' :: byte '\n' ::
        (separated [byte ',', byte '\n'] (es.map fun e =>
          spaces ((depth + 1) * 4) ++ (serializeString e.1 ++
            (byte ':' :: byte ' ' ::
              serializeValuePretty levels (depth + 1) e.2))) ++
        (byte '\n' :: (spaces (depth * 4) ++ [byte '}'])))
  | _ + 1, _, node => serializeLeaf node

def dataSerializeJson (node : DataNode) (pretty : Bool) : Bytes :=
  if pretty then serializeValuePretty (maxSerializeDepth + 1) 0 node
  else serializeValue (maxSerializeDepth + 1) node

end Async2.Json
