import Async2.Hjson.Strings

/-!
# The HJSON parser

Values are objects, arrays, quoted strings or unquoted texts; an unquoted text is
a keyword, a number or else a string.  The braces of a root object may be
missing.  `readValue` counts the levels that are left until the depth limit, and
loops run on fuel that the length of the input bounds.
-/

namespace Async2.Hjson

open Decimal Binary64 CLib

/-!
## Keywords and numbers
-/

/-- The digits at the start of a text, of which there must be one. -/
def skipDigits (w : Bytes) : Option Bytes :=
  match w with
  | [] => none
  | b :: _ => if isDigit b then some (w.dropWhile isDigit) else none

/-- The fraction of a number: whether there is one, and what follows it. -/
def skipFraction (w : Bytes) : Option (Bool × Bytes) :=
  match w with
  | [] => some (false, w)
  | b :: rest =>
    if b = byte '.' then (skipDigits rest).map fun w => (true, w)
    else some (false, w)

/-- A text without the sign of an exponent. -/
def dropExpSign : Bytes -> Bytes
  | [] => []
  | s :: rest => if s = byte '+' ∨ s = byte '-' then rest else s :: rest

/-- A text without a minus sign. -/
def dropMinus : Bytes -> Bytes
  | [] => []
  | b :: rest => if b = byte '-' then rest else b :: rest

/-- The exponent of a number: whether there is one, and what follows it. -/
def skipExponent (w : Bytes) : Option (Bool × Bytes) :=
  match w with
  | [] => some (false, w)
  | b :: rest =>
    if b = byte 'e' ∨ b = byte 'E' then
      (skipDigits (dropExpSign rest)).map fun w => (true, w)
    else some (false, w)

/-- A number starts with a zero and goes on with a digit. -/
def hasLeadingZero (w : Bytes) : Bool :=
  match w with
  | a :: b :: _ => a == byte '0' && isDigit b
  | _ => false

/-- Whether a text has the shape of a number, and then of a float. -/
def numberShape (w : Bytes) : Option Bool :=
  if hasLeadingZero (dropMinus w) then none
  else
    match skipDigits (dropMinus w) with
    | none => none
    | some w =>
      match skipFraction w with
      | none => none
      | some (frac, w) =>
        match skipExponent w with
        | none => none
        | some (exp, w) => if w = [] then some (frac || exp) else none

/-- A float that the first `len` bytes of a buffer spell completely. -/
def floatOf (buf : Bytes) (len : Nat) : Option DataNode :=
  let dv := strtod buf
  if dv.2 ≠ len ∨ isInf dv.1 ∨ isNan dv.1 then none else some (.float dv.1)

/-- The number that the first `len` bytes of a buffer spell.  The conversions
see the whole buffer, so the byte behind the number matters. -/
def tryParseNumber (buf : Bytes) (len : Nat) : Option DataNode :=
  match numberShape (buf.take len) with
  | none => none
  | some true => floatOf buf len
  | some false =>
    let iv := strtoll buf
    if iv.taken = len ∧ iv.erange = false then some (.int iv.value)
    else floatOf buf len

def tryParseKeywordOrNumber (buf : Bytes) (len : Nat) : Option DataNode :=
  if len = 0 then none
  else if buf.take len = ascii ['t', 'r', 'u', 'e'] then some (.bool true)
  else if buf.take len = ascii ['f', 'a', 'l', 's', 'e'] then some (.bool false)
  else if buf.take len = ascii ['n', 'u', 'l', 'l'] then some .null
  else if buf.getD 0 0 = byte '-' ∨ isDigit (buf.getD 0 0) then
    tryParseNumber buf len
  else none

/-!
## Unquoted values
-/

/-- The keyword or number between two positions.  When the end lies before the
start, the length wraps around; then no keyword has that length, and a number
would have to end before it starts. -/
def keywordBetween (r : Reader) (start stop : Nat) : Option DataNode :=
  if stop < start then none
  else tryParseKeywordOrNumber (r.data.drop start) (stop - start)

/-- The bytes with which a text is tried as a number. -/
def startsNumber (c : UInt8) : Bool := c == byte '-' || isDigit c

/-- `try_parse_number` is called with the pair of positions, unless they are equal or no
number can start there. -/
def noteNumber (r : Reader) (start stop : Nat) : Reader :=
  if start ≠ stop ∧ startsNumber (r.charAt start) = true then r.noteSlice start stop else r

def isCommentStart (r : Reader) : Bool :=
  inClass r.peek ccHash ||
    (inClass r.peek ccSlash && decide (r.pos + 1 < r.len) &&
      (r.peekAt 1 == byte '/' || r.peekAt 1 == byte '*'))

/-- The bytes at which an unquoted keyword or number may end. -/
def isBreak (r : Reader) : Bool :=
  r.peek == byte ',' || r.peek == byte '}' || r.peek == byte ']' ||
    isCommentStart r

/-- The end of an unquoted value.  A length that has wrapped around is longer
than any string can be, so that an exception is thrown. -/
def endUnquoted (valStart valEnd : Nat) : Parser DataNode := fun r =>
  if valEnd = valStart then (.null, r)
  else
    let noted := r.noteSlice valStart valEnd
    match keywordBetween r valStart valEnd with
    | some kw => (.ok kw, noted)
    | none =>
      if valEnd < valStart then (.thrown, noted)
      else (.ok (.string (r.slice valStart valEnd)), noted)

/-- The body of an unquoted value, which goes up to the end of the line unless
a keyword or number ends before. -/
def unquotedLoop (valStart : Nat) : Nat -> Nat -> Parser DataNode
  | 0, _, r => (.stuck, r)
  | fuel + 1, valEnd, r =>
    if r.len <= r.pos then endUnquoted valStart valEnd r
    else if inClass r.peek ccNl then endUnquoted valStart valEnd r
    else
      let next := if 32 < r.peek then r.pos + 1 else valEnd
      if isBreak r then
        match keywordBetween r valStart valEnd with
        | some kw => (.ok kw, r.noteSlice valStart valEnd)
        | none =>
          unquotedLoop valStart fuel next
            ((noteNumber r valStart valEnd).advance 1)
      else unquotedLoop valStart fuel next (r.advance 1)

def readUnquotedValue : Parser DataNode := fun r =>
  let first := r.peek
  if isPunctuator first then (.null, r)
  else
    let valStart :=
      if charValue first <= 32 ∧ 0 < charValue first then r.pos + 1 else r.pos
    unquotedLoop valStart (r.len + 1) r.pos r

/-!
## Containers
-/

section

variable (S : Scanner) (readChild : Parser DataNode)

/-- The members of an object, up to a closing brace or the end of the input. -/
def objectLoop (braced : Bool) :
    Nat -> List (Bytes × DataNode) -> Parser (List (Bytes × DataNode))
  | 0, _, r => (.stuck, r)
  | fuel + 1, obj, r =>
    if r.pos < r.len ∧ ¬(braced = true ∧ r.peek = byte '}') then
      ((readKey S).andThen fun key r =>
        let r := skipWs S r
        if r.peek ≠ byte ':' then (.null, r)
        else
          (readChild.andThen fun val r =>
            objectLoop braced fuel (AssocList.upsert key val obj)
              (skipSeparator S r)) (skipWs S (r.advance 1))) r
    else (.ok obj, r)

def readObject (braced : Bool) : Parser DataNode := fun r =>
  ((objectLoop S readChild braced (r.len + 1) []).andThen fun obj r =>
    if braced then
      if r.len <= r.pos ∨ r.peek ≠ byte '}' then (.null, r)
      else (.ok (.object obj), r.advance 1)
    else (.ok (.object obj), r)) (skipWs S r)

/-- The elements of an array, up to a closing bracket. -/
def arrayLoop : Nat -> List DataNode -> Parser (List DataNode)
  | 0, _, r => (.stuck, r)
  | fuel + 1, arr, r =>
    if r.pos < r.len ∧ r.peek ≠ byte ']' then
      (readChild.andThen fun val r =>
        arrayLoop fuel (arr ++ [val]) (skipSeparator S r)) r
    else (.ok arr, r)

def readArray : Parser DataNode := fun r =>
  ((arrayLoop S readChild (r.len + 1) []).andThen fun arr r =>
    if r.len <= r.pos ∨ r.peek ≠ byte ']' then (.null, r)
    else (.ok (.array arr), r.advance 1)) (skipWs S r)

end

/-!
## Values and documents
-/

variable (S : Scanner)

/-- The greatest depth at which values are read. -/
def maxDepth : Nat := 256

/-- A value with `levels` levels left for it and what it contains. -/
def readValue : Nat -> Parser DataNode
  | 0, r => (.null, r)
  | levels + 1, r =>
    let r := skipWs S r
    if r.len <= r.pos then (.null, r)
    else if r.peek = byte '{' then
      readObject S (readValue levels) true (r.advance 1)
    else if r.peek = byte '[' then readArray S (readValue levels) (r.advance 1)
    else if inClass r.peek ccQuote then
      ((readQuotedString S true).andThen fun s r => (.ok (.string s), r)) r
    else readUnquotedValue r

/-- The value must be followed by whitespace and comments only. -/
def atEnd (val : DataNode) : Parser DataNode := fun r =>
  let r := skipWs S r
  if r.pos < r.len then (.null, r) else (.ok val, r)

/-- A root object without braces, or a single value. -/
def readBraceless : Parser DataNode := fun r =>
  match ((readObject S (readValue S maxDepth) false).andThen (atEnd S)) r with
  | (.null, r) =>
    ((readValue S (maxDepth + 1)).andThen (atEnd S))
      (skipWs S { r with pos := 0 })
  | done => done

/-- The outcome of parsing an input, with the reader at the end. -/
def parse (data : Bytes) : Outcome DataNode × Reader :=
  let r : Reader := ⟨data, 0, []⟩
  if r.len = 0 then (.null, r)
  else
    let r := skipWs S r
    if r.len <= r.pos then (.null, r)
    else if r.peek = byte '[' ∨ r.peek = byte '{' then
      ((readValue S (maxDepth + 1)).andThen (atEnd S)) r
    else readBraceless S r

/-- The tree that parsing an input returns. -/
def hjsonParse (data : Bytes) : Outcome DataNode := (parse S data).1

end Async2.Hjson
