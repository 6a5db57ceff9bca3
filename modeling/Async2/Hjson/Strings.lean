import Async2.Hjson.Reader

/-!
# Strings and keys of HJSON

Strings stand in double quotes, in single quotes, or in triple single quotes
over several lines; keys may also be written without quotes.  A `char` is signed
on the platforms of the library, so bytes from `0x80` on compare below zero.
-/

namespace Async2.Hjson

/-- The signed value of a byte. -/
def charValue (c : UInt8) : Int := c.toInt8.toInt

/-!
## Multi-line strings
-/

/-- A blank or control character other than the line feed. -/
def isIndent (c : UInt8) : Bool :=
  decide (0 < charValue c) && decide (charValue c <= 32) && c != byte '\n'

def skipIndent : Nat -> Reader -> Reader
  | 0, r => r
  | skip + 1, r =>
    if r.pos < r.len ∧ isIndent r.peek then skipIndent skip (r.advance 1) else r

/-- The column at which the opening quotes of a multi-line string stand. -/
def indentOf (data : Bytes) (tripleStart : Nat) : Nat :=
  ((data.take tripleStart).reverse.takeWhile fun c =>
    c != byte '\n' && c != 0).length

/-- The text of a multi-line string without the line feed before its end. -/
def dropLastLf (lastLf : Bool) (out : Bytes) : Bytes :=
  if lastLf ∧ out.getLast? = some (byte '\n') then out.dropLast else out

/-- The body of a multi-line string; `triple` counts the quotes just seen. -/
def multilineLoop (indent : Nat) :
    Nat -> Nat -> Bool -> Bytes -> Parser Bytes
  | 0, _, _, _, r => (.stuck, r)
  | fuel + 1, triple, lastLf, out, r =>
    if r.pos < r.len then
      let c := r.peek
      if c = byte '\'' then
        if triple + 1 = 3 then (.ok (dropLastLf lastLf out), r.advance 1)
        else multilineLoop indent fuel (triple + 1) lastLf out (r.advance 1)
      else
        let out := out ++ List.replicate triple (byte '\'')
        let lastLf := if 0 < triple then false else lastLf
        if c = byte '\n' then
          multilineLoop indent fuel 0 true (out ++ [byte '\n'])
            (skipIndent indent (r.advance 1))
        else if c = byte '\r' then
          multilineLoop indent fuel 0 lastLf out (r.advance 1)
        else
          multilineLoop indent fuel 0 false (out ++ [c])
            ((r.noteSlice r.pos (r.pos + 1)).advance 1)
    else (.null, r)

/-- A multi-line string, read from behind its opening quotes. -/
def readMultilineString : Parser Bytes := fun r =>
  let indent := indentOf r.data (r.pos - 3)
  let r := skipIndent r.len r
  let r :=
    if r.pos < r.len ∧ r.peek = byte '\n' then skipIndent indent (r.advance 1)
    else r
  multilineLoop indent (r.len + 1) 0 false [] r

/-!
## Quoted strings
-/

/-- The byte behind a run of plain bytes: the closing quote, a line end or an
escape; `goOn` reads the rest of the string. -/
def quotedSpecial (quote : UInt8) (goOn : Bytes -> Parser Bytes) (out : Bytes) :
    Parser Bytes := fun r =>
  if r.len <= r.pos then (.null, r)
  else
    let c := r.peek
    let r := r.advance 1
    if c = quote then (.ok out, r)
    else if c = byte '\n' ∨ c = byte '\r' then (.null, r)
    else if c ≠ byte '\\' then goOn (out ++ [c]) r
    else if r.len <= r.pos then (.null, r)
    else
      let esc := r.peek
      let r := r.advance 1
      if esc = byte 'u' then
        (parseUEscape.andThen fun cp => goOn (out ++ utf8Encode cp)) r
      else
        match escapeChar esc with
        | none => (.null, r)
        | some e => goOn (out ++ [e]) r

variable (S : Scanner)

/-- The body of a quoted string: runs of plain bytes with escapes between
them. -/
def quotedLoop (quote : UInt8) : Nat -> Bytes -> Parser Bytes
  | 0, _, r => (.stuck, r)
  | fuel + 1, out, r =>
    if r.pos < r.len then
      let run := S.findQuoteSpecial r.rest (r.len - r.pos) quote
      quotedSpecial quote (quotedLoop quote fuel)
        (out ++ r.slice r.pos (r.pos + run))
        ((r.noteSlice r.pos (r.pos + run)).advance run)
    else (.null, r)

def readQuotedString (allowMl : Bool) : Parser Bytes := fun r =>
  let quote := r.peek
  if inClass quote ccQuote = false then (.null, r)
  else
    let r := r.skipOne
    if inClass quote ccSquote ∧ allowMl ∧ r.peek = byte '\'' ∧
        r.peekAt 1 = byte '\'' then
      readMultilineString (r.advance 2)
    else if inClass quote ccSquote ∧ r.peek = byte '\'' then (.ok [], r.skipOne)
    else quotedLoop S quote (r.len + 1) [] r

/-!
## Keys
-/

/-- The body of a key without quotes, which goes up to a colon. -/
def unquotedKeyLoop (keyStart : Nat) : Nat -> Nat -> Int -> Parser Bytes
  | 0, _, _, r => (.stuck, r)
  | fuel + 1, keyEnd, firstSpace, r =>
    if r.pos < r.len then
      let c := r.peek
      if c = byte ':' then
        if keyEnd <= keyStart then (.null, r)
        else if 0 <= firstSpace ∧ firstSpace.toNat ≠ keyEnd then (.null, r)
        else (.ok (r.slice keyStart keyEnd), r.noteSlice keyStart keyEnd)
      else if charValue c <= 32 then
        if c = 0 then (.null, r)
        else
          -- The position of the first blank is kept in an `int`.
          let firstSpace :=
            if firstSpace < 0 then (Int32.ofNat r.pos).toInt else firstSpace
          unquotedKeyLoop keyStart fuel keyEnd firstSpace (r.advance 1)
      else if isPunctuator c then (.null, r)
      else unquotedKeyLoop keyStart fuel (r.pos + 1) firstSpace (r.advance 1)
    else (.null, r)

def readUnquotedKey : Parser Bytes := fun r =>
  unquotedKeyLoop r.pos (r.len + 1) r.pos (-1) r

def readKey : Parser Bytes := fun r =>
  if inClass r.peek ccQuote then
    if inClass r.peek ccSquote ∧ r.peekAt 1 = byte '\'' ∧
        r.peekAt 2 = byte '\'' then
      (.null, r)
    else readQuotedString S false r
  else readUnquotedKey r

end Async2.Hjson
