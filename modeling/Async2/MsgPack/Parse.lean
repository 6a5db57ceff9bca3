import Async2.MsgPack.Reader

/-!
# MessagePack parser

`readNode` reads the lead byte of a node and, for containers, calls the map and
array readers, which call `readNode` one level deeper.  The source counts depths
upwards from the root and gives up beyond `kMaxDepth`; the model counts the
levels that are left, which is `kMaxDepth + 1 - depth`.
-/

namespace Async2.MsgPack

open AssocList

def kMaxDepth : Nat := 256

/-- What `read_node` knows after the lead byte and the fields behind it: a
finished leaf, or the element count of a container still to be read. -/
inductive Head where
  | leaf (node : DataNode)
  | map (count : Nat)
  | array (count : Nat)

/-- The widths of the length and count fields. -/
inductive Width where
  | one
  | two
  | four

section

variable (B : Build)

/-- An unsigned field of the given width behind its guard. -/
def readField (r : Reader) : Width -> Outcome (Nat × Reader)
  | .one => do
    r.require B 1
    let (v, r) ← r.readU8 B
    return (v.toNat, r)
  | .two => do
    r.require B 2
    let (v, r) ← r.readU16 B
    return (v.toNat, r)
  | .four => do
    r.require B 4
    let (v, r) ← r.readU32 B
    return (v.toNat, r)

/-- `len` payload bytes behind their guard. -/
def readPayload (maxSize : Nat) (r : Reader) (len : Nat) : Outcome (Bytes × Reader) := do
  r.require B len
  r.readBytes B maxSize len

/-- The `str` cases: a length field and the bytes of the string. -/
def readStr (r : Reader) (w : Width) : Outcome (Head × Reader) := do
  let (len, r) ← readField B r w
  let (p, r) ← readPayload B B.maxString r len
  return (.leaf (.string p), r)

/-- The `bin` cases: a length field and the bytes of the binary. -/
def readBin (r : Reader) (w : Width) : Outcome (Head × Reader) := do
  let (len, r) ← readField B r w
  let (p, r) ← readPayload B B.maxVector r len
  return (.leaf (.binary p), r)

/-- The `uint 8`, `uint 16` and `uint 32` cases. -/
def readUint (r : Reader) (w : Width) : Outcome (Head × Reader) := do
  let (v, r) ← readField B r w
  return (.leaf (.int (Int64.ofNat v)), r)

/-- The `uint 64` and `int 64` cases. -/
def readInt64 (r : Reader) : Outcome (Head × Reader) := do
  r.require B 8
  let (v, r) ← r.readU64 B
  return (.leaf (.int v.toInt64), r)

/-- The dispatch of `read_node` on the lead byte.  `widen` is the conversion
from `float` to `double`. -/
def readBehind (widen : UInt32 -> UInt64) (b : UInt8) (r : Reader) :
    Outcome (Head × Reader) := do
  -- Positive fixint
  if b <= 0x7f then return (.leaf (.int (Int64.ofNat b.toNat)), r)
  -- Negative fixint
  else if b >= 0xe0 then return (.leaf (.int b.toInt8.toInt64), r)
  -- Fixmap
  else if b &&& 0xf0 = 0x80 then return (.map (b &&& 0x0f).toNat, r)
  -- Fixarray
  else if b &&& 0xf0 = 0x90 then return (.array (b &&& 0x0f).toNat, r)
  -- Fixstr
  else if b &&& 0xe0 = 0xa0 then
    let (p, r) ← readPayload B B.maxString r (b &&& 0x1f).toNat
    return (.leaf (.string p), r)
  else if b = 0xc0 then return (.leaf .null, r)
  else if b = 0xc1 then .null
  else if b = 0xc2 then return (.leaf (.bool false), r)
  else if b = 0xc3 then return (.leaf (.bool true), r)
  -- bin 8, bin 16, bin 32
  else if b = 0xc4 then readBin B r .one
  else if b = 0xc5 then readBin B r .two
  else if b = 0xc6 then readBin B r .four
  -- ext 8, ext 16, ext 32
  else if b = 0xc7 ∨ b = 0xc8 ∨ b = 0xc9 then .null
  -- float 32
  else if b = 0xca then
    r.require B 4
    let (v, r) ← r.readU32 B
    return (.leaf (.float (widen v)), r)
  -- float 64
  else if b = 0xcb then
    r.require B 8
    let (v, r) ← r.readU64 B
    return (.leaf (.float v), r)
  -- uint 8, uint 16, uint 32, uint 64
  else if b = 0xcc then readUint B r .one
  else if b = 0xcd then readUint B r .two
  else if b = 0xce then readUint B r .four
  else if b = 0xcf then readInt64 B r
  -- int 8
  else if b = 0xd0 then
    r.require B 1
    let (v, r) ← r.readU8 B
    return (.leaf (.int v.toInt8.toInt64), r)
  -- int 16
  else if b = 0xd1 then
    r.require B 2
    let (v, r) ← r.readU16 B
    return (.leaf (.int v.toInt16.toInt64), r)
  -- int 32
  else if b = 0xd2 then
    r.require B 4
    let (v, r) ← r.readU32 B
    return (.leaf (.int v.toInt32.toInt64), r)
  -- int 64
  else if b = 0xd3 then readInt64 B r
  -- fixext 1, 2, 4, 8, 16
  else if b = 0xd4 ∨ b = 0xd5 ∨ b = 0xd6 ∨ b = 0xd7 ∨ b = 0xd8 then .null
  -- str 8, str 16, str 32
  else if b = 0xd9 then readStr B r .one
  else if b = 0xda then readStr B r .two
  else if b = 0xdb then readStr B r .four
  -- array 16, array 32
  else if b = 0xdc then
    let (count, r) ← readField B r .two
    return (.array count, r)
  else if b = 0xdd then
    let (count, r) ← readField B r .four
    return (.array count, r)
  -- map 16, map 32
  else if b = 0xde then
    let (count, r) ← readField B r .two
    return (.map count, r)
  else if b = 0xdf then
    let (count, r) ← readField B r .four
    return (.map count, r)
  else .null

/-- The part of `read_node` before the recursive calls. -/
def readHead (widen : UInt32 -> UInt64) (r : Reader) :
    Outcome (Head × Reader) := do
  r.require B 1
  let (b, r) ← r.readU8 B
  readBehind B widen b r

end

/-!
## Containers

`readChild` stands for `read_node` at the next depth.
-/

section

variable (readChild : Reader -> Outcome (DataNode × Reader))

/-- The loop of `read_map` over integer keys. -/
def readIntEntries : Nat -> List (Int64 × DataNode) -> Reader ->
    Outcome (List (Int64 × DataNode) × Reader)
  | 0, acc, r => .ok (acc, r)
  | count + 1, acc, r => do
    let (keyNode, r) ← readChild r
    match keyNode with
    | .int key =>
      let (val, r) ← readChild r
      readIntEntries count (upsert key val acc) r
    | _ => .null

/-- The loop of `read_map` over string keys. -/
def readStrEntries : Nat -> List (Bytes × DataNode) -> Reader ->
    Outcome (List (Bytes × DataNode) × Reader)
  | 0, acc, r => .ok (acc, r)
  | count + 1, acc, r => do
    let (keyNode, r) ← readChild r
    match keyNode with
    | .string key =>
      let (val, r) ← readChild r
      readStrEntries count (upsert key val acc) r
    | _ => .null

def readElems : Nat -> List DataNode -> Reader ->
    Outcome (List DataNode × Reader)
  | 0, acc, r => .ok (acc, r)
  | count + 1, acc, r => do
    let (elem, r) ← readChild r
    readElems count (acc ++ [elem]) r

/-- The lead bytes that `read_map` takes for an integer key. -/
def isIntKey (peek : UInt8) : Bool :=
  peek <= 0x7f || peek >= 0xe0 || (peek >= 0xcc && peek <= 0xd3)

/-- The lead bytes that `read_map` takes for a string key. -/
def isStrKey (peek : UInt8) : Bool :=
  (peek &&& 0xe0) == 0xa0 || (peek >= 0xd9 && peek <= 0xdb)

def readMap (B : Build) (maxElements count : Nat) (r : Reader) :
    Outcome (DataNode × Reader) := do
  if count = 0 then
    r.allocNode B
    return (.object [], r)
  else if count > maxElements then
    .null
  else
    r.require B 1
    let peek ← r.byteAt B 0
    if !isIntKey peek && !isStrKey peek then
      .null
    else if isIntKey peek then
      r.allocNode B
      let (es, r) ← readIntEntries readChild count [] r
      return (.intMap es, r)
    else
      r.allocNode B
      let (es, r) ← readStrEntries readChild count [] r
      return (.object es, r)

def readArray (B : Build) (maxElements count : Nat) (r : Reader) :
    Outcome (DataNode × Reader) := do
  if count > maxElements then
    .null
  else
    r.allocNode B
    let (es, r) ← readElems readChild count [] r
    return (.array es, r)

/-!
## Both loops over entries as one
-/

/-- The loop of `read_map` on trees, for one kind of keys. -/
def entriesLoop {K : Type} [DecidableEq K] (keyOf : DataNode -> Option K) :
    Nat -> List (K × DataNode) -> Reader -> Outcome (List (K × DataNode) × Reader)
  | 0, acc, r => .ok (acc, r)
  | count + 1, acc, r => do
    let (keyNode, r) ← readChild r
    match keyOf keyNode with
    | some key =>
      let (val, r) ← readChild r
      entriesLoop keyOf count (upsert key val acc) r
    | none => .null

def intKeyOf : DataNode -> Option Int64
  | .int key => some key
  | _ => none

def strKeyOf : DataNode -> Option Bytes
  | .string key => some key
  | _ => none

theorem readIntEntries_eq (count : Nat) (acc : List (Int64 × DataNode)) (r : Reader) :
    readIntEntries readChild count acc r = entriesLoop readChild intKeyOf count acc r := by
  induction count generalizing acc r with
  | zero => rfl
  | succ count ih =>
    rw [readIntEntries, entriesLoop]
    congr 1
    funext x
    rcases x with ⟨keyNode, r⟩
    cases keyNode with
    | int key =>
      dsimp only [intKeyOf]
      congr 1
      funext y
      exact ih _ _
    | _ => rfl

theorem readStrEntries_eq (count : Nat) (acc : List (Bytes × DataNode)) (r : Reader) :
    readStrEntries readChild count acc r = entriesLoop readChild strKeyOf count acc r := by
  induction count generalizing acc r with
  | zero => rfl
  | succ count ih =>
    rw [readStrEntries, entriesLoop]
    congr 1
    funext x
    rcases x with ⟨keyNode, r⟩
    cases keyNode with
    | string key =>
      dsimp only [strKeyOf]
      congr 1
      funext y
      exact ih _ _
    | _ => rfl

end

/-!
## The recursive reader and the entry point
-/

variable (B : Build) (widen : UInt32 -> UInt64) (maxElements : Nat)

def readNode : Nat -> Reader -> Outcome (DataNode × Reader)
  | 0, _ => .null
  | levels + 1, r => do
    let (head, r) ← readHead B widen r
    match head with
    | .leaf node =>
      r.allocNode B
      return (node, r)
    | .map count => readMap (readNode levels) B maxElements count r
    | .array count => readArray (readNode levels) B maxElements count r

def msgPackParse (data : Bytes) : Outcome DataNode := do
  if data.length = 0 then
    .null
  else
    let (result, r) ← readNode B widen maxElements (kMaxDepth + 1) ⟨data, 0⟩
    if r.pos ≠ data.length then .null else return result

end Async2.MsgPack
