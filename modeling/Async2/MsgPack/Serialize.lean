import Async2.Data.Node

/-!
# MessagePack serializer

Every writer appends to an output vector, so the model returns the bytes that a
writer appends.  Fixed-width casts are those of the source: a cast to a narrower
unsigned type keeps the low bits, a cast through a signed type of the same width
changes nothing in the bits.
-/

namespace Async2.MsgPack

/-!
## Big-endian writers
-/

def writeU8 (v : UInt8) : Bytes := [v]

def writeU16 (v : UInt16) : Bytes :=
  [(v >>> 8).toUInt8, v.toUInt8]

def writeU32 (v : UInt32) : Bytes :=
  [(v >>> 24).toUInt8, (v >>> 16).toUInt8, (v >>> 8).toUInt8, v.toUInt8]

def writeU64 (v : UInt64) : Bytes :=
  writeU32 (v >>> 32).toUInt32 ++ writeU32 v.toUInt32

/-- A double is written by its bit pattern. -/
def writeF64 (bits : UInt64) : Bytes := writeU64 bits

/-!
## Typed writers
-/

def writeMsgpackStr (data : Bytes) : Bytes :=
  let len := data.length
  (if len <= 31 then
    writeU8 (0xa0 ||| UInt8.ofNat len)
  else if len <= 0xff then
    writeU8 0xd9 ++ writeU8 (UInt8.ofNat len)
  else if len <= 0xffff then
    writeU8 0xda ++ writeU16 (UInt16.ofNat len)
  else
    writeU8 0xdb ++ writeU32 (UInt32.ofNat len)) ++ data

def writeMsgpackInt (v : Int64) : Bytes :=
  if v >= 0 then
    if v <= 0x7f then
      writeU8 v.toUInt64.toUInt8
    else if v <= 0xff then
      writeU8 0xcc ++ writeU8 v.toUInt64.toUInt8
    else if v <= 0xffff then
      writeU8 0xcd ++ writeU16 v.toUInt64.toUInt16
    else if v <= 0xffffffff then
      writeU8 0xce ++ writeU32 v.toUInt64.toUInt32
    else
      writeU8 0xcf ++ writeU64 v.toUInt64
  else
    if v >= -32 then
      writeU8 v.toInt8.toUInt8
    else if v >= -128 then
      writeU8 0xd0 ++ writeU8 v.toInt8.toUInt8
    else if v >= -32768 then
      writeU8 0xd1 ++ writeU16 v.toInt16.toUInt16
    else if v >= -2147483648 then
      writeU8 0xd2 ++ writeU32 v.toInt32.toUInt32
    else
      writeU8 0xd3 ++ writeU64 v.toUInt64

/-- A container header: the count in the low four bits of `fix`, or behind a
tag byte in two or four bytes. -/
def writeCount (fix tag16 tag32 : UInt8) (count : Nat) : Bytes :=
  if count <= 15 then
    writeU8 (fix ||| UInt8.ofNat count)
  else if count <= 0xffff then
    writeU8 tag16 ++ writeU16 (UInt16.ofNat count)
  else
    writeU8 tag32 ++ writeU32 (UInt32.ofNat count)

def writeMsgpackMapHeader (count : Nat) : Bytes :=
  writeCount 0x80 0xde 0xdf count

/-- The header that `serializeNode` writes in its array case. -/
def writeArrayHeader (count : Nat) : Bytes :=
  writeCount 0x90 0xdc 0xdd count

/-- The header that `serializeNode` writes in its binary case. -/
def writeBinaryHeader (len : Nat) : Bytes :=
  if len <= 0xff then
    writeU8 0xc4 ++ writeU8 (UInt8.ofNat len)
  else if len <= 0xffff then
    writeU8 0xc5 ++ writeU16 (UInt16.ofNat len)
  else
    writeU8 0xc6 ++ writeU32 (UInt32.ofNat len)

/-!
## Nodes
-/

mutual

def serializeNode : DataNode -> Bytes
  | .null => writeU8 0xc0
  | .bool b => writeU8 (if b then 0xc3 else 0xc2)
  | .int v => writeMsgpackInt v
  | .float bits => writeU8 0xcb ++ writeF64 bits
  | .string s => writeMsgpackStr s
  | .array es => writeArrayHeader es.length ++ serializeElems es
  | .object es => writeMsgpackMapHeader es.length ++ serializeEntries es
  | .intMap es => writeMsgpackMapHeader es.length ++ serializeIntEntries es
  | .binary b => writeBinaryHeader b.length ++ b

def serializeElems : List DataNode -> Bytes
  | [] => []
  | e :: rest => serializeNode e ++ serializeElems rest

def serializeEntries : List (Bytes × DataNode) -> Bytes
  | [] => []
  | (key, val) :: rest =>
    writeMsgpackStr key ++ serializeNode val ++ serializeEntries rest

def serializeIntEntries : List (Int64 × DataNode) -> Bytes
  | [] => []
  | (key, val) :: rest =>
    writeMsgpackInt key ++ serializeNode val ++ serializeIntEntries rest

end

def msgPackSerialize (node : DataNode) : Bytes := serializeNode node

end Async2.MsgPack
