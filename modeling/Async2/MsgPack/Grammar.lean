import Async2.Data.Node

/-!
# The accepted fragment of the MessagePack format

This is the format by its byte layout, without reference to any reader.  The
fragment leaves out the extension types and the unused lead byte `0xc1`, wants
the keys of one map to be all strings or all integers, and bounds element
counts and nesting depth.

Numbers are big-endian.  An unsigned 64-bit number stands for the signed number
with the same bits, and a 32-bit float for the double that `widen` gives.
-/

namespace Async2.MsgPack

open AssocList BigEndian

/-- Lead bytes of the unsigned integers, with their width in bytes. -/
def uintTags : List (UInt8 × Nat) := [(0xcc, 1), (0xcd, 2), (0xce, 4), (0xcf, 8)]

/-- Lead bytes of the signed integers, with their width in bytes. -/
def sintTags : List (UInt8 × Nat) := [(0xd0, 1), (0xd1, 2), (0xd2, 4), (0xd3, 8)]

/-- Lead bytes of the strings, with the width of the length field. -/
def strTags : List (UInt8 × Nat) := [(0xd9, 1), (0xda, 2), (0xdb, 4)]

/-- Lead bytes of the binaries, with the width of the length field. -/
def binTags : List (UInt8 × Nat) := [(0xc4, 1), (0xc5, 2), (0xc6, 4)]

/-- Encodings of the values that are not containers. -/
inductive LeafEncodes (widen : UInt32 -> UInt64) : Bytes -> DataNode -> Prop where
  | nil : LeafEncodes widen [0xc0] .null
  | bool (b : Bool) :
      LeafEncodes widen [if b then 0xc3 else 0xc2] (.bool b)
  | posFixint {n : Nat} (hn : n < 128) :
      LeafEncodes widen [UInt8.ofNat n] (.int (Int64.ofNat n))
  | negFixint {n : Nat} (hpos : 0 < n) (hn : n <= 32) :
      LeafEncodes widen [UInt8.ofNat (256 - n)] (.int (Int64.ofInt (-n)))
  | uint {tag : UInt8} {k n : Nat} (htag : (tag, k) ∈ uintTags)
      (hn : n < 256 ^ k) :
      LeafEncodes widen (tag :: beBytes k n) (.int (Int64.ofNat n))
  | sint {tag : UInt8} {k : Nat} {n : Int} (htag : (tag, k) ∈ sintTags)
      (hlow : -(128 * 256 ^ (k - 1)) <= n) (hhigh : n < 128 * 256 ^ (k - 1)) :
      LeafEncodes widen (tag :: beBytes k (n % 256 ^ k).toNat)
        (.int (Int64.ofInt n))
  | float32 (bits : UInt32) :
      LeafEncodes widen (0xca :: beBytes 4 bits.toNat) (.float (widen bits))
  | float64 (bits : UInt64) :
      LeafEncodes widen (0xcb :: beBytes 8 bits.toNat) (.float bits)
  | fixstr {s : Bytes} (hs : s.length < 32) :
      LeafEncodes widen (UInt8.ofNat (0xa0 + s.length) :: s) (.string s)
  | str {tag : UInt8} {k : Nat} {s : Bytes} (htag : (tag, k) ∈ strTags)
      (hs : s.length < 256 ^ k) :
      LeafEncodes widen (tag :: (beBytes k s.length ++ s)) (.string s)
  | bin {tag : UInt8} {k : Nat} {b : Bytes} (htag : (tag, k) ∈ binTags)
      (hb : b.length < 256 ^ k) :
      LeafEncodes widen (tag :: (beBytes k b.length ++ b)) (.binary b)

/-- Encodings of an element count: in the low bits of a lead byte from `fix`
on, or in two or four bytes behind a tag. -/
inductive CountEncodes (fix : Nat) (tag16 tag32 : UInt8) : Bytes -> Nat -> Prop where
  | fixed {n : Nat} (hn : n < 16) :
      CountEncodes fix tag16 tag32 [UInt8.ofNat (fix + n)] n
  | wide16 {n : Nat} (hn : n < 256 ^ 2) :
      CountEncodes fix tag16 tag32 (tag16 :: beBytes 2 n) n
  | wide32 {n : Nat} (hn : n < 256 ^ 4) :
      CountEncodes fix tag16 tag32 (tag32 :: beBytes 4 n) n

abbrev ArrayHeader : Bytes -> Nat -> Prop := CountEncodes 0x90 0xdc 0xdd

abbrev MapHeader : Bytes -> Nat -> Prop := CountEncodes 0x80 0xde 0xdf

/-- Encodings of nodes that follow each other. -/
inductive SeqEncodes (E : Bytes -> DataNode -> Prop) :
    Bytes -> List DataNode -> Prop where
  | nil : SeqEncodes E [] []
  | cons {b rest : Bytes} {e : DataNode} {es : List DataNode}
      (he : E b e) (hrest : SeqEncodes E rest es) :
      SeqEncodes E (b ++ rest) (e :: es)

/-- Encodings of map entries that follow each other, each key before its
value.  `key` is the node that stands for a key. -/
inductive EntriesEncode {K : Type} (E : Bytes -> DataNode -> Prop)
    (key : K -> DataNode) : Bytes -> List (K × DataNode) -> Prop where
  | nil : EntriesEncode E key [] []
  | cons {kb vb rest : Bytes} {k : K} {v : DataNode} {es : List (K × DataNode)}
      (hk : E kb (key k)) (hv : E vb v) (hrest : EntriesEncode E key rest es) :
      EntriesEncode E key (kb ++ (vb ++ rest)) ((k, v) :: es)

/-- Encodings of one node whose children are encoded by `E`.  A later entry of
a map replaces an earlier one with the same key, and a map without entries is
an object. -/
inductive NodeEncodes (widen : UInt32 -> UInt64) (maxElements : Nat)
    (E : Bytes -> DataNode -> Prop) : Bytes -> DataNode -> Prop where
  | leaf {b : Bytes} {n : DataNode} (h : LeafEncodes widen b n) :
      NodeEncodes widen maxElements E b n
  | array {hdr body : Bytes} {es : List DataNode}
      (hhdr : ArrayHeader hdr es.length) (hmax : es.length <= maxElements)
      (hbody : SeqEncodes E body es) :
      NodeEncodes widen maxElements E (hdr ++ body) (.array es)
  | object {hdr body : Bytes} {es : List (Bytes × DataNode)}
      (hhdr : MapHeader hdr es.length) (hmax : es.length <= maxElements)
      (hbody : EntriesEncode E .string body es) :
      NodeEncodes widen maxElements E (hdr ++ body) (.object (upsertAll [] es))
  | intMap {hdr body : Bytes} {es : List (Int64 × DataNode)}
      (hne : es ≠ []) (hhdr : MapHeader hdr es.length)
      (hmax : es.length <= maxElements)
      (hbody : EntriesEncode E .int body es) :
      NodeEncodes widen maxElements E (hdr ++ body) (.intMap (upsertAll [] es))

/-- Encodings of nodes with at most `levels` levels of nodes. -/
def Encodes (widen : UInt32 -> UInt64) (maxElements : Nat) :
    Nat -> Bytes -> DataNode -> Prop
  | 0 => fun _ _ => False
  | levels + 1 =>
    NodeEncodes widen maxElements (Encodes widen maxElements levels)

end Async2.MsgPack
