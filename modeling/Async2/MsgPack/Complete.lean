import Async2.MsgPack.Fields
import Async2.MsgPack.Grammar

/-!
# Encodings are read back

Wherever the bytes of an encoding lie ahead of a reader, the reader consumes
exactly these bytes and returns the encoded node.  Only sums up to the end of
the buffer come up on the way, so this holds for every build that can hold what
the buffer encodes.
-/

namespace Async2.MsgPack

open AssocList BigEndian List Reader

def Width.bytes : Width -> Nat
  | .one => 1
  | .two => 2
  | .four => 4

/-- Encodings of what is known of a node before its children are read. -/
def HeadEncodes (widen : UInt32 -> UInt64) (bs : Bytes) : Head -> Prop
  | .leaf node => LeafEncodes widen bs node
  | .map count => MapHeader bs count
  | .array count => ArrayHeader bs count

variable {B : Build} {widen : UInt32 -> UInt64} {r : Reader} {n maxElements levels : Nat}
variable {bs s : Bytes} {readChild : Reader -> Outcome (DataNode × Reader)}

section

variable (hdata : r.data.length < 2 ^ B.width)
include hdata

/-!
## Fields and payloads
-/

variable {W : Type} {k : Nat} {toNat : W -> Nat} {read : Reader -> Outcome (W × Reader)}

theorem ReadsWord.of_ahead (hword : ReadsWord B k toNat read)
    (hlen : bs.length = k) (h : r.Ahead bs) :
    exists v, toNat v = beNat bs ∧ r.require B k = .ok () ∧ read r = .ok (v, r.skip k) := by
  have hrequire := require_of_ahead hdata h
  rw [hlen] at hrequire
  rcases hword.ahead r bs hdata hlen h with ⟨v, hv, hread⟩
  exact ⟨v, hv, hrequire, hread⟩

theorem readField_of_ahead (k : Width) (hlen : bs.length = k.bytes) (h : r.Ahead bs) :
    readField B r k = .ok (beNat bs, r.skip k.bytes) := by
  cases k with
  | one =>
    rcases (readsWord_u8 B).of_ahead hdata hlen h with ⟨v, hv, hrequire, hread⟩
    simp [readField, hrequire, hread, Width.bytes, hv, pure]
  | two =>
    rcases (readsWord_u16 B).of_ahead hdata hlen h with ⟨v, hv, hrequire, hread⟩
    simp [readField, hrequire, hread, Width.bytes, hv, pure]
  | four =>
    rcases (readsWord_u32 B).of_ahead hdata hlen h with ⟨v, hv, hrequire, hread⟩
    simp [readField, hrequire, hread, Width.bytes, hv, pure]

theorem readPayload_of_ahead {maxSize : Nat} (hsize : bs.length <= maxSize)
    (hmemory : r.data.length + bs.length <= B.memory) (h : r.Ahead bs) :
    readPayload B maxSize r bs.length = .ok (bs, r.skip bs.length) := by
  simp [readPayload, require_of_ahead hdata h, readBytes_of_ahead hdata hsize hmemory h]

theorem readField_readPayload (k : Width) {maxSize : Nat} (hs : s.length < 256 ^ k.bytes)
    (hsize : s.length <= maxSize) (hmemory : r.data.length + s.length <= B.memory)
    (h : r.Ahead (beBytes k.bytes s.length ++ s)) :
    readField B r k = .ok (s.length, r.skip k.bytes) ∧
      readPayload B maxSize (r.skip k.bytes) s.length =
        .ok (s, r.skip (k.bytes + s.length)) := by
  have hfield := readField_of_ahead hdata k (beBytes_length _ _) h.left
  have hnext := h.skip
  rw [beBytes_length] at hnext
  rw [beNat_beBytes hs] at hfield
  refine ⟨hfield, ?_⟩
  have hpayload := readPayload_of_ahead (r := r.skip k.bytes) hdata hsize hmemory hnext
  rw [skip_skip] at hpayload
  exact hpayload

theorem readStr_of_ahead (k : Width) (hs : s.length < 256 ^ k.bytes)
    (hsize : s.length <= B.maxString) (hmemory : r.data.length + s.length <= B.memory)
    (h : r.Ahead (beBytes k.bytes s.length ++ s)) :
    readStr B r k = .ok (.leaf (.string s), r.skip (k.bytes + s.length)) := by
  rcases readField_readPayload hdata k hs hsize hmemory h with ⟨hfield, hpayload⟩
  simp [readStr, hfield, hpayload, pure]

theorem readBin_of_ahead (k : Width) {b : Bytes} (hb : b.length < 256 ^ k.bytes)
    (hsize : b.length <= B.maxVector) (hmemory : r.data.length + b.length <= B.memory)
    (h : r.Ahead (beBytes k.bytes b.length ++ b)) :
    readBin B r k = .ok (.leaf (.binary b), r.skip (k.bytes + b.length)) := by
  rcases readField_readPayload hdata k hb hsize hmemory h with ⟨hfield, hpayload⟩
  simp [readBin, hfield, hpayload, pure]

theorem readCount_of_ahead (k : Width) (hn : n < 256 ^ k.bytes) (h : r.Ahead (beBytes k.bytes n)) :
    readField B r k = .ok (n, r.skip k.bytes) := by
  have hfield := readField_of_ahead hdata k (beBytes_length _ _) h
  rwa [beNat_beBytes hn] at hfield

/-!
## Wider numbers
-/

theorem ReadsWord.of_beBytes (hword : ReadsWord B k toNat read)
    (hn : n < 256 ^ k) (h : r.Ahead (beBytes k n)) :
    exists v, toNat v = n ∧ r.require B k = .ok () ∧ read r = .ok (v, r.skip k) := by
  rcases hword.of_ahead hdata (beBytes_length k n) h with ⟨v, hv, hguarded⟩
  exact ⟨v, hv.trans (beNat_beBytes hn), hguarded⟩

end

/-!
## The lead byte
-/

section

variable (B widen r)

theorem readBehind_posFixint (hn : n < 128) :
    readBehind B widen (UInt8.ofNat n) r = .ok (.leaf (.int (Int64.ofNat n)), r) := by
  have hrange : forall n, n < 128 -> UInt8.ofNat n <= 0x7f ∧
      (UInt8.ofNat n).toNat = n := by decide
  obtain ⟨hlow, hvalue⟩ := hrange n hn
  rw [readBehind, if_pos hlow, hvalue]
  rfl

theorem readBehind_negFixint (hpos : 0 < n) (hn : n <= 32) :
    readBehind B widen (UInt8.ofNat (256 - n)) r = .ok (.leaf (.int (Int64.ofInt (-n))), r) := by
  have hrange : forall n, n < 33 -> 0 < n -> ¬ UInt8.ofNat (256 - n) <= 0x7f ∧
      UInt8.ofNat (256 - n) >= 0xe0 ∧
      (UInt8.ofNat (256 - n)).toInt8.toInt64 = Int64.ofInt (-n) := by decide
  obtain ⟨hlow, hhigh, hvalue⟩ := hrange n (by omega) hpos
  rw [readBehind, if_neg hlow, if_pos hhigh, hvalue]
  rfl

theorem readBehind_fixmap (hn : n < 16) :
    readBehind B widen (UInt8.ofNat (0x80 + n)) r = .ok (.map n, r) := by
  have hrange : forall n, n < 16 -> ¬ UInt8.ofNat (0x80 + n) <= 0x7f ∧
      ¬ UInt8.ofNat (0x80 + n) >= 0xe0 ∧
      UInt8.ofNat (0x80 + n) &&& 0xf0 = 0x80 ∧
      (UInt8.ofNat (0x80 + n) &&& 0x0f).toNat = n := by decide
  obtain ⟨hlow, hhigh, hfix, hvalue⟩ := hrange n hn
  rw [readBehind, if_neg hlow, if_neg hhigh, if_pos hfix, hvalue]
  rfl

theorem readBehind_fixarray (hn : n < 16) :
    readBehind B widen (UInt8.ofNat (0x90 + n)) r = .ok (.array n, r) := by
  have hrange : forall n, n < 16 -> ¬ UInt8.ofNat (0x90 + n) <= 0x7f ∧
      ¬ UInt8.ofNat (0x90 + n) >= 0xe0 ∧
      ¬ UInt8.ofNat (0x90 + n) &&& 0xf0 = 0x80 ∧
      UInt8.ofNat (0x90 + n) &&& 0xf0 = 0x90 ∧
      (UInt8.ofNat (0x90 + n) &&& 0x0f).toNat = n := by decide
  obtain ⟨hlow, hhigh, hmap, hfix, hvalue⟩ := hrange n hn
  rw [readBehind, if_neg hlow, if_neg hhigh, if_neg hmap, if_pos hfix, hvalue]
  rfl

theorem readBehind_fixstr (hn : n < 32) :
    readBehind B widen (UInt8.ofNat (0xa0 + n)) r = (do
      let (p, r) ← readPayload B B.maxString r n
      return (.leaf (.string p), r)) := by
  have hrange : forall n, n < 32 -> ¬ UInt8.ofNat (0xa0 + n) <= 0x7f ∧
      ¬ UInt8.ofNat (0xa0 + n) >= 0xe0 ∧
      ¬ UInt8.ofNat (0xa0 + n) &&& 0xf0 = 0x80 ∧
      ¬ UInt8.ofNat (0xa0 + n) &&& 0xf0 = 0x90 ∧
      UInt8.ofNat (0xa0 + n) &&& 0xe0 = 0xa0 ∧
      (UInt8.ofNat (0xa0 + n) &&& 0x1f).toNat = n := by decide
  obtain ⟨hlow, hhigh, hmap, harray, hfix, hvalue⟩ := hrange n hn
  rw [readBehind, if_neg hlow, if_neg hhigh, if_neg hmap, if_neg harray, if_pos hfix, hvalue]

end

/-!
## Heads
-/

section

variable (hdata : r.data.length < 2 ^ B.width)
include hdata

theorem readHead_cons (widen : UInt32 -> UInt64) {b : UInt8} {cs : Bytes} (h : r.Ahead (b :: cs)) :
    readHead B widen r = readBehind B widen b (r.skip 1) ∧ (r.skip 1).Ahead cs := by
  have hcons : r.Ahead ([b] ++ cs) := h
  have hrequire := require_of_ahead hdata hcons.left
  have hread := readU8_of_ahead hdata hcons.left
  rw [length_singleton] at hrequire
  refine ⟨?_, hcons.skip⟩
  simp [readHead, hrequire, hread]

theorem readUint_of_ahead (k : Width) (hn : n < 256 ^ k.bytes) (h : r.Ahead (beBytes k.bytes n)) :
    readUint B r k = .ok (.leaf (.int (Int64.ofNat n)), r.skip k.bytes) := by
  simp [readUint, readCount_of_ahead hdata k hn h, pure]

theorem readInt64_of_ahead (hn : n < 256 ^ 8) (h : r.Ahead (beBytes 8 n)) :
    readInt64 B r = .ok (.leaf (.int (Int64.ofNat n)), r.skip 8) := by
  obtain ⟨v, hv, hrequire, hread⟩ := (readsWord_u64 B).of_beBytes hdata hn h
  simp [readInt64, hrequire, hread, toInt64_eq_ofNat, hv, pure]

theorem readBehind_sint {tag : UInt8} {k : Nat} {n : Int} (htag : (tag, k) ∈ sintTags)
    (hlow : -(128 * 256 ^ (k - 1)) <= n) (hhigh : n < 128 * 256 ^ (k - 1))
    (h : r.Ahead (beBytes k (n % 256 ^ k).toNat)) :
    readBehind B widen tag r = .ok (.leaf (.int (Int64.ofInt n)), r.skip k) := by
  simp only [sintTags, mem_cons, Prod.mk.injEq, not_mem_nil, or_false] at htag
  rcases htag with ⟨rfl, rfl⟩ | ⟨rfl, rfl⟩ | ⟨rfl, rfl⟩ | ⟨rfl, rfl⟩
  · obtain ⟨v, hv, hrequire, hread⟩ := (readsWord_u8 B).of_beBytes hdata (by omega) h
    have hvalue : v.toInt8.toInt64 = Int64.ofInt n := by
      rw [int64_eq_ofInt_iff (by omega) (by omega), Int8.toInt_toInt64,
        toInt8_toInt, hv]
      exact bmod_toNat_emod (m := 256) (by decide) (by omega) (by omega)
    change (r.require B 1 >>= fun _ => r.readU8 B >>= _) = _
    simp [hrequire, hread, hvalue, pure]
  · obtain ⟨v, hv, hrequire, hread⟩ := (readsWord_u16 B).of_beBytes hdata (by omega) h
    have hvalue : v.toInt16.toInt64 = Int64.ofInt n := by
      rw [int64_eq_ofInt_iff (by omega) (by omega), Int16.toInt_toInt64,
        toInt16_toInt, hv]
      exact bmod_toNat_emod (m := 65536) (by decide) (by omega) (by omega)
    change (r.require B 2 >>= fun _ => r.readU16 B >>= _) = _
    simp [hrequire, hread, hvalue, pure]
  · obtain ⟨v, hv, hrequire, hread⟩ := (readsWord_u32 B).of_beBytes hdata (by omega) h
    have hvalue : v.toInt32.toInt64 = Int64.ofInt n := by
      rw [int64_eq_ofInt_iff (by omega) (by omega), Int32.toInt_toInt64,
        toInt32_toInt, hv]
      exact bmod_toNat_emod (m := 4294967296) (by decide) (by omega) (by omega)
    change (r.require B 4 >>= fun _ => r.readU32 B >>= _) = _
    simp [hrequire, hread, hvalue, pure]
  · have hvalue : Int64.ofNat (n % 256 ^ 8).toNat = Int64.ofInt n := by
      rw [int64_eq_ofInt_iff (by omega) (by omega), Int64.toInt_ofNat']
      exact bmod_toNat_emod (m := 256 ^ 8) (by decide) (by omega) (by omega)
    change readInt64 B r = _
    rw [readInt64_of_ahead hdata (by omega) h, hvalue]

theorem readBehind_of_count {mk : Nat -> Head} {fix : Nat} {tag16 tag32 b : UInt8}
    (hfix : forall n, n < 16 ->
      readBehind B widen (UInt8.ofNat (fix + n)) r = .ok (mk n, r))
    (h16 : readBehind B widen tag16 r = readField B r .two >>= fun x => .ok (mk x.1, x.2))
    (h32 : readBehind B widen tag32 r = readField B r .four >>= fun x => .ok (mk x.1, x.2))
    (hcount : CountEncodes fix tag16 tag32 (b :: bs) n) (h : r.Ahead bs) :
    readBehind B widen b r = .ok (mk n, r.skip bs.length) := by
  cases hcount with
  | fixed hn => exact hfix _ hn
  | wide16 hn =>
    rw [h16, readCount_of_ahead hdata .two hn h, beBytes_length]
    rfl
  | wide32 hn =>
    rw [h32, readCount_of_ahead hdata .four hn h, beBytes_length]
    rfl

end

section

variable (hdata : B.Holds r.data.length)
include hdata

theorem readBehind_of_leaf {b : UInt8} {node : DataNode}
    (hleaf : LeafEncodes widen (b :: bs) node) (h : r.Ahead bs) :
    readBehind B widen b r = .ok (.leaf node, r.skip bs.length) := by
  have hle := h.le
  have hstring := hdata.strings
  have hvector := hdata.vectors
  have hmemory := hdata.payloads
  cases hleaf with
  | nil => rfl
  | bool b =>
    cases b with
    | false | true => rfl
  | posFixint hn => exact readBehind_posFixint B widen r hn
  | negFixint hpos hn => exact readBehind_negFixint B widen r hpos hn
  | uint htag hn =>
    rw [beBytes_length]
    simp only [uintTags, mem_cons, Prod.mk.injEq, not_mem_nil, or_false] at htag
    rcases htag with ⟨rfl, rfl⟩ | ⟨rfl, rfl⟩ | ⟨rfl, rfl⟩ | ⟨rfl, rfl⟩
    · exact readUint_of_ahead hdata.positions .one hn h
    · exact readUint_of_ahead hdata.positions .two hn h
    · exact readUint_of_ahead hdata.positions .four hn h
    · exact readInt64_of_ahead hdata.positions hn h
  | sint htag hlow hhigh =>
    rw [beBytes_length]
    exact readBehind_sint hdata.positions htag hlow hhigh h
  | float32 bits =>
    rcases (readsWord_u32 B).of_beBytes hdata.positions bits.toNat_lt h
      with ⟨v, hv, hrequire, hread⟩
    rw [UInt32.toNat_inj] at hv
    rw [← hv, beBytes_length]
    change (r.require B 4 >>= fun _ => r.readU32 B >>= _) = _
    simp [hrequire, hread, pure]
  | float64 bits =>
    rcases (readsWord_u64 B).of_beBytes hdata.positions bits.toNat_lt h
      with ⟨v, hv, hrequire, hread⟩
    rw [UInt64.toNat_inj] at hv
    rw [← hv, beBytes_length]
    change (r.require B 8 >>= fun _ => r.readU64 B >>= _) = _
    simp [hrequire, hread, pure]
  | fixstr hs =>
    rw [readBehind_fixstr B widen _ hs,
      readPayload_of_ahead hdata.positions (by omega) (by omega) h]
    rfl
  | str htag hs =>
    rw [length_append, beBytes_length] at hle ⊢
    simp only [strTags, mem_cons, Prod.mk.injEq, not_mem_nil, or_false] at htag
    rcases htag with ⟨rfl, rfl⟩ | ⟨rfl, rfl⟩ | ⟨rfl, rfl⟩
    · exact readStr_of_ahead hdata.positions .one hs (by omega) (by omega) h
    · exact readStr_of_ahead hdata.positions .two hs (by omega) (by omega) h
    · exact readStr_of_ahead hdata.positions .four hs (by omega) (by omega) h
  | bin htag hb =>
    rw [length_append, beBytes_length] at hle ⊢
    simp only [binTags, mem_cons, Prod.mk.injEq, not_mem_nil, or_false] at htag
    rcases htag with ⟨rfl, rfl⟩ | ⟨rfl, rfl⟩ | ⟨rfl, rfl⟩
    · exact readBin_of_ahead hdata.positions .one hb (by omega) (by omega) h
    · exact readBin_of_ahead hdata.positions .two hb (by omega) (by omega) h
    · exact readBin_of_ahead hdata.positions .four hb (by omega) (by omega) h

theorem readBehind_of_head {b : UInt8} {head : Head}
    (hhead : HeadEncodes widen (b :: bs) head) (h : r.Ahead bs) :
    readBehind B widen b r = .ok (head, r.skip bs.length) := by
  cases head with
  | leaf node => exact readBehind_of_leaf hdata hhead h
  | map count =>
    refine readBehind_of_count hdata.positions ?_ rfl rfl hhead h
    exact fun _ hn => readBehind_fixmap B widen r hn
  | array count =>
    refine readBehind_of_count hdata.positions ?_ rfl rfl hhead h
    exact fun _ hn => readBehind_fixarray B widen r hn

omit hdata in
theorem exists_lead {head : Head} (hhead : HeadEncodes widen bs head) :
    exists b cs, bs = b :: cs := by
  cases head with
  | leaf node | map count | array count => cases hhead <;> exact ⟨_, _, rfl⟩

theorem readHead_of_headEncodes {head : Head} (hhead : HeadEncodes widen bs head)
    (h : r.Ahead bs) : readHead B widen r = .ok (head, r.skip bs.length) := by
  rcases exists_lead hhead with ⟨b, cs, rfl⟩
  rcases readHead_cons hdata.positions widen h with ⟨hread, hnext⟩
  rw [hread, readBehind_of_head (r := r.skip 1) hdata hhead hnext, skip_skip,
    length_cons, Nat.add_comm]

end

/-!
## Lead bytes of keys

`read_map` looks at the lead byte of the first key only.
-/

theorem isIntKey_of_leaf {k : Int64} (h : LeafEncodes widen bs (.int k)) :
    exists b cs, bs = b :: cs ∧ isIntKey b = true := by
  cases h with
  | posFixint hn =>
    refine ⟨_, _, rfl, ?_⟩
    revert hn
    exact (show forall n, n < 128 -> isIntKey (UInt8.ofNat n) = true by decide) _
  | negFixint hpos hn =>
    refine ⟨_, _, rfl, ?_⟩
    exact (show forall n, n < 33 -> 0 < n -> isIntKey (UInt8.ofNat (256 - n)) = true
      by decide) _ (by omega) hpos
  | @uint tag k _ htag _ =>
    refine ⟨_, _, rfl, ?_⟩
    exact (show forall t, t ∈ uintTags -> isIntKey t.1 = true by decide) (tag, k) htag
  | @sint tag k _ htag _ _ =>
    refine ⟨_, _, rfl, ?_⟩
    exact (show forall t, t ∈ sintTags -> isIntKey t.1 = true by decide) (tag, k) htag

theorem isStrKey_of_leaf (h : LeafEncodes widen bs (.string s)) :
    exists b cs, bs = b :: cs ∧ isStrKey b = true ∧ isIntKey b = false := by
  cases h with
  | fixstr hs =>
    refine ⟨_, _, rfl, ?_⟩
    exact (show forall n, n < 32 -> isStrKey (UInt8.ofNat (0xa0 + n)) = true ∧
      isIntKey (UInt8.ofNat (0xa0 + n)) = false by decide) _ hs
  | @str tag k _ htag _ =>
    refine ⟨_, _, rfl, ?_⟩
    exact (show forall t, t ∈ strTags -> isStrKey t.1 = true ∧ isIntKey t.1 = false
      by decide) (tag, k) htag

theorem encodes_int {k : Int64} (h : Encodes widen maxElements levels bs (.int k)) :
    LeafEncodes widen bs (.int k) := by
  cases levels with
  | zero => exact h.elim
  | succ levels =>
    cases h with
    | leaf hleaf => exact hleaf

theorem encodes_string (h : Encodes widen maxElements levels bs (.string s)) :
    LeafEncodes widen bs (.string s) := by
  cases levels with
  | zero => exact h.elim
  | succ levels =>
    cases h with
    | leaf hleaf => exact hleaf

/-!
## Containers
-/

/-- Wherever an encoding by `E` lies ahead, `read` consumes exactly its bytes and
returns the encoded node. -/
def ReadsBack (B : Build) (read : Reader -> Outcome (DataNode × Reader))
    (E : Bytes -> DataNode -> Prop) : Prop :=
  forall (r : Reader) (bs : Bytes) (node : DataNode), B.Holds r.data.length ->
    E bs node -> r.Ahead bs -> read r = .ok (node, r.skip bs.length)

section

variable {E : Bytes -> DataNode -> Prop} {es : List DataNode} (hchild : ReadsBack B readChild E)
include hchild

theorem readElems_of_ahead (hes : SeqEncodes E bs es) (acc : List DataNode) (r : Reader)
    (hdata : B.Holds r.data.length) (h : r.Ahead bs) :
    readElems readChild es.length acc r = .ok (acc ++ es, r.skip bs.length) := by
  induction hes generalizing acc r with
  | nil => simp [readElems]
  | @cons b rest e es he hrest ih =>
    have hread := hchild r b e hdata he h.left
    have htail := ih (acc ++ [e]) (r.skip b.length) hdata h.skip
    simp [readElems, hread, htail, skip_skip]

theorem entriesLoop_of_ahead {K : Type} [DecidableEq K] {keyOf : DataNode -> Option K}
    {mk : K -> DataNode} (hkey : forall key, keyOf (mk key) = some key)
    {es : List (K × DataNode)} (hes : EntriesEncode E mk bs es) (acc : List (K × DataNode))
    (r : Reader) (hdata : B.Holds r.data.length) (h : r.Ahead bs) :
    entriesLoop readChild keyOf es.length acc r = .ok (upsertAll acc es, r.skip bs.length) := by
  induction hes generalizing acc r with
  | nil => simp [entriesLoop]
  | @cons kb vb rest k v es hk hv hrest ih =>
    have hread := hchild r kb _ hdata hk h.left
    have hval := hchild (r.skip kb.length) vb v hdata hv h.skip.left
    have htail := ih (upsert k v acc) ((r.skip kb.length).skip vb.length) hdata
      h.skip.skip
    simp only [skip_skip] at hval htail
    simp [entriesLoop, hread, hkey, hval, htail, Nat.add_assoc]

theorem readArray_of_ahead (hes : SeqEncodes E bs es)
    (hmax : es.length <= maxElements) (r : Reader) (hdata : B.Holds r.data.length)
    (h : r.Ahead bs) :
    readArray readChild B maxElements es.length r = .ok (.array es, r.skip bs.length) := by
  have helems := readElems_of_ahead hchild hes [] r hdata h
  simp [readArray, Nat.not_lt.mpr hmax, allocNode_of_holds hdata, helems, pure]

end

theorem peek_of_ahead (hdata : B.Holds r.data.length) {b : UInt8} {cs : Bytes}
    (h : r.Ahead (b :: cs)) :
    r.require B 1 = .ok () ∧ r.byteAt B 0 = .ok b := by
  have hcons : r.Ahead ([b] ++ cs) := h
  exact ⟨require_of_ahead hdata.positions hcons.left,
    byteAt_of_ahead hdata.positions (p := []) h⟩

section

variable (hchild : ReadsBack B readChild (Encodes widen maxElements levels))
include hchild

theorem readMap_int_of_ahead {es : List (Int64 × DataNode)}
    (hes : EntriesEncode (Encodes widen maxElements levels) .int bs es) (hne : es ≠ [])
    (hmax : es.length <= maxElements) (r : Reader) (hdata : B.Holds r.data.length)
    (h : r.Ahead bs) :
    readMap readChild B maxElements es.length r =
      .ok (.intMap (upsertAll [] es), r.skip bs.length) := by
  have hkeys : forall key, intKeyOf (.int key) = some key := fun _ => rfl
  have hentries := entriesLoop_of_ahead hchild hkeys hes [] r hdata h
  rw [← readIntEntries_eq] at hentries
  have hcount : es.length ≠ 0 := fun hzero => hne (length_eq_zero_iff.mp hzero)
  cases hes with
  | nil => exact absurd rfl hne
  | cons hk hv hrest =>
    obtain ⟨b, cs, rfl, hkey⟩ := isIntKey_of_leaf (encodes_int hk)
    obtain ⟨hrequire, hpeek⟩ := peek_of_ahead hdata h.left
    rw [readMap, if_neg hcount, if_neg (Nat.not_lt.mpr hmax), hentries]
    simp [hrequire, hpeek, hkey, allocNode_of_holds hdata, pure]

theorem readMap_str_of_ahead {es : List (Bytes × DataNode)}
    (hes : EntriesEncode (Encodes widen maxElements levels) .string bs es)
    (hmax : es.length <= maxElements) (r : Reader) (hdata : B.Holds r.data.length)
    (h : r.Ahead bs) :
    readMap readChild B maxElements es.length r =
      .ok (.object (upsertAll [] es), r.skip bs.length) := by
  have hkeys : forall key, strKeyOf (.string key) = some key := fun _ => rfl
  have hentries := entriesLoop_of_ahead hchild hkeys hes [] r hdata h
  rw [← readStrEntries_eq] at hentries
  cases hes with
  | nil => simp [readMap, allocNode_of_holds hdata, pure]
  | cons hk hv hrest =>
    obtain ⟨b, cs, rfl, hkey, hint⟩ := isStrKey_of_leaf (encodes_string hk)
    obtain ⟨hrequire, hpeek⟩ := peek_of_ahead hdata h.left
    rw [readMap, if_neg (by simp), if_neg (Nat.not_lt.mpr hmax), hentries]
    simp [hrequire, hpeek, hkey, hint, allocNode_of_holds hdata, pure]

end

/-!
## Nodes
-/

variable {node : DataNode}

theorem readsBack_readNode (B : Build) (widen : UInt32 -> UInt64)
    (maxElements levels : Nat) :
    ReadsBack B (readNode B widen maxElements levels) (Encodes widen maxElements levels) := by
  induction levels with
  | zero =>
    intro r bs node _ hnode _
    exact hnode.elim
  | succ levels ih =>
    intro r bs node hdata hnode h
    cases hnode with
    | leaf hleaf =>
      have hhead := readHead_of_headEncodes hdata
        (show HeadEncodes widen bs (.leaf node) from hleaf) h
      have hnode := allocNode_of_holds (r := r.skip bs.length) hdata
      simp [readNode, hhead, hnode, pure]
    | @array hdr body es hhdr hmax hbody =>
      have hhead := readHead_of_headEncodes hdata
        (show HeadEncodes widen hdr (.array es.length) from hhdr) h.left
      have hrest := readArray_of_ahead ih hbody hmax (r.skip hdr.length) hdata h.skip
      simp [readNode, hhead, hrest, skip_skip]
    | @object hdr body es hhdr hmax hbody =>
      have hhead := readHead_of_headEncodes hdata
        (show HeadEncodes widen hdr (.map es.length) from hhdr) h.left
      have hrest := readMap_str_of_ahead ih hbody hmax (r.skip hdr.length) hdata h.skip
      simp [readNode, hhead, hrest, skip_skip]
    | @intMap hdr body es hne hhdr hmax hbody =>
      have hhead := readHead_of_headEncodes hdata
        (show HeadEncodes widen hdr (.map es.length) from hhdr) h.left
      have hrest := readMap_int_of_ahead ih hbody hne hmax (r.skip hdr.length)
        hdata h.skip
      simp [readNode, hhead, hrest, skip_skip]

theorem encodes_ne_nil (h : Encodes widen maxElements levels bs node) : bs ≠ [] := by
  have hcount : forall {fix : Nat} {tag16 tag32 : UInt8} {hdr : Bytes} {n : Nat},
      CountEncodes fix tag16 tag32 hdr n -> hdr ≠ [] := by
    intro fix tag16 tag32 hdr n hhdr
    cases hhdr <;> simp
  cases levels with
  | zero => exact h.elim
  | succ levels =>
    cases h with
    | leaf hleaf => cases hleaf <;> simp
    | array hhdr hmax hbody | object hhdr hmax hbody | intMap hne hhdr hmax hbody =>
      simp [hcount hhdr]

/-- A buffer that is an encoding is parsed to the encoded node. -/
theorem msgPackParse_of_encodes {data : Bytes} (hdata : B.Holds data.length)
    (h : Encodes widen maxElements (kMaxDepth + 1) data node) :
    msgPackParse B widen maxElements data = .ok node := by
  have hne : data.length ≠ 0 := fun hzero =>
    encodes_ne_nil h (length_eq_zero_iff.mp hzero)
  have hahead : (Reader.mk data 0).Ahead data :=
    ⟨Nat.zero_le _, by simp⟩
  have hread := readsBack_readNode B widen maxElements (kMaxDepth + 1) ⟨data, 0⟩ data
    node hdata h hahead
  rw [msgPackParse, if_neg hne, hread]
  simp [skip, pure]

end Async2.MsgPack
