import Async2.MsgPack.Complete

/-!
# Nodes that are read come from encodings

A reader that returns a node has consumed an encoding of it, whether a guard in
front of a read has wrapped around or not: where the bytes are missing, the read
faults.
-/

namespace Async2.MsgPack

open AssocList BigEndian List Outcome Reader CountEncodes

/-- The bytes `bs` lie ahead of `r`, and `next` stands right behind them. -/
def Took (r next : Reader) (bs : Bytes) : Prop :=
  r.Ahead bs ∧ next = r.skip bs.length

variable {bs : Bytes} {r next : Reader}

theorem Took.append {last : Reader} {cs : Bytes} (hb : Took r next bs) (hc : Took next last cs) :
    Took r last (bs ++ cs) := by
  obtain ⟨hbs, rfl⟩ := hb
  obtain ⟨hcs, rfl⟩ := hc
  refine ⟨ahead_append hbs hcs, ?_⟩
  rw [skip_skip, length_append]

theorem Took.data (h : Took r next bs) : next.data = r.data := by
  rw [h.2, skip_data]

theorem took_nil (hpos : r.pos <= r.data.length) : Took r r [] :=
  ⟨⟨hpos, nil_prefix⟩, rfl⟩

theorem Took.pos_le (h : Took r next bs) : next.pos <= next.data.length := by
  rw [h.data, h.2]
  exact h.1.le

section

variable {B : Build} {r next : Reader} {p : Bytes} {head : Head} {n : Nat} {k : Width}
variable (hdata : r.data.length < 2 ^ B.width) (hpos : r.pos <= r.data.length)
include hdata hpos

/-!
## Fields and payloads
-/

theorem ReadsWord.sound {W : Type} {k : Nat} {toNat : W -> Nat} {v : W}
    {read : Reader -> Outcome (W × Reader)} (hword : ReadsWord B k toNat read)
    (h : read r = .ok (v, next)) : Took r next (beBytes k (toNat v)) := by
  by_cases hin : r.pos + k <= r.data.length
  · rcases exists_ahead hin with ⟨bs, rfl, hahead⟩
    rcases hword.ahead r bs hdata rfl hahead with ⟨u, hu, hread⟩
    rw [hread] at h
    cases h
    rw [hu, beBytes_beNat]
    exact ⟨hahead, rfl⟩
  · rw [hword.fault r hdata hpos (Nat.lt_of_not_le hin)] at h
    cases h

theorem readField_sound (h : readField B r k = .ok (n, next)) :
    n < 256 ^ k.bytes ∧ Took r next (beBytes k.bytes n) := by
  cases k with
  | one =>
    rcases bind_eq_ok.mp (bind_eq_ok.mp h).choose_spec.2 with ⟨⟨v, r'⟩, hread, heq⟩
    cases heq
    exact ⟨v.toNat_lt, (readsWord_u8 B).sound hdata hpos hread⟩
  | two =>
    rcases bind_eq_ok.mp (bind_eq_ok.mp h).choose_spec.2 with ⟨⟨v, r'⟩, hread, heq⟩
    cases heq
    exact ⟨v.toNat_lt, (readsWord_u16 B).sound hdata hpos hread⟩
  | four =>
    rcases bind_eq_ok.mp (bind_eq_ok.mp h).choose_spec.2 with ⟨⟨v, r'⟩, hread, heq⟩
    cases heq
    exact ⟨v.toNat_lt, (readsWord_u32 B).sound hdata hpos hread⟩

omit hpos in
theorem readPayload_sound {maxSize : Nat} (h : readPayload B maxSize r n = .ok (p, next)) :
    p.length = n ∧ Took r next p := by
  rcases bind_eq_ok.mp h with ⟨_, _, hread⟩
  rw [readBytes] at hread
  split at hread
  · cases hread
  split at hread
  case isFalse => cases hread
  case isTrue hin =>
    rcases exists_ahead hin with ⟨bs, rfl, hahead⟩
    rcases hahead.2 with ⟨tail, htail⟩
    rw [advance_of_ahead hdata hahead, ← htail, take_left] at hread
    cases hread
    exact ⟨rfl, hahead, rfl⟩

/-!
## Behind the lead byte

In each case the bytes that were taken complete the lead byte to an encoding.
-/

/-- What was read behind the lead byte `b` completes it to an encoding. -/
def Completes (widen : UInt32 -> UInt64) (b : UInt8) (r : Reader)
    (x : Outcome (Head × Reader)) : Prop :=
  forall (head : Head) (next : Reader), x = .ok (head, next) ->
    exists bs : Bytes, Took r next bs ∧ HeadEncodes widen (b :: bs) head

variable {widen : UInt32 -> UInt64} {b : UInt8}

omit hdata hpos in
theorem completes_null : Completes widen b r .null := by
  intro head next h
  cases h

omit hdata hpos in
theorem completes_ite {c : Prop} [Decidable c] {x y : Outcome (Head × Reader)}
    (hx : c -> Completes widen b r x) (hy : Completes widen b r y) :
    Completes widen b r (if c then x else y) := by
  by_cases hc : c
  · rw [if_pos hc]
    exact hx hc
  · rw [if_neg hc]
    exact hy

omit hdata in
theorem completes_pure (henc : HeadEncodes widen [b] head) :
    Completes widen b r (.ok (head, r)) := by
  intro head' next h
  cases h
  exact ⟨[], took_nil hpos, henc⟩

omit hpos in
theorem completes_payload {k maxSize : Nat}
    (henc : forall p : Bytes, p.length = k -> LeafEncodes widen (b :: p) (.string p)) :
    Completes widen b r (do
      let (p, r) ← readPayload B maxSize r k
      return (.leaf (.string p), r)) := by
  intro head next h
  obtain ⟨⟨p, r'⟩, hread, heq⟩ := bind_eq_ok.mp h
  cases heq
  obtain ⟨hlen, htook⟩ := readPayload_sound hdata hread
  exact ⟨p, htook, henc p hlen⟩

theorem completes_text {node : Bytes -> DataNode} {maxSize : Nat}
    (henc : forall s : Bytes, s.length < 256 ^ k.bytes ->
      LeafEncodes widen (b :: (beBytes k.bytes s.length ++ s)) (node s)) :
    Completes widen b r (do
      let (len, r) ← readField B r k
      let (p, r) ← readPayload B maxSize r len
      return (.leaf (node p), r)) := by
  intro head next h
  obtain ⟨⟨len, r'⟩, hfield, hrest⟩ := bind_eq_ok.mp h
  obtain ⟨⟨p, r''⟩, hpayload, heq⟩ := bind_eq_ok.mp hrest
  cases heq
  obtain ⟨hlen, htook⟩ := readField_sound hdata hpos hfield
  rw [← htook.data] at hdata
  obtain ⟨rfl, htookp⟩ := readPayload_sound hdata hpayload
  exact ⟨_, htook.append htookp, henc p hlen⟩

theorem completes_readUint (htag : (b, k.bytes) ∈ uintTags) :
    Completes widen b r (readUint B r k) := by
  intro head next h
  obtain ⟨⟨n, r'⟩, hfield, heq⟩ := bind_eq_ok.mp h
  cases heq
  obtain ⟨hn, htook⟩ := readField_sound hdata hpos hfield
  exact ⟨_, htook, LeafEncodes.uint htag hn⟩

theorem completes_readCount {mk : Nat -> Head}
    (henc : forall n, n < 256 ^ k.bytes -> HeadEncodes widen (b :: beBytes k.bytes n) (mk n)) :
    Completes widen b r (do
      let (count, r) ← readField B r k
      return (mk count, r)) := by
  intro head next h
  obtain ⟨⟨n, r'⟩, hfield, heq⟩ := bind_eq_ok.mp h
  cases heq
  obtain ⟨hn, htook⟩ := readField_sound hdata hpos hfield
  exact ⟨_, htook, henc n hn⟩

theorem completes_word {W : Type} {k : Nat} {toNat : W -> Nat}
    {read : Reader -> Outcome (W × Reader)} (hword : ReadsWord B k toNat read)
    (node : W -> DataNode)
    (henc : forall v : W, LeafEncodes widen (b :: beBytes k (toNat v)) (node v)) :
    Completes widen b r (do
      r.require B k
      let (v, r) ← read r
      return (.leaf (node v), r)) := by
  intro head next h
  obtain ⟨_, _, hrest⟩ := bind_eq_ok.mp h
  obtain ⟨⟨v, r'⟩, hread, heq⟩ := bind_eq_ok.mp hrest
  cases heq
  exact ⟨_, hword.sound hdata hpos hread, henc v⟩

omit hdata hpos in
theorem forall_uint8 {P : UInt8 -> Prop} (h : forall n, n < 256 -> P (UInt8.ofNat n))
    (b : UInt8) : P b := by
  have hb := h b.toNat b.toNat_lt
  rwa [UInt8.ofNat_toNat] at hb

omit hdata hpos in
theorem leaf_posFixint (hlow : b <= 0x7f) : LeafEncodes widen [b] (.int (Int64.ofNat b.toNat)) := by
  have h : LeafEncodes widen _ _ := .posFixint (n := b.toNat)
    (Nat.lt_succ_of_le (UInt8.le_iff_toNat_le.mp hlow))
  rwa [UInt8.ofNat_toNat] at h

omit hdata hpos in
theorem leaf_negFixint (hhigh : b >= 0xe0) : LeafEncodes widen [b] (.int b.toInt8.toInt64) := by
  have hrange : forall b : UInt8, b >= 0xe0 -> UInt8.ofNat (256 - (256 - b.toNat)) = b ∧
      Int64.ofInt (-(256 - b.toNat : Nat)) = b.toInt8.toInt64 :=
    forall_uint8 (by decide +kernel)
  obtain ⟨hbyte, hvalue⟩ := hrange b hhigh
  have hlt := b.toNat_lt
  have hle := UInt8.le_iff_toNat_le.mp hhigh
  have hbound : 0xe0 <= b.toNat := hle
  have h : LeafEncodes widen _ _ := .negFixint (n := 256 - b.toNat) (by omega) (by omega)
  rwa [hbyte, hvalue] at h

omit hdata hpos in
theorem countEncodes_fixed {fix : Nat} {tag16 tag32 : UInt8}
    (hrange : (b &&& 0x0f).toNat < 16 ∧ UInt8.ofNat (fix + (b &&& 0x0f).toNat) = b) :
    CountEncodes fix tag16 tag32 [b] (b &&& 0x0f).toNat := by
  have h : CountEncodes fix tag16 tag32 _ _ := .fixed hrange.1
  rwa [hrange.2] at h

omit hdata hpos in
theorem leaf_fixstr (hfix : b &&& 0xe0 = 0xa0) (hp : p.length = (b &&& 0x1f).toNat) :
    LeafEncodes widen (b :: p) (.string p) := by
  have hrange : forall b : UInt8, b &&& 0xe0 = 0xa0 -> (b &&& 0x1f).toNat < 32 ∧
      UInt8.ofNat (0xa0 + (b &&& 0x1f).toNat) = b := forall_uint8 (by decide +kernel)
  obtain ⟨hlt, hbyte⟩ := hrange b hfix
  have h : LeafEncodes widen _ _ := .fixstr (s := p) (by omega)
  rwa [hp, hbyte] at h

omit hdata hpos in
theorem leaf_sint {k m : Nat} (htag : (b, k) ∈ sintTags) (hm : m < 256 ^ k) {v : Int64}
    (hv : v.toInt = (m : Int).bmod (256 ^ k)) : LeafEncodes widen (b :: beBytes k m) (.int v) := by
  have hk : 256 ^ k = 2 * (128 * 256 ^ (k - 1)) := by
    simp only [sintTags, mem_cons, Prod.mk.injEq, not_mem_nil, or_false] at htag
    rcases htag with ⟨_, rfl⟩ | ⟨_, rfl⟩ | ⟨_, rfl⟩ | ⟨_, rfl⟩ <;> rfl
  have hpos : 0 < 256 ^ k := Nat.pow_pos (by decide)
  have hlow := Int.le_bmod (x := m) hpos
  have hhigh := Int.bmod_lt (x := m) hpos
  have hres : (v.toInt % 256 ^ k).toNat = m := by
    rw [hv, show ((256 : Int) ^ k) = ((256 ^ k : Nat) : Int) by simp, Int.bmod_emod,
      Int.emod_eq_of_lt (Int.natCast_nonneg m) (Int.ofNat_lt.mpr hm), Int.toNat_natCast]
  rw [← hv] at hlow hhigh
  have h : LeafEncodes widen _ _ := .sint htag (n := v.toInt)
    (by rw [show (128 * 256 ^ (k - 1) : Int) = ((128 * 256 ^ (k - 1) : Nat) : Int) by simp]; omega)
    (by rw [show (128 * 256 ^ (k - 1) : Int) = ((128 * 256 ^ (k - 1) : Nat) : Int) by simp]; omega)
  rwa [hres, Int64.ofInt_toInt] at h

theorem completes_readBehind (b : UInt8) :
    Completes widen b r (readBehind B widen b r) := by
  have hfixmap : forall b : UInt8, b &&& 0xf0 = 0x80 -> (b &&& 0x0f).toNat < 16 ∧
      UInt8.ofNat (0x80 + (b &&& 0x0f).toNat) = b := forall_uint8 (by decide +kernel)
  have hfixarray : forall b : UInt8, b &&& 0xf0 = 0x90 -> (b &&& 0x0f).toNat < 16 ∧
      UInt8.ofNat (0x90 + (b &&& 0x0f).toNat) = b := forall_uint8 (by decide +kernel)
  -- One line for each branch of the dispatch, in its order.
  refine completes_ite (fun hb => completes_pure hpos (leaf_posFixint hb)) ?_
  refine completes_ite (fun hb => completes_pure hpos (leaf_negFixint hb)) ?_
  refine completes_ite (fun hb => completes_pure hpos (countEncodes_fixed (hfixmap b hb))) ?_
  refine completes_ite (fun hb => completes_pure hpos (countEncodes_fixed (hfixarray b hb))) ?_
  refine completes_ite (fun hb => completes_payload hdata fun p hp => leaf_fixstr hb hp) ?_
  refine completes_ite (fun hb => hb ▸ completes_pure hpos .nil) ?_
  refine completes_ite (fun _ => completes_null) ?_
  refine completes_ite (fun hb => hb ▸ completes_pure hpos (.bool false)) ?_
  refine completes_ite (fun hb => hb ▸ completes_pure hpos (.bool true)) ?_
  refine completes_ite (fun hb => hb ▸ completes_text hdata hpos fun _ => .bin (by decide)) ?_
  refine completes_ite (fun hb => hb ▸ completes_text hdata hpos fun _ => .bin (by decide)) ?_
  refine completes_ite (fun hb => hb ▸ completes_text hdata hpos fun _ => .bin (by decide)) ?_
  refine completes_ite (fun _ => completes_null) ?_
  refine completes_ite (fun hb => hb ▸
    completes_word hdata hpos (readsWord_u32 B) (fun v => .float (widen v)) .float32) ?_
  refine completes_ite (fun hb => hb ▸
    completes_word hdata hpos (readsWord_u64 B) .float .float64) ?_
  refine completes_ite (fun hb => hb ▸ completes_readUint hdata hpos (by decide)) ?_
  refine completes_ite (fun hb => hb ▸ completes_readUint hdata hpos (by decide)) ?_
  refine completes_ite (fun hb => hb ▸ completes_readUint hdata hpos (by decide)) ?_
  refine completes_ite (fun hb => hb ▸
    completes_word hdata hpos (readsWord_u64 B) (fun v => .int v.toInt64) fun v => by
      rw [toInt64_eq_ofNat]
      exact .uint (by decide) v.toNat_lt) ?_
  refine completes_ite (fun hb => hb ▸
    completes_word hdata hpos (readsWord_u8 B) (fun v => .int v.toInt8.toInt64) fun v =>
      leaf_sint (by decide) v.toNat_lt ((Int8.toInt_toInt64 _).trans (toInt8_toInt v))) ?_
  refine completes_ite (fun hb => hb ▸
    completes_word hdata hpos (readsWord_u16 B) (fun v => .int v.toInt16.toInt64) fun v =>
      leaf_sint (by decide) v.toNat_lt ((Int16.toInt_toInt64 _).trans (toInt16_toInt v))) ?_
  refine completes_ite (fun hb => hb ▸
    completes_word hdata hpos (readsWord_u32 B) (fun v => .int v.toInt32.toInt64) fun v =>
      leaf_sint (by decide) v.toNat_lt ((Int32.toInt_toInt64 _).trans (toInt32_toInt v))) ?_
  refine completes_ite (fun hb => hb ▸
    completes_word hdata hpos (readsWord_u64 B) (fun v => .int v.toInt64) fun v =>
      leaf_sint (by decide) v.toNat_lt (toInt64_toInt v)) ?_
  refine completes_ite (fun _ => completes_null) ?_
  refine completes_ite (fun hb => hb ▸ completes_text hdata hpos fun _ => .str (by decide)) ?_
  refine completes_ite (fun hb => hb ▸ completes_text hdata hpos fun _ => .str (by decide)) ?_
  refine completes_ite (fun hb => hb ▸ completes_text hdata hpos fun _ => .str (by decide)) ?_
  refine completes_ite (fun hb => hb ▸
    completes_readCount hdata hpos fun _ => wide16) ?_
  refine completes_ite (fun hb => hb ▸
    completes_readCount hdata hpos fun _ => wide32) ?_
  refine completes_ite (fun hb => hb ▸
    completes_readCount hdata hpos fun _ => wide16) ?_
  refine completes_ite (fun hb => hb ▸
    completes_readCount hdata hpos fun _ => wide32) ?_
  exact completes_null

theorem readHead_sound (h : readHead B widen r = .ok (head, next)) :
    exists bs : Bytes, Took r next bs ∧ HeadEncodes widen bs head := by
  obtain ⟨_, _, hrest⟩ := bind_eq_ok.mp h
  obtain ⟨⟨b, r'⟩, hbyte, hbehind⟩ := bind_eq_ok.mp hrest
  have hlead := (readsWord_u8 B).sound hdata hpos hbyte
  have hsingle : beBytes 1 b.toNat = [b] := by
    simpa [beNat] using beBytes_beNat [b]
  rw [hsingle] at hlead
  rw [← hlead.data] at hdata
  obtain ⟨bs, htook, henc⟩ :=
    completes_readBehind hdata hlead.pos_le b head next hbehind
  exact ⟨b :: bs, hlead.append htook, henc⟩

end

/-!
## Containers
-/

/-- Whenever `read` returns a node, it has consumed an encoding of it by `E`. -/
def ReadsOnly (B : Build) (read : Reader -> Outcome (DataNode × Reader))
    (E : Bytes -> DataNode -> Prop) : Prop :=
  forall (r next : Reader) (node : DataNode), r.data.length < 2 ^ B.width ->
    r.pos <= r.data.length -> read r = .ok (node, next) ->
      exists bs : Bytes, Took r next bs ∧ E bs node

section

variable {B : Build} {readChild : Reader -> Outcome (DataNode × Reader)}
variable {E : Bytes -> DataNode -> Prop} (hchild : ReadsOnly B readChild E)
include hchild

theorem readElems_sound (count : Nat) (acc es : List DataNode) (r next : Reader)
    (hdata : r.data.length < 2 ^ B.width) (hpos : r.pos <= r.data.length)
    (h : readElems readChild count acc r = .ok (es, next)) :
    exists (bs : Bytes) (read : List DataNode), Took r next bs ∧
      es = acc ++ read ∧ read.length = count ∧ SeqEncodes E bs read := by
  induction count generalizing acc r with
  | zero =>
    cases h
    exact ⟨[], [], took_nil hpos, by simp, rfl, .nil⟩
  | succ count ih =>
    obtain ⟨⟨e, r1⟩, hread, hrest⟩ := bind_eq_ok.mp h
    obtain ⟨b, htook, he⟩ := hchild r r1 e hdata hpos hread
    obtain ⟨bs, read, htooks, hes, hlen, hseq⟩ :=
      ih (acc ++ [e]) r1 (by rwa [htook.data]) htook.pos_le hrest
    exact ⟨b ++ bs, e :: read, htook.append htooks, by simp [hes], by simp [hlen],
      .cons he hseq⟩

theorem entriesLoop_sound {K : Type} [DecidableEq K] {keyOf : DataNode -> Option K}
    {mk : K -> DataNode} (hmk : forall node key, keyOf node = some key -> node = mk key)
    (count : Nat) (acc es : List (K × DataNode)) (r next : Reader)
    (hdata : r.data.length < 2 ^ B.width) (hpos : r.pos <= r.data.length)
    (h : entriesLoop readChild keyOf count acc r = .ok (es, next)) :
    exists (bs : Bytes) (read : List (K × DataNode)), Took r next bs ∧
      es = upsertAll acc read ∧ read.length = count ∧ EntriesEncode E mk bs read := by
  induction count generalizing acc r with
  | zero =>
    cases h
    exact ⟨[], [], took_nil hpos, rfl, rfl, .nil⟩
  | succ count ih =>
    obtain ⟨⟨keyNode, r1⟩, hkey, hrest⟩ := bind_eq_ok.mp h
    obtain ⟨kb, htookk, hk⟩ := hchild r r1 keyNode hdata hpos hkey
    dsimp only at hrest
    cases hcase : keyOf keyNode with
    | none =>
      rw [hcase] at hrest
      cases hrest
    | some key =>
      rw [hcase] at hrest
      rw [hmk keyNode key hcase] at hk
      obtain ⟨⟨val, r2⟩, hval, hloop⟩ := bind_eq_ok.mp hrest
      rw [← htookk.data] at hdata
      obtain ⟨vb, htookv, hv⟩ := hchild r1 r2 val hdata htookk.pos_le hval
      obtain ⟨bs, read, htooks, hes, hlen, hentries⟩ :=
        ih (upsert key val acc) r2 (by rwa [htookv.data]) htookv.pos_le hloop
      exact ⟨kb ++ (vb ++ bs), (key, val) :: read,
        htookk.append (htookv.append htooks), hes, by simp [hlen],
        .cons hk hv hentries⟩

omit hchild in
theorem eq_int_of_key (node : DataNode) (key : Int64) (h : intKeyOf node = some key) :
    node = .int key := by
  cases node <;> cases h
  rfl

omit hchild in
theorem eq_string_of_key (node : DataNode) (key : Bytes) (h : strKeyOf node = some key) :
    node = .string key := by
  cases node <;> cases h
  rfl

variable {widen : UInt32 -> UInt64} {maxElements count : Nat}
variable {hdr : Bytes} {r next : Reader} {node : DataNode}

theorem readArray_sound (hhdr : ArrayHeader hdr count) (hdata : r.data.length < 2 ^ B.width)
    (hpos : r.pos <= r.data.length)
    (h : readArray readChild B maxElements count r = .ok (node, next)) :
    exists bs : Bytes, Took r next bs ∧ NodeEncodes widen maxElements E (hdr ++ bs) node := by
  rw [readArray] at h
  split at h
  · cases h
  case isFalse hmax =>
    obtain ⟨_, -, hmade⟩ := bind_eq_ok.mp h
    obtain ⟨⟨es, r1⟩, hloop, heq⟩ := bind_eq_ok.mp hmade
    cases heq
    obtain ⟨bs, read, htook, rfl, rfl, hseq⟩ :=
      readElems_sound hchild count [] es r _ hdata hpos hloop
    exact ⟨bs, htook, .array hhdr (Nat.not_lt.mp hmax) hseq⟩

/-- The peek decides which loop runs, and the loop checks every key. -/
theorem readMap_sound (hhdr : MapHeader hdr count) (hdata : r.data.length < 2 ^ B.width)
    (hpos : r.pos <= r.data.length)
    (h : readMap readChild B maxElements count r = .ok (node, next)) :
    exists bs : Bytes, Took r next bs ∧ NodeEncodes widen maxElements E (hdr ++ bs) node := by
  rw [readMap] at h
  split at h
  case isTrue hzero =>
    obtain ⟨_, -, heq⟩ := bind_eq_ok.mp h
    cases heq
    subst hzero
    exact ⟨[], took_nil hpos,
      @NodeEncodes.object widen maxElements E hdr [] [] hhdr (Nat.zero_le _) .nil⟩
  case isFalse hcount =>
    split at h
    · cases h
    case isFalse hmax =>
      obtain ⟨_, -, hrest⟩ := bind_eq_ok.mp h
      obtain ⟨peek, -, hkeys⟩ := bind_eq_ok.mp hrest
      split at hkeys
      · cases hkeys
      split at hkeys
      · obtain ⟨_, -, hmade⟩ := bind_eq_ok.mp hkeys
        obtain ⟨⟨es, r1⟩, hloop, heq⟩ := bind_eq_ok.mp hmade
        cases heq
        rw [readIntEntries_eq] at hloop
        obtain ⟨bs, read, htook, rfl, rfl, hentries⟩ :=
          entriesLoop_sound hchild eq_int_of_key count [] es r _ hdata hpos hloop
        have hne : read ≠ [] := fun hnil => hcount (by rw [hnil, length_nil])
        exact ⟨bs, htook, .intMap hne hhdr (Nat.not_lt.mp hmax) hentries⟩
      obtain ⟨_, -, hmade⟩ := bind_eq_ok.mp hkeys
      obtain ⟨⟨es, r1⟩, hloop, heq⟩ := bind_eq_ok.mp hmade
      cases heq
      rw [readStrEntries_eq] at hloop
      obtain ⟨bs, read, htook, rfl, rfl, hentries⟩ :=
        entriesLoop_sound hchild eq_string_of_key count [] es r _ hdata hpos hloop
      exact ⟨bs, htook, .object hhdr (Nat.not_lt.mp hmax) hentries⟩

end

/-!
## Nodes
-/

theorem readsOnly_readNode (B : Build) (widen : UInt32 -> UInt64) (maxElements levels : Nat) :
    ReadsOnly B (readNode B widen maxElements levels)
      (Encodes widen maxElements levels) := by
  induction levels with
  | zero =>
    intro r next node _ _ h
    cases h
  | succ levels ih =>
    intro r next node hdata hpos h
    obtain ⟨⟨head, r1⟩, hhead, hrest⟩ := bind_eq_ok.mp h
    obtain ⟨hdr, htook, henc⟩ := readHead_sound hdata hpos hhead
    rw [← htook.data] at hdata
    cases head with
    | leaf leafNode =>
      obtain ⟨_, -, heq⟩ := bind_eq_ok.mp hrest
      cases heq
      exact ⟨hdr, htook, .leaf henc⟩
    | map count =>
      obtain ⟨bs, htooks, hnode⟩ := readMap_sound ih henc hdata htook.pos_le hrest
      exact ⟨hdr ++ bs, htook.append htooks, hnode⟩
    | array count =>
      obtain ⟨bs, htooks, hnode⟩ := readArray_sound ih henc hdata htook.pos_le hrest
      exact ⟨hdr ++ bs, htook.append htooks, hnode⟩

theorem encodes_of_msgPackParse {B : Build} {widen : UInt32 -> UInt64}
    {maxElements : Nat} {data : Bytes} {node : DataNode} (hdata : data.length < 2 ^ B.width)
    (h : msgPackParse B widen maxElements data = .ok node) :
    Encodes widen maxElements (kMaxDepth + 1) data node := by
  rw [msgPackParse] at h
  split at h
  · cases h
  obtain ⟨⟨result, r⟩, hread, hend⟩ := bind_eq_ok.mp h
  obtain ⟨bs, ⟨⟨-, hbs⟩, rfl⟩, henc⟩ :=
    readsOnly_readNode B widen maxElements _ ⟨data, 0⟩ r result hdata (Nat.zero_le _) hread
  dsimp only at hend
  split at hend
  · cases hend
  case isFalse hall =>
    cases hend
    have hlen : bs.length = data.length := by
      simpa [skip] using hall
    rwa [List.IsPrefix.eq_of_length hbs (by simpa using hlen)] at henc

end Async2.MsgPack
