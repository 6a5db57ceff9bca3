import Async2.MsgPack.Complete

/-!
# The MessagePack parser and the end of its buffer

`Reader.has` computes `pos + n` in `size_t`.  When the sum wraps around, the
guard lets the reader go on behind the end of the buffer.  But `size_t` counts
all of the memory.  The end of a payload only wraps around if there is no memory
for a copy beside the buffer, and then the string or vector throws before it
reads anything.  The end of a field only wraps around near the end of a buffer
that leaves no memory for a node, and then the parser ends with its first head.
-/

namespace Async2.MsgPack

open BigEndian List Outcome Reader

/-!
## Safe outcomes
-/

/-- The outcome is no fault, and a result has the property. -/
def Safe {α : Type} (I : α -> Prop) : Outcome α -> Prop
  | .fault => False
  | .thrown => True
  | .null => True
  | .ok a => I a

section

variable {α β : Type} {I : α -> Prop} {J : β -> Prop} {x y : Outcome α}

theorem Safe.bind {f : α -> Outcome β} (h : Safe I x) (hf : forall a, I a -> Safe J (f a)) :
    Safe J (x >>= f) := by
  cases x with
  | fault => exact h.elim
  | thrown | null => trivial
  | ok a => exact hf a h

theorem safe_ite {c : Prop} [Decidable c] (hx : Safe I x) (hy : Safe I y) :
    Safe I (if c then x else y) := by
  split
  · exact hx
  · exact hy

end

/-- A reader over the given buffer whose position does not lie beyond it, and does
not wrap around in the next `k` bytes. -/
structure Inside (B : Build) (data : Bytes) (k : Nat) (r : Reader) : Prop where
  data_eq : r.data = data
  pos_le : r.pos <= data.length
  room : r.pos + k < 2 ^ B.width

def ResultInside {α : Type} (B : Build) (data : Bytes) (k : Nat) (x : α × Reader) : Prop :=
  Inside B data k x.2

section

variable {B : Build} {data : Bytes} {r : Reader} {j k n : Nat}
variable (hdata : data.length < 2 ^ B.width)
include hdata

/-!
## Guarded reads
-/

/-- Where the sum does not wrap around, the guard is exact. -/
theorem require_cases (hr : Inside B data k r) (hfits : r.pos + n < 2 ^ B.width) :
    r.require B n = .null ∨ exists bs, bs.length = n ∧ r.Ahead bs ∧ r.require B n = .ok () := by
  rcases hr with ⟨rfl, hpos, _⟩
  by_cases hin : r.pos + n <= r.data.length
  · rcases exists_ahead hin with ⟨bs, rfl, hahead⟩
    exact .inr ⟨bs, rfl, hahead, require_of_ahead hdata hahead⟩
  · left
    rw [require, has, Build.add_of_lt hfits, len, decide_eq_false hin]
    rfl

theorem safe_guarded {W β : Type} {toNat : W -> Nat} {read : Reader -> Outcome (W × Reader)}
    {J : β -> Prop} {f : W × Reader -> Outcome β} (hword : ReadsWord B n toNat read)
    (hr : Inside B data k r) (hn : n + j <= k)
    (hf : forall v r, Inside B data j r -> Safe J (f (v, r))) :
    Safe J (r.require B n >>= fun _ => read r >>= f) := by
  have hroom := hr.room
  rcases require_cases (n := n) hdata hr (by omega) with hnull | ⟨bs, rfl, hahead, hok⟩
  · rw [hnull]
    trivial
  · rcases hr with ⟨rfl, _, _⟩
    rcases hword.ahead r bs hdata rfl hahead with ⟨v, _, hread⟩
    rw [hok, hread]
    exact hf v _ ⟨rfl, hahead.le, by rw [skip_pos]; omega⟩

section

variable (hmemory : B.memory < 2 ^ B.width)
include hmemory

theorem safe_readPayload {maxSize : Nat} (hr : Inside B data 1 r) :
    Safe (ResultInside B data 1) (readPayload B maxSize r n) := by
  have hroom := hr.room
  by_cases hthrows : maxSize < n ∨ B.memory < r.len + n
  · -- The exception comes before the copy, whatever the guard has said.
    rw [readPayload, readBytes, if_pos hthrows, require]
    split <;> trivial
  · rcases not_or.mp hthrows with ⟨hsize, hfits⟩
    have hpos := hr.pos_le
    rw [len, hr.data_eq] at hfits
    rcases require_cases (n := n) hdata hr (by omega) with hnull | ⟨bs, rfl, hahead, hok⟩
    · rw [readPayload, hnull]
      trivial
    · rcases hr with ⟨rfl, _, _⟩
      have hend := hahead.le
      rw [readPayload, hok, ok_bind,
        readBytes_of_ahead hdata (Nat.le_of_not_lt hsize) (Nat.le_of_not_lt hfits) hahead]
      exact ⟨rfl, hend, by rw [skip_pos]; omega⟩

omit hdata in
/-- Where there is memory for a node, no head wraps around: 10 bytes are a lead byte, a
field and the byte behind it. -/
theorem safe_allocNode {β : Type} {J : β -> Prop} {f : Unit -> Outcome β}
    (hr : Inside B data 1 r) (hf : Inside B data 10 r -> Safe J (f ())) :
    Safe J (r.allocNode B >>= f) := by
  unfold allocNode
  split
  case isTrue => trivial
  case isFalse hnode =>
    have hpos := hr.pos_le
    rw [len, hr.data_eq, nodeSize] at hnode
    exact hf ⟨hr.data_eq, hpos, by omega⟩

/-!
## Heads
-/

section

variable (hr : Inside B data 9 r)
include hr

omit hmemory in
theorem safe_readField (w : Width) : Safe (ResultInside B data 1) (readField B r w) := by
  cases w with
  | one => exact safe_guarded hdata (readsWord_u8 B) hr (by decide) fun _ _ hr1 => hr1
  | two => exact safe_guarded hdata (readsWord_u16 B) hr (by decide) fun _ _ hr1 => hr1
  | four => exact safe_guarded hdata (readsWord_u32 B) hr (by decide) fun _ _ hr1 => hr1

theorem safe_readText (w : Width) {maxSize : Nat} (f : Bytes -> Head) :
    Safe (ResultInside B data 1) (readField B r w >>= fun x =>
      readPayload B maxSize x.2 x.1 >>= fun y => .ok (f y.1, y.2)) :=
  (safe_readField hdata hr w).bind fun _ hr1 =>
    (safe_readPayload hdata hmemory hr1).bind fun _ hr2 => hr2

omit hmemory in
theorem safe_readCount (w : Width) (f : Nat -> Head) :
    Safe (ResultInside B data 1) (readField B r w >>= fun x => .ok (f x.1, x.2)) :=
  (safe_readField hdata hr w).bind fun _ hr1 => hr1

theorem safe_readBehind (widen : UInt32 -> UInt64) (b : UInt8) :
    Safe (ResultInside B data 1) (readBehind B widen b r) := by
  have hr' : Inside B data 1 r := ⟨hr.data_eq, hr.pos_le, by have := hr.room; omega⟩
  have hok : forall head : Head, Safe (ResultInside B data 1) (.ok (head, r)) := fun _ => hr'
  have hbin : forall w, Safe (ResultInside B data 1) (readBin B r w) :=
    fun w => safe_readText hdata hmemory hr w fun s => .leaf (.binary s)
  have hstr : forall w, Safe (ResultInside B data 1) (readStr B r w) :=
    fun w => safe_readText hdata hmemory hr w fun s => .leaf (.string s)
  have hcount := safe_readCount hdata hr
  have huint : forall w, Safe (ResultInside B data 1) (readUint B r w) :=
    fun w => hcount w fun v => .leaf (.int (Int64.ofNat v))
  have hu32 := fun f : UInt32 -> Head => safe_guarded hdata (readsWord_u32 B) hr (j := 1)
    (J := ResultInside B data 1) (f := fun x => .ok (f x.1, x.2)) (by decide) fun _ _ hr1 => hr1
  have hu64 := fun f : UInt64 -> Head => safe_guarded hdata (readsWord_u64 B) hr (j := 1)
    (J := ResultInside B data 1) (f := fun x => .ok (f x.1, x.2)) (by decide) fun _ _ hr1 => hr1
  have hint64 : Safe (ResultInside B data 1) (readInt64 B r) :=
    hu64 fun v => .leaf (.int v.toInt64)
  -- The branches in source order.
  refine safe_ite (hok _) (safe_ite (hok _) (safe_ite (hok _)
    (safe_ite (hok _) (safe_ite ?fixstr ?switch))))
  case fixstr => exact (safe_readPayload hdata hmemory hr').bind fun _ hr2 => hr2
  refine safe_ite (hok _) (safe_ite trivial (safe_ite (hok _)
    (safe_ite (hok _) (safe_ite (hbin _) (safe_ite (hbin _)
      (safe_ite (hbin _) (safe_ite trivial
        (safe_ite (hu32 fun v => .leaf (.float (widen v)))
          (safe_ite (hu64 fun v => .leaf (.float v)) ?integers)))))))))
  refine safe_ite (huint _) (safe_ite (huint _) (safe_ite (huint _)
    (safe_ite hint64 (safe_ite ?int8 (safe_ite ?int16
      (safe_ite (hu32 fun v => .leaf (.int v.toInt32.toInt64))
        (safe_ite hint64 (safe_ite trivial ?rest))))))))
  case int8 => exact safe_guarded hdata (readsWord_u8 B) hr (by decide) fun _ _ hr1 => hr1
  case int16 => exact safe_guarded hdata (readsWord_u16 B) hr (by decide) fun _ _ hr1 => hr1
  exact safe_ite (hstr _) (safe_ite (hstr _) (safe_ite (hstr _)
    (safe_ite (hcount _ _) (safe_ite (hcount _ _) (safe_ite (hcount _ _)
      (safe_ite (hcount _ _) trivial))))))

end

theorem safe_readHead (widen : UInt32 -> UInt64) (hr : Inside B data 10 r) :
    Safe (ResultInside B data 1) (readHead B widen r) :=
  safe_guarded hdata (readsWord_u8 B) hr (by decide) fun b _ hr1 =>
    safe_readBehind hdata hmemory hr1 widen b

/-!
## Containers and nodes
-/

section

variable {child : Reader -> Outcome (DataNode × Reader)}
variable (hchild : forall r, Inside B data 10 r -> Safe (ResultInside B data 10) (child r))
include hchild

omit hdata hmemory in
theorem safe_entriesLoop {K : Type} [DecidableEq K] (keyOf : DataNode -> Option K) (count : Nat)
    (acc : List (K × DataNode)) (hr : Inside B data 10 r) :
    Safe (ResultInside B data 10) (entriesLoop child keyOf count acc r) := by
  induction count generalizing acc r with
  | zero => exact hr
  | succ count ih =>
    refine (hchild r hr).bind ?_
    rintro ⟨keyNode, r1⟩ hr1
    dsimp only
    cases keyOf keyNode with
    | none => trivial
    | some key => exact (hchild r1 hr1).bind fun _ hr2 => ih _ hr2

omit hdata hmemory in
theorem safe_readElems (count : Nat) (acc : List DataNode) (hr : Inside B data 10 r) :
    Safe (ResultInside B data 10) (readElems child count acc r) := by
  induction count generalizing acc r with
  | zero => exact hr
  | succ count ih => exact (hchild r hr).bind fun _ hr1 => ih _ hr1

theorem safe_readMap (maxElements count : Nat) (hr : Inside B data 1 r) :
    Safe (ResultInside B data 10) (readMap child B maxElements count r) := by
  refine safe_ite (safe_allocNode hmemory hr fun hr1 => hr1) (safe_ite trivial ?_)
  rcases require_cases (n := 1) hdata hr hr.room with hnull | ⟨bs, hlen, hahead, hok⟩
  · rw [hnull]
    trivial
  rcases length_eq_one_iff.mp hlen with ⟨b, rfl⟩
  have hpeek : r.byteAt B 0 = .ok b :=
    byteAt_of_ahead (p := []) (by rw [hr.data_eq]; exact hdata) hahead
  rw [hok, hpeek]
  refine safe_ite trivial (safe_ite ?_ ?_)
  · refine safe_allocNode hmemory hr fun hr1 => ?_
    rw [readIntEntries_eq]
    exact (safe_entriesLoop hchild intKeyOf count [] hr1).bind fun _ hr2 => hr2
  · refine safe_allocNode hmemory hr fun hr1 => ?_
    rw [readStrEntries_eq]
    exact (safe_entriesLoop hchild strKeyOf count [] hr1).bind fun _ hr2 => hr2

omit hdata in
theorem safe_readArray (maxElements count : Nat) (hr : Inside B data 1 r) :
    Safe (ResultInside B data 10) (readArray child B maxElements count r) :=
  safe_ite trivial (safe_allocNode hmemory hr fun hr1 =>
    (safe_readElems hchild count [] hr1).bind fun _ hr2 => hr2)

end

theorem safe_readNode (widen : UInt32 -> UInt64) (maxElements levels : Nat)
    (hr : Inside B data 10 r) :
    Safe (ResultInside B data 10) (readNode B widen maxElements levels r) := by
  induction levels generalizing r with
  | zero => trivial
  | succ levels ih =>
    refine (safe_readHead hdata hmemory widen hr).bind ?_
    rintro ⟨head, r1⟩ hr1
    cases head with
    | leaf node => exact safe_allocNode hmemory hr1 fun hr2 => hr2
    | map count => exact safe_readMap hdata hmemory (fun r hr => ih hr) maxElements count hr1
    | array count => exact safe_readArray hmemory (fun r hr => ih hr) maxElements count hr1

end

end

/-!
## Staying inside the buffer
-/

/-- Every byte that the parser reads or copies is a byte of its buffer. -/
def StaysInside (B : Build) (widen : UInt32 -> UInt64) (maxElements : Nat) (data : Bytes) : Prop :=
  msgPackParse B widen maxElements data ≠ .fault

/-- The parser stays inside every buffer that `size_t` can count, since `size_t` counts the
bytes of memory as well. -/
theorem msgPackParse_staysInside {B : Build} (hwidth : B.width = 32 ∨ B.width = 64)
    (hmemory : B.memory < 2 ^ B.width) (widen : UInt32 -> UInt64) (maxElements : Nat)
    {data : Bytes} (hdata : data.length < 2 ^ B.width) : StaysInside B widen maxElements data := by
  have hstart : Inside B data 10 ⟨data, 0⟩ := by
    refine ⟨rfl, Nat.zero_le _, ?_⟩
    change 10 < 2 ^ B.width
    rcases hwidth with hw | hw <;> rw [hw] <;> decide
  have hsafe : Safe (fun _ => True) (msgPackParse B widen maxElements data) :=
    safe_ite trivial ((safe_readNode hdata hmemory widen maxElements (kMaxDepth + 1) hstart).bind
      fun _ _ => safe_ite trivial trivial)
  intro hfault
  rw [hfault] at hsafe
  exact hsafe

/-- A string whose end wraps around. -/
theorem msgPackParse_staysInside_str32 :
    StaysInside x86 (fun bits => bits.toUInt64) 1000000 [0xdb, 0xff, 0xff, 0xff, 0xff] :=
  msgPackParse_staysInside (.inl rfl) (by decide) _ _ (by decide)

end Async2.MsgPack
