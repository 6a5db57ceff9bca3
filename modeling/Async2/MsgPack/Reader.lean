import Async2.Data.Node

/-!
# The MessagePack cursor

`Reader` walks over a buffer with a position of type `size_t`.  Its only guard
is `has`, which adds a length from the input to the position in `size_t`
arithmetic, so that the sum may wrap around.  What is read depends on the build:
on the width of `size_t`, on how long the strings and vectors are that the
standard library makes, and on what memory there is for them beside the buffer.
-/

namespace Async2.MsgPack

open List

/-- A build: the width of `size_t`, the `max_size` of a `std::string` and of a
`std::vector<uint8_t>`, and how many bytes a buffer and an object that is made from
it can take together. -/
structure Build where
  width : Nat
  maxString : Nat
  maxVector : Nat
  memory : Nat

/-- The 32-bit and the 64-bit build for x86, with the limits of libstdc++.  Nothing
lies at the null address. -/
def x86 : Build := ⟨32, 2 ^ 30 - 1, 2 ^ 31 - 1, 2 ^ 32 - 1⟩

def x64 : Build := ⟨64, 2 ^ 62 - 1, 2 ^ 63 - 1, 2 ^ 64 - 1⟩

/-- Sums of sizes wrap around. -/
def Build.add (B : Build) (a b : Nat) : Nat := (a + b) % 2 ^ B.width

theorem Build.add_of_lt {B : Build} {a b : Nat} (h : a + b < 2 ^ B.width) : B.add a b = a + b :=
  Nat.mod_eq_of_lt h

/-- What a `DataNode` takes at least: its type and version, its reference count and a
64-bit number. -/
def nodeSize : Nat := 16

/-- The build can read a buffer of `n` bytes: positions do not wrap around, strings and
vectors are as long as the payloads of the buffer may be, and there is memory for
these and for nodes. -/
structure Build.Holds (B : Build) (n : Nat) : Prop where
  positions : n < 2 ^ B.width
  strings : min n (2 ^ 32 - 1) <= B.maxString
  vectors : min n (2 ^ 32 - 1) <= B.maxVector
  payloads : n + min n (2 ^ 32 - 1) <= B.memory
  nodes : n + nodeSize <= B.memory

/-!
## Outcomes
-/

/-- What a read can end in.  `fault` is a byte outside the buffer that is read or
copied, `thrown` is `std::length_error` of a string or vector that would be longer
than it can be or `std::bad_alloc` where there is no memory, and `null` is the null
pointer that the source returns for malformed input. -/
inductive Outcome (α : Type) where
  | fault
  | thrown
  | null
  | ok (value : α)

namespace Outcome

def bind {α β : Type} : Outcome α -> (α -> Outcome β) -> Outcome β
  | .fault, _ => .fault
  | .thrown, _ => .thrown
  | .null, _ => .null
  | .ok a, f => f a

instance : Monad Outcome where
  pure := .ok
  bind := Outcome.bind

variable {α β : Type}

@[simp] theorem fault_bind (f : α -> Outcome β) : (.fault >>= f) = .fault := rfl

@[simp] theorem thrown_bind (f : α -> Outcome β) : (.thrown >>= f) = .thrown := rfl

@[simp] theorem null_bind (f : α -> Outcome β) : (.null >>= f) = .null := rfl

@[simp] theorem ok_bind (a : α) (f : α -> Outcome β) : (.ok a >>= f) = f a := rfl

theorem bind_eq_ok {x : Outcome α} {f : α -> Outcome β} {b : β} :
    (x >>= f) = .ok b <-> exists a, x = .ok a ∧ f a = .ok b := by
  cases x with
  | ok a => simp
  | _ => simp

end Outcome

/-!
## Reading bytes
-/

/-- A buffer and the position of the next byte. -/
structure Reader where
  data : Bytes
  pos : Nat

namespace Reader

variable (B : Build) (r : Reader)

def len : Nat := r.data.length

/-- `pos + n <= len`, in size arithmetic. -/
def has (n : Nat) : Bool := decide (B.add r.pos n <= r.len)

/-- The guard `if (!r.has(n)) return nullptr`. -/
def require (n : Nat) : Outcome Unit := if r.has B n then .ok () else .null

/-- The byte `data[pos + k]`. -/
def byteAt (k : Nat) : Outcome UInt8 :=
  match r.data[B.add r.pos k]? with
  | none => .fault
  | some b => .ok b

/-- The statement `pos += n`. -/
def advance (n : Nat) : Reader := { r with pos := B.add r.pos n }

def readU8 : Outcome (UInt8 × Reader) := do
  let v ← r.byteAt B 0
  return (v, r.advance B 1)

/-- Two bytes, the first one most significant. -/
def joinU16 (b0 b1 : UInt8) : UInt16 :=
  (b0.toUInt16 <<< 8) ||| b1.toUInt16

/-- Four bytes, the first one most significant. -/
def joinU32 (b0 b1 b2 b3 : UInt8) : UInt32 :=
  (b0.toUInt32 <<< 24) ||| (b1.toUInt32 <<< 16) |||
    (b2.toUInt32 <<< 8) ||| b3.toUInt32

/-- Two words, the first one most significant. -/
def joinU64 (hi lo : UInt32) : UInt64 :=
  (hi.toUInt64 <<< 32) ||| lo.toUInt64

def readU16 : Outcome (UInt16 × Reader) := do
  let b0 ← r.byteAt B 0
  let b1 ← r.byteAt B 1
  return (joinU16 b0 b1, r.advance B 2)

def readU32 : Outcome (UInt32 × Reader) := do
  let b0 ← r.byteAt B 0
  let b1 ← r.byteAt B 1
  let b2 ← r.byteAt B 2
  let b3 ← r.byteAt B 3
  return (joinU32 b0 b1 b2 b3, r.advance B 4)

def readU64 : Outcome (UInt64 × Reader) := do
  let (hi, r) ← r.readU32 B
  let (lo, r) ← r.readU32 B
  return (joinU64 hi lo, r)

/-- `read_bytes(n)` together with the copy that the new node makes of the range.
Before its string or vector copies, it checks the length against `maxSize` and takes
memory, which is not memory of the buffer. -/
def readBytes (maxSize n : Nat) : Outcome (Bytes × Reader) :=
  if maxSize < n ∨ B.memory < r.len + n then .thrown
  else if r.pos + n <= r.len then
    .ok ((r.data.drop r.pos).take n, r.advance B n)
  else .fault

/-- The place of a new node, beside the buffer. -/
def allocNode : Outcome Unit := if B.memory < r.len + nodeSize then .thrown else .ok ()

end Reader

/-!
## Reads that end inside the buffer

Sums up to the length of the buffer do not wrap around.  A read is described by
the bytes in front of it.
-/

/-- The bytes `bs` lie in front of the reader. -/
def Reader.Ahead (r : Reader) (bs : Bytes) : Prop :=
  r.pos <= r.data.length ∧ bs <+: r.data.drop r.pos

def Reader.skip (r : Reader) (n : Nat) : Reader := { r with pos := r.pos + n }

namespace Reader

variable {bs cs : Bytes}

@[simp] theorem skip_data (r : Reader) (n : Nat) : (r.skip n).data = r.data := rfl

@[simp] theorem skip_pos (r : Reader) (n : Nat) : (r.skip n).pos = r.pos + n := rfl

theorem skip_skip (r : Reader) (m n : Nat) : (r.skip m).skip n = r.skip (m + n) := by
  simp [skip, Nat.add_assoc]

@[simp] theorem skip_zero (r : Reader) : r.skip 0 = r := rfl

variable {B : Build} {r : Reader}

theorem Ahead.le (h : r.Ahead bs) : r.pos + bs.length <= r.data.length := by
  have hlen := h.right.length_le
  have hpos := h.left
  rw [length_drop] at hlen
  omega

theorem Ahead.left (h : r.Ahead (bs ++ cs)) : r.Ahead bs :=
  ⟨h.1, (prefix_append bs cs).trans h.2⟩

theorem Ahead.skip (h : r.Ahead (bs ++ cs)) : (r.skip bs.length).Ahead cs := by
  refine ⟨h.left.le, ?_⟩
  obtain ⟨tail, htail⟩ := h.2
  refine ⟨tail, ?_⟩
  rw [skip_data, skip_pos, ← drop_drop, ← htail, append_assoc, drop_left]

theorem ahead_append (hb : r.Ahead bs) (hc : (r.skip bs.length).Ahead cs) : r.Ahead (bs ++ cs) := by
  refine ⟨hb.1, ?_⟩
  obtain ⟨tail, htail⟩ := hb.2
  have hcs := hc.2
  rw [skip_data, skip_pos, ← drop_drop, ← htail, drop_left] at hcs
  rw [← htail]
  exact (prefix_append_right_inj bs).mpr hcs

theorem exists_ahead {n : Nat} (h : r.pos + n <= r.data.length) :
    exists bs : Bytes, bs.length = n ∧ r.Ahead bs := by
  refine ⟨(r.data.drop r.pos).take n, ?_, by omega, take_prefix _ _⟩
  rw [length_take, length_drop]
  omega

variable (hdata : r.data.length < 2 ^ B.width)
include hdata

variable {bs : Bytes} {b b0 b1 b2 b3 : UInt8}

theorem add_of_ahead (h : r.Ahead bs) : B.add r.pos bs.length = r.pos + bs.length :=
  Build.add_of_lt (Nat.lt_of_le_of_lt h.le hdata)

theorem require_of_ahead (h : r.Ahead bs) : r.require B bs.length = .ok () := by
  simp [require, has, add_of_ahead hdata h, len, h.le]

theorem advance_of_ahead (h : r.Ahead bs) : r.advance B bs.length = r.skip bs.length := by
  rw [advance, add_of_ahead hdata h]
  rfl

theorem byteAt_of_ahead {p cs : Bytes} (h : r.Ahead (p ++ b :: cs)) :
    r.byteAt B p.length = .ok b := by
  rcases h.2 with ⟨tail, htail⟩
  have hget : r.data[r.pos + p.length]? = some b := by
    rw [← List.getElem?_drop, ← htail, append_assoc,
      List.getElem?_append_right (Nat.le_refl _), Nat.sub_self]
    rfl
  simp [byteAt, add_of_ahead hdata h.left, hget]

theorem readU8_of_ahead (h : r.Ahead [b]) : r.readU8 B = .ok (b, r.skip 1) := by
  have hbyte := byteAt_of_ahead hdata (p := []) h
  have hadv := advance_of_ahead hdata h
  simp only [length_nil, length_cons, Nat.zero_add] at hbyte hadv
  simp [readU8, hbyte, hadv, pure]

theorem readU16_of_ahead (h : r.Ahead [b0, b1]) : r.readU16 B = .ok (joinU16 b0 b1, r.skip 2) := by
  have h0 := byteAt_of_ahead hdata (p := []) h
  have h1 := byteAt_of_ahead hdata (p := [b0]) h
  have hadv := advance_of_ahead hdata h
  simp only [length_nil, length_cons, Nat.zero_add] at h0 h1 hadv
  simp [readU16, h0, h1, hadv, pure]

theorem readU32_of_ahead (h : r.Ahead [b0, b1, b2, b3]) :
    r.readU32 B = .ok (joinU32 b0 b1 b2 b3, r.skip 4) := by
  have h0 := byteAt_of_ahead hdata (p := []) h
  have h1 := byteAt_of_ahead hdata (p := [b0]) h
  have h2 := byteAt_of_ahead hdata (p := [b0, b1]) h
  have h3 := byteAt_of_ahead hdata (p := [b0, b1, b2]) h
  have hadv := advance_of_ahead hdata h
  simp only [length_nil, length_cons, Nat.zero_add, Nat.reduceAdd]
    at h0 h1 h2 h3 hadv
  simp [readU32, h0, h1, h2, h3, hadv, pure]

theorem readU64_of_ahead {b4 b5 b6 b7 : UInt8} (h : r.Ahead [b0, b1, b2, b3, b4, b5, b6, b7]) :
    r.readU64 B = .ok (joinU64 (joinU32 b0 b1 b2 b3) (joinU32 b4 b5 b6 b7), r.skip 8) := by
  have hsplit : r.Ahead ([b0, b1, b2, b3] ++ [b4, b5, b6, b7]) := h
  have hhi := readU32_of_ahead hdata hsplit.left
  have hlo := readU32_of_ahead (r := r.skip 4) hdata hsplit.skip
  simp [readU64, hhi, hlo, skip_skip, pure]

theorem readBytes_of_ahead {maxSize : Nat} (hsize : bs.length <= maxSize)
    (hmemory : r.data.length + bs.length <= B.memory) (h : r.Ahead bs) :
    r.readBytes B maxSize bs.length = .ok (bs, r.skip bs.length) := by
  rcases h.2 with ⟨tail, htail⟩
  have hthrows : ¬(maxSize < bs.length ∨ B.memory < r.len + bs.length) :=
    not_or.mpr ⟨Nat.not_lt.mpr hsize, Nat.not_lt.mpr hmemory⟩
  rw [readBytes, if_neg hthrows, len, if_pos h.le, advance_of_ahead hdata h, ← htail, take_left]

omit hdata in
theorem allocNode_of_holds (hholds : B.Holds r.data.length) : r.allocNode B = .ok () :=
  if_neg (Nat.not_lt.mpr hholds.nodes)

/-!
## Reads behind the end

The first byte that is missing is the one right behind the buffer.
-/

theorem byteAt_end {k : Nat} (hk : r.pos + k = r.data.length) : r.byteAt B k = .fault := by
  rw [byteAt, Build.add_of_lt (by omega), hk, List.getElem?_eq_none (Nat.le_refl _)]

theorem byteAt_inside {k : Nat} (hk : r.pos + k < r.data.length) :
    exists b, r.byteAt B k = .ok b := by
  refine ⟨r.data[r.pos + k], ?_⟩
  rw [byteAt, Build.add_of_lt (by omega), List.getElem?_eq_getElem hk]

variable (hpos : r.pos <= r.data.length)
include hpos

theorem readU8_fault (hout : r.data.length < r.pos + 1) : r.readU8 B = .fault := by
  simp [readU8, byteAt_end (k := 0) hdata (by omega)]

theorem readU16_fault (hout : r.data.length < r.pos + 2) : r.readU16 B = .fault := by
  by_cases h0 : r.pos + 0 = r.data.length
  · simp [readU16, byteAt_end hdata h0]
  rcases byteAt_inside (k := 0) hdata (by omega) with ⟨b0, hb0⟩
  have h1 : r.pos + 1 = r.data.length := by omega
  simp [readU16, hb0, byteAt_end hdata h1]

theorem readU32_fault (hout : r.data.length < r.pos + 4) : r.readU32 B = .fault := by
  by_cases h0 : r.pos + 0 = r.data.length
  · simp [readU32, byteAt_end hdata h0]
  rcases byteAt_inside (k := 0) hdata (by omega) with ⟨b0, hb0⟩
  by_cases h1 : r.pos + 1 = r.data.length
  · simp [readU32, hb0, byteAt_end hdata h1]
  rcases byteAt_inside (k := 1) hdata (by omega) with ⟨b1, hb1⟩
  by_cases h2 : r.pos + 2 = r.data.length
  · simp [readU32, hb0, hb1, byteAt_end hdata h2]
  rcases byteAt_inside (k := 2) hdata (by omega) with ⟨b2, hb2⟩
  have h3 : r.pos + 3 = r.data.length := by omega
  simp [readU32, hb0, hb1, hb2, byteAt_end hdata h3]

theorem readU64_fault (hout : r.data.length < r.pos + 8) : r.readU64 B = .fault := by
  unfold readU64
  by_cases hfirst : r.data.length < r.pos + 4
  · rw [readU32_fault hdata hpos hfirst]
    rfl
  rcases exists_ahead (r := r) (n := 4) (by omega) with ⟨bs, hlen, hahead⟩
  rcases length_eq_four.mp hlen with ⟨b0, b1, b2, b3, rfl⟩
  have hlo := readU32_fault (r := r.skip 4) hdata hahead.le (by rw [skip_pos, skip_data]; omega)
  rw [readU32_of_ahead hdata hahead]
  simp [hlo]

end Reader
end Async2.MsgPack
