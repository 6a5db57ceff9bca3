import Async2.MsgPack.Sound

/-!
# The accepted language

A build that can hold a buffer accepts it exactly when it is one encoding of a
node.
-/

namespace Async2.MsgPack

variable {B : Build} {widen : UInt32 -> UInt64} {maxElements : Nat} {data : Bytes}

theorem msgPackParse_ok_iff (hdata : B.Holds data.length) (node : DataNode) :
    msgPackParse B widen maxElements data = .ok node <->
      Encodes widen maxElements (kMaxDepth + 1) data node :=
  ⟨encodes_of_msgPackParse hdata.positions, msgPackParse_of_encodes hdata⟩

theorem exists_holds (n : Nat) : exists B : Build, B.Holds n := by
  refine ⟨⟨n, n, n, n + n + nodeSize⟩, Nat.lt_two_pow_self, Nat.min_le_left _ _,
    Nat.min_le_left _ _, ?_, ?_⟩ <;> dsimp only <;> omega

theorem encodes_isPrefix {levels : Nat} {p : Bytes} {node node' : DataNode}
    (h : Encodes widen maxElements levels data node)
    (hp : Encodes widen maxElements levels p node') (hinit : p <+: data) :
    p = data ∧ node' = node := by
  -- Both lie ahead of one reader, which consumes the bytes of either one.
  rcases exists_holds data.length with ⟨B, hholds⟩
  have hreads := readsBack_readNode B widen maxElements levels
  have hall := hreads ⟨data, 0⟩ data node hholds h ⟨Nat.zero_le _, by simp⟩
  have hpart := hreads ⟨data, 0⟩ p node' hholds hp ⟨Nat.zero_le _, by simpa using hinit⟩
  rw [hall] at hpart
  have heq : node = node' ∧ data.length = p.length := by
    simpa [Reader.skip] using hpart
  exact ⟨hinit.eq_of_length heq.2.symm, heq.1.symm⟩

/-- The parser of a 64-bit build, where strings and vectors hold every 32-bit length, returns
a tree exactly when the buffer encodes it with no bytes left over, so no proper initial part
of an accepted buffer is accepted.  The memory beside the buffer is not used up. -/
theorem msgPackParse_accepts {B : Build} (hwidth : B.width = 64) (hstring : 2 ^ 32 <= B.maxString)
    (hvector : 2 ^ 32 <= B.maxVector) (widen : UInt32 -> UInt64) (maxElements : Nat)
    {data : Bytes} (hdata : data.length < 2 ^ 64) (hmemory : data.length + 2 ^ 32 <= B.memory) :
    (forall node, msgPackParse B widen maxElements data = .ok node <->
      Encodes widen maxElements (kMaxDepth + 1) data node) ∧
    (forall p node node', p <+: data ->
      msgPackParse B widen maxElements data = .ok node ->
      msgPackParse B widen maxElements p = .ok node' -> p = data) := by
  have hholds : forall n, n <= data.length -> B.Holds n := by
    intro n hn
    refine ⟨?_, by omega, by omega, by omega, by unfold nodeSize; omega⟩
    rw [hwidth]
    omega
  have haccepts := hholds data.length (Nat.le_refl _)
  refine ⟨msgPackParse_ok_iff haccepts, ?_⟩
  intro p node node' hinit hall hpart
  exact (encodes_isPrefix ((msgPackParse_ok_iff haccepts node).mp hall)
    ((msgPackParse_ok_iff (hholds _ hinit.length_le) node').mp hpart) hinit).1

/-- A map with one repeated key is one of the accepted buffers. -/
theorem msgPackParse_accepts_repeated_key :
    Encodes (fun bits => bits.toUInt64) 1000000 (kMaxDepth + 1)
      [0x82, 0xa1, 0x61, 0x01, 0xa1, 0x61, 0xff] (.object [([0x61], .int (-1))]) :=
  ((msgPackParse_accepts (B := x64) rfl (by decide) (by decide) _ _ (by decide) (by decide)).1
    _).mp rfl

end Async2.MsgPack
