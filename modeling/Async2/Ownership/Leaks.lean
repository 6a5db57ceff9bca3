import Async2.Hjson.OnHeap
import Async2.Hjson.Slices
import Async2.Json.OnHeap
import Async2.MsgPack.OnHeap

/-!
# What the parsers leave behind

A parser leaks nothing if the nodes that it made and that are still there are those below
the root that it returns.  The HJSON and the MessagePack parser leak nothing, whatever the
input is.  The JSON parser does as long as no object repeats a key in the part of the
document that is read; every value under a repeated key is lost.
-/

namespace Async2.Ownership

open RefCount.Heap List Option Hjson.OnHeap

/-- The nodes made since `h0` that are still there are those below the returned root, each
with a single reference and, but for the root, in a single slot. -/
def LeaksNothing (h0 : NodeHeap) (root : Option Nat) (h : NodeHeap) : Prop :=
  (forall x, h0.next <= x ∧ h.cell x ≠ none <-> exists r, root = some r ∧ h.Reach r x) ∧
    forall x, h0.next <= x -> h.cell x ≠ none ->
      h.refcountOf x = 1 ∧ (root ≠ some x -> h.incoming x = 1)

section

variable {h0 h : NodeHeap} {ext lost : List Nat} {root : Option Nat}

theorem Settled.cell_iff (hsettled : Settled h) (x : Nat) :
    h.cell x ≠ none <-> h.refcountOf x ≠ 0 := by
  unfold refcountOf
  cases hc : h.cell x with
  | none => exact ⟨fun hne => absurd rfl hne, fun hne => absurd rfl hne⟩
  | some c => exact ⟨fun _ => hsettled x c hc, fun _ => some_ne_none c⟩

variable (h1 : Counted ext h0)
include h1

theorem leaksNothing_iff (hbuilds : Builds h0 h)
    (hcounted : Counted (root.toList ++ (lost ++ ext)) h)
    (hroot : forall r, root = some r -> h0.next <= r) (hlost : forall x, x ∈ lost -> h0.next <= x) :
    LeaksNothing h0 root h <-> lost = [] := by
  have hout : forall x, x ∈ root.toList ++ lost -> h0.next <= x := by
    intro x hx
    rcases mem_append.mp hx with hx | hx
    · exact hroot x (mem_toList.mp hx)
    · exact hlost x hx
  have hexact : Exact ((root.toList ++ lost) ++ ext) h := by
    rw [append_assoc]
    exact hcounted.exact
  have howned := hbuilds.ownedBy h1.exact hexact hout
  constructor
  · -- A lost node is in no slot, and it is not the root, which has one reference only.
    rintro ⟨hreach, _⟩
    apply eq_nil_iff_forall_not_mem.mpr
    intro x hx
    have hmem : x ∈ root.toList ++ lost := mem_append_right _ hx
    have hlive : h.refcountOf x ≠ 0 := hexact.live_of_mem (mem_append_left ext hmem)
    have hcell := (Settled.cell_iff hcounted.settled x).mpr hlive
    rcases (hreach x).mp ⟨hlost x hx, hcell⟩ with ⟨r, hr, hpath⟩
    rcases Relation.ReflTransGen.cases_tail hpath with heq | ⟨a, _, hedge⟩
    · have hcount := hexact x
      have hsingle := howned.single x (hlost x hx) hlive
      have hpos := count_pos_iff.mpr hx
      rw [hr, heq, count_append, count_append] at hcount
      rw [heq] at hpos hsingle
      simp only [toList_some, count_singleton_self] at hcount
      omega
    · exact hbuilds.not_held hexact (hlost x hx) hmem a hedge
  · rintro rfl
    rw [append_nil] at howned hout
    constructor
    · intro x
      rw [Settled.cell_iff hcounted.settled x]
      constructor
      · rintro ⟨hx, hlive⟩
        rcases (howned.reached x hx).mp hlive with ⟨r, hr, hpath⟩
        exact ⟨r, mem_toList.mp hr, hpath⟩
      · rintro ⟨r, rfl, hpath⟩
        have hr : r ∈ (some r).toList := mem_singleton_self r
        have hx := (hout r hr).trans (hbuilds.reach_le (hout r hr) hpath)
        exact ⟨hx, (howned.reached x hx).mpr ⟨r, hr, hpath⟩⟩
    · intro x hx hcell
      have hlive := (Settled.cell_iff hcounted.settled x).mp hcell
      refine ⟨howned.single x hx hlive, fun hne => howned.parent x hx hlive ?_⟩
      exact fun hmem => hne (mem_toList.mp hmem)

theorem Built.leaksNothing {k a : Nat} {t : DataNode} (h2 : Built h0 ext k h a t) :
    LeaksNothing h0 (some a) h := by
  have hcounted : Counted ((some a).toList ++ ([] ++ ext)) h := h2.counted
  refine (leaksNothing_iff h1 h2.builds hcounted ?_ ?_).mpr rfl
  · intro r hr
    cases hr
    exact h2.fresh
  · exact fun x hx => absurd hx not_mem_nil

theorem Undone.leaksNothing (h2 : Undone h0 ext h) : LeaksNothing h0 none h := by
  have hcounted : Counted ((none : Option Nat).toList ++ ([] ++ ext)) h := h2.counted
  refine (leaksNothing_iff h1 h2.builds hcounted ?_ ?_).mpr rfl
  · exact fun r hr => nomatch hr
  · exact fun x hx => absurd hx not_mem_nil

end

/-!
## The three parsers
-/

def JsonLeaksNothing (iterate : Bytes -> Except String Json.OdValue) (data : Bytes)
    (h : NodeHeap) : Prop :=
  exists root h', Json.OnHeap.dataParseJson iterate data h = some (root, h') ∧
    LeaksNothing h root h'

/-- The HJSON parser returns and leaks nothing, or throws. -/
def HjsonLeaksNothing (avx2 : Bool) (data : Bytes) (h : NodeHeap) : Prop :=
  exists out h', Hjson.OnHeap.hjsonParse (Hjson.initScanner avx2) data h = some (out, h') ∧
    match out with
    | .ok root => LeaksNothing h (some root) h'
    | .null => LeaksNothing h none h'
    | .thrown => True
    | .stuck => False

/-- The MessagePack parser returns and leaks nothing, or throws, or reads outside of its
input. -/
def MsgPackLeaksNothing (B : MsgPack.Build) (widen : UInt32 -> UInt64)
    (maxElements : Nat) (data : Bytes) (h : NodeHeap) : Prop :=
  exists out h', MsgPack.OnHeap.msgPackParse B widen maxElements data h = some (out, h') ∧
    match out with
    | .ok root => LeaksNothing h (some root) h'
    | .null => LeaksNothing h none h'
    | .fault => True
    | .thrown => True

section

variable {h : NodeHeap} {ext : List Nat}

theorem jsonLeaksNothing_iff (iterate : Bytes -> Except String Json.OdValue) (data : Bytes)
    (hcounted : Counted ext h) :
    JsonLeaksNothing iterate data h <-> Json.OnHeap.textRepeatsKey iterate data = false := by
  rcases Json.OnHeap.makes_dataParseJson iterate data h ext hcounted
    with ⟨root, h', lost, hparse, hlost, hrepeats, hends⟩
  have hleaks : LeaksNothing h root h' <-> lost = [] := by
    generalize (Json.dataParseJson iterate data).1 = tree at hends
    cases tree with
    | some t =>
      cases root with
      | none => exact hends.elim
      | some a =>
        refine leaksNothing_iff hcounted hends.builds hends.counted ?_ hlost
        intro r hr
        cases hr
        exact hends.fresh
    | none =>
      cases root with
      | some a => exact hends.elim
      | none =>
        refine leaksNothing_iff hcounted hends.builds hends.counted ?_ hlost
        exact fun r hr => nomatch hr
  rw [← hrepeats, ← hleaks]
  unfold JsonLeaksNothing
  rw [hparse]
  constructor
  · rintro ⟨_, _, heq, hleak⟩
    cases heq
    exact hleak
  · intro hleak
    exact ⟨root, h', rfl, hleak⟩

theorem hjsonLeaksNothing (avx2 : Bool) (data : Bytes) (hcounted : Counted ext h) :
    HjsonLeaksNothing avx2 data h := by
  have hfollows := follows_parse (Hjson.initScanner avx2) data hcounted
  have hstuck := Hjson.hjsonParse_ne_stuck avx2 data
  unfold HjsonLeaksNothing hjsonParse
  unfold Hjson.hjsonParse at hstuck
  generalize Hjson.parse (Hjson.initScanner avx2) data = out at hfollows hstuck
  generalize parse (Hjson.initScanner avx2) data h = res at hfollows
  cases hfollows with
  | ok hbuilt => exact ⟨_, _, rfl, Built.leaksNothing hcounted hbuilt⟩
  | null hundone => exact ⟨_, _, rfl, Undone.leaksNothing hcounted hundone⟩
  | thrown r h' => exact ⟨_, _, rfl, trivial⟩
  | stuck r h' => exact absurd rfl hstuck

theorem msgPackLeaksNothing (B : MsgPack.Build) (widen : UInt32 -> UInt64) (maxElements : Nat)
    (data : Bytes) (hcounted : Counted ext h) : MsgPackLeaksNothing B widen maxElements data h := by
  have hfollows := MsgPack.OnHeap.follows_msgPackParse B widen maxElements data hcounted
  unfold MsgPackLeaksNothing
  generalize MsgPack.msgPackParse B widen maxElements data = out at hfollows
  generalize MsgPack.OnHeap.msgPackParse B widen maxElements data h = res at hfollows
  cases hfollows with
  | ok hbuilt => exact ⟨_, _, rfl, Built.leaksNothing hcounted hbuilt⟩
  | null hundone => exact ⟨_, _, rfl, Undone.leaksNothing hcounted hundone⟩
  | fault h' | thrown h' => exact ⟨_, _, rfl, trivial⟩

/-- On every heap with exact counts and for every input the parsers leak nothing, exactly
if no object of the JSON document repeats a key in the part that is read. -/
theorem parsers_leak_nothing_iff (iterate : Bytes -> Except String Json.OdValue)
    (avx2 : Bool) (B : MsgPack.Build) (widen : UInt32 -> UInt64) (maxElements : Nat)
    (data : Bytes) (hcounted : Counted ext h) :
    (JsonLeaksNothing iterate data h ∧ HjsonLeaksNothing avx2 data h ∧
        MsgPackLeaksNothing B widen maxElements data h) <->
      Json.OnHeap.textRepeatsKey iterate data = false := by
  constructor
  · rintro ⟨hjson, _, _⟩
    exact (jsonLeaksNothing_iff iterate data hcounted).mp hjson
  · intro hrepeats
    exact ⟨(jsonLeaksNothing_iff iterate data hcounted).mpr hrepeats,
      hjsonLeaksNothing avx2 data hcounted,
      msgPackLeaksNothing B widen maxElements data hcounted⟩

end

/-- The object with the given keys, each with the value null. -/
def nullsUnder (keys : List UInt8) : Json :=
  .obj (keys.map fun b => ([.raw b], .null))

/-- The text `{"a":null,"b":null}`. -/
def distinctText : Bytes :=
  ascii ['{', '"', 'a', '"', ':', 'n', 'u', 'l', 'l', ',', '"', 'b', '"', ':', 'n', 'u', 'l',
    'l', '}']

theorem distinctText_leaks_nothing :
    JsonLeaksNothing (fun _ => .ok (Json.reply (nullsUnder [97, 98]))) distinctText .empty ∧
      HjsonLeaksNothing true distinctText .empty ∧
      MsgPackLeaksNothing MsgPack.x64 (fun _ => 0) 1000000 distinctText .empty :=
  (parsers_leak_nothing_iff (fun _ => .ok (Json.reply (nullsUnder [97, 98]))) true
    MsgPack.x64 (fun _ => 0) 1000000 distinctText Counted.empty).mpr (by decide)

/-- The text `{"a":null,"a":null}`. -/
def repeatedText : Bytes :=
  ascii ['{', '"', 'a', '"', ':', 'n', 'u', 'l', 'l', ',', '"', 'a', '"', ':', 'n', 'u', 'l',
    'l', '}']

/-- The object is the node 0 and has the child 1.  The node 2, the value of the second
field, is not freed and in no slot. -/
theorem repeatedText_leaks :
    (exists h', Json.OnHeap.dataParseJson
        (fun _ => .ok (Json.reply (nullsUnder [97, 97]))) repeatedText .empty =
          some (some 0, h') ∧
      h'.held 0 = [1] ∧ h'.held 1 = [] ∧ h'.cell 2 = some ⟨1, ⟨0, .null⟩⟩) ∧
      ¬ JsonLeaksNothing (fun _ => .ok (Json.reply (nullsUnder [97, 97]))) repeatedText .empty := by
  constructor
  · exact ⟨_, rfl, rfl, rfl, rfl⟩
  · rw [jsonLeaksNothing_iff _ _ Counted.empty]
    decide

end Async2.Ownership
