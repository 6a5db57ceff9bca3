import Async2.Hjson.Parse
import Async2.Ownership.Tree

/-!
# The HJSON parser on the heap

The functions that read keys, strings, numbers and keywords do not touch nodes, so they are
those of the parser on trees.  A container is made before what it contains is read; when a
function fails, it releases the container that it is building.  An exception leaves the
nodes of all containers under construction behind, but then the parser does not return.
-/

namespace Async2.Hjson.OnHeap

open RefCount.Heap Ownership

/-!
## The parser
-/

/-- A reading function that returns a node. -/
abbrev NodeParser := Reader -> NodeHeap -> Option (Outcome Nat × Reader × NodeHeap)

/-- Give a node up and return a null pointer. -/
def giveUp (node : Nat) : NodeParser := fun r h => do
  let h ← h.release node
  return (.null, r, h)

/-- Go on with the result of a function that reads no node; the node under construction is
given up if there is none. -/
def readThen {α : Type} (node : Nat) (p : Parser α) (f : α -> NodeParser) : NodeParser :=
  fun r h =>
    match p r with
    | (.ok a, r) => f a r h
    | (.null, r) => giveUp node r h
    | (.thrown, r) => some (.thrown, r, h)
    | (.stuck, r) => some (.stuck, r, h)

/-- Go on with a child; the node under construction is given up if there is none. -/
def childThen (node : Nat) (p : NodeParser) (f : Nat -> NodeParser) : NodeParser :=
  fun r h => do
    match ← p r h with
    | (.ok a, r, h) => f a r h
    | (.null, r, h) => giveUp node r h
    | (.thrown, r, h) => return (.thrown, r, h)
    | (.stuck, r, h) => return (.stuck, r, h)

/-- Go on with a node that was read. -/
def nodeThen (p : NodeParser) (f : Nat -> NodeParser) : NodeParser := fun r h => do
  match ← p r h with
  | (.ok a, r, h) => f a r h
  | failed => return failed

/-- Make the node of a scalar that is read. -/
def makeScalar (p : Parser DataNode) : NodeParser := fun r h =>
  match p r with
  | (.ok t, r) =>
    let (a, h) := makeNode (scalarContent t) h
    some (.ok a, r, h)
  | (.null, r) => some (.null, r, h)
  | (.thrown, r) => some (.thrown, r, h)
  | (.stuck, r) => some (.stuck, r, h)

section

variable (S : Scanner) (readChild : NodeParser)

def objectLoop (obj : Nat) (braced : Bool) : Nat -> NodeParser
  | 0, r, h => some (.stuck, r, h)
  | fuel + 1, r, h =>
    if r.pos < r.len ∧ ¬(braced = true ∧ r.peek = byte '}') then
      readThen obj (readKey S) (fun key r h =>
        let r := skipWs S r
        if r.peek ≠ byte ':' then giveUp obj r h
        else
          childThen obj readChild (fun val r h => do
            let h ← objInsert h obj key val
            objectLoop obj braced fuel (skipSeparator S r) h) (skipWs S (r.advance 1)) h) r h
    else some (.ok obj, r, h)

def closeObject (braced : Bool) (obj : Nat) : NodeParser := fun r h =>
  if braced then
    if r.len <= r.pos ∨ r.peek ≠ byte '}' then giveUp obj r h
    else some (.ok obj, r.advance 1, h)
  else some (.ok obj, r, h)

def readObject (braced : Bool) : NodeParser := fun r h =>
  let (obj, h) := makeNode (.object .empty) h
  nodeThen (objectLoop S readChild obj braced (r.len + 1)) (closeObject braced) (skipWs S r) h

def arrayLoop (arr : Nat) : Nat -> NodeParser
  | 0, r, h => some (.stuck, r, h)
  | fuel + 1, r, h =>
    if r.pos < r.len ∧ r.peek ≠ byte ']' then
      childThen arr readChild (fun val r h => do
        let h ← arrPush h arr val
        arrayLoop arr fuel (skipSeparator S r) h) r h
    else some (.ok arr, r, h)

def closeArray (arr : Nat) : NodeParser := fun r h =>
  if r.len <= r.pos ∨ r.peek ≠ byte ']' then giveUp arr r h
  else some (.ok arr, r.advance 1, h)

def readArray : NodeParser := fun r h =>
  let (arr, h) := makeNode (.array []) h
  nodeThen (arrayLoop S readChild arr (r.len + 1)) closeArray (skipWs S r) h

end

section

variable (S : Scanner)

def readValue : Nat -> NodeParser
  | 0, r, h => some (.null, r, h)
  | levels + 1, r, h =>
    let r := skipWs S r
    if r.len <= r.pos then some (.null, r, h)
    else if r.peek = byte '{' then
      readObject S (readValue levels) true (r.advance 1) h
    else if r.peek = byte '[' then readArray S (readValue levels) (r.advance 1) h
    else if inClass r.peek ccQuote then
      makeScalar ((readQuotedString S true).andThen fun s r => (.ok (.string s), r)) r h
    else makeScalar readUnquotedValue r h

def atEnd (val : Nat) : NodeParser := fun r h =>
  let r := skipWs S r
  if r.pos < r.len then giveUp val r h else some (.ok val, r, h)

def readBraceless : NodeParser := fun r h => do
  match ← nodeThen (readObject S (readValue S maxDepth) false) (atEnd S) r h with
  | (.null, r, h) =>
    nodeThen (readValue S (maxDepth + 1)) (atEnd S) (skipWs S { r with pos := 0 }) h
  | done => return done

def parse (data : Bytes) (h : NodeHeap) : Option (Outcome Nat × Reader × NodeHeap) :=
  let r : Reader := ⟨data, 0, []⟩
  if r.len = 0 then some (.null, r, h)
  else
    let r := skipWs S r
    if r.len <= r.pos then some (.null, r, h)
    else if r.peek = byte '[' ∨ r.peek = byte '{' then
      nodeThen (readValue S (maxDepth + 1)) (atEnd S) r h
    else readBraceless S r h

def hjsonParse (data : Bytes) (h : NodeHeap) : Option (Outcome Nat × NodeHeap) := do
  let (out, _, h) ← parse S data h
  return (out, h)

end

/-!
## The parser on the heap follows the parser on trees
-/

/-- The outcomes on the heap that belong to an outcome on trees. -/
inductive Follows {α : Type} (h0 : NodeHeap) (ext : List Nat) (k : Nat)
    (tree : α -> DataNode) :
    Outcome α × Reader -> Option (Outcome Nat × Reader × NodeHeap) -> Prop
  | ok {x : α} {r : Reader} {a : Nat} {h : NodeHeap} (hbuilt : Built h0 ext k h a (tree x)) :
      Follows h0 ext k tree (.ok x, r) (some (.ok a, r, h))
  | null {r : Reader} {h : NodeHeap} (hundone : Undone h0 ext h) :
      Follows h0 ext k tree (.null, r) (some (.null, r, h))
  | thrown (r : Reader) (h : NodeHeap) :
      Follows h0 ext k tree (.thrown, r) (some (.thrown, r, h))
  | stuck (r : Reader) (h : NodeHeap) :
      Follows h0 ext k tree (.stuck, r) (some (.stuck, r, h))

variable {h0 h : NodeHeap} {ext : List Nat} {k n : Nat} {t : DataNode}

section

variable {α β : Type} {tree : α -> DataNode} {tree' : β -> DataNode} {r : Reader} {k' : Nat}
variable {g : Nat -> NodeParser} {q : NodeParser} {p : Parser β} {f : β -> Parser α}

section

variable (h1 : Built h0 ext k h n t)
include h1

theorem follows_giveUp (r : Reader) {h' : NodeHeap} (h2 : Undone h (n :: ext) h') :
    Follows h0 ext k' tree (.null, r) (giveUp n r h') := by
  rcases h1.undo_after h2 with ⟨h'', hrel, hundone⟩
  unfold giveUp
  rw [hrel]
  exact .null hundone

theorem follows_giveUp_self (r : Reader) : Follows h0 ext k' tree (.null, r) (giveUp n r h) :=
  follows_giveUp h1 r (Undone.refl h1.counted)

theorem follows_readThen {g : β -> NodeParser}
    (hf : forall x r, Follows h0 ext k' tree (f x r) (g x r h)) :
    Follows h0 ext k' tree (p.andThen f r) (readThen n p g r h) := by
  unfold Parser.andThen readThen
  rcases p r with ⟨out, r'⟩
  cases out with
  | ok x => exact hf x r'
  | null => exact follows_giveUp_self h1 r'
  | thrown => exact .thrown r' h
  | stuck => exact .stuck r' h

end

theorem follows_childThen (h1 : Built h0 ext (k + 1) h n t)
    (hchild : Follows h (n :: ext) k tree' (p r) (q r h))
    (hf : forall x r a h', Built h (n :: ext) k h' a (tree' x) ->
      Follows h0 ext (k + 1) tree (f x r) (g a r h')) :
    Follows h0 ext (k + 1) tree (p.andThen f r) (childThen n q g r h) := by
  unfold Parser.andThen childThen
  generalize p r = out at hchild
  generalize q r h = res at hchild
  cases hchild with
  | ok hbuilt => exact hf _ _ _ _ hbuilt
  | null hundone => exact follows_giveUp h1 _ hundone
  | thrown r' h' => exact .thrown r' h'
  | stuck r' h' => exact .stuck r' h'

theorem follows_nodeThen (hp : Follows h0 ext k tree' (p r) (q r h))
    (hf : forall x r a h', Built h0 ext k h' a (tree' x) ->
      Follows h0 ext k' tree (f x r) (g a r h')) :
    Follows h0 ext k' tree (p.andThen f r) (nodeThen q g r h) := by
  unfold Parser.andThen nodeThen
  generalize p r = out at hp
  generalize q r h = res at hp
  cases hp with
  | ok hbuilt => exact hf _ _ _ _ hbuilt
  | null hundone => exact .null hundone
  | thrown r' h' => exact .thrown r' h'
  | stuck r' h' => exact .stuck r' h'

end

/-!
### Scalars
-/

def ReadsScalars (p : Parser DataNode) : Prop := forall r t, (p r).1 = .ok t -> IsScalar t

variable {buf : Bytes} {len : Nat}

theorem follows_makeScalar {p : Parser DataNode} (hp : ReadsScalars p) (k : Nat)
    (hcounted : Counted ext h) (r : Reader) :
    Follows h ext (k + 1) id (p r) (makeScalar p r h) := by
  unfold makeScalar
  have hscalar := hp r
  generalize p r = res at hscalar
  rcases res with ⟨out, r'⟩
  cases out with
  | ok t =>
    have hmade := built_makeNode (k := k) hcounted (children_scalarContent t)
      (shows_scalarContent (hscalar t rfl))
    exact .ok hmade
  | null => exact .null (Undone.refl hcounted)
  | thrown => exact .thrown r' h
  | stuck => exact .stuck r' h

theorem isScalar_floatOf (ht : floatOf buf len = some t) : IsScalar t := by
  unfold floatOf at ht
  dsimp only at ht
  split at ht
  · cases ht
  cases ht
  trivial

theorem isScalar_tryParseNumber (ht : tryParseNumber buf len = some t) : IsScalar t := by
  unfold tryParseNumber at ht
  dsimp only at ht
  split at ht
  · cases ht
  · exact isScalar_floatOf ht
  split at ht
  · cases ht
    trivial
  · exact isScalar_floatOf ht

theorem isScalar_tryParseKeywordOrNumber (ht : tryParseKeywordOrNumber buf len = some t) :
    IsScalar t := by
  unfold tryParseKeywordOrNumber at ht
  split at ht
  · cases ht
  split at ht
  · cases ht
    trivial
  split at ht
  · cases ht
    trivial
  split at ht
  · cases ht
    trivial
  split at ht
  · exact isScalar_tryParseNumber ht
  · cases ht

theorem isScalar_keywordBetween {r : Reader} {start stop : Nat}
    (ht : keywordBetween r start stop = some t) : IsScalar t := by
  unfold keywordBetween at ht
  split at ht
  · cases ht
  · exact isScalar_tryParseKeywordOrNumber ht

theorem readsScalars_endUnquoted (start stop : Nat) : ReadsScalars (endUnquoted start stop) := by
  intro r t ht
  unfold endUnquoted at ht
  split at ht
  · cases ht
  dsimp only at ht
  split at ht
  case h_1 kw hkw =>
    cases ht
    exact isScalar_keywordBetween hkw
  split at ht
  · cases ht
  cases ht
  trivial

theorem readsScalars_unquotedLoop (start fuel stop : Nat) :
    ReadsScalars (unquotedLoop start fuel stop) := by
  intro r t ht
  induction fuel generalizing stop r with
  | zero => cases ht
  | succ fuel ih =>
    rw [unquotedLoop] at ht
    split at ht
    · exact readsScalars_endUnquoted start stop r t ht
    split at ht
    · exact readsScalars_endUnquoted start stop r t ht
    dsimp only at ht
    split at ht
    · split at ht
      case h_1 kw hkw =>
        cases ht
        exact isScalar_keywordBetween hkw
      · exact ih _ _ ht
    · exact ih _ _ ht

theorem readsScalars_readUnquotedValue : ReadsScalars readUnquotedValue := by
  intro r t ht
  unfold readUnquotedValue at ht
  dsimp only at ht
  split at ht
  · cases ht
  · exact readsScalars_unquotedLoop _ _ _ _ t ht

theorem readsScalars_readQuotedString (S : Scanner) :
    ReadsScalars ((readQuotedString S true).andThen fun s r => (.ok (.string s), r)) := by
  intro r t ht
  unfold Parser.andThen at ht
  generalize readQuotedString S true r = res at ht
  rcases res with ⟨out, r'⟩
  cases out with
  | ok s =>
    cases ht
    trivial
  | _ => cases ht

/-!
### Containers
-/

section

variable {S : Scanner} {childTree : Parser DataNode} {readChild : NodeParser}
variable (hchild : forall r h ext, Counted ext h ->
  Follows h ext k id (childTree r) (readChild r h))

include hchild

theorem follows_objectLoop {obj : Nat} {es : List (Bytes × DataNode)} (braced : Bool) (fuel : Nat)
    (r : Reader) (h1 : Built h0 ext (k + 1) h obj (.object es)) :
    Follows h0 ext (k + 1) DataNode.object
      (Hjson.objectLoop S childTree braced fuel es r)
      (objectLoop S readChild obj braced fuel r h) := by
  induction fuel generalizing h es r with
  | zero => exact .stuck r h
  | succ fuel ih =>
    rw [Hjson.objectLoop, objectLoop]
    split
    · apply follows_readThen h1
      intro key r
      dsimp only
      split
      · exact follows_giveUp_self h1 _
      apply follows_childThen h1 (hchild _ _ _ h1.counted)
      intro val r a h' hbuilt
      rcases Built.insert objects_trees key h1 hbuilt with ⟨h'', hins, hnext⟩
      unfold objInsert
      rw [hins]
      exact ih (skipSeparator S r) hnext
    · exact .ok h1

theorem follows_readObject (braced : Bool) (r : Reader) (hcounted : Counted ext h) :
    Follows h ext (k + 1) id (Hjson.readObject S childTree braced r)
      (readObject S readChild braced r h) := by
  have hmade := built_makeNode (k := k) (c := .object .empty) hcounted rfl fun R => .object .nil
  apply follows_nodeThen (follows_objectLoop hchild braced (r.len + 1) (skipWs S r) hmade)
  intro es r obj h' hbuilt
  unfold closeObject
  split
  · split
    · exact follows_giveUp_self hbuilt r
    · exact .ok hbuilt
  · exact .ok hbuilt

theorem follows_arrayLoop {arr : Nat} {es : List DataNode} (fuel : Nat) (r : Reader)
    (h1 : Built h0 ext (k + 1) h arr (.array es)) :
    Follows h0 ext (k + 1) DataNode.array (Hjson.arrayLoop S childTree fuel es r)
      (arrayLoop S readChild arr fuel r h) := by
  induction fuel generalizing h es r with
  | zero => exact .stuck r h
  | succ fuel ih =>
    rw [Hjson.arrayLoop, arrayLoop]
    split
    · apply follows_childThen h1 (hchild _ _ _ h1.counted)
      intro val r a h' hbuilt
      rcases h1.push hbuilt with ⟨h'', hpush, hnext⟩
      rw [hpush]
      exact ih (skipSeparator S r) hnext
    · exact .ok h1

theorem follows_readArray (r : Reader) (hcounted : Counted ext h) :
    Follows h ext (k + 1) id (Hjson.readArray S childTree r) (readArray S readChild r h) := by
  have hmade := built_makeNode (k := k) (c := .array []) hcounted rfl fun R => .array .nil
  apply follows_nodeThen (follows_arrayLoop hchild (r.len + 1) (skipWs S r) hmade)
  intro es r arr h' hbuilt
  unfold closeArray
  split
  · exact follows_giveUp_self hbuilt r
  · exact .ok hbuilt

end

/-!
### Values and documents
-/

variable (S : Scanner)

theorem follows_readValue (levels : Nat) (r : Reader) (h : NodeHeap) (ext : List Nat)
    (hcounted : Counted ext h) :
    Follows h ext levels id (Hjson.readValue S levels r) (readValue S levels r h) := by
  induction levels generalizing r h ext with
  | zero => exact .null (Undone.refl hcounted)
  | succ levels ih =>
    rw [Hjson.readValue, readValue]
    split
    · exact .null (Undone.refl hcounted)
    split
    · exact follows_readObject ih true _ hcounted
    split
    · exact follows_readArray ih _ hcounted
    split
    · exact follows_makeScalar (readsScalars_readQuotedString S) levels hcounted _
    exact follows_makeScalar readsScalars_readUnquotedValue levels hcounted _

theorem follows_atEnd (r : Reader) (h1 : Built h0 ext k h n t) :
    Follows h0 ext k id (Hjson.atEnd S t r) (atEnd S n r h) := by
  unfold Hjson.atEnd atEnd
  dsimp only
  split
  · exact follows_giveUp_self h1 _
  · exact .ok h1

theorem follows_readToEnd (levels : Nat) (r : Reader) (hcounted : Counted ext h) :
    Follows h ext levels id (((Hjson.readValue S levels).andThen (Hjson.atEnd S)) r)
      (nodeThen (readValue S levels) (atEnd S) r h) := by
  apply follows_nodeThen (follows_readValue S levels r h ext hcounted)
  intro t r a h' hbuilt
  exact follows_atEnd S r hbuilt

/-- What follows from a heap on which everything was undone, follows from the heap before. -/
theorem Follows.after_undone {out : Outcome DataNode × Reader}
    {res : Option (Outcome Nat × Reader × NodeHeap)} (h1 : Undone h0 ext h)
    (h2 : Follows h ext k id out res) : Follows h0 ext k id out res := by
  cases h2 with
  | ok hbuilt => exact .ok (h1.built hbuilt)
  | null hundone => exact .null (h1.trans hundone)
  | thrown r h => exact .thrown r h
  | stuck r h => exact .stuck r h

theorem follows_readBraceless (r : Reader) (hcounted : Counted ext h) :
    Follows h ext (maxDepth + 1) id (Hjson.readBraceless S r) (readBraceless S r h) := by
  have hobject : Follows h ext (maxDepth + 1) id
      (((Hjson.readObject S (Hjson.readValue S maxDepth) false).andThen (Hjson.atEnd S)) r)
      (nodeThen (readObject S (readValue S maxDepth) false) (atEnd S) r h) := by
    apply follows_nodeThen (follows_readObject (follows_readValue S maxDepth) false r hcounted)
    intro t r a h' hbuilt
    exact follows_atEnd S r hbuilt
  unfold Hjson.readBraceless readBraceless
  generalize ((Hjson.readObject S (Hjson.readValue S maxDepth) false).andThen
    (Hjson.atEnd S)) r = out at hobject
  generalize nodeThen (readObject S (readValue S maxDepth) false) (atEnd S) r h = res
    at hobject
  cases hobject with
  | ok hbuilt => exact .ok hbuilt
  | null hundone => exact .after_undone hundone (follows_readToEnd S _ _ hundone.counted)
  | thrown r' h' => exact .thrown r' h'
  | stuck r' h' => exact .stuck r' h'

theorem follows_parse (data : Bytes) (hcounted : Counted ext h) :
    Follows h ext (maxDepth + 1) id (Hjson.parse S data) (parse S data h) := by
  unfold Hjson.parse parse
  dsimp only
  split
  · exact .null (Undone.refl hcounted)
  split
  · exact .null (Undone.refl hcounted)
  split
  · exact follows_readToEnd S (maxDepth + 1) _ hcounted
  · exact follows_readBraceless S _ hcounted

end Async2.Hjson.OnHeap
