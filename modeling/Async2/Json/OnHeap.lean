import Async2.Json.OnDemand
import Async2.Ownership.Tree

/-!
# The JSON parser on the heap

`od_to_node` makes the node of a container before it reads what is in it, and gives it up
when it fails.  It puts the fields of an object into the map with `emplace`, which leaves
the map alone if the key is there already; the value that was read is then neither stored
nor released.  Whether that happens depends on the part of the document that is read: up to
the first value that cannot be read.
-/

namespace Async2.Json.OnHeap

open RefCount RefCount.Heap AssocList Ownership List Option

/-!
## The parser
-/

/-- A function that returns a node or a null pointer. -/
abbrev Maker := NodeHeap -> Option (Option Nat × NodeHeap)

def returnNull : Maker := fun h => some (none, h)

def returnMade (c : Content) : Maker := fun h => some (some (makeNode c h).1, (makeNode c h).2)

def giveUp (node : Nat) : Maker := fun h => do
  let h ← h.release node
  return (none, h)

def odScalar {α : Type} (content : α -> Content) : Option α -> Maker
  | none => returnNull
  | some v => returnMade (content v)

section

variable (odChild : OdValue -> Maker)

def odElems (node : Nat) : List (Option OdValue) -> Maker
  | [], h => some (some node, h)
  | none :: _, h => giveUp node h
  | some child :: rest, h => do
    let (childNode, h) ← odChild child h
    match childNode with
    | none => giveUp node h
    | some childNode =>
      let h ← arrPush h node childNode
      odElems node rest h

def odFields (node : Nat) : List (Option (Option Bytes × OdValue)) -> Maker
  | [], h => some (some node, h)
  | none :: _, h => giveUp node h
  | some (none, _) :: _, h => giveUp node h
  | some (some key, value) :: rest, h => do
    let (valNode, h) ← odChild value h
    match valNode with
    | none => giveUp node h
    | some valNode =>
      let h ← objEmplace h node key valNode
      odFields node rest h

/-- The two functions `od_to_node` and `od_to_node_doc`, given how the values inside are
read and which answers of `is_null` are accepted. -/
def odNode (nullOk : Bool -> Bool) : OdValue -> Maker
  | .invalid => returnNull
  | .null isNull => if isNull.any nullOk then returnMade .null else returnNull
  | .boolean getBool => odScalar .bool getBool
  | .number getInt64 getUint64 getDouble =>
    match getInt64 with
    | some i => returnMade (.int i)
    | none =>
      match getUint64 with
      | some u => returnMade (.int u.toInt64)
      | none => odScalar .float getDouble
  | .string getString => odScalar .string getString
  | .array getArray => fun h =>
    let (node, h) := makeNode (.array []) h
    match getArray with
    | none => giveUp node h
    | some children => odElems odChild node children h
  | .object getObject => fun h =>
    let (node, h) := makeNode (.object .empty) h
    match getObject with
    | none => giveUp node h
    | some fields => odFields odChild node fields h

end

def odToNode : Nat -> OdValue -> Maker
  | 0, _ => returnNull
  | levels + 1, val => odNode (odToNode levels) (fun _ => true) val

def odToNodeDoc (doc : OdValue) : Maker := odNode (odToNode maxParseDepth) id doc

def dataParseJson (iterate : Bytes -> Except String OdValue) (data : Bytes) : Maker :=
  if data = [] then returnNull
  else
    match iterate data with
    | .error _ => returnNull
    | .ok doc => odToNodeDoc doc

/-!
## Repeated keys in the part that is read
-/

section

variable (childReadable childRepeats : OdValue -> Bool)

/-- All accessors have an answer for the value and for what it contains. -/
def readableNode (nullOk : Bool -> Bool) : OdValue -> Bool
  | .invalid => false
  | .null isNull => isNull.any nullOk
  | .boolean getBool => getBool.isSome
  | .number getInt64 getUint64 getDouble =>
    getInt64.isSome || getUint64.isSome || getDouble.isSome
  | .string getString => getString.isSome
  | .array getArray => getArray.any fun children => children.all fun c => c.any childReadable
  | .object getObject => getObject.any fun fields =>
    fields.all fun f => f.any fun f => f.1.isSome && childReadable f.2

/-- An element that is read repeats a key. -/
def repeatsElems : List (Option OdValue) -> Bool
  | some child :: rest =>
    childRepeats child || childReadable child && repeatsElems rest
  | _ => false

/-- A field that is read has a key seen before, or repeats one in its value. -/
def repeatsFields : List Bytes -> List (Option (Option Bytes × OdValue)) -> Bool
  | seen, some (some key, value) :: rest =>
    childRepeats value || childReadable value &&
      (seen.contains key || repeatsFields (seen ++ [key]) rest)
  | _, _ => false

def repeatsNode : OdValue -> Bool
  | .array getArray => getArray.any (repeatsElems childReadable childRepeats)
  | .object getObject => getObject.any (repeatsFields childReadable childRepeats [])
  | _ => false

end

/-- The value can be read, with `levels` levels left for it and what it contains. -/
def readable : Nat -> OdValue -> Bool
  | 0, _ => false
  | levels + 1, val => readableNode (readable levels) (fun _ => true) val

/-- Some object repeats a key in the part of the value that is read. -/
def repeatsKey : Nat -> OdValue -> Bool
  | 0, _ => false
  | levels + 1, val => repeatsNode (readable levels) (repeatsKey levels) val

/-- Some object of the document repeats a key in the part that is read. -/
def docRepeatsKey (doc : OdValue) : Bool :=
  repeatsNode (readable maxParseDepth) (repeatsKey maxParseDepth) doc

/-- The text is opened as a document that repeats a key in the part that is read. -/
def textRepeatsKey (iterate : Bytes -> Except String OdValue) (data : Bytes) : Bool :=
  match iterate data with
  | .error _ => false
  | .ok doc => !data.isEmpty && docRepeatsKey doc

/-!
## What the parser builds

The nodes in `lost` are those that `emplace` did not store.
-/

/-- A node was returned and denotes the tree, or a null pointer was returned. -/
def Ends (h0 : NodeHeap) (ext : List Nat) (k : Nat) :
    Option DataNode -> Option Nat -> NodeHeap -> Prop
  | some t, some a, h => Built h0 ext k h a t
  | none, none, h => Undone h0 ext h
  | _, _, _ => False

/-- From a heap on which something was built already, the function builds the tree or, if
there is none, undoes everything, up to nodes that it loses; it loses some exactly if
`repeats`. -/
def MakesFrom (h0 h : NodeHeap) (ext : List Nat) (k : Nat) (tree : Option DataNode)
    (repeats : Bool) (make : Maker) : Prop :=
  exists r h' lost, make h = some (r, h') ∧ (forall x, x ∈ lost -> h0.next <= x) ∧
    (lost = [] <-> repeats = false) ∧ Ends h0 (lost ++ ext) k tree r h'

def Makes (k : Nat) (tree : Option DataNode) (repeats : Bool) (make : Maker) : Prop :=
  forall h ext, Counted ext h -> MakesFrom h h ext k tree repeats make

variable {h0 h h' h1 : NodeHeap} {ext ext' : List Nat} {k node : Nat}
variable {tree : Option DataNode} {make make' : Maker} {repeats repeats' : Bool} {key : Bytes}
variable {s t : DataNode} {es : List (Bytes × DataNode)}

theorem makesFrom_of_ends {r : Option Nat} (hmake : make h = some (r, h1))
    (hends : Ends h0 ext k tree r h1) : MakesFrom h0 h ext k tree false make := by
  refine ⟨r, h1, [], hmake, ?_, ?_, hends⟩
  · exact fun x hx => absurd hx not_mem_nil
  · exact ⟨fun _ => rfl, fun _ => rfl⟩

/-- What was lost before adds to what is lost later. -/
theorem MakesFrom.after (lost : List Nat)
    (h2 : MakesFrom h0 h1 (lost ++ ext) k tree repeats' make')
    (heq : make h = make' h1) (hlost : forall x, x ∈ lost -> h0.next <= x)
    (hrepeats : repeats = false <-> lost = [] ∧ repeats' = false) :
    MakesFrom h0 h ext k tree repeats make := by
  rcases h2 with ⟨r, h', more, hmake, hmore, hiff, hends⟩
  refine ⟨r, h', more ++ lost, heq.trans hmake, ?_, ?_, ?_⟩
  · intro x hx
    rcases mem_append.mp hx with hx | hx
    · exact hmore x hx
    · exact hlost x hx
  · rw [append_eq_nil_iff, hrepeats, hiff]
    exact And.comm
  · rw [append_assoc]
    exact hends

theorem makes_returnNull (k : Nat) : Makes k none false returnNull :=
  fun _ _ hcounted => makesFrom_of_ends rfl (Undone.refl hcounted)

theorem makes_returnMade (k : Nat) {c : Content} (hchildren : c.children = [])
    (hshows : forall R, Shows R c t) : Makes (k + 1) (some t) false (returnMade c) :=
  fun _ _ hcounted => makesFrom_of_ends rfl (built_makeNode hcounted hchildren hshows)

theorem makes_odScalar (k : Nat) {α : Type} {content : α -> Content} {tree : α -> DataNode}
    (hchildren : forall v, (content v).children = [])
    (hshows : forall R v, Shows R (content v) (tree v)) (answer : Option α) :
    Makes (k + 1) (answer.map tree) false (odScalar content answer) := by
  cases answer with
  | none => exact makes_returnNull (k + 1)
  | some v => exact makes_returnMade k (hchildren v) fun R => hshows R v

theorem makesFrom_giveUp (h1 : Built h0 ext k h node t) {k' : Nat}
    (h2 : Undone h (node :: ext') h') : MakesFrom h0 h' ext' k' none false (giveUp node) := by
  rcases h1.undo_after h2 with ⟨h'', hrel, hundone⟩
  have hgiveUp : giveUp node h' = some (none, h'') := by
    unfold giveUp
    rw [hrel]
    rfl
  exact makesFrom_of_ends hgiveUp hundone

/-!
### Objects
-/

theorem built_emplace_new {a : Nat} (h1 : Built h0 ext (k + 1) h node (.object es))
    (h2 : Built h (node :: ext') k h' a s) (hkey : key ∉ keys es) :
    exists h'', objEmplace h' node key a = some h'' ∧
      Built h0 ext' (k + 1) h'' node (.object (emplace key s es)) := by
  rcases h1.denotes with ⟨⟨v, c⟩, hread, hshows⟩
  have hread' := h1.read_after h2.builds hread
  have hshows' := h1.shows_after h2.builds hread hshows
  have hold := h1.later hread
  cases hshows' with
  | @object obj _ hes =>
    have hfresh : key ∉ keys obj.entries := by
      rw [hes.keys_eq]
      exact hkey
    have hvalues := Dict.values_emplace_of_none (Dict.find_eq_none_iff.mpr hfresh) a
    have hslots : slots (⟨v, .object obj⟩ : Node) = obj.values := rfl
    have hcount : forall x, ([] ++ (node :: ext')).count x +
        (slots (⟨v, .object (obj.emplace key a)⟩ : Node)).count x =
        (a :: node :: ext').count x + (slots (⟨v, .object obj⟩ : Node)).count x := by
      intro x
      change _ + (obj.emplace key a).values.count x = _ + obj.values.count x
      simp only [hvalues, nil_append, count_append, count_cons, count_nil]
      omega
    rcases mutates_releaseThenWrite h2.counted hread' rfl hcount mem_cons_self
      with ⟨h'', hwrite, hcounted, hmut⟩
    rw [setBody_self hread'] at hwrite
    refine ⟨h'', ?_, h1.mutate h2.builds hmut hcounted hread' ?_ ?_ ?_⟩
    · unfold objEmplace
      rw [hread']
      exact hwrite
    · exact fun x hx => absurd hx not_mem_nil
    · intro x hx
      change x ∈ (obj.emplace key a).values at hx
      rw [hvalues] at hx
      rcases mem_append.mp hx with hx | hx
      · exact hold x hx
      · cases mem_singleton.mp hx
        exact h1.lt_child h2
    · exact .object (hes.emplace hfresh h2.denotes)

/-- With a key that is there already the object stays as it is, and the value is lost. -/
theorem built_emplace_old {a : Nat} (h1 : Built h0 ext (k + 1) h node (.object es))
    (h2 : Built h (node :: ext') k h' a s) (hkey : key ∈ keys es) :
    objEmplace h' node key a = some h' ∧
      Built h0 (a :: ext') (k + 1) h' node (.object (emplace key s es)) := by
  rcases h1.denotes with ⟨⟨v, c⟩, hread, hshows⟩
  have hread' := h1.read_after h2.builds hread
  have hshows' := h1.shows_after h2.builds hread hshows
  cases hshows' with
  | @object obj _ hes =>
    have hmem : key ∈ keys obj.entries := by
      rw [hes.keys_eq]
      exact hkey
    have hsame : obj.emplace key a = obj := Dict.ext (if_pos hmem)
    have htree : emplace key s es = es := if_pos hkey
    constructor
    · unfold objEmplace
      simp only [hread', some_bind, hsame]
      rw [write_of_live (live_of_read hread'), setBody_self hread']
    · rw [htree]
      refine ⟨h2.counted.perm (List.Perm.swap _ _ _), h1.builds.trans h2.builds, h1.fresh,
        ⟨_, hread', .object hes⟩⟩

/-!
### Documents
-/

section

variable {odChild : OdValue -> Maker} {childTree : OdValue -> Option DataNode}
variable {childReadable childRepeats : OdValue -> Bool}
variable (hchild : forall v, Makes k (childTree v) (childRepeats v) (odChild v))
variable (hreadable : forall v, childReadable v = (childTree v).isSome)

include hchild hreadable

/-- A value is read on behalf of a container, which is given up if there is none. -/
theorem makesFrom_child {f : Nat -> Maker} (v : OdValue) (h1 : Built h0 ext (k + 1) h node t)
    (hmake : forall r h', odChild v h = some (r, h') -> make h = r.elim (giveUp node) f h')
    (hnone : childTree v = none -> tree = none)
    (hf : forall s a h' ext', childTree v = some s -> Built h (node :: ext') k h' a s ->
      MakesFrom h0 h' ext' (k + 1) tree repeats (f a)) :
    MakesFrom h0 h ext (k + 1) tree (childRepeats v || childReadable v && repeats) make := by
  rcases hchild v h (node :: ext) h1.counted with ⟨r, h', lost, hread, hlost, hiff, hends⟩
  have hnew : forall x, x ∈ lost -> h0.next <= x :=
    fun x hx => h1.builds.next_le.trans (hlost x hx)
  rw [hreadable v]
  cases htree : childTree v with
  | none =>
    rw [htree] at hends
    cases r with
    | some a => exact hends.elim
    | none =>
      rw [hnone htree]
      have hundone : Undone h (node :: (lost ++ ext)) h' := Undone.perm hends perm_middle
      refine (makesFrom_giveUp h1 hundone).after lost (hmake _ _ hread) hnew ?_
      rw [hiff]
      simp
  | some s =>
    rw [htree] at hends
    cases r with
    | none => exact hends.elim
    | some a =>
      have hbuilt : Built h (node :: (lost ++ ext)) k h' a s := Built.perm hends perm_middle
      refine (hf s a h' _ htree hbuilt).after lost (hmake _ _ hread) hnew ?_
      rw [hiff]
      simp

theorem makesFrom_odElems {es : List DataNode} (children : List (Option OdValue))
    (h1 : Built h0 ext (k + 1) h node (.array es)) :
    MakesFrom h0 h ext (k + 1) ((Json.odElems childTree es children).map .array)
      (repeatsElems childReadable childRepeats children)
      (odElems odChild node children) := by
  induction children generalizing h ext es with
  | nil => exact makesFrom_of_ends rfl h1
  | cons child rest ih =>
    cases child with
    | none => exact makesFrom_giveUp h1 (Undone.refl h1.counted)
    | some child =>
      rw [Json.odElems, repeatsElems]
      refine makesFrom_child hchild hreadable (f := fun a h =>
        (arrPush h node a).bind (odElems odChild node rest)) child h1 ?_ ?_ ?_
      · intro r h' hread
        rw [odElems, hread]
        cases r <;> rfl
      · intro htree
        rw [htree]
        rfl
      · intro s a h' ext' htree hbuilt
        rcases h1.push hbuilt with ⟨h'', hpush, hnext⟩
        rw [htree]
        refine (ih hnext).after [] ?_ (by simp) (by simp)
        rw [hpush]
        rfl

theorem makesFrom_odFields {es : List (Bytes × DataNode)}
    (fields : List (Option (Option Bytes × OdValue)))
    (h1 : Built h0 ext (k + 1) h node (.object es)) :
    MakesFrom h0 h ext (k + 1) ((Json.odFields childTree es fields).map .object)
      (repeatsFields childReadable childRepeats (keys es) fields)
      (odFields odChild node fields) := by
  induction fields generalizing h ext es with
  | nil => exact makesFrom_of_ends rfl h1
  | cons field rest ih =>
    cases field with
    | none => exact makesFrom_giveUp h1 (Undone.refl h1.counted)
    | some field =>
      rcases field with ⟨key, value⟩
      cases key with
      | none => exact makesFrom_giveUp h1 (Undone.refl h1.counted)
      | some key =>
        rw [Json.odFields, repeatsFields]
        refine makesFrom_child hchild hreadable (f := fun a h =>
          (objEmplace h node key a).bind (odFields odChild node rest)) value h1 ?_ ?_ ?_
        · intro r h' hread
          rw [odFields, hread]
          cases r <;> rfl
        · intro htree
          rw [htree]
          rfl
        · intro s a h' ext' htree hbuilt
          rw [htree]
          by_cases hkey : key ∈ keys es
          · rcases built_emplace_old h1 hbuilt hkey with ⟨hemplace, hnext⟩
            refine (ih hnext).after [a] ?_ ?_ ?_
            · rw [hemplace]
              rfl
            · intro x hx
              cases mem_singleton.mp hx
              exact h1.builds.next_le.trans hbuilt.fresh
            · simp [hkey]
          · rcases built_emplace_new h1 hbuilt hkey with ⟨h'', hemplace, hnext⟩
            have hkeys : keys (emplace key s es) = keys es ++ [key] := by
              unfold emplace
              rw [if_neg hkey, AssocList.keys_append]
              rfl
            have hrest := ih hnext
            rw [hkeys] at hrest
            refine hrest.after [] ?_ (by simp) (by simp [hkey])
            rw [hemplace]
            rfl

theorem makes_odNode (nullOk : Bool -> Bool) (val : OdValue) :
    Makes (k + 1) (Json.odNode childTree nullOk val)
      (repeatsNode childReadable childRepeats val) (odNode odChild nullOk val) := by
  cases val with
  | invalid => exact makes_returnNull (k + 1)
  | null isNull =>
    rw [Json.odNode, odNode]
    split
    · exact makes_returnMade k rfl fun R => .null
    · exact makes_returnNull (k + 1)
  | boolean getBool => exact makes_odScalar k (fun _ => rfl) (fun R v => .bool v) getBool
  | number getInt64 getUint64 getDouble =>
    cases getInt64 with
    | some i => exact makes_returnMade k rfl fun R => .int i
    | none =>
      cases getUint64 with
      | some u => exact makes_returnMade k rfl fun R => .int u.toInt64
      | none => exact makes_odScalar k (fun _ => rfl) (fun R v => .float v) getDouble
  | string getString => exact makes_odScalar k (fun _ => rfl) (fun R v => .string v) getString
  | array getArray =>
    intro h ext hcounted
    have hmade := built_makeNode (k := k) (c := .array []) hcounted rfl fun R => .array .nil
    cases getArray with
    | none => exact makesFrom_giveUp hmade (Undone.refl hmade.counted)
    | some children => exact makesFrom_odElems hchild hreadable children hmade
  | object getObject =>
    intro h ext hcounted
    have hmade := built_makeNode (k := k) (c := .object .empty) hcounted rfl fun R => .object .nil
    cases getObject with
    | none => exact makesFrom_giveUp hmade (Undone.refl hmade.counted)
    | some fields => exact makesFrom_odFields hchild hreadable fields hmade

omit hchild in
theorem isSome_odElems (es : List DataNode) (children : List (Option OdValue)) :
    (Json.odElems childTree es children).isSome = children.all fun c => c.any childReadable := by
  induction children generalizing es with
  | nil => rfl
  | cons child rest ih =>
    cases child with
    | none => rfl
    | some child =>
      rw [all_cons, any_some, hreadable child, Json.odElems]
      cases childTree child with
      | none => rfl
      | some s =>
        rw [isSome_some, Bool.true_and]
        exact ih (es ++ [s])

omit hchild in
theorem isSome_odFields (es : List (Bytes × DataNode))
    (fields : List (Option (Option Bytes × OdValue))) :
    (Json.odFields childTree es fields).isSome =
      fields.all fun f => f.any fun f => f.1.isSome && childReadable f.2 := by
  induction fields generalizing es with
  | nil => rfl
  | cons field rest ih =>
    cases field with
    | none => rfl
    | some field =>
      rcases field with ⟨key, value⟩
      cases key with
      | none => rfl
      | some key =>
        rw [all_cons, any_some, isSome_some, Bool.true_and, hreadable value, Json.odFields]
        cases childTree value with
        | none => rfl
        | some s =>
          rw [isSome_some, Bool.true_and]
          exact ih (emplace key s es)

omit hchild in
theorem isSome_odNode (nullOk : Bool -> Bool) (val : OdValue) :
    readableNode childReadable nullOk val = (Json.odNode childTree nullOk val).isSome := by
  cases val with
  | invalid => rfl
  | null isNull =>
    rw [readableNode, Json.odNode]
    cases isNull.any nullOk <;> rfl
  | boolean getBool => cases getBool <;> rfl
  | number getInt64 getUint64 getDouble =>
    cases getInt64 <;> cases getUint64 <;> cases getDouble <;> rfl
  | string getString => cases getString <;> rfl
  | array getArray =>
    cases getArray with
    | none => rfl
    | some children =>
      rw [readableNode, any_some, ← isSome_odElems hreadable []]
      exact (isSome_map ..).symm
  | object getObject =>
    cases getObject with
    | none => rfl
    | some fields =>
      rw [readableNode, any_some, ← isSome_odFields hreadable []]
      exact (isSome_map ..).symm

end

theorem readable_eq (levels : Nat) (val : OdValue) :
    readable levels val = (Json.odToNode levels val).isSome := by
  induction levels generalizing val with
  | zero => rfl
  | succ levels ih => exact isSome_odNode ih _ val

theorem makes_odToNode (levels : Nat) (val : OdValue) :
    Makes levels (Json.odToNode levels val) (repeatsKey levels val) (odToNode levels val) := by
  induction levels generalizing val with
  | zero => exact makes_returnNull 0
  | succ levels ih => exact makes_odNode ih (readable_eq levels) _ val

/-- The parser builds the tree of the text, and loses nodes if a key is repeated. -/
theorem makes_dataParseJson (iterate : Bytes -> Except String OdValue) (data : Bytes) :
    Makes (maxParseDepth + 1) (Json.dataParseJson iterate data).1
      (textRepeatsKey iterate data) (dataParseJson iterate data) := by
  unfold Json.dataParseJson dataParseJson textRepeatsKey
  cases data with
  | nil =>
    cases iterate [] <;> exact makes_returnNull _
  | cons b rest =>
    rw [if_neg (cons_ne_nil b rest), if_neg (cons_ne_nil b rest)]
    cases iterate (b :: rest) with
    | error _ => exact makes_returnNull _
    | ok doc =>
      exact makes_odNode (makes_odToNode maxParseDepth)
        (readable_eq maxParseDepth) id doc

end Async2.Json.OnHeap
