import Async2.MsgPack.Parse
import Async2.Ownership.Tree

/-!
# The MessagePack parser on the heap

The lead byte and the fields behind it are read as on trees.  The key of a map entry is
read as a node of its own, which is released once the key is known.  When a function fails,
it releases the container that it is building, and the key node if that is the reason.
-/

namespace Async2.MsgPack.OnHeap

open RefCount.Heap Ownership Option DataNode

/-!
## The parser
-/

/-- A reading function that returns a node. -/
abbrev NodeReader := Reader -> NodeHeap -> Option (Outcome (Nat × Reader) × NodeHeap)

def giveUp {α : Type} (node : Nat) (h : NodeHeap) : Option (Outcome α × NodeHeap) := do
  let h ← h.release node
  return (.null, h)

def readThen {α β : Type} (x : Outcome α)
    (f : α -> NodeHeap -> Option (Outcome β × NodeHeap)) (h : NodeHeap) :
    Option (Outcome β × NodeHeap) :=
  match x with
  | .ok a => f a h
  | .null => some (.null, h)
  | .fault => some (.fault, h)
  | .thrown => some (.thrown, h)

/-- A new node, if there is memory for it. -/
def makeThen {α : Type} (B : Build) (r : Reader) (c : Content)
    (f : Nat -> NodeHeap -> Option (Outcome α × NodeHeap)) :
    NodeHeap -> Option (Outcome α × NodeHeap) :=
  readThen (r.allocNode B) fun _ h => f (makeNode c h).1 (makeNode c h).2

def childThen (node : Nat) (p : NodeReader) (f : Nat -> NodeReader) : NodeReader :=
  fun r h => do
    match ← p r h with
    | (.ok (a, r), h) => f a r h
    | (.null, h) => giveUp node h
    | (.fault, h) => return (.fault, h)
    | (.thrown, h) => return (.thrown, h)

section

variable (readChild : NodeReader)

/-- The loop of `read_map` for one kind of keys. -/
def readEntries {K : Type} [DecidableEq K] (M : MapKind K) (keyOf : Content -> Option K)
    (node : Nat) : Nat -> NodeReader
  | 0, r, h => some (.ok (node, r), h)
  | count + 1, r, h =>
    childThen node readChild (fun keyNode r h => do
      let content ← h.read keyNode
      match keyOf content.content with
      | none =>
        let h ← h.release keyNode
        giveUp node h
      | some key =>
        let h ← h.release keyNode
        childThen node readChild (fun val r h => do
          let h ← mapInsert M h node key val
          readEntries M keyOf node count r h) r h) r h

def intKey : Content -> Option Int64
  | .int key => some key
  | _ => none

def strKey : Content -> Option Bytes
  | .string key => some key
  | _ => none

def readIntEntries (node count : Nat) : NodeReader :=
  readEntries readChild intMaps intKey node count

def readStrEntries (node count : Nat) : NodeReader :=
  readEntries readChild objects strKey node count

def readMap (B : Build) (maxElements count : Nat) : NodeReader := fun r h =>
  if count = 0 then makeThen B r (.object .empty) (fun obj h => some (.ok (obj, r), h)) h
  else if count > maxElements then some (.null, h)
  else
    readThen (r.require B 1) (fun _ =>
      readThen (r.byteAt B 0) fun peek h =>
        if !isIntKey peek && !isStrKey peek then some (.null, h)
        else if isIntKey peek then
          makeThen B r (.intMap .empty) (fun node => readIntEntries readChild node count r) h
        else makeThen B r (.object .empty) (fun obj => readStrEntries readChild obj count r) h) h

def readElems (arr : Nat) : Nat -> NodeReader
  | 0, r, h => some (.ok (arr, r), h)
  | count + 1, r, h =>
    childThen arr readChild (fun elem r h => do
      let h ← arrPush h arr elem
      readElems arr count r h) r h

def readArray (B : Build) (maxElements count : Nat) : NodeReader := fun r h =>
  if count > maxElements then some (.null, h)
  else makeThen B r (.array []) (fun arr => readElems readChild arr count r) h

end

section

variable (B : Build) (widen : UInt32 -> UInt64) (maxElements : Nat)

def readNode : Nat -> NodeReader
  | 0, _, h => some (.null, h)
  | levels + 1, r, h =>
    readThen (readHead B widen r) (fun (head, r) h =>
      match head with
      | .leaf t => makeThen B r (scalarContent t) (fun a h => some (.ok (a, r), h)) h
      | .map count => readMap (readNode levels) B maxElements count r h
      | .array count => readArray (readNode levels) B maxElements count r h) h

def msgPackParse (data : Bytes) (h : NodeHeap) : Option (Outcome Nat × NodeHeap) :=
  if data.length = 0 then some (.null, h)
  else do
    match ← readNode B widen maxElements (kMaxDepth + 1) ⟨data, 0⟩ h with
    | (.ok (result, r), h) =>
      if r.pos ≠ data.length then giveUp result h else return (.ok result, h)
    | (.null, h) => return (.null, h)
    | (.fault, h) => return (.fault, h)
    | (.thrown, h) => return (.thrown, h)

end

/-!
## The parser on the heap follows the parser on trees
-/

/-- The outcomes on the heap that belong to an outcome on trees. -/
inductive Follows {α β : Type} (done : α -> β -> NodeHeap -> Prop)
    (undone : NodeHeap -> Prop) : Outcome α -> Option (Outcome β × NodeHeap) -> Prop
  | ok {x : α} {y : β} {h : NodeHeap} (hdone : done x y h) :
      Follows done undone (.ok x) (some (.ok y, h))
  | null {h : NodeHeap} (hundone : undone h) : Follows done undone .null (some (.null, h))
  | fault (h : NodeHeap) : Follows done undone .fault (some (.fault, h))
  | thrown (h : NodeHeap) : Follows done undone .thrown (some (.thrown, h))

/-- A node was read, and the reader is at the same place. -/
def BuiltAt {α : Type} (h0 : NodeHeap) (ext : List Nat) (k : Nat) (tree : α -> DataNode)
    (x : α × Reader) (y : Nat × Reader) (h : NodeHeap) : Prop :=
  y.2 = x.2 ∧ Built h0 ext k h y.1 (tree x.1)

/-- The result of a reading function, where `tree` makes a tree of it. -/
abbrev Reads {α : Type} (h0 : NodeHeap) (ext : List Nat) (k : Nat) (tree : α -> DataNode) :
    Outcome (α × Reader) -> Option (Outcome (Nat × Reader) × NodeHeap) -> Prop :=
  Follows (BuiltAt h0 ext k tree) (Undone h0 ext)

variable {h0 h : NodeHeap} {ext : List Nat} {k n : Nat} {t : DataNode}

section

variable {α β γ : Type} {tree : α -> DataNode} {tree' : β -> DataNode} {r : Reader}
variable {done : α -> γ -> NodeHeap -> Prop}

theorem follows_giveUp (h1 : Built h0 ext k h n t) {h' : NodeHeap} (h2 : Undone h (n :: ext) h') :
    Follows done (Undone h0 ext) .null (giveUp n h') := by
  rcases h1.undo_after h2 with ⟨h'', hrel, hundone⟩
  unfold giveUp
  rw [hrel]
  exact .null hundone

theorem follows_readThen {x : Outcome β} {f : β -> Outcome α}
    {g : β -> NodeHeap -> Option (Outcome γ × NodeHeap)} (hcounted : Counted ext h)
    (hf : forall b, x = .ok b -> Follows done (Undone h ext) (f b) (g b h)) :
    Follows done (Undone h ext) (x >>= f) (readThen x g h) := by
  cases x with
  | ok b => exact hf b rfl
  | null => exact .null (Undone.refl hcounted)
  | fault => exact .fault h
  | thrown => exact .thrown h

theorem follows_makeThen {B : Build} {c : Content} {f : Unit -> Outcome α}
    {g : Nat -> NodeHeap -> Option (Outcome γ × NodeHeap)} (hcounted : Counted ext h)
    (hf : Follows done (Undone h ext) (f ()) (g (makeNode c h).1 (makeNode c h).2)) :
    Follows done (Undone h ext) (r.allocNode B >>= f) (makeThen B r c g h) :=
  follows_readThen hcounted fun _ _ => hf

theorem reads_map (tree : α -> DataNode) {x : Outcome (α × Reader)}
    {res : Option (Outcome (Nat × Reader) × NodeHeap)} (hx : Reads h0 ext k tree x res) :
    Reads h0 ext k id (x >>= fun y => .ok (tree y.1, y.2)) res := by
  cases hx with
  | ok hdone => exact .ok hdone
  | null hundone => exact .null hundone
  | fault h' => exact .fault h'
  | thrown h' => exact .thrown h'

theorem reads_childThen (h1 : Built h0 ext (k + 1) h n t)
    {p : Outcome (β × Reader)} {q : NodeReader} {f : β × Reader -> Outcome (α × Reader)}
    {g : Nat -> NodeReader} (hchild : Reads h (n :: ext) k tree' p (q r h))
    (hf : forall x r a h', Built h (n :: ext) k h' a (tree' x) ->
      Reads h0 ext (k + 1) tree (f (x, r)) (g a r h')) :
    Reads h0 ext (k + 1) tree (p >>= f) (childThen n q g r h) := by
  unfold childThen
  generalize q r h = res at hchild
  cases hchild with
  | @ok x y h' hdone =>
    rcases x with ⟨x, r'⟩
    rcases y with ⟨a, r''⟩
    rcases hdone with ⟨hr, hbuilt⟩
    change r'' = r' at hr
    subst hr
    exact hf x r'' a h' hbuilt
  | null hundone => exact follows_giveUp h1 hundone
  | fault h' => exact .fault h'
  | thrown h' => exact .thrown h'

end

/-!
### Leaves
-/

/-- Every result of a read satisfies a predicate. -/
def Ensures {α : Type} (Q : α -> Prop) (x : Outcome α) : Prop := forall v, x = .ok v -> Q v

section

variable {α β : Type} {Q : α -> Prop}

theorem ensures_ok {v : α} (hv : Q v) : Ensures Q (.ok v) := by
  intro w hw
  cases hw
  exact hv

theorem ensures_null : Ensures Q .null := fun _ h => nomatch h

theorem ensures_bind {x : Outcome β} {f : β -> Outcome α} (hf : forall b, Ensures Q (f b)) :
    Ensures Q (x >>= f) := by
  intro v hv
  rcases Outcome.bind_eq_ok.mp hv with ⟨b, _, hb⟩
  exact hf b v hb

theorem ensures_ite {c : Prop} [Decidable c] {x y : Outcome α} (hx : Ensures Q x)
    (hy : Ensures Q y) : Ensures Q (if c then x else y) := by
  split
  · exact hx
  · exact hy

end

def LeafIsScalar : Head × Reader -> Prop
  | (.leaf t, _) => IsScalar t
  | _ => True

theorem leafIsScalar_readBehind (B : Build) (widen : UInt32 -> UInt64) (b : UInt8)
    (r : Reader) : Ensures LeafIsScalar (readBehind B widen b r) := by
  have hok : forall head : Head, LeafIsScalar (head, r) ->
      Ensures LeafIsScalar (.ok (head, r)) := fun _ => ensures_ok
  have hleaf : forall {α β : Type} {x : Outcome α} {y : α -> Outcome (β × Reader)}
      (head : β -> Head), (forall v r, LeafIsScalar (head v, r)) ->
      Ensures LeafIsScalar (x >>= fun a => y a >>= fun v => .ok (head v.1, v.2)) :=
    fun _ hhead => ensures_bind fun _ => ensures_bind fun _ => ensures_ok (hhead _ _)
  have hfield : forall w (head : Nat -> Head), (forall n r, LeafIsScalar (head n, r)) ->
      Ensures LeafIsScalar (readField B r w >>= fun v => .ok (head v.1, v.2)) :=
    fun _ _ hhead => ensures_bind fun _ => ensures_ok (hhead _ _)
  have hbin : forall w, Ensures LeafIsScalar (readBin B r w) :=
    fun _ => ensures_bind fun _ => ensures_bind fun _ => ensures_ok trivial
  have hstr : forall w, Ensures LeafIsScalar (readStr B r w) :=
    fun _ => ensures_bind fun _ => ensures_bind fun _ => ensures_ok trivial
  have huint : forall w, Ensures LeafIsScalar (readUint B r w) :=
    fun _ => ensures_bind fun _ => ensures_ok trivial
  have hint64 : Ensures LeafIsScalar (readInt64 B r) :=
    ensures_bind fun _ => ensures_bind fun _ => ensures_ok trivial
  have hpayload : Ensures LeafIsScalar (readPayload B B.maxString r (b &&& 0x1f).toNat >>=
      fun v => .ok (.leaf (.string v.1), v.2)) := ensures_bind fun _ => ensures_ok trivial
  -- The branches in source order.
  refine ensures_ite (hok _ trivial) (ensures_ite (hok _ trivial) (ensures_ite (hok _ trivial)
    (ensures_ite (hok _ trivial) (ensures_ite hpayload (ensures_ite (hok _ trivial)
      (ensures_ite ensures_null (ensures_ite (hok _ trivial) (ensures_ite (hok _ trivial)
        ?binary))))))))
  refine ensures_ite (hbin _) (ensures_ite (hbin _) (ensures_ite (hbin _)
    (ensures_ite ensures_null (ensures_ite ?float32 (ensures_ite ?float64 ?integers)))))
  case float32 => exact hleaf (fun v => .leaf (.float (widen v))) fun _ _ => trivial
  case float64 => exact hleaf (fun v => .leaf (.float v)) fun _ _ => trivial
  refine ensures_ite (huint _) (ensures_ite (huint _) (ensures_ite (huint _)
    (ensures_ite hint64 (ensures_ite ?int8 (ensures_ite ?int16 (ensures_ite ?int32
      (ensures_ite hint64 (ensures_ite ensures_null ?rest))))))))
  case int8 => exact hleaf (fun v : UInt8 => .leaf (.int v.toInt8.toInt64)) fun _ _ => trivial
  case int16 => exact hleaf (fun v : UInt16 => .leaf (.int v.toInt16.toInt64)) fun _ _ => trivial
  case int32 => exact hleaf (fun v : UInt32 => .leaf (.int v.toInt32.toInt64)) fun _ _ => trivial
  exact ensures_ite (hstr _) (ensures_ite (hstr _) (ensures_ite (hstr _)
    (ensures_ite (hfield _ .array fun _ _ => trivial)
      (ensures_ite (hfield _ .array fun _ _ => trivial)
        (ensures_ite (hfield _ .map fun _ _ => trivial)
          (ensures_ite (hfield _ .map fun _ _ => trivial) ensures_null))))))

theorem leafIsScalar_readHead (B : Build) (widen : UInt32 -> UInt64) (r : Reader) :
    Ensures LeafIsScalar (readHead B widen r) :=
  ensures_bind fun _ => ensures_bind fun _ => leafIsScalar_readBehind B widen _ _

/-!
### Containers
-/

section

variable {childTree : Reader -> Outcome (DataNode × Reader)} {readChild : NodeReader}
variable {c : Content} {R : Nat -> DataNode -> Prop}

theorem intKey_of_shows (h : Shows R c t) : intKey c = intKeyOf t := by
  cases h <;> rfl

theorem strKey_of_shows (h : Shows R c t) : strKey c = strKeyOf t := by
  cases h <;> rfl

variable (hchild : forall r h ext, Counted ext h ->
  Reads h ext k id (childTree r) (readChild r h))

include hchild

theorem reads_readEntries {K : Type} [DecidableEq K] {M : MapKind K}
    {tree : List (K × DataNode) -> DataNode} (hM : M.Trees tree) {keyOf : Content -> Option K}
    {keyOfTree : DataNode -> Option K}
    (hkey : forall {R c t}, Shows R c t -> keyOf c = keyOfTree t) {node : Nat}
    {es : List (K × DataNode)} (count : Nat) (r : Reader)
    (h1 : Built h0 ext (k + 1) h node (tree es)) :
    Reads h0 ext (k + 1) tree (entriesLoop childTree keyOfTree count es r)
      (readEntries readChild M keyOf node count r h) := by
  induction count generalizing h es r with
  | zero => exact .ok ⟨rfl, h1⟩
  | succ count ih =>
    rw [entriesLoop, readEntries]
    apply reads_childThen h1 (hchild _ _ _ h1.counted)
    intro keyTree r keyNode h2 hkeyNode
    have hdenotes := hkeyNode.denotes
    cases k with
    | zero => exact hdenotes.elim
    | succ k =>
      rcases hdenotes with ⟨content, hread, hshows⟩
      rcases hkeyNode.undo with ⟨h3, hrel, hundone⟩
      have hkeys := hkey hshows
      simp only [hread, some_bind]
      cases hcase : keyOfTree keyTree with
      | none =>
        simp only [hkeys.trans hcase, hrel]
        exact follows_giveUp h1 hundone
      | some key =>
        simp only [hkeys.trans hcase, hrel]
        -- The container is as it was before the key was read.
        have h4 : Built h0 ext (k + 1 + 1) h3 node (tree es) :=
          h1.after_undone hundone
        apply reads_childThen h4 (hchild _ _ _ h4.counted)
        intro valTree r a h5 hval
        rcases Built.insert hM key h4 hval with ⟨h6, hins, hnext⟩
        rw [hins]
        exact ih r hnext

theorem reads_readElems {arr : Nat} {es : List DataNode} (count : Nat) (r : Reader)
    (h1 : Built h0 ext (k + 1) h arr (.array es)) :
    Reads h0 ext (k + 1) array (MsgPack.readElems childTree count es r)
      (readElems readChild arr count r h) := by
  induction count generalizing h es r with
  | zero => exact .ok ⟨rfl, h1⟩
  | succ count ih =>
    rw [MsgPack.readElems, readElems]
    apply reads_childThen h1 (hchild _ _ _ h1.counted)
    intro elem r a h' hbuilt
    rcases h1.push hbuilt with ⟨h'', hpush, hnext⟩
    rw [hpush]
    exact ih r hnext

theorem reads_readMap (B : Build) (maxElements count : Nat) (r : Reader)
    (hcounted : Counted ext h) :
    Reads h ext (k + 1) id (MsgPack.readMap childTree B maxElements count r)
      (readMap readChild B maxElements count r h) := by
  have hobject := built_makeNode (k := k) (c := .object .empty) hcounted rfl fun R => .object .nil
  have hintMap := built_makeNode (k := k) (c := .intMap .empty) hcounted rfl fun R => .intMap .nil
  unfold MsgPack.readMap readMap
  split
  · exact follows_makeThen hcounted (.ok ⟨rfl, hobject⟩)
  split
  · exact .null (Undone.refl hcounted)
  apply follows_readThen hcounted
  intro _ _
  apply follows_readThen hcounted
  intro peek _
  dsimp only
  split
  · exact .null (Undone.refl hcounted)
  split
  · rw [readIntEntries_eq]
    exact follows_makeThen hcounted (reads_map intMap
      (reads_readEntries hchild intMaps_trees intKey_of_shows count r hintMap))
  rw [readStrEntries_eq]
  exact follows_makeThen hcounted (reads_map object
    (reads_readEntries hchild objects_trees strKey_of_shows count r hobject))

theorem reads_readArray (B : Build) (maxElements count : Nat) (r : Reader)
    (hcounted : Counted ext h) :
    Reads h ext (k + 1) id (MsgPack.readArray childTree B maxElements count r)
      (readArray readChild B maxElements count r h) := by
  have hmade := built_makeNode (k := k) (c := .array []) hcounted rfl fun R => .array .nil
  unfold MsgPack.readArray readArray
  split
  · exact .null (Undone.refl hcounted)
  · exact follows_makeThen hcounted (reads_map array (reads_readElems hchild count r hmade))

end

/-!
### Nodes and documents
-/

variable (B : Build) (widen : UInt32 -> UInt64) (maxElements : Nat)

theorem reads_readNode (levels : Nat) (r : Reader) (h : NodeHeap) (ext : List Nat)
    (hcounted : Counted ext h) :
    Reads h ext levels id (MsgPack.readNode B widen maxElements levels r)
      (readNode B widen maxElements levels r h) := by
  induction levels generalizing r h ext with
  | zero => exact .null (Undone.refl hcounted)
  | succ levels ih =>
    rw [MsgPack.readNode, readNode]
    apply follows_readThen hcounted
    rintro ⟨head, r'⟩ hhead
    cases head with
    | leaf t =>
      have hscalar : IsScalar t := leafIsScalar_readHead B widen r _ hhead
      exact follows_makeThen hcounted (.ok ⟨rfl, built_makeNode hcounted
        (children_scalarContent t) (shows_scalarContent hscalar)⟩)
    | map count => exact reads_readMap ih B maxElements count r' hcounted
    | array count => exact reads_readArray ih B maxElements count r' hcounted

theorem follows_msgPackParse (data : Bytes) (hcounted : Counted ext h) :
    Follows (fun t a h' => Built h ext (kMaxDepth + 1) h' a t) (Undone h ext)
      (MsgPack.msgPackParse B widen maxElements data)
      (msgPackParse B widen maxElements data h) := by
  unfold MsgPack.msgPackParse msgPackParse
  split
  · exact .null (Undone.refl hcounted)
  have hread := reads_readNode B widen maxElements (kMaxDepth + 1) ⟨data, 0⟩ h ext hcounted
  generalize MsgPack.readNode B widen maxElements (kMaxDepth + 1) ⟨data, 0⟩ = out at hread
  generalize readNode B widen maxElements (kMaxDepth + 1) ⟨data, 0⟩ h = res at hread
  cases hread with
  | @ok x y h' hdone =>
    rcases x with ⟨t, r⟩
    rcases y with ⟨a, r'⟩
    rcases hdone with ⟨hr, hbuilt⟩
    change r' = r at hr
    subst hr
    change Follows _ _ (if r'.pos ≠ data.length then Outcome.null else .ok t)
      (if r'.pos ≠ data.length then giveUp a h' else some (.ok a, h'))
    split
    · exact follows_giveUp hbuilt (Undone.refl hbuilt.counted)
    · exact .ok hbuilt
  | null hundone => exact .null hundone
  | fault h' => exact .fault h'
  | thrown h' => exact .thrown h'

end Async2.MsgPack.OnHeap
