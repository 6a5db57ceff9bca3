import Async2.Ownership.Owned

/-!
# Error reports of paths

`ResolveJsonPath` goes down from a node along the arguments of a native.  When a step fails,
the path up to there is put together by a second walk over the same arguments, which has
stopping rules of its own.
-/

namespace Async2.Ownership

open CLib Decimal Content

def message (s : String) : Bytes := ascii s.toList

/-- A dash between blanks, in UTF-8. -/
def dash : Bytes := [0x20, 0xE2, 0x80, 0x94, 0x20]

/-- `g_path_failed` and `g_path_error` -/
structure PathReport where
  failed : Bool
  error : Bytes

def dataTypeName : DataType -> Bytes
  | .null => message "null"
  | .bool => message "bool"
  | .int => message "int"
  | .float => message "float"
  | .string => message "string"
  | .array => message "array"
  | .object => message "object"
  | .intMap => message "intobject"
  | .binary => message "binary"

def keyBuf (key : Bytes) : Bytes := (cStr key).take maxPathKeyLen

/-- `Arr()[index]` behind the check of the bounds. -/
def elementAt (arr : List Nat) (index : Int32) : Option Nat :=
  if index < 0 then none else arr[index.toInt.toNat]?

/-- `std::to_string` -/
def toText (v : Int64) : Bytes := (lldLiteral v).text

/-- `if (!path.empty()) path += "."` -/
def dotted (path : Bytes) : Bytes := if path.isEmpty then path else path ++ message "."

def buildPathString (h : NodeHeap) : Nat -> List PathArg -> Nat -> Bytes -> Run Bytes
  | steps + 1, arg :: rest, n, path => do
    let c ← contentAt h n
    if c.type = .object then
      match arg.key with
      | none => return path
      | some key =>
        match (← getMap objects c).find (keyBuf key) with
        | none => return dotted path ++ keyBuf key
        | some child => buildPathString h steps rest child (dotted path ++ keyBuf key)
    else if c.type = .intMap then
      match arg.cell with
      | none => return path
      | some cell =>
        let key := cell.toInt64
        match (← getMap intMaps c).find key with
        | none => return dotted path ++ toText key
        | some child => buildPathString h steps rest child (dotted path ++ toText key)
    else if c.type = .array then
      match arg.cell with
      | none => return path
      | some index =>
        let path := path ++ message "[" ++ toText index.toInt64 ++ message "]"
        match elementAt (← c.getArr) index with
        | none => return path
        | some child => buildPathString h steps rest child path
    else return path
  | _, _, _, path => return path

/-- `SetPathError`, after which a null pointer is returned. -/
def setPathError (h : NodeHeap) (root : Nat) (args : List PathArg) (step : Nat)
    (reason : Bytes) : Run (Option Nat × PathReport) := do
  let path ← buildPathString h step args root []
  let shown := if path.isEmpty then message "<root>" else path
  return (none, ⟨true, shown ++ dash ++ reason⟩)

def outOfBounds (index : Int32) (size : UInt64) : Bytes :=
  message "index " ++ toText index.toInt64 ++ message " out of bounds (length " ++
    digitText (decDigits size.toNat) ++ message ")"

def cannotIndex (type : DataType) : Bytes := message "cannot index into " ++ dataTypeName type

/-- The loop of `ResolveJsonPath` from step `i` on. -/
def resolveLoop (h : NodeHeap) (root : Nat) (args : List PathArg) :
    Nat -> List PathArg -> Nat -> Run (Option Nat × PathReport)
  | _, [], n => return (some n, ⟨false, []⟩)
  | i, arg :: rest, n => do
    let c ← contentAt h n
    if c.type = .object then
      match arg.key with
      | none => setPathError h root args i (message "expected string key for object")
      | some key =>
        match (← getMap objects c).find (keyBuf key) with
        | none => setPathError h root args (i + 1) (message "key not found")
        | some child => resolveLoop h root args (i + 1) rest child
    else if c.type = .intMap then
      match arg.cell with
      | none => setPathError h root args i (message "expected integer key for intmap")
      | some cell =>
        match (← getMap intMaps c).find cell.toInt64 with
        | none => setPathError h root args (i + 1) (message "key not found")
        | some child => resolveLoop h root args (i + 1) rest child
    else if c.type = .array then
      match arg.cell with
      | none => setPathError h root args i (message "expected integer index for array")
      | some index =>
        let arr ← c.getArr
        match elementAt arr index with
        | none =>
          setPathError h root args (i + 1)
            (snprintf 64 (outOfBounds index (UInt64.ofNat arr.length)))
        | some child => resolveLoop h root args (i + 1) rest child
    else setPathError h root args i (snprintf 64 (cannotIndex c.type))

/-- `ResolveJsonPath` with the report that it leaves. -/
def reportJsonPath (h : NodeHeap) (args : List PathArg) : Option Nat ->
    Run (Option Nat × PathReport)
  | none => return (none, ⟨true, message "<root>" ++ dash ++ message "null node"⟩)
  | some root => resolveLoop h root args 0 args root

/-!
## Iterated lookup of members
-/

inductive PathKey where
  | name (key : Bytes)
  | number (key : Int64)
  | index (i : Int32)

/-- How a step is shown behind the text of the steps before it. -/
def PathKey.shown (text : Bytes) : PathKey -> Bytes
  | .name key => if text = [] then key else text ++ message "." ++ key
  | .number key => if text = [] then toText key else text ++ message "." ++ toText key
  | .index i => text ++ message "[" ++ toText i.toInt64 ++ message "]"

/-- The step that a node reads from an argument, or why it reads none.  A string of up to 256
bytes is a key as it is. -/
def Content.asks : Content -> PathArg -> Except Bytes PathKey
  | .object _, arg =>
    match arg.key with
    | some key => .ok (.name ((cStr key).take 256))
    | none => .error (message "expected string key for object")
  | .intMap _, arg =>
    match arg.cell with
    | some cell => .ok (.number cell.toInt64)
    | none => .error (message "expected integer key for intmap")
  | .array _, arg =>
    match arg.cell with
    | some cell => .ok (.index cell)
    | none => .error (message "expected integer index for array")
  | c, _ => .error (cannotIndex c.type)

/-- The member of a node, or why it has none. -/
def Content.member : Content -> PathKey -> Except Bytes Nat
  | .object obj, .name key => (obj.find key).elim (.error (message "key not found")) .ok
  | .intMap intmap, .number key => (intmap.find key).elim (.error (message "key not found")) .ok
  | .array arr, .index i =>
    if i < 0 then .error (outOfBounds i (UInt64.ofNat arr.length))
    else arr[i.toInt.toNat]?.elim (.error (outOfBounds i (UInt64.ofNat arr.length))) .ok
  | _, _ => .error []

/-- The steps up to the first one without a member, which is the last of them unless there
was nothing to look up, and the node at the end or the reason of the failure. -/
def follow (h : NodeHeap) : List PathArg -> Nat -> Run (List PathKey × Except Bytes Nat)
  | [], n => return ([], .ok n)
  | arg :: rest, n => do
    let c ← contentAt h n
    match c.asks arg with
    | .error reason => return ([], .error reason)
    | .ok key =>
      match c.member key with
      | .error reason => return ([key], .error reason)
      | .ok child =>
        let found ← follow h rest child
        return (key :: found.1, found.2)

/-- What is reported when the text of the steps begins with `text`. -/
def reportFrom (text : Bytes) : List PathKey × Except Bytes Nat -> Option Nat × PathReport
  | (_, .ok n) => (some n, ⟨false, []⟩)
  | (keys, .error reason) =>
    let path := keys.foldl PathKey.shown text
    (none, ⟨true, (if path = [] then message "<root>" else path) ++ dash ++ reason⟩)

/-!
## The two walks
-/

variable {h : NodeHeap} {ext : List Nat} {n root child : Nat} {node : Node}
variable {arg : PathArg} {args rest : List PathArg} {text : Bytes}

theorem toText_length (i : Int32) : (toText i.toInt64).length <= 12 := by
  have hlow : -2 ^ 31 <= i.toInt := Int32.le_toInt i
  have hhigh : i.toInt < 2 ^ 31 := Int32.toInt_lt i
  have hlog : Nat.log 10 i.toInt.natAbs < 10 := by
    apply Nat.log_lt_of_lt_pow'
    · decide
    · omega
  refine (text_length_le _).trans ?_
  simp only [lldLiteral, decDigits, fixedDigits_length, Literal.expText, List.length_nil,
    Int32.toInt_toInt64]
  omega

theorem snprintf_outOfBounds (i : Int32) (size : UInt64) :
    snprintf 64 (outOfBounds i size) = outOfBounds i size := by
  have hindex := toText_length i
  have hlog : Nat.log 10 size.toNat < 20 := by
    apply Nat.log_lt_of_lt_pow'
    · decide
    · have := size.toNat_lt
      omega
  apply List.take_of_length_le
  simp only [outOfBounds, List.length_append, digitText_length, decDigits, fixedDigits_length]
  have htexts : (message "index ").length = 6 ∧
      (message " out of bounds (length ").length = 23 ∧ (message ")").length = 1 := by decide
  omega

theorem snprintf_cannotIndex (type : DataType) :
    snprintf 64 (cannotIndex type) = cannotIndex type := by
  cases type <;> decide

theorem dotted_append (key : Bytes) :
    dotted text ++ key = if text = [] then key else text ++ message "." ++ key := by
  cases text <;> rfl

/-- What both walks do with an argument at a node. -/
inductive Steps (h : NodeHeap) (root : Nat) (args : List PathArg) (n : Nat) (c : Content)
    (arg : PathArg) (rest : List PathArg) : Prop where
  | unread (reason : Bytes) (hasks : c.asks arg = .error reason)
      (hpath : pathStep h n arg = .ok none)
      (hloop : forall i, resolveLoop h root args i (arg :: rest) n =
        setPathError h root args i reason)
  | missing (key : PathKey) (reason : Bytes) (hasks : c.asks arg = .ok key)
      (hmember : c.member key = .error reason)
      (hpath : pathStep h n arg = .ok none)
      (hloop : forall i, resolveLoop h root args i (arg :: rest) n =
        setPathError h root args (i + 1) reason)
      (hbuild : forall s text, buildPathString h (s + 1) (arg :: rest) n text =
        .ok (key.shown text))
  | found (key : PathKey) (child : Nat) (hasks : c.asks arg = .ok key)
      (hmember : c.member key = .ok child) (hedge : h.Edge n child)
      (hpath : pathStep h n arg = .ok (some child))
      (hloop : forall i, resolveLoop h root args i (arg :: rest) n =
        resolveLoop h root args (i + 1) rest child)
      (hbuild : forall s text, buildPathString h (s + 1) (arg :: rest) n text =
        buildPathString h s rest child (key.shown text))

theorem Steps.of_found {c : Content} (found : Option Nat) (key : PathKey) (reason : Bytes)
    (hasks : c.asks arg = .ok key)
    (hmember : c.member key = found.elim (.error reason) .ok)
    (hedge : forall v, found = some v -> h.Edge n v) (hpath : pathStep h n arg = .ok found)
    (hloop : forall i, resolveLoop h root args i (arg :: rest) n =
      found.elim (setPathError h root args (i + 1) reason) (resolveLoop h root args (i + 1) rest))
    (hbuild : forall s text, buildPathString h (s + 1) (arg :: rest) n text =
      found.elim (.ok (key.shown text)) fun v => buildPathString h s rest v (key.shown text)) :
    Steps h root args n c arg rest := by
  cases found with
  | none => exact .missing key reason hasks hmember hpath hloop hbuild
  | some child => exact .found key child hasks hmember (hedge child rfl) hpath hloop hbuild

theorem steps_of_read (root : Nat) (args : List PathArg) (arg : PathArg) (rest : List PathArg)
    (hread : h.read n = some node) :
    Steps h root args n node.content arg rest := by
  rcases node with ⟨version, c⟩
  rcases arg with ⟨key, cell⟩
  have hpath := pathStep.eq_1 h n ⟨key, cell⟩
  have hloop := fun i => resolveLoop.eq_2 h root args i n ⟨key, cell⟩ rest
  have hbuild := fun s text => buildPathString.eq_1 h n text s ⟨key, cell⟩ rest
  simp only [contentAt_of_read hread] at hpath hloop hbuild
  cases c with
  | object obj =>
    cases key with
    | none => exact .unread _ rfl hpath hloop
    | some key =>
      simp only [type, getMap, objects, bind, Except.bind, dotted_append] at hloop hbuild
      refine .of_found (obj.find (keyBuf key)) (.name (keyBuf key)) _ rfl rfl
        (fun v => edge_of_find (M := objects) hread rfl) hpath (fun i => (hloop i).trans ?_)
        fun s text => (hbuild s text).trans ?_
      · cases obj.find (keyBuf key) <;> rfl
      · cases obj.find (keyBuf key) <;> rfl
  | intMap intmap =>
    cases cell with
    | none => exact .unread _ rfl hpath hloop
    | some cell =>
      simp only [type, getMap, intMaps, bind, Except.bind, dotted_append] at hloop hbuild
      refine .of_found (intmap.find cell.toInt64) (.number cell.toInt64) _ rfl rfl
        (fun v => edge_of_find (M := intMaps) hread rfl) hpath (fun i => (hloop i).trans ?_)
        fun s text => (hbuild s text).trans ?_
      · cases intmap.find cell.toInt64 <;> rfl
      · cases intmap.find cell.toInt64 <;> rfl
  | array arr =>
    cases cell with
    | none => exact .unread _ rfl hpath hloop
    | some i =>
      simp only [type, getArr, bind, Except.bind, snprintf_outOfBounds]
        at hloop hbuild
      refine .of_found (elementAt arr i) (.index i) (outOfBounds i (UInt64.ofNat arr.length)) rfl
        ?_ ?_ (hpath.trans (apply_ite Except.ok (i < 0) none _).symm)
        (fun k => (hloop k).trans ?_) fun s text => (hbuild s text).trans ?_
      · simp only [member, elementAt]
        split <;> rfl
      · intro v hv
        unfold elementAt at hv
        split at hv
        · cases hv
        · exact edge_of_elem hread rfl hv
      · cases elementAt arr i <;> rfl
      · cases elementAt arr i <;> rfl
  | _ =>
    refine .unread _ rfl hpath fun i => (hloop i).trans ?_
    exact congrArg (setPathError h root args i) (snprintf_cannotIndex _)

theorem setPathError_of_build {step : Nat} (hbuild : buildPathString h step args root [] = .ok text)
    (reason : Bytes) :
    setPathError h root args step reason = .ok (reportFrom text ([], .error reason)) := by
  rw [setPathError, hbuild]
  cases text <;> rfl

theorem reports_of_denotes {k : Nat} {t : DataNode} (ht : Denotes h k n t) (i : Nat)
    (hbuild : forall s, buildPathString h (i + s) args root [] =
      buildPathString h s rest n text) :
    exists found, follow h rest n = .ok found ∧
      resolveJsonPath h rest n = .ok found.2.toOption ∧
      resolveLoop h root args i rest n = .ok (reportFrom text found) := by
  induction rest generalizing n i text k t with
  | nil => exact ⟨_, rfl, rfl, rfl⟩
  | cons arg rest ih =>
    cases k with
    | zero => exact ht.elim
    | succ k =>
    rcases id ht with ⟨node, hread, hshows⟩
    rw [follow, resolveJsonPath, contentAt_of_read hread]
    cases steps_of_read root args arg rest hread with
    | unread reason hasks hpath hloop =>
      refine ⟨([], .error reason), ?_, ?_, ?_⟩
      · simp only [bind, Except.bind, hasks]
        rfl
      · rw [hpath]
        rfl
      · rw [hloop]
        exact setPathError_of_build (hbuild 0) reason
    | missing key reason hasks hmember hpath hloop hstep =>
      refine ⟨([key], .error reason), ?_, ?_, ?_⟩
      · simp only [bind, Except.bind, hasks, hmember]
        rfl
      · rw [hpath]
        rfl
      · rw [hloop]
        exact setPathError_of_build ((hbuild 1).trans (hstep 0 text)) reason
    | found key child hasks hmember hedge hpath hloop hstep =>
      have hnext : forall s, buildPathString h (i + 1 + s) args root [] =
          buildPathString h s rest child (key.shown text) := by
        intro s
        rw [Nat.add_right_comm, Nat.add_assoc, hbuild, hstep]
      rcases ht.edge hedge with ⟨t', ht'⟩
      rcases ih ht' (i + 1) hnext with ⟨⟨keys, out⟩, hfollow, hresolve, hrest⟩
      refine ⟨(key :: keys, out), ?_, ?_, ?_⟩
      · simp only [bind, Except.bind, hasks, hmember, hfollow]
        rfl
      · rw [hpath]
        exact hresolve
      · rw [hloop, hrest]
        cases out <;> rfl

/-- The lookup ends where iterated lookup of members ends, and the report of a failure names
the steps up to the one that fails. -/
theorem reportJsonPath_agrees {k : Nat} {t : DataNode} (ht : Denotes h k n t)
    (args : List PathArg) :
    exists found, follow h args n = .ok found ∧
      resolveJsonPath h args n = .ok found.2.toOption ∧
      reportJsonPath h args (some n) = .ok (reportFrom [] found) :=
  reports_of_denotes ht 0 fun s => by rw [Nat.zero_add]

/-- An object whose member `a` is an array of an empty object. -/
def arrayInObject : NodeHeap :=
  let h := (makeNode (.object .empty) .empty).2
  let h := (makeNode (.array [0]) h).2
  (makeNode (.object (Dict.empty.insert [97] 1)) h).2

/-- The keys `a` and `0` are found, the key `b` is not. -/
def missingMember : List PathArg := [⟨some [97], none⟩, ⟨none, some 0⟩, ⟨some [98], none⟩]

theorem reportJsonPath_missingMember :
    Denotes arrayInObject 3 2 (.object [([97], .array [.object []])]) ∧
      follow arrayInObject missingMember 2 =
        .ok ([.name [97], .index 0, .name [98]], .error (message "key not found")) ∧
      resolveJsonPath arrayInObject missingMember 2 = .ok none ∧
      reportJsonPath arrayInObject missingMember (some 2) =
        .ok (none, ⟨true, message "a[0].b" ++ dash ++ message "key not found"⟩) := by
  have helement : Denotes arrayInObject 1 0 (.object []) := ⟨_, rfl, .object .nil⟩
  have harray : Denotes arrayInObject 2 1 (.array [.object []]) :=
    ⟨_, rfl, .array (.cons helement .nil)⟩
  have ht : Denotes arrayInObject 3 2 (.object [([97], .array [.object []])]) :=
    ⟨_, rfl, .object (.cons ⟨rfl, harray⟩ .nil)⟩
  have hfollow : follow arrayInObject missingMember 2 =
      .ok ([.name [97], .index 0, .name [98]], .error (message "key not found")) := rfl
  rcases reportJsonPath_agrees ht missingMember with ⟨found, hfound, hresolve, hreport⟩
  cases hfollow.symm.trans hfound
  exact ⟨ht, hfollow, hresolve, hreport⟩

end Async2.Ownership
