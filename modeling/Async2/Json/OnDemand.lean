import Async2.Json.Value

/-!
# The JSON parser

`DataParseJson` walks over the document that the simdjson library opens.  The
library reads a document on demand, so that every accessor may report an error of
its own.  Here a document is the tree of all answers, and the library the function
that opens it.  `Answers` states what the library documents about its answers for
a JSON text.
-/

namespace Async2.Json

open Decimal

/-- The answers of an on-demand value; `none` stands for an error code. -/
inductive OdValue where
  | invalid
  | null (isNull : Option Bool)
  | boolean (getBool : Option Bool)
  | number (getInt64 : Option Int64) (getUint64 : Option UInt64)
      (getDouble : Option UInt64)
  | string (getString : Option Bytes)
  | array (getArray : Option (List (Option OdValue)))
  | object (getObject : Option (List (Option (Option Bytes × OdValue))))

/-!
## From on-demand values to trees
-/

def maxParseDepth : Nat := 1024

/-- A number is an `int64_t` if it can be, then a `uint64_t` of which only the
bits are kept, then a `double`. -/
def odNumber (getInt64 : Option Int64) (getUint64 getDouble : Option UInt64) : Option DataNode :=
  match getInt64 with
  | some i => some (.int i)
  | none =>
    match getUint64 with
    | some u => some (.int u.toInt64)
    | none => getDouble.map .float

section

variable (odChild : OdValue -> Option DataNode)

def odElems : List DataNode -> List (Option OdValue) -> Option (List DataNode)
  | es, [] => some es
  | _, none :: _ => none
  | es, some child :: rest =>
    match odChild child with
    | none => none
    | some childNode => odElems (es ++ [childNode]) rest

def odFields : List (Bytes × DataNode) -> List (Option (Option Bytes × OdValue)) ->
    Option (List (Bytes × DataNode))
  | es, [] => some es
  | _, none :: _ => none
  | _, some (none, _) :: _ => none
  | es, some (some key, value) :: rest =>
    match odChild value with
    | none => none
    | some valNode => odFields (AssocList.emplace key valNode es) rest

/-- A value, given how the values in it are read and which answers of `is_null`
are accepted. -/
def odNode (nullOk : Bool -> Bool) : OdValue -> Option DataNode
  | .invalid => none
  | .null isNull => if isNull.any nullOk then some .null else none
  | .boolean getBool => getBool.map .bool
  | .number getInt64 getUint64 getDouble => odNumber getInt64 getUint64 getDouble
  | .string getString => getString.map .string
  | .array getArray => getArray.bind fun children =>
    (odElems odChild [] children).map .array
  | .object getObject => getObject.bind fun fields =>
    (odFields odChild [] fields).map .object

end

def odToNode : Nat -> OdValue -> Option DataNode
  | 0, _ => none
  | levels + 1, val => odNode (odToNode levels) (fun _ => true) val

def odToNodeDoc (doc : OdValue) : Option DataNode :=
  odNode (odToNode maxParseDepth) id doc

/-- Parse a JSON text: the tree, if there is one, and the message for a text that
cannot be opened. -/
def dataParseJson (iterate : Bytes -> Except String OdValue) (data : Bytes) :
    Option DataNode × Option String :=
  if data = [] then (none, none)
  else
    match iterate data with
    | .error message => (none, some message)
    | .ok doc => (odToNodeDoc doc, none)

/-!
## What the library documents
-/

/-- An accessor gives the right answer or, unless it is total, an error. -/
def Gives {α : Type} (total : Bool) (a : α) (answer : Option α) : Prop :=
  answer = some a ∨ (total = false ∧ answer = none)

/-- The literal is an integer in the range of `int64_t`. -/
def FitsInt64 (l : Literal) : Prop :=
  l.IsInteger ∧ -2 ^ 63 <= l.intValue ∧ l.intValue < 2 ^ 63

/-- The literal is an integer without sign in the range of `uint64_t`. -/
def FitsUint64 (l : Literal) : Prop :=
  l.IsInteger ∧ l.neg = false ∧ l.intValue < 2 ^ 64

instance (l : Literal) : Decidable (FitsInt64 l) :=
  inferInstanceAs (Decidable (_ ∧ _))

instance (l : Literal) : Decidable (FitsUint64 l) :=
  inferInstanceAs (Decidable (_ ∧ _))

/-- Integers are given when they fit, and doubles are rounded correctly; there
is no double for a number beyond the finite ones. -/
def NumberAnswers (total : Bool) (l : Literal) (getInt64 : Option Int64)
    (getUint64 getDouble : Option UInt64) : Prop :=
  getInt64 = (if FitsInt64 l then some (Int64.ofInt l.intValue) else none) ∧
  getUint64 =
    (if FitsUint64 l then some (UInt64.ofNat l.intValue.toNat) else none) ∧
  if Binary64.isInf (CLib.literalBits l) then getDouble = none
  else Gives total (CLib.literalBits l) getDouble

/-- A string is given when it denotes bytes. -/
def StringAnswers (total : Bool) (s : List Item) (answer : Option Bytes) : Prop :=
  match decode s with
  | none => answer = none
  | some bs => Gives total bs answer

mutual

/-- The answers are those for the document; unless they are total, each accessor
may also fail. -/
def Answers (total : Bool) : Json -> OdValue -> Prop
  | _, .invalid => total = false
  | .null, .null isNull => Gives total true isNull
  | .bool b, .boolean getBool => Gives total b getBool
  | .num l, .number getInt64 getUint64 getDouble =>
    NumberAnswers total l getInt64 getUint64 getDouble
  | .str s, .string getString => StringAnswers total s getString
  | .arr _, .array none => total = false
  | .arr elems, .array (some children) => AnswersElems total elems children
  | .obj _, .object none => total = false
  | .obj members, .object (some fields) => AnswersFields total members fields
  | _, _ => False

def AnswersElems (total : Bool) : List Json -> List (Option OdValue) -> Prop
  | [], [] => True
  | j :: elems, some child :: rest =>
    Answers total j child ∧ AnswersElems total elems rest
  | _, none :: _ => total = false
  | _, _ => False

def AnswersFields (total : Bool) : List (List Item × Json) ->
    List (Option (Option Bytes × OdValue)) -> Prop
  | [], [] => True
  | (k, j) :: members, some (key, value) :: rest =>
    StringAnswers total k key ∧ Answers total j value ∧
      AnswersFields total members rest
  | _, none :: _ => total = false
  | _, _ => False

end

mutual

/-- The answers for a document, given whenever there is one. -/
def reply : Json -> OdValue
  | .null => .null (some true)
  | .bool b => .boolean (some b)
  | .num l => .number
      (if FitsInt64 l then some (Int64.ofInt l.intValue) else none)
      (if FitsUint64 l then some (UInt64.ofNat l.intValue.toNat) else none)
      (if Binary64.isInf (CLib.literalBits l) then none
        else some (CLib.literalBits l))
  | .str s => .string (decode s)
  | .arr elems => .array (some (replyElems elems))
  | .obj members => .object (some (replyFields members))

def replyElems : List Json -> List (Option OdValue)
  | [] => []
  | j :: elems => some (reply j) :: replyElems elems

def replyFields : List (List Item × Json) -> List (Option (Option Bytes × OdValue))
  | [] => []
  | (k, j) :: members => some (decode k, reply j) :: replyFields members

end

theorem stringAnswers_decode (total : Bool) (s : List Item) : StringAnswers total s (decode s) := by
  unfold StringAnswers
  cases decode s with
  | none => rfl
  | some bs => exact .inl rfl

mutual

theorem answers_reply (total : Bool) : forall j : Json, Answers total j (reply j)
  | .null => .inl rfl
  | .bool _ => .inl rfl
  | .num l => by
    refine ⟨rfl, rfl, ?_⟩
    split
    · rfl
    · exact .inl rfl
  | .str s => stringAnswers_decode total s
  | .arr elems => answersElems_reply total elems
  | .obj members => answersFields_reply total members

theorem answersElems_reply (total : Bool) :
    forall elems : List Json, AnswersElems total elems (replyElems elems)
  | [] => trivial
  | j :: elems => ⟨answers_reply total j, answersElems_reply total elems⟩

theorem answersFields_reply (total : Bool) : forall members : List (List Item × Json),
    AnswersFields total members (replyFields members)
  | [] => trivial
  | (k, j) :: members => ⟨stringAnswers_decode total k, answers_reply total j,
      answersFields_reply total members⟩

end

/-- The library conforms to its documentation on a text of the document. -/
def Conforms (total : Bool) (iterate : Bytes -> Except String OdValue) (j : Json)
    (data : Bytes) : Prop :=
  match iterate data with
  | .error _ => total = false
  | .ok doc => Answers total j doc

theorem conforms_reply (total : Bool) (j : Json) (data : Bytes) :
    Conforms total (fun _ => .ok (reply j)) j data :=
  answers_reply total j

end Async2.Json
