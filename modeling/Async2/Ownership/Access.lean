import Async2.Ownership.Node

/-!
# Access to the members of a node

A node is a tagged union.  The code tests the tag and then uses a member of the union; a
use of a member that is not the one of the tag is a fault, as is a use of a freed node.
The getters read a node that may be missing and answer with the value that they read,
before it is converted to cells.
-/

namespace Async2.Ownership

/-- The ways in which a native is undefined or does not return. -/
inductive Fault where
  /-- A freed node is used, or a recursion does not end. -/
  | freed
  /-- A member of the union is used under another tag. -/
  | member
  /-- A position in a hash map is used after it became invalid. -/
  | position
  /-- An exception leaves the native. -/
  | uncaught
  /-- Bytes outside of an input are read. -/
  | outside
deriving DecidableEq

abbrev Run (α : Type) := Except Fault α

/-- A helper without result has used a freed node or does not return. -/
def orFreed {α : Type} : Option α -> Run α
  | some x => .ok x
  | none => .error .freed

/-!
## Tags and members
-/

inductive DataType where
  | null | bool | int | float | string | array | object | intMap | binary
deriving DecidableEq

namespace Content

def type : Content -> DataType
  | .null => .null
  | .bool _ => .bool
  | .int _ => .int
  | .float _ => .float
  | .string _ => .string
  | .array _ => .array
  | .object _ => .object
  | .intMap _ => .intMap
  | .binary _ => .binary

def getBoolVal : Content -> Run Bool
  | .bool b => .ok b
  | _ => .error .member

def getIntVal : Content -> Run Int64
  | .int v => .ok v
  | _ => .error .member

def getFloatVal : Content -> Run UInt64
  | .float bits => .ok bits
  | _ => .error .member

def getStr : Content -> Run Bytes
  | .string s => .ok s
  | _ => .error .member

def getArr : Content -> Run (List Nat)
  | .array arr => .ok arr
  | _ => .error .member

def getBin : Content -> Run Bytes
  | .binary b => .ok b
  | _ => .error .member

end Content

def getMap {K : Type} (M : MapKind K) (c : Content) : Run (Dict K Nat) :=
  match M.get c with
  | some m => .ok m
  | none => .error .member

def contentAt (h : NodeHeap) (n : Nat) : Run Content := do
  let node ← orFreed (h.read n)
  return node.content

/-- `Arr().push_back` on the node at an address. -/
def pushBack (h : NodeHeap) (n val : Nat) : Run NodeHeap := do
  let node ← orFreed (h.read n)
  let arr ← node.content.getArr
  orFreed (h.write n { node with content := .array (arr ++ [val]) })

/-!
## Getters
-/

/-- The types that plugins see. -/
inductive JsonType where
  | none | null | bool | number | string | array | object | binary | intObject
deriving DecidableEq

/-- A scalar as a getter reads it. -/
inductive Reading where
  | bool (b : Bool)
  | int (v : Int64)
  | float (bits : UInt64)
  | string (s : Bytes)

inductive MapKey where
  | member (key : Bytes)
  | intMember (key : Int64)
deriving DecidableEq

inductive Answer where
  | void
  | handle (id : Int)
  | flag (b : Bool)
  | size (n : Nat)
  | type (t : JsonType)
  | reading (r : Reading)
  | key (key : MapKey)
  | bytes (b : Bytes)
  | code (n : Nat)
  | thrown

/-- What a getter makes of the node that it finds. -/
inductive Getter where
  | int | float | bool | string | type
deriving DecidableEq

/-- The value without a node or under a JSON null. -/
def Getter.default : Getter -> Answer
  | .int => .reading (.int 0)
  | .float => .reading (.float 0)
  | .bool => .reading (.bool false)
  | .string => .reading (.string [])
  | .type => .type .none

def nodeToType (c : Content) : JsonType :=
  match c.type with
  | .null => .null
  | .bool => .bool
  | .int => .number
  | .float => .number
  | .string => .string
  | .array => .array
  | .object => .object
  | .intMap => .intObject
  | .binary => .binary

/-- The numeric members; `other` is what the getter answers for the other types. -/
def readNumber (c : Content) (other : Answer) : Run Answer :=
  if c.type = .int then do return .reading (.int (← c.getIntVal))
  else if c.type = .float then do return .reading (.float (← c.getFloatVal))
  else if c.type = .bool then do return .reading (.bool (← c.getBoolVal))
  else return other

/-- Read a node that was found; `mismatch` is the answer for a value of another type. -/
def Getter.read (g : Getter) (mismatch : Answer) (c : Content) : Run Answer :=
  match g with
  | .type => return .type (nodeToType c)
  | .string =>
    if c.type = .string then do return .reading (.string (cStr (← c.getStr)))
    else return mismatch
  | _ => readNumber c mismatch

/-- `StrictAsInt`, `StrictAsFloat`, `StrictAsBool` and `StrictAsString` throw on a value of
another type; a null is a missing value.  The type of a member is read as it is. -/
def Getter.strict (g : Getter) (c : Content) : Run Answer :=
  if g = .type then g.read .thrown c
  else if c.type = .null then return g.default
  else g.read .thrown c

/-- The getters of paths and iterators answer with a default on a value of another type. -/
def Getter.lenient (g : Getter) (c : Content) : Run Answer := g.read g.default c

theorem readNumber_ok (c : Content) (other : Answer) : exists a, readNumber c other = .ok a := by
  cases c <;> exact ⟨_, rfl⟩

theorem Getter.read_ok (g : Getter) (mismatch : Answer) (c : Content) :
    exists a, g.read mismatch c = .ok a := by
  cases g with
  | type => exact ⟨_, rfl⟩
  | string => cases c <;> exact ⟨_, rfl⟩
  | _ => exact readNumber_ok c mismatch

theorem Getter.strict_ok (g : Getter) (c : Content) : exists a, g.strict c = .ok a := by
  unfold Getter.strict
  split
  · exact g.read_ok _ c
  split
  · exact ⟨_, rfl⟩
  · exact g.read_ok _ c

/-!
## Finding a member
-/

/-- An argument of a path, as a string and as a cell, where it can be read so. -/
structure PathArg where
  key : Option Bytes
  cell : Option Int32

/-- Where a getter looks, seen from the node of its handle. -/
inductive Locator where
  | self
  | member (key : Bytes)
  | element (index : Nat)
  | intMember (key : Int64)
  | path (args : List PathArg)

def maxPathKeyLen : Nat := 256

def arrayElem (h : NodeHeap) (n index : Nat) : Run (Option Nat) := do
  let c ← contentAt h n
  if c.type ≠ .array then return none
  else return (← c.getArr)[index]?

/-- The child that a path argument names.  A key is cut at a fixed length, and a negative
index is out of bounds. -/
def pathStep (h : NodeHeap) (n : Nat) (arg : PathArg) : Run (Option Nat) := do
  let c ← contentAt h n
  if c.type = .object then
    match arg.key with
    | none => return none
    | some key => return (← getMap objects c).find ((cStr key).take maxPathKeyLen)
  else if c.type = .intMap then
    match arg.cell with
    | none => return none
    | some cell => return (← getMap intMaps c).find cell.toInt64
  else if c.type = .array then
    match arg.cell with
    | none => return none
    | some cell =>
      if cell < 0 then return none
      else return (← c.getArr)[cell.toInt.toNat]?
  else return none

def resolveJsonPath (h : NodeHeap) : List PathArg -> Nat -> Run (Option Nat)
  | [], n => return some n
  | arg :: rest, n => do
    match ← pathStep h n arg with
    | none => return none
    | some child => resolveJsonPath h rest child

/-- The node that a locator leads to. -/
def Locator.find (h : NodeHeap) (n : Nat) : Locator -> Run (Option Nat)
  | .self => return some n
  | .member key => orFreed (objFind h n (cStr key))
  | .element index => arrayElem h n index
  | .intMember key => orFreed (intMapFind h n key)
  | .path args => resolveJsonPath h args n

inductive ChildFilter where
  | any | object | array | container
deriving DecidableEq

def ChildFilter.admits : ChildFilter -> DataType -> Bool
  | .any, _ => true
  | .object, t => t == .object
  | .array, t => t == .array
  | .container, t => t == .object || t == .array || t == .intMap

end Async2.Ownership
