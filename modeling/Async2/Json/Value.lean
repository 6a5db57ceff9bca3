import Async2.Json.Grammar
import Async2.Data.Node
import Async2.Foundation.CNumbers

/-!
# The values that JSON texts denote

A JSON object denotes a finite map, so the order of its members carries no
meaning: here it is the function from keys to values.  When a key is repeated,
its first occurrence counts.  Integers are exact and all other numbers are
rounded to binary64.
-/

namespace Async2.Json

open Decimal List

/-- The number that a literal denotes. -/
inductive Number where
  | int (v : Int)
  | real (bits : UInt64)
  deriving DecidableEq

/-- The value that a JSON text denotes. -/
inductive Value where
  | null
  | bool (b : Bool)
  | num (n : Number)
  | str (s : Bytes)
  | arr (elems : List Value)
  | obj (member : Bytes -> Option Value)

/-- The exact number of an integer literal, the rounded one of any other. -/
def Number.ofLiteral (l : Literal) : Number :=
  if l.IsInteger then .int l.intValue else .real (CLib.literalBits l)

def string (s : List Item) : Bytes := (decode s).getD []

mutual

/-- The value of a document, for a given reading of its number literals. -/
def valueWith (number : Literal -> Number) : Json -> Value
  | .null => .null
  | .bool b => .bool b
  | .num l => .num (number l)
  | .str s => .str (string s)
  | .arr elems => .arr (valuesWith number elems)
  | .obj members => .obj (memberWith number members)

def valuesWith (number : Literal -> Number) : List Json -> List Value
  | [] => []
  | j :: elems => valueWith number j :: valuesWith number elems

/-- The value of the first member with a given key. -/
def memberWith (number : Literal -> Number) :
    List (List Item × Json) -> Bytes -> Option Value
  | [], _ => none
  | (k, j) :: members, key =>
    if string k = key then some (valueWith number j)
    else memberWith number members key

end

def value (j : Json) : Value := valueWith Number.ofLiteral j

/-!
## Properties of all parts of a document
-/

mutual

def Everywhere (P : Json -> Prop) : Json -> Prop
  | .arr elems => P (.arr elems) ∧ EverywhereElems P elems
  | .obj members => P (.obj members) ∧ EverywhereMembers P members
  | j => P j

def EverywhereElems (P : Json -> Prop) : List Json -> Prop
  | [] => True
  | j :: elems => Everywhere P j ∧ EverywhereElems P elems

def EverywhereMembers (P : Json -> Prop) : List (List Item × Json) -> Prop
  | [] => True
  | (_, j) :: members => Everywhere P j ∧ EverywhereMembers P members

end

mutual

/-- The greatest depth of a value in the document, which itself has depth
zero. -/
def height : Json -> Nat
  | .arr elems => heightElems elems
  | .obj members => heightMembers members
  | _ => 0

def heightElems : List Json -> Nat
  | [] => 0
  | j :: elems => max (height j + 1) (heightElems elems)

def heightMembers : List (List Item × Json) -> Nat
  | [] => 0
  | (_, j) :: members => max (height j + 1) (heightMembers members)

end

/-- The strings of a value itself denote byte strings. -/
def StringsDecode : Json -> Prop
  | .str s => decode s ≠ none
  | .obj members => forall m, m ∈ members -> decode m.1 ≠ none
  | _ => True

/-- Every string and every key denotes a byte string. -/
def Decodable (j : Json) : Prop := Everywhere StringsDecode j

variable {P : Json -> Prop} {members : List (List Item × Json)} {elems : List Json}

theorem everywhere_arr :
    Everywhere P (.arr elems) <-> P (.arr elems) ∧ forall j, j ∈ elems -> Everywhere P j := by
  have haux : EverywhereElems P elems <-> forall j, j ∈ elems -> Everywhere P j := by
    induction elems with
    | nil => simp [EverywhereElems]
    | cons j rest ih => simp [EverywhereElems, ih]
  rw [Everywhere, haux]

theorem everywhere_obj :
    Everywhere P (.obj members) <->
      P (.obj members) ∧ forall m, m ∈ members -> Everywhere P m.2 := by
  have haux : EverywhereMembers P members <->
      forall m, m ∈ members -> Everywhere P m.2 := by
    induction members with
    | nil => simp [EverywhereMembers]
    | cons m rest ih =>
      rcases m with ⟨k, j⟩
      rw [EverywhereMembers, ih]
      simp only [mem_cons, forall_eq_or_imp]
  rw [Everywhere, haux]

theorem height_lt_of_mem_arr {j : Json} (h : j ∈ elems) : height j < height (.arr elems) := by
  change height j < heightElems elems
  induction elems with
  | nil => cases h
  | cons x rest ih =>
    rw [heightElems]
    rcases mem_cons.mp h with rfl | hrest
    · omega
    · have := ih hrest
      omega

theorem height_lt_of_mem_obj {m : List Item × Json} (h : m ∈ members) :
    height m.2 < height (.obj members) := by
  change height m.2 < heightMembers members
  induction members with
  | nil => cases h
  | cons x rest ih =>
    rw [heightMembers]
    rcases mem_cons.mp h with rfl | hrest
    · omega
    · have := ih hrest
      omega

theorem height_arr_le {n : Nat} (h : forall j, j ∈ elems -> height j < n) :
    height (.arr elems) <= n := by
  change heightElems elems <= n
  induction elems with
  | nil => exact Nat.zero_le n
  | cons j rest ih =>
    have hj := h j (by simp)
    have hrest := ih (fun x hx => h x (by simp [hx]))
    rw [heightElems]
    omega

theorem height_obj_le {n : Nat} (h : forall m, m ∈ members -> height m.2 < n) :
    height (.obj members) <= n := by
  change heightMembers members <= n
  induction members with
  | nil => exact Nat.zero_le n
  | cons m rest ih =>
    have hm := h m (by simp)
    have hrest := ih (fun x hx => h x (by simp [hx]))
    rw [heightMembers]
    omega

variable {number : Literal -> Number}

theorem valuesWith_eq_map (elems : List Json) :
    valuesWith number elems = elems.map (valueWith number) := by
  induction elems with
  | nil => rfl
  | cons j rest ih => rw [valuesWith, ih, map_cons]

theorem memberWith_eq_find (members : List (List Item × Json)) (key : Bytes) :
    memberWith number members key =
      (AssocList.find key (members.map fun m => (string m.1, m.2))).map (valueWith number) := by
  induction members with
  | nil => rfl
  | cons m rest ih =>
    obtain ⟨k, j⟩ := m
    rw [memberWith, ih, map_cons, AssocList.find]
    split
    · rfl
    · rfl

/-!
## Values down to a depth
-/

/-- The value with `levels` levels kept and everything below them replaced by
null. -/
def Value.cut : Nat -> Value -> Value
  | 0, _ => .null
  | levels + 1, .arr elems => .arr (elems.map (cut levels))
  | levels + 1, .obj member => .obj fun k => (member k).map (cut levels)
  | _ + 1, v => v

end Async2.Json
