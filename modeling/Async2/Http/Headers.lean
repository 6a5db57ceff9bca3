import Async2.Foundation.BigEndian
import Async2.Foundation.OrderedMap
import Mathlib.Data.List.Induction
import Mathlib.Data.List.TakeWhile

/-!
# Header lists

The headers that a request sends are those that the plugin has set, together with automatic
ones for the names that it has not.  Names are compared without regard to case.
-/

namespace Async2.Http

open OrderedMap List Option

/-- `std::tolower` of the C locale -/
def tolower (c : UInt8) : Nat := if 65 <= c.toNat ∧ c.toNat <= 90 then c.toNat + 32 else c.toNat

/-- `std::lexicographical_compare` -/
def lexicographicalCompare (lt : UInt8 -> UInt8 -> Bool) : Bytes -> Bytes -> Bool
  | _, [] => false
  | [], _ :: _ => true
  | a :: as, b :: bs =>
    if lt a b then true
    else if lt b a then false
    else lexicographicalCompare lt as bs

def headerCaseInsensitive (a b : Bytes) : Bool :=
  lexicographicalCompare (fun ca cb => tolower ca < tolower cb) a b

def stripCRLF (s : Bytes) : Bytes := s.filter fun c => c ≠ 13 ∧ c ≠ 10

/-- `std::map` keeps its entries in order. -/
structure HeaderMap where
  entries : List (Bytes × Bytes)
  sorted : Sorted headerCaseInsensitive entries

def folded (name : Bytes) : List Nat := name.map tolower

theorem headerCaseInsensitive_iff (a b : Bytes) :
    headerCaseInsensitive a b = true <-> folded a < folded b := by
  unfold headerCaseInsensitive folded
  induction a generalizing b with
  | nil => cases b <;> simp [lexicographicalCompare]
  | cons x xs ih =>
    cases b with
    | nil => simp [lexicographicalCompare]
    | cons y ys =>
      rw [map_cons, map_cons, cons_lt_cons_iff, ← ih]
      rcases lt_trichotomy (tolower x) (tolower y) with h | h | h
      · simp [lexicographicalCompare, h]
      · simp [lexicographicalCompare, h]
      · simp [lexicographicalCompare, h, h.not_gt, h.ne']

/-!
## Calls
-/

inductive HeaderCall where
  | setHeader (key value : Bytes)
  | removeHeader (key : Bytes)
  | clearHeaders

namespace HeaderMap

def empty : HeaderMap := ⟨[], List.Pairwise.nil⟩

def find (m : HeaderMap) (key : Bytes) : Option Bytes :=
  OrderedMap.find headerCaseInsensitive key m.entries

def setHeader (m : HeaderMap) (key value : Bytes) : HeaderMap :=
  ⟨assign headerCaseInsensitive key value m.entries,
    sorted_assign headerCaseInsensitive_iff m.sorted⟩

def removeHeader (m : HeaderMap) (key : Bytes) : HeaderMap :=
  ⟨erase headerCaseInsensitive key m.entries, sorted_erase m.sorted⟩

def clearHeaders (_ : HeaderMap) : HeaderMap := empty

def call (m : HeaderMap) : HeaderCall -> HeaderMap
  | .setHeader key value => m.setHeader key value
  | .removeHeader key => m.removeHeader key
  | .clearHeaders => m.clearHeaders

def after (calls : List HeaderCall) : HeaderMap := calls.foldl call empty

end HeaderMap

namespace HeaderCall

/-- What a call makes of the value of a name. -/
def effect (name : Bytes) (value : Option Bytes) : HeaderCall -> Option Bytes
  | setHeader key value' => if folded name = folded key then some value' else value
  | removeHeader key => if folded name = folded key then none else value
  | clearHeaders => none

/-- The name and the value that are used are of some kind. -/
def Uses (P Q : Bytes -> Prop) : HeaderCall -> Prop
  | setHeader key value => P key ∧ Q value
  | removeHeader key => P key
  | clearHeaders => True

end HeaderCall

/-- The value that the user has last set for a name and not taken away. -/
def lastSet (calls : List HeaderCall) (name : Bytes) : Option Bytes :=
  calls.foldl (HeaderCall.effect name) none

theorem find_after (calls : List HeaderCall) (name : Bytes) :
    (HeaderMap.after calls).find name = lastSet calls name := by
  unfold HeaderMap.after lastSet
  induction calls using List.reverseRecOn with
  | nil => rfl
  | append_singleton rest c ih =>
    rw [foldl_concat, foldl_concat, ← ih]
    cases c with
    | setHeader key value => exact find_assign headerCaseInsensitive_iff
    | removeHeader key => exact find_erase headerCaseInsensitive_iff (HeaderMap.sorted _)
    | clearHeaders => rfl

theorem forall_after {P Q : Bytes -> Prop} {calls : List HeaderCall}
    (hcalls : forall c, c ∈ calls -> c.Uses P Q) :
    forall e, e ∈ (HeaderMap.after calls).entries -> P e.1 ∧ Q e.2 := by
  unfold HeaderMap.after
  induction calls using List.reverseRecOn with
  | nil => exact fun e he => absurd he not_mem_nil
  | append_singleton rest c ih =>
    rw [forall_mem_append, forall_mem_singleton] at hcalls
    rw [foldl_concat]
    cases c with
    | setHeader key value =>
      exact forall_assign (ih hcalls.left) hcalls.right.left hcalls.right.right
    | removeHeader key => exact fun e he => ih hcalls.left e (erase_sublist.subset he)
    | clearHeaders => exact fun e he => absurd he not_mem_nil

/-!
## Lists
-/

/-- `curl_slist_append`, which copies a string up to its terminating zero. -/
def curlSlistAppend (built : List Bytes) (header : Bytes) : List Bytes :=
  built ++ [header.takeWhile fun c => c ≠ 0]

/-- A header without line breaks. -/
def headerLine (e : Bytes × Bytes) : Bytes := stripCRLF e.1 ++ [58, 32] ++ stripCRLF e.2

def buildHeaderSlist (headers : HeaderMap) (defaults : Option HeaderMap) : List Bytes :=
  let built := headers.entries.foldl (fun built e => curlSlistAppend built (headerLine e)) []
  match defaults with
  | none => built
  | some defaults => defaults.entries.foldl (fun built e =>
      if (headers.find e.1).isNone then curlSlistAppend built (headerLine e) else built) built

/-- The entries that become lines. -/
def emitted (headers autos : HeaderMap) : List (Bytes × Bytes) :=
  headers.entries ++ autos.entries.filter fun e => (headers.find e.1).isNone

theorem buildHeaderSlist_eq (headers autos : HeaderMap) :
    buildHeaderSlist headers (some autos) =
      (emitted headers autos).map fun e => (headerLine e).takeWhile fun c => c ≠ 0 := by
  have hloop : forall (p : Bytes × Bytes -> Bool) (es : List (Bytes × Bytes)) built,
      es.foldl (fun built e => if p e then curlSlistAppend built (headerLine e) else built)
        built = built ++ (es.filter p).map fun e => (headerLine e).takeWhile fun c => c ≠ 0 := by
    intro p es
    induction es with
    | nil => simp
    | cons e rest ih =>
      intro built
      rw [foldl_cons, ih]
      cases hp : p e <;> simp [hp, curlSlistAppend]
  have huser := hloop (fun _ => true) headers.entries []
  simp only [if_true, filter_true, nil_append] at huser
  unfold buildHeaderSlist emitted
  dsimp only
  rw [huser, hloop, map_append]

section

variable {headers autos m : HeaderMap} {name value : Bytes}

theorem HeaderMap.find_iff : m.find name = some value <->
    exists e, e ∈ m.entries ∧ folded e.1 = folded name ∧ e.2 = value :=
  find_eq_some_iff headerCaseInsensitive_iff m.sorted

theorem nodup_emitted : ((emitted headers autos).map fun e => folded e.1).Nodup := by
  have hautos := nodup_of_sorted headerCaseInsensitive_iff autos.sorted
  rw [emitted, map_append, nodup_append]
  refine ⟨nodup_of_sorted headerCaseInsensitive_iff headers.sorted,
    hautos.sublist (filter_sublist.map _), ?_⟩
  rintro a ha b hb rfl
  rcases mem_map.mp ha with ⟨e, he, hplace⟩
  rcases mem_map.mp hb with ⟨e', he', rfl⟩
  have hnone := (mem_filter.mp he').right
  rw [HeaderMap.find_iff.mpr ⟨e, he, hplace, rfl⟩] at hnone
  cases hnone

theorem mem_emitted_iff :
    (exists e, e ∈ emitted headers autos ∧ folded e.1 = folded name ∧ e.2 = value) <->
      (headers.find name).or (autos.find name) = some value := by
  have hsame : forall e : Bytes × Bytes, folded e.1 = folded name ->
      headers.find e.1 = headers.find name := fun e => find_congr headerCaseInsensitive_iff
  rw [or_eq_some_iff, HeaderMap.find_iff, HeaderMap.find_iff]
  constructor
  · rintro ⟨e, he, hplace⟩
    rcases mem_append.mp he with he | he
    · exact .inl ⟨e, he, hplace⟩
    · rcases mem_filter.mp he with ⟨he, hnone⟩
      rw [hsame e hplace.left, isNone_iff_eq_none] at hnone
      exact .inr ⟨hnone, e, he, hplace⟩
  · rintro (⟨e, he, hplace⟩ | ⟨hnone, e, he, hplace⟩)
    · exact ⟨e, mem_append_left _ he, hplace⟩
    · refine ⟨e, mem_append_right _ (mem_filter.mpr ⟨he, ?_⟩), hplace⟩
      rw [hsame e hplace.left, hnone]
      rfl

end

/-- A name that makes one header. -/
def OneLine (name : Bytes) : Prop := 13 ∉ name ∧ 10 ∉ name

/-- No header has a line break, and every name that is set or automatic has a line. -/
theorem headerLines_unambiguous (calls : List HeaderCall) (autos : HeaderMap)
    (hcalls : forall c, c ∈ calls -> c.Uses (0 ∉ ·) (0 ∉ ·))
    (hautos : forall e, e ∈ autos.entries -> 0 ∉ e.1 ∧ 0 ∉ e.2) :
    (forall line, line ∈ buildHeaderSlist (.after calls) (some autos) -> OneLine line) ∧
    ((forall c, c ∈ calls -> c.Uses OneLine fun _ => True) ->
      (forall e, e ∈ autos.entries -> OneLine e.1) ->
      exists entries : List (Bytes × Bytes),
        buildHeaderSlist (.after calls) (some autos) =
          entries.map (fun e => e.1 ++ [58, 32] ++ stripCRLF e.2) ∧
        (entries.map fun e => folded e.1).Nodup ∧
        forall name value, (exists e, e ∈ entries ∧ folded e.1 = folded name ∧ e.2 = value) <->
          (lastSet calls name).or (autos.find name) = some value) := by
  rw [buildHeaderSlist_eq]
  constructor
  · intro line hline
    rcases List.mem_map.mp hline with ⟨e, _, rfl⟩
    have hsub := (List.takeWhile_sublist (l := headerLine e) fun c => c ≠ 0).subset
    have hclean : OneLine (headerLine e) := by simp [OneLine, headerLine, stripCRLF]
    exact ⟨fun hmem => hclean.left (hsub hmem), fun hmem => hclean.right (hsub hmem)⟩
  · intro hnames hautoNames
    have hnul := forall_after hcalls
    have hone := forall_after hnames
    refine ⟨emitted (.after calls) autos, ?_, nodup_emitted, fun name value => ?_⟩
    · apply List.map_congr_left
      intro e he
      have hentry : (0 ∉ e.1 ∧ 0 ∉ e.2) ∧ OneLine e.1 := by
        rcases List.mem_append.mp he with he | he
        · exact ⟨hnul e he, (hone e he).left⟩
        · have hmem := (List.mem_filter.mp he).left
          exact ⟨hautos e hmem, hautoNames e hmem⟩
      have hname : stripCRLF e.1 = e.1 := List.filter_eq_self.mpr (by grind [OneLine])
      rw [headerLine, hname, List.takeWhile_eq_self_iff]
      intro c hc
      simp only [List.mem_append, stripCRLF, List.mem_filter] at hc
      grind
    · rw [mem_emitted_iff, find_after]

/-- A header that is set twice, in different spellings, and an automatic one. -/
def setTwice : List HeaderCall :=
  [.setHeader [65] [1], .removeHeader [66], .setHeader [97] [13, 10, 2]]

theorem headerLines_setTwice :
    buildHeaderSlist (.after setTwice) (some (HeaderMap.empty.setHeader [69] [])) =
        [[65, 58, 32, 2], [69, 58, 32]] ∧
      forall line, line ∈ buildHeaderSlist (.after setTwice)
        (some (HeaderMap.empty.setHeader [69] [])) -> OneLine line :=
  ⟨rfl, (headerLines_unambiguous setTwice (HeaderMap.empty.setHeader [69] [])
    (by simp [setTwice, HeaderCall.Uses]) (by decide)).left⟩

end Async2.Http
