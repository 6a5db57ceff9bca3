import Mathlib.Data.List.Lex
import Mathlib.Data.List.Pairwise
import Mathlib.Order.Lattice

/-!
# Maps ordered by a comparator

The entries of a map are in the order of a comparator on the keys, which may take different
keys for equivalent: those that have the same place in a linear order.  A map has one entry
for each place, under the key that came first.
-/

namespace Async2.OrderedMap

open List

variable {K V L : Type} (less : K -> K -> Bool)

def assign (k : K) (v : V) : List (K × V) -> List (K × V)
  | [] => [(k, v)]
  | (k', v') :: rest =>
    if less k k' then (k, v) :: (k', v') :: rest
    else if less k' k then (k', v') :: assign k v rest
    else (k', v) :: rest

def erase (k : K) : List (K × V) -> List (K × V)
  | [] => []
  | (k', v') :: rest =>
    if less k k' then (k', v') :: rest
    else if less k' k then (k', v') :: erase k rest
    else rest

def find (k : K) : List (K × V) -> Option V
  | [] => none
  | (k', v') :: rest =>
    if less k k' then none
    else if less k' k then find k rest
    else some v'

/-- Every entry comes before the later ones. -/
def Sorted (es : List (K × V)) : Prop := es.Pairwise fun e e' => less e.1 e'.1 = true

variable [LinearOrder L] {less} {place : K -> L} {es : List (K × V)} {k n : K} {v : V}
  (hless : forall a b, less a b = true <-> place a < place b)
include hless

theorem find_assign [Decidable (place n = place k)] :
    find less n (assign less k v es) = if place n = place k then some v else find less n es := by
  induction es with
  | nil => grind [assign, find]
  | cons e rest ih =>
    -- The new key comes before the entry, has its place or comes after it.
    rcases lt_trichotomy (place k) (place e.1) with hk | hk | hk
    · grind [assign, find]
    · grind [assign, find]
    · grind [assign, find]

theorem sorted_assign (hs : Sorted less es) : Sorted less (assign less k v es) := by
  have hmem : forall {es e}, e ∈ assign less k v es -> place e.1 = place k ∨ e ∈ es := by
    intro es
    induction es with
    | nil | cons e rest ih => grind [assign]
  induction es with
  | nil => exact pairwise_singleton _ _
  | cons e rest ih =>
    rcases pairwise_cons.mp hs with ⟨hfirst, hrest⟩
    unfold Sorted assign
    split
    case isTrue hk =>
      refine pairwise_cons.mpr ⟨fun e' he' => ?_, hs⟩
      grind
    split
    case isTrue hk =>
      refine pairwise_cons.mpr ⟨fun e' he' => ?_, ih hrest⟩
      grind
    exact pairwise_cons.mpr ⟨hfirst, hrest⟩

theorem find_eq_some_iff (hs : Sorted less es) :
    find less n es = some v <-> exists e, e ∈ es ∧ place e.1 = place n ∧ e.2 = v := by
  induction es with
  | nil => simp [find]
  | cons e rest ih =>
    rcases pairwise_cons.mp hs with ⟨hfirst, hrest⟩
    have hafter := ih hrest
    rcases lt_trichotomy (place n) (place e.1) with hn | hn | hn
    · grind [find]
    · grind [find]
    · grind [find]

theorem find_erase [Decidable (place n = place k)] (hs : Sorted less es) :
    find less n (erase less k es) = if place n = place k then none else find less n es := by
  induction es with
  | nil => grind [erase, find]
  | cons e rest ih =>
    rcases pairwise_cons.mp hs with ⟨hfirst, hrest⟩
    have hafter := ih hrest
    have hnone : place n <= place e.1 -> find less n rest = none := by
      intro hn
      rw [Option.eq_none_iff_forall_ne_some]
      intro v hfind
      rcases (find_eq_some_iff hless hrest).mp hfind with ⟨e', he', hplace, _⟩
      grind
    rcases lt_trichotomy (place k) (place e.1) with hk | hk | hk
    · grind [erase, find]
    · grind [erase, find]
    · grind [erase, find]

theorem find_congr (hplace : place k = place n) : find less k es = find less n es := by
  induction es with
  | nil => rfl
  | cons e rest ih => grind [find]

theorem nodup_of_sorted (hs : Sorted less es) : (es.map fun e => place e.1).Nodup :=
  pairwise_map.mpr (hs.imp fun h => ((hless _ _).mp h).ne)

omit hless [LinearOrder L] in
theorem forall_assign {P : K -> Prop} {Q : V -> Prop} (hes : forall e, e ∈ es -> P e.1 ∧ Q e.2)
    (hk : P k) (hv : Q v) (e : K × V) (he : e ∈ assign less k v es) : P e.1 ∧ Q e.2 := by
  induction es with
  | nil | cons e' rest ih => grind [assign]

omit hless [LinearOrder L] in
theorem erase_sublist : (erase less k es).Sublist es := by
  induction es with
  | nil => exact .slnil
  | cons e rest ih => grind [erase]

omit hless [LinearOrder L] in
theorem sorted_erase (hs : Sorted less es) : Sorted less (erase less k es) :=
  hs.sublist erase_sublist

end Async2.OrderedMap
