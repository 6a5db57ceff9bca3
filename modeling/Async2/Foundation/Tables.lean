import Async2.Foundation.Dict
import Mathlib.Data.List.Perm.Basic

/-!
# Tables of rows

A map that is kept in step with a list of rows: it has an entry for every row, under a key
that belongs to no other row, and nothing else.  The lemmas say how the map follows when rows
are added, replaced and taken out.  The order of the rows does not matter.
-/

namespace Async2

open List Option

namespace AssocList

variable {K V : Type} [DecidableEq K] {es fs : List (K × V)} {k : K} {v : V}

variable (hes : k ∉ keys es)
include hes

theorem find_middle : find k (es ++ (k, v) :: fs) = some v := by
  rw [find_append, find_eq_none_iff.mpr hes, none_or, find, if_pos rfl]

theorem eraseP_middle : (es ++ (k, v) :: fs).eraseP (fun e => e.1 = k) = es ++ fs := by
  rw [eraseP_append_right, eraseP_cons_of_pos (by simp)]
  intro e he heq
  rw [decide_eq_true_eq] at heq
  exact hes (heq ▸ mem_map_of_mem he)

theorem eraseP_of_not_mem : es.eraseP (fun e => e.1 = k) = es := by
  apply eraseP_of_forall_not
  intro e he heq
  rw [decide_eq_true_eq] at heq
  exact hes (heq ▸ mem_map_of_mem he)

end AssocList

/-- The entries of the map are those of the rows. -/
structure Tabulates {R K V : Type} [DecidableEq K] (d : Dict K V) (key : R -> K) (val : R -> V)
    (rows : List R) : Prop where
  find_iff : forall k v, d.find k = some v <-> exists row, row ∈ rows ∧ key row = k ∧ val row = v
  distinct : (rows.map key).Nodup

namespace Tabulates

variable {R K V : Type} [DecidableEq K] {d : Dict K V} {key : R -> K} {val : R -> V}
variable {rows rows' : List R} {row row' : R} {k : K} {v : V}

theorem empty : Tabulates (Dict.empty : Dict K V) key val ([] : List R) := by
  refine ⟨fun k v => ⟨?_, ?_⟩, nodup_nil⟩
  · intro hfind
    cases hfind
  · rintro ⟨row, hrow, _⟩
    cases hrow

section

variable (h : Tabulates d key val rows)
include h

theorem of_perm (hperm : rows'.Perm rows) : Tabulates d key val rows' := by
  refine ⟨fun k v => ?_, (hperm.map key).nodup_iff.mpr h.distinct⟩
  rw [h.find_iff]
  exact exists_congr fun row => and_congr_left' hperm.mem_iff.symm

theorem split (hfind : d.find k = some v) :
    exists ys row zs, rows = ys ++ row :: zs ∧ key row = k ∧ val row = v := by
  rcases (h.find_iff k v).mp hfind with ⟨row, hrow, hkey⟩
  rcases append_of_mem hrow with ⟨ys, zs, rfl⟩
  exact ⟨ys, row, zs, rfl, hkey⟩

theorem find_of_mem (hrow : row ∈ rows) : d.find (key row) = some (val row) :=
  (h.find_iff _ _).mpr ⟨row, hrow, rfl, rfl⟩

theorem find_eq_none : d.find k = none <-> k ∉ rows.map key := by
  constructor
  · intro hnone hmem
    rcases mem_map.mp hmem with ⟨row, hrow, rfl⟩
    rw [h.find_of_mem hrow] at hnone
    cases hnone
  · intro hnotin
    rw [eq_none_iff_forall_ne_some]
    intro v hfind
    rcases (h.find_iff k v).mp hfind with ⟨row, hrow, rfl, _⟩
    exact hnotin (mem_map_of_mem hrow)

end

theorem middle {ys zs : List R} (h : Tabulates d key val (ys ++ row :: zs)) :
    Tabulates d key val (row :: (ys ++ zs)) :=
  h.of_perm perm_middle.symm

theorem congr_row (h : Tabulates d key val (row :: rows)) (hkey : key row' = key row)
    (hval : val row' = val row) : Tabulates d key val (row' :: rows) := by
  refine ⟨fun k v => ?_, ?_⟩
  · rw [h.find_iff]
    simp only [mem_cons, exists_eq_or_imp, hkey, hval]
  · rw [map_cons, hkey]
    exact h.distinct

theorem insert (h : Tabulates d key val rows) (hnew : key row ∉ rows.map key) :
    Tabulates (d.insert (key row) (val row)) key val (row :: rows) := by
  refine ⟨fun k v => ?_, ?_⟩
  · rw [Dict.find_insert]
    split
    case isTrue hk =>
      subst hk
      constructor
      · intro hv
        exact ⟨row, mem_cons_self, rfl, Option.some.inj hv⟩
      · rintro ⟨row', hrow', hkey, rfl⟩
        rcases mem_cons.mp hrow' with rfl | hrow'
        · rfl
        · exact absurd (hkey ▸ mem_map_of_mem hrow') hnew
    case isFalse hk =>
      rw [h.find_iff]
      apply exists_congr
      intro row'
      rw [mem_cons]
      constructor
      · exact fun hrow' => ⟨.inr hrow'.left, hrow'.right⟩
      · rintro ⟨rfl | hrow', hkey, hval⟩
        · exact absurd hkey hk
        · exact ⟨hrow', hkey, hval⟩
  · rw [map_cons]
    exact nodup_cons.mpr ⟨hnew, h.distinct⟩

variable (h : Tabulates d key val (row :: rows))
include h

theorem erase : Tabulates (d.erase (key row)) key val rows := by
  have hdistinct := nodup_cons.mp h.distinct
  refine ⟨fun k v => ?_, hdistinct.right⟩
  rw [Dict.find_erase]
  split
  case isTrue hk =>
    subst hk
    constructor
    · intro hv
      cases hv
    · rintro ⟨row', hrow', hkey, _⟩
      exact absurd (hkey ▸ mem_map_of_mem hrow') hdistinct.left
  case isFalse hk =>
    rw [h.find_iff]
    apply exists_congr
    intro row'
    rw [mem_cons]
    constructor
    · rintro ⟨rfl | hrow', hkey, hval⟩
      · exact absurd hkey hk
      · exact ⟨hrow', hkey, hval⟩
    · exact fun hrow' => ⟨.inr hrow'.left, hrow'.right⟩

theorem replace (hkey : key row' = key row) :
    Tabulates (d.insert (key row') (val row')) key val (row' :: rows) := by
  have hdistinct := nodup_cons.mp h.distinct
  refine ⟨fun k v => ?_, ?_⟩
  · rw [Dict.find_insert]
    split
    case isTrue hk =>
      subst hk
      constructor
      · intro hv
        exact ⟨row', mem_cons_self, rfl, Option.some.inj hv⟩
      · rintro ⟨row2, hrow2, hkey2, rfl⟩
        rcases mem_cons.mp hrow2 with rfl | hrow2
        · rfl
        · rw [hkey] at hkey2
          exact absurd (hkey2 ▸ mem_map_of_mem hrow2) hdistinct.left
    case isFalse hk =>
      rw [h.find_iff]
      apply exists_congr
      intro row2
      rw [mem_cons, mem_cons]
      constructor
      · rintro ⟨rfl | hrow2, hkey2, hval⟩
        · exact absurd (hkey.trans hkey2) hk
        · exact ⟨.inr hrow2, hkey2, hval⟩
      · rintro ⟨rfl | hrow2, hkey2, hval⟩
        · exact absurd hkey2 hk
        · exact ⟨.inr hrow2, hkey2, hval⟩
  · rw [map_cons, hkey]
    exact h.distinct

end Tabulates

end Async2
