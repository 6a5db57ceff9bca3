import Async2.Handles.Cooldown

/-!
# The owners of handles

The manager keeps for every plugin the set of its handles.  A handle is in the set of a
plugin exactly if this plugin is its owner, so that `TakePluginHandles` finds them all.
-/

namespace Async2.Handles

open TransitionSystem List Option Dict

namespace HandleManager

def Owns (m : HandleManager) (ctx : Context) (id : HandleId) : Prop :=
  exists h, m.usedHandles.find id = some h ∧ h.owner = some ctx

def Listed (m : HandleManager) (ctx : Context) (id : HandleId) : Prop :=
  exists ids, m.pluginHandles.find ctx = some ids ∧ id ∈ ids

def NoEmptySet (m : HandleManager) : Prop :=
  forall ctx ids, m.pluginHandles.find ctx = some ids -> ids ≠ ∅

/-- The sets of the plugins have the handles that they own. -/
structure Indexed (m : HandleManager) : Prop where
  listed : forall ctx id, m.Listed ctx id <-> m.Owns ctx id
  nonempty : m.NoEmptySet

section

variable {m m' : HandleManager} {ctx : Context} {id y : HandleId} {owner : Option Context}
variable {h h' : Handle}

/-!
## The sets
-/

variable {ctx' : Context} {type : HandleType} {pointer : Nat} {newOwner : Option Context}

theorem find_addToPluginSet (m : HandleManager) (ctx' ctx : Context) (id : HandleId) :
    (m.addToPluginSet (some ctx') id).pluginHandles.find ctx =
      if ctx' = ctx then some (insert id ((m.pluginHandles.find ctx).getD ∅))
      else m.pluginHandles.find ctx := by
  unfold addToPluginSet
  simp only [find_insert]
  split
  case isTrue hctx => rw [hctx]
  · rfl

theorem find_removeFromPluginSet (m : HandleManager) (ctx' ctx : Context) (id : HandleId) :
    (m.removeFromPluginSet (some ctx') id).pluginHandles.find ctx =
      if ctx' = ctx then
        ((m.pluginHandles.find ctx).map fun ids => ids.erase id).filter fun ids => ids ≠ ∅
      else m.pluginHandles.find ctx := by
  unfold removeFromPluginSet
  cases hids : m.pluginHandles.find ctx' with
  | none =>
    simp only [hids]
    split
    case isTrue hctx =>
      rw [← hctx, hids]
      rfl
    · rfl
  | some ids =>
    simp only [hids]
    by_cases hempty : ids.erase id = ∅
    · rw [if_pos hempty]
      change (m.pluginHandles.erase ctx').find ctx = _
      rw [find_erase]
      split
      case isTrue hctx =>
        rw [← hctx, hids, map_some, hempty]
        rfl
      · rfl
    · rw [if_neg hempty]
      change (m.pluginHandles.insert ctx' (ids.erase id)).find ctx = _
      rw [find_insert]
      split
      case isTrue hctx =>
        rw [← hctx, hids, map_some, filter_some, if_pos]
        exact decide_eq_true hempty
      · rfl

theorem listed_addToPluginSet :
    (m.addToPluginSet owner id).Listed ctx y <-> owner = some ctx ∧ y = id ∨ m.Listed ctx y := by
  cases owner with
  | none =>
    change m.Listed ctx y <-> _
    simp
  | some ctx' =>
    unfold Listed
    rw [find_addToPluginSet]
    by_cases hctx : ctx' = ctx
    · cases m.pluginHandles.find ctx with
      | none | some ids => simp [hctx]
    · simp [hctx]

theorem listed_removeFromPluginSet :
    (m.removeFromPluginSet owner id).Listed ctx y <->
      m.Listed ctx y ∧ ¬ (owner = some ctx ∧ y = id) := by
  cases owner with
  | none =>
    change m.Listed ctx y <-> _
    simp
  | some ctx' =>
    unfold Listed
    rw [find_removeFromPluginSet]
    by_cases hctx : ctx' = ctx
    · cases m.pluginHandles.find ctx with
      | none => simp [hctx]
      | some ids =>
        simp only [hctx, if_true, map_some, filter_eq_some_iff,
          Option.some.injEq, decide_eq_true_eq, true_and]
        constructor
        · rintro ⟨ids', ⟨rfl, _⟩, hmem⟩
          rw [Finset.mem_erase] at hmem
          exact ⟨⟨ids, rfl, hmem.right⟩, hmem.left⟩
        · rintro ⟨⟨ids', rfl, hmem⟩, hne⟩
          have hmem' := Finset.mem_erase.mpr ⟨hne, hmem⟩
          exact ⟨_, ⟨rfl, Finset.ne_empty_of_mem hmem'⟩, hmem'⟩
    · simp [hctx]

theorem noEmptySet_addToPluginSet (hm : m.NoEmptySet) : (m.addToPluginSet owner id).NoEmptySet := by
  cases owner with
  | none => exact hm
  | some ctx' =>
    intro ctx ids hfind
    rw [find_addToPluginSet] at hfind
    split at hfind
    · cases hfind
      exact Finset.insert_ne_empty _ _
    · exact hm ctx ids hfind

theorem noEmptySet_removeFromPluginSet (hm : m.NoEmptySet) :
    (m.removeFromPluginSet owner id).NoEmptySet := by
  cases owner with
  | none => exact hm
  | some ctx' =>
    intro ctx ids hfind
    rw [find_removeFromPluginSet] at hfind
    split at hfind
    · exact of_decide_eq_true (filter_eq_some_iff.mp hfind).right
    · exact hm ctx ids hfind

/-!
## The calls
-/

theorem owns_insert {used : Dict HandleId Handle} (hused : m.usedHandles = used.insert id h) :
    m.Owns ctx y <-> (y = id ∧ h.owner = some ctx) ∨
      y ≠ id ∧ exists h', used.find y = some h' ∧ h'.owner = some ctx := by
  unfold Owns
  rw [hused, find_insert]
  by_cases hid : id = y
  · subst hid
    simp
  · have hne : y ≠ id := Ne.symm hid
    simp [hid, hne]

section

variable (hcreate : m.createHandle pointer type owner = some (id, m'))
include hcreate

theorem createHandle_eq_some :
    (id = 0 ∧ m' = m) ∨ (id ≠ 0 ∧ m.usedHandles.find id = none ∧
      m' = ({ m with
        nextHandle := id + 1
        usedHandles := m.usedHandles.insert id ⟨type, pointer, owner, false⟩ } :
          HandleManager).addToPluginSet owner id) := by
  unfold createHandle at hcreate
  split at hcreate
  · cases hcreate
  case h_2 found hscan =>
    split at hcreate
    · cases hcreate
      exact .inl ⟨rfl, rfl⟩
    case isFalse hfound =>
      cases hcreate
      refine .inr ⟨hfound, ?_, rfl⟩
      exact isSome_eq_false_iff.mp (scan_unused hscan hfound) |> isNone_iff_eq_none.mp

theorem owns_createHandle (hid : id ≠ 0) :
    m'.Owns ctx y <-> owner = some ctx ∧ y = id ∨ m.Owns ctx y := by
  rcases createHandle_eq_some hcreate with ⟨hzero, _⟩ | ⟨_, hunused, rfl⟩
  · exact absurd hzero hid
  · rw [owns_insert usedHandles_addToPluginSet]
    constructor
    · rintro (⟨hy, howner⟩ | ⟨_, howns⟩)
      · exact .inl ⟨howner, hy⟩
      · exact .inr howns
    · rintro (⟨howner, hy⟩ | howns)
      · exact .inl ⟨hy, howner⟩
      · refine .inr ⟨?_, howns⟩
        rintro rfl
        rcases howns with ⟨h, hfind, _⟩
        rw [hunused] at hfind
        cases hfind

end

theorem owns_freeHandle : (m.freeHandle id).Owns ctx y <-> y ≠ id ∧ m.Owns ctx y := by
  unfold freeHandle
  split
  case h_1 hnone =>
    constructor
    · intro howns
      refine ⟨?_, howns⟩
      rintro rfl
      rcases howns with ⟨h, hfind, _⟩
      rw [hnone] at hfind
      cases hfind
    · exact fun hboth => hboth.right
  case h_2 h hfind =>
    unfold Owns
    simp only [usedHandles_removeFromPluginSet, find_erase]
    by_cases hid : id = y
    · simp [hid]
    · simp [hid, Ne.symm hid]

theorem owns_markHandleClosed : (m.markHandleClosed id).Owns ctx y <-> m.Owns ctx y := by
  unfold markHandleClosed
  split
  · exact Iff.rfl
  case h_2 h hfind =>
    rw [owns_insert rfl]
    by_cases hy : y = id
    · subst hy
      simp [Owns, hfind]
    · simp [Owns, hy]

theorem owns_transferHandle (hfind : m.usedHandles.find id = some h) (hopen : h.closed = false)
    (hother : h.owner ≠ newOwner) :
    (m.transferHandle id newOwner).2.Owns ctx y <->
      newOwner = some ctx ∧ y = id ∨ y ≠ id ∧ m.Owns ctx y := by
  unfold transferHandle
  simp only [hfind, hopen, if_neg hother, Bool.false_eq_true, if_false]
  rw [owns_insert (usedHandles_addToPluginSet.trans (by rw [usedHandles_removeFromPluginSet]))]
  constructor
  · rintro (⟨hy, howner⟩ | hrest)
    · exact .inl ⟨howner, hy⟩
    · exact .inr hrest
  · rintro (⟨howner, hy⟩ | hrest)
    · exact .inl ⟨hy, howner⟩
    · exact .inr hrest

theorem transferHandle_same
    (hno : forall h, m.usedHandles.find id = some h -> h.closed = true ∨ h.owner = newOwner) :
    (m.transferHandle id newOwner).2 = m := by
  unfold transferHandle
  split
  · rfl
  case h_2 h hfind =>
    split
    · rfl
    case isFalse hopen =>
      split
      · rfl
      case isFalse hother => exact absurd ((hno h hfind).resolve_left hopen) hother

theorem owns_takePluginHandles :
    (m.takePluginHandles ctx').2.Owns ctx y <-> m.Owns ctx y ∧ ¬ m.Listed ctx' y := by
  unfold takePluginHandles Listed
  cases hids : m.pluginHandles.find ctx' with
  | none => simp
  | some ids =>
    unfold Owns
    simp only [find_mapValues, map_eq_some_iff, Option.some.injEq, exists_eq_left']
    constructor
    · rintro ⟨h', ⟨h, hfind, rfl⟩, howner⟩
      split at howner
      · cases howner
      case isFalse hnot => exact ⟨⟨h, hfind, howner⟩, hnot⟩
    · rintro ⟨⟨h, hfind, howner⟩, hnot⟩
      exact ⟨_, ⟨h, hfind, rfl⟩, by rw [if_neg hnot]; exact howner⟩

theorem listed_takePluginHandles :
    (m.takePluginHandles ctx').2.Listed ctx y <-> m.Listed ctx y ∧ ctx ≠ ctx' := by
  unfold takePluginHandles Listed
  cases hids : m.pluginHandles.find ctx' with
  | none =>
    constructor
    · rintro ⟨ids, hfind, hmem⟩
      refine ⟨⟨ids, hfind, hmem⟩, ?_⟩
      rintro rfl
      rw [hids] at hfind
      cases hfind
    · exact fun hboth => hboth.left
  | some ids =>
    simp only [find_erase]
    by_cases hctx : ctx' = ctx
    · simp [hctx]
    · simp [hctx, Ne.symm hctx]

/-!
## The index
-/

theorem indexed_init : HandleManager.init.Indexed := by
  refine ⟨fun ctx id => ⟨?_, ?_⟩, fun ctx ids hfind => by cases hfind⟩
  · rintro ⟨_, hfind, _⟩
    cases hfind
  · rintro ⟨_, hfind, _⟩
    cases hfind

variable (hm : m.Indexed)
include hm

theorem Indexed.createHandle (hcreate : m.createHandle pointer type owner = some (id, m')) :
    m'.Indexed := by
  rcases createHandle_eq_some hcreate with ⟨_, rfl⟩ | ⟨hid, _, hm'⟩
  · exact hm
  · constructor
    · intro ctx y
      rw [owns_createHandle hcreate hid, hm', listed_addToPluginSet, ← hm.listed]
      exact Iff.rfl
    · rw [hm']
      exact noEmptySet_addToPluginSet hm.nonempty

theorem Indexed.owner_of_listed (hfind : m.usedHandles.find id = some h)
    (hlisted : m.Listed ctx id) : h.owner = some ctx := by
  rcases (hm.listed ctx id).mp hlisted with ⟨h', hfind', howner⟩
  cases hfind.symm.trans hfind'
  exact howner

theorem Indexed.listed_remove (hfind : m.usedHandles.find id = some h) :
    (m.removeFromPluginSet h.owner id).Listed ctx y <-> y ≠ id ∧ m.Listed ctx y := by
  rw [listed_removeFromPluginSet]
  constructor
  · rintro ⟨hlisted, hnot⟩
    refine ⟨?_, hlisted⟩
    rintro rfl
    exact hnot ⟨hm.owner_of_listed hfind hlisted, rfl⟩
  · rintro ⟨hne, hlisted⟩
    exact ⟨hlisted, fun hboth => hne hboth.right⟩

theorem Indexed.freeHandle (id : HandleId) : (m.freeHandle id).Indexed := by
  cases hfind : m.usedHandles.find id with
  | none =>
    have hsame : m.freeHandle id = m := by
      unfold HandleManager.freeHandle
      rw [hfind]
    rw [hsame]
    exact hm
  | some h =>
    have hfree : (m.freeHandle id).pluginHandles =
        (m.removeFromPluginSet h.owner id).pluginHandles := by
      unfold HandleManager.freeHandle
      rw [hfind]
    constructor
    · intro ctx y
      rw [owns_freeHandle, ← hm.listed, ← hm.listed_remove hfind]
      unfold Listed
      rw [hfree]
    · unfold NoEmptySet
      rw [hfree]
      exact noEmptySet_removeFromPluginSet hm.nonempty

theorem Indexed.markHandleClosed (id : HandleId) : (m.markHandleClosed id).Indexed := by
  have hsame : (m.markHandleClosed id).pluginHandles = m.pluginHandles := by
    unfold HandleManager.markHandleClosed
    split
    · rfl
    · rfl
  constructor
  · intro ctx y
    rw [owns_markHandleClosed, ← hm.listed]
    unfold Listed
    rw [hsame]
  · unfold NoEmptySet
    rw [hsame]
    exact hm.nonempty

theorem Indexed.transferHandle (id : HandleId) (newOwner : Option Context) :
    (m.transferHandle id newOwner).2.Indexed := by
  by_cases hmoves : exists h, m.usedHandles.find id = some h ∧ h.closed = false ∧
      h.owner ≠ newOwner
  · rcases hmoves with ⟨h, hfind, hopen, hother⟩
    have hplugins : (m.transferHandle id newOwner).2.pluginHandles =
        ((m.removeFromPluginSet h.owner id).addToPluginSet newOwner id).pluginHandles := by
      unfold HandleManager.transferHandle
      simp only [hfind, hopen, if_neg hother, Bool.false_eq_true, if_false]
      cases newOwner <;> rfl
    constructor
    · intro ctx y
      rw [owns_transferHandle hfind hopen hother, ← hm.listed, ← hm.listed_remove hfind,
        ← listed_addToPluginSet]
      unfold Listed
      rw [hplugins]
    · unfold NoEmptySet
      rw [hplugins]
      exact noEmptySet_addToPluginSet (noEmptySet_removeFromPluginSet hm.nonempty)
  · rw [transferHandle_same]
    · exact hm
    · intro h hfind
      by_contra hnot
      rw [not_or] at hnot
      exact hmoves ⟨h, hfind, Bool.eq_false_iff.mpr hnot.left, hnot.right⟩

theorem Indexed.takePluginHandles (ctx' : Context) : (m.takePluginHandles ctx').2.Indexed := by
  constructor
  · intro ctx y
    rw [owns_takePluginHandles, listed_takePluginHandles, ← hm.listed]
    constructor
    · rintro ⟨hlisted, hne⟩
      refine ⟨hlisted, fun hlisted' => hne ?_⟩
      rcases (hm.listed ctx y).mp hlisted with ⟨h, hfind, howner⟩
      have howner' := hm.owner_of_listed hfind hlisted'
      rw [howner] at howner'
      exact Option.some.inj howner'
    · rintro ⟨hlisted, hnot⟩
      refine ⟨hlisted, ?_⟩
      rintro rfl
      exact hnot hlisted
  · unfold HandleManager.takePluginHandles
    split
    · exact hm.nonempty
    intro ctx ids hfind
    simp only [find_erase] at hfind
    split at hfind
    · cases hfind
    · exact hm.nonempty ctx ids hfind

theorem Indexed.owns_taken : (m.takePluginHandles ctx).2.Owns ctx y <-> False := by
  rw [owns_takePluginHandles, ← hm.listed]
  exact and_not_self_iff _

end

/-- `TakePluginHandles` gives out each handle of the plugin once and leaves the others. -/
structure TakesOwned (m : HandleManager) (ctx : Context) : Prop where
  taken : forall id h, (id, h) ∈ (m.takePluginHandles ctx).1 <->
    exists h0, m.usedHandles.find id = some h0 ∧ h0.owner = some ctx ∧ h = { h0 with owner := none }
  once : ((m.takePluginHandles ctx).1.map Prod.fst).Nodup
  others : forall id, ¬ m.Owns ctx id ->
    (m.takePluginHandles ctx).2.usedHandles.find id = m.usedHandles.find id
  sets : forall ctx', ctx' ≠ ctx ->
    (m.takePluginHandles ctx).2.pluginHandles.find ctx' = m.pluginHandles.find ctx'

/-- The handles of the set have no owner any more. -/
def detached (ids : Finset HandleId) (id : HandleId) (h : Handle) : Handle :=
  if id ∈ ids then { h with owner := none } else h

theorem Indexed.takesOwned {m : HandleManager} (hm : m.Indexed) (ctx : Context) :
    TakesOwned m ctx := by
  have howns := hm.listed ctx
  unfold Listed at howns
  cases hids : m.pluginHandles.find ctx with
  | none =>
    have hsame : m.takePluginHandles ctx = ([], m) := by
      unfold HandleManager.takePluginHandles
      rw [hids]
    simp only [hids] at howns
    refine ⟨fun id h => ?_, ?_, fun _ _ => ?_, fun _ _ => ?_⟩
    · rw [hsame]
      constructor
      · intro hmem
        cases hmem
      · rintro ⟨h0, hfind, howner, _⟩
        rcases (howns id).mpr ⟨h0, hfind, howner⟩ with ⟨_, hnone, _⟩
        cases hnone
    · rw [hsame]
      exact nodup_nil
    · rw [hsame]
    · rw [hsame]
  | some ids =>
    have hmem : forall id, id ∈ ids <-> m.Owns ctx id := by
      intro id
      rw [← howns id, hids]
      simp
    have htake : m.takePluginHandles ctx =
        ((m.usedHandles.mapValues (detached ids)).entries.filter fun e => e.1 ∈ ids,
          { m with
            usedHandles := m.usedHandles.mapValues (detached ids)
            pluginHandles := m.pluginHandles.erase ctx }) := by
      unfold HandleManager.takePluginHandles
      rw [hids]
      rfl
    refine ⟨fun id h => ?_, ?_, fun id hnot => ?_, fun ctx' hne => ?_⟩
    · have hentry : (id, h) ∈ (m.usedHandles.mapValues (detached ids)).entries <->
          (m.usedHandles.find id).map (detached ids id) = some h := by
        rw [← find_mapValues]
        exact ⟨AssocList.find_of_mem (distinct _), AssocList.mem_of_find⟩
      rw [htake, mem_filter, hentry, map_eq_some_iff]
      constructor
      · rintro ⟨⟨h0, hfind, rfl⟩, hid⟩
        have hid' : id ∈ ids := of_decide_eq_true hid
        rcases (hmem id).mp hid' with ⟨h1, hfind', howner⟩
        cases hfind.symm.trans hfind'
        exact ⟨h0, hfind, howner, if_pos hid'⟩
      · rintro ⟨h0, hfind, howner, rfl⟩
        have hid : id ∈ ids := (hmem id).mpr ⟨h0, hfind, howner⟩
        exact ⟨⟨h0, hfind, if_pos hid⟩, decide_eq_true hid⟩
    · rw [htake]
      exact (distinct _).sublist (filter_sublist.map Prod.fst)
    · rw [htake]
      change (m.usedHandles.mapValues (detached ids)).find id = _
      rw [find_mapValues]
      cases m.usedHandles.find id with
      | none => rfl
      | some h => exact congrArg some (if_neg fun hid => hnot ((hmem id).mp hid))
    · rw [htake]
      exact (find_erase _ _ _).trans (if_neg (Ne.symm hne))

theorem indexed_step {m m' : HandleManager} {c : Call} (hm : m.Indexed)
    (hstep : c.run m = some m') :
    m'.Indexed := by
  cases c with
  | createHandle pointer type owner =>
    rcases map_eq_some_iff.mp hstep with ⟨⟨id, _⟩, hcreate, rfl⟩
    exact hm.createHandle hcreate
  | freeHandle id =>
    cases hstep
    exact hm.freeHandle id
  | markHandleClosed id =>
    cases hstep
    exact hm.markHandleClosed id
  | transferHandle id newOwner =>
    cases hstep
    exact hm.transferHandle id newOwner
  | takePluginHandles ctx =>
    cases hstep
    exact hm.takePluginHandles ctx

end HandleManager

/-- The sets of the plugins are the handles that they own, and no set is empty. -/
theorem owners_indexed {m : HandleManager} (hreach : Reaches manager (fun _ _ => True) m) :
    (forall ctx id, m.Listed ctx id <-> m.Owns ctx id) ∧ m.NoEmptySet ∧
      forall ctx, m.TakesOwned ctx := by
  have hm : m.Indexed := hreach.invariant HandleManager.Indexed HandleManager.indexed_init
    fun _ _ _ hm _ hstep => HandleManager.indexed_step hm hstep
  exact ⟨hm.listed, hm.nonempty, hm.takesOwned⟩

/-- Plugin 1 owns two handles, one of which it got from plugin 2. -/
def createdAndTransferred : List Call :=
  [.createHandle 70 .iterator (some 1), .createHandle 80 .iterator (some 2),
    .transferHandle 2 (some 1)]

theorem owners_indexed_transferred :
    exists m, manager.run createdAndTransferred .init = some m ∧ m.Owns 1 2 ∧ m.TakesOwned 1 := by
  refine ⟨_, rfl, ⟨_, rfl, rfl⟩, ?_⟩
  have hreach : Reaches manager (fun _ _ => True) _ :=
    reaches_of_run createdAndTransferred .init (by decide) rfl
  exact (owners_indexed hreach).right.right 1

end Async2.Handles
