import Async2.Handles.Search

/-!
# New handles

`CreateHandle` returns an id that is not in use, and an id comes again only after every other
one was given out or was in use in between.
-/

namespace Async2.Handles

open TransitionSystem

namespace HandleManager

variable {m m' : HandleManager} {id : HandleId} {owner : Option Context}

@[simp] theorem nextHandle_addToPluginSet :
    (m.addToPluginSet owner id).nextHandle = m.nextHandle := by
  cases owner <;> rfl

@[simp] theorem usedHandles_addToPluginSet :
    (m.addToPluginSet owner id).usedHandles = m.usedHandles := by
  cases owner <;> rfl

theorem removeFromPluginSet_eq (m : HandleManager) (owner : Option Context) (id : HandleId) :
    exists ps, m.removeFromPluginSet owner id = { m with pluginHandles := ps } := by
  unfold removeFromPluginSet
  split
  · exact ⟨_, rfl⟩
  split
  · exact ⟨_, rfl⟩
  split
  · exact ⟨_, rfl⟩
  · exact ⟨_, rfl⟩

@[simp] theorem nextHandle_removeFromPluginSet :
    (m.removeFromPluginSet owner id).nextHandle = m.nextHandle := by
  rcases removeFromPluginSet_eq m owner id with ⟨ps, hps⟩
  rw [hps]

@[simp] theorem usedHandles_removeFromPluginSet :
    (m.removeFromPluginSet owner id).usedHandles = m.usedHandles := by
  rcases removeFromPluginSet_eq m owner id with ⟨ps, hps⟩
  rw [hps]

/-- A manager whose cursor is at 1 has given out nothing yet. -/
def AtStart (m : HandleManager) : Prop :=
  m.nextHandle = 1 -> forall y, m.isUsed y = false

/-- What `CreateHandle` does. -/
structure Creates (m : HandleManager) (id : HandleId) (m' : HandleManager) : Prop where
  found : Found m.isUsed m.nextHandle id
  none : id = 0 -> m' = m
  next : id ≠ 0 -> m'.nextHandle = id + 1
  used : id ≠ 0 -> forall y, m'.isUsed y = true <-> y = id ∨ m.isUsed y = true

theorem createHandle_creates (hm : m.AtStart) (pointer : Nat) (type : HandleType)
    (owner : Option Context) :
    exists id m', m.createHandle pointer type owner = some (id, m') ∧ Creates m id m' := by
  rcases search_found m.isUsed m.nextHandle fun hone => hm hone 1 with ⟨id, hscan, hfound⟩
  unfold createHandle
  simp only [hscan]
  split
  case isTrue hzero =>
    exact ⟨0, m, rfl, ⟨hzero ▸ hfound, fun _ => rfl, fun h => absurd rfl h,
      fun h => absurd rfl h⟩⟩
  case isFalse hid =>
    refine ⟨id, _, rfl, ⟨hfound, fun h => absurd h hid, fun _ => ?_, fun _ y => ?_⟩⟩
    · rw [nextHandle_addToPluginSet]
    · unfold isUsed
      rw [usedHandles_addToPluginSet, Dict.find_insert]
      split
      case isTrue heq => simp [heq]
      case isFalse hne => simp [Ne.symm hne]

/-- The calls other than `CreateHandle` leave the cursor and use no new id. -/
structure Keeps (m m' : HandleManager) : Prop where
  next : m'.nextHandle = m.nextHandle
  used : forall y, m'.isUsed y = true -> m.isUsed y = true

theorem Keeps.refl (m : HandleManager) : Keeps m m := ⟨rfl, fun _ h => h⟩

theorem keeps_freeHandle (m : HandleManager) (id : HandleId) : Keeps m (m.freeHandle id) := by
  unfold freeHandle
  split
  · exact .refl m
  case h_2 h _ =>
    refine ⟨by simp, fun y hy => ?_⟩
    unfold isUsed at hy ⊢
    simp only [usedHandles_removeFromPluginSet, Dict.find_erase] at hy
    split at hy
    · cases hy
    · exact hy

theorem isUsed_insert {h h' : Handle} (hfind : m.usedHandles.find id = some h) (y : HandleId) :
    ((m.usedHandles.insert id h').find y).isSome = m.isUsed y := by
  unfold isUsed
  rw [Dict.find_insert]
  split
  case isTrue heq =>
    subst heq
    rw [hfind]
    rfl
  · rfl

theorem keeps_markHandleClosed (m : HandleManager) (id : HandleId) :
    Keeps m (m.markHandleClosed id) := by
  unfold markHandleClosed
  split
  · exact .refl m
  case h_2 h hfind => exact ⟨rfl, fun y hy => (isUsed_insert hfind y) ▸ hy⟩

theorem keeps_transferHandle (m : HandleManager) (id : HandleId) (newOwner : Option Context) :
    Keeps m (m.transferHandle id newOwner).2 := by
  unfold transferHandle
  split
  · exact .refl m
  case h_2 h hfind =>
    split
    · exact .refl m
    split
    · exact .refl m
    refine ⟨by simp, fun y hy => ?_⟩
    unfold isUsed at hy
    simp only [usedHandles_addToPluginSet, usedHandles_removeFromPluginSet] at hy
    exact (isUsed_insert hfind y) ▸ hy

theorem keeps_takePluginHandles (m : HandleManager) (ctx : Context) :
    Keeps m (m.takePluginHandles ctx).2 := by
  unfold takePluginHandles
  split
  · exact .refl m
  case h_2 ids _ =>
    refine ⟨rfl, fun y hy => ?_⟩
    unfold isUsed at hy ⊢
    rw [Dict.find_mapValues, Option.isSome_map] at hy
    exact hy

theorem Creates.atStart {x : HandleId} (h : Creates m x m') (hm : m.AtStart) : m'.AtStart := by
  by_cases hx : x = 0
  · rw [h.none hx]
    exact hm
  · intro hnext
    rw [h.next hx] at hnext
    exact absurd (BitVec.add_left_eq_self.mp hnext) hx

theorem Keeps.atStart (h : Keeps m m') (hm : m.AtStart) : m'.AtStart := by
  intro hnext y
  rw [h.next] at hnext
  have hold := hm hnext y
  cases hy : m'.isUsed y with
  | false => rfl
  | true =>
    rw [h.used y hy] at hold
    cases hold

end HandleManager

open HandleManager

section

variable {m m' m1 m2 m3 m4 : HandleManager} {c : Call} {x y : HandleId}
variable {l : List (HandleManager × Call)}

/-- What a call does. -/
inductive Calls (m : HandleManager) (c : Call) (m' : HandleManager) : Prop
  | create (id : HandleId) (hid : c.returned m = some id) (hcreates : Creates m id m')
  | keep (hkeeps : Keeps m m')

theorem calls_of_step (hm : m.AtStart) (hstep : manager.step c m = some m') : Calls m c m' := by
  cases c with
  | createHandle pointer type owner =>
    rcases createHandle_creates hm pointer type owner with ⟨id, m1, hcreate, hcreates⟩
    change (m.createHandle pointer type owner).map Prod.snd = some m' at hstep
    rw [hcreate] at hstep
    cases hstep
    refine .create id ?_ hcreates
    change (m.createHandle pointer type owner).map Prod.fst = some id
    rw [hcreate]
    rfl
  | freeHandle id =>
    cases hstep
    exact .keep (keeps_freeHandle m id)
  | markHandleClosed id =>
    cases hstep
    exact .keep (keeps_markHandleClosed m id)
  | transferHandle id newOwner =>
    cases hstep
    exact .keep (keeps_transferHandle m id newOwner)
  | takePluginHandles ctx =>
    cases hstep
    exact .keep (keeps_takePluginHandles m ctx)

theorem atStart_init : HandleManager.init.AtStart := fun _ _ => rfl

theorem atStart_of_reaches {Allowed : HandleManager -> Call -> Prop}
    (h : Reaches manager Allowed m) : m.AtStart := by
  refine h.invariant AtStart atStart_init ?_
  intro m c m' hm _ hstep
  cases calls_of_step hm hstep with
  | create id hid hcreates => exact hcreates.atStart hm
  | keep hkeeps => exact hkeeps.atStart hm

/-!
## The ids between two returns of the same one
-/

/-- An id was given out or in use in these calls. -/
def Seen (l : List (HandleManager × Call)) (y : HandleId) : Prop :=
  exists p, p ∈ l ∧ (p.2.returned p.1 = some y ∨ p.1.isUsed y = true)

theorem Seen.append (h : Seen l y) (p : HandleManager × Call) : Seen (l ++ [p]) y := by
  rcases h with ⟨q, hq, hy⟩
  exact ⟨q, List.mem_append_left _ hq, hy⟩

theorem seen_last (h : c.returned m = some y ∨ m.isUsed y = true) : Seen (l ++ [(m, c)]) y :=
  ⟨(m, c), List.mem_append_right l List.mem_cons_self, h⟩

/-- A search that starts behind `last` passes the ids that are farther from `x`, up to where
it ends. -/
theorem distance_behind {last z : HandleId} (hy : distance x last < distance x y)
    (hz : distance x z <= distance x last ∨ distance x y < distance x z) :
    distance (last + 1) y < distance (last + 1) z := by
  unfold distance at *
  rcases hz with hz | hz <;> bv_omega

/-- All ids but `x` were seen, or those that are not farther from `x` than the one before the
cursor. -/
def Covered (x : HandleId) (l : List (HandleManager × Call)) (m : HandleManager) : Prop :=
  (forall y, y ≠ 0 -> y ≠ x -> Seen l y) ∨
    exists last, m.nextHandle = last + 1 ∧
      forall y, y ≠ 0 -> y ≠ x -> distance x y <= distance x last -> Seen l y

theorem Covered.create {id : HandleId} (h : Covered x l m) (hid : c.returned m = some id)
    (hcreates : Creates m id m') : Covered x (l ++ [(m, c)]) m' := by
  rcases h with hall | ⟨last, hnext, hnear⟩
  · exact .inl fun y h0 hx => (hall y h0 hx).append _
  · by_cases hzero : id = 0
    · rw [hcreates.none hzero]
      exact .inr ⟨last, hnext, fun y h0 hx hy => (hnear y h0 hx hy).append _⟩
    · have hpassed := hcreates.found.passed hzero
      rw [hnext] at hpassed
      -- An id behind the cursor and before the new one is passed because it is in use.
      have hbehind : forall y, y ≠ 0 -> distance x last < distance x y ->
          (distance x id <= distance x last ∨ distance x y < distance x id) ->
          Seen (l ++ [(m, c)]) y := by
        intro y h0 hy hz
        exact seen_last (.inr ((hpassed y (distance_behind hy hz)).resolve_left h0))
      rcases Nat.lt_or_ge (distance x last) (distance x id) with hmore | hwrapped
      · refine .inr ⟨id, hcreates.next hzero, fun y h0 hx hy => ?_⟩
        rcases Nat.lt_or_ge (distance x last) (distance x y) with hfar | hclose
        · rcases Nat.lt_or_eq_of_le hy with hlt | heq
          · exact hbehind y h0 hfar (.inr hlt)
          · rw [distance_inj heq]
            exact seen_last (.inl hid)
        · exact (hnear y h0 hx hclose).append _
      · refine .inl fun y h0 hx => ?_
        rcases Nat.lt_or_ge (distance x last) (distance x y) with hfar | hclose
        · exact hbehind y h0 hfar (.inl hwrapped)
        · exact (hnear y h0 hx hclose).append _

theorem Covered.keep (h : Covered x l m) (hkeeps : Keeps m m') : Covered x (l ++ [(m, c)]) m' := by
  rcases h with hall | ⟨last, hnext, hnear⟩
  · exact .inl fun y h0 hx => (hall y h0 hx).append _
  · exact .inr ⟨last, hkeeps.next.trans hnext, fun y h0 hx hy => (hnear y h0 hx hy).append _⟩

theorem Covered.again (h : Covered x l m) (hx : x ≠ 0) (hcreates : Creates m x m')
    (h0 : y ≠ 0) (hne : y ≠ x) : Seen l y ∨ m.isUsed y = true := by
  rcases h with hall | ⟨last, hnext, hnear⟩
  · exact .inl (hall y h0 hne)
  · rcases Nat.lt_or_ge (distance x last) (distance x y) with hfar | hclose
    · have hpassed := hcreates.found.passed hx
      rw [hnext] at hpassed
      have hzero : distance x x <= distance x last := by
        rw [distance_self]
        exact Nat.zero_le _
      exact .inr ((hpassed y (distance_behind hfar (.inl hzero))).resolve_left h0)
    · exact .inl (hnear y h0 hne hclose)

/-- Handles are fresh, and their ids are reused as late as possible. -/
theorem handles_fresh_and_late (hreach : Reaches manager (fun _ _ => True) m1)
    (pointer : Nat) (type : HandleType) (owner : Option Context) :
    exists x m2, m1.createHandle pointer type owner = some (x, m2) ∧
      (x = 0 <-> forall y, y ≠ 0 -> m1.isUsed y = true) ∧
      (x ≠ 0 -> m1.isUsed x = false ∧
        forall y, m2.isUsed y = true <-> y = x ∨ m1.isUsed y = true) ∧
      (x ≠ 0 -> forall actions m3 pointer' type' owner' m4, manager.run actions m2 = some m3 ->
        m3.createHandle pointer' type' owner' = some (x, m4) ->
        forall y, y ≠ 0 -> y ≠ x ->
          (exists p, p ∈ manager.visits actions m2 ∧
            (p.2.returned p.1 = some y ∨ p.1.isUsed y = true)) ∨ m3.isUsed y = true) := by
  have hm1 := atStart_of_reaches hreach
  rcases createHandle_creates hm1 pointer type owner with ⟨x, m2, hcreate, hcreates⟩
  refine ⟨x, m2, hcreate, ⟨fun hx y hy => ?_, fun hall => ?_⟩,
    fun hx => ⟨hcreates.found.unused hx, hcreates.used hx⟩, ?_⟩
  · exact (hcreates.found.full hx y).resolve_left hy
  · by_contra hx
    have hused := hall x hx
    rw [hcreates.found.unused hx] at hused
    cases hused
  · intro hx actions m3 pointer' type' owner' m4 hrun hagain y h0 hne
    have hstart : m2.AtStart ∧ Covered x [] m2 := by
      refine ⟨hcreates.atStart hm1, .inr ⟨x, hcreates.next hx, fun y _ hyx hy => ?_⟩⟩
      have hself : distance x y = distance x x := by
        rw [distance_self] at hy ⊢
        exact Nat.le_zero.mp hy
      exact absurd (distance_inj hself) hyx
    have hend := manager.invariant_visits (P := fun l m => m.AtStart ∧ Covered x l m)
      (Q := fun _ => True) ?_ actions (fun _ _ => trivial) hstart hrun
    · rcases hend with ⟨hm3, hcovered⟩
      rcases createHandle_creates hm3 pointer' type' owner' with ⟨x', m4', hcreate', hcreates'⟩
      cases hagain.symm.trans hcreate'
      exact hcovered.again hx hcreates' h0 hne
    · rintro l m c m' ⟨hm, hcovered⟩ _ hstep
      cases calls_of_step hm hstep with
      | create id hid hcreates => exact ⟨hcreates.atStart hm, hcovered.create hid hcreates⟩
      | keep hkeeps => exact ⟨hkeeps.atStart hm, hcovered.keep hkeeps⟩

end

/-- A handle of a plugin is created and freed. -/
def createdAndFreed : List Call := [.createHandle 64 .jsonValue (some 1), .freeHandle 1]

theorem fresh_after_free :
    exists m1 m2, manager.run createdAndFreed .init = some m1 ∧
      m1.createHandle 80 .iterator (some 1) = some (2, m2) ∧ m1.isUsed 2 = false ∧
      m2.isUsed 2 = true := by
  refine ⟨_, _, rfl, rfl, ?_⟩
  have hreach : Reaches manager (fun _ _ => True) _ :=
    reaches_of_run createdAndFreed .init (by decide) rfl
  rcases handles_fresh_and_late hreach 80 .iterator (some 1)
    with ⟨x, m2, hcreate, _, hfresh, _⟩
  cases hcreate
  rcases hfresh (by decide) with ⟨hunused, hused⟩
  exact ⟨hunused, (hused 2).mpr (.inl rfl)⟩

end Async2.Handles
