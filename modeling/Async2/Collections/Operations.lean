import Async2.Collections.Represents

/-!
# Operations on linked lists

Moves, values and walks of a list that represents a sequence, and the loops of `Clear` and
`DeepCopy`, which get to their ends.
-/

namespace Async2.Collections

open Function List Option Memory
open AssocList (keys)
open Placed (addresses elements ids)
open Async2.Ring

variable {m m' m'' m0 : Memory} {l l' l'' : LinkedList}
variable {items items' items'' ys zs : Placed} {a cur : Address} {id : NodeId} {v value : Cell}

/-!
## Moves
-/

variable {x s : Address} {foot : List Address} {fuel : Nat}

theorem Memory.Rearranged.mono {foot' : List Address} (h : Memory.Rearranged m m' foot)
    (hfoot : forall x, x ∈ foot -> x ∈ foot') : Memory.Rearranged m m' foot' :=
  ⟨h.content_eq, fun x hx => h.frame x fun hmem => hx (hfoot x hmem), h.top_eq⟩

section

variable (h : Represents m l (ys ++ (a, id, v) :: zs))
include h

theorem Represents.getValue_middle : (elements (ys ++ (a, id, v) :: zs)).getValue id = v := by
  rw [elements_append]
  exact Elements.getValue_middle h.not_mem_ids.left

theorem Represents.remove_middle :
    Elements.remove (elements (ys ++ (a, id, v) :: zs)) id = elements (ys ++ zs) := by
  rw [elements_append, elements_append]
  exact Elements.remove_middle h.not_mem_ids.left

theorem Represents.isSome_unlinked (hm : m'.content = m.content) : (m'.cells a).isSome := by
  rw [← isSome_content, hm, isSome_content]
  exact isSome_of_ring h.ring_middle (by simp)

end

section

variable (h : Represents m l items)
include h

theorem Represents.moveToFront (id : NodeId) :
    exists m' items', l.moveToFront m id = some m' ∧ Performs m l items m' l items' ∧
      elements items' = (elements items).moveToFront id := by
  cases hfind : l.nodes.find id with
  | none =>
    refine ⟨m, items, ?_, h.refl, ?_⟩
    · unfold LinkedList.moveToFront
      rw [hfind]
    · rw [Elements.moveToFront_of_not_mem (h.find_eq_none hfind)]
  | some a =>
    rcases h.split hfind with ⟨ys, v, zs, rfl⟩
    have helements : (elements (ys ++ (a, id, v) :: zs)).moveToFront id =
        (id, v) :: elements (ys ++ zs) := by
      rw [elements_append, elements_append]
      exact Elements.moveToFront_middle h.not_mem_ids.left
    have hring := h.ring_middle
    rcases hring.exists_next mem_cons_self with ⟨q, _, hq⟩
    rcases exists_of_next hq with ⟨s, hs, rfl⟩
    unfold LinkedList.moveToFront
    simp only [hfind, hs, bind_eq_bind, bind_some]
    by_cases hfirst : a = s.next
    · refine ⟨m, _, if_pos hfirst, h.refl, ?_⟩
      rw [helements]
      cases ys with
      | nil => rfl
      | cons y rest =>
        -- The first cell of the ring is another one.
        have hnext : m.next l.sentinel = some y.1 := hring.segment.left.left
        rw [hq, ← hfirst] at hnext
        have hdistinct := (nodup_cons.mp hring.distinct).right
        have hnotin := (nodup_cons.mp hdistinct).left
        rw [← Option.some.inj hnext] at hnotin
        exact absurd (mem_append_right _ mem_cons_self) hnotin
    · rcases h.unlink with ⟨m1, hunlink, hm1, hring1, hnew⟩
      have hnode := h.isSome_unlinked hm1.content_eq
      rcases hring1.exists_next mem_cons_self with ⟨q, _, hq1⟩
      rcases insertFirst_of_ring hring1 hnew hnode hq1 with ⟨m2, hinsert, hm2, hring2⟩
      rcases exists_of_next hq1 with ⟨s1, hs1, rfl⟩
      refine ⟨m2, (a, id, v) :: (ys ++ zs), ?_, ?_, helements.symm⟩
      · rw [if_neg hfirst, hunlink]
        simp only [bind_some, hs1, hinsert]
      · apply h.reorder
        · exact hm1.trans (hm2.mono fun x hx => addresses_middle.mem_iff.mp hx)
        · exact hring2
        · exact perm_middle.symm

theorem Represents.moveToBack (id : NodeId) :
    exists m' items', l.moveToBack m id = some m' ∧ Performs m l items m' l items' ∧
      elements items' = (elements items).moveToBack id := by
  cases hfind : l.nodes.find id with
  | none =>
    refine ⟨m, items, ?_, h.refl, ?_⟩
    · unfold LinkedList.moveToBack
      rw [hfind]
    · rw [Elements.moveToBack_of_not_mem (h.find_eq_none hfind)]
  | some a =>
    rcases h.split hfind with ⟨ys, v, zs, rfl⟩
    have helements : (elements (ys ++ (a, id, v) :: zs)).moveToBack id =
        elements (ys ++ zs ++ [(a, id, v)]) := by
      rw [elements_append, elements_append (ys ++ zs), elements_append]
      exact Elements.moveToBack_middle h.not_mem_ids.left
    have hring := h.ring_middle
    rcases hring.exists_prev mem_cons_self with ⟨p, _, hp⟩
    rcases exists_of_prev hp with ⟨s, hs, rfl⟩
    unfold LinkedList.moveToBack
    simp only [hfind, hs, bind_eq_bind, bind_some]
    by_cases hlast : a = s.prev
    · refine ⟨m, _, if_pos hlast, h.refl, ?_⟩
      rw [helements]
      have hafter := (segment_append.mp hring.segment).right
      cases zs with
      | nil => rw [append_nil]
      | cons z rest =>
        -- The last cell of the ring is another one.
        have hmem := hafter.right.prev_mem hp
        rw [← hlast] at hmem
        have hdistinct := (nodup_cons.mp hring.distinct).right
        have hnotin := (nodup_cons.mp (nodup_append.mp hdistinct).right.left).left
        exact absurd hmem hnotin
    · rcases h.unlink with ⟨m1, hunlink, hm1, hring1, hnew⟩
      have hnode := h.isSome_unlinked hm1.content_eq
      rcases insertLast_of_ring hring1 hnew hnode with ⟨m2, hinsert, hm2, hring2⟩
      refine ⟨m2, ys ++ zs ++ [(a, id, v)], ?_, ?_, helements.symm⟩
      · rw [if_neg hlast, hunlink]
        simp only [bind_some, hinsert]
      · apply h.reorder
        · exact hm1.trans (hm2.mono fun x hx => addresses_middle.mem_iff.mp hx)
        · rw [addresses_append]
          exact hring2
        · have hback : (ys ++ zs ++ [(a, id, v)]).Perm ((a, id, v) :: (ys ++ zs)) :=
            perm_append_comm
          exact hback.trans perm_middle.symm

/-!
## Values
-/

theorem Represents.getValue (id : NodeId) :
    l.getValue m id = some ((elements items).getValue id) := by
  unfold LinkedList.getValue
  cases hfind : l.nodes.find id with
  | none => rw [Elements.getValue_of_not_mem (h.find_eq_none hfind)]
  | some a =>
    rcases h.split hfind with ⟨ys, v, zs, rfl⟩
    rcases h.cell (by simp : (a, id, v) ∈ _) with ⟨n, hn, _, rfl⟩
    rw [h.getValue_middle]
    simp only [hn, some_bind]
    rfl

end

theorem Represents.write (h : Represents m l (ys ++ (a, id, v) :: zs)) {n : Node}
    (hn : m.cells a = some n) (value : Cell) :
    Performs m l (ys ++ (a, id, v) :: zs) (m.write a { n with value := value }) l
      (ys ++ (a, id, value) :: zs) := by
  rcases h.cell (by simp : (a, id, v) ∈ _) with ⟨n', hn', hnid, _⟩
  cases hn.symm.trans hn'
  have hnext : (m.write a { n with value := value }).next = m.next :=
    map_cells_same hn rfl
  have hprev : (m.write a { n with value := value }).prev = m.prev :=
    map_cells_same hn rfl
  have haddresses : addresses (ys ++ (a, id, value) :: zs) =
      addresses (ys ++ (a, id, v) :: zs) := by
    rw [addresses_append, addresses_append]
    rfl
  have hids : ids (ys ++ (a, id, value) :: zs) = ids (ys ++ (a, id, v) :: zs) := by
    rw [ids_append, ids_append]
    rfl
  have hother : a ∉ addresses (ys ++ zs) := by
    have hdistinct := addresses_middle.nodup_iff.mpr h.ring.distinct
    exact fun hmem => (nodup_cons.mp hdistinct).left (mem_cons_of_mem _ hmem)
  refine ⟨⟨?_, ?_, ?_, ?_, ?_, ?_⟩, rfl, ?_, Nat.le_refl _, ?_⟩
  · rw [haddresses, hnext, hprev]
    exact h.ring
  · intro it hit
    rw [content, cells_write]
    rw [perm_middle.mem_iff, mem_cons] at hit
    rcases hit with rfl | hit
    · rw [if_pos rfl, ← hnid]
      rfl
    · rw [if_neg]
      · apply h.holds.contents
        exact perm_middle.mem_iff.mpr (mem_cons_of_mem _ hit)
      · exact fun heq => hother (heq ▸ mem_map_of_mem hit)
  · intro id' a'
    rw [h.holds.index]
    simp only [perm_middle.mem_iff, mem_cons, Prod.mk.injEq, exists_or]
    simp
  · rw [h.holds.size, length_append, length_append]
    rfl
  · rw [hids]
    exact h.holds.fits
  · rw [haddresses]
    exact h.holds.below
  · intro x _ hx
    rw [cells_write, if_neg]
    rintro rfl
    exact hx (addresses_middle.mem_iff.mp mem_cons_self)
  · rw [haddresses]
    exact fun x hx => .inl hx

theorem Represents.setValue (h : Represents m l items) (id : NodeId) (value : Cell) :
    exists m' items', l.setValue m id value = some m' ∧ Performs m l items m' l items' ∧
      elements items' = (elements items).setValue id value := by
  unfold LinkedList.setValue
  cases hfind : l.nodes.find id with
  | none =>
    refine ⟨m, items, rfl, h.refl, ?_⟩
    rw [Elements.setValue_of_not_mem (h.find_eq_none hfind)]
  | some a =>
    rcases h.split hfind with ⟨ys, v, zs, rfl⟩
    rcases h.cell (by simp : (a, id, v) ∈ _) with ⟨n, hn, _⟩
    refine ⟨_, _, modify_of_some hn _, h.write hn value, ?_⟩
    rw [elements_append, elements_append]
    exact (Elements.setValue_middle h.not_mem_ids.left h.not_mem_ids.right).symm

theorem Represents.remove (h : Represents m l items) (id : NodeId) :
    Takes m l items (l.remove m id) ((elements items).getValue id)
      ((elements items).remove id) := by
  unfold LinkedList.remove
  cases hfind : l.nodes.find id with
  | none =>
    have hid := h.find_eq_none hfind
    rw [Elements.getValue_of_not_mem hid, Elements.remove_of_not_mem hid]
    exact ⟨m, l, items, rfl, h.refl, rfl, rfl⟩
  | some a =>
    rcases h.split hfind with ⟨ys, v, zs, rfl⟩
    rw [h.getValue_middle, h.remove_middle]
    exact h.takes

/-!
## Walks
-/

theorem Represents.idOf (h : Represents m l (ys ++ zs))
    (ha : (addresses zs ++ [l.sentinel]).head? = some a) :
    l.idOf m a = some (Elements.first (elements zs)) := by
  unfold LinkedList.idOf
  cases zs with
  | nil =>
    cases ha
    rw [if_pos rfl]
    rfl
  | cons z rest =>
    cases ha
    rcases z with ⟨a, id, v⟩
    rcases h.cell (by simp : (a, id, v) ∈ _) with ⟨n, hn, rfl, _⟩
    have hne : a ≠ l.sentinel := by
      rintro rfl
      have hdistinct := h.ring_middle.distinct
      exact (nodup_cons.mp hdistinct).left (by simp)
    rw [if_neg hne]
    change (do let n ← m.cells a; return n.id) = _
    rw [hn]
    rfl

theorem Represents.first (h : Represents m l items) : l.first m = some (elements items).first := by
  rcases h.ring.exists_next mem_cons_self with ⟨q, _, hq⟩
  rcases exists_of_next hq with ⟨s, hs, rfl⟩
  unfold LinkedList.first
  rw [hs]
  have hall : Represents m l ([] ++ items) := h
  exact hall.idOf (h.ring.segment.next_first.symm.trans hq)

theorem Represents.next (h : Represents m l items) (id : NodeId) :
    l.next m id = some ((elements items).next id) := by
  unfold LinkedList.next
  cases hfind : l.nodes.find id with
  | none => rw [Elements.next_of_not_mem (h.find_eq_none hfind)]
  | some a =>
    rcases h.split hfind with ⟨ys, v, zs, rfl⟩
    have hafter := (segment_append.mp h.ring_middle.segment).right
    rcases h.ring_middle.exists_next (by simp : a ∈ _) with ⟨q, _, hq⟩
    rcases exists_of_next hq with ⟨n, hn, rfl⟩
    rw [elements_append]
    have hnext : Elements.next id (elements ys ++ elements ((a, id, v) :: zs)) =
        Elements.first (elements zs) := Elements.next_middle h.not_mem_ids.left
    rw [hnext]
    simp only [hn, some_bind]
    have hsplit : Represents m l ((ys ++ [(a, id, v)]) ++ zs) := by
      rw [append_assoc]
      exact h
    exact hsplit.idOf (hafter.next_first.symm.trans hq)

theorem Represents.idOf_last (h : Represents m l (ys ++ zs))
    (ha : (l.sentinel :: addresses ys).getLast? = some a) :
    l.idOf m a = some (Elements.last (elements ys)) := by
  rcases eq_nil_or_concat' ys with rfl | ⟨rest, ⟨b, id, v⟩, rfl⟩
  · have hsentinel : l.sentinel = a := Option.some.inj ha
    unfold LinkedList.idOf
    rw [if_pos hsentinel.symm]
    rfl
  · have hb : b = a := by
      rw [addresses_append, ← cons_append, List.getLast?_append] at ha
      exact Option.some.inj ha
    subst hb
    rw [append_assoc] at h
    have hid := h.idOf (a := b) rfl
    have hlast : Elements.last (elements (rest ++ [(b, id, v)])) = id := by
      unfold Elements.last
      rw [elements_append, reverse_append]
      rfl
    rw [hid, hlast]
    rfl

section

variable (h : Represents m l items)
include h

theorem Represents.last : l.last m = some (elements items).last := by
  rcases h.ring.exists_prev mem_cons_self with ⟨p, _, hp⟩
  rcases exists_of_prev hp with ⟨s, hs, rfl⟩
  unfold LinkedList.last
  rw [hs]
  have hall : Represents m l (items ++ []) := by
    rw [append_nil]
    exact h
  exact hall.idOf_last (h.ring.segment.prev_last.symm.trans hp)

theorem Represents.prev (id : NodeId) : l.prev m id = some ((elements items).prev id) := by
  unfold LinkedList.prev
  cases hfind : l.nodes.find id with
  | none => rw [Elements.prev_of_not_mem (h.find_eq_none hfind)]
  | some a =>
    rcases h.split hfind with ⟨ys, v, zs, rfl⟩
    have hbefore := (segment_append.mp h.ring_middle.segment).left
    rcases h.ring_middle.exists_prev (by simp : a ∈ _) with ⟨p, _, hp⟩
    rcases exists_of_prev hp with ⟨n, hn, rfl⟩
    rw [elements_append]
    have hprev : Elements.prev id (elements ys ++ elements ((a, id, v) :: zs)) =
        Elements.last (elements ys) := Elements.prev_middle h.not_mem_ids.right
    rw [hprev]
    simp only [hn, some_bind]
    exact h.idOf_last (hbefore.prev_last.symm.trans hp)

theorem Represents.size : l.size = BitVec.ofNat 32 (elements items).length := by
  unfold LinkedList.size
  rw [h.holds.size]
  exact congrArg _ (length_map _).symm

end

/-!
## Whole lists
-/

theorem represents_create (m : Memory) :
    Represents (LinkedList.create m).1 (LinkedList.create m).2 [] := by
  have hcell : (LinkedList.create m).1.cells m.top = some ⟨0, m.top, m.top, 0⟩ :=
    update_self _ _ _
  refine ⟨isRing_single ?_ ?_, ?_, ?_, rfl, IdSupply.fits_nil 1, ?_⟩
  · change (LinkedList.create m).1.next m.top = some m.top
    rw [Memory.next, hcell]
    rfl
  · change (LinkedList.create m).1.prev m.top = some m.top
    rw [Memory.prev, hcell]
    rfl
  · exact fun it hit => absurd hit not_mem_nil
  · intro id a
    constructor
    · intro hfind
      cases hfind
    · rintro ⟨v, hit⟩
      exact absurd hit not_mem_nil
  · intro a ha
    cases mem_singleton.mp ha
    exact Nat.lt_succ_self m.top

theorem cells_create (hx : x < m.top) : (LinkedList.create m).1.cells x = m.cells x := by
  change (write _ m.top _).cells x = _
  rw [cells_write, if_neg (Nat.ne_of_lt hx)]
  change (write m m.top _).cells x = _
  rw [cells_write, if_neg (Nat.ne_of_lt hx)]

/-- The loop gets to the sentinel along the nodes that are left. -/
theorem clearLoop_of_segment {xs : List Address} (hsegment : Segment m0.next m0.prev a xs s)
    (hcur : m0.next a = some cur) (hdistinct : (s :: xs).Nodup)
    (hcells : forall x, x ∈ xs -> m.cells x = m0.cells x) (hfuel : xs.length < fuel) :
    exists m', LinkedList.clearLoop s fuel cur m = some m' ∧ m'.top = m.top ∧
      forall x, m'.cells x = if x ∈ xs then none else m.cells x := by
  induction xs generalizing a cur m fuel with
  | nil =>
    cases hsegment.left.symm.trans hcur
    rcases Nat.exists_eq_add_one.mpr hfuel with ⟨k, rfl⟩
    refine ⟨m, ?_, rfl, fun x => by rw [if_neg not_mem_nil]⟩
    rw [LinkedList.clearLoop, if_pos rfl]
  | cons y rest ih =>
    cases hsegment.left.left.symm.trans hcur
    rcases Nat.exists_eq_add_one.mpr (Nat.lt_of_le_of_lt (Nat.zero_le _) hfuel) with ⟨k, rfl⟩
    rcases hsegment.right.exists_next with ⟨q, _, hq⟩
    rcases exists_of_next hq with ⟨n, hn, rfl⟩
    have hparts := nodup_cons.mp hdistinct
    have hne : y ≠ s := fun heq => hparts.left (heq ▸ mem_cons_self)
    have hy := (nodup_cons.mp hparts.right).left
    have hrest : (s :: rest).Nodup :=
      nodup_cons.mpr ⟨fun hmem => hparts.left (mem_cons_of_mem y hmem),
        (nodup_cons.mp hparts.right).right⟩
    have hdeleted : forall x, x ∈ rest -> (m.delete y).cells x = m0.cells x := by
      intro x hx
      rw [cells_delete, if_neg]
      · exact hcells x (mem_cons_of_mem y hx)
      · rintro rfl
        exact hy hx
    rcases ih hsegment.right hq hrest hdeleted (Nat.lt_of_succ_lt_succ hfuel)
      with ⟨m', hloop, htop, hm'⟩
    refine ⟨m', ?_, htop, ?_⟩
    · rw [LinkedList.clearLoop, if_neg hne, hcells y mem_cons_self, hn]
      exact hloop
    · intro x
      rw [hm', cells_delete]
      by_cases hxy : x = y
      · simp [hxy]
      · simp [hxy]

def LinkedList.cleared (l : LinkedList) : LinkedList :=
  { l with nodes := .empty, ids := l.ids.clear }

theorem Represents.clear (h : Represents m l items) :
    exists m', l.clear m = some (m', l.cleared) ∧ Performs m l items m' l.cleared [] := by
  have hsentinel := (nodup_cons.mp h.ring.distinct).left
  rcases h.ring.exists_next mem_cons_self with ⟨q, _, hq⟩
  have hfuel : (addresses items).length < l.nodes.entries.length + 1 := by
    rw [h.holds.size]
    exact Nat.lt_succ_of_le (Nat.le_of_eq (length_map _))
  rcases clearLoop_of_segment h.ring.segment hq h.ring.distinct (fun _ _ => rfl) hfuel
    with ⟨m1, hloop, htop, hm1⟩
  rcases exists_of_next hq with ⟨s, hs, rfl⟩
  have hs1 : m1.cells l.sentinel = some s := by
    rw [hm1, if_neg hsentinel, hs]
  rcases modify_next (isSome_of_eq_some hs1) l.sentinel with ⟨m2, hm2, h2⟩
  rcases modify_prev (h2.isSome (isSome_of_eq_some hs1)) l.sentinel
    with ⟨m3, hm3, h3⟩
  have h13 := h2.trans h3
  have hm3top := h13.top_eq.trans htop
  refine ⟨m3, ?_, ⟨⟨isRing_single ?_ ?_, ?_, ?_, rfl, IdSupply.fits_nil _, ?_⟩, rfl, ?_,
    Nat.le_of_eq hm3top.symm, ?_⟩⟩
  · unfold LinkedList.clear
    rw [hs]
    simp only [some_bind, hloop, hm2, hm3]
    rfl
  · change m3.next l.sentinel = some l.sentinel
    rw [h3.next_eq, h2.next_eq, update_self]
  · change m3.prev l.sentinel = some l.sentinel
    rw [h3.prev_eq, update_self]
  · exact fun it hit => absurd hit not_mem_nil
  · intro id a
    constructor
    · intro hfind
      cases hfind
    · rintro ⟨v, hit⟩
      exact absurd hit not_mem_nil
  · intro a ha
    rw [hm3top]
    cases mem_singleton.mp ha
    exact h.holds.below _ mem_cons_self
  · intro x _ hx
    rw [mem_cons, not_or] at hx
    have hfoot : x ∉ [l.sentinel] ++ [l.sentinel] := by
      simp [hx.left]
    rw [h13.frame x hfoot, hm1, if_neg hx.right]
  · exact fun a ha => absurd ha not_mem_nil

/-!
## Copies
-/

theorem Performs.trans (h : Performs m l items m' l' items')
    (h' : Performs m' l' items' m'' l'' items'') : Performs m l items m'' l'' items'' := by
  refine ⟨h'.represents, h'.sentinel_eq.trans h.sentinel_eq, ?_,
    Nat.le_trans h.top_le h'.top_le, ?_⟩
  · intro x hx hfoot
    rw [h'.frame x (Nat.lt_of_lt_of_le hx h.top_le), h.frame x hx hfoot]
    rw [mem_cons, not_or] at hfoot ⊢
    rw [h.sentinel_eq]
    refine ⟨hfoot.left, fun hmem => ?_⟩
    rcases h.inside x hmem with hold | hnew
    · exact hfoot.right hold
    · exact Nat.not_lt_of_le hnew hx
  · intro a ha
    rcases h'.inside a ha with hold | hnew
    · exact h.inside a hold
    · exact .inr (Nat.le_trans h.top_le hnew)

/-- The cells of another list are not touched. -/
structure Apart (m : Memory) (l : LinkedList) (items : Placed) (foot : List Address) : Prop where
  outside : forall x, x ∈ foot -> x ∉ l.sentinel :: addresses items
  below : forall x, x ∈ foot -> x < m.top

section

variable (h : Performs m l items m' l' items') (hapart : Apart m l items foot)
include h hapart

theorem Performs.apart : Apart m' l' items' foot := by
  refine ⟨?_, fun x hx => Nat.lt_of_lt_of_le (hapart.below x hx) h.top_le⟩
  intro x hx hmem
  rw [h.sentinel_eq] at hmem
  have houtside := hapart.outside x hx
  rw [mem_cons, not_or] at houtside
  rcases mem_cons.mp hmem with hsentinel | hmem
  · exact houtside.left hsentinel
  · rcases h.inside x hmem with hold | hnew
    · exact houtside.right hold
    · exact Nat.not_lt_of_le hnew (hapart.below x hx)

theorem Performs.cells_apart (hx : x ∈ foot) : m'.cells x = m.cells x :=
  h.frame x (hapart.below x hx) (hapart.outside x hx)

end

def Placed.values (items : Placed) : List Cell := items.map fun it => it.2.2

theorem copyLoop_of_segment (hsegment : Segment m0.next m0.prev a (addresses zs) s)
    (hcur : m0.next a = some cur) (hs : s ∉ addresses zs)
    (hcontents : forall it, it ∈ zs -> m0.content it.1 = some it.2)
    (hcells : forall x, x ∈ addresses zs -> m.cells x = m0.cells x) (hcopy : Represents m l items)
    (hfree : l.ids.freeIds = []) (hapart : Apart m l items (addresses zs))
    (hroom : items.length + zs.length < IdSupply.period) (hfuel : zs.length < fuel) :
    exists m' l' items', LinkedList.copyLoop s fuel cur m l = some (m', l') ∧
      Performs m l items m' l' items' ∧ items'.values = items.values ++ zs.values ∧
      l'.ids.freeIds = [] := by
  induction zs generalizing a cur m l items fuel with
  | nil =>
    cases hsegment.left.symm.trans hcur
    rcases Nat.exists_eq_add_one.mpr hfuel with ⟨k, rfl⟩
    refine ⟨m, l, items, ?_, hcopy.refl, (append_nil _).symm, hfree⟩
    rw [LinkedList.copyLoop, if_pos rfl]
  | cons z rest ih =>
    rcases z with ⟨b, id, v⟩
    cases hsegment.left.left.symm.trans hcur
    rcases Nat.exists_eq_add_one.mpr (Nat.lt_of_le_of_lt (Nat.zero_le _) hfuel) with ⟨k, rfl⟩
    rcases hsegment.right.exists_next with ⟨q, _, hq⟩
    rcases exists_of_next hq with ⟨n, hn, rfl⟩
    have hvalue : n.value = v := by
      have hcontent := hcontents (b, id, v) mem_cons_self
      unfold content at hcontent
      rw [hn] at hcontent
      exact (Prod.mk.inj (Option.some.inj hcontent)).right
    have hne : b ≠ s := fun heq => hs (heq ▸ mem_cons_self)
    have hcount : l.ids.freeIds = [] ->
        l.ids.count (Placed.ids items) + 1 < IdSupply.period := by
      intro _
      unfold IdSupply.count Placed.ids AssocList.keys elements
      rw [hfree, length_map, length_map]
      rw [length_cons] at hroom
      change items.length + 0 + 1 < _
      omega
    rcases hcopy.pushBack hcount v with ⟨m1, hpush, hperforms⟩
    have hn1 : m1.cells b = some n := by
      rw [hperforms.cells_apart hapart mem_cons_self, hcells b mem_cons_self, hn]
    have hcells1 : forall x, x ∈ addresses rest -> m1.cells x = m0.cells x := by
      intro x hx
      have hx' : x ∈ addresses ((b, id, v) :: rest) := mem_cons_of_mem _ hx
      rw [hperforms.cells_apart hapart hx', hcells x hx']
    have hapart1 := hperforms.apart hapart
    have hfree1 : (l.extended m.top).ids.freeIds = [] := by
      change l.ids.next.2.freeIds = []
      rw [IdSupply.next_of_nil hfree]
    have hroom1 : (items ++ [(m.top, l.ids.next.1, v)]).length + rest.length <
        IdSupply.period := by
      rw [length_append, length_singleton]
      rw [length_cons] at hroom
      omega
    rcases ih hsegment.right hq (fun hmem => hs (mem_cons_of_mem _ hmem))
        (fun it hit => hcontents it (mem_cons_of_mem _ hit)) hcells1 hperforms.represents
        hfree1 ⟨fun x hx => hapart1.outside x (mem_cons_of_mem _ hx),
          fun x hx => hapart1.below x (mem_cons_of_mem _ hx)⟩ hroom1
        (Nat.lt_of_succ_lt_succ hfuel)
      with ⟨m', l', items', hloop, hrest, hvalues, hfree'⟩
    refine ⟨m', l', items', ?_, hperforms.trans hrest, ?_, hfree'⟩
    · rw [LinkedList.copyLoop, if_neg hne, hcells b mem_cons_self, hn]
      simp only [some_bind, hvalue, hpush, hn1]
      exact hloop
    · rw [hvalues]
      unfold Placed.values
      rw [map_append, append_assoc]
      rfl

theorem Represents.deepCopy (h : Represents m l items) (hroom : items.length < IdSupply.period) :
    exists m' copy items', l.deepCopy m = some (m', copy) ∧ Represents m' copy items' ∧
      items'.values = items.values ∧ copy.ids.freeIds = [] ∧ copy.sentinel = m.top ∧
      (forall x, x < m.top -> m'.cells x = m.cells x) ∧ m.top <= m'.top ∧
      forall a, a ∈ addresses items' -> m.top <= a := by
  have hcreated := represents_create m
  have hbelow : forall x, x ∈ l.sentinel :: addresses items -> x < m.top := h.holds.below
  have hcells : forall x, x ∈ l.sentinel :: addresses items ->
      (LinkedList.create m).1.cells x = m.cells x := fun x hx => cells_create (hbelow x hx)
  have hapart : Apart (LinkedList.create m).1 (LinkedList.create m).2 [] (addresses items) := by
    refine ⟨fun x hx hmem => ?_, fun x hx => ?_⟩
    · have hx' := hbelow x (mem_cons_of_mem _ hx)
      cases mem_singleton.mp hmem
      exact Nat.lt_irrefl m.top hx'
    · exact Nat.lt_succ_of_lt (hbelow x (mem_cons_of_mem _ hx))
  rcases h.ring.exists_next mem_cons_self with ⟨q, _, hq⟩
  have hfuel : items.length < l.nodes.entries.length + 1 := by
    rw [h.holds.size]
    exact Nat.lt_succ_self _
  rcases copyLoop_of_segment h.ring.segment hq (nodup_cons.mp h.ring.distinct).left
      h.holds.contents (fun x hx => hcells x (mem_cons_of_mem _ hx)) hcreated rfl hapart
      (by rw [length_nil, Nat.zero_add]; exact hroom) hfuel
    with ⟨m', copy, items', hloop, hperforms, hvalues, hfree⟩
  rcases exists_of_next hq with ⟨s, hs, rfl⟩
  refine ⟨m', copy, items', ?_, hperforms.represents, hvalues, hfree, hperforms.sentinel_eq,
    ?_, ?_, ?_⟩
  · have hs1 : (LinkedList.create m).1.cells l.sentinel = some s := by
      rw [hcells l.sentinel mem_cons_self, hs]
    unfold LinkedList.deepCopy
    simp only [hs1, some_bind]
    exact hloop
  · intro x hx
    rw [hperforms.frame x (Nat.lt_succ_of_lt hx), cells_create hx]
    intro hmem
    cases mem_singleton.mp hmem
    exact Nat.lt_irrefl m.top hx
  · exact Nat.le_of_succ_le hperforms.top_le
  · intro a ha
    rcases hperforms.inside a ha with hold | hnew
    · exact absurd hold not_mem_nil
    · exact Nat.le_of_succ_le hnew

end Async2.Collections
