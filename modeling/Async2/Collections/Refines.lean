import Async2.Collections.Lists

/-!
# Lists refine sequences

In every state that is reached, walking through a list in both directions gives the same
elements, and every call does to them what it does to a sequence.
-/

namespace Async2.Collections

open Function List AssocList LinkedList
open AssocList (find keys DistinctKeys)
open Placed (addresses elements ids)
open TransitionSystem

/-!
## Walks through sequences
-/

section

variable {m m' : Memory} {l l' : LinkedList} {items items' : Placed} {xs : Elements}

theorem walk_elements {ys zs : Elements} (hsplit : xs = ys ++ zs) (hdistinct : DistinctKeys xs)
    (hzero : 0 ∉ keys xs) {fuel : Nat} (hfuel : zs.length < fuel) :
    Lists.walk (fun id => some (xs.next id)) (fun id => some (xs.getValue id)) fuel zs.first =
      some zs := by
  induction zs generalizing ys fuel with
  | nil =>
    rcases Nat.exists_eq_add_one.mpr hfuel with ⟨k, rfl⟩
    rw [Lists.walk]
    exact if_pos rfl
  | cons z rest ih =>
    rcases z with ⟨id, v⟩
    rcases Nat.exists_eq_add_one.mpr (Nat.lt_of_le_of_lt (Nat.zero_le _) hfuel) with ⟨k, rfl⟩
    have hid : id ∉ keys ys := by
      have hkeys : (keys ys ++ id :: keys rest).Nodup := by
        rw [hsplit] at hdistinct
        unfold DistinctKeys at hdistinct
        rw [AssocList.keys_append] at hdistinct
        exact hdistinct
      exact fun hmem =>
        (nodup_append.mp hkeys).right.right id hmem id mem_cons_self rfl
    have hne : id ≠ 0 := by
      rintro rfl
      exact hzero (by rw [hsplit, AssocList.keys_append]; simp)
    have hnext : xs.next id = Elements.first rest := by
      rw [hsplit]
      exact Elements.next_middle hid
    have hvalue : xs.getValue id = v := by
      rw [hsplit]
      exact Elements.getValue_middle hid
    have hrest := ih (by rw [hsplit, append_assoc]; rfl : xs = (ys ++ [(id, v)]) ++ rest)
      (Nat.lt_of_succ_lt_succ hfuel)
    change Lists.walk _ _ (k + 1) id = _
    rw [Lists.walk, if_neg hne]
    simp only [some_bind, hnext, hvalue, hrest]
    rfl

theorem getValue_reverse (hdistinct : DistinctKeys xs) (id : NodeId) :
    Elements.getValue xs.reverse id = xs.getValue id := by
  have hreverse : DistinctKeys xs.reverse := by
    unfold DistinctKeys AssocList.keys
    rw [map_reverse, nodup_reverse]
    exact hdistinct
  unfold Elements.getValue
  cases hfind : find id xs with
  | none =>
    rw [find_eq_none_iff] at hfind
    rw [find_eq_none_iff.mpr fun hmem => hfind (Elements.mem_keys_reverse.mp hmem)]
  | some v =>
    have hmem := mem_reverse.mpr (mem_of_find hfind)
    rw [find_of_mem hreverse hmem]

variable (h : Represents m l items)
include h

theorem Represents.distinctKeys : DistinctKeys (elements items) :=
  h.holds.distinct

theorem Represents.zero_not_mem : 0 ∉ keys (elements items) :=
  fun hmem => h.holds.fits.nonzero 0 (mem_append_left _ hmem) rfl

theorem Represents.forward : Lists.forward m l = some (elements items) := by
  have hnext : l.next m = fun id => some ((elements items).next id) := funext h.next
  have hvalue : l.getValue m = fun id => some ((elements items).getValue id) :=
    funext h.getValue
  have hfuel : (elements items).length < l.nodes.entries.length + 1 := by
    rw [h.holds.size]
    exact Nat.lt_succ_of_le (Nat.le_of_eq (length_map _))
  unfold Lists.forward
  rw [h.first, hnext, hvalue]
  exact walk_elements (nil_append _).symm h.distinctKeys h.zero_not_mem hfuel

theorem Represents.backward : Lists.backward m l = some (elements items).reverse := by
  have hprev : l.prev m = fun id => some (Elements.next id (elements items).reverse) :=
    funext h.prev
  have hvalue : l.getValue m =
      fun id => some (Elements.getValue (elements items).reverse id) := by
    funext id
    rw [h.getValue, getValue_reverse h.distinctKeys]
  have hdistinct : DistinctKeys (elements items).reverse := by
    unfold DistinctKeys AssocList.keys
    rw [map_reverse, nodup_reverse]
    exact h.distinctKeys
  have hzero : 0 ∉ keys (elements items).reverse :=
    fun hmem => h.zero_not_mem (Elements.mem_keys_reverse.mp hmem)
  have hfuel : (elements items).reverse.length < l.nodes.entries.length + 1 := by
    rw [h.holds.size, length_reverse]
    exact Nat.lt_succ_of_le (Nat.le_of_eq (length_map _))
  unfold Lists.backward
  rw [h.last, hprev, hvalue]
  exact walk_elements (nil_append _).symm hdistinct hzero hfuel

end

/-!
## Separate lists
-/

/-- The lists represent sequences in cells of their own. -/
structure Separate (s : Counted) (placed : ListId -> Placed) : Prop where
  represents : forall h l, s.lists.lists h = some l ->
    Represents s.lists.memory l (placed h)
  disjoint : forall h h' l l', h ≠ h' -> s.lists.lists h = some l ->
    s.lists.lists h' = some l' -> forall x, x ∈ l.sentinel :: addresses (placed h) ->
    x ∉ l'.sentinel :: addresses (placed h')
  counts : forall h l, s.lists.lists h = some l ->
    s.fresh h = l.ids.count (ids (placed h))
  room : forall h l, s.lists.lists h = some l -> s.fresh h < IdSupply.period

section

variable {s : Counted} {placed : ListId -> Placed} {h : ListId} {l : LinkedList} {value : Cell}
  {l' : LinkedList} {h' : ListId} {fresh : ListId -> Nat} {m m' : Memory} {items items' : Placed}

theorem Separate.sequences (hs : Separate s placed) (h : ListId) :
    s.lists.sequences h = (s.lists.lists h).map fun _ => elements (placed h) := by
  unfold Lists.sequences
  cases hl : s.lists.lists h with
  | none => rfl
  | some l => exact (hs.represents h l hl).forward

theorem Represents.of_cells (h : Represents m l items)
    (hcells : forall x, x ∈ l.sentinel :: addresses items -> m'.cells x = m.cells x)
    (htop : m.top <= m'.top) : Represents m' l items := by
  refine ⟨Memory.isRing_of_cells h.ring hcells, ?_, h.holds.index, h.holds.size, h.holds.fits,
    fun x hx => Nat.lt_of_lt_of_le (h.holds.below x hx) htop⟩
  intro it hit
  unfold Memory.content
  rw [hcells it.1 (mem_cons_of_mem _ (mem_map_of_mem hit))]
  exact h.holds.contents it hit

theorem lists_put_self (w : Lists) (h : ListId) (m : Memory) (new : Option LinkedList) :
    (w.put h m new).lists h = new :=
  update_self _ _ _

theorem lists_put_of_ne (w : Lists) (hne : h' ≠ h) (m : Memory) (new : Option LinkedList) :
    (w.put h m new).lists h' = w.lists h' :=
  update_of_ne hne _ _

theorem put_cases {w : Lists} {new : Option LinkedList}
    (hl' : (w.put h m new).lists h' = some l') :
    (h' = h ∧ new = some l') ∨ (h' ≠ h ∧ w.lists h' = some l') := by
  by_cases hne : h' = h
  · subst hne
    exact .inl ⟨rfl, (lists_put_self w h' m new).symm.trans hl'⟩
  · exact .inr ⟨hne, (lists_put_of_ne w hne m new).symm.trans hl'⟩

section

variable (hs : Separate s placed)
include hs

/-- One list is replaced, and the cells of the others stay as they are. -/
theorem Separate.replace {new : Option LinkedList} (htop : s.lists.memory.top <= m'.top)
    (hcells : forall h' l', h' ≠ h -> s.lists.lists h' = some l' ->
      forall x, x ∈ l'.sentinel :: addresses (placed h') -> m'.cells x = s.lists.memory.cells x)
    (hnew : forall l', new = some l' -> Represents m' l' items' ∧
      fresh h = l'.ids.count (ids items') ∧ fresh h < IdSupply.period ∧
      forall h'' l'', h'' ≠ h -> s.lists.lists h'' = some l'' ->
        forall x, x ∈ l''.sentinel :: addresses (placed h'') ->
          x ∉ l'.sentinel :: addresses items')
    (hfresh : forall h', h' ≠ h -> fresh h' = s.fresh h') :
    Separate ⟨s.lists.put h m' new, fresh⟩ (update placed h items') := by
  constructor
  · intro h' l' hl'
    rcases put_cases hl' with ⟨rfl, hat⟩ | ⟨hne, hl'⟩
    · rw [update_self]
      exact (hnew l' hat).left
    · rw [update_of_ne hne]
      exact (hs.represents h' l' hl').of_cells (hcells h' l' hne hl') htop
  · intro h1 h2 l1 l2 hne hl1 hl2 x
    rcases put_cases hl1 with ⟨rfl, hat⟩ | ⟨hne1, hold⟩
    · rcases put_cases hl2 with ⟨rfl, _⟩ | ⟨hne2, hl2⟩
      · exact absurd rfl hne
      · rw [update_self, update_of_ne hne2]
        exact fun hx hx2 => (hnew l1 hat).right.right.right h2 l2 hne2 hl2 x hx2 hx
    · rw [update_of_ne hne1]
      rcases put_cases hl2 with ⟨rfl, hat⟩ | ⟨hne2, hl2⟩
      · rw [update_self]
        exact (hnew l2 hat).right.right.right h1 l1 hne1 hold x
      · rw [update_of_ne hne2]
        exact hs.disjoint h1 h2 l1 l2 hne hold hl2 x
  · intro h' l' hl'
    rcases put_cases hl' with ⟨rfl, hat⟩ | ⟨hne, hl'⟩
    · rw [update_self]
      exact (hnew l' hat).right.left
    · rw [update_of_ne hne]
      exact (hfresh h' hne).trans (hs.counts h' l' hl')
  · intro h' l' hl'
    rcases put_cases hl' with ⟨rfl, hat⟩ | ⟨hne, hl'⟩
    · exact (hnew l' hat).right.right.left
    · exact lt_of_eq_of_lt (hfresh h' hne) (hs.room h' l' hl')

theorem Separate.apart (hl : s.lists.lists h = some l) (hne : h' ≠ h)
    (hl' : s.lists.lists h' = some l') :
    Apart s.lists.memory l (placed h) (l'.sentinel :: addresses (placed h')) :=
  ⟨hs.disjoint h' h l' l hne hl' hl, (hs.represents h' l' hl').holds.below⟩

theorem Separate.put (hl : s.lists.lists h = some l)
    (hperforms : Performs s.lists.memory l (placed h) m' l' items')
    (hcount : fresh h = l'.ids.count (ids items')) (hroom : fresh h < IdSupply.period)
    (hfresh : forall h', h' ≠ h -> fresh h' = s.fresh h') :
    Separate ⟨s.lists.put h m' (some l'), fresh⟩ (update placed h items') := by
  apply hs.replace hperforms.top_le
  · exact fun h2 l2 hne hl2 x hx => hperforms.cells_apart (hs.apart hl hne hl2) hx
  · rintro l2 ⟨⟩
    refine ⟨hperforms.represents, hcount, hroom, ?_⟩
    exact fun h2 l2 hne hl2 => (hperforms.apart (hs.apart hl hne hl2)).outside
  · exact hfresh

theorem Separate.sequences_put {new : Option LinkedList}
    (hs' : Separate ⟨s.lists.put h m' new, fresh⟩ (update placed h items')) :
    (s.lists.put h m' new).sequences =
      update s.lists.sequences h (new.map fun _ => elements items') := by
  funext h'
  have hafter := hs'.sequences h'
  change (s.lists.put h m' new).sequences h' =
    ((s.lists.put h m' new).lists h').map _ at hafter
  rw [hafter]
  by_cases hne : h' = h
  · subst hne
    rw [update_self, update_self, lists_put_self]
  · rw [update_of_ne hne, update_of_ne hne, hs.sequences,
      lists_put_of_ne s.lists hne]

end

/-!
## Calls
-/

/-- The call returns, and does to the sequences what it should. -/
def Returns (s : Counted) (c : Call) : Prop :=
  exists ret w placed, s.lists.call c = some (ret, w) ∧ Separate ⟨w, s.count c⟩ placed ∧
    Specifies s.lists.sequences ret w.sequences c

section

variable (hs : Separate s placed) (hl : s.lists.lists h = some l)
include hs hl

theorem Separate.sequences_of_some : s.lists.sequences h = some (elements (placed h)) := by
  rw [hs.sequences, hl]
  rfl

theorem Separate.performed (hperforms : Performs s.lists.memory l (placed h) m' l' items')
    (hcount : l'.ids.count (ids items') = l.ids.count (ids (placed h))) :
    Separate ⟨s.lists.put h m' (some l'), s.fresh⟩ (update placed h items') ∧
      (s.lists.put h m' (some l')).sequences =
        update s.lists.sequences h (some (elements items')) := by
  have hs' := hs.put hl hperforms ((hs.counts h l hl).trans hcount.symm) (hs.room h l hl)
    (fun _ _ => rfl)
  exact ⟨hs', hs.sequences_put hs'⟩

section

variable (hroom : s.lists.countsId h = true -> s.fresh h + 1 < 2 ^ 32 - 1)
include hroom

theorem Separate.pushed
    (hperforms : Performs s.lists.memory l (placed h) m' (l.extended s.lists.memory.top) items')
    (hperm : items'.Perm ((s.lists.memory.top, l.ids.next.1, value) :: placed h)) :
    Separate ⟨s.lists.put h m' (some (l.extended s.lists.memory.top)),
      s.count (.pushFront h value)⟩ (update placed h items') := by
  have hcounts : s.lists.countsId h = decide (l.ids.freeIds = []) := by
    unfold Lists.countsId
    rw [hl]
    rfl
  have hids : l.ids.next.2.count (ids items') =
      l.ids.next.2.count (l.ids.next.1 :: ids (placed h)) := by
    have hkeys : (ids items').Perm (l.ids.next.1 :: ids (placed h)) :=
      (hperm.map Prod.snd).map Prod.fst
    unfold IdSupply.count
    rw [hkeys.length_eq]
  have hold := hs.counts h l hl
  apply hs.put hl hperforms
  · change (if _ then _ else _ : ListId -> Nat) h = l.ids.next.2.count (ids items')
    rw [hids, IdSupply.count_next, hcounts]
    by_cases hfree : l.ids.freeIds = []
    · rw [if_pos (decide_eq_true hfree), if_pos hfree, update_self, hold]
    · rw [if_neg (by simpa using hfree), if_neg hfree, hold]
  · change (if _ then _ else _ : ListId -> Nat) h < _
    split
    case isTrue hcounted =>
      rw [update_self]
      exact hroom hcounted
    · exact hs.room h l hl
  · intro h' hne
    change (if _ then _ else _ : ListId -> Nat) h' = _
    split
    · exact update_of_ne hne _ _
    · rfl

theorem Separate.room_of_allowed :
    l.ids.freeIds = [] -> l.ids.count (ids (placed h)) + 1 < IdSupply.period := by
  intro hfree
  rw [← hs.counts h l hl]
  apply hroom
  unfold Lists.countsId
  rw [hl]
  exact decide_eq_true hfree

end

theorem Separate.returns_pushFront (hallowed : Room s (.pushFront h value)) :
    Returns s (.pushFront h value) := by
  have hrep := hs.represents h l hl
  have hroom := hs.room_of_allowed hl hallowed
  rcases hrep.pushFront hroom value with ⟨m', hpush, hperforms⟩
  rcases hrep.holds.fits.next hroom with ⟨hnonzero, hnew, _⟩
  have hs' := hs.pushed hl hallowed hperforms (List.Perm.refl _)
  refine ⟨l.ids.next.1, _, _, ?_, hs', _, hs.sequences_of_some hl, hnonzero, hnew,
    hs.sequences_put hs'⟩
  unfold Lists.call
  simp only [hl, some_bind, hpush]
  rfl

theorem Separate.returns_pushBack (hallowed : Room s (.pushBack h value)) :
    Returns s (.pushBack h value) := by
  have hrep := hs.represents h l hl
  have hroom := hs.room_of_allowed hl hallowed
  rcases hrep.pushBack hroom value with ⟨m', hpush, hperforms⟩
  rcases hrep.holds.fits.next hroom with ⟨hnonzero, hnew, _⟩
  have hs' := hs.pushed hl hallowed hperforms perm_append_comm
  have hsequences := hs.sequences_put hs'
  rw [Option.map_some, elements_append] at hsequences
  refine ⟨l.ids.next.1, _, _, ?_, hs', _, hs.sequences_of_some hl, hnonzero, hnew, hsequences⟩
  unfold Lists.call
  simp only [hl, some_bind, hpush]
  rfl

theorem Separate.returns_of_takes {c : Call} {ret : Cell} {xs : Elements}
    {result : Option (Cell × Memory × LinkedList)}
    (htakes : Takes s.lists.memory l (placed h) result ret xs) (hcount : s.count c = s.fresh)
    (hcall : forall m' l', result = some (ret, m', l') ->
      s.lists.call c = some (ret, s.lists.put h m' (some l')))
    (hspec : Specifies s.lists.sequences ret
      (update s.lists.sequences h (some xs)) c) : Returns s c := by
  rcases htakes with ⟨m', l', items', hresult, hperforms, rfl, hids⟩
  rcases hs.performed hl hperforms hids with ⟨hs', hsequences⟩
  rw [← hsequences] at hspec
  rw [← hcount] at hs'
  exact ⟨ret, _, _, hcall m' l' hresult, hs', hspec⟩

end

theorem Represents.count (hrep : Represents m l items) :
    l.ids.count (ids items) = l.nodes.entries.length + l.ids.freeIds.length := by
  unfold IdSupply.count Placed.ids AssocList.keys elements
  rw [length_map, length_map, hrep.holds.size]

variable (hs : Separate s placed)
include hs

section

variable (hl : s.lists.lists h = some l)
include hl

theorem Separate.returns_of_moved {c : Call} {xs : Elements} {result : Option Memory}
    (hmoved : exists m' items', result = some m' ∧
      Performs s.lists.memory l (placed h) m' l items' ∧ elements items' = xs)
    (hcount : s.count c = s.fresh)
    (hcall : forall m', result = some m' -> s.lists.call c = some (0, s.lists.put h m' (some l)))
    (hspec : Specifies s.lists.sequences 0
      (update s.lists.sequences h (some xs)) c) : Returns s c := by
  rcases hmoved with ⟨m', items', hresult, hperforms, helements⟩
  have hids := hperforms.represents.count.trans (hs.represents h l hl).count.symm
  apply hs.returns_of_takes hl ⟨m', l, items', rfl, hperforms, helements, hids⟩ hcount _ hspec
  rintro m' l' ⟨⟩
  exact hcall _ hresult

end

theorem Separate.returns_clear (hl : s.lists.lists h = some l) : Returns s (.clear h) := by
  rcases (hs.represents h l hl).clear with ⟨m', hclear, hperforms⟩
  have hs' : Separate ⟨s.lists.put h m' (some l.cleared), s.count (.clear h)⟩
      (update placed h []) := by
    apply hs.put hl hperforms
    · exact update_self _ _ _
    · change update s.fresh h 0 h < _
      rw [update_self]
      decide
    · exact fun h' hne => update_of_ne hne _ _
  refine ⟨0, _, _, ?_, hs', _, hs.sequences_of_some hl, rfl, hs.sequences_put hs'⟩
  unfold Lists.call
  simp only [hl, some_bind, hclear]
  rfl

theorem Separate.returns_close (hl : s.lists.lists h = some l) : Returns s (.close h) := by
  rcases (hs.represents h l hl).clear with ⟨m', hclear, hperforms⟩
  have hs' : Separate ⟨s.lists.put h (m'.delete l.sentinel) none, s.count (.close h)⟩
      (update placed h []) := by
    have htop : s.lists.memory.top <= (m'.delete l.sentinel).top := hperforms.top_le
    apply hs.replace htop
    · intro h2 l2 hne hl2 x hx
      have hapart := hs.apart hl hne hl2
      rw [Memory.cells_delete, if_neg, hperforms.cells_apart hapart hx]
      rintro rfl
      exact hapart.outside _ hx mem_cons_self
    · intro l' hl'
      cases hl'
    · exact fun _ _ => rfl
  refine ⟨0, _, _, ?_, hs', _, hs.sequences_of_some hl, rfl, hs.sequences_put hs'⟩
  unfold Lists.call destroy
  simp only [hl, some_bind, hclear]
  rfl

theorem Separate.add
    (hcells : forall x, x < s.lists.memory.top -> m'.cells x = s.lists.memory.cells x)
    (htop : s.lists.memory.top <= m'.top) (hrep : Represents m' l' items')
    (hnew : forall a, a ∈ l'.sentinel :: addresses items' -> s.lists.memory.top <= a)
    (hcount : fresh h = l'.ids.count (ids items')) (hroom : fresh h < IdSupply.period)
    (hfresh : forall h', h' ≠ h -> fresh h' = s.fresh h') :
    Separate ⟨s.lists.put h m' (some l'), fresh⟩ (update placed h items') := by
  apply hs.replace htop
  · exact fun h2 l2 _ hl2 x hx => hcells x ((hs.represents h2 l2 hl2).holds.below x hx)
  · rintro l2 ⟨⟩
    refine ⟨hrep, hcount, hroom, ?_⟩
    intro h2 l2 _ hl2 x hx hx'
    exact Nat.not_lt_of_le (hnew x hx') ((hs.represents h2 l2 hl2).holds.below x hx)
  · exact hfresh

theorem Separate.returns_create (hl : s.lists.lists h = none) : Returns s (.create h) := by
  have hs' : Separate ⟨s.lists.put h (create s.lists.memory).1
      (some (create s.lists.memory).2), s.count (.create h)⟩
      (update placed h []) := by
    apply hs.add (fun _ => cells_create) (Nat.le_succ _) (represents_create _)
    · intro a ha
      cases mem_singleton.mp ha
      exact Nat.le_refl _
    · exact update_self _ _ _
    · change update s.fresh h 0 h < _
      rw [update_self]
      decide
    · exact fun h' hne => update_of_ne hne _ _
  refine ⟨0, _, _, ?_, hs', rfl, hs.sequences_put hs'⟩
  unfold Lists.call
  dsimp only
  rw [if_pos (by rw [hl]; rfl)]

theorem Separate.returns_deepCopy {copy : ListId} (hl : s.lists.lists h = some l)
    (hcopy : s.lists.lists copy = none) : Returns s (.deepCopy h copy) := by
  have hrep := hs.represents h l hl
  have hlength : (placed h).length < IdSupply.period := by
    have hroom := hs.room h l hl
    rw [hs.counts h l hl, hrep.count, hrep.holds.size] at hroom
    exact Nat.lt_of_le_of_lt (Nat.le_add_right _ _) hroom
  rcases hrep.deepCopy hlength
    with ⟨m', c, items', hdeep, hrep', hvalues, hfree, hsentinel, hcells, htop, hnew⟩
  have hsame : items'.length = (placed h).length := by
    have heq := congrArg List.length hvalues
    unfold Placed.values at heq
    rw [length_map, length_map] at heq
    exact heq
  have hfresh : s.count (.deepCopy h copy) copy = (placed h).length := by
    change update s.fresh copy ((s.lists.lists h).elim 0 _) copy = _
    rw [update_self, hl]
    exact hrep.holds.size
  have hs' : Separate ⟨s.lists.put copy m' (some c), s.count (.deepCopy h copy)⟩
      (update placed copy items') := by
    apply hs.add hcells htop hrep'
    · intro a ha
      rcases mem_cons.mp ha with rfl | ha
      · exact Nat.le_of_eq hsentinel.symm
      · exact hnew a ha
    · rw [hfresh, hrep'.count, hfree, hrep'.holds.size, hsame]
      rfl
    · rw [hfresh]
      exact hlength
    · exact fun h' hne => update_of_ne hne _ _
  have hmap : (elements items').map Prod.snd = (elements (placed h)).map Prod.snd := by
    unfold elements
    rw [map_map, map_map]
    exact hvalues
  refine ⟨0, _, _, ?_, hs', _, _, hs.sequences_of_some hl, rfl, hrep'.distinctKeys,
    hrep'.zero_not_mem, hmap, hs.sequences_put hs'⟩
  unfold Lists.call
  simp only [hl, hcopy, some_bind, Option.isNone_none, if_true, hdeep]
  rfl

theorem Separate.returns (c : Call) (hallowed : Room s c) (hpossible : Possible s.lists c) :
    Returns s c := by
  have hlist : forall {h}, (s.lists.lists h).isSome -> exists l, s.lists.lists h = some l :=
    Option.isSome_iff_exists.mp
  cases c with
  | create h => exact hs.returns_create hpossible
  | pushFront h value =>
    rcases hlist hpossible with ⟨l, hl⟩
    exact hs.returns_pushFront hl hallowed
  | pushBack h value =>
    rcases hlist hpossible with ⟨l, hl⟩
    exact hs.returns_pushBack hl hallowed
  | popFront h =>
    rcases hlist hpossible with ⟨l, hl⟩
    apply hs.returns_of_takes hl (hs.represents h l hl).popFront rfl
    · exact fun m' l' hpop => by simp [Lists.call, hl, hpop]
    · exact ⟨_, hs.sequences_of_some hl, rfl, rfl⟩
  | popBack h =>
    rcases hlist hpossible with ⟨l, hl⟩
    apply hs.returns_of_takes hl (hs.represents h l hl).popBack rfl
    · exact fun m' l' hpop => by simp [Lists.call, hl, hpop]
    · exact ⟨_, hs.sequences_of_some hl, rfl, rfl⟩
  | remove h id =>
    rcases hlist hpossible with ⟨l, hl⟩
    apply hs.returns_of_takes hl ((hs.represents h l hl).remove id) rfl
    · exact fun m' l' hremove => by simp [Lists.call, hl, hremove]
    · exact ⟨_, hs.sequences_of_some hl, rfl, rfl⟩
  | moveToFront h id =>
    rcases hlist hpossible with ⟨l, hl⟩
    apply hs.returns_of_moved hl ((hs.represents h l hl).moveToFront id) rfl
    · exact fun m' hmove => by simp [Lists.call, hl, hmove]
    · exact ⟨_, hs.sequences_of_some hl, rfl, rfl⟩
  | moveToBack h id =>
    rcases hlist hpossible with ⟨l, hl⟩
    apply hs.returns_of_moved hl ((hs.represents h l hl).moveToBack id) rfl
    · exact fun m' hmove => by simp [Lists.call, hl, hmove]
    · exact ⟨_, hs.sequences_of_some hl, rfl, rfl⟩
  | setValue h id value =>
    rcases hlist hpossible with ⟨l, hl⟩
    apply hs.returns_of_moved hl ((hs.represents h l hl).setValue id value) rfl
    · exact fun m' hset => by simp [Lists.call, hl, hset]
    · exact ⟨_, hs.sequences_of_some hl, rfl, rfl⟩
  -- These only read their lists.
  | getValue h id | next h id | prev h id =>
    rcases hlist hpossible with ⟨l, hl⟩
    have hrep := hs.represents h l hl
    refine ⟨_, s.lists, placed, ?_, hs, _, hs.sequences_of_some hl, rfl, rfl⟩
    simp [Lists.call, hl, hrep.getValue, hrep.next, hrep.prev]
  | first h | last h | size h =>
    rcases hlist hpossible with ⟨l, hl⟩
    have hrep := hs.represents h l hl
    refine ⟨_, s.lists, placed, ?_, hs, _, hs.sequences_of_some hl, rfl, rfl⟩
    simp [Lists.call, hl, hrep.first, hrep.last, hrep.size]
  | clear h =>
    rcases hlist hpossible with ⟨l, hl⟩
    exact hs.returns_clear hl
  | deepCopy h copy =>
    rcases hlist hpossible.left with ⟨l, hl⟩
    exact hs.returns_deepCopy hl hpossible.right
  | close h =>
    rcases hlist hpossible with ⟨l, hl⟩
    exact hs.returns_close hl

end

/-!
## Runs
-/

variable {c : Call} {s : Counted}

theorem possible_of_call {w : Lists} {result : Cell × Lists} (hcall : w.call c = some result) :
    Possible w c := by
  have hlist : forall {α : Type} {h : ListId} {f : LinkedList -> Option α} {r : α},
      (w.lists h).bind f = some r -> (w.lists h).isSome := by
    intro α h f r hbind
    rcases Option.bind_eq_some_iff.mp hbind with ⟨l, hl, _⟩
    exact Option.isSome_of_eq_some hl
  cases c with
  | create h =>
    unfold Lists.call at hcall
    dsimp only at hcall
    split at hcall
    case isTrue hnone => exact Option.isNone_iff_eq_none.mp hnone
    · cases hcall
  | deepCopy h copy =>
    rcases Option.bind_eq_some_iff.mp hcall with ⟨l, hl, hrest⟩
    refine ⟨Option.isSome_of_eq_some hl, ?_⟩
    split at hrest
    case isTrue hnone => exact Option.isNone_iff_eq_none.mp hnone
    · cases hrest
  | _ => exact hlist hcall

theorem separate_of_reaches (hreach : Reaches plugins Room s) :
    exists placed, Separate s placed := by
  apply hreach.invariant fun s => exists placed, Separate s placed
  · refine ⟨fun _ => [], ?_, ?_, ?_, ?_⟩
    · intro h l hl
      cases hl
    · intro h h' l l' _ hl
      cases hl
    · intro h l hl
      cases hl
    · intro h l hl
      cases hl
  · rintro s c s' ⟨placed, hs⟩ hallowed hstep
    rcases Option.map_eq_some_iff.mp hstep with ⟨result, hcall, rfl⟩
    rcases hs.returns c hallowed (possible_of_call hcall) with ⟨ret, w, placed', hcall', hs', _⟩
    cases hcall.symm.trans hcall'
    exact ⟨placed', hs'⟩

/-- An id that is not known changes nothing. -/
theorem Specifies.unknown {q q' : Sequences} {ret : Cell} (hspec : Specifies q ret q' c)
    (hunknown : Unknown q c) : ret = 0 ∧ q' = q := by
  cases c with
  | remove h id | moveToFront h id | moveToBack h id | setValue h id value =>
    rcases hspec with ⟨xs, hxs, rfl, rfl⟩
    have hid := hunknown xs hxs
    simp [Elements.getValue_of_not_mem hid, Elements.remove_of_not_mem hid,
      Elements.moveToFront_of_not_mem hid, Elements.moveToBack_of_not_mem hid,
      Elements.setValue_of_not_mem hid, ← hxs]
  | getValue h id | next h id | prev h id =>
    rcases hspec with ⟨xs, hxs, rfl, rfl⟩
    have hid := hunknown xs hxs
    simp [Elements.getValue_of_not_mem hid, Elements.next_of_not_mem hid,
      Elements.prev_of_not_mem hid]
  | _ => exact hunknown.elim

/-- In every state each list is a sequence, and every call is a call on sequences. -/
theorem lists_refine_sequences {s : Counted} (hreach : Reaches plugins Room s) :
    (forall h l, s.lists.lists h = some l -> exists xs,
      s.lists.sequences h = some xs ∧ Lists.backward s.lists.memory l = some xs.reverse ∧
      DistinctKeys xs ∧ 0 ∉ keys xs ∧ l.size = BitVec.ofNat 32 xs.length) ∧
    forall c, Room s c -> Possible s.lists c -> exists ret w,
      s.lists.call c = some (ret, w) ∧
      Specifies s.lists.sequences ret w.sequences c ∧
      (Unknown s.lists.sequences c -> ret = 0 ∧ w.sequences = s.lists.sequences) := by
  rcases separate_of_reaches hreach with ⟨placed, hs⟩
  constructor
  · intro h l hl
    have hrep := hs.represents h l hl
    exact ⟨_, hs.sequences_of_some hl, hrep.backward, hrep.distinctKeys, hrep.zero_not_mem,
      hrep.size⟩
  · intro c hallowed hpossible
    rcases hs.returns c hallowed hpossible with ⟨ret, w, _, hcall, _, hspec⟩
    exact ⟨ret, w, hcall, hspec, hspec.unknown⟩

/-- Two elements on both sides of a third one that is removed. -/
def removedMiddle : List Call :=
  [.create 1, .pushBack 1 7, .pushBack 1 8, .pushFront 1 9, .remove 1 1]

theorem lists_refine_sequences_removedMiddle :
    exists s l, plugins.run removedMiddle plugins.init = some s ∧ s.lists.lists 1 = some l ∧
      s.lists.sequences 1 = some [(3, 9), (2, 8)] ∧
      Lists.backward s.lists.memory l = some [(2, 8), (3, 9)] ∧
      exists ret w, s.lists.call (.pushBack 1 10) = some (ret, w) ∧
        Specifies s.lists.sequences ret w.sequences (.pushBack 1 10) := by
  have hwalk : ((plugins.run removedMiddle plugins.init).bind fun s => s.lists.sequences 1) =
      some [(3, 9), (2, 8)] := by
    decide +kernel
  have hroom : ((plugins.run removedMiddle plugins.init).any fun s => Room s (.pushBack 1 10)) =
      true := by
    decide +kernel
  rcases Option.bind_eq_some_iff.mp hwalk with ⟨s, hrun, hsequence⟩
  rcases Option.bind_eq_some_iff.mp hsequence with ⟨l, hl, _⟩
  rw [hrun] at hroom
  have hreach : Reaches plugins Room s :=
    reaches_of_run removedMiddle .init (by decide +kernel) hrun
  rcases lists_refine_sequences hreach with ⟨hlists, hcalls⟩
  rcases hlists 1 l hl with ⟨xs, hxs, hbackward, _⟩
  cases hsequence.symm.trans hxs
  rcases hcalls (.pushBack 1 10) (of_decide_eq_true hroom) (Option.isSome_of_eq_some hl)
    with ⟨ret, w, hcall, hspec, _⟩
  exact ⟨s, l, hrun, hl, hsequence, hbackward, ret, w, hcall, hspec⟩

/-!
## Long lists
-/

/-- List 1 has been made by pushing. -/
structure Grown (s : Counted) (n : Nat) : Prop where
  reaches : Reaches plugins Room s
  list : exists l, s.lists.lists 1 = some l ∧ l.ids.freeIds = []
  fresh : s.fresh 1 = n

theorem Grown.push {n : Nat} (h : Grown s n) (hn : n + 1 < 2 ^ 32 - 1) :
    exists s', Grown s' (n + 1) := by
  rcases separate_of_reaches h.reaches with ⟨placed, hs⟩
  rcases h.list with ⟨l, hl, hfree⟩
  have hcounts : s.lists.countsId 1 = true := by
    unfold Lists.countsId
    rw [hl]
    exact decide_eq_true hfree
  have hallowed : Room s (.pushBack 1 7) := by
    intro _
    rw [h.fresh]
    exact hn
  rcases (hs.represents 1 l hl).pushBack (hs.room_of_allowed hl hallowed) 7
    with ⟨m', hpush, _⟩
  have hcall : s.lists.call (.pushBack 1 7) =
      some (l.ids.next.1, s.lists.put 1 m' (some (l.extended s.lists.memory.top))) := by
    unfold Lists.call
    simp only [hl, some_bind, hpush]
    rfl
  refine ⟨⟨s.lists.put 1 m' (some (l.extended s.lists.memory.top)), s.count (.pushBack 1 7)⟩,
    ?_, ?_, ?_⟩
  · refine h.reaches.step hallowed ?_
    change (s.lists.call (.pushBack 1 7)).map _ = _
    rw [hcall]
    rfl
  · refine ⟨_, lists_put_self _ _ _ _, ?_⟩
    change l.ids.next.2.freeIds = []
    rw [IdSupply.next_of_nil hfree]
  · change (if _ then _ else _ : ListId -> Nat) 1 = _
    rw [if_pos hcounts, update_self, h.fresh]

theorem exists_grown (n : Nat) (hn : n < 2 ^ 32 - 1) : exists s, Grown s n := by
  induction n with
  | zero =>
    refine ⟨⟨Lists.init.put 1 (create .init).1 (some (create .init).2),
      update (fun _ => 0) 1 0⟩, ?_, ?_, ?_⟩
    · exact Reaches.init.step (a := Call.create 1) trivial rfl
    · exact ⟨_, rfl, rfl⟩
    · rfl
  | succ n ih =>
    rcases ih (Nat.lt_of_succ_lt hn) with ⟨s, hs⟩
    exact hs.push hn

/-- The size of a list with 2^31 elements is negative. -/
theorem size_not_length :
    exists s l xs, Reaches plugins Room s ∧ s.lists.lists 1 = some l ∧
      s.lists.sequences 1 = some xs ∧ l.size.toInt ≠ xs.length := by
  rcases exists_grown (2 ^ 31) (by decide) with ⟨s, hgrown⟩
  rcases separate_of_reaches hgrown.reaches with ⟨placed, hs⟩
  rcases hgrown.list with ⟨l, hl, hfree⟩
  have hrep := hs.represents 1 l hl
  have hlength : (elements (placed 1)).length = 2 ^ 31 := by
    have hcount := hs.counts 1 l hl
    rw [hrep.count, hgrown.fresh, hfree, hrep.holds.size] at hcount
    exact (List.length_map _).trans hcount.symm
  refine ⟨s, l, _, hgrown.reaches, hl, hs.sequences_of_some hl, ?_⟩
  rw [hrep.size, hlength]
  decide

end Async2.Collections
