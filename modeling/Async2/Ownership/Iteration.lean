import Async2.Ownership.Current
import Async2.Ownership.Versions

/-!
# Complete or invalidated iterations

An iterator remembers the version of its container.  As long as no key of the container is
changed, the steps of the iterator go through its entries in order; after a change that
counts the version they return false, until the 24-bit counter is back at its value.
-/

namespace Async2.Ownership

open RefCount.Heap AssocList TransitionSystem List Native

/-- No key of the map at `n` is added, rebound or removed in these steps. -/
def Untouched (n : Nat) (l : List (State × Native)) : Prop :=
  forall p, p ∈ l -> p.2.rebinds p.1 n = []

/-- No merge copies an entry into the map at `n`. -/
def Unmerged (n : Nat) (l : List (State × Native)) : Prop :=
  forall p, p ∈ l -> p.2.isMerge = true -> p.2.rebinds p.1 n = []

def mutations (n : Nat) (l : List (State × Native)) : Nat :=
  l.countP fun p => p.2.mutates p.1 n

def Native.isNext (id : Int) (type : IteratorType) : Native -> Bool
  | .iterNext iter type' => iter = id ∧ type' = type
  | _ => false

def steps (id : Int) (type : IteratorType) (l : List (State × Native)) : Nat :=
  l.countP fun p => p.2.isNext id type

/-- The next step of an iterator over the map at `n` returns true only if no key was changed
in the steps so far; and if none was changed, it goes to the entry after those of the steps
before, with its value, or returns false behind the last one. -/
structure Iterates (env : Env) (id : Int) (type : IteratorType) (n : Nat)
    (l : List (State × Native)) (s : State) : Prop where
  invalidated : exists answer s', (Native.iterNext id type).run env s = .ok (answer, s') ∧
    forall key, answer = .key key -> Untouched n l
  complete : Untouched n l -> exists node es, s.heap.read n = some node ∧
    type.entries node.content = .ok es ∧ (keys es).Nodup ∧
    (forall key v, es[steps id type l]? = some (key, v) ->
      exists s', (Native.iterNext id type).run env s = .ok (.key key, s') ∧
        (s'.getDataIterator id).bind DataIterator.value = some v) ∧
    (es[steps id type l]? = none ->
      (Native.iterNext id type).run env s = .ok (.flag false, s))

section

variable {env : Env} {lost : List Nat} {s s' : State} {a : Native} {id : Int}
variable {it it0 : DataIterator} {node node' : Node} {c0 : Content} {es : List (MapKey × Nat)}
variable {l : List (State × Native)} {n : Nat} {c : Content} {it' : DataIterator} {json : Int}
  {type : IteratorType}

theorem untouched_append : Untouched n (l ++ [(s, a)]) <-> Untouched n l ∧ a.rebinds s n = [] := by
  unfold Untouched
  constructor
  · intro h
    exact ⟨fun p hp => h p (mem_append_left _ hp), h (s, a) (mem_append_right l mem_cons_self)⟩
  · rintro ⟨hl, ha⟩ p hp
    rcases mem_append.mp hp with hp | hp
    · exact hl p hp
    · cases mem_singleton.mp hp
      exact ha

theorem keysAt_of_read {h h' : NodeHeap} (hread : h.read n = some node)
    (hread' : h'.read n = some node') (hcontent : node'.content = node.content) :
    keysAt h' n = keysAt h n := by
  unfold keysAt
  rw [hread, hread']
  rcases node with ⟨v, c⟩
  rcases node' with ⟨v', c'⟩
  cases hcontent
  cases c <;> rfl

theorem nodup_wrapped {K : Type} [DecidableEq K] {wrap : K -> MapKey}
    (hwrap : Function.Injective wrap) (d : Dict K Nat) :
    (keys (d.entries.map fun e => (wrap e.1, e.2))).Nodup := by
  have hkeys : keys (d.entries.map fun e => (wrap e.1, e.2)) = (keys d.entries).map wrap := by
    unfold AssocList.keys
    rw [map_map, map_map]
    rfl
  rw [hkeys]
  exact List.Nodup.map hwrap d.distinct

theorem entries_nodup (hes : type.entries c = .ok es) : (keys es).Nodup := by
  cases type with
  | object =>
    cases c with
    | object obj =>
      cases hes
      exact nodup_wrapped objects_keyedBy.injective obj
    | _ => cases hes
  | intMap =>
    cases c with
    | intMap intmap =>
      cases hes
      exact nodup_wrapped intMaps_keyedBy.injective intmap
    | _ => cases hes

theorem entries_eq_nil (hes : type.entries c = .ok es) (hnone : forall k, c.lookup k = none) :
    es = [] := by
  cases es with
  | nil => rfl
  | cons e es =>
    have hsome := lookup_of_entries hes mem_cons_self
    rw [hnone] at hsome
    cases hsome

theorem next_eq (hread : s.heap.read it.node = some node)
    (hes : it.type.entries node.content = .ok es) (hepoch : s.epoch it.node = it.epoch)
    (hversion : node.version = it.version ∨ es = []) :
    it.next s = .ok (es[it.position]?.map fun e => (e.1,
      { it with position := it.position + 1, key := some e.1, value := some e.2 })) := by
  unfold DataIterator.next
  rw [hread]
  change (if node.version ≠ it.version then _ else _) = _
  by_cases hv : node.version = it.version
  · rw [if_neg (not_not.mpr hv), hes]
    change (if s.epoch it.node ≠ it.epoch then _ else _) = _
    rw [if_neg (not_not.mpr hepoch)]
    cases es[it.position]? with
    | none | some e => rfl
  · rw [if_pos hv]
    rcases hversion with hversion | rfl
    · exact absurd hversion hv
    · rfl

/-!
## The container and the iterator since its creation
-/

/-- An iterator that was created as `it0` on a map with the contents `c0`, after the steps
`l`.  The version has been counted `k` times. -/
structure Watched (id : Int) (it0 : DataIterator) (c0 : Content) (es : List (MapKey × Nat))
    (l : List (State × Native)) (s : State) : Prop where
  sound : exists lost, Sound lost s
  handle : exists it, s.handles.find id = some (.iterator it) ∧ it.type = it0.type ∧
    it.node = it0.node ∧ it.version = it0.version ∧ it.epoch = it0.epoch ∧
    (Untouched it0.node l -> it.position = min (steps id it0.type l) es.length)
  node : exists node k, s.heap.read it0.node = some node ∧
    node.version = it0.version + BitVec.ofNat 24 k ∧ k <= mutations it0.node l ∧
    (k = 0 -> Unmerged it0.node l -> Untouched it0.node l) ∧
    (Untouched it0.node l -> node.content = c0 ∧ s.epoch it0.node = it0.epoch ∧
      (k = 0 ∨ es = []))

theorem Watched.next (hw : Watched id it0 c0 es l s) (hes : it0.type.entries c0 = .ok es)
    (hun : Untouched it0.node l) : exists it, s.handles.find id = some (.iterator it) ∧
      it.type = it0.type ∧ it.position = min (steps id it0.type l) es.length ∧
      it.next s = .ok (es[it.position]?.map fun e => (e.1,
        { it with position := it.position + 1, key := some e.1, value := some e.2 })) := by
  rcases hw.handle with ⟨it, hfind, htype, hnode, hversion, hepoch, hposition⟩
  rcases hw.node with ⟨node, k, hread, hcounted, _, _, hkept⟩
  rcases hkept hun with ⟨hcontent, hsame, hk⟩
  refine ⟨it, hfind, htype, hposition hun, ?_⟩
  rw [← hnode] at hread hsame
  apply next_eq hread
  · rw [htype, hcontent]
    exact hes
  · rw [hsame, hepoch]
  · rcases hk with rfl | hnil
    · left
      rw [hcounted, hversion]
      exact BitVec.add_zero _
    · exact .inr hnil

theorem steps_append (id : Int) (type : IteratorType) :
    steps id type (l ++ [(s, a)]) = steps id type l + if a.isNext id type then 1 else 0 := by
  unfold steps
  rw [countP_append, countP_singleton]

theorem mutations_append (n : Nat) :
    mutations n (l ++ [(s, a)]) = mutations n l + if a.mutates s n then 1 else 0 := by
  unfold mutations
  rw [countP_append, countP_singleton]

theorem isNext_iff : a.isNext id type = true <-> a = .iterNext id type := by
  constructor
  · intro h
    cases a with
    | iterNext iter type' =>
      rcases of_decide_eq_true h with ⟨rfl, rfl⟩
      rfl
    | _ => cases h
  · rintro rfl
    exact decide_eq_true ⟨rfl, rfl⟩

theorem Watched.position_step (hw : Watched id it0 c0 es l s) (hes : it0.type.entries c0 = .ok es)
    (hun : Untouched it0.node l) (hfind : s.handles.find id = some (.iterator it))
    (hstays : Stays id it s a it') :
    it'.position = min (steps id it0.type (l ++ [(s, a)])) es.length := by
  rcases hw.next hes hun with ⟨it1, hfind1, htype, hposition, hnext⟩
  cases hfind.symm.trans hfind1
  rw [steps_append]
  cases hstays with
  | same hself =>
    split
    case isTrue ha =>
      have hnone := hself (by rw [htype]; exact isNext_iff.mp ha)
      rw [hnext] at hnone
      have hend : es.length <= it.position := by
        apply List.getElem?_eq_none_iff.mp
        exact Option.map_eq_none_iff.mp (Except.ok.inj hnone)
      omega
    · exact hposition
  | @moved key it' ha hmoved =>
    have hnext' : a.isNext id it0.type = true := by
      rw [← htype]
      exact isNext_iff.mpr ha
    rw [if_pos hnext']
    rw [hnext] at hmoved
    rcases Option.map_eq_some_iff.mp (Except.ok.inj hmoved) with ⟨e, he, heq⟩
    have hlt : it.position < es.length := (List.getElem?_eq_some_iff.mp he).1
    cases heq
    change it.position + 1 = _
    omega

theorem Stays.fields (h : Stays id it s a it') :
    it'.type = it.type ∧ it'.node = it.node ∧ it'.version = it.version ∧ it'.epoch = it.epoch := by
  cases h with
  | same => exact ⟨rfl, rfl, rfl, rfl⟩
  | moved ha hnext =>
    rcases next_eq_some hnext with ⟨_, _, _, hadv⟩
    rw [hadv.moved]
    exact ⟨rfl, rfl, rfl, rfl⟩

section

variable (hs : Sound lost s) (hstep : (natives env).step a s = some s')
  (hread : s.heap.read n = some node) (hread' : s'.heap.read n = some node')
include hs hstep hread hread'

theorem epoch_of_step (hcontent : node'.content = node.content) : s'.epoch n = s.epoch n := by
  rw [(ran_step hs hstep).epoch]
  exact if_pos (keysAt_of_read hread hread' hcontent)

/-- How often a step counts the version of a map. -/
theorem counted_of_step (hmap : node.content.type ≠ .array) :
    exists i, node'.version = node.version + BitVec.ofNat 24 i ∧
      i <= (if a.mutates s n then 1 else 0) ∧
      (i = 0 -> a.isMerge = false -> a.rebinds s n = []) ∧
      (a.rebinds s n = [] -> i = 0 ∨ forall k, node.content.lookup k = none) := by
  have hn := lt_next_of_refcountOf (live_of_read hread)
  have hsucc : forall v : BitVec 24, v ≠ v + 1 := by
    intro v hv
    have hone : (1 : BitVec 24) = 0 := BitVec.self_eq_add_right.mp hv
    exact absurd hone (by decide)
  rcases (ran_step hs hstep).stepped.effect.wrote hn hread' with ⟨node0, hread0, hwrote⟩
  cases hread.symm.trans hread0
  rcases hwrote.version with hsame | ⟨hmore, hmutates⟩
  · refine ⟨0, ?_, Nat.zero_le _, fun _ hmerge => ?_, fun _ => .inl rfl⟩
    · rw [hsame]
      exact (BitVec.add_zero _).symm
    · by_contra hkeys
      have hmore := version_of_step hstep hread hread' hkeys hmerge
      exact hsucc _ (hsame.symm.trans hmore)
  · refine ⟨1, hmore, ?_, fun hzero => absurd hzero Nat.one_ne_zero, fun hkeys => ?_⟩
    · rw [if_pos hmutates]
    · rcases (sameMap_of_step hs hstep hread hread' hmap hkeys).version with hsame | hnone
      · exact absurd (hsame.symm.trans hmore) (hsucc _)
      · exact .inr hnone

end

theorem Watched.step (hw : Watched id it0 c0 es l s) (hes : it0.type.entries c0 = .ok es)
    (hcloses : a.closes id = false) (hstep : (natives env).step a s = some s') :
    Watched id it0 c0 es (l ++ [(s, a)]) s' := by
  rcases hw.sound with ⟨lost, hs⟩
  rcases hw.handle with ⟨it, hfind, htype, hnode, hversion, hepoch, hposition⟩
  rcases hw.node with ⟨node, k, hread, hcounted, hbound, hzero, hkept⟩
  rcases (ran_step hs hstep).sound with ⟨lost', hs', _⟩
  rcases stays_of_step hs hstep hfind hcloses with ⟨it', hfind', hstays⟩
  rcases hstays.fields with ⟨htype', hnode', hversion', hepoch'⟩
  -- The iterator has a reference to the container before and after the step.
  have hlive : s'.heap.refcountOf it0.node ≠ 0 := by
    rw [← hnode, ← hnode']
    exact hs'.owned.live hfind'
  rcases exists_read hlive with ⟨node', hread'⟩
  have hmap : node.content.type ≠ .array := by
    rw [← hnode] at hread
    rw [hs.typed id it node hfind hread]
    cases it.type <;> decide
  rcases counted_of_step hs hstep hread hread' hmap with ⟨i, hi, hle, hquiet, hsame⟩
  refine ⟨⟨lost', hs'⟩, ⟨it', hfind', htype'.trans htype, hnode'.trans hnode,
    hversion'.trans hversion, hepoch'.trans hepoch, fun hun => ?_⟩,
    ⟨node', k + i, hread', ?_, ?_, fun hk hunmerged => ?_, fun hun => ?_⟩⟩
  · exact hw.position_step hes (untouched_append.mp hun).left hfind hstays
  · rw [hi, hcounted, BitVec.ofNat_add, BitVec.add_assoc]
  · rw [mutations_append]
    omega
  · rcases Nat.add_eq_zero_iff.mp hk with ⟨hk0, hi0⟩
    refine untouched_append.mpr ⟨?_, ?_⟩
    · exact hzero hk0 fun p hp => hunmerged p (mem_append_left _ hp)
    · cases hmerge : a.isMerge with
      | false => exact hquiet hi0 hmerge
      | true => exact hunmerged (s, a) (mem_append_right l mem_cons_self) hmerge
  · rcases untouched_append.mp hun with ⟨hunl, huna⟩
    rcases hkept hunl with ⟨hcontent, hepoch0, hk⟩
    have hsamemap := sameMap_of_step hs hstep hread hread' hmap huna
    refine ⟨hsamemap.content.trans hcontent, ?_, ?_⟩
    · rw [epoch_of_step hs hstep hread hread' hsamemap.content, hepoch0]
    · rcases hk with rfl | hnil
      · rcases hsame huna with rfl | hnone
        · exact .inl rfl
        · rw [hcontent] at hnone
          exact .inr (entries_eq_nil hes hnone)
      · exact .inr hnil

theorem created_of_run (hn : s.getDataHandle json = some n) (hread : s.heap.read n = some node)
    (hid : id ≠ 0) (hrun : (iterCreate json type id).run env s = .ok (.handle id, s')) :
    node.content.type = type.dataType ∧ s'.heap.read n = some node ∧ s'.epoch n = s.epoch n ∧
      s'.handles.find id = some (.iterator ⟨type, n, node.version, 0, s.epoch n, none, none⟩) := by
  unfold run at hrun
  simp only [call, State.withData, hn, contentAt_of_read hread] at hrun
  change ((if node.content.type ≠ type.dataType then _ else _) >>= _) = _ at hrun
  split at hrun
  · cases hrun
    exact absurd rfl hid
  case isFalse htype =>
    rw [create_of_read hread (not_not.mp htype)] at hrun
    cases hinc : s.heap.incref n with
    | none =>
      rw [hinc] at hrun
      cases hrun
    | some h =>
      rw [hinc] at hrun
      change ((State.createHandle { s with heap := h } _ id) >>= _) = _ at hrun
      unfold State.createHandle at hrun
      rw [if_neg hid] at hrun
      cases hrun
      have hread' : h.read n = some node := by
        rw [read_incref hinc]
        exact hread
      refine ⟨not_not.mp htype, hread', ?_, ?_⟩
      · exact if_pos (keysAt_of_read hread hread' rfl)
      · change (s.handles.insert id _).find id = _
        rw [Dict.find_insert, if_pos rfl]

theorem watched_create (es : List (MapKey × Nat)) (hs : Sound lost s)
    (hfresh : (iterCreate json type id).FreshId s) (hid : id ≠ 0)
    (hn : s.getDataHandle json = some n) (hread : s.heap.read n = some node)
    (hrun : (iterCreate json type id).run env s = .ok (.handle id, s')) :
    Watched id ⟨type, n, node.version, 0, s.epoch n, none, none⟩ node.content es [] s' := by
  rcases created_of_run hn hread hid hrun with ⟨_, hread', hepoch, hfind⟩
  rcases ((ran_run _ hs hfresh).of_ok hrun).sound with ⟨lost', hs', _⟩
  refine ⟨⟨lost', hs'⟩, ⟨_, hfind, rfl, rfl, rfl, rfl, fun _ => (Nat.zero_min _).symm⟩,
    ⟨node, 0, hread', (BitVec.add_zero _).symm, Nat.zero_le _, fun _ _ => ?_,
      fun _ => ⟨rfl, hepoch, .inl rfl⟩⟩⟩
  exact fun p hp => absurd hp not_mem_nil

/-- After fewer than `2 ^ 24` countings the version tells whether there was one. -/
theorem Watched.untouched (hw : Watched id it0 c0 es l s) (hunmerged : Unmerged it0.node l)
    (hcount : mutations it0.node l < 2 ^ 24) (hread : s.heap.read it0.node = some node)
    (hversion : node.version = it0.version) : Untouched it0.node l := by
  rcases hw.node with ⟨node', k, hread', hcounted, hbound, hzero, _⟩
  cases hread.symm.trans hread'
  refine hzero ?_ hunmerged
  rw [hversion] at hcounted
  have hk : BitVec.ofNat 24 k = 0 := BitVec.self_eq_add_right.mp hcounted
  have hmod := congrArg BitVec.toNat hk
  rw [BitVec.toNat_ofNat] at hmod
  change k % 2 ^ 24 = 0 at hmod
  rw [Nat.mod_eq_of_lt (by omega)] at hmod
  exact hmod

theorem getElem?_min {A : Type} (xs : List A) (k : Nat) : xs[min k xs.length]? = xs[k]? := by
  by_cases hk : k < xs.length
  · rw [Nat.min_eq_left (Nat.le_of_lt hk)]
  · rw [Nat.min_eq_right (Nat.le_of_not_lt hk), List.getElem?_eq_none (Nat.le_refl _),
      List.getElem?_eq_none (Nat.le_of_not_lt hk)]

theorem Watched.iterates (hw : Watched id it0 c0 es l s) (hes : it0.type.entries c0 = .ok es)
    (hunmerged : Unmerged it0.node l) (hcount : mutations it0.node l < 2 ^ 24) :
    Iterates env id it0.type it0.node l s where
  invalidated := by
    rcases hw.sound with ⟨lost, hs⟩
    rcases hw.handle with ⟨it, hfind, htype, hnode, hversion, hepoch, _⟩
    rw [← htype]
    -- If the version is the one of the iterator, then nothing was changed.
    have hun : forall node, s.heap.read it.node = some node -> node.version = it.version ->
        Untouched it0.node l := by
      intro node hread hsame
      rw [hnode] at hread
      exact hw.untouched hunmerged hcount hread (hsame.trans hversion)
    cases hnext : it.next s with
    | error f =>
      rcases exists_read (hs.owned.live hfind) with ⟨node, hread⟩
      have hyields := yields_next hread (hs.typed id it node hfind hread)
      rcases hyields.of_error hnext with ⟨_, hsame, hother⟩
      rcases hw.next hes (hun node hread hsame) with ⟨it1, hfind1, _, _, hok⟩
      cases hfind.symm.trans hfind1
      rw [hnext] at hok
      cases hok
    | ok r =>
      cases r with
      | none =>
        refine ⟨_, _, run_iterNext_none hfind hnext, fun key hkey => ?_⟩
        cases hkey
      | some r =>
        rcases r with ⟨key, it'⟩
        refine ⟨_, _, run_iterNext_some hfind hnext, fun _ _ => ?_⟩
        rcases next_eq_some hnext with ⟨node, _, _, hadv⟩
        exact hun node hadv.read hadv.version
  complete := by
    intro hun
    rcases hw.next hes hun with ⟨it, hfind, htype, hposition, hnext⟩
    rcases hw.node with ⟨node, k, hread, _, _, _, hkept⟩
    rw [hposition, getElem?_min] at hnext
    refine ⟨node, es, hread, ?_, entries_nodup hes, fun key v he => ?_, fun hnone => ?_⟩
    · rw [(hkept hun).left]
      exact hes
    · rw [he] at hnext
      rw [← htype]
      refine ⟨_, run_iterNext_some hfind hnext, ?_⟩
      rw [getDataIterator_insert]
      rfl
    · rw [hnone] at hnext
      rw [← htype]
      exact run_iterNext_none hfind hnext

/-- Every iterator is complete or invalidated, as long as no merge copies into its container
and its version is not counted around. -/
theorem iterates_of_run {json : Int} {type : IteratorType} {actions : List Native}
    {s0 s1 s2 : State} (hreach : Reaches (natives env) (fun _ _ => True) s0)
    (hn : s0.getDataHandle json = some n) (hfresh : (Native.iterCreate json type id).FreshId s0)
    (hid : id ≠ 0) (hcreate : (Native.iterCreate json type id).run env s0 = .ok (.handle id, s1))
    (hrun : (natives env).run actions s1 = some s2)
    (hopen : forall a, a ∈ actions -> a.closes id = false)
    (hunmerged : Unmerged n ((natives env).visits actions s1))
    (hcount : mutations n ((natives env).visits actions s1) < 2 ^ 24) :
    Iterates env id type n ((natives env).visits actions s1) s2 := by
  rcases sound_of_reaches hreach with ⟨lost, hs⟩
  rcases exists_read (hs.owned.data_live hn) with ⟨node, hread⟩
  rcases created_of_run hn hread hid hcreate with ⟨htype, _⟩
  rcases entries_of_type type htype with ⟨es, hes⟩
  have hw := watched_create es hs hfresh hid hn hread hcreate
  have hfinal := (natives env).invariant_visits
    (P := Watched id ⟨type, n, node.version, 0, s0.epoch n, none, none⟩ node.content es)
    (fun l s a s' hl ha hstep => hl.step hes ha hstep) actions hopen hw hrun
  exact hfinal.iterates hes hunmerged hcount

end

/-- An object with two members and an iterator over it. -/
def twoMembers : List Native :=
  [Surface.jsonCreateObject 1, Surface.jsonSetInt 1 [97] 7, Surface.jsonSetInt 1 [98] 8]

/-- The iterator goes to its first key, and its container is changed after that. -/
def removedAfterNext : List Native := [Surface.iterNext 2, Surface.jsonRemoveKey 1 [97]]

theorem iterates_twoMembers :
    exists s0 s1 s2, (natives plainEnv).run twoMembers .init = some s0 ∧
      (Surface.objectIterCreate 1 2).run plainEnv s0 = .ok (.handle 2, s1) ∧
      (natives plainEnv).run removedAfterNext s1 = some s2 ∧
      Iterates plainEnv 2 .object 0 ((natives plainEnv).visits removedAfterNext s1) s2 := by
  refine ⟨_, _, _, rfl, rfl, rfl, ?_⟩
  have hreach : Reaches (natives plainEnv) (fun _ _ => True) _ :=
    reaches_of_run twoMembers .init (by decide) rfl
  have hjson : forall s : State, s.handles.find 1 = some (.json 0) ->
      s.getDataHandle 1 = some 0 := by
    intro s hfind
    unfold State.getDataHandle
    rw [hfind]
  refine iterates_of_run hreach (hjson _ rfl) ?_ (by decide) rfl rfl (by decide) ?_ (by decide)
  · exact fun id hid => by
      cases hid
      rfl
  · unfold Unmerged
    decide

/-- A merge overwrites the member that the iterator is before, which is not noticed. -/
theorem mergedMember_not_noticed :
    exists s0 s1 s2, (natives plainEnv).run (twoMembers ++
        [Surface.jsonCreateObject 3, Surface.jsonSetInt 3 [97] 9]) .init = some s0 ∧
      (Surface.objectIterCreate 1 2).run plainEnv s0 = .ok (.handle 2, s1) ∧
      (natives plainEnv).run [Surface.jsonObjectMerge 1 3 true] s1 = some s2 ∧
      (exists s3, (Surface.iterNext 2).run plainEnv s2 = .ok (.key (.member [97]), s3)) ∧
      ¬ Iterates plainEnv 2 .object 0
        ((natives plainEnv).visits [Surface.jsonObjectMerge 1 3 true] s1) s2 := by
  refine ⟨_, _, _, rfl, rfl, rfl, ⟨_, rfl⟩, fun hiterates => ?_⟩
  rcases hiterates.invalidated with ⟨answer, s', hrun, hkey⟩
  cases hrun
  have hnone := hkey _ rfl _ List.mem_cons_self
  cases hnone

end Async2.Ownership
