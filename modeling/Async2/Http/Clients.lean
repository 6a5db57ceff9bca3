import Async2.Http.Held

/-!
# The requests of a client

`g_client_handles` lists the handles of a client's requests.  The natives, the loops over
handles and the delivery of a request each update it by hand.
-/

namespace Async2.Http

open TransitionSystem Function List Option HttpRequest

/-- The client that every handle was last given to by a `SetOwner` that was accepted. -/
def noteOwner (s : State) (owner : HandleId -> Client) : Action -> HandleId -> Client
  | .httpNew _ _ id => update owner id 0
  | .setOwner id client => if s.unavailable id then owner else update owner id client
  | _ => owner

/-- The HTTP subsystem with a record of the owners. -/
def ownedSystem : System (State × (HandleId -> Client)) Action where
  init := (State.init, fun _ => 0)
  step := fun action s => (step action s.1).map fun t => (t, noteOwner s.1 s.2 action)

/-- A callback does not use the request that it is called for. -/
def LeavesOwn (s : State × (HandleId -> Client)) (action : Action) : Prop :=
  forall a, a ∈ s.1.delivering -> ¬ Uses s.1 a action

instance (s : State × (HandleId -> Client)) (action : Action) : Decidable (LeavesOwn s action) :=
  inferInstanceAs (Decidable (forall a, a ∈ s.1.delivering -> ¬ Uses s.1 a action))

/-- The client of an open request. -/
def State.clientOf (s : State) (id : HandleId) : Option Client :=
  (s.getHttpRequest id).map fun a => (s.mem a).clientIndex

/-- The handles that the loop of `OnClientDisconnecting` has not treated yet. -/
def State.closing (s : State) : List HandleId :=
  s.work.filterMap fun | .disconnect id => some id | .unload _ _ => none

/-- A client's list has its open requests, without those that are being closed. -/
structure Tracked (s : State) (owner : HandleId -> Client) : Prop where
  nodup : forall c, (s.clientHandles c).Nodup
  mem_iff : forall c id, id ∈ s.clientHandles c <->
    0 < c ∧ s.clientOf id = some c ∧ id ∉ s.closing
  closing_nodup : s.closing.Nodup
  closing_open : forall id, id ∈ s.closing -> s.clientOf id ≠ none
  noted : forall id c, s.clientOf id = some c -> owner id = c

variable {s s' : State} {owner owner' : HandleId -> Client} {a : Address} {id : HandleId}
  {client : Client}

/-!
## Clients of open requests
-/

theorem clientOf_of_get (hget : s.getHttpRequest id = some a) :
    s.clientOf id = some (s.mem a).clientIndex := by
  rw [State.clientOf, hget]
  rfl

theorem clientOf_of_pointer (hid : s.pointerOf id = some a) (c : Client)
    (hc : s.clientOf id = some c) : c = (s.mem a).clientIndex := by
  rcases map_eq_some_iff.mp hc with ⟨b, hget, rfl⟩
  cases hid.symm.trans (pointerOf_of_getHttpRequest hget)
  rfl

/-- Only one handle has changed, and no other leads to a request that has. -/
theorem clientOf_update {new : Option Client}
    (hused : forall id', id' ≠ id -> s'.usedHandles id' = s.usedHandles id')
    (hmem : forall id' b, id' ≠ id -> s.pointerOf id' = some b ->
      (s'.mem b).clientIndex = (s.mem b).clientIndex)
    (hself : s'.clientOf id = new) : s'.clientOf = update s.clientOf id new := by
  funext id'
  by_cases hne : id' = id
  · subst hne
    rw [update_self, hself]
  · have hget : s'.getHttpRequest id' = s.getHttpRequest id' := by
      rw [State.getHttpRequest, State.getHttpRequest, hused id' hne]
    rw [update_of_ne hne, State.clientOf, State.clientOf, hget]
    exact map_congr fun b hb => hmem id' b hne (pointerOf_of_getHttpRequest hb)

theorem clientOf_congr (hused : s'.usedHandles = s.usedHandles)
    (hmem : forall b, (s'.mem b).clientIndex = (s.mem b).clientIndex) :
    s'.clientOf = s.clientOf := by
  funext id
  rw [State.clientOf, State.clientOf, State.getHttpRequest, State.getHttpRequest, hused]
  simp only [hmem]

theorem clientIndex_modify {f : HttpRequest -> HttpRequest}
    (hf : forall r, (f r).clientIndex = r.clientIndex) (b : Address) :
    ((s.modify a f).mem b).clientIndex = (s.mem b).clientIndex := by
  by_cases hb : b = a
  · subst hb
    simp [State.modify, hf]
  · simp [State.modify, update_of_ne hb]

/-- A handle is freed or closed. -/
structure Shut (s s' : State) (id : HandleId) : Prop where
  client : s'.clientOf = update s.clientOf id none
  lists : s'.clientHandles = s.clientHandles
  work : s'.work = s.work

theorem shut_freeHandle (hid : s.pointerOf id = some a) : Shut s (s.freeHandle id) id := by
  rcases freeHandle_eq hid with ⟨plugins, -, heq⟩
  rw [heq]
  refine ⟨clientOf_update (fun id' hne => update_of_ne hne _ _) (fun _ _ _ _ => rfl) ?_, rfl, rfl⟩
  simp [State.clientOf, State.getHttpRequest]

theorem shut_closeOrFree (hid : s.pointerOf id = some a) : Shut s (s.closeOrFree id a) id := by
  unfold State.closeOrFree
  split
  · rcases map_eq_some_iff.mp hid with ⟨h, hused, rfl⟩
    have hused' : (s.modify h.pointer fun r => { r with handleClosed := true }).usedHandles id =
        some h := hused
    unfold State.markHandleClosed
    simp only [hused']
    refine ⟨clientOf_update (fun id' hne => update_of_ne hne _ _) (fun _ b _ _ => ?_) ?_, rfl, rfl⟩
    · exact clientIndex_modify (f := fun r => { r with handleClosed := true }) (fun _ => rfl) b
    · simp [State.clientOf, State.getHttpRequest, State.cancelRequest]
  · exact shut_freeHandle hid

theorem EventMove.index (hmove : EventMove s s') :
    s'.clientOf = s.clientOf ∧ s'.clientHandles = s.clientHandles ∧ s'.work = s.work := by
  cases hmove <;> refine ⟨clientOf_congr rfl fun b => ?_, rfl, rfl⟩ <;>
    simp only [State.complete, State.takePending, State.startTransfer, State.dropCancel,
      State.dropTimer, State.clearRetryWait, State.removeTransfer, State.setCurlcode,
      State.armTimer, prepareForRetry, State.modify, update_apply] <;>
    split <;> simp_all

theorem clientHandles_track (s : State) (client : Client) (id : HandleId) (c : Client) :
    (s.trackClientHandle client id).clientHandles c =
      s.clientHandles c ++ if 0 < c ∧ some client = some c then [id] else [] := by
  unfold State.trackClientHandle
  split
  · rw [if_neg (by grind), append_nil]
  by_cases hc : c = client
  · subst hc
    simp_all
  · simp [update_of_ne hc, Ne.symm hc]

theorem detachHandles_index (s : State) (ids : List HandleId) :
    (s.detachHandles ids).1.clientOf = s.clientOf ∧
      (s.detachHandles ids).1.clientHandles = s.clientHandles := by
  induction ids generalizing s with
  | nil => exact ⟨rfl, rfl⟩
  | cons id rest ih =>
    unfold State.detachHandles
    split
    · exact ih s
    case h_2 h hid =>
      have hdetach : (s.detachHandle id h).clientOf = s.clientOf := by
        funext id'
        by_cases hne : id' = id
        · subst hne
          simp [State.clientOf, State.getHttpRequest, State.detachHandle, hid]
        · simp [State.clientOf, State.getHttpRequest, State.detachHandle,
            update_of_ne hne]
      exact ⟨(ih _).1.trans hdetach, (ih _).2⟩

theorem closing_eq_nil (hnone : forall id, Task.disconnect id ∉ s.work) : s.closing = [] := by
  refine filterMap_eq_nil_iff.mpr fun task htask => ?_
  cases task with
  | unload => rfl
  | disconnect id => exact absurd htask (hnone id)

/-!
## Changes of the index
-/

section

variable (h : Tracked s owner)
include h

theorem Tracked.frame (hclient : s'.clientOf = s.clientOf)
    (hlists : s'.clientHandles = s.clientHandles) (hclosing : s'.closing = s.closing) :
    Tracked s' owner := by
  refine ⟨?_, ?_, ?_, ?_, ?_⟩ <;> simp only [hclient, hlists, hclosing]
  exacts [h.nodup, h.mem_iff, h.closing_nodup, h.closing_open, h.noted]

/-- The request behind a handle gets a client, or it is no longer open. -/
theorem Tracked.changed (id : HandleId) (new : Option Client)
    (hclient : s'.clientOf = update s.clientOf id new)
    (hlists : forall c, s'.clientHandles c =
      (s.clientHandles c).filter (· ≠ id) ++ if 0 < c ∧ new = some c then [id] else [])
    (hclosing : s'.closing = s.closing.erase id)
    (howner : forall c, new = some c -> owner' id = c)
    (hothers : forall id', id' ≠ id -> owner' id' = owner id') : Tracked s' owner' := by
  have hnodup := h.closing_nodup
  have hnot : id ∉ s.closing.erase id := hnodup.not_mem_erase
  refine ⟨fun c => ?_, fun c id' => ?_, hclosing ▸ hnodup.erase id, fun id' hid' => ?_,
    fun id' c => ?_⟩
  · rw [hlists, nodup_append]
    refine ⟨(h.nodup c).filter _, by split <;> simp, fun x hx y hy => ?_⟩
    grind
  · rw [hlists, hclient, hclosing, mem_append, mem_filter, h.mem_iff]
    by_cases hne : id' = id
    · grind
    · grind [mem_erase_of_ne hne]
  · rw [hclosing] at hid'
    have hne : id' ≠ id := fun heq => hnot (heq ▸ hid')
    rw [hclient, update_of_ne hne]
    exact h.closing_open id' (mem_of_mem_erase hid')
  · rw [hclient]
    by_cases hne : id' = id
    · subst hne
      rw [update_self]
      exact howner c
    · rw [update_of_ne hne, hothers id' hne]
      exact h.noted id' c

/-- `UntrackClientHandle` with the client of the request takes the handle out of all lists. -/
theorem Tracked.untrack (hclient : forall c, s.clientOf id = some c -> c = client) (c : Client) :
    (s.untrackClientHandle client id).clientHandles c = (s.clientHandles c).filter (· ≠ id) := by
  have hother : c ≠ client ∨ client <= 0 ->
      (s.clientHandles c).filter (· ≠ id) = s.clientHandles c := by
    intro hc
    refine filter_eq_self.mpr fun x hx => ?_
    have hx' := (h.mem_iff c x).mp hx
    grind
  unfold State.untrackClientHandle
  split
  case isTrue hle => exact (hother (.inr hle)).symm
  by_cases hc : c = client
  · subst hc
    exact update_self ..
  · exact (update_of_ne hc _ _).trans (hother (.inl hc)).symm

/-- The handle is untracked, and then it is freed or closed. -/
theorem Tracked.shut (hclient : forall c, s.clientOf id = some c -> c = client)
    (hclosing : s.closing = []) (hshut : Shut (s.untrackClientHandle client id) s' id) :
    Tracked s' owner := by
  refine h.changed id none ?_ (fun c => ?_) ?_ (fun _ hc => by cases hc) fun _ _ => rfl
  · rw [hshut.client, untrack_eq]
    rfl
  · rw [hshut.lists, h.untrack hclient]
    simp
  · rw [State.closing, hshut.work, untrack_eq]
    exact hclosing.trans (by rw [hclosing]; rfl)

/-!
## Steps
-/

theorem Tracked.close (htable : TableOk s) (hid : s.pointerOf id = some a)
    (hclosing : s.closing = []) :
    Tracked ((s.untrackClientHandle (s.mem a).clientIndex (s.mem a).handleId).closeOrFree id a)
      owner := by
  rw [(htable.handle_live id a hid).2]
  refine h.shut (clientOf_of_pointer hid) hclosing (shut_closeOrFree ?_)
  rw [(sameTable_untrackClientHandle s _ _).pointerOf_eq]
  exact hid

theorem Tracked.allocated (htable : TableOk s) (hwork : s.work = []) {ctx : Context}
    (hlive : s.live a = false) (hid : s.pointerOf id = none) :
    Tracked (s.allocated ctx a id) (update owner id 0) := by
  refine h.changed id (some 0) (clientOf_update (fun id' hne => ?_) (fun id' b _ hb => ?_) ?_)
    (fun c => ?_) ?_ (fun c hc => ?_) fun id' hne => update_of_ne hne _ _
  · simp [State.allocated, State.createHandle, update_of_ne hne]
  · have hba : b ≠ a := by
      rintro rfl
      cases hlive.symm.trans (htable.handle_live id' b hb).1
    simp [State.allocated, State.createHandle, update_of_ne hba]
  · simp [State.clientOf, State.getHttpRequest, State.allocated, State.createHandle,
      new]
  · rw [if_neg (by grind), append_nil, filter_eq_self.mpr]
    · rfl
    · intro x hx
      rcases map_eq_some_iff.mp ((h.mem_iff c x).mp hx).2.1 with ⟨b, hget, -⟩
      have hne : x ≠ id := by
        rintro rfl
        cases hid.symm.trans (pointerOf_of_getHttpRequest hget)
      simpa using hne
  · simp [State.closing, State.allocated, State.createHandle, hwork]
  · cases hc
    exact update_self ..

theorem Tracked.setOwner (htable : TableOk s) (hwork : s.work = [])
    (hget : s.getHttpRequest id = some a) (client : Client) :
    Tracked (((s.untrackClientHandle (s.mem a).clientIndex (s.mem a).handleId).modify a
      fun r => { r with clientIndex := client }).trackClientHandle client (s.mem a).handleId)
      (update owner id client) := by
  have hid := pointerOf_of_getHttpRequest hget
  rw [(htable.handle_live id a hid).2]
  have hlists := h.untrack (clientOf_of_pointer hid)
  have htrack : forall t : State, (t.trackClientHandle client id).usedHandles = t.usedHandles ∧
      (t.trackClientHandle client id).mem = t.mem ∧
      (t.trackClientHandle client id).work = t.work := by
    intro t
    unfold State.trackClientHandle
    split <;> exact ⟨rfl, rfl, rfl⟩
  refine h.changed id (some client) (clientOf_update (fun id' _ => ?_) (fun id' b hne hb => ?_) ?_)
    (fun c => ?_) ?_ (fun c hc => ?_) fun id' hne => update_of_ne hne _ _
  · rw [(htrack _).1, untrack_eq]
    rfl
  · have hba : b ≠ a := by
      rintro rfl
      exact hne ((htable.handle_live id' b hb).2.symm.trans (htable.handle_live id b hid).2)
    rw [(htrack _).2.1, untrack_eq]
    simp [State.modify, update_of_ne hba]
  · have hget' : (((s.untrackClientHandle (s.mem a).clientIndex id).modify a
        fun r => { r with clientIndex := client }).trackClientHandle client id).getHttpRequest id =
        some a := by
      rw [State.getHttpRequest, (htrack _).1, untrack_eq]
      exact hget
    rw [clientOf_of_get hget', (htrack _).2.1]
    simp [State.modify]
  · rw [clientHandles_track]
    exact congrArg (· ++ _) (hlists c)
  · rw [State.closing, (htrack _).2.2, untrack_eq]
    simp [State.modify, State.closing, hwork]
  · cases hc
    exact update_self ..

theorem Tracked.onClientDisconnecting (hwork : s.work = []) (client : Client) :
    Tracked (s.onClientDisconnecting client) owner := by
  have hmem := h.mem_iff
  simp only [State.closing, hwork, filterMap_nil, not_mem_nil, not_false_eq_true, and_true] at hmem
  have hclosing : (s.onClientDisconnecting client).closing = s.clientHandles client := by
    simp [State.closing, State.onClientDisconnecting, State.setWork, filterMap_map]
  have hlists : (s.onClientDisconnecting client).clientHandles =
      update s.clientHandles client [] := rfl
  have hclient : (s.onClientDisconnecting client).clientOf = s.clientOf := rfl
  refine ⟨fun c => ?_, fun c id => ?_, hclosing ▸ h.nodup client, fun id hid => ?_, h.noted⟩
  · rw [hlists]
    by_cases hc : c = client
    · subst hc
      simp
    · rw [update_of_ne hc]
      exact h.nodup c
  · rw [hlists, hclient, hclosing]
    by_cases hc : c = client
    · subst hc
      grind
    · rw [update_of_ne hc]
      grind
  · rw [hclosing, hmem] at hid
    rw [hclient, hid.2]
    exact some_ne_none _

end

theorem Tracked.step (h : Tracked s owner) (hkept : Kept Located s) {action : Action}
    (hstep : Http.step action s = some s') : Tracked s' (noteOwner s owner action) := by
  have hidle : s.work = [] -> s.closing = [] := fun hwork => by rw [State.closing, hwork]; rfl
  cases stepped_of_step hstep with
  | httpNew hplugin hlive hid => exact h.allocated hkept.table hplugin.1 hlive hid
  | httpClose hplugin hget =>
    exact h.close hkept.table (pointerOf_of_getHttpRequest hget) (hidle hplugin.1)
  | closeInvalid | executeRefused | retryRefused => exact h
  | @httpExecute id a =>
    exact h.frame (clientOf_congr rfl (clientIndex_modify
      (f := fun r => { r with inEventThread := true }) fun _ => rfl)) rfl rfl
  | setRetry => exact h.frame (clientOf_congr rfl (clientIndex_modify fun _ => rfl)) rfl rfl
  | setOwner hplugin hget hthread =>
    rw [noteOwner, if_neg (by simp [State.unavailable, hget, hthread])]
    exact h.setOwner hkept.table hplugin.1 hget _
  | ownerSame hget hthread =>
    rw [noteOwner, if_neg (by simp [State.unavailable, hget, hthread])]
    have howner := h.noted _ _ (clientOf_of_get hget)
    rw [← howner, update_eq_self]
    exact h
  | @ownerRefused id client hrefused =>
    have hrefused' : s.unavailable id = true := by
      unfold State.unavailable
      split
      · rfl
      case h_2 a hget => exact hrefused a hget
    rw [noteOwner, if_pos hrefused']
    exact h
  | @pluginUnloaded ctx ids hplugin =>
    rcases detachHandles_index (s.clearPluginSet ctx) ids with ⟨hclient, hlists⟩
    refine h.frame hclient hlists (.trans (closing_eq_nil fun id => ?_) (hidle hplugin.1).symm)
    exact disconnect_not_mem_detachHandles _ ids
  | clientDisconnecting hplugin => exact h.onClientDisconnecting hplugin.1 _
  | @taskUnload id a rest hwork =>
    have htasks := hkept.table.tasks
    rw [hwork] at htasks
    have hnone : forall id', Task.disconnect id' ∉ s.work := by
      intro id' hid'
      cases htasks.disconnect_only id' (hwork ▸ hid')
    have hrest : (s.setWork rest).closing = [] := closing_eq_nil fun id' hid' =>
      hnone id' (hwork ▸ mem_cons_of_mem _ hid')
    have hset : Tracked (s.setWork rest) owner :=
      h.frame rfl rfl (hrest.trans (closing_eq_nil hnone).symm)
    exact hset.close (hkept.table.setWork htasks.tail)
      (htasks.unload_valid id a mem_cons_self).2 hrest
  | @taskDisconnect id a rest hwork hget =>
    have hshut := shut_closeOrFree (s := s.setWork rest) (pointerOf_of_getHttpRequest hget)
    have hclosing : s.closing = id :: (s.setWork rest).closing := by
      rw [State.closing, hwork]
      rfl
    refine h.changed id none hshut.client (fun c => ?_) ?_ (fun _ hc => by cases hc) fun _ _ => rfl
    · have hnot : id ∉ s.clientHandles c := by simp [h.mem_iff, hclosing]
      rw [hshut.lists, if_neg (by simp), append_nil, filter_eq_self.mpr]
      · rfl
      · grind
    · rw [hclosing, erase_cons_head, State.closing, hshut.work]
      rfl
  | @taskStale id rest hwork hget =>
    have hmem : id ∈ s.closing := by simp [State.closing, hwork]
    exact absurd (by rw [State.clientOf, hget]; rfl) (h.closing_open id hmem)
  | gameFrame => exact h.frame rfl rfl rfl
  | @deliver a =>
    exact h.frame (clientOf_congr rfl (clientIndex_modify (a := a) (f := fun r => { r with
      inEventThread := false
      curlcode := if r.handleClosed then curleAbortedByCallback else r.curlcode })
      fun _ => rfl)) rfl rfl
  | @release a hwork hcallback =>
    rcases hkept.phased a with ⟨ph, hph⟩
    cases hph.eq_delivering hcallback
    have hid := hkept.table.live_handle a hph.live_eq
    have hid' : (s.untrackClientHandle (s.mem a).clientIndex (s.mem a).handleId).pointerOf
        (s.mem a).handleId = some a := by
      rw [(sameTable_untrackClientHandle s _ _).pointerOf_eq]
      exact hid
    have hdone := h.shut (clientOf_of_pointer hid) (hidle hwork) (shut_freeHandle hid')
    exact hdone.frame rfl rfl rfl
  | event hthread hmove =>
    rcases hmove.index with ⟨hclient, hlists, hwork⟩
    have hnoted : noteOwner s owner action = owner := by
      cases action <;> first | rfl | cases hthread
    rw [hnoted]
    exact h.frame hclient hlists (by rw [State.closing, hwork]; rfl)

theorem tracked_of_reaches {t : State × (HandleId -> Client)}
    (h : Reaches ownedSystem LeavesOwn t) : Tracked t.1 t.2 := by
  refine (h.invariant (fun t => Kept Located t.1 ∧ Tracked t.1 t.2) ⟨kept_init, ?_⟩ ?_).2
  · exact ⟨fun _ => nodup_nil, fun c id => by simp [ownedSystem, State.init, State.clientOf,
      State.getHttpRequest], nodup_nil, fun _ hid => (by cases hid), fun _ _ hc => by cases hc⟩
  · rintro ⟨s, owner⟩ action t ⟨hkept, htracked⟩ hown hstep
    rcases map_eq_some_iff.mp hstep with ⟨s', htaken, rfl⟩
    refine ⟨hkept.httpStep (fun a ha hends => hown a ha ?_) htaken, htracked.step hkept htaken⟩
    cases action <;> first | exact hends | exact hends.elim

/-- The list of a client has its open requests, each of them once, and these are what the loop
of `OnClientDisconnecting` takes up. -/
def State.ListsExactly (s : State) (owner : HandleId -> Client) (c : Client) : Prop :=
  (s.clientHandles c).Nodup ∧
    (forall id, id ∈ s.clientHandles c <->
      (exists a, s.getHttpRequest id = some a) ∧ owner id = c) ∧
    (s.onClientDisconnecting c).work = (s.clientHandles c).map Task.disconnect

/-- The next turn of the loop cancels or frees an open request, and leaves the others open. -/
def State.EndsRequest (s : State) (id : HandleId) (rest : List Task) : Prop :=
  exists a, s.getHttpRequest id = some a ∧
    s.runTask = some ((s.setWork rest).closeOrFree id a) ∧
    ((s.setWork rest).closeOrFree id a).clientOf = update s.clientOf id none

theorem clientHandles_exact {t : State × (HandleId -> Client)}
    (h : Reaches ownedSystem LeavesOwn t) :
    (t.1.work = [] -> forall c, 0 < c -> t.1.ListsExactly t.2 c) ∧
      forall id rest, t.1.work = .disconnect id :: rest -> t.1.EndsRequest id rest := by
  have htracked := tracked_of_reaches h
  refine ⟨fun hwork c hc => ⟨htracked.nodup c, fun id => ?_, rfl⟩, fun id rest hwork => ?_⟩
  · rw [htracked.mem_iff, State.closing, hwork]
    constructor
    · rintro ⟨-, hclient, -⟩
      rcases Option.map_eq_some_iff.mp hclient with ⟨a, hget, -⟩
      exact ⟨⟨a, hget⟩, htracked.noted id c hclient⟩
    · rintro ⟨⟨a, hget⟩, rfl⟩
      have hclient := clientOf_of_get hget
      rw [← htracked.noted id _ hclient] at hclient
      exact ⟨hc, hclient, List.not_mem_nil⟩
  · have hmem : id ∈ t.1.closing := by simp [State.closing, hwork]
    rcases Option.ne_none_iff_exists'.mp (htracked.closing_open id hmem) with ⟨c, hclient⟩
    rcases Option.map_eq_some_iff.mp hclient with ⟨a, hget, -⟩
    have hsame : (t.1.setWork rest).getHttpRequest id = some a := hget
    refine ⟨a, hget, ?_, (shut_closeOrFree (pointerOf_of_getHttpRequest hsame)).client⟩
    simp only [State.runTask, hwork, hsame]

/-- A request is given to client 3, which disconnects. -/
theorem clientHandles_exact_given :
    exists t u, Reaches ownedSystem LeavesOwn t ∧ t.1.clientHandles 3 = [1] ∧
      t.1.ListsExactly t.2 3 ∧ Reaches ownedSystem LeavesOwn u ∧ u.1.EndsRequest 1 [] := by
  have ht : Reaches ownedSystem LeavesOwn _ :=
    reaches_of_run [.httpNew 1 64 1, .setOwner 1 3] .init (by decide) rfl
  have hu : Reaches ownedSystem LeavesOwn _ :=
    reaches_of_run [.httpNew 1 64 1, .setOwner 1 3, .clientDisconnecting 3] .init (by decide) rfl
  exact ⟨_, _, ht, by decide, (clientHandles_exact ht).1 rfl 3 (by decide), hu,
    (clientHandles_exact hu).2 1 [] rfl⟩

end Async2.Http
