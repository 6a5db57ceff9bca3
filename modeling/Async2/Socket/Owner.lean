import Async2.Socket.Event

/-!
# Ownership of library handles

TCP and UDP sockets keep their library handle in the same way.  The core of a
socket is what decides about the handle: whether the operation that starts the
socket was processed and a close operation after it, the entry in the map of sockets,
the resolver callbacks that may still initialise a handle, the current handle and the
close events.

When a socket is started only once, its core goes through three stages: it waits,
it is active, and it is over.
-/

namespace Async2.Socket

open List UvTable

/-- A callback of an object that is not waited for has no result. -/
theorem mem_of_guard {x : α} {l : List α} [Decidable (x ∉ l)] {o : Option β} {b : β}
    (h : (if x ∉ l then none else o) = some b) : x ∈ l ∧ o = some b := by
  rcases Option.ite_none_left_eq_some.mp h with ⟨hmem, ho⟩
  exact ⟨Classical.not_not.mp hmem, ho⟩

section

variable {Op : Type} {starts closes : Op -> Bool}

/-- A close operation comes after one that starts the socket. -/
def closesAfterStart (starts closes : Op -> Bool) (ops : List Op) : Bool :=
  (ops.dropWhile fun op => !starts op).any closes

theorem closesAfterStart_append (ops : List Op) {op : Op}
    (hop : starts op = true -> closes op = false) :
    closesAfterStart starts closes (ops ++ [op]) =
      (closesAfterStart starts closes ops || (ops.any starts && closes op)) := by
  induction ops with
  | nil =>
    cases hstarts : starts op with
    | true => simp [closesAfterStart, hstarts, hop hstarts]
    | false => simp [closesAfterStart, hstarts]
  | cons first rest ih =>
    cases hfirst : starts first with
    | true => simp [closesAfterStart, hfirst, Bool.or_assoc]
    | false => simpa [closesAfterStart, hfirst, dropWhile_cons] using ih

theorem closesAfterStart_issue {ops : List Op} {op : Op}
    (hop : starts op = true -> closes op = false)
    (h : ops.any closes = true -> closesAfterStart starts closes ops = true)
    (hstarted : closes op = true -> ops.any starts = true)
    (hany : (ops ++ [op]).any closes = true) :
    closesAfterStart starts closes (ops ++ [op]) = true := by
  rw [closesAfterStart_append ops hop, Bool.or_eq_true, Bool.and_eq_true]
  rw [any_append, Bool.or_eq_true] at hany
  rcases hany with hold | hnew
  · exact .inl (h hold)
  · have hclose : closes op = true := by simpa using hnew
    exact .inr ⟨hstarted hclose, hclose⟩

theorem countP_issue {issued : List Op} {op : Op} (honce : issued.countP starts <= 1)
    (hop : starts op = true -> issued.countP starts = 0) :
    (issued ++ [op]).countP starts <= 1 := by
  rw [countP_append]
  cases hstarts : starts op with
  | false => simpa [hstarts] using honce
  | true => simp [hstarts, hop hstarts]

/-- The operations of a socket: all that were issued, those that were processed and
those in the queue.  `mark` is a flag of the socket that goes with them. -/
structure Issue (Op : Type) where
  issued : List Op
  processed : List Op
  ops : List Op
  mark : Bool

/-- At most one operation starts the socket.  `ordered` says that it was issued before
any close. -/
structure Issue.Once (starts closes : Op -> Bool) (ordered : Prop) (q : Issue Op) : Prop where
  issued_eq : q.issued = q.processed ++ q.ops
  once : q.issued.countP starts <= 1
  closes : ordered -> q.issued.any closes = true ->
    closesAfterStart starts closes q.issued = true

variable {ordered : Prop} {q : Issue Op} {op : Op} {rest : List Op}

theorem Issue.once_nil (mark : Bool) : Once starts closes ordered ⟨[], [], [], mark⟩ where
  issued_eq := rfl
  once := Nat.zero_le 1
  closes := fun _ hany => by cases hany

variable (h : q.Once starts closes ordered)
include h

theorem Issue.Once.enqueue (hop : starts op = true -> closes op = false)
    (honce : starts op = true -> q.issued.countP starts = 0)
    (hstarted : ordered -> closes op = true -> q.issued.any starts = true) :
    Once starts closes ordered { q with ops := q.ops ++ [op], issued := q.issued ++ [op] } where
  issued_eq := by
    change q.issued ++ [op] = q.processed ++ (q.ops ++ [op])
    rw [h.issued_eq, append_assoc]
  once := countP_issue h.once honce
  closes := fun hord hany =>
    closesAfterStart_issue hop (h.closes hord) (hstarted hord) hany

theorem Issue.Once.closes_processed (hord : ordered) (hnil : q.ops = [])
    (hclose : q.issued.any closes = true) : closesAfterStart starts closes q.processed = true := by
  have hcloses := h.closes hord hclose
  rw [h.issued_eq, hnil, append_nil] at hcloses
  exact hcloses

variable (hops : q.ops = op :: rest)
include hops

theorem Issue.Once.take :
    Once starts closes ordered { q with ops := rest, processed := q.processed ++ [op] } where
  issued_eq := by
    change q.issued = q.processed ++ [op] ++ rest
    rw [h.issued_eq, hops, append_assoc]
    rfl
  once := h.once
  closes := h.closes

/-- The one operation that starts the socket comes before any other was processed. -/
theorem Issue.Once.not_started (hop : starts op = true) : q.processed.any starts = false := by
  have honce := h.once
  rw [h.issued_eq, hops, countP_append, countP_cons_of_pos hop] at honce
  rw [any_eq_false]
  exact countP_eq_zero.mp (by omega)

end

/-- The states of a socket, as far as closing is concerned. -/
inductive Phase where
  | opened
  | closing
  | closed
deriving DecidableEq

structure Core where
  started : Bool
  closeDone : Bool
  registered : Bool
  lookups : Nat
  uvHandle : Option Nat
  uv : UvTable
  phase : Phase
  closedEvents : Nat

namespace Core

/-!
## Stages
-/

/-- A handle that its socket gave up: nothing but its deletion is pending.  `g` says
that the socket may give up handles at all. -/
structure Detached (g : Prop) (u : UvHandle) : Prop where
  allowed : g
  closing : u.closing = some .deleteHandle
  connects : u.connects = 0
  writes : u.writes = 0
  reading : u.reading = false

/-- The current handle is open in an open socket and closing in a closing one. -/
def CurrentOk (c : Core) (u : UvHandle) : Prop :=
  (c.phase = .opened ∧ u.closing = none) ∨
    (c.phase = .closing ∧ u.closing = some .onClosed ∧ u.reading = false)

structure Waiting (c : Core) : Prop where
  started : c.started = false
  closeDone : c.closeDone = false
  registered : c.registered = false
  lookups : c.lookups = 0
  uvHandle : c.uvHandle = none
  handles : forall h, c.uv.handles h = none
  phase : c.phase = .opened
  closedEvents : c.closedEvents = 0
  uv : c.uv.Ok

structure Active (g : Prop) (c : Core) : Prop where
  started : c.started = true
  closeDone : c.closeDone = true -> c.phase = .closing
  registered : c.registered = true
  lookups : c.lookups <= 1
  looking : 0 < c.lookups -> c.uvHandle = none
  owner : forall h u, c.uv.handles h = some u -> c.uvHandle = some h ∨ Detached g u
  current : forall h, c.uvHandle = some h -> exists u, c.uv.handles h = some u ∧ c.CurrentOk u
  bare : c.uvHandle = none -> c.phase = .opened
  closedEvents : c.closedEvents = 0
  uv : c.uv.Ok

structure Over (g : Prop) (c : Core) : Prop where
  started : c.started = true
  registered : c.registered = false
  lookups : c.lookups <= 1
  uvHandle : c.uvHandle = none
  detached : forall h u, c.uv.handles h = some u -> Detached g u
  phase : c.phase = .closed
  closedEvents : c.closedEvents = 1
  uv : c.uv.Ok

def Stage (g : Prop) (c : Core) : Prop := Waiting c ∨ Active g c ∨ Over g c

section

variable {g : Prop} {c : Core} {h : Nat} {u : UvHandle}

theorem Stage.active_of_registered (hstage : Stage g c) (hreg : c.registered = true) :
    Active g c := by
  rcases hstage with hwait | hactive | hover
  · rw [hwait.registered] at hreg
    cases hreg
  · exact hactive
  · rw [hover.registered] at hreg
    cases hreg

/-- A handle on which more than its deletion is pending is the socket's handle. -/
theorem Stage.active_of_handle (hstage : Stage g c) (hu : c.uv.handles h = some u)
    (hnot : ¬ Detached g u) : Active g c ∧ c.uvHandle = some h := by
  rcases hstage with hwait | hactive | hover
  · rw [hwait.handles h] at hu
    cases hu
  · exact ⟨hactive, (hactive.owner h u hu).resolve_right hnot⟩
  · exact absurd (hover.detached h u hu) hnot

theorem Active.currentOk (hactive : Active g c) (hcur : c.uvHandle = some h)
    (hu : c.uv.handles h = some u) : c.CurrentOk u := by
  rcases hactive.current h hcur with ⟨v, hv, hok⟩
  rw [hu] at hv
  cases hv
  exact hok

theorem CurrentOk.opened (hok : c.CurrentOk u) (hopen : u.closing = none) : c.phase = .opened := by
  rcases hok with ⟨hphase, -⟩ | ⟨-, hclosing, -⟩
  · exact hphase
  · rw [hopen] at hclosing
    cases hclosing

theorem CurrentOk.opened_of_reading (hok : c.CurrentOk u) (hread : u.reading = true) :
    c.phase = .opened ∧ u.closing = none := by
  rcases hok with hopened | ⟨-, -, hnot⟩
  · exact hopened
  · rw [hread] at hnot
    cases hnot

theorem Active.not_closed (hactive : Active g c) : c.phase ≠ .closed := by
  intro hclosed
  cases hcur : c.uvHandle with
  | none =>
    rw [hactive.bare hcur] at hclosed
    cases hclosed
  | some h =>
    rcases hactive.current h hcur with ⟨u, -, hok⟩
    rcases hok with ⟨hphase, -⟩ | ⟨hphase, -⟩
    · rw [hphase] at hclosed
      cases hclosed
    · rw [hphase] at hclosed
      cases hclosed

/-- A socket that gives up no handle owns every handle that is not fully closed. -/
theorem Stage.owner (hstage : Stage False c) (hu : c.uv.handles h = some u) :
    c.uvHandle = some h ∧ c.registered = true := by
  rcases hstage.active_of_handle hu fun hdet => hdet.allowed with ⟨hactive, hcur⟩
  exact ⟨hcur, hactive.registered⟩

theorem Stage.uv (hstage : Stage g c) : c.uv.Ok := by
  rcases hstage with hwait | hactive | hover
  · exact hwait.uv
  · exact hactive.uv
  · exact hover.uv

/-- A started socket that was closed and waits for nothing has reported its end. -/
theorem Stage.closedEvents_of_settled (hstage : Stage g c) (hdone : c.closeDone = true)
    (hsettled : c.uv.Settled) : c.closedEvents = 1 := by
  rcases hstage with hwait | hactive | hover
  · cases hdone.symm.trans hwait.closeDone
  · have hphase := hactive.closeDone hdone
    cases hcur : c.uvHandle with
    | none => cases hphase.symm.trans (hactive.bare hcur)
    | some h =>
      rcases hactive.current h hcur with ⟨u, hu, hok⟩
      rcases hok with ⟨hopened, -⟩ | ⟨-, hclosing, -⟩
      · cases hphase.symm.trans hopened
      · have hpending := hsettled h u hu
        rw [UvHandle.pending, hclosing] at hpending
        cases hpending
  · exact hover.closedEvents

end

/-!
## Moves
-/

/-- The operation that starts the socket is processed; it may ask the resolver. -/
def begin (c : Core) (lookups : Nat) : Core :=
  { c with started := true, registered := true, lookups := c.lookups + lookups }

def answer (c : Core) : Core :=
  { c with lookups := c.lookups - 1 }

/-- A new handle becomes the current one. -/
def newHandle (c : Core) : Core :=
  { c with uv := c.uv.init, uvHandle := some c.uv.next }

def giveUp (c : Core) (h : Nat) : Core :=
  { c with uvHandle := none, uv := c.uv.close h .deleteHandle }

def modifyHandle (c : Core) (h : Nat) (f : UvHandle -> UvHandle) : Core :=
  { c with uv := c.uv.modify h f }

/-- The socket starts to close its handle. -/
def closeHandle (c : Core) (h : Nat) : Core :=
  { c with phase := .closing, uv := c.uv.close h .onClosed }

/-- A socket without a handle is closed at once. -/
def closeBare (c : Core) : Core :=
  { c with phase := .closed, registered := false, closedEvents := c.closedEvents + 1 }

/-- The close callback of the current handle. -/
def handleClosed (c : Core) (h : Nat) : Core :=
  { c with
    uv := c.uv.delete h
    uvHandle := none
    phase := .closed
    registered := false
    closedEvents := c.closedEvents + 1 }

/-- A close operation leaves a socket that is not registered or closing already as it
is. -/
def close (c : Core) : Core :=
  if c.registered = true ∧ c.phase = .opened then
    match c.uvHandle with
    | some h => c.closeHandle h
    | none => c.closeBare
  else c

/-- The close callback of a handle that was given up. -/
def deleteHandle (c : Core) (h : Nat) : Core :=
  { c with uv := c.uv.delete h }

variable {g : Prop} {c : Core} {h : Nat} {u : UvHandle}

theorem Stage.waiting (hstage : Stage g c) (hstart : c.started = false) : Waiting c := by
  rcases hstage with hwait | hactive | hover
  · exact hwait
  · cases hactive.started.symm.trans hstart
  · cases hover.started.symm.trans hstart

theorem Stage.begin (hstage : Stage g c) (hstart : c.started = false) {n : Nat} (hn : n <= 1) :
    Stage g (c.begin n) := by
  have hwait := hstage.waiting hstart
  refine .inr (.inl { hwait with
    started := rfl
    closeDone := fun hdone => ?_
    registered := rfl
    lookups := ?_
    looking := fun _ => hwait.uvHandle
    owner := fun h u hu => ?_
    current := fun h hcur => ?_
    bare := fun _ => hwait.phase })
  · cases hwait.closeDone.symm.trans hdone
  · change c.lookups + n <= 1
    rw [hwait.lookups]
    omega
  · cases (hwait.handles h).symm.trans hu
  · cases hwait.uvHandle.symm.trans hcur

theorem Stage.answer (hstage : Stage g c) : Stage g c.answer := by
  rcases hstage with hwait | hactive | hover
  · refine .inl { hwait with lookups := ?_ }
    change c.lookups - 1 = 0
    rw [hwait.lookups]
  · refine .inr (.inl { hactive with lookups := ?_, looking := ?_ })
    · exact Nat.le_trans (Nat.sub_le _ _) hactive.lookups
    · exact fun hpos => hactive.looking (Nat.lt_of_lt_of_le hpos (Nat.sub_le _ _))
  · refine .inr (.inr { hover with lookups := ?_ })
    exact Nat.le_trans (Nat.sub_le _ _) hover.lookups

section

variable (hactive : Active g c)
include hactive

theorem Active.newHandle (hlook : c.lookups = 0) (hbare : c.uvHandle = none) :
    Active g c.newHandle := by
  have hphase := hactive.bare hbare
  refine { hactive with
    looking := fun hpos => absurd hlook (Nat.ne_of_gt hpos)
    owner := fun k v hv => ?_
    current := fun k hcur => ?_
    bare := nofun
    uv := hactive.uv.init }
  · by_cases hk : k = c.uv.next
    · exact .inl (by rw [hk]; rfl)
    · have hold := (handles_init_of_ne c.uv hk).symm.trans hv
      rcases hactive.owner k v hold with hcur | hdet
      · cases hbare.symm.trans hcur
      · exact .inr hdet
  · cases hcur
    exact ⟨{}, handles_init_self c.uv, .inl ⟨hphase, rfl⟩⟩

variable (hcur : c.uvHandle = some h)
include hcur

theorem Active.detached_of_ne {k : Nat} (hu : c.uv.handles k = some u) (hk : k ≠ h) :
    Detached g u := by
  rcases hactive.owner k u hu with hcur' | hdet
  · cases hcur.symm.trans hcur'
    exact absurd rfl hk
  · exact hdet

theorem Active.giveUp (hu : c.uv.handles h = some u) (hopen : u.closing = none)
    (hconn : u.connects = 0) (hwrites : u.writes = 0) (hg : g) : Active g (c.giveUp h) := by
  refine { hactive with
    looking := fun _ => rfl
    owner := fun k v hv => .inr ?_
    current := nofun
    bare := fun _ => (hactive.currentOk hcur hu).opened hopen
    uv := hactive.uv.close hu hopen _ }
  by_cases hk : k = h
  · subst hk
    have hclose : (c.uv.close k .deleteHandle).handles k = some v := hv
    rw [handles_close_self, hu] at hclose
    cases hclose
    exact ⟨hg, rfl, hconn, hwrites, rfl⟩
  · exact hactive.detached_of_ne hcur ((handles_close_of_ne c.uv hk _).symm.trans hv) hk

theorem Active.setCurrent {uv : UvTable} {phase : Phase} {done : Bool}
    (hother : forall k, k ≠ h -> uv.handles k = c.uv.handles k)
    (hnew : exists u, uv.handles h = some u ∧ CurrentOk { c with phase := phase } u)
    (hdone : done = true -> phase = .closing) (huv : uv.Ok) :
    Active g { c with uv := uv, phase := phase, closeDone := done } := by
  refine { hactive with
    closeDone := hdone
    owner := fun k v hv => ?_
    current := fun k hk => ?_
    bare := fun hnone => ?_
    uv := huv }
  · by_cases hk : k = h
    · exact .inl (by rw [hk]; exact hcur)
    · exact hactive.owner k v ((hother k hk).symm.trans hv)
  · cases hcur.symm.trans hk
    exact hnew
  · cases hcur.symm.trans hnone

theorem Active.modifyHandle {f : UvHandle -> UvHandle} (hf : forall u, (f u).closing = u.closing)
    (hread : forall u, c.uv.handles h = some u -> (f u).reading = true ->
      u.closing = none ∨ u.reading = true) :
    Active g (c.modifyHandle h f) := by
  refine hactive.setCurrent hcur (fun k hk => handles_modify_of_ne c.uv hk f) ?_
    hactive.closeDone (hactive.uv.modify hf)
  rcases hactive.current h hcur with ⟨u, hu, hok⟩
  refine ⟨f u, by rw [handles_modify_self, hu]; rfl, ?_⟩
  rcases hok with ⟨hphase, hopen⟩ | ⟨hphase, hclosing, hnot⟩
  · exact .inl ⟨hphase, (hf u).trans hopen⟩
  · refine .inr ⟨hphase, (hf u).trans hclosing, Bool.eq_false_iff.mpr fun hfread => ?_⟩
    rcases hread u hu hfread with hopen | hyes
    · cases hopen.symm.trans hclosing
    · cases hnot.symm.trans hyes

/-- The close may come from the peer or from a close operation. -/
theorem Active.closeHandle (hphase : c.phase = .opened) (done : Bool) :
    Active g { c.closeHandle h with closeDone := done } := by
  rcases hactive.current h hcur with ⟨u, hu, hok⟩
  have hopen : u.closing = none := by
    rcases hok with ⟨-, hopen⟩ | ⟨hclosing, -⟩
    · exact hopen
    · cases hphase.symm.trans hclosing
  refine hactive.setCurrent hcur (fun k hk => handles_close_of_ne c.uv hk _) ?_
    (fun _ => rfl) (hactive.uv.close hu hopen _)
  refine ⟨u.close .onClosed, ?_, .inr ⟨rfl, rfl, rfl⟩⟩
  exact (handles_close_self c.uv h _).trans (congrArg _ hu)

end

theorem Stage.closeUnregistered (hstage : Stage g c) (hreg : c.registered = false) :
    Stage g { c with closeDone := c.closeDone || c.started } := by
  rcases hstage with hwait | hactive | hover
  · refine .inl { hwait with closeDone := ?_ }
    change (c.closeDone || c.started) = false
    rw [hwait.closeDone, hwait.started]
    rfl
  · rw [hactive.registered] at hreg
    cases hreg
  · exact .inr (.inr { hover with })

theorem Active.closeAgain (hactive : Active g c) (hphase : c.phase = .closing) (done : Bool) :
    Active g { c with closeDone := done } :=
  { hactive with closeDone := fun _ => hphase }

theorem Active.closeBare (hactive : Active g c) (hbare : c.uvHandle = none) (done : Bool) :
    Over g { c.closeBare with closeDone := done } where
  started := hactive.started
  registered := rfl
  lookups := hactive.lookups
  uvHandle := hbare
  detached := by
    intro h u hu
    rcases hactive.owner h u hu with hcur | hdet
    · cases hbare.symm.trans hcur
    · exact hdet
  phase := rfl
  closedEvents := congrArg (· + 1) hactive.closedEvents
  uv := hactive.uv

theorem Stage.close (hstage : Stage g c) :
    Stage g (Core.close { c with closeDone := c.closeDone || c.started }) := by
  unfold Core.close
  split
  case isFalse hnot =>
    by_cases hreg : c.registered = true
    case neg => exact hstage.closeUnregistered (Bool.eq_false_iff.mpr hreg)
    have hactive := hstage.active_of_registered hreg
    refine .inr (.inl (hactive.closeAgain ?_ _))
    cases hphase : c.phase with
    | opened => exact absurd ⟨hreg, hphase⟩ hnot
    | closing => rfl
    | closed => exact absurd hphase hactive.not_closed
  case isTrue hopen =>
    have hactive := hstage.active_of_registered hopen.1
    split
    case h_1 h hcur => exact .inr (.inl (hactive.closeHandle hcur hopen.2 _))
    case h_2 hbare => exact .inr (.inr (hactive.closeBare hbare _))

theorem Active.handleClosed (hactive : Active g c) (hcur : c.uvHandle = some h) :
    Over g (c.handleClosed h) where
  started := hactive.started
  registered := rfl
  lookups := hactive.lookups
  uvHandle := rfl
  detached := by
    intro k v hv
    by_cases hk : k = h
    · subst hk
      cases (handles_delete_self c.uv k).symm.trans hv
    · exact hactive.detached_of_ne hcur ((handles_delete_of_ne c.uv hk).symm.trans hv) hk
  phase := rfl
  closedEvents := congrArg (· + 1) hactive.closedEvents
  uv := hactive.uv.delete

theorem Stage.deleteHandle (hstage : Stage g c) (hu : c.uv.handles h = some u)
    (hclosing : u.closing = some .deleteHandle) : Stage g (c.deleteHandle h) := by
  have hback : forall k v, (c.uv.delete h).handles k = some v ->
      k ≠ h ∧ c.uv.handles k = some v := by
    intro k v hv
    by_cases hk : k = h
    · subst hk
      rw [handles_delete_self] at hv
      cases hv
    · rw [handles_delete_of_ne c.uv hk] at hv
      exact ⟨hk, hv⟩
  rcases hstage with hwait | hactive | hover
  · rw [hwait.handles h] at hu
    cases hu
  · refine .inr (.inl { hactive with owner := ?_, current := ?_, uv := hactive.uv.delete })
    · exact fun k v hv => hactive.owner k v (hback k v hv).2
    · intro k hk
      rcases hactive.current k hk with ⟨v, hv, hok⟩
      have hne : k ≠ h := by
        intro hkh
        subst hkh
        rw [hu] at hv
        cases hv
        rcases hok with ⟨-, hopen⟩ | ⟨-, hclosed, -⟩
        · rw [hclosing] at hopen
          cases hopen
        · rw [hclosing] at hclosed
          cases hclosed
      exact ⟨v, (handles_delete_of_ne c.uv hne).trans hv, hok⟩
  · refine .inr (.inr { hover with detached := ?_, uv := hover.uv.delete })
    exact fun k v hv => hover.detached k v (hback k v hv).2

end Core
end Async2.Socket
