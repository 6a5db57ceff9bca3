import Mathlib.Logic.Function.Basic

/-!
# Socket events and library handles

What the event thread reports about a socket goes through one queue of events to
the game thread.  Seen from one socket, its events form a queue of their own, and
so do the operations that the natives enqueue for it: every entry of the shared
queues names one handle, and the entries of one handle keep their order.

A handle of the library carries the requests that are pending on it.  Their
callbacks run before the callback of its close.
-/

namespace Async2.Socket

open Function

inductive SocketEventType where
  | tcpConnected
  | tcpAccepted
  | tcpData
  | tcpError
  | tcpClosed
  | udpData
  | udpError
  | udpClosed
  | wsConnected
  | wsMessage
  | wsError
  | wsClosed
  | wsPong
deriving DecidableEq

def isCloseEvent : SocketEventType -> Bool
  | .tcpClosed | .udpClosed | .wsClosed => true
  | _ => false

/-- The handle, the context, the callback and the user data of an event are those
of its socket. -/
structure SocketEvent where
  type : SocketEventType
  handleClosed : Bool
  data : List UInt8 := []
  errorCode : Int := 0
  errorMsg : List UInt8 := []
  isBinary : Bool := false
deriving DecidableEq

def makeSocketEvent (type : SocketEventType) (closed : Bool) : SocketEvent :=
  { type := type, handleClosed := closed }

/-- The message of an error of the library is the library's text for its code. -/
def makeErrorEvent (type : SocketEventType) (closed : Bool) (errorCode : Int) : SocketEvent :=
  { type := type, handleClosed := closed, errorCode := errorCode }

/-- `DispatchSocketEvent` runs a callback for the event: late events of a closed
socket are dropped, close events are not. -/
def dispatches (e : SocketEvent) : Bool :=
  !e.handleClosed || isCloseEvent e.type

/-!
## Handles of the library
-/

/-- The callback that was passed to `uv_close`. -/
inductive CloseCallback where
  /-- `OnTcpClosed` or `OnUdpClosed`. -/
  | onClosed
  /-- The callback of `CloseTcpHandle`, which only deletes the handle. -/
  | deleteHandle
deriving DecidableEq

/-- A handle that has been initialised and is not fully closed. -/
structure UvHandle where
  closing : Option CloseCallback := none
  reading : Bool := false
  listening : Bool := false
  connects : Nat := 0
  writes : Nat := 0
deriving DecidableEq

namespace UvHandle

/-- `uv_close`: no further reads and connections are reported. -/
def close (u : UvHandle) (callback : CloseCallback) : UvHandle :=
  { u with closing := some callback, reading := false, listening := false }

/-- The close callback runs once nothing else is pending. -/
def readyToClose (u : UvHandle) (callback : CloseCallback) : Prop :=
  u.closing = some callback ∧ u.connects = 0 ∧ u.writes = 0

instance (u : UvHandle) (callback : CloseCallback) : Decidable (u.readyToClose callback) :=
  inferInstanceAs (Decidable (_ ∧ _ ∧ _))

def pending (u : UvHandle) : Bool :=
  u.closing.isSome || u.connects != 0 || u.writes != 0

end UvHandle

/-- The handles of one socket, by the order of their creation, and how often
`uv_close` was called on each. -/
structure UvTable where
  handles : Nat -> Option UvHandle := fun _ => none
  next : Nat := 0
  closeCalls : Nat -> Nat := fun _ => 0

namespace UvTable

/-- Initialises a new handle. -/
def init (t : UvTable) : UvTable :=
  { t with
    handles := update t.handles t.next (some {})
    next := t.next + 1 }

def modify (t : UvTable) (h : Nat) (f : UvHandle -> UvHandle) : UvTable :=
  { t with handles := update t.handles h ((t.handles h).map f) }

def close (t : UvTable) (h : Nat) (callback : CloseCallback) : UvTable :=
  let t := t.modify h fun u => u.close callback
  { t with closeCalls := update t.closeCalls h (t.closeCalls h + 1) }

def delete (t : UvTable) (h : Nat) : UvTable :=
  { t with handles := update t.handles h none }

def Settled (t : UvTable) : Prop :=
  forall h u, t.handles h = some u -> u.pending = false

/-- Handles are numbered in the order of their creation, and `uv_close` was called
once on those that are closing or closed and never on the others. -/
structure Ok (t : UvTable) : Prop where
  fresh : forall h, t.next <= h -> t.handles h = none ∧ t.closeCalls h = 0
  open_calls : forall h u, t.handles h = some u -> u.closing = none -> t.closeCalls h = 0
  calls_le : forall h, t.closeCalls h <= 1

section

variable (t : UvTable) (h : Nat) {k : Nat}

@[simp] theorem handles_init_self : t.init.handles t.next = some {} := by
  simp [init]

theorem handles_init_of_ne {h : Nat} (hne : h ≠ t.next) : t.init.handles h = t.handles h := by
  simp [init, update_of_ne hne]

@[simp] theorem handles_modify_self (f : UvHandle -> UvHandle) :
    (t.modify h f).handles h = (t.handles h).map f := by
  simp [modify]

theorem handles_modify_of_ne {h : Nat} (hne : k ≠ h) (f : UvHandle -> UvHandle) :
    (t.modify h f).handles k = t.handles k := by
  simp [modify, update_of_ne hne]

@[simp] theorem handles_close_self (callback : CloseCallback) :
    (t.close h callback).handles h = (t.handles h).map fun u => u.close callback := by
  simp [close, modify]

theorem handles_close_of_ne {h : Nat} (hne : k ≠ h) (callback : CloseCallback) :
    (t.close h callback).handles k = t.handles k := by
  simp [close, modify, update_of_ne hne]

@[simp] theorem handles_delete_self : (t.delete h).handles h = none := by
  simp [delete]

theorem handles_delete_of_ne {h : Nat} (hne : k ≠ h) : (t.delete h).handles k = t.handles k := by
  simp [delete, update_of_ne hne]

end

variable {t : UvTable} {h : Nat} {u : UvHandle}

theorem ok_empty : Ok {} where
  fresh := fun _ _ => ⟨rfl, rfl⟩
  open_calls := fun _ _ hu => by cases hu
  calls_le := fun _ => Nat.zero_le 1

variable (hok : Ok t)
include hok

theorem Ok.lt_next (hu : t.handles h = some u) : h < t.next := by
  by_contra hge
  rw [(hok.fresh h (Nat.le_of_not_lt hge)).1] at hu
  cases hu

theorem Ok.init : Ok t.init where
  fresh := by
    intro k hk
    have hlt : t.next < k := hk
    rw [handles_init_of_ne t (Nat.ne_of_gt hlt)]
    exact hok.fresh k (Nat.le_of_lt hlt)
  open_calls := by
    intro k u hu hopen
    by_cases hk : k = t.next
    · rw [hk]
      exact (hok.fresh t.next (Nat.le_refl _)).2
    · rw [handles_init_of_ne t hk] at hu
      exact hok.open_calls k u hu hopen
  calls_le := hok.calls_le

theorem Ok.modify {f : UvHandle -> UvHandle} (hf : forall u, (f u).closing = u.closing) :
    Ok (t.modify h f) where
  fresh := by
    intro k hk
    have hold := hok.fresh k hk
    refine ⟨?_, hold.2⟩
    by_cases hkh : k = h
    · subst hkh
      rw [handles_modify_self, hold.1]
      rfl
    · rw [handles_modify_of_ne t hkh]
      exact hold.1
  open_calls := by
    intro k u hu hopen
    by_cases hkh : k = h
    · subst hkh
      rw [handles_modify_self] at hu
      rcases Option.map_eq_some_iff.mp hu with ⟨v, hv, rfl⟩
      rw [hf] at hopen
      exact hok.open_calls k v hv hopen
    · rw [handles_modify_of_ne t hkh] at hu
      exact hok.open_calls k u hu hopen
  calls_le := hok.calls_le

theorem Ok.close (hu : t.handles h = some u) (hopen : u.closing = none) (callback : CloseCallback) :
    Ok (t.close h callback) where
  fresh := by
    intro k hk
    have hne : k ≠ h := Nat.ne_of_gt (Nat.lt_of_lt_of_le (hok.lt_next hu) hk)
    rw [handles_close_of_ne t hne]
    simpa [UvTable.close, UvTable.modify, update_of_ne hne] using hok.fresh k hk
  open_calls := by
    intro k v hv hopen'
    by_cases hkh : k = h
    · subst hkh
      rw [handles_close_self, hu] at hv
      cases hv
      cases hopen'
    · rw [handles_close_of_ne t hkh] at hv
      simpa [UvTable.close, UvTable.modify, update_of_ne hkh]
        using hok.open_calls k v hv hopen'
  calls_le := by
    intro k
    by_cases hkh : k = h
    · subst hkh
      simp [UvTable.close, UvTable.modify, hok.open_calls k u hu hopen]
    · simpa [UvTable.close, UvTable.modify, update_of_ne hkh] using hok.calls_le k

theorem Ok.delete : Ok (t.delete h) where
  fresh := by
    intro k hk
    have hold := hok.fresh k hk
    refine ⟨?_, hold.2⟩
    by_cases hkh : k = h
    · subst hkh
      exact handles_delete_self t k
    · rw [handles_delete_of_ne t hkh]
      exact hold.1
  open_calls := by
    intro k u hu hopen
    by_cases hkh : k = h
    · subst hkh
      rw [handles_delete_self] at hu
      cases hu
    · rw [handles_delete_of_ne t hkh] at hu
      exact hok.open_calls k u hu hopen
  calls_le := hok.calls_le

end UvTable

end Async2.Socket
