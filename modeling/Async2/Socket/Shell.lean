import Async2.Socket.Event

/-!
# The object of a socket and its events

The game thread deletes the object of a socket when it has dispatched the close
event.  The shell of a socket is what this depends on: the object, the events on
their way, and the record of uses after the deletion.  Sockets of all three kinds
have it in common.

A socket has ended once a close event was pushed.  As long as the event thread
reaches only the objects of sockets that have not ended, it reaches no deleted one.
-/

namespace Async2.Socket

open List

structure Shell where
  live : Bool
  hasHandle : Bool
  events : List SocketEvent
  dispatching : Option SocketEvent
  pushed : List SocketEvent
  usedAfterFree : Bool

namespace Shell

def Ended (s : Shell) : Prop := exists e, e ∈ s.pushed ∧ isCloseEvent e.type = true

structure Sound (s : Shell) : Prop where
  events : forall e, e ∈ s.events -> e ∈ s.pushed
  dispatching : forall e, s.dispatching = some e -> e ∈ s.pushed
  ended : s.live = false -> s.Ended
  unused : s.usedAfterFree = false

def push (s : Shell) (e : SocketEvent) : Shell :=
  { s with events := s.events ++ [e], pushed := s.pushed ++ [e] }

def touch (s : Shell) : Shell :=
  { s with usedAfterFree := s.usedAfterFree || !s.live }

/-- Events are pushed, and nothing else happens to the shell. -/
def Grows (s s' : Shell) : Prop :=
  exists added, s' = { s with events := s.events ++ added, pushed := s.pushed ++ added }

def freeHandle (s : Shell) : Shell :=
  if s.hasHandle then { s with live := false, hasHandle := false } else s

variable {s : Shell} {rest : List SocketEvent} {s' : Shell} {e : SocketEvent}

theorem not_ended_of_pushed_nil (h : s.pushed = []) : ¬s.Ended := by
  rintro ⟨e, he, _⟩
  rw [h] at he
  cases he

theorem not_ended_of_countP (h : s.pushed.countP (fun e => isCloseEvent e.type) = 0) :
    ¬s.Ended := by
  rintro ⟨e, he, hclose⟩
  exact countP_eq_zero.mp h e he hclose

theorem Ended.push (h : s.Ended) (e : SocketEvent) : (s.push e).Ended := by
  rcases h with ⟨e', he', hclose⟩
  exact ⟨e', mem_append_left _ he', hclose⟩

theorem ended_push_iff (he : isCloseEvent e.type = false) : (s.push e).Ended <-> s.Ended := by
  constructor
  · rintro ⟨e', he', hclose⟩
    rcases mem_append.mp he' with hold | hnew
    · exact ⟨e', hold, hclose⟩
    · rw [mem_singleton.mp hnew, he] at hclose
      cases hclose
  · exact fun h => h.push e

theorem Grows.refl (s : Shell) : Grows s s := by
  refine ⟨[], ?_⟩
  rw [append_nil, append_nil]

theorem Grows.push (s : Shell) (e : SocketEvent) : Grows s (s.push e) := ⟨[e], rfl⟩

theorem Grows.trans {s'' : Shell} (h : Grows s s') (h' : Grows s' s'') : Grows s s'' := by
  rcases h with ⟨first, rfl⟩
  rcases h' with ⟨second, rfl⟩
  refine ⟨first ++ second, ?_⟩
  rw [← append_assoc, ← append_assoc]

section

variable (h : s.Sound)
include h

theorem Sound.grows (hgrows : Grows s s') : s'.Sound := by
  rcases hgrows with ⟨added, rfl⟩
  exact
    { events := by
        intro e he
        rcases mem_append.mp he with hold | hnew
        · exact mem_append_left _ (h.events e hold)
        · exact mem_append_right _ hnew
      dispatching := fun e he => mem_append_left _ (h.dispatching e he)
      ended := by
        intro hlive
        rcases h.ended hlive with ⟨e, he, hclose⟩
        exact ⟨e, mem_append_left _ he, hclose⟩
      unused := h.unused }

theorem Sound.push (e : SocketEvent) : (s.push e).Sound :=
  h.grows (Grows.push s e)

theorem Sound.live (hnot : ¬s.Ended) : s.live = true :=
  Bool.of_not_eq_false fun hlive => hnot (h.ended hlive)

theorem Sound.touch (hnot : ¬s.Ended) : s.touch.Sound where
  events := h.events
  dispatching := h.dispatching
  ended := h.ended
  unused := by
    change (s.usedAfterFree || !s.live) = false
    rw [h.unused, h.live hnot]
    rfl

theorem Sound.dispatch (hevents : s.events = e :: rest) :
    Sound { s with events := rest, dispatching := some e } where
  events := by
    intro e' he'
    refine h.events e' ?_
    rw [hevents]
    exact mem_cons_of_mem e he'
  dispatching := by
    intro e' he'
    cases he'
    refine h.events e ?_
    rw [hevents]
    exact mem_cons_self
  ended := h.ended
  unused := h.unused

theorem Sound.drop (hevents : s.events = e :: rest) : Sound { s with events := rest } where
  events := by
    intro e' he'
    refine h.events e' ?_
    rw [hevents]
    exact mem_cons_of_mem e he'
  dispatching := h.dispatching
  ended := h.ended
  unused := h.unused

theorem Sound.finish : Sound { s with dispatching := none } where
  events := h.events
  dispatching := fun _ he => by cases he
  ended := h.ended
  unused := h.unused

theorem Sound.freeHandle (hended : s.Ended) : s.freeHandle.Sound := by
  unfold Shell.freeHandle
  split
  · exact
      { events := h.events
        dispatching := h.dispatching
        ended := fun _ => hended
        unused := h.unused }
  · exact h

end

theorem ended_freeHandle : s.freeHandle.Ended <-> s.Ended := by
  unfold Shell.freeHandle
  split <;> exact Iff.rfl

end Shell

end Async2.Socket
