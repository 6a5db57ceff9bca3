import Async2.Socket.Shell
import Mathlib.Data.List.Pairwise

/-!
# Traffic between the threads

The traffic of a TCP or UDP socket is what decides whether the event thread can
reach the object after its deletion: the operations on their way, the entry in the
map of sockets, and the library handles and lookups that can lead to a close event.

Some operations seal a socket: once one of them was issued, no operation with the
address of the object follows.  A handle is calm when no close event can come of it.
If all handles are calm until the socket is sealed, then the socket is not
registered again after its close event.
-/

namespace Async2.Socket

open List

structure Traffic (Op : Type) where
  shell : Shell
  registered : Bool
  looking : Bool
  uv : UvTable
  ops : List Op
  issued : List Op
  processed : List Op

namespace Traffic

section

variable {Op : Type}

def sealed (seals : Op -> Bool) (t : Traffic Op) : Bool := t.processed.any seals

def enqueue (t : Traffic Op) (op : Op) : Traffic Op :=
  { t with ops := t.ops ++ [op], issued := t.issued ++ [op] }

/-- The head of the queue is taken out. -/
def take (t : Traffic Op) (op : Op) (rest : List Op) : Traffic Op :=
  { t with ops := rest, processed := t.processed ++ [op] }

structure Safe (seals ptr : Op -> Bool) (calm : UvHandle -> Prop) (t : Traffic Op) :
    Prop where
  sound : t.shell.Sound
  issued_eq : t.issued = t.processed ++ t.ops
  order : t.issued.Pairwise fun a b => seals a = true -> ptr b = false
  -- an accepted socket gets its handle before any operation
  adoptable : t.shell.hasHandle = false -> t.shell.live = true -> t.issued = []
  unended : t.sealed seals = false -> ¬t.shell.Ended
  calm : t.sealed seals = false -> forall h u, t.uv.handles h = some u -> calm u
  looking : t.sealed seals = false -> t.looking = false
  gone : t.shell.Ended -> t.registered = false

end

variable {Op : Type} {seals ptr : Op -> Bool} {calm : UvHandle -> Prop} {t : Traffic Op}
  {rest : List SocketEvent} {e : SocketEvent} {op : Op}

theorem safe_start {hasHandle : Bool} (hops : t.ops = []) (hissued : t.issued = [])
    (hlooking : t.looking = false)
    (hshell : t.shell =
      { live := true, hasHandle := hasHandle, events := [], dispatching := none, pushed := [],
        usedAfterFree := false })
    (hprocessed : t.processed = []) (hcalm : forall k u, t.uv.handles k = some u -> calm u) :
    t.Safe seals ptr calm := by
  have hnot : ¬t.shell.Ended := by
    rw [hshell]
    exact Shell.not_ended_of_pushed_nil rfl
  exact
    { sound := by
        rw [hshell]
        exact
          { events := fun _ he => by cases he
            dispatching := fun _ he => by cases he
            ended := fun hlive => by cases hlive
            unused := rfl }
      issued_eq := by rw [hissued, hprocessed, hops]; rfl
      order := by
        rw [hissued]
        exact List.Pairwise.nil
      adoptable := fun _ _ => hissued
      unended := fun _ => hnot
      calm := fun _ => hcalm
      looking := fun _ => hlooking
      gone := fun hended => absurd hended hnot }

variable (h : t.Safe seals ptr calm)
include h

theorem Safe.not_ended_of_registered (hreg : t.registered = true) : ¬t.shell.Ended := by
  intro hended
  cases hreg.symm.trans (h.gone hended)

/-- An operation with the address of the object is never behind one that seals. -/
theorem Safe.not_sealed {rest : List Op} (hops : t.ops = op :: rest) (hptr : ptr op = true) :
    t.sealed seals = false := by
  refine any_eq_false.mpr fun a ha hseals => ?_
  have horder := h.order
  rw [h.issued_eq, hops] at horder
  have hfalse := (pairwise_append.mp horder).2.2 a ha op mem_cons_self hseals
  cases hptr.symm.trans hfalse

theorem Safe.not_ended_of_head {rest : List Op} (hops : t.ops = op :: rest) (hptr : ptr op = true) :
    ¬t.shell.Ended :=
  h.unended (h.not_sealed hops hptr)

/-!
## Game thread
-/

theorem Safe.enqueue (hhandle : t.shell.hasHandle = true)
    (hptr : ptr op = true -> t.issued.any seals = false) : (t.enqueue op).Safe seals ptr calm where
  sound := h.sound
  issued_eq := by
    change t.issued ++ [op] = t.processed ++ (t.ops ++ [op])
    rw [h.issued_eq, append_assoc]
  order := by
    refine pairwise_append.mpr ⟨h.order, pairwise_singleton _ _, ?_⟩
    intro a ha b hb hseals
    rw [mem_singleton.mp hb]
    cases hop : ptr op with
    | false => rfl
    | true => exact absurd hseals (any_eq_false.mp (hptr hop) a ha)
  adoptable := fun hnone => by cases hhandle.symm.trans hnone
  unended := h.unended
  calm := h.calm
  looking := h.looking
  gone := h.gone

theorem Safe.setShell {shell : Shell} (hsound : shell.Sound)
    (hended : shell.Ended -> t.shell.Ended)
    (hadopt : shell.hasHandle = false -> shell.live = true ->
      t.shell.hasHandle = false ∧ t.shell.live = true) :
    Safe seals ptr calm { t with shell := shell } where
  sound := hsound
  issued_eq := h.issued_eq
  order := h.order
  adoptable := fun hhandle hlive =>
    h.adoptable (hadopt hhandle hlive).1 (hadopt hhandle hlive).2
  unended := fun hsealed hend => h.unended hsealed (hended hend)
  calm := h.calm
  looking := h.looking
  gone := fun hend => h.gone (hended hend)

theorem Safe.dispatch (hevents : t.shell.events = e :: rest) :
    Safe seals ptr calm
      { t with shell := { t.shell with events := rest, dispatching := some e } } :=
  h.setShell (h.sound.dispatch hevents) id fun hhandle hlive => ⟨hhandle, hlive⟩

theorem Safe.drop (hevents : t.shell.events = e :: rest) :
    Safe seals ptr calm { t with shell := { t.shell with events := rest } } :=
  h.setShell (h.sound.drop hevents) id fun hhandle hlive => ⟨hhandle, hlive⟩

theorem Safe.finish :
    Safe seals ptr calm { t with shell := { t.shell with dispatching := none } } :=
  h.setShell h.sound.finish id fun hhandle hlive => ⟨hhandle, hlive⟩

theorem Safe.freeHandle (hended : t.shell.Ended) :
    Safe seals ptr calm { t with shell := t.shell.freeHandle } := by
  refine h.setShell (h.sound.freeHandle hended) Shell.ended_freeHandle.mp ?_
  unfold Shell.freeHandle
  split
  · exact fun _ hlive => by cases hlive
  · exact fun hhandle hlive => ⟨hhandle, hlive⟩

/-!
## Event thread
-/

theorem Safe.take {rest : List Op} (hops : t.ops = op :: rest) :
    (t.take op rest).Safe seals ptr calm := by
  have hbefore : (t.take op rest).sealed seals = false -> t.sealed seals = false := by
    intro hnot
    refine any_eq_false.mpr fun a ha => ?_
    exact any_eq_false.mp hnot a (mem_append_left _ ha)
  exact
    { sound := h.sound
      issued_eq := by
        change t.issued = t.processed ++ [op] ++ rest
        rw [h.issued_eq, hops, append_assoc]
        rfl
      order := h.order
      adoptable := h.adoptable
      unended := fun hnot => h.unended (hbefore hnot)
      calm := fun hnot => h.calm (hbefore hnot)
      looking := fun hnot => h.looking (hbefore hnot)
      gone := h.gone }

theorem Safe.touch (hnot : ¬t.shell.Ended) :
    Safe seals ptr calm { t with shell := t.shell.touch } :=
  h.setShell (h.sound.touch hnot) id fun hhandle hlive => ⟨hhandle, hlive⟩

theorem Safe.push (he : isCloseEvent e.type = false) :
    Safe seals ptr calm { t with shell := t.shell.push e } :=
  h.setShell (h.sound.push e) (Shell.ended_push_iff he).mp
    fun hhandle hlive => ⟨hhandle, hlive⟩

/-- The close event, after which the socket is not registered any more. -/
theorem Safe.pushClosed (hsealed : t.sealed seals = true) (e : SocketEvent) :
    Safe seals ptr calm { t with shell := t.shell.push e, registered := false } where
  sound := h.sound.push e
  issued_eq := h.issued_eq
  order := h.order
  adoptable := h.adoptable
  unended := fun hnot => by cases hsealed.symm.trans hnot
  calm := h.calm
  looking := h.looking
  gone := fun _ => rfl

theorem Safe.register (hnot : ¬t.shell.Ended) : Safe seals ptr calm { t with registered := true } :=
  { h with gone := fun hended => absurd hended hnot }

theorem Safe.look {looking : Bool} (hlooking : t.sealed seals = false -> looking = false) :
    Safe seals ptr calm { t with looking := looking } :=
  { h with looking := hlooking }

theorem Safe.setUv {uv : UvTable}
    (hcalm : t.sealed seals = false -> forall k u, uv.handles k = some u -> calm u) :
    Safe seals ptr calm { t with uv := uv } :=
  { h with calm := hcalm }

end Traffic

/-!
## Handles that stay calm
-/

namespace UvTable

variable {calm : UvHandle -> Prop} {t : UvTable} {k : Nat}

theorem calm_init (hnew : calm {}) (h : forall k u, t.handles k = some u -> calm u) :
    forall k u, t.init.handles k = some u -> calm u := by
  intro k u hu
  by_cases hk : k = t.next
  · rw [hk, handles_init_self] at hu
    cases hu
    exact hnew
  · rw [handles_init_of_ne t hk] at hu
    exact h k u hu

theorem calm_modify {f : UvHandle -> UvHandle} (hf : forall u, t.handles k = some u -> calm (f u))
    (h : forall k u, t.handles k = some u -> calm u) :
    forall j u, (t.modify k f).handles j = some u -> calm u := by
  intro j u hu
  by_cases hj : j = k
  · rw [hj, handles_modify_self] at hu
    rcases Option.map_eq_some_iff.mp hu with ⟨v, hv, rfl⟩
    exact hf v hv
  · rw [handles_modify_of_ne t hj] at hu
    exact h j u hu

theorem calm_close {callback : CloseCallback}
    (hclose : forall u, t.handles k = some u -> calm (u.close callback))
    (h : forall k u, t.handles k = some u -> calm u) :
    forall j u, (t.close k callback).handles j = some u -> calm u :=
  calm_modify hclose h

theorem calm_delete (h : forall k u, t.handles k = some u -> calm u) :
    forall j u, (t.delete k).handles j = some u -> calm u := by
  intro j u hu
  by_cases hj : j = k
  · rw [hj, handles_delete_self] at hu
    cases hu
  · rw [handles_delete_of_ne t hj] at hu
    exact h j u hu

end UvTable

end Async2.Socket
