import Async2.Foundation.TransitionSystem
import Mathlib.Data.List.Nodup

/-!
# State of the HTTP subsystem

Requests are shared by two threads.  The game thread owns the handle table and
delivers completed requests; the event thread owns the transfers and the retry
timers.  Between them stand three queues of raw pointers.

An address stands for the object that is stored there.  The memory of a freed
object keeps its last contents until the address is handed out again, and
`live` tells whether the address is allocated.

The last fields of the state are not part of the program.  They record what has
happened so far: which addresses have been handed out, which requests have been
executed, how often each transfer was started, and which requests were pushed to
the done queue and taken from it.
-/

namespace Async2.Http

abbrev Address := Nat

abbrev HandleId := Int

abbrev Context := Nat

abbrev Client := Int

/-- The fields of a request that decide where it goes. -/
structure HttpRequest where
  curlcode : Int
  handleId : HandleId
  clientIndex : Client
  inEventThread : Bool
  handleClosed : Bool
  completed : Bool
  maxRetries : Int
  retryCount : Int
  inRetryWait : Bool

def HttpRequest.new : HttpRequest where
  curlcode := -1
  handleId := 0
  clientIndex := 0
  inEventThread := false
  handleClosed := false
  completed := false
  maxRetries := 0
  retryCount := 0
  inRetryWait := false

structure Handle where
  pointer : Address
  owner : Option Context
  closed : Bool

/-- A handle that the game thread has taken from a list and not treated yet. -/
inductive Task where
  | unload (id : HandleId) (pointer : Address)
  | disconnect (id : HandleId)
deriving DecidableEq

structure State where
  -- memory
  mem : Address -> HttpRequest
  live : Address -> Bool
  -- the handle manager and the index of the clients' handles
  usedHandles : HandleId -> Option Handle
  pluginHandles : Context -> List HandleId
  clientHandles : Client -> List HandleId
  -- the event loop
  pendingQueue : List Address
  cancelQueue : List Address
  doneQueue : List Address
  activeHttpRequests : List Address
  curlMulti : List Address
  retryTimers : List Address
  statsPending : Int32
  statsActive : Int32
  statsCompleted : Int32
  statsRetries : Int32
  -- the game thread: handles to treat, requests to deliver, the running callback
  work : List Task
  drained : List Address
  delivering : Option Address
  -- what has happened so far
  used : Address -> Bool
  executed : Address -> Bool
  starts : Address -> Nat
  pushed : List Address
  delivered : List Address

/-- No request exists, and every address is free. -/
def State.init : State where
  mem := fun _ => HttpRequest.new
  live := fun _ => false
  usedHandles := fun _ => none
  pluginHandles := fun _ => []
  clientHandles := fun _ => []
  pendingQueue := []
  cancelQueue := []
  doneQueue := []
  activeHttpRequests := []
  curlMulti := []
  retryTimers := []
  statsPending := 0
  statsActive := 0
  statsCompleted := 0
  statsRetries := 0
  work := []
  drained := []
  delivering := none
  used := fun _ => false
  executed := fun _ => false
  starts := fun _ => 0
  pushed := []
  delivered := []

def State.modify (s : State) (a : Address) (f : HttpRequest -> HttpRequest) : State :=
  { s with mem := Function.update s.mem a (f (s.mem a)) }

end Async2.Http
