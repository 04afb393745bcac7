import Mathlib.Data.List.Basic
import Ucxpp.Endpoint
import Ucxpp.Lib.Lts

/-!
# EndpointRun — one endpoint, its owners and UCX

The machine of one endpoint from its construction until after the destruction
of its worker. The user copies, moves and drops what refers to the endpoint
(shared pointers, remote memory handles, awaitables), awaits operations, calls
`close()` and lets go of the worker; UCX runs `error_cb`, answers the close
calls, and completes the requests it returned from `ucp_worker_progress`.

The endpoint object is destroyed with the last reference to it. Besides the
objects of the user a suspended `close()` holds one, through the
`ep_close_awaitable` in its frame: the frame of a task that is awaited or
detached stays until the coroutine has finished, and `~task` of one that is
neither does not return before that.

`log` is the history that the properties of an endpoint are about: calls of a
UCX close function, operations handed to UCX, starts and ends of `close()`
coroutines, and the destructor.
-/

namespace Ucxpp.EndpointRun

/-! ## States -/

/-- An object of the user that refers, or referred, to the endpoint. An
awaitable other than that of `flush` keeps no reference, only a handle. -/
inductive Holder where
  | pointer
  | memory (m : RemoteMemoryHandle)
  | operation (op : Operation)
  | flush
deriving DecidableEq, Repr

/-- The holder has a `shared_ptr` to the endpoint. -/
def Holder.owns : Holder → Bool
  | .pointer | .flush => true
  | .memory m => m.endpoint
  | .operation _ => false

/-- The user can copy a `shared_ptr` out of the holder: it is one, or it has
`endpoint_ptr()`. -/
def Holder.lends : Holder → Bool
  | .pointer => true
  | .memory m => m.endpoint
  | .operation _ | .flush => false

/-- Who made a close call. A `close()` coroutine is known by its number. -/
inductive Closer where
  | errorCb
  | close (k : Nat)
  | destructor
deriving DecidableEq, Repr

def Closer.isClose : Closer → Bool
  | .close _ => true
  | .errorCb | .destructor => false

/-- A request that a close call returned. -/
structure CloseRequest where
  ptr : Request
  closer : Closer
  completed : Bool
  frees : Nat
deriving DecidableEq, Repr

/-- A `close()` coroutine: suspended until a request completes, or over. -/
inductive CloseState where
  | pending (request : Nat)
  | finished
deriving DecidableEq, Repr

def CloseState.isPending : CloseState → Bool
  | .pending _ => true
  | .finished => false

inductive Event where
  | epClose (closer : Closer) (ep : UcpEp)
  | issued (op : Operation)
  | closeStarted (k : Nat)
  | closeFinished (k : Nat)
  | destructor
deriving DecidableEq, Repr

/-- `epH` is the handle that `ucp_ep_create` returned. UCX runs `error_cb` on
it while `epOpen`: until a close call on it is over. `workerPtrs` counts the
pointers to the worker that the user holds; the endpoint has another one. -/
structure St where
  epH : Nat
  epOpen : Bool
  obj : Endpoint
  alive : Bool
  holders : List Holder
  closes : List CloseState
  requests : List CloseRequest
  workerPtrs : Nat
  workerAlive : Bool
  log : List Event
deriving DecidableEq, Repr

/-- A new endpoint, built in memory that held `mem`, with one pointer to it. -/
def St.init (mem : Endpoint) (epH : Nat) : St where
  epH := epH
  epOpen := true
  obj := .construct mem epH
  alive := true
  holders := [.pointer]
  closes := []
  requests := []
  workerPtrs := 1
  workerAlive := true
  log := []

/-- The use count of the endpoint. -/
def St.refs (s : St) : Nat :=
  s.holders.countP Holder.owns + s.closes.countP CloseState.isPending

/-! ## What the thread does -/

def St.emit (s : St) (e : Event) : St :=
  { s with log := s.log ++ [e] }

def St.hold (s : St) (x : Holder) : St :=
  { s with holders := s.holders ++ [x] }

/-- Dropping the object at place `i`. -/
def St.dropped (s : St) (i : Nat) : St :=
  { s with holders := s.holders.eraseIdx i }

/-- The `close()` coroutine `k` has destroyed its awaitable. -/
def St.finished (s : St) (k : Nat) : St :=
  { s with closes := s.closes.set k .finished }

/-- The request pointer in the answer to a close call, if it is one. -/
def returned (closer : Closer) : StatusPtr → List CloseRequest
  | .request r => [⟨r, closer, false, 0⟩]
  | .null | .err _ => []

/-- A call of `ucp_ep_close_nb` or `ucp_ep_close_nbx`, and its answer. -/
def St.closeCall (s : St) (closer : Closer) (ep : UcpEp) (ans : StatusPtr) : St :=
  { s with
    requests := s.requests ++ returned closer ans
    epOpen := s.epOpen && ans.isPtr
    log := s.log ++ [.epClose closer ep] }

/-- The last reference to the worker is gone: `~worker`. -/
def St.settleWorker (s : St) : St :=
  if s.alive = false ∧ s.workerPtrs = 0 then { s with workerAlive := false } else s

/-- `~endpoint`, and after its body the release of `worker_`. -/
def St.destroy (s : St) (ans : StatusPtr) : St :=
  let s := s.emit .destructor
  -- `if (ep_ != nullptr && close_request_ == nullptr)`
  let s := if s.obj.destructorCloses then s.closeCall .destructor s.obj.ep ans else s
  { s with alive := false }.settleWorker

/-- A reference to the endpoint is gone. -/
def St.settle (s : St) (ans : StatusPtr) : St :=
  if s.alive = true ∧ s.refs = 0 then s.destroy ans else s

/-- `error_cb`, which UCX calls with the handle of the endpoint. -/
def errorCb (s : St) (ans : StatusPtr) : St :=
  let closed := if s.obj.errorCbCloses then s.closeCall .errorCb (some s.epH) ans else s
  { closed with obj := s.obj.errorCb ans }

/-- `close()`, up to where it suspends or finishes. It runs inside the call,
so the pointer that it was called through outlives the awaitable. An exception
ends it before the last statement. -/
def close (s : St) (ans : StatusPtr) : St :=
  let k := s.closes.length
  let state : CloseState := if ans.isPtr then .pending s.requests.length else .finished
  let s := (s.emit (.closeStarted k)).closeCall (.close k) s.obj.handle ans
  let s := { s with closes := s.closes ++ [state] }
  match ans with
  | .request r => { s with obj := s.obj.closePending r }
  | .null => { s with obj := s.obj.closeDone }.emit (.closeFinished k)
  -- `check_ucs_status` throws
  | .err _ => s.emit (.closeFinished k)

/-- `await_resume` of the `ep_close_awaitable` of coroutine `k` and the rest of
`close()`. The awaitable is destroyed, with its reference, at the end of the
full-expression, before the next statement; a thrown exception destroys it as
well. The assignment to a destroyed object changes nothing in this model. -/
def resumeClose (s : St) (k : Nat) (status : UcsStatus) (ans : StatusPtr) : St :=
  let s := (s.finished k).settle ans
  match status with
  | .err _ => s.emit (.closeFinished k)
  | .ok | .inProgress =>
    (if s.alive then { s with obj := s.obj.closeDone } else s).emit (.closeFinished k)

/-- UCX has completed request `i`, and with it the close of the handle; the
callback, if there is one, has called `ucp_request_free`. -/
def St.completeRequest (s : St) (i : Nat) (q : CloseRequest) (frees : Nat) : St :=
  { s with
    epOpen := false
    requests := s.requests.set i { q with completed := true, frees := frees } }

/-- UCX completes request `i`. `send_cb` and `close_cb` free the request; the
request of `ucp_ep_close_nb` has no callback. -/
def complete (s : St) (i : Nat) (q : CloseRequest) (status : UcsStatus) (ans : StatusPtr) : St :=
  match q.closer with
  | .errorCb => s.completeRequest i q q.frees
  | .destructor => s.completeRequest i q (q.frees + 1)
  | .close k => resumeClose (s.completeRequest i q (q.frees + 1)) k status ans

/-! ## The machine -/

/-- What happens next. Holders are named by their place in `St.holders`. The
`StatusPtr` of an action is the answer to the close call that the action makes,
if it makes one. -/
inductive Act where
  | copy (i : Nat)
  | unpack (i : Nat) (rkey : Nat)
  | moveMemory (i : Nat)
  | endpointCall (i : Nat) (c : EndpointCall)
  | flush (i : Nat)
  | memoryCall (i : Nat) (c : MemoryCall)
  | await (i : Nat)
  | drop (i : Nat) (ans : StatusPtr)
  | copyWorker
  | dropWorker
  | close (i : Nat) (ans : StatusPtr)
  | errorCb (ans : StatusPtr)
  | complete (i : Nat) (status : UcsStatus) (ans : StatusPtr)
deriving DecidableEq, Repr

/-- A member is called through the pointer at place `i`. -/
def St.through (s : St) (i : Nat) (s' : St) : Option St :=
  if s.holders[i]? = some .pointer then some s' else none

/-- A member of the memory handle at place `i` is called. -/
def St.withMemory (s : St) (i : Nat) (f : RemoteMemoryHandle → St) : Option St :=
  match s.holders[i]? with
  | some (.memory m) => some (f m)
  | _ => none

/-- What the awaitable at place `i` hands to UCX when it is awaited. That of
`flush` asks the endpoint for its handle only then. -/
def St.awaited (s : St) (i : Nat) : Option Operation :=
  match s.holders[i]? with
  | some (.operation op) => some op
  | some .flush => some s.obj.flush
  | _ => none

/-- One step, if it is possible. UCX runs `error_cb` while the endpoint is
there and its handle open, and completes each request once, from a progress
call on the worker. -/
def next (s : St) : Act → Option St
  | .copy i => if ∃ x ∈ s.holders[i]?, x.lends = true then some (s.hold .pointer) else none
  | .unpack i rkey => s.through i (s.hold (.memory (.construct s.obj rkey)))
  | .moveMemory i => s.withMemory i fun m =>
    { s with holders := s.holders.set i (.memory .movedFrom) }.hold (.memory m)
  | .endpointCall i c => s.through i (s.hold (.operation (s.obj.call c)))
  | .flush i => s.through i (s.hold .flush)
  | .memoryCall i c => s.withMemory i fun m => s.hold (.operation (m.call c))
  | .await i => (s.awaited i).map fun op => s.emit (.issued op)
  | .drop i ans =>
    if i < s.holders.length then
      some ((s.dropped i).settle ans)
    else
      none
  | .copyWorker =>
    if 0 < s.workerPtrs ∨ .pointer ∈ s.holders then
      some { s with workerPtrs := s.workerPtrs + 1 }
    else
      none
  | .dropWorker =>
    if 0 < s.workerPtrs then
      some { s with workerPtrs := s.workerPtrs - 1 }.settleWorker
    else
      none
  | .close i ans => s.through i (close s ans)
  | .errorCb ans => if s.alive = true ∧ s.epOpen = true then some (errorCb s ans) else none
  | .complete i status ans =>
    match s.requests[i]? with
    | some q =>
      if s.workerAlive = true ∧ q.completed = false then
        some (complete s i q status ans)
      else
        none
    | none => none

end Ucxpp.EndpointRun
