import Ucxpp.Awaitable

/-!
# Endpoint — the classes endpoint and remote_memory_handle

The native handle of an endpoint lives in several places: in `endpoint::ep_`,
in the copy that every `remote_memory_handle` takes when it is built, and in
every awaitable made from either of them. This file has the members of both
classes that read or write one of these places. What a member hands to UCX is
an `Operation`; `error_cb`, `close` and `~endpoint` are given here as what they
do to the fields, and who runs them when is in `EndpointRun`.
-/

namespace Ucxpp

/-! ## endpoint -/

/-- `endpoint::ep_` and `endpoint::close_request_`, the two fields by which
`error_cb`, `close` and `~endpoint` tell each other what has been closed. -/
structure Endpoint where
  ep : UcpEp
  closeRequest : Option Request
deriving DecidableEq, Repr

namespace Endpoint

/-- The constructor in memory that held `mem`, when `ucp_ep_create` succeeds:
it writes `ep_`, and nothing writes `close_request_`. -/
def construct (mem : Endpoint) (epH : Nat) : Endpoint :=
  { mem with ep := some epH }

/-- `error_cb` calls `ucp_ep_close_nb` on the handle it was given. -/
def errorCbCloses (self : Endpoint) : Bool :=
  self.closeRequest.isNone

/-- The fields after `error_cb`, where `request` is the answer to its close
call if it makes one. -/
def errorCb (self : Endpoint) (request : StatusPtr) : Endpoint :=
  if self.errorCbCloses then
    match request with
    | .err _ => { self with closeRequest := none, ep := none }
    | .request r => { self with closeRequest := some r }
    | .null => { self with closeRequest := none, ep := none }
  else
    self

theorem errorCb_of_not_closes {self : Endpoint} (h : self.errorCbCloses = false)
    (request : StatusPtr) : self.errorCb request = self := by
  simp [errorCb, h]

/-- An answer other than a request clears both fields. -/
theorem errorCb_done {self : Endpoint} (h : self.errorCbCloses = true) {request : StatusPtr}
    (hptr : request.isPtr = false) : self.errorCb request = ⟨none, none⟩ := by
  cases request with
  | null | err => exact if_pos h
  | request => cases hptr

theorem errorCb_request {self : Endpoint} (h : self.errorCbCloses = true) (r : Request) :
    self.errorCb (.request r) = ⟨self.ep, some r⟩ :=
  if_pos h

/-- `~endpoint` calls `ucp_ep_close_nbx`. -/
def destructorCloses (self : Endpoint) : Bool :=
  self.ep.isSome && self.closeRequest.isNone

/-- `ep_close_awaitable::await_ready`, when `close` has to wait. -/
def closePending (self : Endpoint) (r : Request) : Endpoint :=
  { self with closeRequest := some r }

/-- The last statement of `close`. -/
def closeDone (self : Endpoint) : Endpoint :=
  { self with ep := none }

def handle (self : Endpoint) : UcpEp :=
  self.ep

def streamSend (self : Endpoint) (buffer : Address) (length : Nat) : Operation :=
  .streamSend self.ep buffer length

def streamRecv (self : Endpoint) (buffer : Address) (length : Nat) : Operation :=
  .streamRecv self.ep buffer length

def tagSend (self : Endpoint) (buffer : Address) (length : Nat) (tag : UInt64) : Operation :=
  .tagSend self.ep buffer length tag

/-- `ep_flush_awaitable::await_ready` reads the handle when it is awaited. -/
def flush (self : Endpoint) : Operation :=
  .epFlush self.handle

end Endpoint

/-- A call of a member that takes the handle at the call. -/
inductive EndpointCall where
  | streamSend (buffer : Address) (length : Nat)
  | streamRecv (buffer : Address) (length : Nat)
  | tagSend (buffer : Address) (length : Nat) (tag : UInt64)
deriving DecidableEq, Repr

def Endpoint.call (self : Endpoint) : EndpointCall → Operation
  | .streamSend buffer length => self.streamSend buffer length
  | .streamRecv buffer length => self.streamRecv buffer length
  | .tagSend buffer length tag => self.tagSend buffer length tag

/-! ## remote_memory_handle -/

/-- `remote_memory_handle`. `endpoint` says whether `endpoint_` still points to
the endpoint. -/
structure RemoteMemoryHandle where
  endpoint : Bool
  ep : UcpEp
  rkey : UcpRkey
deriving DecidableEq, Repr

namespace RemoteMemoryHandle

/-- The constructor, when `ucp_ep_rkey_unpack` succeeds. -/
def construct (endpoint : Endpoint) (rkey : Nat) : RemoteMemoryHandle :=
  ⟨true, endpoint.handle, some rkey⟩

/-- What the move constructor leaves of `other`; the new object takes the rest
of it. -/
def movedFrom : RemoteMemoryHandle :=
  ⟨false, none, none⟩

variable (self : RemoteMemoryHandle) (width : AtomicWidth)

def put (buffer : Address) (length : Nat) (raddr : UInt64) : Operation :=
  .rmaPut self.ep buffer length raddr self.rkey

def get (buffer : Address) (length : Nat) (raddr : UInt64) : Operation :=
  .rmaGet self.ep buffer length raddr self.rkey

def write (buffer : Address) (length : Nat) (raddr : UInt64) : Operation :=
  .rmaPut self.ep buffer length raddr self.rkey

def read (buffer : Address) (length : Nat) (raddr : UInt64) : Operation :=
  .rmaGet self.ep buffer length raddr self.rkey

/-- What all the atomics build. -/
def atomic (op : AtomicOp) (raddr : UInt64) (operand : Address) (reply : Option Address) :
    Operation :=
  .rmaAtomic width self.ep op operand raddr self.rkey reply

def atomicFetchAdd (raddr : UInt64) (delta oldValue : Address) : Operation :=
  self.atomic width .add raddr delta (some oldValue)

def atomicFetchAnd (raddr : UInt64) (bits oldValue : Address) : Operation :=
  self.atomic width .and raddr bits (some oldValue)

def atomicFetchOr (raddr : UInt64) (bits oldValue : Address) : Operation :=
  self.atomic width .or raddr bits (some oldValue)

def atomicFetchXor (raddr : UInt64) (bits oldValue : Address) : Operation :=
  self.atomic width .xor raddr bits (some oldValue)

def atomicAdd (raddr : UInt64) (delta : Address) : Operation :=
  self.atomic width .add raddr delta none

def atomicAnd (raddr : UInt64) (bits : Address) : Operation :=
  self.atomic width .and raddr bits none

def atomicOr (raddr : UInt64) (bits : Address) : Operation :=
  self.atomic width .or raddr bits none

def atomicXor (raddr : UInt64) (bits : Address) : Operation :=
  self.atomic width .xor raddr bits none

def atomicSwap (raddr : UInt64) (newValue oldValue : Address) : Operation :=
  self.atomic width .swap raddr newValue (some oldValue)

def atomicCompareSwap (raddr : UInt64) (expected desiredAndOld : Address) : Operation :=
  self.atomic width .cswap raddr expected (some desiredAndOld)

end RemoteMemoryHandle

/-- A call of a member of `remote_memory_handle` that makes an awaitable. -/
inductive MemoryCall where
  | put (buffer : Address) (length : Nat) (raddr : UInt64)
  | get (buffer : Address) (length : Nat) (raddr : UInt64)
  | write (buffer : Address) (length : Nat) (raddr : UInt64)
  | read (buffer : Address) (length : Nat) (raddr : UInt64)
  | atomicFetchAdd (width : AtomicWidth) (raddr : UInt64) (delta oldValue : Address)
  | atomicFetchAnd (width : AtomicWidth) (raddr : UInt64) (bits oldValue : Address)
  | atomicFetchOr (width : AtomicWidth) (raddr : UInt64) (bits oldValue : Address)
  | atomicFetchXor (width : AtomicWidth) (raddr : UInt64) (bits oldValue : Address)
  | atomicAdd (width : AtomicWidth) (raddr : UInt64) (delta : Address)
  | atomicAnd (width : AtomicWidth) (raddr : UInt64) (bits : Address)
  | atomicOr (width : AtomicWidth) (raddr : UInt64) (bits : Address)
  | atomicXor (width : AtomicWidth) (raddr : UInt64) (bits : Address)
  | atomicSwap (width : AtomicWidth) (raddr : UInt64) (newValue oldValue : Address)
  | atomicCompareSwap (width : AtomicWidth) (raddr : UInt64) (expected desiredAndOld : Address)
deriving DecidableEq, Repr

def RemoteMemoryHandle.call (self : RemoteMemoryHandle) : MemoryCall → Operation
  | .put buffer length raddr => self.put buffer length raddr
  | .get buffer length raddr => self.get buffer length raddr
  | .write buffer length raddr => self.write buffer length raddr
  | .read buffer length raddr => self.read buffer length raddr
  | .atomicFetchAdd width raddr delta oldValue => self.atomicFetchAdd width raddr delta oldValue
  | .atomicFetchAnd width raddr bits oldValue => self.atomicFetchAnd width raddr bits oldValue
  | .atomicFetchOr width raddr bits oldValue => self.atomicFetchOr width raddr bits oldValue
  | .atomicFetchXor width raddr bits oldValue => self.atomicFetchXor width raddr bits oldValue
  | .atomicAdd width raddr delta => self.atomicAdd width raddr delta
  | .atomicAnd width raddr bits => self.atomicAnd width raddr bits
  | .atomicOr width raddr bits => self.atomicOr width raddr bits
  | .atomicXor width raddr bits => self.atomicXor width raddr bits
  | .atomicSwap width raddr newValue oldValue => self.atomicSwap width raddr newValue oldValue
  | .atomicCompareSwap width raddr expected desired =>
    self.atomicCompareSwap width raddr expected desired

/-! ## The handle that reaches UCX -/

/-- The endpoint handle that an operation hands to UCX; `none` where it hands
over a worker instead. -/
def Operation.ep? : Operation → Option UcpEp
  | .streamSend ep .. | .tagSend ep .. | .rmaPut ep .. | .rmaGet ep .. | .rmaAtomic _ ep ..
  | .epFlush ep | .epClose ep | .streamRecv ep .. => some ep
  | .workerFlush _ | .tagRecv .. => none

@[simp] theorem Endpoint.call_ep? (self : Endpoint) (c : EndpointCall) :
    (self.call c).ep? = some self.ep := by
  cases c <;> rfl

@[simp] theorem RemoteMemoryHandle.call_ep? (self : RemoteMemoryHandle) (c : MemoryCall) :
    (self.call c).ep? = some self.ep := by
  cases c <;> rfl

/-- The awaitables of `remote_memory_handle` pass the assertion in the
constructor of `rma_atomic_awaitable`. -/
theorem RemoteMemoryHandle.call_asserts (self : RemoteMemoryHandle) (c : MemoryCall) :
    (self.call c).Asserts := by
  cases c with
  | put | get | write | read => trivial
  | atomicAdd | atomicAnd | atomicOr | atomicXor => rintro (h | h) <;> cases h
  | atomicFetchAdd | atomicFetchAnd | atomicFetchOr | atomicFetchXor | atomicSwap
  | atomicCompareSwap => exact fun _ => Option.some_ne_none _

end Ucxpp
