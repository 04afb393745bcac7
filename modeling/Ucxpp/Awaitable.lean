import Ucxpp.Status

/-!
# Awaitable — the awaitable classes of awaitable.h

One operation of the library is one awaitable object: its constructor stores
the arguments, `await_ready` hands the operation to UCX, `await_suspend`
stores the coroutine handle, the callback stores what UCX reports, and
`await_resume` turns `status_` into a result or an exception.

`status_` plays two roles: `UCS_INPROGRESS` between `await_ready` and the
callback, the result of the operation afterwards. `Operation.outcome` at the
end of the file says what an operation should deliver, and the lemmas around
it show that the immediate path and the callback path both deliver it.
-/

namespace Ucxpp

/-- A raw coroutine handle. -/
abbrev CoroutineHandle := Nat

/-- A non-null address. -/
abbrev Address := Nat

/-- `ucp_ep_h`; `none` is the null handle. -/
abbrev UcpEp := Option Nat

/-- `ucp_rkey_h`; `none` is the null handle. -/
abbrev UcpRkey := Option Nat

/-- `ucp_atomic_op_t`. -/
inductive AtomicOp where
  | add | and | or | xor | swap | cswap
deriving DecidableEq, Repr

/-- The two sizes that the `static_assert` of `rma_atomic_awaitable` admits. -/
inductive AtomicWidth where
  | four | eight
deriving DecidableEq, Repr

/-- `sizeof(T)`. -/
def AtomicWidth.bytes : AtomicWidth → Nat
  | .four => 4
  | .eight => 8

/-- The awaitable classes with the arguments their constructors store. The
two flush classes and the close class keep a `shared_ptr` and read the handle
when they are awaited: the handle here is that one. -/
inductive Operation where
  | streamSend (ep : UcpEp) (buffer : Address) (length : Nat)
  | tagSend (ep : UcpEp) (buffer : Address) (length : Nat) (tag : UInt64)
  | rmaPut (ep : UcpEp) (buffer : Address) (length : Nat) (remoteAddr : UInt64) (rkey : UcpRkey)
  | rmaGet (ep : UcpEp) (buffer : Address) (length : Nat) (remoteAddr : UInt64) (rkey : UcpRkey)
  | rmaAtomic (width : AtomicWidth) (ep : UcpEp) (op : AtomicOp) (buffer : Address)
      (remoteAddr : UInt64) (rkey : UcpRkey) (replyBuffer : Option Address)
  | epFlush (ep : UcpEp)
  | epClose (ep : UcpEp)
  | workerFlush (worker : Nat)
  | streamRecv (ep : UcpEp) (buffer : Address) (length : Nat)
  | tagRecv (worker : Nat) (buffer : Address) (length : Nat) (tag tagMask : UInt64)
deriving DecidableEq, Repr

/-- The `assert` in the constructor of `rma_atomic_awaitable`. -/
def Operation.Asserts : Operation → Prop
  | .rmaAtomic _ _ op _ _ _ replyBuffer => op = .swap ∨ op = .cswap → replyBuffer ≠ none
  | _ => True

instance : ∀ op : Operation, Decidable op.Asserts
  | .rmaAtomic .. => inferInstanceAs (Decidable (_ → _))
  | .streamSend .. | .tagSend .. | .rmaPut .. | .rmaGet .. | .epFlush _ | .epClose _
  | .workerFlush _ | .streamRecv .. | .tagRecv .. => inferInstanceAs (Decidable True)

/-! ## What is handed to UCX -/

/-- The callback a request is registered with. -/
inductive Callback where
  | sendCb | streamRecvCb | tagRecvCb
deriving DecidableEq, Repr

/-- `ucp_request_param_t`, one field per bit of `op_attr_mask` that the
library sets. `userData` is the awaitable object itself. -/
structure RequestParam where
  cb : Callback
  userData : Nat
  multiSend : Bool
  datatype : Option Nat
  replyBuffer : Option Address
  recvInfo : Bool
deriving DecidableEq, Repr

/-- `send_awaitable::build_param`. -/
def buildParam (self : Nat) : RequestParam where
  cb := .sendCb
  userData := self
  multiSend := true
  datatype := none
  replyBuffer := none
  recvInfo := false

/-- The parameters that the `await_ready` of each class passes. -/
def Operation.param (self : Nat) : Operation → RequestParam
  | .rmaAtomic width _ _ _ _ _ replyBuffer =>
    { buildParam self with datatype := some width.bytes, replyBuffer := replyBuffer }
  | .streamRecv .. =>
    { cb := .streamRecvCb, userData := self, multiSend := false, datatype := none,
      replyBuffer := none, recvInfo := false }
  | .tagRecv .. =>
    { cb := .tagRecvCb, userData := self, multiSend := false, datatype := none,
      replyBuffer := none, recvInfo := true }
  | .streamSend .. | .tagSend .. | .rmaPut .. | .rmaGet .. | .epFlush _ | .epClose _
  | .workerFlush _ => buildParam self

/-- What a `*_nbx` call returns. On NULL it has also written the byte count
and the sender tag through the pointers it was given. -/
structure Answer where
  ptr : StatusPtr
  length : Nat
  senderTag : UInt64
deriving DecidableEq, Repr

/-- How an operation ended: its final status, and what a receive obtained. -/
structure Completion where
  status : UcsStatus
  length : Nat
  senderTag : UInt64
deriving DecidableEq, Repr

/-- An answer other than a request ends the operation at once. -/
def Answer.final (ans : Answer) : Option Completion :=
  match ans.ptr with
  | .null => some ⟨.ok, ans.length, ans.senderTag⟩
  | .err e => some ⟨.err e, ans.length, ans.senderTag⟩
  | .request _ => none

/-! ## The awaitable object -/

/-- `base_awaitable`. -/
structure BaseAwaitable where
  h : Option CoroutineHandle
  status : UcsStatus
deriving DecidableEq, Repr

/-- `ucp_tag_recv_info_t`. -/
structure RecvInfo where
  length : Nat
  senderTag : UInt64
deriving DecidableEq, Repr

/-- An awaitable object. `request_` and `received_` exist in the receive
classes only, `recv_info_` in `tag_recv_awaitable` only. -/
structure Awaitable extends BaseAwaitable where
  op : Operation
  request : Option Request
  received : Nat
  recvInfo : RecvInfo
deriving DecidableEq, Repr

/-- What the storage held before the constructor ran: the fields that the
constructors leave uninitialised keep it. -/
structure Storage where
  request : Option Request
  recvInfo : RecvInfo
deriving DecidableEq, Repr

/-- `base_awaitable()`. -/
def baseAwaitable : BaseAwaitable := ⟨none, .ok⟩

/-- The constructors. `stream_recv_awaitable` does not initialise `request_`,
`tag_recv_awaitable` does not initialise `recv_info_`. -/
def Operation.construct (mem : Storage) (op : Operation) : Awaitable :=
  match op with
  | .streamRecv .. =>
    { baseAwaitable with op := op, request := mem.request, received := 0, recvInfo := mem.recvInfo }
  | _ =>
    { baseAwaitable with op := op, request := none, received := 0, recvInfo := mem.recvInfo }

/-- `base_awaitable::check_request_ready`. -/
def checkRequestReady (self : Awaitable) (request : StatusPtr) : Awaitable × Bool :=
  match request with
  | .request _ => ({ self with status := .inProgress }, false)
  | .err e => ({ self with status := .err e }, true)
  | .null => ({ self with status := .ok }, true)

/-- What UCX writes into the object before a call returns NULL. -/
def Awaitable.fill (self : Awaitable) (ans : Answer) : Awaitable :=
  match self.op, ans.ptr with
  | .streamRecv .., .null => { self with received := ans.length }
  | .tagRecv .., .null => { self with recvInfo := ⟨ans.length, ans.senderTag⟩ }
  | _, _ => self

/-- `request_ = request`, in the two receive classes. -/
def Awaitable.keepRequest (self : Awaitable) (request : StatusPtr) : Awaitable :=
  match self.op, request with
  | .streamRecv .., .request r | .tagRecv .., .request r => { self with request := some r }
  | _, _ => self

/-- `await_ready`, given the answer of UCX to the call it makes. -/
def awaitReady (self : Awaitable) (ans : Answer) : Awaitable × Bool :=
  match checkRequestReady (self.fill ans) ans.ptr with
  | (self, true) => (self, true)
  | (self, false) => (self.keepRequest ans.ptr, false)

/-- `await_suspend`: the coroutine stays suspended iff the result is `true`. -/
def awaitSuspend (self : Awaitable) (h : CoroutineHandle) : Awaitable × Bool :=
  ({ self with h := some h }, self.status = .inProgress)

/-- What a `co_await` evaluates to. -/
inductive Delivered where
  | done
  | received (length : Nat)
  | tagged (length : Nat) (senderTag : UInt64)
deriving DecidableEq, Repr

/-- `send_cb`, `stream_recv_cb` and `tag_recv_cb` up to `ucp_request_free`. -/
def Callback.store (cb : Callback) (self : Awaitable) (fin : Completion) : Awaitable :=
  match cb with
  | .sendCb => { self with status := fin.status }
  | .streamRecvCb => { self with status := fin.status, received := fin.length }
  | .tagRecvCb =>
    { self with status := fin.status, recvInfo := ⟨fin.length, fin.senderTag⟩ }

section

variable (statusString : UcsStatus → String)

/-- The text each class passes to `check_ucs_status`. -/
def Operation.failureMessage : Operation → String
  | .tagRecv .. => "error in ucp_tag_recv_nbx"
  | _ => "operation failed"

/-- `await_resume`. -/
def awaitResume (self : Awaitable) : Except String Delivered := do
  checkUcsStatus statusString self.status self.op.failureMessage
  match self.op with
  | .streamRecv .. => return .received self.received
  | .tagRecv .. => return .tagged self.recvInfo.length self.recvInfo.senderTag
  | _ => return .done

/-! ## What an operation should deliver -/

/-- The value of a successful operation. -/
def Operation.payload (op : Operation) (fin : Completion) : Delivered :=
  match op with
  | .streamRecv .. => .received fin.length
  | .tagRecv .. => .tagged fin.length fin.senderTag
  | _ => .done

/-- The result of an operation as a function of how it ended: its payload if
the final status is `UCS_OK`, the exception for that status otherwise. -/
def Operation.outcome (op : Operation) (fin : Completion) : Except String Delivered :=
  (checkUcsStatus statusString fin.status op.failureMessage).map fun _ => op.payload fin

/-- An operation returns normally iff its final status is `UCS_OK`. -/
theorem outcome_returns_iff (op : Operation) {fin : Completion}
    (hfinal : fin.status ≠ .inProgress) :
    (∃ v, op.outcome statusString fin = .ok v) ↔ fin.status = .ok := by
  rw [← checkUcsStatus_ok_iff statusString hfinal op.failureMessage]
  unfold Operation.outcome
  cases checkUcsStatus statusString fin.status op.failureMessage <;> simp [Except.map]

/-- What an operation returns is its own byte count and sender tag. -/
theorem outcome_value {op : Operation} {fin : Completion} {v : Delivered}
    (h : op.outcome statusString fin = .ok v) : v = op.payload fin := by
  unfold Operation.outcome at h
  cases hc : checkUcsStatus statusString fin.status op.failureMessage with
  | ok u =>
    rw [hc] at h
    exact (Except.ok.inj h).symm
  | error text =>
    rw [hc] at h
    cases h

/-! ## The two paths of an awaitable -/

@[simp] theorem construct_op (mem : Storage) (op : Operation) : (op.construct mem).op = op := by
  cases op <;> rfl

@[simp] theorem fill_op (self : Awaitable) (ans : Answer) : (self.fill ans).op = self.op := by
  unfold Awaitable.fill
  split <;> rfl

@[simp] theorem keepRequest_op (self : Awaitable) (p : StatusPtr) :
    (self.keepRequest p).op = self.op := by
  unfold Awaitable.keepRequest
  split <;> rfl

@[simp] theorem keepRequest_status (self : Awaitable) (p : StatusPtr) :
    (self.keepRequest p).status = self.status := by
  unfold Awaitable.keepRequest
  split <;> rfl

@[simp] theorem store_op (cb : Callback) (self : Awaitable) (fin : Completion) :
    (cb.store self fin).op = self.op := by
  cases cb <;> rfl

@[simp] theorem store_h (cb : Callback) (self : Awaitable) (fin : Completion) :
    (cb.store self fin).h = self.h := by
  cases cb <;> rfl

/-- The immediate path: when UCX answers at once, `await_ready` is `true` and
`await_resume` delivers the outcome of that answer. -/
theorem awaitReady_final (self : Awaitable) {ans : Answer} {fin : Completion}
    (h : ans.final = some fin) :
    (awaitReady self ans).2 = true ∧
      awaitResume statusString (awaitReady self ans).1 = self.op.outcome statusString fin := by
  rcases ans with ⟨ptr, length, senderTag⟩
  cases ptr with
  | null =>
    cases h
    cases hop : self.op <;>
      simp [awaitReady, checkRequestReady, Awaitable.fill, awaitResume, Operation.outcome,
        Operation.payload, Except.map, hop]
  | err e =>
    cases h
    rcases checkUcsStatus_err statusString e self.op.failureMessage with ⟨text, htext⟩
    simp [awaitReady, checkRequestReady, awaitResume, Operation.outcome, Except.map, htext]
    rfl
  | request r => cases h

/-- The pending path: a request leaves the object in progress, and
`await_suspend` then keeps the coroutine suspended. -/
theorem awaitReady_request (self : Awaitable) {ans : Answer} {r : Request}
    (h : ans.ptr = .request r) (c : CoroutineHandle) :
    (awaitReady self ans).2 = false ∧ (awaitSuspend (awaitReady self ans).1 c).2 = true ∧
      (awaitSuspend (awaitReady self ans).1 c).1.h = some c ∧
      (awaitSuspend (awaitReady self ans).1 c).1.op = self.op := by
  simp [awaitReady, checkRequestReady, awaitSuspend, h]

/-- The callback path delivers the outcome of what the callback was told. -/
theorem awaitResume_store (self : Awaitable) (n : Nat) (fin : Completion) :
    awaitResume statusString ((self.op.param n).cb.store self fin) =
      self.op.outcome statusString fin := by
  cases hop : self.op <;>
    simp only [Operation.param, buildParam, Callback.store, awaitResume, Operation.outcome,
      Operation.payload, hop] <;>
    cases checkUcsStatus statusString fin.status _ <;> rfl

end

end Ucxpp
