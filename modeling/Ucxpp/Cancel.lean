import Mathlib.Logic.Function.Basic
import Ucxpp.Awaitable
import Ucxpp.Lib.Lts

/-!
# Cancel — receives that are cancelled while they are pending

`stream_recv_awaitable` and `tag_recv_awaitable` give the user a pointer to the
awaitable object, whose `cancel` passes `request_` to `ucp_request_cancel`. UCX
may run the callback of the request inside that call, and with it the coroutine
that was waiting: it can end the awaitable, build the next one in the same
storage and start a receive, all before `cancel` goes on.

So `cancel` is two steps: the call into UCX (`Act.cancel`) and what is left of
the body after it (`Act.cancelReturn`), with the calls in progress on a stack.
The addresses of awaitable objects are slots of one class each. Nothing restricts
the order of the steps beyond what coroutines and UCX do: a coroutine whose
receive is pending does not run, and a request is completed once.
-/

namespace Ucxpp.Cancel

open Function (update)

/-- The classes that have `cancel`. -/
inductive RecvClass where
  | stream
  | tag
deriving DecidableEq, Repr

/-- An operation of the class, whose object has this `worker_`. -/
def RecvClass.Makes : RecvClass → Nat → Operation → Prop
  | .stream, _, .streamRecv .. => True
  | .tag, worker, .tagRecv w .. => w = worker
  | _, _, _ => False

instance : ∀ (c : RecvClass) (worker : Nat) (op : Operation), Decidable (c.Makes worker op)
  | .tag, _, .tagRecv .. => inferInstanceAs (Decidable (_ = _))
  | .stream, _, .streamRecv .. => inferInstanceAs (Decidable True)
  | .stream, _, .streamSend .. | .stream, _, .tagSend .. | .stream, _, .rmaPut ..
  | .stream, _, .rmaGet .. | .stream, _, .rmaAtomic .. | .stream, _, .epFlush _
  | .stream, _, .epClose _ | .stream, _, .workerFlush _ | .stream, _, .tagRecv ..
  | .tag, _, .streamSend .. | .tag, _, .tagSend .. | .tag, _, .rmaPut .. | .tag, _, .rmaGet ..
  | .tag, _, .rmaAtomic .. | .tag, _, .epFlush _ | .tag, _, .epClose _ | .tag, _, .workerFlush _
  | .tag, _, .streamRecv .. => inferInstanceAs (Decidable False)

/-- An awaitable object and its history: what its storage held before, whether a
receive of it has returned a request, the request of its pending receive, and
whether a `cancel` of that receive has returned. -/
structure Obj where
  aw : Awaitable
  worker : Nat
  storage : Storage
  requested : Bool
  pending : Option Request
  cancelled : Bool
deriving DecidableEq, Repr

/-- A `cancel` in progress; `resumed` says that the callback of the request that
it passed has run. -/
structure Frame where
  slot : Nat
  request : Request
  resumed : Bool
deriving DecidableEq, Repr

/-- `passed` is what `cancel` passes to `ucp_request_cancel`, if it calls it. -/
inductive Event where
  | cancelCalled (worker : Nat) (pending : Option Request) (cancelled : Bool)
      (passed : Option Request)
  | cancelReturned (resumed : Bool) (before after : Nat → Option Awaitable)

structure St where
  objs : Nat → Option Obj
  live : Request → Option Nat
  stack : List Frame
  log : List Event

def St.init : St where
  objs := fun _ => none
  live := fun _ => none
  stack := []
  log := []

/-- The awaitable objects, without their histories. -/
def St.awaitables (s : St) (i : Nat) : Option Awaitable :=
  (s.objs i).map Obj.aw

def St.setObj (s : St) (i : Nat) (obj : Obj) : St :=
  { s with objs := update s.objs i (some obj) }

def St.record (s : St) (e : Event) : St :=
  { s with log := s.log ++ [e] }

/-! ## The steps -/

/-- What `await_resume` does to the object. -/
def resumeFields (self : Awaitable) : Awaitable :=
  match self.op with
  | .tagRecv .. => { self with request := none }
  | _ => self

def construct (s : St) (slot worker : Nat) (op : Operation) (mem : Storage) : St :=
  s.setObj slot
    { aw := op.construct mem, worker := worker, storage := mem, requested := false
      pending := none, cancelled := false }

/-- `await_ready`, and `await_suspend` if UCX returns a request. -/
def ready (s : St) (slot : Nat) (obj : Obj) (ans : Answer) : St :=
  let aw := (awaitReady obj.aw ans).1
  match ans.ptr with
  | .request r =>
    { s.setObj slot { obj with
        aw := aw, requested := true, pending := some r, cancelled := false } with
      live := update s.live r (some slot) }
  | .null | .err _ => s.setObj slot { obj with aw := aw }

/-- `stream_recv_cb` or `tag_recv_cb`: store, free the request, resume the
coroutine, which runs `await_resume`. -/
def complete (s : St) (slot : Nat) (obj : Obj) (r : Request) (fin : Completion) : St :=
  let aw := (obj.aw.op.param slot).cb.store obj.aw fin
  { s.setObj slot { obj with aw := resumeFields aw, pending := none } with
    live := update s.live r none
    -- a `cancel` that is inside UCX learns that its callback has run
    stack := s.stack.map fun f => if f.request = r then { f with resumed := true } else f }

/-- `cancel` up to the call of `ucp_request_cancel`. -/
def cancel (s : St) (slot : Nat) (obj : Obj) : St :=
  let s := s.record (.cancelCalled obj.worker obj.pending obj.cancelled obj.aw.request)
  match obj.aw.request with
  | some r => { s with stack := ⟨slot, r, false⟩ :: s.stack }
  | none => s

/-- `request_ = nullptr` in the storage of `f`, whatever is there. -/
def clearRequest (s : St) (f : Frame) : St :=
  match s.objs f.slot with
  | some obj =>
    s.setObj f.slot { obj with
      aw := { obj.aw with request := none }
      cancelled := obj.cancelled || (!f.resumed && obj.pending = some f.request) }
  | none => s

/-- What is left of `cancel`. -/
def cancelReturn (c : RecvClass) (s : St) (f : Frame) (rest : List Frame) : St :=
  let s₁ := { s with stack := rest }
  let s₂ :=
    match c with
    | .tag => clearRequest s₁ f
    -- only the awaitable of a tag receive sets `request_` after `ucp_request_cancel`
    | .stream => s₁
  s₂.record (.cancelReturned f.resumed s.awaitables s₂.awaitables)

inductive Act where
  | construct (slot worker : Nat) (op : Operation) (mem : Storage)
  | awaitReady (slot : Nat) (ans : Answer)
  | awaitResume (slot : Nat)
  | complete (r : Request) (fin : Completion)
  | cancel (slot : Nat)
  | cancelReturn
  | destroy (slot : Nat)
deriving DecidableEq, Repr

/-- UCX returns requests that differ from the live ones. -/
def Fresh (s : St) : StatusPtr → Prop
  | .request r => s.live r = none
  | .null | .err _ => True

instance : ∀ (s : St) (p : StatusPtr), Decidable (Fresh s p)
  | s, .request r => inferInstanceAs (Decidable (s.live r = none))
  | _, .null | _, .err _ => inferInstanceAs (Decidable True)

section

-- The class of the objects that are built at each address.
variable (slotClass : Nat → RecvClass)

/-- One step, if it can happen. While a receive is pending its coroutine is
suspended, so that the object is neither awaited again nor destroyed. -/
def step (s : St) : Act → Option St
  | .construct slot worker op mem =>
    if s.objs slot = none ∧ (slotClass slot).Makes worker op then
      some (construct s slot worker op mem)
    else none
  | .awaitReady slot ans =>
    match s.objs slot with
    | some obj =>
      if obj.pending = none ∧ Fresh s ans.ptr then some (ready s slot obj ans) else none
    | none => none
  | .awaitResume slot =>
    match s.objs slot with
    | some obj =>
      if obj.pending = none then
        some (s.setObj slot { obj with aw := resumeFields obj.aw })
      else none
    | none => none
  | .complete r fin =>
    match s.live r with
    | some slot => (s.objs slot).map fun obj => complete s slot obj r fin
    | none => none
  | .cancel slot => (s.objs slot).map fun obj => cancel s slot obj
  | .cancelReturn =>
    match s.stack with
    | f :: rest => some (cancelReturn (slotClass f.slot) s f rest)
    | [] => none
  | .destroy slot =>
    match s.objs slot with
    | some obj =>
      if obj.pending = none then some { s with objs := update s.objs slot none } else none
    | none => none

/-! ## What a step can do -/

inductive Step (s : St) : Act → St → Prop where
  | construct {slot worker : Nat} {op : Operation} {mem : Storage} (h : s.objs slot = none)
      (hop : (slotClass slot).Makes worker op) :
    Step s (.construct slot worker op mem) (Cancel.construct s slot worker op mem)
  | awaitReady {slot : Nat} {ans : Answer} {obj : Obj} (h : s.objs slot = some obj)
      (hidle : obj.pending = none) (hfresh : Fresh s ans.ptr) :
    Step s (.awaitReady slot ans) (ready s slot obj ans)
  | awaitResume {slot : Nat} {obj : Obj} (h : s.objs slot = some obj) (hidle : obj.pending = none) :
    Step s (.awaitResume slot) (s.setObj slot { obj with aw := resumeFields obj.aw })
  | complete {r : Request} {fin : Completion} {slot : Nat} {obj : Obj}
      (hlive : s.live r = some slot) (h : s.objs slot = some obj) :
    Step s (.complete r fin) (Cancel.complete s slot obj r fin)
  | cancel {slot : Nat} {obj : Obj} (h : s.objs slot = some obj) :
    Step s (.cancel slot) (Cancel.cancel s slot obj)
  | cancelReturn {f : Frame} {rest : List Frame} (h : s.stack = f :: rest) :
    Step s .cancelReturn (Cancel.cancelReturn (slotClass f.slot) s f rest)
  | destroy {slot : Nat} {obj : Obj} (h : s.objs slot = some obj) (hidle : obj.pending = none) :
    Step s (.destroy slot) { s with objs := update s.objs slot none }

variable {slotClass}

theorem step_cases {s s' : St} {a : Act} (h : step slotClass s a = some s') :
    Step slotClass s a s' := by
  unfold step at h
  split at h
  · split at h
    · rename_i hif
      exact Option.some.inj h ▸ .construct hif.1 hif.2
    · cases h
  · split at h
    · split at h
      · rename_i hif
        exact Option.some.inj h ▸ .awaitReady ‹_› hif.1 hif.2
      · cases h
    · cases h
  · split at h
    · split at h
      · exact Option.some.inj h ▸ .awaitResume ‹_› ‹_›
      · cases h
    · cases h
  · split at h
    · rcases Option.map_eq_some_iff.mp h with ⟨obj, hobj, rfl⟩
      exact .complete ‹_› hobj
    · cases h
  · rcases Option.map_eq_some_iff.mp h with ⟨obj, hobj, rfl⟩
    exact .cancel hobj
  · split at h
    · exact Option.some.inj h ▸ .cancelReturn ‹_›
    · cases h
  · split at h
    · split at h
      · exact Option.some.inj h ▸ .destroy ‹_› ‹_›
      · cases h
    · cases h

end

end Ucxpp.Cancel
