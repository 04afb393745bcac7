import Mathlib.Logic.Function.Basic
import Ucxpp.Awaitable
import Ucxpp.Lib.Lts

/-!
# AwaitRun — any number of coroutines awaiting any number of operations

The machine behind every `co_await` of an awaitable. The thread either lets a
coroutine evaluate a `co_await` (`Act.coAwait`, with the answer UCX gives to
the call), or UCX completes a pending request and runs its callback
(`Act.complete`), which resumes a coroutine. A resumed coroutine goes on with
further `coAwait` actions: nothing in the callbacks runs after `h_.resume()`.

Operations are numbered in the order in which they are issued; the number
also stands for the address of the awaitable object in the coroutine frame.
`OpRecord` is the history of one operation. What C++ leaves undefined is a
`Fault`: a callback on an object that is gone, a resume of a coroutine that is
not suspended, a `ucp_request_free` of something that is not a live request.
-/

namespace Ucxpp.AwaitRun

open Function (update)

/-- A request that UCX has handed out and that has not been freed. -/
structure LiveRequest where
  op : Nat
  param : RequestParam
  completed : Bool
deriving DecidableEq, Repr

/-- The history of one operation: what UCX answered, how it ended, what its
`co_await` delivered each time it continued, and how often its request was
freed. -/
structure OpRecord where
  caller : CoroutineHandle
  op : Operation
  answer : StatusPtr
  final : Option Completion
  delivered : List (Except String Delivered)
  frees : Nat

/-- The state of the thread and of UCX. -/
structure St where
  issued : Nat
  record : Nat → Option OpRecord
  object : Nat → Option Awaitable
  waiting : CoroutineHandle → Option Nat
  live : Request → Option LiveRequest
  freed : List StatusPtr

def St.init : St where
  issued := 0
  record := fun _ => none
  object := fun _ => none
  waiting := fun _ => none
  live := fun _ => none
  freed := []

/-- What the thread does next. -/
inductive Act where
  | coAwait (c : CoroutineHandle) (op : Operation) (mem : Storage) (ans : Answer)
  | complete (r : Request) (fin : Completion)
deriving DecidableEq, Repr

/-- Undefined behaviour. -/
inductive Fault where
  | dangling (n : Nat)
  | nullHandle
  | notSuspended (c : CoroutineHandle)
  | badFree (p : StatusPtr)
deriving DecidableEq, Repr

/-- The answer names no request that is still live. -/
def Fresh (s : St) : StatusPtr → Prop
  | .request r => s.live r = none
  | _ => True

instance : ∀ (s : St) (p : StatusPtr), Decidable (Fresh s p)
  | s, .request r => inferInstanceAs (Decidable (s.live r = none))
  | _, .null | _, .err _ => inferInstanceAs (Decidable True)

/-- A request whose callback has not run yet. -/
def Pending (s : St) (r : Request) : Prop :=
  ∃ q ∈ s.live r, q.completed = false

instance (s : St) (r : Request) : Decidable (Pending s r) :=
  inferInstanceAs (Decidable (∃ q ∈ s.live r, q.completed = false))

/-- The actions that can happen. A suspended coroutine does not run; UCX
returns requests that differ from the live ones and completes a request once,
with a final status. -/
def Enabled (s : St) : Act → Prop
  | .coAwait c op _ ans => s.waiting c = none ∧ op.Asserts ∧ Fresh s ans.ptr
  | .complete r fin => Pending s r ∧ fin.status ≠ .inProgress

instance : ∀ (s : St) (a : Act), Decidable (Enabled s a)
  | _, .coAwait .. => inferInstanceAs (Decidable (_ ∧ _))
  | _, .complete .. => inferInstanceAs (Decidable (_ ∧ _))

/-! ## The steps -/

/-- UCX registers the request it returns, with the parameters of the call. -/
def St.register (s : St) (n : Nat) (param : RequestParam) : StatusPtr → St
  | .request r => { s with live := update s.live r (some ⟨n, param, false⟩) }
  | _ => s

/-- The `co_await` of operation `n` continues its coroutine with `d`. -/
def St.deliver (s : St) (n : Nat) (d : Except String Delivered) : St :=
  { s with
    record := update s.record n
      ((s.record n).map fun rec => { rec with delivered := rec.delivered ++ [d] }) }

/-- `ucp_request_free`. -/
def requestFree (s : St) (p : StatusPtr) : Except Fault St :=
  match p with
  | .request r =>
    match s.live r with
    | some q =>
      .ok { s with
        live := update s.live r none
        freed := s.freed ++ [p]
        record := update s.record q.op
          ((s.record q.op).map fun rec => { rec with frees := rec.frees + 1 }) }
    | none => .error (.badFree p)
  | .null | .err _ => .error (.badFree p)

section

variable (statusString : UcsStatus → String)

/-- `h_.resume()`: the coroutine continues in the `co_await` it is suspended
in, runs `await_resume` and destroys the awaitable object. -/
def resume (s : St) (h : Option CoroutineHandle) : Except Fault St :=
  match h with
  | none => .error .nullHandle
  | some c =>
    match s.waiting c with
    | none => .error (.notSuspended c)
    | some n =>
      match s.object n with
      | none => .error (.dangling n)
      | some self =>
        let s := s.deliver n (awaitResume statusString self)
        .ok { s with
          object := update s.object n none
          waiting := update s.waiting c none }

/-- One `co_await`: construct the object, `await_ready`, and either continue
at once or `await_suspend`. -/
def coAwait (s : St) (c : CoroutineHandle) (op : Operation) (mem : Storage) (ans : Answer) : St :=
  let n := s.issued
  let s := { s with
    issued := n + 1
    record := update s.record n (some ⟨c, op, ans.ptr, ans.final, [], 0⟩) }
  let s := s.register n (op.param n) ans.ptr
  match awaitReady (op.construct mem) ans with
  | (self, true) => s.deliver n (awaitResume statusString self)
  | (self, false) =>
    match awaitSuspend self c with
    | (self, true) =>
      { s with
        object := update s.object n (some self)
        waiting := update s.waiting c (some n) }
    | (self, false) => s.deliver n (awaitResume statusString self)

/-- UCX completes a request: it runs the callback that the request was
registered with on the object it was registered with. -/
def complete (s : St) (r : Request) (q : LiveRequest) (fin : Completion) : Except Fault St :=
  let s : St := { s with
    live := update s.live r (some { q with completed := true })
    record := update s.record q.op
      ((s.record q.op).map fun rec => { rec with final := some fin }) }
  match s.object q.param.userData with
  | none => .error (.dangling q.param.userData)
  | some self =>
    let self := q.param.cb.store self fin
    let s := { s with object := update s.object q.param.userData (some self) }
    (requestFree s (.request r)).bind fun s => resume statusString s self.h

/-- One step. The last case is never enabled. -/
def step (s : St) : Act → Except Fault St
  | .coAwait c op mem ans => .ok (coAwait statusString s c op mem ans)
  | .complete r fin =>
    match s.live r with
    | some q => complete statusString s r q fin
    | none => .error (.badFree (.request r))

/-- The machine: enabled actions that do not fault. -/
def next : St → Act → Option St :=
  Lts.guarded Enabled (step statusString)

end

end Ucxpp.AwaitRun
