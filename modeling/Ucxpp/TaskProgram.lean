import Ucxpp.TaskLifetime

/-!
# TaskProgram — coroutine bodies on the frame machine, and in direct style

`Prog` is the body of a `task<T>` coroutine without shared state: it awaits
operations, calls other coroutines, awaits their tasks and returns or throws.
It has two meanings. `direct` runs it in direct style, every call to its end
before the caller goes on. `next` runs it on the frame machine of task.h, where
operations may suspend and be resumed in every order.

The result of an operation is given for the place where it is executed: the
path of calls that leads to its coroutine, and its position there.

On the machine any coroutine that is in its body may take the next step. The
call stack of the thread only rules out some of these orders.
-/

namespace Ucxpp.TaskProgram

open Function (update)
open TaskRun (FrameId TaskId Outcome Got Phase Frame St Act phaseOf)

/-- A coroutine body. `call` starts a coroutine and keeps its task object as
the next local variable, `await i` is the `co_await` of local variable `i`; a
continuation gets the value, or the exception that the body may catch. -/
inductive Prog (Op V E : Type) where
  | ret (o : Outcome V E)
  | leaf (op : Op) (k : Outcome V E → Prog Op V E)
  | call (child k : Prog Op V E)
  | await (i : Nat) (k : Outcome V E → Prog Op V E)

variable {Op V E : Type}

/-- The results of the operations, by path, position and operation. -/
abbrev Results (Op V E : Type) := List Nat → Nat → Op → Outcome V E

/-! ## Direct style -/

/-- The outcome of a body in direct style. The environment holds the outcome of
every task that has not been awaited yet. There is none if a task is awaited
twice or not at all. -/
def direct (res : Results Op V E) :
    Prog Op V E → List Nat → Nat → List (Option (Outcome V E)) → Option (Outcome V E)
  | .ret o, _, _, env => if ∀ x ∈ env, x = none then some o else none
  | .leaf op k, path, pos, env => direct res (k (res path pos op)) path (pos + 1) env
  | .call child k, path, pos, env =>
    (direct res child (pos :: path) 0 []).bind fun o =>
      direct res k path (pos + 1) (env ++ [some o])
  | .await i k, path, pos, env =>
    match env[i]? with
    | some (some o) => direct res (k o) path pos (env.set i none)
    | _ => none

/-! ## The frame machine with bodies -/

/-- A local variable that holds the task object of a called coroutine. -/
structure Local where
  task : TaskId
  child : FrameId
  awaited : Bool
  alive : Bool
deriving DecidableEq, Repr

/-- What a coroutine has left to do. `start`, `path` and `caller` say which
call it is and do not change. -/
structure Body (Op V E : Type) where
  start : Prog Op V E
  path : List Nat
  caller : Option (FrameId × Nat)
  prog : Prog Op V E
  pos : Nat
  locals : List Local

/-- A coroutine as it is called. -/
def Body.enter (start : Prog Op V E) (path : List Nat) (caller : Option (FrameId × Nat)) :
    Body Op V E where
  start := start
  path := path
  caller := caller
  prog := start
  pos := 0
  locals := []

/-- What happened so far: a body ended, a coroutine reached its final suspend
point, a `co_await` of a task returned or threw. -/
inductive Event (V E : Type) where
  | returned (f : FrameId) (o : Outcome V E)
  | finished (f : FrameId)
  | resumed (p child : FrameId) (o : Outcome V E)
deriving DecidableEq, Repr

structure Cfg (Op V E : Type) where
  st : St V E
  body : FrameId → Option (Body Op V E)
  log : List (Event V E)

/-- The root coroutine, called from outside. -/
def Cfg.init (prog : Prog Op V E) : Cfg Op V E where
  st := TaskRun.call St.init
  body := update (fun _ => none) 0 (some (Body.enter prog [] none))
  log := []

def Cfg.setBody (c : Cfg Op V E) (f : FrameId) (b : Body Op V E) : Cfg Op V E :=
  { c with body := update c.body f (some b) }

/-- The body goes on behind the `co_await` of local variable `i`. -/
def Body.afterAwait (b : Body Op V E) (i : Nat) (l : Local) (prog : Prog Op V E) : Body Op V E :=
  { b with prog := prog, locals := b.locals.set i { l with awaited := true } }

/-- Local variable `i` has been destroyed. -/
def Body.afterDrop (b : Body Op V E) (i : Nat) (l : Local) : Body Op V E :=
  { b with locals := b.locals.set i { l with alive := false } }

/-- Coroutine `p` goes on behind its `co_await`, with what `await_resume` gave.
A `std::future_error` is not a result that a body is prepared for. -/
def deliver (c : Cfg Op V E) (p : FrameId) : Option (Cfg Op V E) :=
  match c.body p, c.st.live p with
  | some b, some fp =>
    match b.prog, fp.got with
    | .await i k, some (.outcome o) =>
      match b.locals[i]? with
      | some l =>
        some { c.setBody p (b.afterAwait i l (k o)) with log := c.log ++ [.resumed p l.child o] }
      | none => none
    | _, _ => none
  | _, _ => none

/-- What can happen next. A running coroutine does its next step (`ready` says
whether an operation completes at once); an operation resumes its coroutine; a
coroutine destroys a task object whose `co_await` has ended; a coroutine whose
local variables are gone goes to its final suspend point. -/
inductive Move where
  | step (p : FrameId) (ready : Bool)
  | resume (f : FrameId)
  | drop (p : FrameId) (i : Nat)
  | leave (p : FrameId)
deriving DecidableEq, Repr

variable (res : Results Op V E)

/-- The coroutine goes on behind an operation. -/
def Body.afterLeaf (b : Body Op V E) (op : Op) (k : Outcome V E → Prog Op V E) : Body Op V E :=
  { b with prog := k (res b.path b.pos op), pos := b.pos + 1 }

/-- The caller goes on behind a call. -/
def Body.afterCall (b : Body Op V E) (k : Prog Op V E) (t : TaskId) (child : FrameId) :
    Body Op V E :=
  { b with prog := k, pos := b.pos + 1, locals := b.locals ++ [⟨t, child, false, true⟩] }

/-- The bodies behind a call of coroutine `p`. -/
def Cfg.bodyAfterCall (c : Cfg Op V E) (p : FrameId) (b : Body Op V E) (child k : Prog Op V E) :
    FrameId → Option (Body Op V E) :=
  let caller := b.afterCall k c.st.nextTask c.st.nextFrame
  let callee := Body.enter child (b.pos :: b.path) (some (p, b.locals.length))
  update (update c.body p (some caller)) c.st.nextFrame (some callee)

/-- The next step of a running coroutine. -/
def stepBody (c : Cfg Op V E) (p : FrameId) (ready : Bool) (b : Body Op V E) :
    Option (Cfg Op V E) :=
  match b.prog with
  | .ret o =>
    (TaskRun.next c.st (.coReturn p o)).map fun st =>
      { c with st := st, log := c.log ++ [.returned p o] }
  | .leaf op k =>
    if ready then
      some (c.setBody p (b.afterLeaf res op k))
    else
      (TaskRun.next c.st (.suspend p)).map fun st => { c with st := st }
  | .call child k =>
    (TaskRun.next c.st .call).map fun st =>
      { c with st := st, body := c.bodyAfterCall p b child k }
  | .await i _ =>
    match b.locals[i]? with
    | some l =>
      if l.awaited then
        none
      else
        (TaskRun.next c.st (.coAwait p l.task)).bind fun st =>
          let c := { c with st := st }
          if phaseOf st p = some .running then deliver c p else some c
    | none => none

/-- An operation completes. -/
def resumeBody (c : Cfg Op V E) (f : FrameId) (b : Body Op V E) : Option (Cfg Op V E) :=
  match b.prog with
  | .leaf op k =>
    (TaskRun.next c.st (.resume f)).map fun st =>
      { c with st := st }.setBody f (b.afterLeaf res op k)
  | _ => none

/-- The destructor of a local variable. -/
def dropLocal (c : Cfg Op V E) (p : FrameId) (i : Nat) (b : Body Op V E) : Option (Cfg Op V E) :=
  match b.locals[i]? with
  | some l =>
    if l.awaited ∧ l.alive then
      (TaskRun.next c.st (.destroyTask l.task)).map fun st =>
        { c with st := st }.setBody p (b.afterDrop i l)
    else
      none
  | none => none

/-- The final suspend point; a waiting parent goes on at once. -/
def leaveBody (c : Cfg Op V E) (p : FrameId) (b : Body Op V E) : Option (Cfg Op V E) :=
  if ∀ l ∈ b.locals, l.alive = false then
    (TaskRun.next c.st (.finalSuspend p)).bind fun st =>
      let continuation := (c.st.live p).bind Frame.continuation
      let c := { c with st := st, log := c.log ++ [.finished p] }
      match continuation with
      | some q => deliver c q
      | none => some c
  else
    none

def next (c : Cfg Op V E) : Move → Option (Cfg Op V E)
  | .step p ready =>
    match c.body p, phaseOf c.st p with
    | some b, some .running => stepBody res c p ready b
    | _, _ => none
  | .resume f =>
    match c.body f with
    | some b => resumeBody res c f b
    | none => none
  | .drop p i =>
    match c.body p, phaseOf c.st p with
    | some b, some .running | some b, some .returning => dropLocal c p i b
    | _, _ => none
  | .leave p =>
    match c.body p with
    | some b => leaveBody c p b
    | none => none

end Ucxpp.TaskProgram
