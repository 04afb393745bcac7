import Mathlib.Data.Finset.Basic
import Mathlib.Logic.Function.Basic
import Ucxpp.Lib.Lts

/-!
# Task — coroutine frames and task objects of task.h

The state of one thread that runs `task<T>` coroutines: the frames, each with
its promise object, the task objects, and the raw handles that pending
operations will resume. Every function of task.h is a function on this state.

A frame that has been destroyed stays in the heap as a `Cell.destroyed`, so
that any later access to it shows as a `Fault`. A `get()` on a future that
this thread itself would have to fulfil blocks the thread for good, and an
exception that leaves a destructor terminates it: both end the run
(`Thread`).

A coroutine body is not modelled here: the actions say what a body can do
next, in every order. `TaskProgram` runs actual bodies on this machine.
-/

namespace Ucxpp.TaskRun

open Function (update)

/-- A coroutine handle: the frame it points to. -/
abbrev FrameId := Nat

/-- A task object. -/
abbrev TaskId := Nat

/-- How a coroutine ends: `value_returner<T>::return_value`,
`value_returner<void>::return_void`, or `unhandled_exception`. -/
inductive Outcome (V E : Type) where
  | value (v : V)
  | void
  | exception (e : E)
deriving DecidableEq, Repr

/-- What a `get()` on a future gives: the outcome, or `std::future_error` when
the future was used up by an earlier `get()`. -/
inductive Got (V E : Type) where
  | outcome (o : Outcome V E)
  | futureError
deriving DecidableEq, Repr

/-- Where a coroutine is: in its body, suspended in a `co_await` of something
that is not a task, suspended in the `task_awaiter` of another coroutine,
leaving its body after `promise_` has been set, or suspended at its final
suspend point. -/
inductive Phase where
  | running
  | leaf
  | awaiting (child : FrameId)
  | returning
  | done
deriving DecidableEq, Repr

/-- A frame with its `promise_type`. `got` is what the last `co_await` of a
task evaluated to, `coAwaited` records that its own task has been awaited. -/
structure Frame (V E : Type) where
  phase : Phase
  promise : Option (Outcome V E)
  futureValid : Bool
  continuation : Option FrameId
  releaseDetached : Option FrameId
  got : Option (Got V E)
  coAwaited : Bool
deriving DecidableEq, Repr

/-- A place on the heap where a frame is or was. -/
inductive Cell (V E : Type) where
  | live (fr : Frame V E)
  | destroyed
deriving DecidableEq, Repr

/-- `task<T>`. -/
structure TaskObj where
  h : Option FrameId
  detached : Bool
deriving DecidableEq, Repr

/-- The thread runs, waits forever in a `get()`, or has been terminated by an
exception that left `~task`. -/
inductive Thread where
  | running
  | blocked
  | terminated
deriving DecidableEq, Repr

structure St (V E : Type) where
  nextFrame : FrameId
  frames : FrameId → Option (Cell V E)
  nextTask : TaskId
  tasks : TaskId → Option TaskObj
  leaves : Finset FrameId
  thread : Thread

/-- Undefined behaviour on a frame or a handle. -/
inductive Fault where
  | useAfterDestroy (f : FrameId)
  | doubleDestroy (f : FrameId)
  | wild (f : FrameId)
  | nullHandle
  | notSuspended (f : FrameId)
deriving DecidableEq, Repr

variable {V E : Type}

def St.init : St V E where
  nextFrame := 0
  frames := fun _ => none
  nextTask := 0
  tasks := fun _ => none
  leaves := ∅
  thread := .running

/-! ## Access to frames -/

/-- Any access through a handle: `done()`, `promise()`, `resume()`. -/
def St.frame (s : St V E) (f : FrameId) : Except Fault (Frame V E) :=
  match s.frames f with
  | some (.live fr) => .ok fr
  | some .destroyed => .error (.useAfterDestroy f)
  | none => .error (.wild f)

def St.setFrame (s : St V E) (f : FrameId) (fr : Frame V E) : St V E :=
  { s with frames := update s.frames f (some (.live fr)) }

/-- `coroutine_handle::destroy`. -/
def St.destroyFrame (s : St V E) (f : FrameId) : Except Fault (St V E) :=
  match s.frames f with
  | some (.live _) => .ok { s with frames := update s.frames f (some .destroyed) }
  | some .destroyed => .error (.doubleDestroy f)
  | none => .error (.wild f)

def St.setTask (s : St V E) (t : TaskId) (obj : TaskObj) : St V E :=
  { s with tasks := update s.tasks t (some obj) }

def St.eraseTask (s : St V E) (t : TaskId) : St V E :=
  { s with tasks := update s.tasks t none }

/-- The frame that a coroutine call allocates. -/
def Frame.fresh : Frame V E where
  phase := .running
  promise := none
  futureValid := true
  continuation := none
  releaseDetached := none
  got := none
  coAwaited := false

/-- `future_.get()`; `none` if it would wait. -/
def Frame.futureGet (fr : Frame V E) : Option (Got V E × Frame V E) :=
  if fr.futureValid then
    match fr.promise with
    | some o => some (.outcome o, { fr with futureValid := false })
    | none => none
  else
    some (.futureError, fr)

/-- `set_detached_task`. -/
def Frame.setDetachedTask (fr : Frame V E) (h : FrameId) : Frame V E :=
  { fr with releaseDetached := some h }

/-! ## promise_base and task_awaiter -/

/-- `task_awaiter::await_resume` in coroutine `p`, with the awaiter's handle
`c`. -/
def awaitResume (s : St V E) (p c : FrameId) : Except Fault (St V E) := do
  let fr ← s.frame c
  match fr.futureGet with
  | none => return { s with thread := .blocked }
  | some (got, fr) =>
    let s := s.setFrame c fr
    let fp ← s.frame p
    return s.setFrame p { fp with phase := .running, got := some got }

/-- `resume()` on a handle: the coroutine continues where it is suspended. -/
def resume (s : St V E) (p : FrameId) : Except Fault (St V E) := do
  let fp ← s.frame p
  match fp.phase with
  | .awaiting c => awaitResume s p c
  | .leaf => return s.setFrame p { fp with phase := .running }
  | .running | .returning | .done => .error (.notSuspended p)

/-- `await_suspend` of the final awaiter, which holds the copy of
`release_detached_` that `final_suspend` made: symmetric transfer to the
continuation if there is one, else release of a detached frame. -/
def finalAwaitSuspend (s : St V E) (suspended : FrameId) (release : Option FrameId) :
    Except Fault (St V E) := do
  let fr ← s.frame suspended
  match fr.continuation with
  | some p => resume s p
  | none =>
    match release with
    | some h => s.destroyFrame h
    | none => return s

/-- `final_suspend` and the suspension at its awaiter. -/
def finalSuspend (s : St V E) (f : FrameId) : Except Fault (St V E) := do
  let fr ← s.frame f
  let release := fr.releaseDetached
  finalAwaitSuspend (s.setFrame f { fr with phase := .done }) f release

/-- `co_await` of a task object with handle `h` in coroutine `p`: `done()`
decides between `await_resume` at once and `await_suspend`. -/
def coAwait (s : St V E) (p h : FrameId) : Except Fault (St V E) := do
  let fr ← s.frame h
  let fr := { fr with coAwaited := true }
  if fr.phase = .done then
    awaitResume (s.setFrame h fr) p h
  else
    let s := s.setFrame h { fr with continuation := some p }
    let fp ← s.frame p
    return s.setFrame p { fp with phase := .awaiting h }

/-! ## task -/

/-- A call of a coroutine function: the frame is allocated, the task object is
built by `get_return_object`, and the body starts at once
(`initial_suspend` is `suspend_never`). -/
def call (s : St V E) : St V E :=
  { s with
    nextFrame := s.nextFrame + 1
    frames := update s.frames s.nextFrame (some (.live .fresh))
    nextTask := s.nextTask + 1
    tasks := update s.tasks s.nextTask (some ⟨some s.nextFrame, false⟩) }

/-- `task(task &&)`: the new object takes `h_` and `detached_`; the old one
keeps `nullptr` and `true`. -/
def moveTask (s : St V E) (t : TaskId) (obj : TaskObj) : St V E :=
  let s := s.setTask t ⟨none, true⟩
  { s with
    nextTask := s.nextTask + 1
    tasks := update s.tasks s.nextTask (some obj) }

/-- `detach`. -/
def detach (s : St V E) (t : TaskId) (h : FrameId) : Except Fault (St V E) := do
  let fr ← s.frame h
  return (s.setFrame h (fr.setDetachedTask h)).setTask t ⟨some h, true⟩

/-- `~task` of an object that is not detached. A destructor that does not
return leaves the object in place. -/
def destroyOwned (s : St V E) (t : TaskId) (h : FrameId) : Except Fault (St V E) := do
  let fr ← s.frame h
  if fr.phase = .done then
    let s ← s.destroyFrame h
    return s.eraseTask t
  else
    let fr := fr.setDetachedTask h
    match fr.futureGet with
    | none => return { s.setFrame h fr with thread := .blocked }
    | some (.outcome (.value _), fr) | some (.outcome .void, fr) =>
      return (s.setFrame h fr).eraseTask t
    | some (.outcome (.exception _), fr) | some (.futureError, fr) =>
      return { s.setFrame h fr with thread := .terminated }

/-- `~task`. -/
def destroyTask (s : St V E) (t : TaskId) (obj : TaskObj) : Except Fault (St V E) :=
  if obj.detached then
    .ok (s.eraseTask t)
  else
    match obj.h with
    | some h => destroyOwned s t h
    | none => .error .nullHandle

/-! ## The machine -/

/-- What the thread does next. `suspend` and `resume` are a suspension in an
operation other than a task and its completion. -/
inductive Act (V E : Type) where
  | call
  | suspend (f : FrameId)
  | resume (f : FrameId)
  | coReturn (f : FrameId) (o : Outcome V E)
  | finalSuspend (f : FrameId)
  | coAwait (p : FrameId) (t : TaskId)
  | moveTask (t : TaskId)
  | detach (t : TaskId)
  | destroyTask (t : TaskId)
deriving DecidableEq, Repr

/-- A frame that has not been destroyed. -/
def St.live (s : St V E) (f : FrameId) : Option (Frame V E) :=
  match s.frames f with
  | some (.live fr) => some fr
  | _ => none

def phaseOf (s : St V E) (f : FrameId) : Option Phase :=
  (s.live f).map Frame.phase

/-- What can happen next. A body acts only while its coroutine is running, an
operation resumes the handle it was given once, a task object is used only
while it exists, and `detach` asserts `!detached_`. -/
def Enabled (s : St V E) (a : Act V E) : Prop :=
  s.thread = .running ∧
    match a with
    | .call => True
    | .suspend f => phaseOf s f = some .running
    | .resume f => f ∈ s.leaves
    | .coReturn f _ => phaseOf s f = some .running
    | .finalSuspend f => phaseOf s f = some .returning
    | .coAwait p t => phaseOf s p = some .running ∧ ∃ obj ∈ s.tasks t, obj.h ≠ none
    | .moveTask t => s.tasks t ≠ none
    | .detach t => ∃ obj ∈ s.tasks t, obj.detached = false
    | .destroyTask t => s.tasks t ≠ none

instance (s : St V E) (a : Act V E) : Decidable (Enabled s a) := by
  unfold Enabled
  cases a <;> infer_instance

/-- One step. -/
def step (s : St V E) : Act V E → Except Fault (St V E)
  | .call => .ok (call s)
  | .suspend f => do
    let fr ← s.frame f
    return { s.setFrame f { fr with phase := .leaf } with leaves := insert f s.leaves }
  | .resume f => resume { s with leaves := s.leaves.erase f } f
  | .coReturn f o => do
    let fr ← s.frame f
    return s.setFrame f { fr with phase := .returning, promise := some o }
  | .finalSuspend f => finalSuspend s f
  | .coAwait p t =>
    match s.tasks t with
    | some ⟨some h, _⟩ => coAwait s p h
    | _ => .error .nullHandle
  | .moveTask t =>
    match s.tasks t with
    | some obj => .ok (moveTask s t obj)
    | none => .error .nullHandle
  | .detach t =>
    match s.tasks t with
    | some ⟨some h, _⟩ => detach s t h
    | _ => .error .nullHandle
  | .destroyTask t =>
    match s.tasks t with
    | some obj => destroyTask s t obj
    | none => .error .nullHandle

/-- The machine: enabled actions that do not fault. -/
def next : St V E → Act V E → Option (St V E) :=
  Lts.guarded Enabled step

/-- How a caller must use task objects: each task is awaited at most once, and
not after it has been detached; a moved-from or detached object is afterwards
only destroyed. -/
def Contract (s : St V E) : Act V E → Prop
  | .coAwait _ t => ∃ obj ∈ s.tasks t, obj.detached = false ∧
      ∃ h ∈ obj.h, ∃ fr ∈ s.live h, fr.coAwaited = false
  | .moveTask t => ∃ obj ∈ s.tasks t, obj.detached = false
  | _ => True

instance (s : St V E) (a : Act V E) : Decidable (Contract s a) := by
  unfold Contract
  cases a <;> infer_instance

end Ucxpp.TaskRun
