import Ucxpp.Lib.Lts

/-!
# Perftest — the tag test of perftest

The client runs `concurrency` coroutines `sender`, the server as many coroutines
`receiver`; each phase, warm-up or timed, starts all of them and awaits them one
after the other. In the tag test `sender` and `receiver` are the same loop: while
`g_counter` is below the limit of the phase, `co_await` one operation, then count
it. Both sides are therefore one machine, `Side`. What joins them is that a receive
completes only with a message that has been sent.

`g_counter` is a number without bound here: where a single coroutine counts, it
never passes its limit, and no `size_t` wraps.
-/

namespace Ucxpp.Perftest

/-- `perf_context`. -/
structure PerfContext where
  concurrency : Nat
  warmupIterations : Nat
  iterations : Nat
deriving DecidableEq, Repr

/-- `total_iterations` of a coroutine. -/
def PerfContext.totalIterations (perf : PerfContext) (warmup : Bool) : Nat :=
  if warmup then perf.warmupIterations else perf.iterations

/-! ## One side -/

/-- A `sender` or `receiver`: it runs, waits for its operation, or has ended. -/
inductive Task where
  | running
  | waiting
  | done
deriving DecidableEq, Repr

/-- Where `client` or `server` is. `running`: a coroutine has control, which goes back
to the loop that starts the coroutines, or to the `co_await` of an earlier one. -/
inductive Pc where
  | spawning
  | running (i : Nat) (awaited : Option Nat)
  | awaiting (i : Nat)
  | finished
deriving DecidableEq, Repr

/-- `counter` is `g_counter`, `warmup` the phase. `posts` and `completed` count the
operations of both phases, `atLimit` and `earlier` those that were in flight when
`g_counter` reached the limit, in this phase and in the one before. -/
structure Side where
  counter : Nat
  warmup : Bool
  pc : Pc
  tasks : List Task
  posts : Nat
  completed : Nat
  atLimit : Nat
  earlier : Nat
deriving DecidableEq, Repr

/-- After the connection is made. -/
def Side.init : Side where
  counter := 0
  warmup := true
  pc := .spawning
  tasks := []
  posts := 0
  completed := 0
  atLimit := 0
  earlier := 0

/-- Control goes back to whoever started or resumed the coroutine. -/
def back : Option Nat → Pc
  | none => .spawning
  | some i => .awaiting i

/-- The operations that are not complete. -/
def Side.inFlight (s : Side) : Nat :=
  s.tasks.count .waiting

/-- `go` is what a side does by itself; the other two are the answer of UCX to the
operation that the coroutine posts, and the completion of a coroutine's operation. -/
inductive SideAct where
  | go
  | post (atOnce : Bool)
  | complete (i : Nat)
deriving DecidableEq, Repr

/-- The action completes an operation. -/
def SideAct.completes : SideAct → Bool
  | .go => false
  | .post atOnce => atOnce
  | .complete _ => true

namespace Side

variable (perf : PerfContext) (s : Side)

/-- The limit of the loop in this phase. -/
def total : Nat :=
  perf.totalIterations s.warmup

/-- `iterations++`, when an operation has completed. -/
def count : Side :=
  { s with
    counter := s.counter + 1
    completed := s.completed + 1
    atLimit := if s.counter + 1 = s.total perf then s.inFlight else s.atLimit }

/-- All coroutines of the phase have been awaited. -/
def endPhase : Side :=
  if s.warmup then
    { s with
      counter := 0
      warmup := false
      pc := .spawning
      tasks := []
      atLimit := 0
      earlier := s.earlier + s.atLimit }
  else
    { s with pc := .finished }

/-- One step of `client` or `server` and its coroutines, if it is possible. UCX
completes operations while all coroutines are suspended. -/
def step : SideAct → Option Side
  | .go =>
    match s.pc with
    | .spawning =>
      if s.tasks.length < perf.concurrency then
        some { s with
          tasks := s.tasks ++ [.running]
          pc := .running s.tasks.length none }
      else
        some { s with pc := .awaiting 0 }
    | .running i awaited =>
      if s.counter < s.total perf then none
      else some { s with tasks := s.tasks.set i .done, pc := back awaited }
    | .awaiting i =>
      match s.tasks[i]? with
      | some .done => some { s with pc := .awaiting (i + 1) }
      | some .running | some .waiting => none
      | none => some s.endPhase
    | .finished => none
  | .post atOnce =>
    match s.pc with
    | .running i awaited =>
      if s.counter < s.total perf then
        if atOnce then some (count perf { s with posts := s.posts + 1 })
        else some { s with
          posts := s.posts + 1
          tasks := s.tasks.set i .waiting
          pc := back awaited }
      else none
    | .spawning | .awaiting _ | .finished => none
  | .complete i =>
    match s.pc with
    | .awaiting j =>
      if s.tasks[i]? = some .waiting ∧ s.tasks[j]? = some .waiting then
        some (count perf { s with
          tasks := s.tasks.set i .running
          pc := .running i (some j) })
      else none
    | .spawning | .running .. | .finished => none

/-- The operations in flight at the limit, over both phases. -/
def atLimits : Nat :=
  s.earlier + s.atLimit

end Side

/-! ## Both sides -/

structure St where
  client : Side
  server : Side
deriving DecidableEq, Repr

def St.init : St :=
  ⟨.init, .init⟩

inductive Act where
  | client (a : SideAct)
  | server (a : SideAct)
deriving DecidableEq, Repr

/-- One step of a side. A receive completes with a message that the client has sent
and no other receive has got. -/
def step (perf : PerfContext) (s : St) : Act → Option St
  | .client a => (s.client.step perf a).map fun client => { s with client := client }
  | .server a =>
    if a.completes = true → s.server.completed < s.client.posts then
      (s.server.step perf a).map fun server => { s with server := server }
    else none

/-- Nothing can happen any more. -/
def Terminal (perf : PerfContext) (s : St) : Prop :=
  ∀ a, step perf s a = none

/-- The sides agree on the number of messages: as many sends as receives, no receive
is left waiting and no message is left over. -/
structure Agree (s : St) : Prop where
  posts : s.client.posts = s.server.posts
  waiting : s.server.inFlight = 0
  left : s.server.completed = s.client.posts

end Ucxpp.Perftest
