import Ucxpp.PerftestRun

/-!
# PerftestStream — the stream test of perftest

The senders are those of the tag test: `g_counter` of the client counts messages. A
`receiver` has a loop of its own. It asks `stream_recv` for `message_size` bytes, and
the receive completes with as many as there are, one at least: no flag asks UCX to
wait for all of them. `g_counter` of the server counts these bytes, up to the bytes of
the phase. The stream has no message boundaries, so the last receive of the warm-up may
take bytes of the timed phase with it.

`total_bytes` is a product of `size_t` and may wrap. `g_counter` is a number without bound
here: where `StreamContext.Fits`, it stays below `2 ^ 64` in every run.
-/

namespace Ucxpp.PerftestStream

open Perftest (Side SideAct PerfContext Pc Task back)

/-- `perf_context`. -/
structure StreamContext extends PerfContext where
  messageSize : Nat
deriving DecidableEq, Repr

/-- `total_bytes` of a coroutine. -/
def StreamContext.totalBytes (perf : StreamContext) (warmup : Bool) : Nat :=
  perf.messageSize * perf.totalIterations warmup % UInt64.size

example : StreamContext.totalBytes ⟨⟨1, 0, 2305843009213693952⟩, 8⟩ false = 0 := by decide

/-- A `size_t` holds the limit of a phase and one more operation of each coroutine, in
messages and in bytes. -/
structure StreamContext.Fits (perf : StreamContext) : Prop where
  messages : ∀ warmup, perf.totalIterations warmup + perf.concurrency < UInt64.size
  bytes : ∀ warmup,
    perf.messageSize * (perf.totalIterations warmup + perf.concurrency) < UInt64.size

/-! ## The server -/

/-- `server` and its coroutines. `counter` is `g_counter`, and `earlier` what it was at
the end of the warm-up. -/
structure Receiver where
  counter : Nat
  warmup : Bool
  pc : Pc
  tasks : List Task
  earlier : Nat
deriving DecidableEq, Repr

/-- After the connection is made. -/
def Receiver.init : Receiver where
  counter := 0
  warmup := true
  pc := .spawning
  tasks := []
  earlier := 0

/-- `go` is what the server does by itself; the other two are the answer of UCX to the
receive that a coroutine posts, with bytes or without, and the completion of a
coroutine's receive with `n` bytes. -/
inductive ReceiverAct where
  | go
  | post (answer : Option Nat)
  | complete (i n : Nat)
deriving DecidableEq, Repr

/-- The bytes that the action takes from the stream. -/
def ReceiverAct.bytes : ReceiverAct → Nat
  | .go | .post none => 0
  | .post (some n) | .complete _ n => n

namespace Receiver

/-- The receives that are not complete. -/
def inFlight (s : Receiver) : Nat :=
  s.tasks.count .waiting

/-- The bytes that the server has taken from the stream. -/
def received (s : Receiver) : Nat :=
  s.earlier + s.counter

variable (perf : StreamContext) (s : Receiver)

/-- The limit of the loop in this phase. -/
def total : Nat :=
  perf.totalBytes s.warmup

/-- `iterations += n`. -/
def count (n : Nat) : Receiver :=
  { s with counter := s.counter + n }

/-- All coroutines of the phase have been awaited. -/
def endPhase : Receiver :=
  if s.warmup then
    { s with counter := 0, warmup := false, pc := .spawning, tasks := [], earlier := s.counter }
  else
    { s with pc := .finished }

/-- One step of `server` and its coroutines, if it is possible. -/
def step : ReceiverAct → Option Receiver
  | .go =>
    match s.pc with
    | .spawning =>
      if s.tasks.length < perf.concurrency then
        some { s with
          tasks := s.tasks ++ [.running]
          pc := .running s.tasks.length none }
      else
        some { s with pc := .awaiting 0 }
    | .running i awaited =>
      if s.counter < s.total perf then none
      else some { s with tasks := s.tasks.set i .done, pc := back awaited }
    | .awaiting i =>
      match s.tasks[i]? with
      | some .done => some { s with pc := .awaiting (i + 1) }
      | some .running | some .waiting => none
      | none => some s.endPhase
    | .finished => none
  | .post answer =>
    match s.pc with
    | .running i awaited =>
      if s.counter < s.total perf then
        match answer with
        | some n => if 1 ≤ n ∧ n ≤ perf.messageSize then some (s.count n) else none
        | none => some { s with tasks := s.tasks.set i .waiting, pc := back awaited }
      else none
    | .spawning | .awaiting _ | .finished => none
  | .complete i n =>
    match s.pc with
    | .awaiting j =>
      if s.tasks[i]? = some .waiting ∧ s.tasks[j]? = some .waiting ∧
          1 ≤ n ∧ n ≤ perf.messageSize then
        some (count { s with
          tasks := s.tasks.set i .running
          pc := .running i (some j) } n)
      else none
    | .spawning | .running .. | .finished => none

end Receiver

/-! ## Both sides -/

structure St where
  client : Side
  server : Receiver
deriving DecidableEq, Repr

def St.init : St :=
  ⟨.init, .init⟩

inductive Act where
  | client (a : SideAct)
  | server (a : ReceiverAct)
deriving DecidableEq, Repr

/-- The bytes that the client has written to the stream. -/
def St.sent (perf : StreamContext) (s : St) : Nat :=
  perf.messageSize * s.client.posts

/-- One step of a side. The server takes bytes that the client has sent, each once. -/
def step (perf : StreamContext) (s : St) : Act → Option St
  | .client a =>
    (s.client.step perf.toPerfContext a).map fun client => { s with client := client }
  | .server a =>
    if s.server.received + a.bytes ≤ s.sent perf then
      (s.server.step perf a).map fun server => { s with server := server }
    else none

/-- Nothing can happen any more. -/
def Terminal (perf : StreamContext) (s : St) : Prop :=
  ∀ a, step perf s a = none

/-- The server has finished, and has taken all that was sent. -/
structure Served (perf : StreamContext) (s : St) : Prop where
  finished : s.server.pc = .finished
  taken : s.server.received = s.sent perf

end Ucxpp.PerftestStream
