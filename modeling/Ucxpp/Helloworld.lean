import Ucxpp.Atomics
import Ucxpp.Lib.Family

/-!
# Helloworld — the bells of helloworld

Once it has read the server's buffer, `client` goes through rounds: it puts to the
buffer or operates on a word of the server, prints what the word was, and rings a bell
for the server. `handle_endpoint` of the connection waits for a bell, prints the word,
or the buffer after the put, and answers: the first time with the remote key of the word,
later with a bell.

An answer goes to the endpoint of the client. A bell for the server is a tag message,
and `tag_recv` on the worker asks for the tag of bells, not for a client: where the
server has accepted several clients, the handler of one may hear the bell of another.

The buffer and the word are variables of `handle_endpoint`: when it returns they are gone,
and an operation of its client on them is one on memory that nobody has registered.
-/

namespace Ucxpp.Helloworld

open Atomics (Update modulus)

/-! ## The rounds -/

/-- The word of the server, `value`, and `reply_value` of the client. -/
structure Vars where
  value : Nat
  reply : Nat
deriving DecidableEq, Repr

def Vars.init : Vars :=
  ⟨42, 0⟩

/-- A round: a put to the buffer, or an atomic on the word, whose operand may be
computed from the reply of the one before. -/
inductive Round where
  | put
  | atomic (update : Nat → Update)

/-- What a round makes of the variables. -/
def Round.exec (v : Vars) : Round → Vars
  | .put => v
  | .atomic update => ⟨(update v.reply).apply .eight v.value, v.value⟩

/-- What is printed of the word in a round. After the put it is the buffer that both sides
print, which is not modelled. -/
def Round.shows (v : Vars) : Round → List Nat
  | .put => []
  | .atomic _ => [v.value]

/-- The rounds of `client` and `handle_endpoint`. -/
def helloworld : List Round :=
  [.put, .atomic fun _ => .add 1,
    .atomic fun reply => .compareSwap ((reply + 1) % modulus .eight) 456,
    .atomic fun _ => .swap 123, .atomic fun _ => .and 0xF, .atomic fun _ => .or 0xF,
    .atomic fun _ => .xor 0xF]

/-- The variables after some rounds. -/
def execAll (v : Vars) (rounds : List Round) : Vars :=
  rounds.foldl Round.exec v

/-- What the client prints of the word: what it was before each atomic. -/
def fetches (v : Vars) : List Round → List Nat
  | [] => []
  | round :: rounds => round.shows v ++ fetches (round.exec v) rounds

/-- What the server should print of the word: what it is after each atomic. -/
def prints (v : Vars) : List Round → List Nat
  | [] => []
  | round :: rounds => round.shows (round.exec v) ++ prints (round.exec v) rounds

example : fetches .init helloworld = [42, 43, 456, 123, 11, 15] ∧
    prints .init helloworld = [43, 456, 123, 11, 15, 0] := by decide

/-! ## The connections -/

/-- Where `client` is in round `r`: about to put or to operate, to ring, waiting for the
answer, or failed. After the last round it is in one that does not exist. -/
inductive ClientPc where
  | call (r : Nat)
  | ring (r : Nat)
  | wait (r : Nat)
  | fault (r : Nat)
deriving DecidableEq, Repr

/-- Where `handle_endpoint` is. -/
inductive HandlerPc where
  | listen (r : Nat)
  | print (r : Nat)
  | answer (r : Nat)
  | returned (r : Nat)
deriving DecidableEq, Repr

/-- The frame of `handle_endpoint` is there, with the buffer and the word. -/
def HandlerPc.running : HandlerPc → Bool
  | .listen _ | .print _ | .answer _ => true
  | .returned _ => false

/-- A client with its handler. `fetched` and `printed` are what they have printed of the
word, and `answers` those on their way to the client. -/
structure Session where
  vars : Vars
  fetched : List Nat
  printed : List Nat
  client : ClientPc
  handler : HandlerPc
  answers : Nat
deriving DecidableEq, Repr

def Session.init : Session where
  vars := .init
  fetched := []
  printed := []
  client := .call 0
  handler := .listen 0
  answers := 0

namespace Session

variable (rounds : List Round) (x : Session)

/-- A step of `client`, with the bells that it rings. -/
def clientStep : Option (Session × Nat) :=
  match x.client with
  | .call r =>
    match rounds[r]? with
    | some round =>
      if x.handler.running then
        some ({ x with
          vars := round.exec x.vars
          fetched := x.fetched ++ round.shows x.vars
          client := .ring r }, 0)
      else some ({ x with client := .fault r }, 0)
    | none => none
  | .ring r => some ({ x with client := .wait r }, 1)
  | .wait r =>
    if 0 < x.answers then
      some ({ x with answers := x.answers - 1, client := .call (r + 1) }, 0)
    else none
  | .fault _ => none

/-- A step of `handle_endpoint`, with the bells that it hears of those that ring. -/
def handlerStep (bells : Nat) : Option (Session × Nat) :=
  match x.handler with
  | .listen r =>
    if r < rounds.length then
      if 0 < bells then some ({ x with handler := .print r }, 1) else none
    -- `flush` and `close`
    else some ({ x with handler := .returned r }, 0)
  | .print r =>
    match rounds[r]? with
    | some round =>
      some ({ x with printed := x.printed ++ round.shows x.vars, handler := .answer r }, 0)
    | none => none
  | .answer r => some ({ x with answers := x.answers + 1, handler := .listen (r + 1) }, 0)
  | .returned _ => none

end Session

/-! ## The server with its clients -/

/-- `bells`: those that have been rung and not heard. -/
structure St (k : Nat) where
  sessions : Fin k → Session
  bells : Nat

def St.init (k : Nat) : St k where
  sessions := fun _ => .init
  bells := 0

inductive Act (k : Nat) where
  | client (i : Fin k)
  | handler (i : Fin k)
deriving DecidableEq, Repr

/-- One step of a client or of a handler. -/
def step {k : Nat} (rounds : List Round) (s : St k) : Act k → Option (St k)
  | .client i =>
    ((s.sessions i).clientStep rounds).map fun (x, rung) =>
      { sessions := Function.update s.sessions i x, bells := s.bells + rung }
  | .handler i =>
    ((s.sessions i).handlerStep rounds s.bells).map fun (x, heard) =>
      { sessions := Function.update s.sessions i x, bells := s.bells - heard }

/-- Nothing can happen any more. -/
def Terminal {k : Nat} (rounds : List Round) (s : St k) : Prop :=
  ∀ a, step rounds s a = none

/-- Both have gone through all rounds. -/
structure Session.Finished (rounds : List Round) (x : Session) : Prop where
  client : x.client = .call rounds.length
  handler : x.handler = .returned rounds.length

end Ucxpp.Helloworld
