import Ucxpp.AddressExchangeThrown

/-!
# AcceptLoop — a server that accepts one client after another

`server` of helloworld awaits `acceptor::accept` in a loop and starts
`handle_endpoint` with each endpoint that it returns. `accept` awaits the listener and
then the whole exchange of addresses, so the exchanges of the server come one after
the other, while the clients run theirs at the same time: the kernel makes their
connections and buffers what they write. An exception of `accept` ends the loop.

Each connection is a machine of `AddressExchange`, with the client as its connector and
the server as its acceptor.
-/

namespace Ucxpp.AcceptLoop

open AddressExchange (Host Role Thrown)

variable {k : Nat}

/-- Where the loop is: at the listener, in the exchange with a client, or over. -/
inductive Loop (k : Nat) where
  | accepting
  | serving (j : Fin k)
  | ended (e : Thrown)
deriving DecidableEq, Repr

/-- `arrived`: the connections in the order in which the kernel made them; the listener
has given out the first `accepted` of them. `endpoints`: the remote addresses of the
endpoints that `handle_endpoint` was started with. -/
structure St (k : Nat) where
  conn : Fin k → AddressExchange.St
  arrived : List (Fin k)
  accepted : Nat
  loop : Loop k
  endpoints : List (List UInt8)

def St.init : St k where
  conn := fun _ => .init
  arrived := []
  accepted := 0
  loop := .accepting
  endpoints := []

/-- What a client does on its connection, and what becomes of the connection. -/
def ofClient : AddressExchange.Act → Bool
  | .connected r | .wait r | .write r _ | .read r _ _ | .fail r _ | .append r _ =>
    r = .connector
  | .cut _ => true

/-- An I/O of the server on the connection that it serves. -/
def ofServer : AddressExchange.Act → Bool
  | .wait r | .write r _ | .read r _ _ | .fail r _ => r = .acceptor
  | .connected _ | .append .. | .cut _ => false

inductive Act (k : Nat) where
  | client (j : Fin k) (a : AddressExchange.Act)
  | accept
  | acceptFails (errno : Nat)
  | io (a : AddressExchange.Act)
deriving DecidableEq, Repr

section

variable (server : Host) (clients : Fin k → Host)

/-- The two ends of connection `j`. -/
def hosts (j : Fin k) : Role → Host
  | .connector => clients j
  | .acceptor => server

end

namespace St

variable (s : St k) (j : Fin k) (c : AddressExchange.St)

/-- The connection of a client after a step of it. -/
def afterClient (a : AddressExchange.Act) : St k :=
  { s with
    conn := Function.update s.conn j c
    arrived := if a = .connected .connector then s.arrived ++ [j] else s.arrived }

/-- The listener gives out a connection. -/
def afterAccept : St k :=
  { s with
    conn := Function.update s.conn j c
    accepted := s.accepted + 1
    loop := .serving j }

/-- The loop goes on when the exchange is over. -/
def afterIo : St k :=
  match (c.side .acceptor).pc with
  | .returned =>
    { s with
      conn := Function.update s.conn j c
      loop := .accepting
      endpoints := s.endpoints ++ [(c.side .acceptor).endpoint.getD []] }
  | .thrown e => { s with conn := Function.update s.conn j c, loop := .ended e }
  | .connecting | .sending _ | .readingLength _ | .readingAddress .. =>
    { s with conn := Function.update s.conn j c }

end St

/-- One step, if it is possible. -/
def step (server : Host) (clients : Fin k → Host) (s : St k) : Act k → Option (St k)
  | .client j a =>
    if ofClient a then
      (AddressExchange.next (hosts server clients j) (s.conn j) a).map (s.afterClient j · a)
    else none
  | .accept =>
    match s.loop with
    | .accepting =>
      s.arrived[s.accepted]?.bind fun j =>
        (AddressExchange.next (hosts server clients j) (s.conn j) (.connected .acceptor)).map
          (s.afterAccept j)
    | .serving _ | .ended _ => none
  | .acceptFails errno =>
    match s.loop with
    | .accepting => some { s with loop := .ended (.errno "failed to accept" errno) }
    | .serving _ | .ended _ => none
  | .io a =>
    match s.loop with
    | .serving j =>
      if ofServer a then
        (AddressExchange.next (hosts server clients j) (s.conn j) a).map (s.afterIo j)
      else none
    | .accepting | .ended _ => none

/-! ## What a step can do -/

inductive Step (server : Host) (clients : Fin k → Host) (s : St k) : Act k → St k → Prop where
  | client {j : Fin k} {a : AddressExchange.Act} {c : AddressExchange.St}
      (hclient : ofClient a = true)
      (hnext : AddressExchange.next (hosts server clients j) (s.conn j) a = some c) :
      Step server clients s (.client j a) (s.afterClient j c a)
  | accept {j : Fin k} {c : AddressExchange.St} (hloop : s.loop = .accepting)
      (hj : s.arrived[s.accepted]? = some j)
      (hnext : AddressExchange.next (hosts server clients j) (s.conn j) (.connected .acceptor) =
        some c) :
      Step server clients s .accept (s.afterAccept j c)
  | acceptFails {errno : Nat} (hloop : s.loop = .accepting) :
      Step server clients s (.acceptFails errno) { s with
        loop := .ended (.errno "failed to accept" errno) }
  | io {j : Fin k} {a : AddressExchange.Act} {c : AddressExchange.St}
      (hloop : s.loop = .serving j) (hserver : ofServer a = true)
      (hnext : AddressExchange.next (hosts server clients j) (s.conn j) a = some c) :
      Step server clients s (.io a) (s.afterIo j c)

theorem step_cases {server : Host} {clients : Fin k → Host} {s s' : St k} {a : Act k}
    (h : step server clients s a = some s') : Step server clients s a s' := by
  cases a with
  | client j a =>
    rcases Option.ite_none_right_eq_some.mp h with ⟨hclient, h⟩
    rcases Option.map_eq_some_iff.mp h with ⟨c, hnext, rfl⟩
    exact .client hclient hnext
  | accept =>
    cases hloop : s.loop with
    | accepting =>
      simp only [step, hloop] at h
      rcases Option.bind_eq_some_iff.mp h with ⟨j, hj, h⟩
      rcases Option.map_eq_some_iff.mp h with ⟨c, hnext, rfl⟩
      exact .accept hloop hj hnext
    | serving | ended =>
      simp only [step, hloop] at h
      cases h
  | acceptFails errno =>
    cases hloop : s.loop with
    | accepting =>
      simp only [step, hloop, Option.some.injEq] at h
      exact h ▸ .acceptFails hloop
    | serving | ended =>
      simp only [step, hloop] at h
      cases h
  | io a =>
    cases hloop : s.loop with
    | serving j =>
      simp only [step, hloop] at h
      rcases Option.ite_none_right_eq_some.mp h with ⟨hserver, h⟩
      rcases Option.map_eq_some_iff.mp h with ⟨c, hnext, rfl⟩
      exact .io hloop hserver hnext
    | accepting | ended =>
      simp only [step, hloop] at h
      cases h

end Ucxpp.AcceptLoop
