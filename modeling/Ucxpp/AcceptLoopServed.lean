import Ucxpp.AcceptLoopRun
import Ucxpp.Lib.Trace

/-!
# AcceptLoopServed — which clients are served

A client that has connected and sends nothing holds up all clients behind it
(`Silent`). A client that hangs up inside its address ends the loop. If no call of the
server fails, neither of the kernel nor of UCX, that is all that can go wrong: when the
clients have sent what they want to send, those are served that are not behind one whose
address is incomplete.
-/

namespace Ucxpp.AddressExchange

variable {hosts : Role → Host} {s s' : St} {a : Act}

/-- The acceptor waits for bytes of a connector that has not sent any more and has not
hung up. -/
structure Silent (s : St) : Prop where
  receiving : (s.side .acceptor).pc.wanted.isSome = true
  nothing : (s.stream .connector).inFlight = []
  opened : (s.stream .connector).ended = false

/-- All that the acceptor can do is to wait, or a call fails. -/
theorem Silent.next (h : Silent s) (hnext : next hosts s a = some s')
    (hrole : a.role = some .acceptor) : Silent s' ∨ ∃ e, (s'.side .acceptor).pc = .thrown e := by
  cases next_cases hnext with
  | connected hpc =>
    cases hrole
    have hreceiving := h.receiving
    rw [hpc] at hreceiving
    cases hreceiving
  | wait =>
    cases hrole
    refine .inl ⟨?_, h.nothing, h.opened⟩
    rw [setSide_side_self]
    exact h.receiving
  | write hpc =>
    cases hrole
    have hreceiving := h.receiving
    rw [hpc] at hreceiving
    cases hreceiving
  | @read r wanted n status hwanted hn =>
    cases hrole
    rcases hn with ⟨-, hlen, -, hmore⟩
    have hnothing : (s.stream (Role.peer .acceptor)).inFlight = [] := h.nothing
    have hopened : (s.stream (Role.peer .acceptor)).ended = false := h.opened
    rw [hnothing] at hlen
    rcases hmore with hpos | ⟨-, hended⟩
    · exact absurd hpos (Nat.not_lt_of_le hlen)
    · rw [hopened] at hended
      cases hended
  | fail =>
    cases hrole
    rw [setSide_side_self]
    exact .inr ⟨_, rfl⟩
  | append | cut => cases hrole

end Ucxpp.AddressExchange

namespace Ucxpp.AcceptLoop

open AddressExchange (Host Role Thrown CutShort)

variable {k : Nat} {server : Host} {clients : Fin k → Host} {s s' : St k}

theorem run_inv {acts : List (Act k)}
    (hrun : Lts.run (step server clients) .init acts = some s) : Inv server clients s :=
  Lts.run_invariant (Inv server clients) (fun _ _ _ h _ hstep => h.step hstep)
    (.init server clients) (Lts.stepsMeet_true _ acts) hrun

/-- The serialised addresses fit a vector. -/
def Fits (server : Host) (clients : Fin k → Host) : Prop :=
  ∀ j r, sizeofSize + (hosts server clients j r).address.length ≤ vectorMax

/-- An endpoint is the one of its client. -/
theorem Inv.endpoint (hfit : Fits server clients) (h : Inv server clients s) {j : Fin k}
    (hpc : ((s.conn j).side .acceptor).pc = .returned) :
    ((s.conn j).side .acceptor).endpoint = some (clients j).address ∧
      (hosts server clients j .connector).message <+: ((s.conn j).stream .connector).written := by
  have hinv := h.exchange_inv j
  rcases hinv.created (r := .acceptor) (hfit j .connector) ((hinv.took .acceptor).returned hpc)
    with ⟨hendpoint, -, hmessage⟩
  exact ⟨hendpoint, hmessage⟩

/-- The endpoints are those of the first clients, in their order. -/
theorem Inv.endpoints_eq (hfit : Fits server clients) (h : Inv server clients s) :
    s.endpoints = (s.arrived.take s.endpoints.length).map fun j => (clients j).address := by
  apply List.ext_getElem?
  intro n
  rw [List.getElem?_map]
  by_cases hn : n < s.endpoints.length
  · rcases h.served n hn with ⟨j, hj, hpc, hendpoint⟩
    rw [List.getElem?_take_of_lt hn, hj, hendpoint, (h.endpoint hfit hpc).1]
    rfl
  · have hle := Nat.le_of_not_lt hn
    rw [List.getElem?_eq_none hle, List.getElem?_eq_none]
    · rfl
    · exact Nat.le_trans (List.length_take_le _ _) hle

/-! ## A client that is silent -/

/-- The loop is in the exchange with a client that is silent. -/
structure Blocked (s : St k) (j : Fin k) : Prop where
  serving : s.loop = .serving j
  silent : AddressExchange.Silent (s.conn j)

theorem afterIo_silent {j : Fin k} {c : AddressExchange.St} (h : AddressExchange.Silent c) :
    s.afterIo j c = { s with conn := Function.update s.conn j c } := by
  have hreceiving := h.receiving
  unfold St.afterIo
  cases hpc : (c.side .acceptor).pc with
  | connecting | sending | readingLength | readingAddress => rfl
  | returned | thrown =>
    rw [hpc] at hreceiving
    cases hreceiving

theorem afterIo_thrown {j : Fin k} {c : AddressExchange.St} {e : Thrown}
    (h : (c.side .acceptor).pc = .thrown e) :
    s.afterIo j c = { s with conn := Function.update s.conn j c, loop := .ended e } := by
  unfold St.afterIo
  rw [h]

/-- Without a step of that client the loop stays there, or it ends. -/
theorem Blocked.step {j : Fin k} {a : Act k} (h : Blocked s j) (ha : ∀ b, a ≠ .client j b)
    (hstep : step server clients s a = some s') :
    (Blocked s' j ∨ ∃ e, s'.loop = .ended e) ∧ s'.endpoints = s.endpoints ∧
      s'.accepted = s.accepted := by
  cases step_cases hstep with
  | @client i b c hclient hnext =>
    have hne : j ≠ i := fun heq => ha b (heq ▸ rfl)
    refine ⟨.inl ⟨h.serving, ?_⟩, rfl, rfl⟩
    dsimp only [St.afterClient]
    rw [Function.update_of_ne hne]
    exact h.silent
  | accept hloop =>
    rw [h.serving] at hloop
    cases hloop
  | acceptFails => exact ⟨.inr ⟨_, rfl⟩, rfl, rfl⟩
  | @io i b c hloop hserver hnext =>
    rw [h.serving] at hloop
    obtain rfl := Loop.serving.inj hloop
    rcases h.silent.next hnext (role_ofServer hserver) with hsilent | ⟨e, hthrown⟩
    · rw [afterIo_silent hsilent]
      refine ⟨.inl ⟨h.serving, ?_⟩, rfl, rfl⟩
      dsimp only
      rw [Function.update_self]
      exact hsilent
    · rw [afterIo_thrown hthrown]
      exact ⟨.inr ⟨e, rfl⟩, rfl, rfl⟩

/-- When the loop has ended, it stays so. -/
theorem ended_step {e : Thrown} (h : s.loop = .ended e) {a : Act k}
    (hstep : step server clients s a = some s') :
    s'.loop = .ended e ∧ s'.endpoints = s.endpoints ∧ s'.accepted = s.accepted := by
  cases step_cases hstep with
  | client => exact ⟨h, rfl, rfl⟩
  | accept hloop | acceptFails hloop | io hloop =>
    rw [h] at hloop
    cases hloop

/-- The steps of one client are not among the actions. -/
def Without (j : Fin k) (_ : St k) (a : Act k) : Prop :=
  ∀ b, a ≠ .client j b

/-- Nobody else is served while a client is silent. -/
theorem Blocked.run {j : Fin k} {acts : List (Act k)} (h : Blocked s j)
    (hwithout : ∀ b, Act.client j b ∉ acts)
    (hrun : Lts.run (AcceptLoop.step server clients) s acts = some s') :
    s'.endpoints = s.endpoints ∧ s'.accepted = s.accepted := by
  have hmeet : Lts.StepsMeet (AcceptLoop.step server clients) (Without j) s acts :=
    Lts.stepsMeet_of_mem fun a ha _ b heq => hwithout b (heq ▸ ha)
  have hall := Lts.run_invariant
    (fun t => (Blocked t j ∨ ∃ e, t.loop = .ended e) ∧ t.endpoints = s.endpoints ∧
      t.accepted = s.accepted)
    (fun t a t' ht ha hstep => ?_) ⟨.inl h, rfl, rfl⟩ hmeet hrun
  · exact hall.2
  · rcases ht with ⟨hblocked | ⟨e, hended⟩, hendpoints, haccepted⟩
    · rcases hblocked.step ha hstep with ⟨hnew, heq, heq'⟩
      exact ⟨hnew, heq.trans hendpoints, heq'.trans haccepted⟩
    · rcases ended_step hended hstep with ⟨hnew, heq, heq'⟩
      exact ⟨.inr ⟨e, hnew⟩, heq.trans hendpoints, heq'.trans haccepted⟩

/-! ## No call of the server fails -/

/-- No call of the server fails in the step, neither of the kernel nor `ucp_ep_create`. A
client may close its connection at any time. -/
def Faultless (_ : St k) : Act k → Prop
  | .client .. | .accept => True
  | .acceptFails _ => False
  | .io a => (∀ errno, a ≠ .fail .acceptor errno) ∧ ∀ n e, a ≠ .read .acceptor n (.err e)

/-- What holds along such a run: the loop ends only where a client has hung up inside
its address. -/
structure FaultlessInv (server : Host) (clients : Fin k → Host) (s : St k) : Prop where
  inv : Inv server clients s
  ended : ∀ e, s.loop = .ended e → ∃ j, s.arrived[s.endpoints.length]? = some j ∧
    CutShort (hosts server clients j) (s.conn j) .acceptor

theorem FaultlessInv.init : FaultlessInv server clients .init :=
  ⟨.init server clients, fun _ h => by cases h⟩

theorem FaultlessInv.step {a : Act k} (hfit : Fits server clients)
    (h : FaultlessInv server clients s) (ha : Faultless s a)
    (hstep : step server clients s a = some s') : FaultlessInv server clients s' := by
  have hinv := h.inv.step hstep
  cases step_cases hstep with
  | @client j a c hclient hnext =>
    refine ⟨hinv, fun e he => ?_⟩
    rcases h.ended e he with ⟨i, hi, hshort⟩
    dsimp only [St.afterClient]
    refine ⟨i, ?_, ?_⟩
    · split
      · rw [List.getElem?_append_left (List.getElem?_eq_some_iff.mp hi).1]
        exact hi
      · exact hi
    · by_cases hij : i = j
      · subst hij
        rw [Function.update_self]
        exact hshort.step hnext
      · rw [Function.update_of_ne hij]
        exact hshort
  | accept => exact ⟨hinv, fun e he => by cases he⟩
  | acceptFails => exact absurd ha id
  | @io j a c hloop hserver hnext =>
    have hcounted := h.inv.loop
    simp only [Counted, hloop] at hcounted
    unfold St.afterIo at hinv ⊢
    cases hpc : (c.side .acceptor).pc with
    | returned =>
      rw [hpc] at hinv
      exact ⟨hinv, fun e he => by cases he⟩
    | thrown e =>
      rw [hpc] at hinv
      refine ⟨hinv, fun _ _ => ⟨j, hcounted.2.1, ?_⟩⟩
      dsimp only
      rw [Function.update_self]
      exact AddressExchange.cutShort_of_thrown (h.inv.exchange_inv j)
        (hfit j (Role.peer .acceptor)) hnext (role_ofServer hserver) ha.1 ha.2
        (AddressExchange.atIo_live hcounted.2.2) hpc
    | connecting | sending | readingLength | readingAddress =>
      rw [hpc] at hinv
      refine ⟨hinv, fun e he => ?_⟩
      dsimp only at he
      rw [hloop] at he
      cases he

/-- The client has written its whole address. -/
def Complete (clients : Fin k → Host) (s : St k) (j : Fin k) : Bool :=
  sizeofSize + (clients j).address.length ≤ ((s.conn j).stream .connector).written.length

/-- The server is in the exchange with a client that has closed the connection: a send to
it has to fail. -/
def St.PeerClosed (s : St k) : Prop :=
  ∃ j, s.loop = .serving j ∧ ((s.conn j).stream .acceptor).ended = true

/-- The clients have hung up, and the server can do nothing more: no call of it can succeed,
and none fails because the client has closed the connection. -/
structure Settled (server : Host) (clients : Fin k → Host) (s : St k) : Prop where
  hungUp : ∀ j ∈ s.arrived, ((s.conn j).stream .connector).ended = true
  accept : step server clients s .accept = none
  io : ∀ a, (∀ errno, a = .fail .acceptor errno → s.PeerClosed) →
    step server clients s (.io a) = none

/-- A connection that has arrived can be accepted. -/
theorem Inv.accept_isSome (h : Inv server clients s) (hloop : s.loop = .accepting) {j : Fin k}
    (hj : s.arrived[s.accepted]? = some j) :
    (AcceptLoop.step server clients s .accept).isSome = true := by
  have hnew : j ∉ s.arrived.take s.accepted := by
    intro hmem
    rcases List.getElem?_of_mem hmem with ⟨n, hn⟩
    rcases List.getElem?_eq_some_iff.mp hn with ⟨hlt, -⟩
    have hlow := Nat.lt_of_lt_of_le hlt (List.length_take_le _ _)
    rw [List.getElem?_take_of_lt hlow] at hn
    have hlen := (List.getElem?_eq_some_iff.mp hn).1
    have heq := (List.getElem?_inj hlen h.nodup).mp (hn.trans hj.symm)
    omega
  simp only [AcceptLoop.step, hloop, hj, Option.bind_some, AddressExchange.next,
    if_pos (h.untouched j hnew), Option.map_some, Option.isSome_some]

/-- An exchange whose client has hung up can go on. -/
theorem Inv.io_isSome (h : Inv server clients s) {j : Fin k} (hloop : s.loop = .serving j)
    (hended : ((s.conn j).stream .connector).ended = true) :
    ∃ a, (∀ errno, a = .fail .acceptor errno → s.PeerClosed) ∧
      (AcceptLoop.step server clients s (.io a)).isSome = true := by
  have hcounted := h.loop
  simp only [Counted, hloop] at hcounted
  rcases AddressExchange.can_step (r := .acceptor) (h.exchange_inv j) hended
    (AddressExchange.atIo_live hcounted.2.2) with ⟨a, c, hrole, hnext, -, hfail⟩
  refine ⟨a, fun errno heq => ⟨j, hloop, hfail errno heq⟩, ?_⟩
  have hserver : ofServer a = true := by
    cases a with
    | connected r =>
      cases hrole
      cases AddressExchange.next_cases hnext with
      | connected hpc =>
        rw [hpc] at hcounted
        cases hcounted.2.2
    | wait | write | read | fail => exact decide_eq_true (Option.some.inj hrole)
    | append | cut => cases hrole
  simp only [AcceptLoop.step, hloop, hserver, if_true, hnext, Option.map_some,
    Option.isSome_some]

/-- A client that has been served has written its whole address. -/
theorem Inv.complete (hfit : Fits server clients) (h : Inv server clients s) {j : Fin k}
    (hpc : ((s.conn j).side .acceptor).pc = .returned) : Complete clients s j = true := by
  have hle := (h.endpoint hfit hpc).2.length_le
  rw [Host.message, length_serializeAddress] at hle
  exact decide_eq_true hle

/-- The first connection that has not been served has an incomplete address. -/
theorem FaultlessInv.not_complete (h : FaultlessInv server clients s)
    (hsettled : Settled server clients s) {j : Fin k}
    (hj : s.arrived[s.endpoints.length]? = some j) : Complete clients s j = false := by
  have hcounted := h.inv.loop
  cases hloop : s.loop with
  | accepting =>
    simp only [Counted, hloop] at hcounted
    have haccept := h.inv.accept_isSome hloop (hcounted ▸ hj)
    rw [hsettled.accept] at haccept
    cases haccept
  | serving i =>
    simp only [Counted, hloop] at hcounted
    have hmem := List.mem_of_getElem? hcounted.2.1
    rcases h.inv.io_isSome hloop (hsettled.hungUp i hmem) with ⟨a, hfail, hio⟩
    rw [hsettled.io a hfail] at hio
    cases hio
  | ended e =>
    rcases h.ended e hloop with ⟨i, hi, hshort⟩
    obtain rfl := Option.some.inj (hi.symm.trans hj)
    exact decide_eq_false (Nat.not_le_of_lt hshort.2)

/-! ## The accept loop -/

/-- However the steps of the clients and of the server are interleaved: what happens on
a connection is a run of the exchange, the endpoints are those of the first connections
in the order in which these were made, no exchange begins before the last one has
returned, and while the client of one is silent nobody else is served. -/
theorem served_in_order (server : Host) (clients : Fin k → Host) (hfit : Fits server clients)
    {acts : List (Act k)} {s : St k}
    (hrun : Lts.run (step server clients) .init acts = some s) :
    (∀ j, ∃ exchange,
        Lts.run (AddressExchange.next (hosts server clients j)) .init exchange = some (s.conn j)) ∧
      s.arrived.Nodup ∧
      s.endpoints = (s.arrived.take s.endpoints.length).map (fun j => (clients j).address) ∧
      (∀ j, ((s.conn j).side .acceptor).pc ≠ .connecting →
        j ∈ s.arrived.take (s.endpoints.length + 1)) ∧
      ∀ j, Blocked s j → ∀ more s', (∀ b, Act.client j b ∉ more) →
        Lts.run (step server clients) s more = some s' → s'.endpoints = s.endpoints := by
  have hinv := run_inv hrun
  refine ⟨hinv.conn, hinv.nodup, hinv.endpoints_eq hfit, fun j hpc => ?_,
    fun j hblocked more s' hwithout hmore => (hblocked.run hwithout hmore).1⟩
  have hmem := not_imp_comm.mp (hinv.untouched j) hpc
  have hle : s.accepted ≤ s.endpoints.length + 1 := by
    have hcounted := hinv.loop
    cases hloop : s.loop with
    | accepting | serving | ended =>
      simp only [Counted, hloop] at hcounted
      omega
  exact List.take_subset_take_left _ hle hmem

def smallServer : Host :=
  ⟨.big, []⟩

def smallClients (_ : Fin 2) : Host :=
  ⟨.little, [1, 2, 3]⟩

theorem small_fits : Fits smallServer smallClients := by
  intro j r
  cases r with
  | connector => exact (by decide : sizeofSize + 3 ≤ vectorMax)
  | acceptor => exact (by decide : sizeofSize + 0 ≤ vectorMax)

/-- The first client connects and sends nothing, the second sends its address. -/
def blockedActs : List (Act 2) :=
  [.client 0 (.connected .connector), .client 1 (.connected .connector),
    .client 1 (.write .connector 11), .accept, .io (.wait .acceptor)]

theorem served_in_order_small :
    ∃ s, Lts.run (step smallServer smallClients) .init blockedActs = some s ∧ Blocked s 0 ∧
      ∀ more s', (∀ b, Act.client 0 b ∉ more) →
        Lts.run (step smallServer smallClients) s more = some s' → s'.endpoints = [] := by
  have hrun : ∃ s, Lts.run (step smallServer smallClients) .init blockedActs = some s ∧
      Blocked s 0 ∧ s.endpoints = [] := ⟨_, rfl, ⟨rfl, ⟨rfl, rfl, rfl⟩⟩, rfl⟩
  rcases hrun with ⟨s, hs, hblocked, hnone⟩
  refine ⟨s, hs, hblocked, fun more s' hwithout hmore => ?_⟩
  have hall := served_in_order smallServer smallClients small_fits hs
  rw [hall.2.2.2.2 0 hblocked more s' hwithout hmore]
  exact hnone

/-- Where no call of the server fails and all clients that have connected have hung up,
those are served that come before the first one with an incomplete address. -/
theorem served_eq_complete (server : Host) (clients : Fin k → Host) (hfit : Fits server clients)
    {acts : List (Act k)} {s : St k}
    (hrun : Lts.run (step server clients) .init acts = some s)
    (hfaultless : Lts.StepsMeet (step server clients) Faultless .init acts)
    (hsettled : Settled server clients s) :
    s.endpoints = (s.arrived.takeWhile (Complete clients s)).map fun j => (clients j).address := by
  have h : FaultlessInv server clients s :=
    Lts.run_invariant (FaultlessInv server clients)
      (fun _ _ _ hs ha hstep => hs.step hfit ha hstep) .init hfaultless hrun
  rw [Trace.takeWhile_eq_take (n := s.endpoints.length)]
  · exact h.inv.endpoints_eq hfit
  · intro m hm
    rcases h.inv.served m hm with ⟨j, hj, hpc, -⟩
    exact ⟨j, hj, h.inv.complete hfit hpc⟩
  · exact fun j hj => h.not_complete hsettled hj

/-- The first client sends its address, and closes its connection when it is served; the
second hangs up after four bytes. -/
def servedActs : List (Act 2) :=
  [.client 0 (.connected .connector), .client 1 (.connected .connector),
    .client 0 (.write .connector 11), .client 0 (.cut .connector),
    .client 1 (.write .connector 4), .client 1 (.cut .connector), .accept,
    .io (.read .acceptor 8 .ok), .io (.read .acceptor 3 .ok), .io (.write .acceptor 8),
    .client 0 (.cut .acceptor), .accept, .io (.read .acceptor 4 .ok), .io (.read .acceptor 0 .ok)]

theorem served_eq_complete_small :
    ∃ s, Lts.run (step smallServer smallClients) .init servedActs = some s ∧
      s.endpoints = [[1, 2, 3]] ∧
      s.endpoints =
        (s.arrived.takeWhile (Complete smallClients s)).map fun j => (smallClients j).address := by
  have hrun : ∃ s, Lts.run (step smallServer smallClients) .init servedActs = some s ∧
      s.endpoints = [[1, 2, 3]] ∧ s.loop = .ended (.runtimeError "failed to read address length") ∧
      ∀ j, ((s.conn j).stream .connector).ended = true := by
    refine ⟨_, rfl, rfl, rfl, fun j => ?_⟩
    match j with
    | 0 | 1 => rfl
  rcases hrun with ⟨s, hs, hendpoints, hloop, hended⟩
  have hfaultless : Lts.StepsMeet (step smallServer smallClients) Faultless .init servedActs := by
    apply Lts.stepsMeet_of_mem
    simp [servedActs, Faultless]
  have hsettled : Settled smallServer smallClients s := by
    refine ⟨fun j _ => hended j, ?_, fun a _ => ?_⟩
    · simp only [step, hloop]
    · simp only [step, hloop]
  exact ⟨s, hs, hendpoints,
    served_eq_complete smallServer smallClients small_fits hs hfaultless hsettled⟩

end Ucxpp.AcceptLoop
