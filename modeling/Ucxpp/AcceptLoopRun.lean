import Mathlib.Data.List.Nodup
import Ucxpp.AcceptLoop

/-!
# AcceptLoopRun — the order in which clients are served

What happens on a connection is a run of the exchange (`Inv.conn`), whatever happens on
the others. The loop serves the connections in the order in which they were made and
takes the next one only when the exchange with the last one has returned (`Inv.loop`).
-/

namespace Ucxpp.AcceptLoop

open AddressExchange (Host Role Thrown CutShort)

variable {k : Nat} {server : Host} {clients : Fin k → Host} {s s' : St k}

/-! ## Whose steps they are -/

theorem role_ofClient {a : AddressExchange.Act} (h : ofClient a = true) :
    a.role ≠ some .acceptor := by
  cases a with
  | connected | wait | write | read | fail =>
    have hr := of_decide_eq_true h
    intro heq
    cases hr.symm.trans (Option.some.inj heq)
  | append | cut => nofun

theorem role_ofServer {a : AddressExchange.Act} (h : ofServer a = true) :
    a.role = some .acceptor := by
  cases a with
  | wait | write | read | fail => exact congrArg some (of_decide_eq_true h)
  | connected | append | cut => cases h

/-! ## The invariant -/

/-- How many connections the listener has given out, by the place where the loop is. -/
def Counted (s : St k) : Prop :=
  match s.loop with
  | .accepting => s.accepted = s.endpoints.length
  | .serving j =>
    s.accepted = s.endpoints.length + 1 ∧ s.arrived[s.endpoints.length]? = some j ∧
      ((s.conn j).side .acceptor).pc.atIo = true
  | .ended _ => s.endpoints.length ≤ s.accepted ∧ s.accepted ≤ s.endpoints.length + 1

structure Inv (server : Host) (clients : Fin k → Host) (s : St k) : Prop where
  conn : ∀ j, ∃ acts,
    Lts.run (AddressExchange.next (hosts server clients j)) .init acts = some (s.conn j)
  nodup : s.arrived.Nodup
  passed : ∀ j ∈ s.arrived, ((s.conn j).side .connector).pc ≠ .connecting
  untouched : ∀ j, j ∉ s.arrived.take s.accepted → ((s.conn j).side .acceptor).pc = .connecting
  le : s.accepted ≤ s.arrived.length
  served : ∀ n < s.endpoints.length, ∃ j, s.arrived[n]? = some j ∧
    ((s.conn j).side .acceptor).pc = .returned ∧
    s.endpoints[n]? = some (((s.conn j).side .acceptor).endpoint.getD [])
  loop : Counted s

namespace Inv

theorem init (server : Host) (clients : Fin k → Host) : Inv server clients .init where
  conn _ := ⟨[], rfl⟩
  nodup := List.nodup_nil
  passed _ hmem := by cases hmem
  untouched _ _ := rfl
  le := Nat.le_refl 0
  served _ hn := absurd hn (Nat.not_lt_zero _)
  loop := rfl

/-- The invariant of the exchange, on every connection. -/
theorem exchange_inv (h : Inv server clients s) (j : Fin k) :
    AddressExchange.Inv (hosts server clients j) (s.conn j) := by
  rcases h.conn j with ⟨acts, hacts⟩
  exact AddressExchange.run_inv (AddressExchange.init_inv _) hacts

/-- A step on one connection continues its run, and leaves the others as they are. -/
theorem conn_step (h : Inv server clients s) {j : Fin k} {a : AddressExchange.Act}
    {c : AddressExchange.St}
    (hnext : AddressExchange.next (hosts server clients j) (s.conn j) a = some c) (i : Fin k) :
    ∃ acts, Lts.run (AddressExchange.next (hosts server clients i)) .init acts =
      some (Function.update s.conn j c i) := by
  by_cases hi : i = j
  · subst hi
    rcases h.conn i with ⟨acts, hacts⟩
    refine ⟨acts ++ [a], ?_⟩
    rw [Lts.run_append, hacts, Function.update_self]
    simp only [Option.bind_some, Lts.run_cons, Lts.run_nil, hnext]
  · rw [Function.update_of_ne hi]
    exact h.conn i

/-- A connection that is being made has not arrived before. -/
theorem passed_step {j : Fin k} {a : AddressExchange.Act}
    {c : AddressExchange.St}
    (hnext : AddressExchange.next (hosts server clients j) (s.conn j) a = some c) {i : Fin k}
    (hi : ((s.conn i).side .connector).pc ≠ .connecting) :
    ((Function.update s.conn j c i).side .connector).pc ≠ .connecting := by
  by_cases hij : i = j
  · subst hij
    rw [Function.update_self]
    by_cases hrole : a.role = some .connector
    · exact AddressExchange.not_connecting hnext hrole
    · rw [AddressExchange.side_eq hnext hrole]
      exact hi
  · rw [Function.update_of_ne hij]
    exact hi

/-- The steps of a client do not touch the side of the server. -/
theorem acceptor_eq {j : Fin k} {a : AddressExchange.Act} {c : AddressExchange.St}
    (hclient : ofClient a = true)
    (hnext : AddressExchange.next (hosts server clients j) (s.conn j) a = some c) (i : Fin k) :
    (Function.update s.conn j c i).side .acceptor = (s.conn i).side .acceptor := by
  by_cases hi : i = j
  · subst hi
    rw [Function.update_self]
    exact AddressExchange.side_eq hnext (role_ofClient hclient)
  · rw [Function.update_of_ne hi]

theorem client (h : Inv server clients s) {j : Fin k} {a : AddressExchange.Act}
    {c : AddressExchange.St} (hclient : ofClient a = true)
    (hnext : AddressExchange.next (hosts server clients j) (s.conn j) a = some c) :
    Inv server clients (s.afterClient j c a) := by
  have hside := acceptor_eq (s := s) hclient hnext
  unfold St.afterClient
  by_cases hconnected : a = .connected .connector
  · -- a connection arrives, which was not there before
    subst hconnected
    rw [if_pos rfl]
    have hnew : j ∉ s.arrived := by
      intro hj
      cases AddressExchange.next_cases hnext with
      | connected hpc => exact h.passed j hj hpc
    have hplaces : ∀ {n : Nat} {i : Fin k}, s.arrived[n]? = some i →
        (s.arrived ++ [j])[n]? = some i := by
      intro n i hn
      rw [List.getElem?_append_left (List.getElem?_eq_some_iff.mp hn).1]
      exact hn
    constructor
    · exact h.conn_step hnext
    · refine List.nodup_append.mpr ⟨h.nodup, List.nodup_singleton j, fun i hi i' hi' => ?_⟩
      rintro rfl
      exact hnew (List.mem_singleton.mp hi' ▸ hi)
    · intro i hi
      rcases List.mem_append.mp hi with hold | hlast
      · exact passed_step hnext (h.passed i hold)
      · obtain rfl := List.mem_singleton.mp hlast
        dsimp only
        rw [Function.update_self]
        exact AddressExchange.not_connecting hnext rfl
    · intro i hi
      dsimp only at hi ⊢
      rw [List.take_append_of_le_length h.le] at hi
      rw [hside]
      exact h.untouched i hi
    · dsimp only
      rw [List.length_append]
      exact Nat.le_add_right_of_le h.le
    · intro n hn
      rcases h.served n hn with ⟨i, hi, hserved⟩
      refine ⟨i, hplaces hi, ?_⟩
      dsimp only
      rw [hside]
      exact hserved
    · have hloop := h.loop
      cases hcase : s.loop with
      | accepting | ended =>
        simp only [Counted, hcase] at hloop ⊢
        exact hloop
      | serving i =>
        simp only [Counted, hcase] at hloop ⊢
        rw [hside]
        exact ⟨hloop.1, hplaces hloop.2.1, hloop.2.2⟩
  · rw [if_neg hconnected]
    constructor
    · exact h.conn_step hnext
    · exact h.nodup
    · exact fun i hi => passed_step hnext (h.passed i hi)
    · intro i hi
      dsimp only
      rw [hside]
      exact h.untouched i hi
    · exact h.le
    · intro n hn
      rcases h.served n hn with ⟨i, hi, hserved⟩
      refine ⟨i, hi, ?_⟩
      dsimp only
      rw [hside]
      exact hserved
    · have hloop := h.loop
      cases hcase : s.loop with
      | accepting | ended =>
        simp only [Counted, hcase] at hloop ⊢
        exact hloop
      | serving i =>
        simp only [Counted, hcase] at hloop ⊢
        rw [hside]
        exact hloop

/-- The loop takes the connection that has waited longest. -/
theorem accept (h : Inv server clients s) {j : Fin k} {c : AddressExchange.St}
    (hloop : s.loop = .accepting) (hj : s.arrived[s.accepted]? = some j)
    (hnext : AddressExchange.next (hosts server clients j) (s.conn j) (.connected .acceptor) =
      some c) : Inv server clients (s.afterAccept j c) := by
  have hcounted := h.loop
  simp only [Counted, hloop] at hcounted
  have hlt := (List.getElem?_eq_some_iff.mp hj).1
  have htake : s.arrived.take (s.accepted + 1) = s.arrived.take s.accepted ++ [j] := by
    rw [List.take_add_one, hj]
    rfl
  constructor
  · exact h.conn_step hnext
  · exact h.nodup
  · exact fun i hi => passed_step hnext (h.passed i hi)
  · intro i hi
    dsimp only [St.afterAccept] at hi ⊢
    rw [htake, List.mem_append, List.mem_singleton, not_or] at hi
    rw [Function.update_of_ne hi.2]
    exact h.untouched i hi.1
  · exact hlt
  · intro n hn
    dsimp only [St.afterAccept] at hn ⊢
    rcases h.served n hn with ⟨i, hi, hserved⟩
    have hne : i ≠ j := by
      rintro rfl
      have hlow := (List.getElem?_eq_some_iff.mp hi).1
      have heq := (List.getElem?_inj hlow h.nodup).mp (hi.trans hj.symm)
      omega
    refine ⟨i, hi, ?_⟩
    rw [Function.update_of_ne hne]
    exact hserved
  · refine ⟨congrArg (· + 1) hcounted, hcounted ▸ hj, ?_⟩
    dsimp only [St.afterAccept]
    rw [Function.update_self]
    cases AddressExchange.next_cases hnext with
    | connected hpc => rfl

theorem acceptFails (h : Inv server clients s) (hloop : s.loop = .accepting) (e : Thrown) :
    Inv server clients { s with loop := .ended e } := by
  have hcounted := h.loop
  simp only [Counted, hloop] at hcounted
  exact ⟨h.conn, h.nodup, h.passed, h.untouched, h.le, h.served, Nat.le_of_eq hcounted.symm,
    Nat.le_succ_of_le (Nat.le_of_eq hcounted)⟩

/-- The connection that is served is not one of those that have been. -/
theorem serving_ne (h : Inv server clients s) {j : Fin k} (hloop : s.loop = .serving j) {n : Nat}
    (hn : n < s.endpoints.length) {i : Fin k} (hi : s.arrived[n]? = some i) : i ≠ j := by
  have hcounted := h.loop
  simp only [Counted, hloop] at hcounted
  rintro rfl
  have hlt := (List.getElem?_eq_some_iff.mp hi).1
  have heq := (List.getElem?_inj hlt h.nodup).mp (hi.trans hcounted.2.1.symm)
  omega

/-- An I/O of the server, after which the exchange goes on or is over. -/
theorem io (h : Inv server clients s) {j : Fin k} {a : AddressExchange.Act}
    {c : AddressExchange.St} (hloop : s.loop = .serving j)
    (hserver : ofServer a = true)
    (hnext : AddressExchange.next (hosts server clients j) (s.conn j) a = some c) :
    Inv server clients (s.afterIo j c) := by
  have hcounted := h.loop
  simp only [Counted, hloop] at hcounted
  rcases hcounted with ⟨haccepted, hj, -⟩
  have hconn := h.conn_step hnext
  have hpassed : ∀ i ∈ s.arrived,
      ((Function.update s.conn j c i).side .connector).pc ≠ .connecting :=
    fun i hi => passed_step hnext (h.passed i hi)
  have huntouched : ∀ i, i ∉ s.arrived.take s.accepted →
      ((Function.update s.conn j c i).side .acceptor).pc = .connecting := by
    intro i hi
    have hne : i ≠ j := by
      rintro rfl
      apply hi
      apply List.mem_of_getElem? (i := s.endpoints.length)
      rw [List.getElem?_take_of_lt (haccepted ▸ Nat.lt_succ_self _)]
      exact hj
    rw [Function.update_of_ne hne]
    exact h.untouched i hi
  have hserved : ∀ n < s.endpoints.length, ∃ i, s.arrived[n]? = some i ∧
      ((Function.update s.conn j c i).side .acceptor).pc = .returned ∧
      s.endpoints[n]? =
        some (((Function.update s.conn j c i).side .acceptor).endpoint.getD []) := by
    intro n hn
    rcases h.served n hn with ⟨i, hi, hold⟩
    refine ⟨i, hi, ?_⟩
    rw [Function.update_of_ne (h.serving_ne hloop hn hi)]
    exact hold
  unfold St.afterIo
  cases hpc : (c.side .acceptor).pc with
  | returned =>
    refine ⟨hconn, h.nodup, hpassed, huntouched, h.le, fun n hn => ?_, ?_⟩
    · dsimp only at hn ⊢
      rw [List.length_append, List.length_singleton] at hn
      rcases Nat.lt_succ_iff_lt_or_eq.mp hn with hlow | rfl
      · rw [List.getElem?_append_left hlow]
        exact hserved n hlow
      · refine ⟨j, hj, ?_⟩
        rw [Function.update_self, List.getElem?_concat_length]
        exact ⟨hpc, rfl⟩
    · dsimp only [Counted]
      rw [List.length_append]
      exact haccepted
  | thrown e =>
    refine ⟨hconn, h.nodup, hpassed, huntouched, h.le, hserved, ?_⟩
    dsimp only [Counted]
    omega
  | connecting => exact absurd hpc (AddressExchange.not_connecting hnext (role_ofServer hserver))
  | sending | readingLength | readingAddress =>
    refine ⟨hconn, h.nodup, hpassed, huntouched, h.le, hserved, ?_⟩
    simp only [Counted, hloop, Function.update_self, hpc]
    exact ⟨haccepted, hj, rfl⟩

theorem step {a : Act k} (h : Inv server clients s)
    (hstep : AcceptLoop.step server clients s a = some s') : Inv server clients s' := by
  cases step_cases hstep with
  | client hclient hnext => exact h.client hclient hnext
  | accept hloop hj hnext => exact h.accept hloop hj hnext
  | acceptFails hloop => exact h.acceptFails hloop _
  | io hloop hserver hnext => exact h.io hloop hserver hnext

end Inv

end Ucxpp.AcceptLoop
