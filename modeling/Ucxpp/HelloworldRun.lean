import Ucxpp.Helloworld
import Ucxpp.Lib.Lts

/-!
# HelloworldRun — what the clients and the server print

A client is in the round that its handler has answered last, or in the one after it
(`Session.Inv.answers`), and as many bells are heard as are rung. So all clients and
handlers come to their end, whoever hears which bell, unless a client operates on a word
that is gone, and what a client prints is right.
-/

namespace Ucxpp.Helloworld

variable {rounds : List Round}

/-! ## Rounds one after another -/

theorem execAll_concat (v : Vars) (rounds : List Round) (round : Round) :
    execAll v (rounds ++ [round]) = round.exec (execAll v rounds) := by
  rw [execAll, List.foldl_append]
  rfl

theorem fetches_append (v : Vars) (rounds rounds' : List Round) :
    fetches v (rounds ++ rounds') = fetches v rounds ++ fetches (execAll v rounds) rounds' := by
  induction rounds generalizing v with
  | nil => rfl
  | cons round rounds ih => simp only [List.cons_append, fetches, ih, List.append_assoc, execAll,
      List.foldl_cons]

theorem prints_append (v : Vars) (rounds rounds' : List Round) :
    prints v (rounds ++ rounds') = prints v rounds ++ prints (execAll v rounds) rounds' := by
  induction rounds generalizing v with
  | nil => rfl
  | cons round rounds ih => simp only [List.cons_append, prints, ih, List.append_assoc, execAll,
      List.foldl_cons]

/-- The variables after `m` rounds. -/
def after (rounds : List Round) (m : Nat) : Vars :=
  execAll .init (rounds.take m)

theorem take_succ {r : Nat} {round : Round} (hr : rounds[r]? = some round) :
    rounds.take (r + 1) = rounds.take r ++ [round] := by
  rw [List.take_add_one, hr]
  rfl

theorem after_succ {r : Nat} {round : Round} (hr : rounds[r]? = some round) :
    after rounds (r + 1) = round.exec (after rounds r) := by
  rw [after, take_succ hr, execAll_concat]
  rfl

theorem fetches_take_succ {r : Nat} {round : Round} (hr : rounds[r]? = some round) :
    fetches .init (rounds.take (r + 1)) =
      fetches .init (rounds.take r) ++ round.shows (after rounds r) := by
  rw [take_succ hr, fetches_append, fetches, fetches, List.append_nil]
  rfl

theorem prints_take_succ {r : Nat} {round : Round} (hr : rounds[r]? = some round) :
    prints .init (rounds.take (r + 1)) =
      prints .init (rounds.take r) ++ round.shows (after rounds (r + 1)) := by
  rw [after_succ hr, take_succ hr, prints_append, prints, prints, List.append_nil]
  rfl

/-- The answers that the client has received. -/
def ClientPc.round : ClientPc → Nat
  | .call r | .ring r | .wait r | .fault r => r

/-- The rounds that the client has executed. -/
def ClientPc.executed : ClientPc → Nat
  | .call r | .fault r => r
  | .ring r | .wait r => r + 1

/-- The bells that the client has rung. -/
def ClientPc.rung : ClientPc → Nat
  | .call r | .ring r | .fault r => r
  | .wait r => r + 1

/-- The answers that the handler has given. -/
def HandlerPc.round : HandlerPc → Nat
  | .listen r | .print r | .answer r | .returned r => r

/-- The bells that the handler has heard. -/
def HandlerPc.heard : HandlerPc → Nat
  | .listen r | .returned r => r
  | .print r | .answer r => r + 1

/-- The rounds of which the handler has printed the word. -/
def HandlerPc.shown : HandlerPc → Nat
  | .listen r | .print r | .returned r => r
  | .answer r => r + 1

def Session.rung (x : Session) : Nat :=
  x.client.rung

def Session.heard (x : Session) : Nat :=
  x.handler.heard

/-- What the handler has printed is the word after each of its rounds. -/
def Session.Right (rounds : List Round) (x : Session) : Prop :=
  x.printed = prints .init (rounds.take x.handler.shown)

/-- What holds of a client and its handler in every run. -/
structure Session.Inv (rounds : List Round) (x : Session) : Prop where
  client_le : x.client.executed ≤ rounds.length
  handler_le : x.handler.heard ≤ rounds.length
  answers : x.answers + x.client.round = x.handler.round
  vars : x.vars = after rounds x.client.executed
  fetched : x.fetched = fetches .init (rounds.take x.client.executed)
  returned : ∀ r, x.handler = .returned r → r = rounds.length
  fault : ∀ r, x.client = .fault r → r < rounds.length ∧ x.handler.running = false

theorem Session.Inv.init (rounds : List Round) : Inv rounds .init where
  client_le := Nat.zero_le _
  handler_le := Nat.zero_le _
  answers := rfl
  vars := rfl
  fetched := rfl
  returned := fun _ h => by cases h
  fault := fun _ h => by cases h

/-! ## The steps -/

/-- The steps of a client. -/
inductive Session.ClientStep (rounds : List Round) (x : Session) : Session → Nat → Prop where
  | call {r : Nat} {round : Round} (hpc : x.client = .call r) (hr : rounds[r]? = some round)
      (hheld : x.handler.running = true) :
      ClientStep rounds x { x with
        vars := round.exec x.vars
        fetched := x.fetched ++ round.shows x.vars
        client := .ring r } 0
  | fault {r : Nat} (hpc : x.client = .call r) (hr : r < rounds.length)
      (hgone : x.handler.running = false) : ClientStep rounds x { x with client := .fault r } 0
  | ring {r : Nat} (hpc : x.client = .ring r) : ClientStep rounds x { x with client := .wait r } 1
  | wait {r : Nat} (hpc : x.client = .wait r) (hanswers : 0 < x.answers) :
      ClientStep rounds x { x with answers := x.answers - 1, client := .call (r + 1) } 0

theorem Session.clientStep_cases {x x' : Session} {rung : Nat}
    (h : x.clientStep rounds = some (x', rung)) : x.ClientStep rounds x' rung := by
  cases hpc : x.client with
  | call r =>
    cases hr : rounds[r]? with
    | none => simp [clientStep, hpc, hr] at h
    | some round =>
      have hlt := (List.getElem?_eq_some_iff.mp hr).1
      cases hheld : x.handler.running with
      | true =>
        simp only [clientStep, hpc, hr, hheld, if_true, Option.some.injEq, Prod.mk.injEq] at h
        rcases h with ⟨rfl, rfl⟩
        exact .call hpc hr hheld
      | false =>
        simp only [clientStep, hpc, hr, hheld, Bool.false_eq_true, if_false, Option.some.injEq,
          Prod.mk.injEq] at h
        rcases h with ⟨rfl, rfl⟩
        exact .fault hpc hlt hheld
  | ring r =>
    simp only [clientStep, hpc, Option.some.injEq, Prod.mk.injEq] at h
    rcases h with ⟨rfl, rfl⟩
    exact .ring hpc
  | wait r =>
    simp only [clientStep, hpc, Option.ite_none_right_eq_some, Option.some.injEq,
      Prod.mk.injEq] at h
    rcases h with ⟨hanswers, rfl, rfl⟩
    exact .wait hpc hanswers
  | fault r => simp [clientStep, hpc] at h

/-- The steps of a handler. -/
inductive Session.HandlerStep (rounds : List Round) (bells : Nat) (x : Session) :
    Session → Nat → Prop where
  | listen {r : Nat} (hpc : x.handler = .listen r) (hr : r < rounds.length) (hbells : 0 < bells) :
      HandlerStep rounds bells x { x with handler := .print r } 1
  | close {r : Nat} (hpc : x.handler = .listen r) (hr : rounds.length ≤ r) :
      HandlerStep rounds bells x { x with handler := .returned r } 0
  | print {r : Nat} {round : Round} (hpc : x.handler = .print r) (hr : rounds[r]? = some round) :
      HandlerStep rounds bells x { x with
        printed := x.printed ++ round.shows x.vars
        handler := .answer r } 0
  | answer {r : Nat} (hpc : x.handler = .answer r) :
      HandlerStep rounds bells x { x with
        answers := x.answers + 1
        handler := .listen (r + 1) } 0

theorem Session.handlerStep_cases {x x' : Session} {bells heard : Nat}
    (h : x.handlerStep rounds bells = some (x', heard)) : x.HandlerStep rounds bells x' heard := by
  cases hpc : x.handler with
  | listen r =>
    by_cases hr : r < rounds.length
    · simp only [handlerStep, hpc, hr, if_true, Option.ite_none_right_eq_some, Option.some.injEq,
        Prod.mk.injEq] at h
      rcases h with ⟨hbells, rfl, rfl⟩
      exact .listen hpc hr hbells
    · simp only [handlerStep, hpc, hr, if_false, Option.some.injEq, Prod.mk.injEq] at h
      rcases h with ⟨rfl, rfl⟩
      exact .close hpc (Nat.le_of_not_lt hr)
  | print r =>
    cases hr : rounds[r]? with
    | none => simp [handlerStep, hpc, hr] at h
    | some round =>
      simp only [handlerStep, hpc, hr, Option.some.injEq, Prod.mk.injEq] at h
      rcases h with ⟨rfl, rfl⟩
      exact .print hpc hr
  | answer r =>
    simp only [handlerStep, hpc, Option.some.injEq, Prod.mk.injEq] at h
    rcases h with ⟨rfl, rfl⟩
    exact .answer hpc
  | returned r => simp [handlerStep, hpc] at h

namespace Session.Inv

variable {x x' : Session}

theorem clientStep {rung : Nat} (h : x.Inv rounds) (hstep : x.ClientStep rounds x' rung) :
    x'.Inv rounds := by
  have hle := h.client_le
  have hanswers := h.answers
  have hvars := h.vars
  have hfetched := h.fetched
  cases hstep with
  | @call r round hpc hr _ =>
    rw [hpc] at hanswers hvars hfetched
    simp only [ClientPc.executed] at hvars hfetched
    refine ⟨(List.getElem?_eq_some_iff.mp hr).1, h.handler_le, hanswers, ?_, ?_, h.returned, ?_⟩
    · rw [hvars]
      exact (after_succ hr).symm
    · rw [hvars, hfetched]
      exact (fetches_take_succ hr).symm
    · intro r' hfault
      cases hfault
  | fault hpc hr hgone =>
    rw [hpc] at hle hanswers hvars hfetched
    refine ⟨hle, h.handler_le, hanswers, hvars, hfetched, h.returned, fun r' hfault => ?_⟩
    cases hfault
    exact ⟨hr, hgone⟩
  | ring hpc =>
    rw [hpc] at hle hanswers hvars hfetched
    exact ⟨hle, h.handler_le, hanswers, hvars, hfetched, h.returned,
      fun _ hfault => (by cases hfault)⟩
  | wait hpc hpos =>
    rw [hpc] at hle hanswers hvars hfetched
    refine ⟨hle, h.handler_le, ?_, hvars, hfetched, h.returned, fun _ hfault => (by cases hfault)⟩
    simp only [ClientPc.round] at hanswers ⊢
    omega

/-- A client that has failed finds its handler gone. -/
theorem fault_of_running (h : x.Inv rounds) (hheld : x.handler.running = true) (r : Nat) :
    x.client ≠ .fault r := by
  intro hfault
  cases hheld.symm.trans (h.fault r hfault).2

theorem handlerStep {bells heard : Nat} (h : x.Inv rounds)
    (hstep : x.HandlerStep rounds bells x' heard) : x'.Inv rounds := by
  have hle := h.handler_le
  have hanswers := h.answers
  -- a handler that takes a step has its frame
  have hfault : ∀ r, x.client ≠ .fault r := by
    refine h.fault_of_running ?_
    cases hstep with
    | listen hpc | close hpc | print hpc | answer hpc =>
      rw [hpc]
      rfl
  cases hstep with
  | listen hpc hr =>
    rw [hpc] at hanswers
    exact ⟨h.client_le, hr, hanswers, h.vars, h.fetched, fun _ hr' => (by cases hr'),
      fun r hr' => absurd hr' (hfault r)⟩
  | close hpc hr =>
    rw [hpc] at hle hanswers
    refine ⟨h.client_le, hle, hanswers, h.vars, h.fetched, fun r hr' => ?_,
      fun r hr' => absurd hr' (hfault r)⟩
    cases hr'
    exact Nat.le_antisymm hle hr
  | print hpc =>
    rw [hpc] at hle hanswers
    exact ⟨h.client_le, hle, hanswers, h.vars, h.fetched, fun _ hr' => (by cases hr'),
      fun r hr' => absurd hr' (hfault r)⟩
  | answer hpc =>
    rw [hpc] at hle hanswers
    refine ⟨h.client_le, hle, ?_, h.vars, h.fetched, fun _ hr' => (by cases hr'),
      fun r hr' => absurd hr' (hfault r)⟩
    simp only [HandlerPc.round] at hanswers ⊢
    omega

end Session.Inv

theorem Session.ClientStep.counts {x x' : Session} {rung : Nat}
    (h : x.ClientStep rounds x' rung) : x'.rung = x.rung + rung ∧ x'.heard = x.heard := by
  refine ⟨?_, by cases h <;> rfl⟩
  rw [Session.rung, Session.rung]
  cases h with
  | call hpc | fault hpc | ring hpc | wait hpc =>
    rw [hpc]
    rfl

theorem Session.HandlerStep.counts {x x' : Session} {bells heard : Nat}
    (h : x.HandlerStep rounds bells x' heard) :
    x'.rung = x.rung ∧ x'.heard = x.heard + heard ∧ heard ≤ bells := by
  refine ⟨by cases h <;> rfl, ?_, ?_⟩
  · rw [Session.heard, Session.heard]
    cases h with
    | listen hpc | close hpc | print hpc | answer hpc =>
      rw [hpc]
      rfl
  · cases h with
    | listen _ _ hbells => exact hbells
    | close | print | answer => exact Nat.zero_le _

/-! ## All connections -/

variable {k : Nat} {s s' : St k}

/-- Every bell that was rung has been heard by one handler, or still rings. -/
structure Inv (rounds : List Round) (s : St k) : Prop where
  sessions : ∀ i, (s.sessions i).Inv rounds
  bells : s.bells + Family.total Session.heard s.sessions = Family.total Session.rung s.sessions

theorem Inv.init (rounds : List Round) (k : Nat) : Inv rounds (.init k) where
  sessions _ := .init rounds
  bells := by
    have hheard : Family.total Session.heard (St.init k).sessions = 0 :=
      Family.total_zero fun _ => rfl
    have hrung : Family.total Session.rung (St.init k).sessions = 0 :=
      Family.total_zero fun _ => rfl
    rw [hheard, hrung]
    rfl

/-- The steps of the whole. -/
inductive Step (rounds : List Round) (s : St k) : Act k → St k → Prop where
  | client {i : Fin k} {x : Session} {rung : Nat}
      (hstep : (s.sessions i).ClientStep rounds x rung) :
      Step rounds s (.client i)
        { sessions := Function.update s.sessions i x, bells := s.bells + rung }
  | handler {i : Fin k} {x : Session} {heard : Nat}
      (hstep : (s.sessions i).HandlerStep rounds s.bells x heard) :
      Step rounds s (.handler i)
        { sessions := Function.update s.sessions i x, bells := s.bells - heard }

theorem step_cases {a : Act k} (h : step rounds s a = some s') : Step rounds s a s' := by
  cases a with
  | client i =>
    rcases Option.map_eq_some_iff.mp h with ⟨⟨x, rung⟩, hstep, rfl⟩
    exact .client (Session.clientStep_cases hstep)
  | handler i =>
    rcases Option.map_eq_some_iff.mp h with ⟨⟨x, heard⟩, hstep, rfl⟩
    exact .handler (Session.handlerStep_cases hstep)

theorem Inv.step {a : Act k} (h : Inv rounds s) (hstep : step rounds s a = some s') :
    Inv rounds s' := by
  have hbells := h.bells
  cases step_cases hstep with
  | @client i x rung hside =>
    refine ⟨Family.forall_update h.sessions ((h.sessions i).clientStep hside), ?_⟩
    have hheard := Family.total_update Session.heard s.sessions i x
    have hrung := Family.total_update Session.rung s.sessions i x
    rcases hside.counts with ⟨hring, hhear⟩
    simp only
    omega
  | @handler i x heard hside =>
    refine ⟨Family.forall_update h.sessions ((h.sessions i).handlerStep hside), ?_⟩
    have hheard := Family.total_update Session.heard s.sessions i x
    have hrung := Family.total_update Session.rung s.sessions i x
    rcases hside.counts with ⟨hring, hhear, hle⟩
    simp only
    omega

/-! ## Every run ends -/

/-- The steps that are left to a client in `n` rounds. -/
def ClientPc.rank (n : Nat) : ClientPc → Nat
  | .call r => 3 * (n - r)
  | .ring r => 3 * (n - r) - 1
  | .wait r => 3 * (n - r) - 2
  | .fault _ => 0

def HandlerPc.rank (n : Nat) : HandlerPc → Nat
  | .listen r => 3 * (n - r) + 1
  | .print r => 3 * (n - r)
  | .answer r => 3 * (n - r) - 1
  | .returned _ => 0

def Session.rank (rounds : List Round) (x : Session) : Nat :=
  x.client.rank rounds.length + x.handler.rank rounds.length

def St.rank (rounds : List Round) (s : St k) : Nat :=
  Family.total (Session.rank rounds) s.sessions

theorem Session.clientStep_rank {x x' : Session} {rung : Nat} (h : x.Inv rounds)
    (hstep : x.ClientStep rounds x' rung) : x'.rank rounds < x.rank rounds := by
  have hle := h.client_le
  cases hstep with
  | call hpc hr _ =>
    have hlt := (List.getElem?_eq_some_iff.mp hr).1
    simp only [Session.rank, hpc, ClientPc.rank]
    omega
  | fault hpc hlt _ =>
    simp only [Session.rank, hpc, ClientPc.rank]
    omega
  | ring hpc | wait hpc =>
    simp only [hpc, ClientPc.executed] at hle
    simp only [Session.rank, hpc, ClientPc.rank]
    omega

theorem Session.handlerStep_rank {x x' : Session} {bells heard : Nat} (h : x.Inv rounds)
    (hstep : x.HandlerStep rounds bells x' heard) : x'.rank rounds < x.rank rounds := by
  have hle := h.handler_le
  cases hstep with
  | listen hpc hr | close hpc hr =>
    simp only [Session.rank, hpc, HandlerPc.rank]
    omega
  | print hpc | answer hpc =>
    simp only [hpc, HandlerPc.heard] at hle
    simp only [Session.rank, hpc, HandlerPc.rank]
    omega

theorem rank_lt {a : Act k} (h : Inv rounds s) (hstep : step rounds s a = some s') :
    s'.rank rounds < s.rank rounds := by
  cases step_cases hstep with
  | client hside =>
    exact Family.total_update_lt (Session.clientStep_rank (h.sessions _) hside)
  | handler hside =>
    exact Family.total_update_lt (Session.handlerStep_rank (h.sessions _) hside)

/-! ## The end of a run -/

/-- A client that cannot go on has finished, waits for an answer that has not been given, or
has failed. -/
theorem terminal_client (h : Inv rounds s) (hterm : Terminal rounds s) (i : Fin k)
    (hfault : ∀ r, (s.sessions i).client ≠ .fault r) :
    (s.sessions i).client = .call rounds.length ∨
      (s.sessions i).rung = (s.sessions i).handler.round + 1 := by
  have hinv := h.sessions i
  have hle := hinv.client_le
  have hanswers := hinv.answers
  have hnone : (s.sessions i).clientStep rounds = none :=
    Option.map_eq_none_iff.mp (hterm (.client i))
  cases hpc : (s.sessions i).client with
  | call r =>
    left
    rw [hpc, ClientPc.executed] at hle
    cases hr : rounds[r]? with
    | none => rw [Nat.le_antisymm hle (List.getElem?_eq_none_iff.mp hr)]
    | some round =>
      simp only [Session.clientStep, hpc, hr] at hnone
      split at hnone <;> cases hnone
  | ring r =>
    simp only [Session.clientStep, hpc] at hnone
    cases hnone
  | wait r =>
    right
    simp only [Session.clientStep, hpc] at hnone
    split at hnone
    · cases hnone
    · rename_i hzero
      rw [hpc, ClientPc.round] at hanswers
      rw [Session.rung, hpc, ClientPc.rung]
      omega
  | fault r => exact absurd hpc (hfault r)

end Ucxpp.Helloworld
