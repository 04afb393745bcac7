import Ucxpp.EventLoopHandles

/-!
# EventLoopContract — how the event loop is to be used

The conditions of `EventLoopTable` and `EventLoopWaits` are about the steps of `poll`, too,
which the user does not take. `Contract` is one on what the user does, and on what the kernel
reports: a channel is registered while its descriptor is not watched, as the coroutines of
`tcp_connection` and `tcp_listener` and the callback of `register_loop` do it, nothing that
`poll` has still to handle is taken away from it, no handle of a coroutine is left in a
callback that is registered for something else, and an event reports the direction that is
watched, not the other one, without `EPOLLERR`. Then the tables are in step, no wait is
forgotten, and none is resumed twice.
-/

namespace Ucxpp.EventLoop

/-- The events of the batch that `poll` has still to come to. -/
def Pc.rest : Pc → List (Option Fd × Events)
  | .batch rest => rest
  | .calling _ h | .running _ h | .returned _ h | .done h => h.rest
  | .outside | .aborted => []

/-- The event is for the direction for which its descriptor is watched, and for no other:
`EPOLLIN` or `EPOLLOUT` as it was registered, without `EPOLLERR`. `EPOLLHUP` may come with it. -/
def Agrees (s : State) (e : Option Fd × Events) : Prop :=
  ∀ fd, e.1 = some fd → ∃ d, s.epoll fd = some d ∧ e.2.only d

/-- `poll` has no event of the descriptor to come to. -/
def Unreported (s : State) (fd : Fd) : Prop :=
  ∀ e ∈ s.pc.rest, e.1 ≠ some fd

/-- What the user and the kernel keep to. -/
def Contract (s : State) : Act → Prop
  | .setCallback id d _ => ∀ w, ¬s.Waits id d w
  | .register id d _ => ∀ c, s.lock id = some c →
      s.epoll c.fd = none ∧ (c.callback d).handle = none
  | .await id _ _ => ∀ c, s.lock id = some c → s.epoll c.fd = none
  | .deregister id => ∀ c, s.lock id = some c → c.waiting = none ∧ Unreported s c.fd
  | .release id => ∀ c, s.lock id = some c → c.waiting = none → Unreported s c.fd
  | .epollWait batch => ∀ e ∈ batch, Agrees s e
  | .newChannel _ | .throw | .advance => True

/-- What is known of the event that `poll` handles: its descriptor is watched until a
callback has been called, and then nothing else is reported. -/
def Handled (s : State) : Pc → Prop
  | .calling .readable h => Agrees s (some h.fd, h.events)
  | .calling .writable h => h.events.epollErr = false ∧
      (h.events.epollOut = true → Agrees s (some h.fd, h.events))
  | .running d h | .returned d h => h.events.epollErr = false ∧
      (d = .readable → h.events.epollOut = false)
  | .outside | .batch _ | .done _ | .aborted => True

/-- The events of a batch are of different descriptors, which are watched. -/
structure Reported (s : State) : Prop where
  agrees : ∀ e ∈ s.pc.rest, Agrees s e
  nodup : (s.pc.rest.map Prod.fst).Nodup
  apart : ∀ h, s.pc.handling = some h → ∀ e ∈ h.rest, e.1 ≠ some h.fd
  handled : Handled s s.pc

/-- What holds of the loop while everybody keeps to the contract. -/
structure Calm (s : State) : Prop extends Reported s where
  good : Good s
  attended : Attended s

section

variable {s s' : State} {id : ChannelId} {fd : Fd} {c : Channel} {d : Direction} {h : Handling}
  {a : Act} {e : Option Fd × Events}

/-! ## Events that are still to come -/

theorem Agrees.of_epoll (hagrees : Agrees s e) (hsame : ∀ fd, e.1 = some fd →
    s'.epoll fd = s.epoll fd) : Agrees s' e := by
  intro fd hfd
  rw [hsame fd hfd]
  exact hagrees fd hfd

theorem Agrees.watched (hagrees : Agrees s e) (hfd : e.1 = some fd) : s.epoll fd ≠ none := by
  rcases hagrees fd hfd with ⟨d, hset, -⟩
  rw [hset]
  exact Option.some_ne_none d

theorem Agrees.noErr {events : Events} (hagrees : Agrees s (some fd, events)) :
    events.epollErr = false := by
  rcases hagrees fd rfl with ⟨d, -, honly⟩
  exact honly.2.1

/-- An event that is reported tells the direction. -/
theorem Agrees.direction {d' : Direction} {events : Events}
    (hagrees : Agrees s (some fd, events)) (hreports : events.reports d = true)
    (hset : s.epoll fd = some d') : d' = d := by
  rcases hagrees fd rfl with ⟨d₀, hset₀, honly⟩
  have hd : d₀ = d := by
    by_contra hne
    have hfalse := honly.2.2 d (Ne.symm hne)
    exact Bool.false_ne_true (hfalse.symm.trans hreports)
  rw [hset] at hset₀
  exact (Option.some.inj hset₀).trans hd

/-- The entries of a descriptor stay while neither the user nor `poll` is at its channel. -/
theorem epoll_step (hinv : Inv s) (hgood : Good s) (hwatched : s.epoll fd ≠ none)
    (htarget : ∀ id c, a.target = some id → s.lock id = some c → c.fd ≠ fd)
    (hpoll : a = .advance → ∀ h, s.pc.handling = some h → h.fd ≠ fd)
    (hstep : step s a = some s') : s'.epoll fd = s.epoll fd := by
  rcases Option.ne_none_iff_exists'.mp (hgood.2 fd hwatched) with ⟨i, hentry⟩
  rcases hinv.entry fd i hentry with ⟨-, c, hc, rfl⟩
  have hsame : SameAt c.fd s s' := by
    refine sameAt_step (i := i) hinv (fun j c' hj hne hfd => ?_) (fun htgt => ?_)
      (fun ha h hh hid => ?_) hstep
    · exact hne (hinv.unique j i c' c hj hc hfd)
    · exact htarget i c htgt hc rfl
    · rcases hinv.held h hh with ⟨c', hc', hfd⟩
      rw [hid, hc] at hc'
      obtain rfl := Option.some.inj hc'
      exact hpoll ha h hh hfd.symm
  exact hsame.2

/-- The events that are still to come stay as they are. -/
theorem Calm.agrees_step (hinv : Inv s) (hcalm : Calm s)
    (htarget : ∀ id c, a.target = some id → s.lock id = some c → Unreported s c.fd)
    (hpoll : a = .advance → ∀ h, s.pc.handling = some h → Unreported s h.fd)
    (hstep : step s a = some s') : ∀ e ∈ s.pc.rest, Agrees s' e := by
  intro e he
  refine (hcalm.agrees e he).of_epoll fun fd hfd => ?_
  refine epoll_step hinv hcalm.good ((hcalm.agrees e he).watched hfd) (fun id c htgt hc hsame => ?_)
    (fun ha h hh hsame => ?_) hstep
  · exact htarget id c htgt hc e he (hsame ▸ hfd)
  · exact hpoll ha h hh e he (hsame ▸ hfd)

/-- A descriptor that is not watched has no event. -/
theorem Calm.unreported_of_unwatched (hcalm : Calm s) (hfd : s.epoll fd = none) :
    Unreported s fd := by
  intro e he hsame
  exact (hcalm.agrees e he).watched hsame hfd

theorem rest_of_handling (hh : s.pc.handling = some h) : s.pc.rest = h.rest := by
  cases hpc : s.pc with
  | calling | running | returned | done =>
    rw [hpc] at hh
    cases hh
    rfl
  | outside | batch | aborted =>
    rw [hpc] at hh
    cases hh

theorem Calm.unreported_of_handling (hcalm : Calm s) (hh : s.pc.handling = some h) :
    Unreported s h.fd := by
  rw [Unreported, rest_of_handling hh]
  exact hcalm.apart h hh

/-! ## Steps -/

/-- Where the user runs, `poll` has nothing to say about the event that it handles. -/
theorem Handled.of_userRuns {pc : Pc} (hruns : pc.userRuns = true) (hhandled : Handled s pc) :
    Handled s' pc := by
  cases pc with
  | outside => trivial
  | running d h => exact hhandled
  | batch | calling | returned | done | aborted => cases hruns

/-- No write callback comes after the callback that runs. -/
theorem Calm.not_upcoming (hcalm : Calm s) (hpc : s.pc = .running d h ∨ s.pc = .returned d h) :
    ¬Upcoming h.id s.pc := by
  have hhandled := hcalm.handled
  rw [upcoming_called hpc]
  rintro ⟨rfl, hnext⟩
  rcases hpc with hpc | hpc
  · rw [hpc] at hhandled
    rcases hnext with hout | herr
    · exact Bool.false_ne_true ((hhandled.2 rfl).symm.trans hout)
    · exact Bool.false_ne_true (hhandled.1.symm.trans herr)
  · rw [hpc] at hhandled
    rcases hnext with hout | herr
    · exact Bool.false_ne_true ((hhandled.2 rfl).symm.trans hout)
    · exact Bool.false_ne_true (hhandled.1.symm.trans herr)

/-- The mask that makes `poll` call a callback, and the direction that is watched. -/
theorem Calm.calls (hcalm : Calm s) (hpc : s.pc = .calling d h)
    (hmask : h.events.reports d = true ∨ h.events.epollErr = true) :
    h.events.epollErr = false ∧ h.events.reports d = true ∧ Agrees s (some h.fd, h.events) := by
  have hhandled := hcalm.handled
  rw [hpc] at hhandled
  cases d with
  | readable =>
    have herr := Agrees.noErr hhandled
    exact ⟨herr, hmask.resolve_right (by rw [herr]; exact Bool.false_ne_true), hhandled⟩
  | writable =>
    have hout := hmask.resolve_right (by rw [hhandled.1]; exact Bool.false_ne_true)
    exact ⟨hhandled.1, hout, hhandled.2 hout⟩

theorem Calm.head_watched {events : Events} {rest : List (Option Fd × Events)} (hcalm : Calm s)
    (hpc : s.pc = .batch ((some fd, events) :: rest)) : s.epoll fd ≠ none := by
  have hagrees : Agrees s (some fd, events) := by
    apply hcalm.agrees
    rw [hpc]
    exact List.mem_cons_self
  exact hagrees.watched rfl

/-- Who keeps to the contract forgets no wait. -/
theorem Contract.attends (hinv : Inv s) (hcalm : Calm s) (hstep : step s a = some s')
    (hcontract : Contract s a) : Attends s a := by
  -- a wait whose descriptor is not watched has its write callback next
  have hupcoming : ∀ {i : ChannelId}, (∀ c, s.lock i = some c → s.epoll c.fd = none) →
      ∀ d w, s.Waits i d w → d = .writable ∧ Upcoming i s.pc := by
    rintro i hnone d w ⟨c, hc, hw⟩
    refine (hcalm.attended.2 i c d w hc hw).2.resolve_left fun hlisted => ?_
    cases (hnone c hc).symm.trans hlisted.1
  cases a with
  | setCallback id d callback => exact hcontract
  | register id d admits => exact hupcoming fun c hc => (hcontract c hc).1
  | deregister id =>
    rintro d w ⟨c, hc, hw⟩
    cases (hcontract c hc).1.symm.trans hw
  | newChannel | await | release | epollWait => trivial
  | throw =>
    cases step_cases hstep with
    | @throw d h hpc =>
      simp only [Attends, hpc]
      intro c d' w hc hw
      refine (hcalm.attended.2 h.id c d' w hc hw).2.resolve_right fun hup => ?_
      exact hcalm.not_upcoming (.inl hpc) hup.2
  | advance =>
    have hhandled := hcalm.handled
    cases hpc : s.pc with
    | outside | running | done | aborted => simp only [Attends, hpc]
    | batch rest =>
      cases rest with
      | nil => simp only [Attends, hpc]
      | cons e rest =>
        rcases e with ⟨_ | fd, events⟩
        · simp only [Attends, hpc]
        · simp only [Attends, hpc]
          exact hcalm.good.2 fd (hcalm.head_watched hpc)
    | calling d h =>
      simp only [Attends, hpc]
      rintro hmask d' w ⟨c, hc, hw⟩
      rcases hcalm.calls hpc hmask with ⟨-, hreports, hagrees⟩
      rcases (hcalm.attended.2 h.id c d' w hc hw).2 with hlisted | ⟨hd, hup⟩
      · rcases hinv.held h (congrArg Pc.handling hpc) with ⟨c', hc', hfd⟩
        rw [hc] at hc'
        obtain rfl := Option.some.inj hc'
        exact .inl (hagrees.direction hreports (hfd ▸ hlisted.1))
      · rw [hpc] at hup
        cases d with
        | readable => cases hup
        | writable => exact .inl hd
    | returned d h =>
      simp only [Attends, hpc]
      intro herr
      rw [hpc] at hhandled
      cases hhandled.1.symm.trans herr

/-- Who keeps to the contract keeps the tables in step. -/
theorem Contract.inStep (hcalm : Calm s) (hcontract : Contract s a) : InStep s a := by
  cases a with
  | register => exact fun c hc => (hcontract c hc).1
  | await => exact hcontract
  | newChannel | setCallback | deregister | release | throw | epollWait => trivial
  | advance =>
    have hhandled := hcalm.handled
    cases hpc : s.pc with
    | outside | running | calling | done | aborted => simp only [InStep, hpc]
    | batch rest =>
      cases rest with
      | nil => simp only [InStep, hpc]
      | cons e rest =>
        rcases e with ⟨_ | fd, events⟩
        · simp only [InStep, hpc]
        · simp only [InStep, hpc]
          exact hcalm.head_watched hpc
    | returned d h =>
      simp only [InStep, hpc]
      intro herr
      rw [hpc] at hhandled
      cases hhandled.1.symm.trans herr

/-- The user does not move `poll`. -/
theorem Reported.user (hrep : Reported s) (hruns : s.pc.userRuns = true) (hpc : s'.pc = s.pc)
    (hagrees : ∀ e ∈ s.pc.rest, Agrees s' e) : Reported s' := by
  constructor
  · rw [hpc]
    exact hagrees
  · rw [hpc]
    exact hrep.nodup
  · rw [hpc]
    exact hrep.apart
  · rw [hpc]
    exact hrep.handled.of_userRuns hruns

/-- `poll` goes on in the iteration for an event. -/
theorem Reported.within {h' : Handling} (hrep : Reported s) (hh : s.pc.handling = some h)
    (hh' : s'.pc.handling = some h') (hfd : h'.fd = h.fd) (hrest : h'.rest = h.rest)
    (hagrees : ∀ e ∈ s.pc.rest, Agrees s' e) (hhandled : Handled s' s'.pc) : Reported s' := by
  have hsame : s'.pc.rest = s.pc.rest := by
    rw [rest_of_handling hh, rest_of_handling hh', hrest]
  constructor
  · rw [hsame]
    exact hagrees
  · rw [hsame]
    exact hrep.nodup
  · intro h₁ hh₁
    obtain rfl := Option.some.inj (hh'.symm.trans hh₁)
    rw [hrest, hfd]
    exact hrep.apart h hh
  · exact hhandled

/-- A channel that a coroutine waits for is not destroyed when its owner lets it go. -/
theorem epoll_release (hc : s.lock id = some c) (hwaiting : c.waiting ≠ none) :
    ((s.setChannel id { c with owned := false }).drop id).epoll = s.epoll := by
  have hlock : (s.setChannel id { c with owned := false }).lock id =
      some { c with owned := false } := by
    rw [lock_setChannel hc, if_pos rfl]
    exact if_pos (alive_of_lock hc)
  simp only [State.drop, hlock]
  rw [if_neg fun hfree => hwaiting hfree.2.1]
  rfl

/-- What is known of a batch is known after a step. -/
theorem Reported.step (hinv : Inv s) (hcalm : Calm s) (hcontract : Contract s a)
    (hstep : step s a = some s') : Reported s' := by
  have hrep := hcalm.toReported
  have huser : ∀ {i : ChannelId}, a.target = some i →
      (∀ c, s.lock i = some c → Unreported s c.fd) → a ≠ .advance →
        ∀ e ∈ s.pc.rest, Agrees s' e := by
    intro i htgt hunreported hne
    refine hcalm.agrees_step hinv (fun j c hj hc => ?_) (fun ha => absurd ha hne) hstep
    rw [htgt] at hj
    obtain rfl := Option.some.inj hj
    exact hunreported c hc
  have hpoll : a.target = none → ∀ e ∈ s.pc.rest, Agrees s' e := by
    intro htgt
    refine hcalm.agrees_step hinv (fun j c hj _ => ?_) (fun _ h hh => ?_) hstep
    · cases htgt.symm.trans hj
    · exact hcalm.unreported_of_handling hh
  cases step_cases hstep with
  | newChannel hruns _ => exact hrep.user hruns rfl hrep.agrees
  | setCallback _ hruns _ => exact hrep.user hruns rfl hrep.agrees
  | register _ hruns =>
    refine hrep.user hruns (pc_registerChannel _) (huser rfl (fun c hc => ?_) (fun h => by cases h))
    exact hcalm.unreported_of_unwatched (hcontract c hc).1
  | deregister _ hruns =>
    exact hrep.user hruns rfl (huser rfl (fun c hc => (hcontract c hc).2) (fun h => by cases h))
  | await _ hruns _ =>
    refine hrep.user hruns (pc_awaitSuspend _) (huser rfl (fun c hc => ?_) (fun h => by cases h))
    exact hcalm.unreported_of_unwatched (hcontract c hc)
  | @release id c hc hruns =>
    refine hrep.user hruns pc_drop ?_
    by_cases hwaiting : c.waiting = none
    · refine huser rfl (fun c' hc' => ?_) (fun h => by cases h)
      obtain rfl := Option.some.inj (hc.symm.trans hc')
      exact hcontract c hc hwaiting
    · intro e he
      refine (hrep.agrees e he).of_epoll fun fd _ => ?_
      rw [epoll_release hc hwaiting]
  | throw hpc =>
    constructor
    · intro e he
      cases he
    · exact List.nodup_nil
    · intro h hh e he
      cases hh
      cases he
    · trivial
  | @epollWait batch _ _ =>
    rcases Option.ite_none_right_eq_some.mp hstep with ⟨⟨-, hnodup, -⟩, -⟩
    constructor
    · exact hcontract
    · exact hnodup
    · intro h hh
      cases hh
    · trivial
  | batchEnd _ =>
    constructor
    · intro e he
      cases he
    · exact List.nodup_nil
    · intro h hh
      cases hh
    · trivial
  | @event fd events rest hpc =>
    have hagrees := hrep.agrees
    have hnodup := hrep.nodup
    rw [hpc] at hagrees hnodup
    rcases List.nodup_cons.mp hnodup with ⟨hnew, hrest⟩
    have htail : ∀ e ∈ rest, Agrees s e := fun e he => hagrees e (List.mem_cons_of_mem _ he)
    cases fd with
    | none =>
      constructor
      · exact htail
      · exact hrest
      · intro h hh
        cases hh
      · trivial
    | some fd =>
      -- the descriptor is watched, so it has an entry
      rcases Option.ne_none_iff_exists'.mp (hcalm.good.2 fd (hcalm.head_watched hpc)) with
        ⟨i, hentry⟩
      rcases hinv.entry fd i hentry with ⟨-, c, hc, -⟩
      rw [event_of_entry hentry hc]
      constructor
      · exact htail
      · exact hrest
      · intro h hh e he hfd
        cases hh
        exact hnew (List.mem_map.mpr ⟨e, he, hfd⟩)
      · exact hagrees _ List.mem_cons_self
  | @call d h c hpc hmask hc =>
    have hh : s.pc.handling = some h := congrArg Pc.handling hpc
    rcases hcalm.calls hpc hmask with ⟨herr, hreports, hagrees⟩
    have hout : d = .readable → h.events.epollOut = false := by
      rintro rfl
      rcases hagrees h.fd rfl with ⟨d₀, hset, honly⟩
      have hd := hagrees.direction hreports hset
      exact honly.2.2 .writable (by rw [hd]; exact fun h => by cases h)
    refine hrep.within hh (handling_callback hinv hc) rfl rfl (hpoll rfl) ?_
    rcases pc_callback (d := d) hinv hc with hpc' | hpc'
    · rw [hpc']
      exact ⟨herr, hout⟩
    · rw [hpc']
      exact ⟨herr, hout⟩
  | @skip d h hpc hmask =>
    have hhandled := hrep.handled
    rw [hpc] at hhandled
    refine hrep.within (congrArg Pc.handling hpc) handling_next rfl rfl hrep.agrees ?_
    cases d with
    | readable => exact ⟨Agrees.noErr hhandled, fun _ => hhandled⟩
    | writable => trivial
  | @ret d h hpc =>
    have hhandled := hrep.handled
    rw [hpc] at hhandled
    exact hrep.within (congrArg Pc.handling hpc) rfl rfl rfl hrep.agrees hhandled
  | @returned d h hpc =>
    have hhandled := hrep.handled
    rw [hpc] at hhandled
    refine hrep.within (congrArg Pc.handling hpc) handling_next rfl rfl (hpoll rfl) ?_
    cases d with
    | readable =>
      refine ⟨hhandled.1, fun hout => ?_⟩
      cases (hhandled.2 rfl).symm.trans hout
    | writable => trivial
  | @done h hpc =>
    have hrest := rest_of_handling (congrArg Pc.handling hpc)
    have hpc' : (State.drop { s with pc := .batch h.rest } h.id).pc = .batch h.rest := pc_drop
    have hagrees := hpoll rfl
    rw [hrest] at hagrees
    have hnodup := hrep.nodup
    rw [hrest] at hnodup
    constructor
    · rw [hpc']
      exact hagrees
    · rw [hpc']
      exact hnodup
    · rw [hpc']
      intro h' hh'
      cases hh'
    · rw [hpc']
      trivial

theorem Calm.step (hinv : Inv s) (hcalm : Calm s) (hcontract : Contract s a)
    (hstep : step s a = some s') : Calm s' where
  toReported := Reported.step hinv hcalm hcontract hstep
  good := (good_step hinv hcalm.good hstep).mpr (hcontract.inStep hcalm)
  attended := (attended_step hinv hcalm.attended hstep).mpr (hcontract.attends hinv hcalm hstep)

/-! ## Handles -/

end

/-! ## Runs -/

end Ucxpp.EventLoop
