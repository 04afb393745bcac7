import Ucxpp.EventLoopTable

/-!
# EventLoopRegister — a registration that fails

`register_channel` changes the map before the system call: `insert` keeps an
entry that is already there, and when `EPOLL_CTL_ADD` fails the `catch` block
erases by descriptor, whoever made the entry. So the call takes back exactly what
it did iff there was no entry before; where there was one, the channel that it
belonged to has lost its next event.

The runs are those of `EventLoop`, with one freedom more: several coroutines may
wait for one channel, and each stores its handle before it registers.
-/

namespace Ucxpp.EventLoop

open Function (update)

/-! ## The runs -/

/-- A step of the loop, or the first statement of an `await_suspend`, which stores
the handle of its coroutine whoever waits for the channel. -/
inductive Move where
  | act (a : Act)
  | setHandle (id : ChannelId) (d : Direction) (w : WaitId)
deriving DecidableEq, Repr

def move (s : State) : Move → Option State
  | .act a => step s a
  | .setHandle id d w =>
    match s.lock id with
    | some c =>
      if s.pc.userRuns then some (s.setChannel id (c.setCallback d (.resume w))) else none
    | none => none

theorem Inv.move {s s' : State} {m : Move} (hinv : Inv s) (hmove : move s m = some s') :
    Inv s' := by
  cases m with
  | act a => exact hinv.step hmove
  | setHandle id d w =>
    simp only [EventLoop.move] at hmove
    split at hmove
    · rename_i c hc
      rcases Option.ite_none_right_eq_some.mp hmove with ⟨-, hs⟩
      have hset : Inv (s.setChannel id (c.setCallback d (.resume w))) :=
        hinv.setChannel _ hc (fd_setCallback _) (loop_setCallback _)
          ((alive_setCallback _).trans (alive_of_lock hc))
      exact Option.some.inj hs ▸ hset
    · cases hmove

theorem inv_of_moves {s : State} {ms : List Move} (hrun : Lts.run move .init ms = some s) :
    Inv s :=
  Lts.run_invariant Inv (fun _ _ _ hinv _ hmove => hinv.move hmove) inv_init
    (Lts.stepsMeet_true _ _) hrun

/-! ## The calls -/

/-- A call of `register_read` or `register_write`: the state in which it is made,
the channel with its descriptor, the direction, and whether the kernel admits a
descriptor that is not in the epoll set. -/
structure Registration where
  before : State
  id : ChannelId
  fd : Fd
  d : Direction
  admits : Bool

/-- The state that the call leaves. -/
def Registration.after (call : Registration) : State :=
  (call.before.registerChannel call.id call.fd call.d call.admits).1

/-- `check_errno` throws. -/
def Registration.throws (call : Registration) : Prop :=
  (call.before.registerChannel call.id call.fd call.d call.admits).2 = false

/-- `EPOLL_CTL_ADD` fails: the descriptor is in the set, or for another reason. -/
def Registration.addFails (call : Registration) : Prop :=
  call.before.epoll call.fd ≠ none ∨ call.admits = false

/-- The call that a move makes. `await_suspend` has stored its handle by then. -/
def Move.registration (s : State) : Move → Option Registration
  | .act (.register id d admits) => (s.lock id).map fun c => ⟨s, id, c.fd, d, admits⟩
  | .act (.await id d admits) =>
    (s.lock id).map fun c =>
      ⟨s.newWait.setChannel id (c.setCallback d (.resume s.nextWait)), id, c.fd, d, admits⟩
  | .act (.newChannel _) | .act (.setCallback ..) | .act (.deregister _) | .act (.release _)
  | .act .throw | .act (.epollWait _) | .act .advance | .setHandle .. => none

/-- The event is for this direction alone. -/
def Events.only (self : Events) (d : Direction) : Prop :=
  self.reports d = true ∧ self.epollErr = false ∧ ∀ d', d' ≠ d → self.reports d' = false

theorem exists_only (d : Direction) : ∃ events : Events, events.only d := by
  cases d with
  | readable =>
    refine ⟨⟨true, false, false, false⟩, rfl, rfl, fun d' hd => ?_⟩
    cases d' with
    | readable => exact absurd rfl hd
    | writable => rfl
  | writable =>
    refine ⟨⟨false, true, false, false⟩, rfl, rfl, fun d' hd => ?_⟩
    cases d' with
    | readable => rfl
    | writable => exact absurd rfl hd

/-- From the event to the callback of a direction. -/
def toCallback : Direction → List Act
  | .readable => [.advance, .advance]
  | .writable => [.advance, .advance, .advance]

/-- The descriptor is watched for the direction, and when `poll` comes to an event that
reports this direction alone, without `EPOLLERR`, it resumes the coroutine of the wait.
An event with neither `EPOLLIN` nor `EPOLLOUT` nor `EPOLLERR` resumes nobody. -/
def State.GetsEvent (s : State) (fd : Fd) (d : Direction) (w : WaitId) : Prop :=
  s.epoll fd = some d ∧ ∀ events rest, events.only d → ∃ s',
    Lts.run step { s with pc := .batch ((some fd, events) :: rest) } (toCallback d) = some s' ∧
      s'.log = s.log ++ [.resumed w]

/-- The call has left the loop as it was, and every wait gets the event that it
would have got. -/
structure Registration.Undone (call : Registration) : Prop where
  channels : call.after.channels = call.before.channels
  epoll : call.after.epoll = call.before.epoll
  waits : ∀ fd d w, call.before.GetsEvent fd d w → call.after.GetsEvent fd d w

/-! ## One call -/

section

variable {call : Registration}

theorem throws_iff : call.throws ↔ call.addFails := by
  unfold Registration.throws Registration.addFails
  rw [registerChannel_eq]
  split
  · rename_i hok
    refine iff_of_false (fun h => nomatch h) ?_
    rintro (hset | hrefused)
    · exact hset hok.1
    · exact Bool.false_ne_true (hrefused.symm.trans hok.2)
  · rename_i hfails
    refine iff_of_true rfl ?_
    by_contra hnot
    rw [not_or, ne_eq, not_not, Bool.not_eq_false] at hnot
    exact hfails hnot

/-- What is left by a call that throws. -/
theorem after_of_throws (h : call.throws) : call.after = call.before.erase call.fd := by
  unfold Registration.throws at h
  unfold Registration.after
  rw [registerChannel_eq] at h ⊢
  split
  · rename_i hok
    rw [if_pos hok] at h
    cases h
  · rfl

/-- Erasing an entry that is not there changes nothing. -/
theorem erase_of_absent {s : State} {fd : Fd} (h : s.channels fd = none) : s.erase fd = s := by
  have hsame : update s.channels fd none = s.channels := by
    rw [← h]
    exact Function.update_eq_self fd s.channels
  rw [State.erase, hsame]

/-- A call that throws undoes what it did exactly if there was no entry. -/
theorem undone_iff (h : call.throws) : call.Undone ↔ call.before.channels call.fd = none := by
  constructor
  · intro hundone
    have hentry := congrFun hundone.channels call.fd
    rw [after_of_throws h, channels_erase, if_pos rfl] at hentry
    exact hentry.symm
  · intro hnone
    have hsame : call.after = call.before := (after_of_throws h).trans (erase_of_absent hnone)
    constructor
    · rw [hsame]
    · rw [hsame]
    · intro fd d w hgets
      rw [hsame]
      exact hgets

/-- `poll` asserts that it finds the entry. -/
theorem event_of_absent {s : State} {fd : Fd} (h : s.channels fd = none) (events : Events)
    (rest : List (Option Fd × Events)) :
    step { s with pc := .batch ((some fd, events) :: rest) } .advance =
      some { s with pc := .aborted } := by
  simp only [step, State.advance, State.event, h]

/-- After a call that throws, the next event of the descriptor fails the assertion:
no wait gets it. -/
theorem event_lost (h : call.throws) (d : Direction) (w : WaitId) :
    ¬call.after.GetsEvent call.fd d w := by
  rintro ⟨-, hgets⟩
  have habsent : call.after.channels call.fd = none := by
    rw [after_of_throws h, channels_erase, if_pos rfl]
  rcases exists_only d with ⟨events, honly⟩
  rcases hgets events [] honly with ⟨s', hrun, -⟩
  -- the thread is stuck behind the failed assertion
  cases d with
  | readable | writable =>
    rcases Lts.run_cons_some hrun with ⟨s₁, h₁, hrest⟩
    rw [event_of_absent habsent] at h₁
    obtain rfl := Option.some.inj h₁
    rcases Lts.run_cons_some hrest with ⟨s₂, h₂, -⟩
    cases h₂

end

/-! ## Runs -/

/-- A registration of the move that throws leaves the loop as it was. -/
def RegistrationUndone (s : State) (m : Move) : Prop :=
  ∀ call, m.registration s = some call → call.throws → call.Undone

/-- `EPOLL_CTL_ADD` fails only for a descriptor that has no entry in `channels_`. -/
def EntryFree (s : State) (m : Move) : Prop :=
  ∀ call, m.registration s = some call → call.addFails →
    call.before.channels call.fd = none

theorem registrationUndone_iff_entryFree (s : State) (m : Move) :
    RegistrationUndone s m ↔ EntryFree s m := by
  constructor
  · intro hundone call hcall hfails
    have hthrows := throws_iff.mpr hfails
    exact (undone_iff hthrows).mp (hundone call hcall hthrows)
  · intro hfree call hcall hthrows
    exact (undone_iff hthrows).mpr (hfree call hcall (throws_iff.mp hthrows))

/-- The tables of a call are those of the state that the move finds. -/
theorem registration_tables {s : State} {m : Move} {call : Registration}
    (hcall : m.registration s = some call) :
    call.before.channels = s.channels ∧ call.before.epoll = s.epoll := by
  cases m with
  | setHandle id d w => cases hcall
  | act a =>
    cases a with
    | register id d admits | await id d admits =>
      rcases Option.map_eq_some_iff.mp hcall with ⟨c, -, rfl⟩
      exact ⟨rfl, rfl⟩
    | newChannel | setCallback | deregister | release | throw | epollWait | advance => cases hcall

/-- In a state that a run reaches, a failure for another reason than a watched
descriptor finds no entry. -/
theorem entryFree_of_unwatched {s : State} {ms : List Move} {m : Move}
    (hrun : Lts.run move .init ms = some s)
    (hfree : ∀ call, m.registration s = some call → s.epoll call.fd = none) : EntryFree s m := by
  intro call hcall _
  rw [(registration_tables hcall).1]
  cases hentry : s.channels call.fd with
  | none => rfl
  | some id => exact absurd (hfree call hcall) ((inv_of_moves hrun).entry call.fd id hentry).1

/-- In a run each registration that throws leaves the tables as they were, and with
them every pending wait its event, iff `EPOLL_CTL_ADD` fails only for descriptors
without an entry. -/
theorem registrations_undone_iff (ms : List Move) :
    Lts.StepsMeet move RegistrationUndone .init ms ↔ Lts.StepsMeet move EntryFree .init ms := by
  constructor
  · intro hmeet
    exact hmeet.mono fun s m => (registrationUndone_iff_entryFree s m).mp
  · intro hmeet
    exact hmeet.mono fun s m => (registrationUndone_iff_entryFree s m).mpr

/-! ### A wait for the other direction -/

/-- A receive waits for the channel. -/
def receiveWaits : List Move :=
  [.act (.newChannel 5), .act (.await 0 .readable true)]

/-- `register_write` for the same channel. -/
def registerWrite : Move :=
  .act (.register 0 .writable true)

/-- The receive has its event before the call and loses it by the call: `poll`
aborts at the next event of the descriptor. -/
theorem pending_wait_lost :
    ∃ s call, Lts.run move .init receiveWaits = some s ∧
      registerWrite.registration s = some call ∧ call.throws ∧
      call.before.GetsEvent 5 .readable 0 ∧ ¬call.after.GetsEvent 5 .readable 0 ∧
      ¬Lts.StepsMeet move RegistrationUndone .init (receiveWaits ++ [registerWrite]) ∧
      ∃ t, Lts.run move .init (receiveWaits ++
        [registerWrite, .act (.epollWait [readEvent 5]), .act .advance]) = some t ∧
        t.pc = .aborted := by
  refine ⟨_, _, rfl, rfl, rfl, ⟨rfl, ?_⟩, ?_, ?_, _, rfl, rfl⟩
  · rintro ⟨epollIn, epollOut, epollErr, epollHup⟩ rest ⟨hin, -, -⟩
    obtain rfl : epollIn = true := hin
    exact ⟨_, rfl, rfl⟩
  · apply event_lost
    rfl
  · intro hmeet
    have hcall := ((hmeet.2 _ rfl).2 _ rfl).1 _ rfl rfl
    have hentry := congrFun hcall.channels 5
    cases hentry

end Ucxpp.EventLoop
