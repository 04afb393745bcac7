import Ucxpp.EventLoopFrame
import Ucxpp.EventLoopResume
import Ucxpp.EventLoopRegister

/-!
# EventLoopWaits — no wait is forgotten

A coroutine that waits for a channel is resumed only if `poll` calls the callback that holds
its handle. For that the descriptor has to be in both tables, for the direction of the wait.
The one exception is a wait for writing whose channel has an event that calls both callbacks:
the read callback takes the descriptor out of the tables, and the write callback comes next.

`Attended` says that it is so for every pending wait, and `Attends` which steps keep it so.
-/

namespace Ucxpp.EventLoop

/-- A coroutine waits for the channel. -/
def State.Waits (s : State) (id : ChannelId) (d : Direction) (w : WaitId) : Prop :=
  ∃ c, s.lock id = some c ∧ c.waiting = some (d, w)

/-- The descriptor is in both tables. -/
def Listed (s : State) (id : ChannelId) (fd : Fd) (d : Direction) : Prop :=
  s.epoll fd = some d ∧ s.channels fd = some id

/-- The iteration of `poll` for the channel is on its way to the write callback. -/
def Upcoming (id : ChannelId) : Pc → Prop
  | .running .readable h | .returned .readable h | .calling .writable h =>
    h.id = id ∧ (h.events.epollOut = true ∨ h.events.epollErr = true)
  | .running .writable _ | .returned .writable _ | .calling .readable _ | .outside | .batch _
  | .done _ | .aborted => False

/-- The coroutine that waits for the channel is going to be resumed. -/
def AttendedAt (s : State) (id : ChannelId) : Prop :=
  ∀ c d w, s.lock id = some c → c.waiting = some (d, w) →
    c.callback d = .resume w ∧ (Listed s id c.fd d ∨ d = .writable ∧ Upcoming id s.pc)

/-- No wait is forgotten, and `poll` has not failed. -/
def Attended (s : State) : Prop :=
  s.pc ≠ .aborted ∧ ∀ id, AttendedAt s id

/-- A handle is not overwritten while its wait is pending. The user does not register or
deregister a channel with a pending wait, unless its write callback comes next, and no
exception leaves the callback before that. `poll` finds the entry of each event, calls a
callback that the pending wait is not for only if it calls the one it is for afterwards, and
erases the entry under `EPOLLERR` only if no wait has been added. -/
def Attends (s : State) : Act → Prop
  | .setCallback id d _ => ∀ w, ¬s.Waits id d w
  | .register id _ _ | .deregister id => ∀ d w, s.Waits id d w → d = .writable ∧ Upcoming id s.pc
  | .throw =>
    match s.pc with
    | .running _ h => ∀ c d w, s.lock h.id = some c → c.waiting = some (d, w) →
        Listed s h.id c.fd d
    | .outside | .batch _ | .calling .. | .returned .. | .done _ | .aborted => True
  | .advance =>
    match s.pc with
    | .batch ((some fd, _) :: _) => s.channels fd ≠ none
    | .calling d h => h.events.reports d = true ∨ h.events.epollErr = true →
        ∀ d' w, s.Waits h.id d' w →
          d' = d ∨ d' = .writable ∧ (h.events.epollOut = true ∨ h.events.epollErr = true)
    | .returned d h => h.events.epollErr = true →
        ∀ d' w, s.Waits h.id d' w → d' = .writable ∧ d = .readable
    | .batch [] | .batch ((none, _) :: _) | .outside | .running .. | .done _ | .aborted => True
  | .newChannel _ | .await .. | .release _ | .epollWait _ => True

section

variable {s s' : State} {i id : ChannelId} {c : Channel} {d : Direction} {h : Handling} {a : Act}

theorem waits_iff {w : WaitId} (hc : s.lock id = some c) :
    s.Waits id d w ↔ c.waiting = some (d, w) := by
  constructor
  · rintro ⟨c', hc', hw⟩
    obtain rfl := Option.some.inj (hc.symm.trans hc')
    exact hw
  · intro hw
    exact ⟨c, hc, hw⟩

/-! ## The other channels -/

theorem Upcoming.handling {pc : Pc} (hup : Upcoming id pc) :
    ∃ h, pc.handling = some h ∧ h.id = id := by
  unfold Upcoming at hup
  split at hup
  · exact ⟨_, rfl, hup.1⟩
  · exact ⟨_, rfl, hup.1⟩
  · exact ⟨_, rfl, hup.1⟩
  all_goals cases hup

/-- Where the user runs, it is the read callback that the write callback follows. -/
theorem Upcoming.running {pc : Pc} (hup : Upcoming id pc) (hruns : pc.userRuns = true) :
    ∃ h, pc = .running .readable h ∧ h.id = id := by
  unfold Upcoming at hup
  split at hup
  · exact ⟨_, rfl, hup.1⟩
  · cases hruns
  · cases hruns
  all_goals cases hup

/-- A channel that the step does not name was there before, or is new. -/
theorem lock_other (hstep : step s a = some s') (htarget : a.target ≠ some i)
    (hpoll : a = .advance → ∀ h, s.pc.handling = some h → h.id ≠ i) (hc : s'.lock i = some c) :
    s.lock i = some c ∨ c = .new c.fd true := by
  have hne : ∀ {j : ChannelId}, a.target = some j → i ≠ j := by
    rintro j hj rfl
    exact htarget hj
  cases step_cases hstep with
  | newChannel _ _ =>
    rcases lock_eq_some.mp hc with ⟨hget, halive⟩
    rcases Trace.getElem?_concat.mp hget with hget | ⟨-, rfl⟩
    · exact .inl (lock_eq_some.mpr ⟨hget, halive⟩)
    · exact .inr rfl
  | setCallback _ _ _ => exact .inl ((lock_setChannel_ne (hne rfl)).symm.trans hc)
  | register _ _ => exact .inl ((lock_registerChannel _).symm.trans hc)
  | deregister _ _ => exact .inl hc
  | await _ _ _ => exact .inl ((lock_awaitSuspend_ne (hne rfl) _).symm.trans hc)
  | release _ _ =>
    exact .inl (((lock_drop_ne (hne rfl)).trans (lock_setChannel_ne (hne rfl))).symm.trans hc)
  | throw _ => exact .inl hc
  | epollWait _ _ => exact .inl hc
  | batchEnd _ => exact .inl hc
  | event _ => exact .inl (lock_event.symm.trans hc)
  | @call d h c hpc _ _ =>
    have hi : i ≠ h.id := (hpoll rfl h (congrArg Pc.handling hpc)).symm
    exact .inl ((lock_callback_ne hi).symm.trans hc)
  | skip _ _ => exact .inl hc
  | ret _ => exact .inl hc
  | returned _ =>
    refine .inl (Eq.trans ?_ hc)
    split <;> rfl
  | @done h hpc =>
    have hi : i ≠ h.id := (hpoll rfl h (congrArg Pc.handling hpc)).symm
    have hdrop := lock_drop_ne (s := { s with pc := .batch h.rest }) hi
    exact .inl (hdrop.symm.trans hc)

/-- What a step does to a channel that it does not name. -/
theorem attended_other (hinv : Inv s) (hstep : step s a = some s') (htarget : a.target ≠ some i)
    (hpoll : a = .advance ∨ a = .throw → ∀ h, s.pc.handling = some h → h.id ≠ i)
    (hat : AttendedAt s i) : AttendedAt s' i := by
  intro c d w hc hw
  have hold : s.lock i = some c := by
    refine (lock_other hstep htarget (fun ha => hpoll (.inl ha)) hc).resolve_right fun hnew => ?_
    rw [hnew] at hw
    cases hw
  rcases hat c d w hold hw with ⟨hcb, hlisted | ⟨hd, hup⟩⟩
  · have hsame : SameAt c.fd s s' := by
      refine sameAt_step hinv (fun j e he hj hfd => ?_) htarget (fun ha => hpoll (.inl ha)) hstep
      exact hj (hinv.unique j i e c he hold hfd)
    exact ⟨hcb, .inl ⟨hsame.2.trans hlisted.1, hsame.1.trans hlisted.2⟩⟩
  · -- `poll` is in the iteration for the channel, and stays where it is
    rcases hup.handling with ⟨h, hh, hid⟩
    have hadvance : a ≠ .advance := fun ha => hpoll (.inl ha) h hh hid
    have hthrow : a ≠ .throw := fun ha => hpoll (.inr ha) h hh hid
    have houtside : s.pc ≠ .outside := by
      intro hout
      rw [hout] at hh
      cases hh
    rw [pc_step hadvance hthrow houtside hstep]
    exact ⟨hcb, .inr ⟨hd, hup⟩⟩

/-- Only one channel is to be looked at. -/
theorem attended_iff_at (hg : Attended s) (hpc : s'.pc ≠ .aborted)
    (hothers : ∀ i, i ≠ id → AttendedAt s i → AttendedAt s' i) :
    Attended s' ↔ AttendedAt s' id := by
  constructor
  · intro hg'
    exact hg'.2 id
  · intro hat
    refine ⟨hpc, fun i => ?_⟩
    by_cases hi : i = id
    · exact hi ▸ hat
    · exact hothers i hi (hg.2 i)

/-- A live channel, looked at alone. -/
theorem attendedAt_iff (hc : s.lock id = some c) : AttendedAt s id ↔
    ∀ d w, c.waiting = some (d, w) →
      c.callback d = .resume w ∧ (Listed s id c.fd d ∨ d = .writable ∧ Upcoming id s.pc) := by
  constructor
  · intro hat d w hw
    exact hat c d w hc hw
  · intro hat c' d w hc' hw
    obtain rfl := Option.some.inj (hc.symm.trans hc')
    exact hat d w hw

/-! ## The code of the user -/

/-- The user may replace a callback that no wait has stored. -/
theorem attendedAt_setCallback {callback : Callback} (hc : s.lock id = some c)
    (hcallback : callback.handle = none) (hat : AttendedAt s id) :
    AttendedAt (s.setChannel id (c.setCallback d callback)) id ↔
      ∀ w, c.waiting ≠ some (d, w) := by
  have hset : (s.setChannel id (c.setCallback d callback)).lock id =
      some (c.setCallback d callback) := by
    rw [lock_setChannel hc, if_pos rfl,
      if_pos ((alive_setCallback callback).trans (alive_of_lock hc))]
  rw [attendedAt_iff hset, waiting_setCallback, fd_setCallback]
  constructor
  · intro hat' w hw
    have hcb := (hat' d w hw).1
    rw [callback_setCallback, if_pos rfl] at hcb
    rw [hcb] at hcallback
    cases hcallback
  · intro hnone d' w hw
    have hd : d' ≠ d := by
      rintro rfl
      exact hnone w hw
    rw [callback_setCallback, if_neg hd]
    exact hat c d' w hc hw

/-- A registration never helps a pending wait: its descriptor is watched, and then the
entry is erased. -/
theorem attendedAt_registerChannel {admits : Bool} (hc : s.lock id = some c)
    (hat : AttendedAt s id) :
    AttendedAt (s.registerChannel id c.fd d admits).1 id ↔
      ∀ d' w, c.waiting = some (d', w) → d' = .writable ∧ Upcoming id s.pc := by
  rw [attendedAt_iff ((lock_registerChannel admits).trans hc), pc_registerChannel]
  constructor
  · intro hat' d' w hw
    rcases (hat' d' w hw).2 with ⟨-, hentry⟩ | hup
    · rcases (hat c d' w hc hw).2 with ⟨hset, -⟩ | hup
      · rw [channels_registerChannel, if_pos rfl, if_neg fun h => by simp [hset] at h] at hentry
        cases hentry
      · exact hup
    · exact hup
  · intro hup d' w hw
    exact ⟨(hat c d' w hc hw).1, .inr (hup d' w hw)⟩

theorem attendedAt_deregister (hc : s.lock id = some c) (hat : AttendedAt s id) :
    AttendedAt (s.deregister c.fd) id ↔
      ∀ d w, c.waiting = some (d, w) → d = .writable ∧ Upcoming id s.pc := by
  have hc' : (s.deregister c.fd).lock id = some c := hc
  rw [attendedAt_iff hc']
  constructor
  · intro hat' d w hw
    rcases (hat' d w hw).2 with ⟨hset, -⟩ | hup
    · rw [epoll_deregister, if_pos rfl] at hset
      cases hset
    · exact hup
  · intro hup d w hw
    exact ⟨(hat c d w hc hw).1, .inr (hup d w hw)⟩

/-- `await_suspend` registers for the wait that it adds. -/
theorem awaitSuspend_registers {admits : Bool} (hc : s.lock id = some c)
    (hok : s.epoll c.fd = none ∧ admits = true) :
    (s.awaitSuspend id c d admits).lock id = some
        { c.setCallback d (.resume s.nextWait) with waiting := some (d, s.nextWait) } ∧
      (s.awaitSuspend id c d admits).epoll c.fd = some d ∧
      (s.awaitSuspend id c d admits).channels c.fd = some ((s.channels c.fd).getD id) := by
  have hreg : (s.newWait.registerChannel id c.fd d admits).1.lock id = some c :=
    (lock_registerChannel admits).trans hc
  have halive : (c.setCallback d (.resume s.nextWait)).alive = true :=
    (alive_setCallback _).trans (alive_of_lock hc)
  have htrue : (s.newWait.registerChannel id c.fd d admits).2 = true := by
    rw [registerChannel_eq]
    exact congrArg Prod.snd (if_pos hok)
  simp only [State.awaitSuspend, fd_setCallback]
  rw [if_pos htrue]
  refine ⟨?_, ?_, ?_⟩
  · rw [lock_setChannel hreg, if_pos rfl, if_pos halive]
  · have hset : (s.newWait.registerChannel id c.fd d admits).1.epoll c.fd = some d := by
      rw [epoll_registerChannel]
      exact if_pos ⟨rfl, hok⟩
    exact hset
  · have hget : (s.newWait.registerChannel id c.fd d admits).1.channels c.fd =
        some ((s.channels c.fd).getD id) := by
      rw [channels_registerChannel, if_pos rfl]
      exact if_pos hok
    exact hget

/-- Where it cannot register it throws, and the channel keeps the handle. -/
theorem awaitSuspend_throws {admits : Bool} (hc : s.lock id = some c)
    (hfails : ¬(s.epoll c.fd = none ∧ admits = true)) :
    (s.awaitSuspend id c d admits).lock id = some (c.setCallback d (.resume s.nextWait)) ∧
      (s.awaitSuspend id c d admits).epoll c.fd = s.epoll c.fd := by
  have hreg : (s.newWait.registerChannel id c.fd d admits).1.lock id = some c :=
    (lock_registerChannel admits).trans hc
  have halive : (c.setCallback d (.resume s.nextWait)).alive = true :=
    (alive_setCallback _).trans (alive_of_lock hc)
  have hfalse : (s.newWait.registerChannel id c.fd d admits).2 = false := by
    rw [registerChannel_eq]
    exact congrArg Prod.snd (if_neg hfails)
  simp only [State.awaitSuspend, fd_setCallback]
  rw [hfalse, if_neg Bool.false_ne_true]
  constructor
  · have hset : ((s.newWait.registerChannel id c.fd d admits).1.setChannel id
        (c.setCallback d (.resume s.nextWait))).lock id =
          some (c.setCallback d (.resume s.nextWait)) := by
      rw [lock_setChannel hreg, if_pos rfl, if_pos halive]
    exact hset
  · have hsame : (s.newWait.registerChannel id c.fd d admits).1.epoll c.fd = s.epoll c.fd := by
      rw [epoll_registerChannel]
      exact if_neg fun h => hfails h.2
    exact hsame

theorem attendedAt_awaitSuspend {admits : Bool} (hinv : Inv s) (hc : s.lock id = some c)
    (hfree : c.waiting = none) : AttendedAt (s.awaitSuspend id c d admits) id := by
  by_cases hok : s.epoll c.fd = none ∧ admits = true
  · rcases awaitSuspend_registers (d := d) hc hok with ⟨hlock, hset, hget⟩
    -- the descriptor was in neither table
    have hentry : s.channels c.fd = none := by
      cases hentry : s.channels c.fd with
      | none => rfl
      | some j => exact absurd hok.1 (hinv.entry c.fd j hentry).1
    rw [hentry] at hget
    rw [attendedAt_iff hlock]
    intro d' w hw
    cases hw
    have hfd : (c.setCallback d (.resume s.nextWait)).fd = c.fd := fd_setCallback _
    refine ⟨(callback_setCallback (c := c) _).trans (if_pos rfl), .inl ?_⟩
    rw [Listed, hfd]
    exact ⟨hset, hget⟩
  · rw [attendedAt_iff (awaitSuspend_throws (d := d) hc hok).1, waiting_setCallback, hfree]
    intro d' w hw
    cases hw

/-- A channel that a coroutine waits for does not die. -/
theorem attendedAt_drop (hat : AttendedAt s id) : AttendedAt (s.drop id) id := by
  unfold State.drop
  split
  · rename_i e he
    split
    · intro c d w hc
      rw [lock_destroy he] at hc
      cases hc
    · exact hat
  · exact hat

theorem attendedAt_release (hc : s.lock id = some c) (hat : AttendedAt s id) :
    AttendedAt ((s.setChannel id { c with owned := false }).drop id) id := by
  refine attendedAt_drop fun c' d w hc' hw => ?_
  rw [lock_setChannel hc, if_pos rfl] at hc'
  simp only [alive_of_lock hc, if_true] at hc'
  obtain rfl := Option.some.inj hc'
  exact hat c d w hc hw

/-! ## The statements of `poll` -/

/-- `poll` goes on, and the tables stay as they are. -/
theorem attendedAt_goto {pc : Pc} (hat : AttendedAt s id)
    (hup : Upcoming id s.pc → Upcoming id pc) : AttendedAt { s with pc := pc } id := by
  intro c d w hc hw
  rcases hat c d w hc hw with ⟨hcb, hlisted | ⟨hd, hnext⟩⟩
  · exact ⟨hcb, .inl hlisted⟩
  · exact ⟨hcb, .inr ⟨hd, hup hnext⟩⟩

/-- An exception ends the iteration: the write callback does not come. -/
theorem attendedAt_throw (hat : AttendedAt s h.id) :
    AttendedAt { s with pc := .done { h with rest := [] } } h.id ↔
      ∀ c d w, s.lock h.id = some c → c.waiting = some (d, w) → Listed s h.id c.fd d := by
  constructor
  · intro hat' c d w hc hw
    rcases (hat' c d w hc hw).2 with hlisted | ⟨-, hup⟩
    · exact hlisted
    · cases hup
  · intro hlisted c d w hc hw
    exact ⟨(hat c d w hc hw).1, .inl (hlisted c d w hc hw)⟩

/-- The iteration has run a callback: it is upcoming that the other one follows. -/
theorem upcoming_called {pc : Pc} (hpc : pc = .running d h ∨ pc = .returned d h) :
    Upcoming h.id pc ↔
      d = .readable ∧ (h.events.epollOut = true ∨ h.events.epollErr = true) := by
  rcases hpc with rfl | rfl
  · cases d with
    | readable => exact ⟨fun hup => ⟨rfl, hup.2⟩, fun hup => ⟨rfl, hup.2⟩⟩
    | writable => exact ⟨fun hup => hup.elim, fun hup => by cases hup.1⟩
  · cases d with
    | readable => exact ⟨fun hup => ⟨rfl, hup.2⟩, fun hup => ⟨rfl, hup.2⟩⟩
    | writable => exact ⟨fun hup => hup.elim, fun hup => by cases hup.1⟩

/-- A callback takes the descriptor out of the tables and ends the wait it is for. -/
theorem attendedAt_callback (hloop : c.loop = true) (hc : s.lock h.id = some c)
    (hat : AttendedAt s h.id) :
    AttendedAt (s.callback d h c) h.id ↔ ∀ d' w, c.waiting = some (d', w) →
      d' = d ∨ d' = .writable ∧ d = .readable ∧
        (h.events.epollOut = true ∨ h.events.epollErr = true) := by
  have hgone : (s.deregister c.fd).epoll c.fd = none := epoll_deregister.trans (if_pos rfl)
  cases hcb : c.callback d with
  | noop | run =>
    -- the callback is for no wait
    have hne : ∀ w, c.waiting ≠ some (d, w) := by
      intro w hw
      have hsame := hcb.symm.trans (hat c d w hc hw).1
      cases hsame
    have hlock : (s.callback d h c).lock h.id = some c :=
      (lock_callback (by rw [hcb]; rfl)).trans hc
    have hstate : (s.callback d h c).epoll c.fd = none ∧
        ((s.callback d h c).pc = .running d h ∨ (s.callback d h c).pc = .returned d h) := by
      simp only [State.callback, hloop, hcb, if_true]
      exact ⟨hgone, by simp⟩
    rw [attendedAt_iff hlock]
    simp only [Listed, hstate.1, upcoming_called hstate.2]
    constructor
    · intro hat' d' w hw
      rcases (hat' d' w hw).2 with ⟨hset, -⟩ | ⟨hd, hup⟩
      · cases hset
      · exact .inr ⟨hd, hup⟩
    · intro hnext d' w hw
      refine ⟨(hat c d' w hc hw).1, .inr ?_⟩
      rcases hnext d' w hw with rfl | hup
      · exact absurd hw (hne w)
      · exact ⟨hup.1, hup.2⟩
  | resume v =>
    have hlock : (s.callback d h c).lock h.id = some
        { c with waiting := if c.waiting = some (d, v) then none else c.waiting } := by
      simp only [State.callback, hloop, hcb, if_true]
      refine (lock_setChannel (s := s.deregister c.fd) hc).trans ?_
      simp only [if_true, alive_of_lock hc]
    have hstate : (s.callback d h c).epoll c.fd = none ∧ (s.callback d h c).pc = .running d h := by
      simp only [State.callback, hloop, hcb, if_true]
      exact ⟨hgone, trivial⟩
    rw [attendedAt_iff hlock]
    simp only [Listed, hstate.1, upcoming_called (.inl hstate.2)]
    constructor
    · intro hat' d' w hw
      by_cases hd : d' = d
      · exact .inl hd
      · have hkeep : ¬c.waiting = some (d, v) := by
          intro hv
          rw [hv] at hw
          cases hw
          exact hd rfl
        rcases (hat' d' w (by rw [if_neg hkeep]; exact hw)).2 with ⟨hset, -⟩ | hup
        · cases hset
        · exact .inr ⟨hup.1, hup.2⟩
    · intro hnext d' w hw
      split at hw
      · cases hw
      · rename_i hkeep
        have hat' := (hat c d' w hc hw).1
        refine ⟨?_, .inr ?_⟩
        · cases d' <;> exact hat'
        · rcases hnext d' w hw with rfl | hup
          · -- the wait is the one that the callback resumes
            obtain rfl := Callback.resume.inj (hcb.symm.trans hat')
            exact absurd hw hkeep
          · exact ⟨hup.1, hup.2⟩

/-- After a callback `poll` erases the entry under `EPOLLERR`, and goes on to the
write callback if it has run the read callback. -/
theorem attendedAt_returned (hc : s.lock h.id = some c) (hfd : c.fd = h.fd)
    (hpc : s.pc = .returned d h) (hat : AttendedAt s h.id) :
    AttendedAt { (if h.events.epollErr then s.erase h.fd else s) with pc := h.next d } h.id ↔
      (h.events.epollErr = true → ∀ d' w, c.waiting = some (d', w) →
        d' = .writable ∧ d = .readable) := by
  have hnext : Upcoming h.id (h.next d) ↔
      d = .readable ∧ (h.events.epollOut = true ∨ h.events.epollErr = true) := by
    cases d with
    | readable => exact ⟨fun hup => ⟨rfl, hup.2⟩, fun hup => ⟨rfl, hup.2⟩⟩
    | writable => exact ⟨fun hup => hup.elim, fun hup => by cases hup.1⟩
  cases herr : h.events.epollErr with
  | false =>
    refine iff_of_true (attendedAt_goto (s := s) hat fun hup => ?_) fun hfalse => by cases hfalse
    rw [hpc, upcoming_called (.inr rfl)] at hup
    exact hnext.mpr hup
  | true =>
    have hc' : State.lock { s.erase h.fd with pc := h.next d } h.id = some c := hc
    have hgone : (s.erase h.fd).channels c.fd = none :=
      channels_erase.trans (if_pos hfd)
    simp only [if_true, forall_const]
    rw [attendedAt_iff hc']
    simp only [Listed, hgone, hnext]
    constructor
    · intro hat' d' w hw
      rcases (hat' d' w hw).2 with ⟨-, hentry⟩ | ⟨hd, hup⟩
      · cases hentry
      · exact ⟨hd, hup.1⟩
    · intro hup d' w hw
      rcases hup d' w hw with ⟨hd', hd⟩
      exact ⟨(hat c d' w hc hw).1, .inr ⟨hd', hd, .inr herr⟩⟩

/-! ## Steps -/

theorem pc_ne_aborted_of_userRuns (hruns : s.pc.userRuns = true) : s.pc ≠ .aborted := by
  intro hpc
  rw [hpc] at hruns
  cases hruns

/-- A step that touches no channel. -/
theorem attended_frame (hinv : Inv s) (hg : Attended s) (hstep : step s a = some s')
    (htarget : a.target = none)
    (hpoll : a = .advance ∨ a = .throw → s.pc.handling = none) :
    Attended s' ↔ s'.pc ≠ .aborted := by
  constructor
  · exact And.left
  · intro hpc
    refine ⟨hpc, fun i => attended_other hinv hstep ?_ (fun ha h hh => ?_) (hg.2 i)⟩
    · rw [htarget]
      exact (Option.some_ne_none i).symm
    · rw [hpoll ha] at hh
      cases hh

/-- A step of the user for one channel. -/
theorem attended_target (hinv : Inv s) (hg : Attended s) (hstep : step s a = some s')
    (htarget : a.target = some id) (hpc : s'.pc ≠ .aborted) :
    Attended s' ↔ AttendedAt s' id := by
  refine attended_iff_at hg hpc fun i hi hat => attended_other hinv hstep ?_ ?_ hat
  · rw [htarget]
    intro h
    exact hi (Option.some.inj h).symm
  · rintro (rfl | rfl)
    · cases htarget
    · cases htarget

/-- A statement of the iteration for one channel. -/
theorem attended_handling (hinv : Inv s) (hg : Attended s) (hstep : step s a = some s')
    (htarget : a.target = none) (hh : s.pc.handling = some h) (hpc : s'.pc ≠ .aborted) :
    Attended s' ↔ AttendedAt s' h.id := by
  refine attended_iff_at hg hpc fun i hi hat => attended_other hinv hstep ?_ ?_ hat
  · rw [htarget]
    exact (Option.some_ne_none i).symm
  · intro _ h' hh' hid
    obtain rfl := Option.some.inj (hh.symm.trans hh')
    exact hi hid.symm

theorem pc_next_ne_aborted : h.next d ≠ .aborted := by
  cases d with
  | readable => exact fun h => by cases h
  | writable => exact fun h => by cases h

/-- `poll` aborts at an event iff the descriptor is not in `channels_`. -/
theorem event_aborts_iff (hinv : Inv s) {fd : Option Fd} {events : Events}
    {rest : List (Option Fd × Events)} :
    (s.event fd events rest).pc = .aborted ↔ ∃ fd', fd = some fd' ∧ s.channels fd' = none := by
  constructor
  · intro h
    cases fd with
    | none => cases h
    | some fd' =>
      refine ⟨fd', rfl, ?_⟩
      cases hentry : s.channels fd' with
      | none => rfl
      | some id =>
        rcases hinv.entry fd' id hentry with ⟨-, c, hc, -⟩
        rw [event_of_entry hentry hc] at h
        cases h
  · rintro ⟨fd', rfl, hnone⟩
    simp only [State.event, hnone]

/-- A step forgets no wait exactly if it meets `Attends`. -/
theorem attended_step (hinv : Inv s) (hg : Attended s) (hstep : step s a = some s') :
    Attended s' ↔ Attends s a := by
  cases step_cases hstep with
  | newChannel hruns _ =>
    have hpc := pc_ne_aborted_of_userRuns hruns
    refine (attended_frame hinv hg hstep rfl (fun h => ?_)).trans (iff_of_true hpc trivial)
    rcases h with h | h <;> cases h
  | @setCallback id d callback c hc hruns hcallback =>
    rw [attended_target hinv hg hstep rfl (pc_ne_aborted_of_userRuns (s := s) hruns),
      attendedAt_setCallback hc hcallback (hg.2 id)]
    simp only [Attends, waits_iff hc, ne_eq]
  | @register id d admits c hc hruns =>
    have hpc : (s.registerChannel id c.fd d admits).1.pc ≠ .aborted := by
      rw [pc_registerChannel]
      exact pc_ne_aborted_of_userRuns hruns
    rw [attended_target hinv hg hstep rfl hpc, attendedAt_registerChannel hc (hg.2 id)]
    simp only [Attends, waits_iff hc]
  | @deregister id c hc hruns =>
    rw [attended_target hinv hg hstep rfl (pc_ne_aborted_of_userRuns (s := s) hruns),
      attendedAt_deregister hc (hg.2 id)]
    simp only [Attends, waits_iff hc]
  | @await id d admits c hc hruns hfree =>
    have hpc : (s.awaitSuspend id c d admits).pc ≠ .aborted := by
      rw [pc_awaitSuspend]
      exact pc_ne_aborted_of_userRuns hruns
    rw [attended_target hinv hg hstep rfl hpc]
    exact iff_of_true (attendedAt_awaitSuspend hinv hc hfree) trivial
  | @release id c hc hruns =>
    have hpc : ((s.setChannel id { c with owned := false }).drop id).pc ≠ .aborted := by
      rw [pc_drop]
      exact pc_ne_aborted_of_userRuns (s := s) hruns
    rw [attended_target hinv hg hstep rfl hpc]
    exact iff_of_true (attendedAt_release hc (hg.2 id)) trivial
  | @throw d h hpc =>
    rw [attended_handling hinv hg hstep rfl (congrArg Pc.handling hpc) (fun h => by cases h),
      attendedAt_throw (hg.2 h.id)]
    simp only [Attends, hpc]
  | epollWait _ _ =>
    refine (attended_frame hinv hg hstep rfl (fun h => ?_)).trans
      (iff_of_true (fun h => by cases h) trivial)
    rcases h with h | h <;> cases h
  | batchEnd hpc =>
    refine (attended_frame hinv hg hstep rfl fun _ => by rw [hpc]; rfl).trans ?_
    simp only [Attends, hpc]
    exact iff_of_true (fun h => by cases h) trivial
  | @event fd events rest hpc =>
    refine (attended_frame hinv hg hstep rfl fun _ => by rw [hpc]; rfl).trans ?_
    rw [ne_eq, event_aborts_iff hinv]
    simp only [Attends, hpc]
    cases fd with
    | none => simp
    | some fd => simp
  | @call d h c hpc hmask hc =>
    have hloop := hinv.loop h.id c hc
    have hpc' : (s.callback d h c).pc ≠ .aborted := by
      simp only [State.callback, hloop, if_true]
      split <;> exact fun h => by cases h
    rw [attended_handling hinv hg hstep rfl (congrArg Pc.handling hpc) hpc',
      attendedAt_callback hloop hc (hg.2 h.id)]
    simp only [Attends, hpc, hmask, waits_iff hc, forall_const]
    refine forall_congr' fun d' => forall_congr' fun w => imp_congr_right fun _ => ?_
    cases d' <;> cases d <;> simp
  | @skip d h hpc hmask =>
    rw [attended_handling hinv hg hstep rfl (congrArg Pc.handling hpc) pc_next_ne_aborted]
    simp only [Attends, hpc, hmask, false_imp_iff]
    refine iff_of_true (attendedAt_goto (hg.2 h.id) fun hup => ?_) trivial
    rw [hpc] at hup
    cases d with
    | readable => cases hup
    | writable => exact absurd hup.2 hmask
  | @ret d h hpc =>
    rw [attended_handling hinv hg hstep rfl (congrArg Pc.handling hpc) (fun h => by cases h)]
    simp only [Attends, hpc]
    refine iff_of_true (attendedAt_goto (hg.2 h.id) fun hup => ?_) trivial
    rw [hpc, upcoming_called (.inl rfl)] at hup
    exact (upcoming_called (.inr rfl)).mpr hup
  | @returned d h hpc =>
    have hh : s.pc.handling = some h := congrArg Pc.handling hpc
    rcases hinv.held h hh with ⟨c, hc, hfd⟩
    rw [attended_handling hinv hg hstep rfl hh pc_next_ne_aborted,
      attendedAt_returned hc hfd hpc (hg.2 h.id)]
    simp only [Attends, hpc, waits_iff hc]
  | @done h hpc =>
    have hpc' : (State.drop { s with pc := .batch h.rest } h.id).pc ≠ .aborted := by
      rw [pc_drop]
      exact fun h => by cases h
    rw [attended_handling hinv hg hstep rfl (congrArg Pc.handling hpc) hpc']
    simp only [Attends, hpc]
    refine iff_of_true (attendedAt_drop (attendedAt_goto (hg.2 h.id) fun hup => ?_)) trivial
    rw [hpc] at hup
    cases hup

/-! ## What becomes of a wait -/

theorem log_callback_iff {w : WaitId} (hloop : c.loop = true) :
    (s.callback d h c).log = s.log ++ [.resumed w] ↔ c.callback d = .resume w := by
  have hgrows : s.log ≠ s.log ++ [.resumed w] := by
    intro hsame
    have hlen := congrArg List.length hsame
    rw [List.length_append, List.length_singleton] at hlen
    omega
  simp only [State.callback, hloop, if_true]
  cases hcb : c.callback d with
  | noop => exact iff_of_false hgrows fun h => by cases h
  | run => exact iff_of_false hgrows fun h => by cases h
  | resume v =>
    constructor
    · intro hlog
      have hlast := List.append_cancel_left hlog
      cases hlast
      rfl
    · intro hv
      cases hv
      rfl

/-- An event that is for one direction alone leads to the callback of that direction. -/
theorem run_toCallback {events : Events} {rest : List (Option Fd × Events)}
    (hentry : s.channels c.fd = some id) (hc : s.lock id = some c) (honly : events.only d) :
    Lts.run step { s with pc := .batch ((some c.fd, events) :: rest) } (toCallback d) =
      some (State.callback { s with pc := .calling d ⟨id, c.fd, events, rest⟩ } d
        ⟨id, c.fd, events, rest⟩ c) := by
  have hevent : step { s with pc := .batch ((some c.fd, events) :: rest) } .advance =
      some { s with pc := .calling .readable ⟨id, c.fd, events, rest⟩ } :=
    congrArg some (event_of_entry (s := { s with pc := .batch ((some c.fd, events) :: rest) })
      hentry hc)
  have hcall : step { s with pc := .calling d ⟨id, c.fd, events, rest⟩ } .advance =
      some (State.callback { s with pc := .calling d ⟨id, c.fd, events, rest⟩ } d
        ⟨id, c.fd, events, rest⟩ c) :=
    advance_of_calling (s := { s with pc := .calling d ⟨id, c.fd, events, rest⟩ }) rfl
      (.inl honly.1) hc
  cases d with
  | readable =>
    simp only [toCallback, Lts.run_cons, Lts.run_nil, hevent, hcall, Option.bind_some]
  | writable =>
    have hmask : ¬(events.reports .readable = true ∨ events.epollErr = true) := by
      rw [honly.2.1, honly.2.2 .readable fun h => by cases h]
      simp
    have hskip : step { s with pc := .calling .readable ⟨id, c.fd, events, rest⟩ } .advance =
        some { s with pc := .calling .writable ⟨id, c.fd, events, rest⟩ } := by
      simp only [step, State.advance, if_neg hmask, Handling.next]
    simp only [toCallback, Lts.run_cons, Lts.run_nil, hevent, hskip, hcall, Option.bind_some]

/-- The wait that gets the next event for the direction alone. -/
theorem getsEvent_iff {w : WaitId} (hinv : Inv s) (hc : s.lock id = some c) :
    s.GetsEvent c.fd d w ↔ c.callback d = .resume w ∧ Listed s id c.fd d := by
  have hloop := hinv.loop id c hc
  constructor
  · rintro ⟨hset, hgets⟩
    rcases exists_only d with ⟨events, honly⟩
    rcases hgets events [] honly with ⟨s', hrun, hlog⟩
    cases hentry : s.channels c.fd with
    | none =>
      -- `poll` aborts at the event
      cases d with
      | readable | writable =>
        rcases Lts.run_cons_some hrun with ⟨s₁, h₁, hrest⟩
        rw [event_of_absent hentry] at h₁
        obtain rfl := Option.some.inj h₁
        rcases Lts.run_cons_some hrest with ⟨s₂, h₂, -⟩
        cases h₂
    | some j =>
      rcases hinv.entry c.fd j hentry with ⟨-, e, he, hfd⟩
      obtain rfl := hinv.unique j id e c he hc hfd
      rw [run_toCallback hentry hc honly] at hrun
      obtain rfl := Option.some.inj hrun
      exact ⟨(log_callback_iff hloop).mp hlog, hset, hentry⟩
  · rintro ⟨hcb, hset, hentry⟩
    refine ⟨hset, fun events rest honly => ⟨_, run_toCallback hentry hc honly, ?_⟩⟩
    exact (log_callback_iff hloop).mpr hcb

/-- `poll` goes on and resumes the coroutine before it does anything for another one. -/
def State.GoesOnTo (s : State) (w : WaitId) : Prop :=
  ∃ n s', Lts.run step s (List.replicate n .advance) = some s' ∧ s'.log = s.log ++ [.resumed w]

theorem GoesOnTo.step {w : WaitId} (hstep : step s .advance = some s') (hlog : s'.log = s.log)
    (hnext : s'.GoesOnTo w) : s.GoesOnTo w := by
  rcases hnext with ⟨n, t, hrun, ht⟩
  refine ⟨n + 1, t, ?_, ht.trans (congrArg (· ++ [Event.resumed w]) hlog)⟩
  rw [List.replicate_succ, Lts.run_cons, hstep]
  exact hrun

theorem goesOnTo_of_calling {w : WaitId} (hpc : s.pc = .calling .writable h)
    (hmask : h.events.epollOut = true ∨ h.events.epollErr = true) (hc : s.lock h.id = some c)
    (hloop : c.loop = true) (hcb : c.callback .writable = .resume w) : s.GoesOnTo w := by
  refine ⟨1, s.callback .writable h c, ?_, (log_callback_iff hloop).mpr hcb⟩
  rw [List.replicate_one, Lts.run_cons, step, advance_of_calling hpc hmask hc]
  rfl

theorem goesOnTo_of_returned {w : WaitId} (hpc : s.pc = .returned .readable h)
    (hmask : h.events.epollOut = true ∨ h.events.epollErr = true) (hc : s.lock h.id = some c)
    (hloop : c.loop = true) (hcb : c.callback .writable = .resume w) : s.GoesOnTo w := by
  have hstep : step s .advance = some
      { (if h.events.epollErr then s.erase h.fd else s) with pc := .calling .writable h } := by
    simp only [step, State.advance, hpc, Handling.next]
  have hobjects : (if h.events.epollErr then s.erase h.fd else s).objects = s.objects :=
    erase_ite_same.1
  refine GoesOnTo.step hstep erase_ite_same.2.1 (goesOnTo_of_calling rfl hmask ?_ hloop hcb)
  simp only [State.lock, hobjects]
  exact hc

/-- The write callback of the iteration is still to come, and finds its wait. -/
theorem goesOnTo_of_upcoming {w : WaitId} (hinv : Inv s) (hc : s.lock id = some c)
    (hcb : c.callback .writable = .resume w) (hup : Upcoming id s.pc) : s.GoesOnTo w := by
  have hloop := hinv.loop id c hc
  unfold Upcoming at hup
  split at hup
  · rename_i h hpc
    rcases hup with ⟨rfl, hmask⟩
    have hstep : step s .advance = some { s with pc := .returned .readable h } := by
      simp only [step, State.advance, hpc]
    exact GoesOnTo.step hstep rfl (goesOnTo_of_returned rfl hmask hc hloop hcb)
  · rename_i h hpc
    rcases hup with ⟨rfl, hmask⟩
    exact goesOnTo_of_returned hpc hmask hc hloop hcb
  · rename_i h hpc
    rcases hup with ⟨rfl, hmask⟩
    exact goesOnTo_of_calling hpc hmask hc hloop hcb
  all_goals cases hup

/-- What `Attended` says of a wait. -/
theorem Attended.resumes {w : WaitId} (hg : Attended s) (hinv : Inv s) (hc : s.lock id = some c)
    (hw : c.waiting = some (d, w)) : s.GetsEvent c.fd d w ∨ s.GoesOnTo w := by
  rcases hg.2 id c d w hc hw with ⟨hcb, hlisted | ⟨rfl, hup⟩⟩
  · exact .inl ((getsEvent_iff hinv hc).mpr ⟨hcb, hlisted⟩)
  · exact .inr (goesOnTo_of_upcoming hinv hc hcb hup)

end

/-! ## Runs -/

end Ucxpp.EventLoop
