import Ucxpp.EventLoopWaits

/-!
# EventLoopHandles — when a stored handle is that of the pending wait

No handle is taken out of a callback when its wait is over, so it depends on the steps
before whether the handle that `poll` comes to is still good. `await_suspend` stores the
handle and has the descriptor watched for the direction of the wait. As long as nothing else
watches a descriptor for that direction, a handle in the callback of the watched direction is
the one of the pending wait; the callback of the other direction may hold one that is long
over, and the event must not make `poll` call it.

`KeepsHandles` says this of the steps of the user and of the events that the kernel reports,
by the epoll set and the callbacks alone.
-/

namespace Ucxpp.EventLoop

/-- The event makes `poll` call the callback of the direction. -/
def Events.calls (self : Events) (d : Direction) : Prop :=
  self.reports d = true ∨ self.epollErr = true

/-- The user registers a channel directly only if the callback for the direction holds no
handle, and awaits a direction only while the descriptor is not watched for it; in a read
callback that the write callback follows, the registration for a write wait succeeds. An
event calls the callback of a direction that is not watched only if it holds no handle. -/
def KeepsHandles (s : State) : Act → Prop
  | .register id d admits => ∀ c, s.lock id = some c → s.epoll c.fd = none → admits = true →
      (c.callback d).handle = none
  | .await id d admits => ∀ c, s.lock id = some c → s.epoll c.fd ≠ some d ∧
      (d = .writable → Upcoming id s.pc → s.epoll c.fd = none ∧ admits = true)
  | .advance =>
    match s.pc with
    | .calling .readable h => ∀ c d, s.lock h.id = some c → h.events.calls d →
        s.epoll c.fd ≠ some d → (c.callback d).handle = none
    | .calling .writable _ | .outside | .batch _ | .running .. | .returned .. | .done _
    | .aborted => True
  | .newChannel _ | .setCallback .. | .deregister _ | .release _ | .throw | .epollWait _ => True

/-- A handle is the one of the pending wait if the descriptor is watched for the direction of
its callback, or if it is in a write callback that comes next. -/
def Stored (s : State) : Prop :=
  ∀ id c d w, s.lock id = some c → c.callback d = .resume w →
    s.epoll c.fd = some d ∨ d = .writable ∧ Upcoming id s.pc → c.waiting = some (d, w)

theorem stored_init : Stored .init := by
  intro id c d w hc
  cases hc

section

variable {s s' : State} {id : ChannelId} {fd : Fd} {c : Channel} {d : Direction} {h : Handling}
  {a : Act}

/-! ## The code of the user -/

/-- Channels, descriptors and callbacks to come only go away. -/
theorem Stored.mono (hstored : Stored s) (hlock : ∀ i c, s'.lock i = some c → s.lock i = some c)
    (hepoll : ∀ fd d, s'.epoll fd = some d → s.epoll fd = some d)
    (hup : ∀ i, Upcoming i s'.pc → Upcoming i s.pc) : Stored s' := by
  intro i c d w hc hcb hnext
  refine hstored i c d w (hlock i c hc) hcb ?_
  exact hnext.imp (hepoll c.fd d) fun hwrite => ⟨hwrite.1, hup i hwrite.2⟩

/-- One channel changes. -/
theorem Stored.setChannel {c' : Channel} (hstored : Stored s) (hc : s.lock id = some c)
    (hat : ∀ d w, c'.callback d = .resume w →
      s.epoll c'.fd = some d ∨ d = .writable ∧ Upcoming id s.pc → c'.waiting = some (d, w)) :
    Stored (s.setChannel id c') := by
  intro i e d w he hcb hnext
  by_cases hi : i = id
  · subst hi
    rw [lock_setChannel hc, if_pos rfl] at he
    split at he
    · obtain rfl := Option.some.inj he
      exact hat d w hcb hnext
    · cases he
  · exact hstored i e d w ((lock_setChannel_ne hi).symm.trans he) hcb hnext

theorem epoll_deregister_le {d' : Direction} {fd' : Fd}
    (hset : (s.deregister fd).epoll fd' = some d') : s.epoll fd' = some d' := by
  rw [epoll_deregister] at hset
  split at hset
  · cases hset
  · exact hset

theorem Stored.deregister (hstored : Stored s) : Stored (s.deregister fd) :=
  hstored.mono (fun _ _ he => he) (fun _ _ hset => epoll_deregister_le hset) fun _ hup => hup

theorem Stored.drop (hstored : Stored s) : Stored (s.drop id) := by
  refine hstored.mono (fun i e he => ?_) (fun fd d hset => ?_) (fun i hup => ?_)
  · rcases lock_drop s id i with hsame | ⟨hnone, -⟩
    · exact hsame.symm.trans he
    · cases hnone.symm.trans he
  · unfold State.drop at hset
    split at hset
    · split at hset
      · unfold State.destroy at hset
        split at hset
        · exact epoll_deregister_le (s := s) hset
        · exact hset
      · exact hset
    · exact hset
  · rw [pc_drop] at hup
    exact hup

/-- A channel is registered while its callback holds no handle. -/
theorem Stored.registerChannel {admits : Bool} (hinv : Inv s) (hstored : Stored s)
    (hc : s.lock id = some c) (hhandle : s.epoll c.fd = none → admits = true →
      (c.callback d).handle = none) : Stored (s.registerChannel id c.fd d admits).1 := by
  intro i e d' w he hcb hnext
  rw [lock_registerChannel] at he
  rw [epoll_registerChannel, pc_registerChannel] at hnext
  split at hnext
  · rename_i hok
    -- the channel is the one that is registered
    obtain rfl := hinv.unique i id e c he hc hok.1
    obtain rfl := Option.some.inj (hc.symm.trans he)
    rcases hnext with hset | hwrite
    · obtain rfl := Option.some.inj hset
      have hnone := hhandle hok.2.1 hok.2.2
      rw [hcb] at hnone
      cases hnone
    · exact hstored i c d' w he hcb (.inr hwrite)
  · exact hstored i e d' w he hcb hnext

/-- The handle that `await_suspend` stores is the one of the wait, or its callback is neither
watched nor next. -/
theorem Stored.awaitSuspend {admits : Bool} (hinv : Inv s) (hstored : Stored s)
    (hc : s.lock id = some c) (hfree : c.waiting = none) (hwatched : s.epoll c.fd ≠ some d)
    (hwrite : d = .writable → Upcoming id s.pc → s.epoll c.fd = none ∧ admits = true) :
    Stored (s.awaitSuspend id c d admits) := by
  -- the other callback of the channel holds no handle that counts
  have hother : ∀ d' w, c.callback d' = .resume w →
      ¬(s.epoll c.fd = some d' ∨ d' = .writable ∧ Upcoming id s.pc) := by
    intro d' w hcb hnext
    cases hfree.symm.trans (hstored id c d' w hc hcb hnext)
  have hfd : (c.setCallback d (.resume s.nextWait)).fd = c.fd := fd_setCallback _
  intro i e d' w he hcb hnext
  rw [pc_awaitSuspend] at hnext
  by_cases hi : i = id
  · subst hi
    by_cases hok : s.epoll c.fd = none ∧ admits = true
    · rcases awaitSuspend_registers (d := d) hc hok with ⟨hlock, hset, -⟩
      obtain rfl := Option.some.inj (hlock.symm.trans he)
      have hcb' : (c.setCallback d (.resume s.nextWait)).callback d' = .resume w := by
        cases d' <;> exact hcb
      rw [callback_setCallback] at hcb'
      split at hcb'
      · rename_i hd
        obtain rfl := Callback.resume.inj hcb'
        rw [hd]
      · rename_i hd
        refine absurd (hnext.resolve_left fun hset' => ?_) fun h => hother d' w hcb' (.inr h)
        exact hd (Option.some.inj (hset.symm.trans ((congrArg _ hfd).symm.trans hset'))).symm
    · rcases awaitSuspend_throws (d := d) hc hok with ⟨hlock, hsame⟩
      obtain rfl := Option.some.inj (hlock.symm.trans he)
      rw [hfd, hsame] at hnext
      rw [callback_setCallback] at hcb
      split at hcb
      · rename_i hd
        subst hd
        rcases hnext with hset | ⟨hd, hup⟩
        · exact absurd hset hwatched
        · exact absurd (hwrite hd hup) hok
      · exact absurd hnext (hother d' w hcb)
  · have hold : s.lock i = some e := (lock_awaitSuspend_ne hi admits).symm.trans he
    have hne : c.fd ≠ e.fd := fun hfd' => hi (hinv.unique i id e c hold hc hfd'.symm)
    refine hstored i e d' w hold hcb (hnext.imp_left fun hset => ?_)
    exact (SameAt.awaitSuspend hne admits).2.symm.trans hset

/-! ## The callbacks -/

/-- What is left of the channel whose callback is called. -/
theorem lock_callback_called (hloop : c.loop = true) (hc : s.lock h.id = some c) :
    ∃ waiting, (s.callback d h c).lock h.id = some { c with waiting := waiting } ∧
      ((c.callback d).handle = none → waiting = c.waiting) := by
  cases hcb : c.callback d with
  | noop | run => exact ⟨c.waiting, (lock_callback (by rw [hcb]; rfl)).trans hc, fun _ => rfl⟩
  | resume v =>
    refine ⟨if c.waiting = some (d, v) then none else c.waiting, ?_, fun h => by cases h⟩
    simp only [State.callback, hloop, hcb, if_true]
    refine (lock_setChannel (s := s.deregister c.fd) hc).trans ?_
    simp only [if_true, alive_of_lock hc]

theorem epoll_callback_called (hloop : c.loop = true) : (s.callback d h c).epoll c.fd = none := by
  have hgone : (s.deregister c.fd).epoll c.fd = none := epoll_deregister.trans (if_pos rfl)
  simp only [State.callback, hloop, if_true]
  split <;> exact hgone

/-- `poll` calls a callback. If the write callback comes next, its handle is the one of the
pending wait, and is not the one that is called. -/
theorem Stored.callback (hinv : Inv s) (hstored : Stored s) (hc : s.lock h.id = some c)
    (hpc : ∀ i, Upcoming i (s.callback d h c).pc → i = h.id)
    (hnext : ∀ w, c.callback .writable = .resume w → Upcoming h.id (s.callback d h c).pc →
      c.waiting = some (.writable, w) ∧ (c.callback d).handle = none) :
    Stored (s.callback d h c) := by
  have hloop := hinv.loop h.id c hc
  intro i e d' w he hcb hor
  by_cases hi : i = h.id
  · subst hi
    rcases lock_callback_called (d := d) hloop hc with ⟨waiting, hlock, hsame⟩
    obtain rfl := Option.some.inj (hlock.symm.trans he)
    rcases hor with hset | ⟨rfl, hup⟩
    · cases (epoll_callback_called hloop).symm.trans hset
    · rcases hnext w hcb hup with ⟨hwait, hhandle⟩
      exact (hsame hhandle).trans hwait
  · have hold : s.lock i = some e := (lock_callback_ne hi).symm.trans he
    have hne : c.fd ≠ e.fd := fun hfd => hi (hinv.unique i h.id e c hold hc hfd.symm)
    refine hstored i e d' w hold hcb ?_
    rcases hor with hset | ⟨-, hup⟩
    · exact .inl ((SameAt.callback hne).2.symm.trans hset)
    · exact absurd (hpc i hup) hi

/-! ## The steps -/

/-- The write callback of an event follows the read callback, or the test for it. -/
theorem KeepsHandles.upcoming (hstored : Stored s) (hkeeps : KeepsHandles s .advance)
    (hpc : s.pc = .calling .readable h) (hc : s.lock h.id = some c)
    (hmask : h.events.calls .writable) {w : WaitId} (hcb : c.callback .writable = .resume w) :
    s.epoll c.fd = some .writable ∧ c.waiting = some (.writable, w) := by
  simp only [KeepsHandles, hpc] at hkeeps
  have hset : s.epoll c.fd = some .writable := by
    by_contra hne
    have hnone := hkeeps c .writable hc hmask hne
    rw [hcb] at hnone
    cases hnone
  exact ⟨hset, hstored h.id c .writable w hc hcb (.inl hset)⟩

/-- A step that keeps to the condition stores no handle in the wrong place. -/
theorem Stored.step (hinv : Inv s) (hstored : Stored s) (hkeeps : KeepsHandles s a)
    (hstep : step s a = some s') : Stored s' := by
  cases step_cases hstep with
  | newChannel _ _ =>
    intro i e d w he hcb hnext
    rcases lock_eq_some.mp he with ⟨hget, halive⟩
    rcases Trace.getElem?_concat.mp hget with hget | ⟨-, rfl⟩
    · exact hstored i e d w (lock_eq_some.mpr ⟨hget, halive⟩) hcb hnext
    · cases d <;> cases hcb
  | @setCallback id d callback c hc _ hcallback =>
    refine hstored.setChannel hc fun d' w hcb hnext => ?_
    rw [fd_setCallback] at hnext
    rw [callback_setCallback] at hcb
    split at hcb
    · rw [hcb] at hcallback
      cases hcallback
    · rw [waiting_setCallback]
      exact hstored id c d' w hc hcb hnext
  | register hc _ => exact hstored.registerChannel hinv hc (hkeeps _ hc)
  | deregister _ _ => exact hstored.deregister
  | await hc _ hfree =>
    exact hstored.awaitSuspend hinv hc hfree (hkeeps _ hc).1 (hkeeps _ hc).2
  | @release id c hc _ =>
    refine Stored.drop (hstored.setChannel hc fun d w hcb hnext => ?_)
    refine hstored id c d w hc ?_ hnext
    cases d <;> exact hcb
  | throw _ | epollWait _ _ | batchEnd _ =>
    exact hstored.mono (fun _ _ he => he) (fun _ _ hset => hset) fun _ hup => by cases hup
  | @event fd events rest _ =>
    refine hstored.mono (fun i e he => lock_event.symm.trans he)
      (fun fd d hset => (congrFun epoll_event fd).symm.trans hset) (fun i hup => ?_)
    -- the read callback is called first
    rcases hup.handling with ⟨h, hh, -⟩
    rw [handling_event hh] at hup
    cases hup
  | @call d h c hpc hmask hc =>
    have hcalled : (s.callback d h c).pc = .running d h ∨ (s.callback d h c).pc = .returned d h :=
      pc_callback hinv hc
    refine hstored.callback hinv hc (fun i hup => ?_) (fun w hcb hup => ?_)
    · rcases hup.handling with ⟨h', hh', hid⟩
      obtain rfl := Option.some.inj ((handling_callback hinv hc).symm.trans hh')
      exact hid.symm
    · -- the read callback is called, and the descriptor is watched for writing
      rcases (upcoming_called hcalled).mp hup with ⟨rfl, hwrite⟩
      rcases KeepsHandles.upcoming hstored hkeeps hpc hc hwrite hcb with ⟨hset, hwait⟩
      simp only [KeepsHandles, hpc] at hkeeps
      refine ⟨hwait, hkeeps c .readable hc hmask ?_⟩
      rw [hset]
      exact fun h => by cases h
  | @skip d h hpc _ =>
    cases d with
    | readable =>
      intro i e d w he hcb hnext
      rcases hnext with hset | ⟨rfl, rfl, hwrite⟩
      · exact hstored i e d w he hcb (.inl hset)
      · exact (KeepsHandles.upcoming hstored hkeeps hpc he hwrite hcb).2
    | writable =>
      exact hstored.mono (fun _ _ he => he) (fun _ _ hset => hset) fun _ hup => by cases hup
  | @ret d h hpc =>
    refine hstored.mono (fun _ _ he => he) (fun _ _ hset => hset) fun i hup => ?_
    rw [hpc]
    cases d with
    | readable => exact hup
    | writable => cases hup
  | @returned d h hpc =>
    refine hstored.mono (fun i e he => Eq.trans ?_ he) (fun fd d hset => Eq.trans ?_ hset)
      (fun i hup => ?_)
    · split <;> rfl
    · split <;> rfl
    · rw [hpc]
      cases d with
      | readable => exact hup
      | writable => cases hup
  | @done h _ =>
    have hnext : Stored { s with pc := .batch h.rest } :=
      hstored.mono (fun _ _ he => he) (fun _ _ hset => hset) fun _ hup => by cases hup
    exact hnext.drop

/-- The handle that `poll` comes to is the one of the pending wait. -/
theorem Stored.handlePending (hstored : Stored s) (hkeeps : KeepsHandles s a) :
    HandlePending s a := by
  cases a with
  | newChannel | setCallback | register | deregister | await | release | throw | epollWait =>
    trivial
  | advance =>
    cases hpc : s.pc with
    | outside | batch | running | returned | done | aborted => simp only [HandlePending, hpc]
    | calling d h =>
      simp only [HandlePending, hpc]
      intro hmask c hc w hcb
      refine hstored h.id c d w hc hcb ?_
      cases d with
      | readable =>
        simp only [KeepsHandles, hpc] at hkeeps
        by_contra hnot
        rw [not_or] at hnot
        have hnone := hkeeps c .readable hc hmask hnot.1
        rw [hcb] at hnone
        cases hnone
      | writable =>
        rw [hpc]
        exact .inr ⟨rfl, rfl, hmask⟩

/-- So the step resumes nobody whose wait is over. -/
theorem Stored.resumedOnce_step (hinv : Inv s) (hwinv : WaitInv s) (hstored : Stored s)
    (honce : s.ResumedOnce) (hkeeps : KeepsHandles s a)
    (hstep : EventLoop.step s a = some s') : Stored s' ∧ s'.ResumedOnce := by
  have hpending := hstored.handlePending hkeeps
  exact ⟨hstored.step hinv hkeeps hstep,
    (EventLoop.resumedOnce_step hinv hwinv honce hstep).mpr hpending⟩

end

/-! ## Runs -/

/-- In a run whose steps keep to the condition every coroutine is resumed at most once for a
wait, and not after the wait has ended. -/
theorem resumed_once {as : List Act} {s : State} (hrun : Lts.run step .init as = some s)
    (hmeet : Lts.StepsMeet step KeepsHandles .init as) : s.ResumedOnce := by
  have hall : (Inv s ∧ WaitInv s) ∧ Stored s ∧ s.ResumedOnce := by
    refine Lts.run_invariant (fun s => (Inv s ∧ WaitInv s) ∧ Stored s ∧ s.ResumedOnce) ?_
      ⟨⟨inv_init, waitInv_init⟩, stored_init, Trace.each_nil⟩ hmeet hrun
    rintro s a s' ⟨⟨hinv, hwinv⟩, hstored, honce⟩ hkeeps hstep
    exact ⟨⟨hinv.step hstep, hwinv.step hstep⟩,
      hstored.resumedOnce_step hinv hwinv honce hkeeps hstep⟩
  exact hall.2.2

/-! ### Two runs -/

/-- A connect waits for writing, and the event says that it has failed. -/
def connectFails : List Act :=
  [.newChannel 5, .await 0 .writable true, .epollWait [(some 5, ⟨true, true, true, true⟩)],
    .advance, .advance, .advance, .advance]

/-- `poll` calls both callbacks, and the read callback holds no handle. -/
theorem resumed_once_connectFails :
    ∃ s, Lts.run step .init connectFails = some s ∧ s.log = [.suspended 0, .resumed 0] ∧
      s.ResumedOnce := by
  have hrun : ∃ s, Lts.run step .init connectFails = some s ∧
      s.log = [.suspended 0, .resumed 0] := ⟨_, rfl, rfl⟩
  rcases hrun with ⟨s, hs, hlog⟩
  refine ⟨s, hs, hlog, resumed_once hs ?_⟩
  refine ⟨trivial, fun s₁ h₁ => ?_⟩
  obtain rfl := Option.some.inj h₁
  refine ⟨fun c hc => ?_, fun s₂ h₂ => ?_⟩
  · obtain rfl := Option.some.inj hc
    exact ⟨(by rintro ⟨⟩), (by rintro - ⟨⟩)⟩
  obtain rfl := Option.some.inj h₂
  refine ⟨trivial, fun s₃ h₃ => ?_⟩
  obtain rfl := Option.some.inj h₃
  refine ⟨trivial, fun s₄ h₄ => ?_⟩
  obtain rfl := Option.some.inj h₄
  refine ⟨fun c d hc _ hset => ?_, fun s₅ h₅ => ?_⟩
  · -- the descriptor is watched for writing
    obtain rfl := Option.some.inj hc
    cases d with
    | readable => rfl
    | writable => exact absurd rfl hset
  obtain rfl := Option.some.inj h₅
  refine ⟨trivial, fun s₆ h₆ => ?_⟩
  obtain rfl := Option.some.inj h₆
  exact ⟨trivial, fun _ _ => trivial⟩

/-- A receive waits for a channel, and the event of the channel resumes it. -/
def received : List Act :=
  [.newChannel 5, .await 0 .readable true, .epollWait [readEvent 5], .advance, .advance]

/-- To the end of the batch. -/
def batchEnd : List Act :=
  [.advance, .advance, .advance, .advance, .advance]

/-- A send waits next, and its event has `EPOLLERR`. -/
def sendFails : List Act :=
  [.await 0 .writable true, .epollWait [(some 5, ⟨false, false, true, false⟩)], .advance, .advance]

/-- The coroutine of the receive is resumed a second time. -/
theorem receive_resumed_twice :
    ∃ s, Lts.run step .init (received ++ batchEnd ++ sendFails) = some s ∧
      s.log = [.suspended 0, .resumed 0, .suspended 1, .resumed 0] ∧ ¬s.ResumedOnce := by
  refine ⟨_, rfl, rfl, fun h => ?_⟩
  exact h [.suspended 0, .resumed 0, .suspended 1] (.resumed 0) [] rfl 0 rfl (.inl (by decide))

end Ucxpp.EventLoop
