import Ucxpp.EventLoopFrame

/-!
# WorkerEpoll — a UCX worker in an event loop

`register_loop` puts the event descriptor of a worker into an event loop. The read
callback of its channel processes the events of the worker until it can arm the
worker, and then registers the channel again.

UCX tells the loop of an event only through the descriptor, and only if the worker
is armed when the event arrives. So an event is seen in time as long as the worker
is armed or its descriptor is readable. The callback leaves the worker so, and
nothing ends it, but `register_loop` does not begin with it.
-/

namespace Ucxpp.WorkerEpoll

open EventLoop (Fd ChannelId Channel readEvent)

/-- A `ucp_worker`: the events that are not processed, and its event descriptor. -/
structure Worker where
  pending : Nat
  armed : Bool
  readable : Bool
  armed_idle : armed = true → pending = 0

def Worker.arrive (w : Worker) : Worker where
  pending := w.pending + 1
  armed := false
  readable := w.armed || w.readable
  armed_idle := fun h => nomatch h

/-- `worker::progress`, which leaves `left` events if it makes progress. -/
def Worker.progress (w : Worker) (left : Nat) : Option (Bool × Worker) :=
  if w.pending = 0 then some (false, w)
  else if hleft : left < w.pending then
    some (true, { w with
      pending := left
      armed_idle := fun h => absurd (w.armed_idle h) (Nat.ne_of_gt (Nat.zero_lt_of_lt hleft)) })
  else none

/-- `worker::arm`. -/
def Worker.arm (w : Worker) : Bool × Worker :=
  if hidle : w.pending = 0 then
    (true, { w with armed := true, readable := false, armed_idle := fun _ => hidle })
  else (false, w)

/-- The next event is told, or there is one to be told of. -/
def Worker.Wakes (w : Worker) : Prop :=
  w.armed = true ∨ w.readable = true

/-- The statements of the callback that `register_loop` sets. -/
inductive Stmt where
  | progress
  | arm
  | useCount
  | waitReadable
  | reset
  | ret
deriving DecidableEq, Repr

/-- An event loop and a worker; `references` are the `shared_ptr`s to the worker
outside the callback, `callback` is where the callback is if it runs. -/
structure State where
  loop : EventLoop.State
  worker : Worker
  references : Nat
  callback : Option Stmt

/-- The channel as `register_loop` sets it up; the callback owns it. -/
def eventChannel (fd : Fd) : Channel :=
  (Channel.new fd true).setCallback .readable .run

/-- `register_loop`, if its `wait_readable` does not throw. -/
def registerLoop (l : EventLoop.State) (fd : Fd) (admits : Bool) : Option EventLoop.State :=
  let id := l.objects.length
  match Lts.run EventLoop.step l [.newChannel fd, .setCallback id .readable .run] with
  | some l =>
    match l.registerChannel id fd .readable admits with
    | (l, true) => some l
    | (_, false) => none
  | none => none

inductive Act where
  | arrive
  | progress (left : Nat)
  | arm
  | acquire
  | release
  | loop (a : EventLoop.Act)
  | callback (left : Nat) (admits : Bool)

section

-- The event channel and its descriptor.
variable (id : ChannelId) (fd : Fd)

/-- The callback of the event channel runs. -/
def CallbackRuns : EventLoop.Pc → Prop
  | .running .readable h => h.id = id
  | .running .writable _ | .outside | .batch _ | .calling .. | .returned .. | .done _
  | .aborted => False

instance : ∀ pc, Decidable (CallbackRuns id pc)
  | .running .readable h => inferInstanceAs (Decidable (h.id = id))
  | .running .writable _ | .outside | .batch _ | .calling .. | .returned .. | .done _
  | .aborted => inferInstanceAs (Decidable False)

/-- What the rest of the program does with the loop: nothing to the event channel.
The kernel watches the descriptor for reading, level-triggered, and does not give its
number away. -/
def Apart (s : State) (a : EventLoop.Act) : Prop :=
  a.target ≠ some id ∧
    match a with
    | .newChannel fd' => fd' ≠ fd
    | .epollWait batch => ∀ e ∈ batch, e.1 = some fd →
        (e.2.epollIn = true → s.worker.readable = true) ∧ e.2.epollOut = false
    | .advance => s.callback = none ∨ s.callback = some .ret
    | .throw => s.callback = none
    | .setCallback .. | .register .. | .deregister _ | .await .. | .release _ => True

instance (s : State) (a : EventLoop.Act) : Decidable (Apart id fd s a) := by
  unfold Apart
  cases a <;> infer_instance

/-- The next statement of the callback. -/
def runCallback (s : State) (stmt : Stmt) (left : Nat) (admits : Bool) : Option State :=
  match stmt with
  | .progress =>
    (s.worker.progress left).map fun (more, w) =>
      { s with worker := w, callback := some (if more then .progress else .arm) }
  | .arm =>
    let (armed, w) := s.worker.arm
    some { s with worker := w, callback := some (if armed then .useCount else .progress) }
  | .useCount =>
    -- the callback holds one reference itself
    some { s with callback := some (if s.references + 1 > 2 then .waitReadable else .reset) }
  | .waitReadable =>
    match s.loop.registerChannel id fd .readable admits with
    | (l, true) => some { s with loop := l, callback := some .ret }
    | (l, false) =>
      (EventLoop.step l .throw).map fun l => { s with loop := l, callback := none }
  | .reset =>
    (s.loop.lock id).map fun c =>
      { s with
        loop := s.loop.setChannel id
          { c with loop := false, readableCallback := .noop, owned := false }
        callback := some .ret }
  | .ret => none

/-- One step, if it can happen. Other references to the worker remain. -/
def step (s : State) : Act → Option State
  | .arrive => some { s with worker := s.worker.arrive }
  | .progress left => (s.worker.progress left).map fun (_, w) => { s with worker := w }
  | .arm => some { s with worker := s.worker.arm.2 }
  | .acquire => some { s with references := s.references + 1 }
  | .release =>
    if 1 < s.references then some { s with references := s.references - 1 } else none
  | .loop a =>
    if Apart id fd s a then
      (EventLoop.step s.loop a).map fun l =>
        { s with
          loop := l
          callback :=
            if a = .advance then if CallbackRuns id l.pc then some .progress else none
            else s.callback }
    else none
  | .callback left admits =>
    s.callback.bind fun stmt => runCallback id fd s stmt left admits

/-- The next poll reports the descriptor and runs the callback. -/
def PollRuns (s : State) : Prop :=
  ∃ s', Lts.run (step id fd) s [.loop (.epollWait [readEvent fd]), .loop .advance, .loop .advance] =
      some s' ∧ s'.callback = some .progress

/-- Events that are not processed are seen: while the channel is registered and its
callback does not run, the descriptor is readable, and the next poll runs the callback. -/
def Good (s : State) : Prop :=
  s.loop.epoll fd ≠ none → s.callback = none → s.worker.pending ≠ 0 →
    s.worker.readable = true ∧ (s.loop.pc = .outside → PollRuns id fd s)

end

theorem callbackRuns_iff {id : ChannelId} {pc : EventLoop.Pc} :
    CallbackRuns id pc ↔ ∃ h, pc = .running .readable h ∧ h.id = id := by
  constructor
  · intro hruns
    cases pc with
    | running d h =>
      cases d with
      | readable => exact ⟨h, rfl, hruns⟩
      | writable => cases hruns
    | outside | batch _ | calling _ _ | returned _ _ | done _ | aborted => cases hruns
  · rintro ⟨h, rfl, hid⟩
    exact hid

/-! ## The worker -/

theorem Worker.wakes_arrive {w : Worker} : w.arrive.Wakes ↔ w.Wakes := by
  simp only [Worker.Wakes, Worker.arrive, Bool.or_eq_true]
  simp

theorem Worker.wakes_progress {w w' : Worker} {left : Nat} {more : Bool}
    (h : w.progress left = some (more, w')) : w'.Wakes ↔ w.Wakes := by
  unfold Worker.progress at h
  split at h
  · cases h
    exact Iff.rfl
  · split at h
    · cases h
      exact Iff.rfl
    · cases h

theorem Worker.wakes_arm {w : Worker} (hw : w.Wakes) : w.arm.2.Wakes := by
  unfold Worker.arm
  split
  · exact .inl rfl
  · exact hw

/-- Of an event that is there the descriptor tells. -/
theorem Worker.readable_of_wakes {w : Worker} (hw : w.Wakes) (hpending : w.pending ≠ 0) :
    w.readable = true :=
  hw.resolve_left fun harmed => hpending (w.armed_idle harmed)

/-! ## The event channel in the loop -/

section

variable {id : ChannelId} {fd : Fd}

/-- The event channel while `register_loop`'s callback is set. After the read callback
under `EPOLLERR` its descriptor may be watched without an entry, until the write
callback deregisters it. -/
structure Watched (id : ChannelId) (fd : Fd) (l : EventLoop.State) : Prop where
  channel : l.lock id = some (eventChannel fd)
  entry : l.epoll fd ≠ none → l.channels fd = some id ∨
    ∃ h, l.pc = .calling .writable h ∧ h.id = id ∧ h.events.epollErr = true
  written : ∀ h, h.id = id → l.pc = .running .writable h ∨ l.pc = .returned .writable h →
    l.epoll fd = none

/-- No other live channel has the descriptor. -/
def Alone (id : ChannelId) (fd : Fd) (l : EventLoop.State) : Prop :=
  ∀ j c, l.lock j = some c → j ≠ id → c.fd ≠ fd

variable {l l' : EventLoop.State} {a : EventLoop.Act}

theorem handle_eventChannel (d : EventLoop.Direction) :
    ((eventChannel fd).callback d).handle = none := by
  cases d <;> rfl

/-- While a callback of the event channel runs, its descriptor is not watched. -/
theorem epoll_callback {d : EventLoop.Direction} {h : EventLoop.Handling} :
    (l.callback d h (eventChannel fd)).epoll fd = none := by
  have hdereg : (l.deregister fd).epoll fd = none :=
    EventLoop.epoll_deregister.trans (if_pos rfl)
  cases d <;> exact hdereg

theorem Alone.step (halone : Alone id fd l) (hnew : a ≠ .newChannel fd)
    (hstep : EventLoop.step l a = some l') : Alone id fd l' := by
  intro j c hc hj
  rcases EventLoop.fd_step hstep hc with ⟨c₀, hc₀, hfd⟩ | rfl
  · exact hfd ▸ halone j c₀ hc₀ hj
  · exact fun hfd => hnew (hfd ▸ rfl)

theorem Watched.lock_step (hw : Watched id fd l) (htarget : a.target ≠ some id)
    (hstep : EventLoop.step l a = some l') : l'.lock id = some (eventChannel fd) := by
  have hlen : id < l.objects.length :=
    (List.getElem?_eq_some_iff.mp (EventLoop.lock_eq_some.mp hw.channel).1).1
  have hhandle : ∀ c, l.lock id = some c → ∀ d, (c.callback d).handle = none := by
    intro c hc d
    obtain rfl := Option.some.inj (hw.channel.symm.trans hc)
    exact handle_eventChannel d
  rcases EventLoop.lock_step hstep htarget hlen hhandle with hsame | ⟨-, c, hc, howned⟩
  · exact hsame.trans hw.channel
  · obtain rfl := Option.some.inj (hw.channel.symm.trans hc)
    cases howned

/-- Only before the write callback under `EPOLLERR` a watched descriptor may be without
an entry. -/
theorem Watched.entry_eq (hw : Watched id fd l)
    (hpc : ∀ h, h.events.epollErr = true → l.pc ≠ .calling .writable h)
    (hset : l.epoll fd ≠ none) : l.channels fd = some id :=
  (hw.entry hset).resolve_right fun ⟨h, hpc', _, herr⟩ => hpc h herr hpc'

theorem next_not_written {d : EventLoop.Direction} {h h' : EventLoop.Handling} :
    ¬(h.next d = .running .writable h' ∨ h.next d = .returned .writable h') := by
  cases d <;> rintro (hpc | hpc) <;> cases hpc

/-- The `shared_ptr` of `poll` is not the last one: `register_loop`'s callback holds
another. -/
theorem drop_eventChannel (hc : l.lock id = some (eventChannel fd)) : l.drop id = l := by
  unfold EventLoop.State.drop
  rw [hc]
  exact if_neg fun hfree => by cases hfree.1

/-- After a callback of the event channel `poll` erases the entry under `EPOLLERR`. The
write callback is the one that runs next then. -/
theorem Watched.returned (hw : Watched id fd l) {d : EventLoop.Direction}
    {h : EventLoop.Handling} (hid : h.id = id) (hpc : l.pc = .returned d h)
    (hset : (if h.events.epollErr then l.erase h.fd else l).epoll fd ≠ none) :
    (if h.events.epollErr then l.erase h.fd else l).channels fd = some id ∨
      ∃ h', h.next d = .calling .writable h' ∧ h'.id = id ∧ h'.events.epollErr = true := by
  have hepoll : (if h.events.epollErr then l.erase h.fd else l).epoll = l.epoll := by
    split <;> rfl
  rw [hepoll] at hset
  cases d with
  | readable =>
    by_cases herr : h.events.epollErr = true
    · exact .inr ⟨h, rfl, hid, herr⟩
    · refine .inl ?_
      rw [if_neg herr]
      exact hw.entry_eq (fun h₀ _ hpc₀ => by cases hpc.symm.trans hpc₀) hset
  | writable => exact absurd (hw.written h hid (.inr hpc)) hset

/-- The iteration of `poll` for the event channel. -/
theorem Watched.advance (hw : Watched id fd l) {h : EventLoop.Handling}
    (hh : l.pc.handling = some h) (hid : h.id = id)
    (hstep : EventLoop.step l .advance = some l') : Watched id fd l' := by
  have htarget : EventLoop.Act.advance.target ≠ some id := fun h => by cases h
  have hchannel := hw.lock_step htarget hstep
  have hsame : ∀ {h' : EventLoop.Handling}, l.pc.handling = some h' → h' = h :=
    fun hh' => Option.some.inj (hh'.symm.trans hh)
  cases EventLoop.step_cases hstep with
  | batchEnd hpc => cases hh.symm.trans (congrArg EventLoop.Pc.handling hpc)
  | event hpc => cases hh.symm.trans (congrArg EventLoop.Pc.handling hpc)
  | @call d h' c hpc _ hc =>
    -- the callback deregisters its descriptor
    obtain rfl := hsame (congrArg EventLoop.Pc.handling hpc)
    obtain rfl : eventChannel fd = c := by
      rw [hid, hw.channel] at hc
      exact Option.some.inj hc
    have hnone : (l.callback d h' (eventChannel fd)).epoll fd = none := epoll_callback
    exact ⟨hchannel, fun hset => absurd hnone hset, fun _ _ _ => hnone⟩
  | @skip d h' hpc hmask =>
    refine ⟨hchannel, fun hset => .inl ?_, fun _ _ hpc' => absurd hpc' next_not_written⟩
    refine hw.entry_eq (fun h₀ herr hpc₀ => ?_) hset
    cases hpc.symm.trans hpc₀
    exact hmask (.inr herr)
  | @ret d h' hpc =>
    refine ⟨hchannel, fun hset => .inl ?_, fun h'' hid'' hpc' => ?_⟩
    · exact hw.entry_eq (fun h₀ _ hpc₀ => by cases hpc.symm.trans hpc₀) hset
    · rcases hpc' with hpc' | hpc'
      · cases hpc'
      · cases hpc'
        exact hw.written _ hid'' (.inl hpc)
  | @returned d h' hpc =>
    obtain rfl := hsame (congrArg EventLoop.Pc.handling hpc)
    exact ⟨hchannel, hw.returned hid hpc, fun _ _ hpc' => absurd hpc' next_not_written⟩
  | @done h' hpc =>
    obtain rfl := hsame (congrArg EventLoop.Pc.handling hpc)
    have hkeeps : ({ l with pc := .batch h'.rest } : EventLoop.State).drop h'.id =
        { l with pc := .batch h'.rest } := drop_eventChannel (hid ▸ hw.channel)
    rw [hkeeps] at hchannel ⊢
    refine ⟨hchannel, fun hset => .inl ?_, fun h'' _ hpc' => ?_⟩
    · exact hw.entry_eq (fun h₀ _ hpc₀ => by cases hpc.symm.trans hpc₀) hset
    · rcases hpc' with hpc' | hpc' <;> cases hpc'

/-- A step of another part of the program. -/
theorem Watched.other (hinv : EventLoop.Inv l) (hw : Watched id fd l) (halone : Alone id fd l)
    (htarget : a.target ≠ some id)
    (hpoll : a = .advance → ∀ h, l.pc.handling = some h → h.id ≠ id)
    (hstep : EventLoop.step l a = some l') : Watched id fd l' := by
  have hsame : EventLoop.SameAt fd l l' :=
    EventLoop.sameAt_step hinv halone htarget hpoll hstep
  constructor
  · exact hw.lock_step htarget hstep
  · intro hset
    rcases hw.entry (hsame.2 ▸ hset) with hentry | ⟨h, hpc, hid, -⟩
    · exact .inl (hsame.1.trans hentry)
    · -- before the write callback only an iteration for the event channel goes on
      have hadvance := EventLoop.advance_of_poll (congrArg EventLoop.Pc.userRuns hpc) hstep
      exact absurd hid (hpoll hadvance h (congrArg EventLoop.Pc.handling hpc))
  · intro h hid hpc
    rw [hsame.2]
    have hh : l'.pc.handling = some h := by
      rcases hpc with hpc | hpc <;> rw [hpc] <;> rfl
    rcases EventLoop.handling_step hstep hh with hold | ⟨hadvance, h₀, hh₀, hid₀⟩ | hnew | hdone
    · exact hw.written h hid (hold ▸ hpc)
    · exact absurd (hid₀.trans hid) (hpoll hadvance h₀ hh₀)
    · rcases hpc with hpc | hpc <;> cases hpc.symm.trans hnew
    · rcases hpc with hpc | hpc <;> cases hpc.symm.trans hdone

/-- A step that does not name the event channel. -/
theorem Watched.step (hinv : EventLoop.Inv l) (hw : Watched id fd l) (halone : Alone id fd l)
    (htarget : a.target ≠ some id) (hstep : EventLoop.step l a = some l') :
    Watched id fd l' := by
  by_cases hpoll : a = .advance ∧ ∃ h, l.pc.handling = some h ∧ h.id = id
  · rcases hpoll with ⟨rfl, h, hh, hid⟩
    exact hw.advance hh hid hstep
  · exact hw.other hinv halone htarget (fun ha h hh hid => hpoll ⟨ha, h, hh, hid⟩) hstep

end

end Ucxpp.WorkerEpoll
