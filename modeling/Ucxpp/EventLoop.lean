import Mathlib.Logic.Function.Basic
import Ucxpp.Lib.Lts

/-!
# EventLoop — `socket::event_loop` and its channels

The event loop keeps two tables: `channels_`, from file descriptors to weak
pointers, and the set of descriptors that the kernel watches. `register_channel`,
`deregister`, `poll` and the destructor of a channel change them in different
orders.

`poll` is a sequence of statements here (`Pc`), because the callbacks that it runs
are code of the user: while one of them runs, and while `poll` does not run, the
user creates, releases, registers, deregisters and awaits channels in any order.
An event of a batch is a file descriptor, `none` for the close event, with any
mask; that is more than the kernel reports.
-/

namespace Ucxpp.EventLoop

open Function (update)

abbrev Fd := Nat
abbrev ChannelId := Nat
abbrev WaitId := Nat

/-- `EPOLLIN | EPOLLPRI`, or `EPOLLOUT`. -/
inductive Direction where
  | readable
  | writable
deriving DecidableEq, Repr

/-- What a channel stores to be called: `noop_callback`, the `h.resume()` of one
`await_suspend`, or other code. -/
inductive Callback where
  | noop
  | resume (w : WaitId)
  | run
deriving DecidableEq, Repr

/-- The wait whose coroutine the callback resumes. -/
def Callback.handle : Callback → Option WaitId
  | .resume w => some w
  | .noop | .run => none

/-- What `poll` reads of `event.events`. It never tests `EPOLLPRI`, which `register_read` asks
for: an event with `EPOLLPRI` alone is the one in which nothing is set. `EPOLLHUP`, which the
kernel reports unasked, is not tested either. -/
structure Events where
  epollIn : Bool
  epollOut : Bool
  epollErr : Bool
  epollHup : Bool
deriving DecidableEq, Repr

/-- The test of the mask before a callback, without `EPOLLERR`. -/
def Events.reports (self : Events) : Direction → Bool
  | .readable => self.epollIn
  | .writable => self.epollOut

/-- A `channel`: `loop` says that `loop_` is set, `owned` that the user holds a
`shared_ptr` to it. The coroutine of the wait in `waiting` holds another one. -/
structure Channel where
  fd : Fd
  loop : Bool
  readableCallback : Callback
  writableCallback : Callback
  owned : Bool
  alive : Bool
  waiting : Option (Direction × WaitId)
deriving DecidableEq, Repr

/-- `channel::channel`. -/
def Channel.new (fd : Fd) (loop : Bool) : Channel where
  fd := fd
  loop := loop
  readableCallback := .noop
  writableCallback := .noop
  owned := true
  alive := true
  waiting := none

def Channel.callback (self : Channel) : Direction → Callback
  | .readable => self.readableCallback
  | .writable => self.writableCallback

/-- `set_readable_callback` and `set_writable_callback`. -/
def Channel.setCallback (self : Channel) (d : Direction) (callback : Callback) : Channel :=
  match d with
  | .readable => { self with readableCallback := callback }
  | .writable => { self with writableCallback := callback }

/-- The iteration of `poll` for one event, whose `channel` it has locked. -/
structure Handling where
  id : ChannelId
  fd : Fd
  events : Events
  rest : List (Option Fd × Events)
deriving DecidableEq, Repr

/-- Where the thread is: in no `poll`, before the next event of a batch, before,
in and after the callback of one direction, or at the end of an iteration. -/
inductive Pc where
  | outside
  | batch (rest : List (Option Fd × Events))
  | calling (d : Direction) (h : Handling)
  | running (d : Direction) (h : Handling)
  | returned (d : Direction) (h : Handling)
  | done (h : Handling)
  | aborted
deriving DecidableEq, Repr

/-- Code of the user runs. -/
def Pc.userRuns : Pc → Bool
  | .outside | .running .. => true
  | .batch _ | .calling .. | .returned .. | .done _ | .aborted => false

/-- The iteration whose `channel` is a `shared_ptr` of `poll`. -/
def Pc.handling : Pc → Option Handling
  | .calling _ h | .running _ h | .returned _ h | .done h => some h
  | .outside | .batch _ | .aborted => none

/-- The statement after the one for a direction. -/
def Handling.next (self : Handling) : Direction → Pc
  | .readable => .calling .writable self
  | .writable => .done self

inductive Event where
  | suspended (w : WaitId)
  | failed (w : WaitId)
  | resumed (w : WaitId)
deriving DecidableEq, Repr

/-- The state of one loop; `objects` are the channels, dead ones included. -/
structure State where
  channels : Fd → Option ChannelId
  epoll : Fd → Option Direction
  objects : List Channel
  closeTriggered : Bool
  nextWait : WaitId
  log : List Event
  pc : Pc

/-- `event_loop::event_loop`. -/
def State.init : State where
  channels := fun _ => none
  epoll := fun _ => none
  objects := []
  closeTriggered := false
  nextWait := 0
  log := []
  pc := .outside

/-! ## The operations -/

def State.setChannel (s : State) (id : ChannelId) (c : Channel) : State :=
  { s with objects := s.objects.set id c }

def State.record (s : State) (e : Event) : State :=
  { s with log := s.log ++ [e] }

/-- A coroutine is suspended for a wait that has not been there before. -/
def State.newWait (s : State) : State :=
  { s with nextWait := s.nextWait + 1 }.record (.suspended s.nextWait)

/-- `channels_.erase(fd)`. -/
def State.erase (s : State) (fd : Fd) : State :=
  { s with channels := update s.channels fd none }

/-- `channels_.insert`, which keeps an entry that is there. -/
def State.insert (s : State) (fd : Fd) (id : ChannelId) : State :=
  match s.channels fd with
  | some _ => s
  | none => { s with channels := update s.channels fd (some id) }

/-- `event_loop::register_channel`, and whether it returns. `EPOLL_CTL_ADD` fails
for a descriptor that is in the set, and may fail for another reason (`admits`). -/
def State.registerChannel (s : State) (id : ChannelId) (fd : Fd) (d : Direction)
    (admits : Bool) : State × Bool :=
  let s := s.insert fd id
  if s.epoll fd = none ∧ admits = true then
    ({ s with epoll := update s.epoll fd (some d) }, true)
  -- the `catch` block of `register_channel` erases by descriptor, whoever made the entry
  else (s.erase fd, false)

/-- `event_loop::deregister`. -/
def State.deregister (s : State) (fd : Fd) : State :=
  { s with epoll := update s.epoll fd none }.erase fd

/-- `channel::~channel`, after which the descriptor is free. -/
def State.destroy (s : State) (id : ChannelId) (c : Channel) : State :=
  (if c.loop then s.deregister c.fd else s).setChannel id { c with alive := false }

/-- `weak_ptr::lock`. -/
def State.lock (s : State) (id : ChannelId) : Option Channel :=
  s.objects[id]?.filter (·.alive)

/-- The channel dies when nobody holds it. -/
def State.drop (s : State) (id : ChannelId) : State :=
  match s.lock id with
  | some c =>
    if c.owned = false ∧ c.waiting = none ∧ s.pc.handling.map Handling.id ≠ some id then
      s.destroy id c
    else s
  | none => s

/-- `await_suspend`: it stores the handle and waits for the direction. -/
def State.awaitSuspend (s : State) (id : ChannelId) (c : Channel) (d : Direction)
    (admits : Bool) : State :=
  let w := s.nextWait
  let c := c.setCallback d (.resume w)
  let (s, registered) := s.newWait.registerChannel id c.fd d admits
  if registered then s.setChannel id { c with waiting := some (d, w) }
  else (s.setChannel id c).record (.failed w)

/-- `readable_callback` and `writable_callback`, up to the code that they call. -/
def State.callback (s : State) (d : Direction) (h : Handling) (c : Channel) : State :=
  if c.loop then
    let s := s.deregister c.fd
    match c.callback d with
    | .noop => { s with pc := .returned d h }
    | .run => { s with pc := .running d h }
    | .resume w =>
      let waiting := if c.waiting = some (d, w) then none else c.waiting
      { s.setChannel h.id { c with waiting := waiting } with
        log := s.log ++ [.resumed w], pc := .running d h }
  else { s with pc := .aborted }

/-- `poll` comes to an event of its batch. -/
def State.event (s : State) (fd : Option Fd) (events : Events)
    (rest : List (Option Fd × Events)) : State :=
  match fd with
  -- `close_event_fd_`, which `close` writes
  | none => { s with closeTriggered := true, pc := .batch rest }
  | some fd =>
    match s.channels fd with
    -- `assert(it != channels_.end())`, without which `end()` is dereferenced
    | none => { s with pc := .aborted }
    | some id =>
      match s.lock id with
      | some _ => { s with pc := .calling .readable ⟨id, fd, events, rest⟩ }
      -- the `weak_ptr` has expired
      | none => { s.erase fd with pc := .batch rest }

/-- The next statement of `poll`, or the return of the callback that it runs. -/
def State.advance (s : State) : Option State :=
  match s.pc with
  | .outside | .aborted => none
  | .batch [] => some { s with pc := .outside }
  | .batch ((fd, events) :: rest) => some (s.event fd events rest)
  | .calling d h =>
    if h.events.reports d = true ∨ h.events.epollErr = true then
      (s.lock h.id).map (s.callback d h)
    else some { s with pc := h.next d }
  | .running d h => some { s with pc := .returned d h }
  | .returned d h =>
    -- `channels_.erase(fd)` under `EPOLLERR`, after each of the two callbacks
    some { (if h.events.epollErr then s.erase h.fd else s) with pc := h.next d }
  | .done h => some ({ s with pc := .batch h.rest }.drop h.id)

/-! ## The steps -/

inductive Act where
  | newChannel (fd : Fd)
  | setCallback (id : ChannelId) (d : Direction) (callback : Callback)
  | register (id : ChannelId) (d : Direction) (admits : Bool)
  | deregister (id : ChannelId)
  | await (id : ChannelId) (d : Direction) (admits : Bool)
  | release (id : ChannelId)
  | throw
  | epollWait (batch : List (Option Fd × Events))
  | advance
deriving DecidableEq, Repr

/-- The channel that the code of the user names. -/
def Act.target : Act → Option ChannelId
  | .setCallback id .. | .register id .. | .deregister id | .await id .. | .release id => some id
  | .newChannel _ | .throw | .epollWait _ | .advance => none

/-- One step, if it can happen. The kernel gives a new channel a descriptor that
no live one has, reports each watched descriptor once, and a channel has one
pending wait at most. An exception of a callback leaves `poll`. -/
def step (s : State) : Act → Option State
  | .newChannel fd =>
    if s.pc.userRuns ∧ ∀ c ∈ s.objects, c.alive = true → c.fd ≠ fd then
      some { s with objects := s.objects ++ [.new fd true] }
    else none
  | .setCallback id d callback =>
    match s.lock id with
    | some c =>
      if s.pc.userRuns ∧ callback.handle = none then
        some (s.setChannel id (c.setCallback d callback))
      else none
    | none => none
  | .register id d admits =>
    match s.lock id with
    | some c =>
      if s.pc.userRuns ∧ c.loop then some (s.registerChannel id c.fd d admits).1 else none
    | none => none
  | .deregister id =>
    match s.lock id with
    | some c => if s.pc.userRuns ∧ c.loop then some (s.deregister c.fd) else none
    | none => none
  | .await id d admits =>
    match s.lock id with
    | some c =>
      if s.pc.userRuns ∧ c.loop ∧ c.waiting = none then
        some (s.awaitSuspend id c d admits)
      else none
    | none => none
  | .release id =>
    match s.lock id with
    | some c =>
      if s.pc.userRuns ∧ c.owned then
        some ((s.setChannel id { c with owned := false }).drop id)
      else none
    | none => none
  | .throw =>
    match s.pc with
    -- the rest of the batch is lost with the call of `poll`
    | .running _ h => some { s with pc := .done { h with rest := [] } }
    | .outside | .batch _ | .calling .. | .returned .. | .done _ | .aborted => none
  | .epollWait batch =>
    if s.pc = .outside ∧ (batch.map Prod.fst).Nodup ∧
        ∀ fd ∈ batch.filterMap Prod.fst, s.epoll fd ≠ none then
      some { s with pc := .batch batch }
    else none
  | .advance => s.advance

/-- The steps, one constructor for each way to take one. -/
inductive Step (s : State) : Act → State → Prop where
  | newChannel {fd : Fd} (hruns : s.pc.userRuns = true)
      (hfree : ∀ c ∈ s.objects, c.alive = true → c.fd ≠ fd) :
      Step s (.newChannel fd) { s with objects := s.objects ++ [.new fd true] }
  | setCallback {id : ChannelId} {d : Direction} {callback : Callback} {c : Channel}
      (hc : s.lock id = some c) (hruns : s.pc.userRuns = true)
      (hcallback : callback.handle = none) :
      Step s (.setCallback id d callback) (s.setChannel id (c.setCallback d callback))
  | register {id : ChannelId} {d : Direction} {admits : Bool} {c : Channel}
      (hc : s.lock id = some c) (hruns : s.pc.userRuns = true) :
      Step s (.register id d admits) (s.registerChannel id c.fd d admits).1
  | deregister {id : ChannelId} {c : Channel} (hc : s.lock id = some c)
      (hruns : s.pc.userRuns = true) :
      Step s (.deregister id) (s.deregister c.fd)
  | await {id : ChannelId} {d : Direction} {admits : Bool} {c : Channel}
      (hc : s.lock id = some c) (hruns : s.pc.userRuns = true) (hfree : c.waiting = none) :
      Step s (.await id d admits) (s.awaitSuspend id c d admits)
  | release {id : ChannelId} {c : Channel} (hc : s.lock id = some c)
      (hruns : s.pc.userRuns = true) :
      Step s (.release id) ((s.setChannel id { c with owned := false }).drop id)
  | throw {d : Direction} {h : Handling} (hpc : s.pc = .running d h) :
      Step s .throw { s with pc := .done { h with rest := [] } }
  | epollWait {batch : List (Option Fd × Events)} (hpc : s.pc = .outside)
      (hset : ∀ fd ∈ batch.filterMap Prod.fst, s.epoll fd ≠ none) :
      Step s (.epollWait batch) { s with pc := .batch batch }
  | batchEnd (hpc : s.pc = .batch []) : Step s .advance { s with pc := .outside }
  | event {fd : Option Fd} {events : Events} {rest : List (Option Fd × Events)}
      (hpc : s.pc = .batch ((fd, events) :: rest)) :
      Step s .advance (s.event fd events rest)
  | call {d : Direction} {h : Handling} {c : Channel} (hpc : s.pc = .calling d h)
      (hmask : h.events.reports d = true ∨ h.events.epollErr = true)
      (hc : s.lock h.id = some c) : Step s .advance (s.callback d h c)
  | skip {d : Direction} {h : Handling} (hpc : s.pc = .calling d h)
      (hmask : ¬ (h.events.reports d = true ∨ h.events.epollErr = true)) :
      Step s .advance { s with pc := h.next d }
  | ret {d : Direction} {h : Handling} (hpc : s.pc = .running d h) :
      Step s .advance { s with pc := .returned d h }
  | returned {d : Direction} {h : Handling} (hpc : s.pc = .returned d h) :
      Step s .advance { (if h.events.epollErr then s.erase h.fd else s) with pc := h.next d }
  | done {h : Handling} (hpc : s.pc = .done h) :
      Step s .advance ({ s with pc := .batch h.rest }.drop h.id)

theorem advance_cases {s s' : State} (h : s.advance = some s') : Step s .advance s' := by
  unfold State.advance at h
  split at h
  · cases h
  · cases h
  · rename_i hpc
    exact Option.some.inj h ▸ .batchEnd hpc
  · rename_i hpc
    exact Option.some.inj h ▸ .event hpc
  · rename_i hpc
    split at h
    · rename_i hmask
      rcases Option.map_eq_some_iff.mp h with ⟨c, hc, rfl⟩
      exact .call hpc hmask hc
    · rename_i hmask
      exact Option.some.inj h ▸ .skip hpc hmask
  · rename_i hpc
    exact Option.some.inj h ▸ .ret hpc
  · rename_i hpc
    exact Option.some.inj h ▸ .returned hpc
  · rename_i hpc
    exact Option.some.inj h ▸ .done hpc

theorem step_cases {s s' : State} {a : Act} (h : step s a = some s') : Step s a s' := by
  cases a with
  | advance => exact advance_cases h
  | newChannel fd =>
    rcases Option.ite_none_right_eq_some.mp h with ⟨⟨hruns, hfree⟩, hs⟩
    exact Option.some.inj hs ▸ .newChannel hruns hfree
  | epollWait batch =>
    rcases Option.ite_none_right_eq_some.mp h with ⟨⟨hpc, -, hset⟩, hs⟩
    exact Option.some.inj hs ▸ .epollWait hpc hset
  | throw =>
    simp only [step] at h
    split at h
    · rename_i hpc
      exact Option.some.inj h ▸ .throw hpc
    all_goals cases h
  | setCallback id d callback =>
    simp only [step] at h
    split at h
    · rename_i c hc
      rcases Option.ite_none_right_eq_some.mp h with ⟨⟨hruns, hcallback⟩, hs⟩
      exact Option.some.inj hs ▸ .setCallback hc hruns hcallback
    · cases h
  | register id d admits =>
    simp only [step] at h
    split at h
    · rename_i c hc
      rcases Option.ite_none_right_eq_some.mp h with ⟨⟨hruns, -⟩, hs⟩
      exact Option.some.inj hs ▸ .register hc hruns
    · cases h
  | deregister id =>
    simp only [step] at h
    split at h
    · rename_i c hc
      rcases Option.ite_none_right_eq_some.mp h with ⟨⟨hruns, -⟩, hs⟩
      exact Option.some.inj hs ▸ .deregister hc hruns
    · cases h
  | await id d admits =>
    simp only [step] at h
    split at h
    · rename_i c hc
      rcases Option.ite_none_right_eq_some.mp h with ⟨⟨hruns, -, hfree⟩, hs⟩
      exact Option.some.inj hs ▸ .await hc hruns hfree
    · cases h
  | release id =>
    simp only [step] at h
    split at h
    · rename_i c hc
      rcases Option.ite_none_right_eq_some.mp h with ⟨⟨hruns, -⟩, hs⟩
      exact Option.some.inj hs ▸ .release hc hruns
    · cases h

/-! ## What the operations leave -/

section

variable {s : State} {id i : ChannelId} {fd fd' : Fd} {c c' : Channel} {d : Direction}
  {h : Handling}

theorem lock_eq_some : s.lock id = some c ↔ s.objects[id]? = some c ∧ c.alive = true :=
  Option.filter_eq_some_iff

theorem channels_erase :
    (s.erase fd).channels fd' = if fd' = fd then none else s.channels fd' :=
  Function.update_apply ..

theorem channels_deregister :
    (s.deregister fd).channels fd' = if fd' = fd then none else s.channels fd' :=
  Function.update_apply ..

theorem epoll_deregister :
    (s.deregister fd).epoll fd' = if fd' = fd then none else s.epoll fd' :=
  Function.update_apply ..

theorem channels_insert :
    (s.insert fd id).channels fd' =
      if fd' = fd then some ((s.channels fd).getD id) else s.channels fd' := by
  unfold State.insert
  split
  · rename_i id' hentry
    rw [hentry]
    split
    · rename_i he
      exact he ▸ hentry
    · rfl
  · rename_i hentry
    rw [hentry]
    exact Function.update_apply ..

theorem erase_insert : (s.insert fd id).erase fd = s.erase fd := by
  unfold State.insert
  split
  · rfl
  · simp only [State.erase, Function.update_idem]

theorem epoll_insert : (s.insert fd id).epoll = s.epoll := by
  unfold State.insert
  split <;> rfl

/-- Either the registration succeeds, or the entry is gone. -/
theorem registerChannel_eq (admits : Bool) :
    s.registerChannel id fd d admits =
      if s.epoll fd = none ∧ admits = true then
        ({ s.insert fd id with epoll := update s.epoll fd (some d) }, true)
      else (s.erase fd, false) := by
  simp only [State.registerChannel, epoll_insert, erase_insert]

theorem channels_registerChannel (admits : Bool) :
    (s.registerChannel id fd d admits).1.channels fd' =
      if fd' = fd then
        if s.epoll fd = none ∧ admits = true then some ((s.channels fd).getD id) else none
      else s.channels fd' := by
  rw [registerChannel_eq]
  by_cases hok : s.epoll fd = none ∧ admits = true
  · simp only [if_pos hok, channels_insert]
  · simp only [if_neg hok, channels_erase]

theorem epoll_registerChannel (admits : Bool) :
    (s.registerChannel id fd d admits).1.epoll fd' =
      if fd' = fd ∧ s.epoll fd = none ∧ admits = true then some d else s.epoll fd' := by
  rw [registerChannel_eq]
  by_cases hok : s.epoll fd = none ∧ admits = true
  · simp only [if_pos hok, Function.update_apply, and_iff_left hok]
  · rw [if_neg hok, if_neg fun h => hok h.2]
    rfl

/-- A registration changes the tables only. -/
theorem registerChannel_tables (s : State) (id : ChannelId) (fd : Fd) (d : Direction)
    (admits : Bool) :
    ∃ channels epoll,
      (s.registerChannel id fd d admits).1 = { s with channels := channels, epoll := epoll } := by
  rw [registerChannel_eq]
  split
  · unfold State.insert
    split
    · exact ⟨_, _, rfl⟩
    · exact ⟨_, _, rfl⟩
  · exact ⟨_, _, rfl⟩

section

variable (admits : Bool)

@[simp] theorem objects_registerChannel :
    (s.registerChannel id fd d admits).1.objects = s.objects := by
  rcases registerChannel_tables s id fd d admits with ⟨_, _, h⟩
  rw [h]

@[simp] theorem lock_registerChannel :
    (s.registerChannel id fd d admits).1.lock i = s.lock i := by
  simp only [State.lock, objects_registerChannel]

@[simp] theorem pc_registerChannel : (s.registerChannel id fd d admits).1.pc = s.pc := by
  rcases registerChannel_tables s id fd d admits with ⟨_, _, h⟩
  rw [h]

@[simp] theorem log_registerChannel : (s.registerChannel id fd d admits).1.log = s.log := by
  rcases registerChannel_tables s id fd d admits with ⟨_, _, h⟩
  rw [h]

@[simp] theorem nextWait_registerChannel :
    (s.registerChannel id fd d admits).1.nextWait = s.nextWait := by
  rcases registerChannel_tables s id fd d admits with ⟨_, _, h⟩
  rw [h]

end

/-- What `lock` gives after the object of a live channel has changed. -/
theorem lock_setChannel (hc : s.lock id = some c) :
    (s.setChannel id c').lock i =
      if i = id then (if c'.alive = true then some c' else none) else s.lock i := by
  have hlt : id < s.objects.length :=
    (List.getElem?_eq_some_iff.mp (lock_eq_some.mp hc).1).1
  by_cases hi : i = id
  · subst hi
    simp only [State.lock, State.setChannel, List.getElem?_set_self hlt, Option.filter_some,
      if_true]
  · simp only [State.lock, State.setChannel, List.getElem?_set_ne (Ne.symm hi), if_neg hi]

theorem lock_setChannel_ne (hi : i ≠ id) : (s.setChannel id c').lock i = s.lock i := by
  simp only [State.lock, State.setChannel, List.getElem?_set_ne (Ne.symm hi)]

/-- The event of a live channel. -/
theorem event_of_entry {events : Events} {rest : List (Option Fd × Events)}
    (hentry : s.channels fd = some id) (hc : s.lock id = some c) :
    s.event (some fd) events rest = { s with pc := .calling .readable ⟨id, fd, events, rest⟩ } := by
  simp only [State.event, hentry, hc]

theorem advance_of_calling (hpc : s.pc = .calling d h)
    (hmask : h.events.reports d = true ∨ h.events.epollErr = true) (hc : s.lock h.id = some c) :
    s.advance = some (s.callback d h c) := by
  simp only [State.advance, hpc, if_pos hmask, hc, Option.map_some]

theorem fd_setCallback (callback : Callback) : (c.setCallback d callback).fd = c.fd := by
  cases d <;> rfl

theorem loop_setCallback (callback : Callback) : (c.setCallback d callback).loop = c.loop := by
  cases d <;> rfl

theorem alive_setCallback (callback : Callback) : (c.setCallback d callback).alive = c.alive := by
  cases d <;> rfl

theorem alive_of_lock (hc : s.lock id = some c) : c.alive = true :=
  (lock_eq_some.mp hc).2

end

end Ucxpp.EventLoop
