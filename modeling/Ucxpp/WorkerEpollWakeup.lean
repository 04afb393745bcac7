import Ucxpp.WorkerEpoll

/-!
# WorkerEpollWakeup — no event of the worker is lost

The invariant of the runs after `register_loop`. The worker half of it, `Wakes`, is
kept by every step but has to hold when `register_loop` returns.
-/

namespace Ucxpp.WorkerEpoll

open EventLoop (Fd ChannelId readEvent)

section

variable {id : ChannelId} {fd : Fd} {s s' : State}

/-- The callback of `register_loop` is set; while it runs the descriptor is not
watched, up to its `wait_readable`. -/
structure Attached (id : ChannelId) (fd : Fd) (s : State) : Prop where
  inv : EventLoop.Inv s.loop
  watched : Watched id fd s.loop
  body : ∀ stmt, s.callback = some stmt →
    (∃ h, s.loop.pc = .running .readable h ∧ h.id = id) ∧
      (stmt ≠ .ret → s.loop.epoll fd = none)

/-- The callback has been reset. -/
structure Detached (id : ChannelId) (fd : Fd) (s : State) : Prop where
  unwatched : s.loop.epoll fd = none
  idle : ∀ c, s.loop.lock id = some c →
    c.readableCallback = .noop ∧ c.writableCallback = .noop
  length : id < s.loop.objects.length
  body : s.callback = none ∨ s.callback = some .ret

/-- What holds after `register_loop`. -/
structure Inv (id : ChannelId) (fd : Fd) (s : State) : Prop where
  alone : Alone id fd s.loop
  channel : Attached id fd s ∨ Detached id fd s
  wakes : s.worker.Wakes

/-! ## The steps -/

/-- Steps that leave the loop and the callback alone. -/
theorem Inv.of_worker (hinv : Inv id fd s) (hloop : s'.loop = s.loop)
    (hcallback : s'.callback = s.callback) (hwakes : s'.worker.Wakes) : Inv id fd s' := by
  refine ⟨hloop ▸ hinv.alone, ?_, hwakes⟩
  rcases hinv.channel with hatt | hdet
  · refine .inl ⟨hloop ▸ hatt.inv, hloop ▸ hatt.watched, ?_⟩
    rw [hcallback, hloop]
    exact hatt.body
  · refine .inr ⟨hloop ▸ hdet.unwatched, ?_, hloop ▸ hdet.length, hcallback ▸ hdet.body⟩
    rw [hloop]
    exact hdet.idle

/-- A step of the loop that leads into the callback ends in its first statement. -/
theorem attached_loop {l : EventLoop.State} {a : EventLoop.Act} (halone : Alone id fd s.loop)
    (hatt : Attached id fd s) (hapart : Apart id fd s a)
    (hstep : EventLoop.step s.loop a = some l) :
    Attached id fd { s with
      loop := l
      callback :=
        if a = .advance then if CallbackRuns id l.pc then some .progress else none
        else s.callback } := by
  have hinv := hatt.inv.step hstep
  have hwatched := hatt.watched.step hatt.inv halone hapart.1 hstep
  refine ⟨hinv, hwatched, fun stmt hstmt => ?_⟩
  by_cases hadvance : a = .advance
  · subst hadvance
    simp only [if_true] at hstmt
    split at hstmt
    · rename_i hruns
      -- `poll` has called the callback in this step
      have hpc := callbackRuns_iff.mp hruns
      refine ⟨hpc, fun _ => ?_⟩
      rcases hpc with ⟨h, hpc, hid⟩
      rcases EventLoop.running_of_advance hstep hpc with ⟨c, hc, rfl⟩
      rw [hid, hatt.watched.channel] at hc
      obtain rfl := Option.some.inj hc
      have hnone : (s.loop.callback .readable h (eventChannel fd)).epoll fd = none :=
        epoll_callback
      exact hnone
    · cases hstmt
  · simp only [if_neg hadvance] at hstmt
    rcases hatt.body stmt hstmt with ⟨⟨h, hpc, hid⟩, hepoll⟩
    have hthrow : a ≠ .throw := by
      rintro rfl
      cases hapart.2.symm.trans hstmt
    have houtside : s.loop.pc ≠ .outside := fun hout => by cases hpc.symm.trans hout
    have hsame := EventLoop.sameAt_step hatt.inv halone hapart.1
      (fun ha => absurd ha hadvance) hstep
    refine ⟨⟨h, (EventLoop.pc_step hadvance hthrow houtside hstep).trans hpc, hid⟩, fun hret => ?_⟩
    exact hsame.2.trans (hepoll hret)

theorem detached_loop {l : EventLoop.State} {a : EventLoop.Act} (halone : Alone id fd s.loop)
    (hdet : Detached id fd s) (hapart : Apart id fd s a)
    (hstep : EventLoop.step s.loop a = some l) :
    Detached id fd { s with
      loop := l
      callback :=
        if a = .advance then if CallbackRuns id l.pc then some .progress else none
        else s.callback } := by
  have hhandle : ∀ c, s.loop.lock id = some c → ∀ d, (c.callback d).handle = none := by
    intro c hc d
    rcases hdet.idle c hc with ⟨hread, hwrite⟩
    cases d
    · exact congrArg EventLoop.Callback.handle hread
    · exact congrArg EventLoop.Callback.handle hwrite
  refine ⟨EventLoop.unwatched_step halone hapart.1 hdet.unwatched hstep, ?_, ?_, ?_⟩
  · intro c hc
    rcases EventLoop.lock_step hstep hapart.1 hdet.length hhandle with hsame | ⟨hnone, -⟩
    · exact hdet.idle c (hsame.symm.trans hc)
    · cases hnone.symm.trans hc
  · exact Nat.lt_of_lt_of_le hdet.length (EventLoop.length_step hstep)
  · by_cases hadvance : a = .advance
    · subst hadvance
      simp only [if_true]
      split
      · rename_i hruns
        -- the callback that is stored now does nothing
        rcases callbackRuns_iff.mp hruns with ⟨h, hpc, hid⟩
        rcases EventLoop.running_of_advance hstep hpc with ⟨c, hc, rfl⟩
        have hnoop : c.callback .readable = .noop := (hdet.idle c (hid ▸ hc)).1
        rw [EventLoop.State.callback, hnoop] at hpc
        split at hpc <;> cases hpc
      · exact .inl rfl
    · simp only [if_neg hadvance]
      exact hdet.body

theorem alone_registerChannel {l : EventLoop.State} {d : EventLoop.Direction}
    (halone : Alone id fd l) (admits : Bool) :
    Alone id fd (l.registerChannel id fd d admits).1 := by
  intro j c hc
  exact halone j c ((EventLoop.lock_registerChannel admits).symm.trans hc)

/-- Registering a channel whose descriptor is not watched makes its entry. -/
theorem entry_registerChannel {l : EventLoop.State} {d : EventLoop.Direction} {admits : Bool}
    (hinv : EventLoop.Inv l) (hnone : l.epoll fd = none)
    (hset : (l.registerChannel id fd d admits).1.epoll fd ≠ none) :
    (l.registerChannel id fd d admits).1.channels fd = some id := by
  have hfree : l.channels fd = none := by
    cases hentry : l.channels fd with
    | none => rfl
    | some j => exact absurd hnone (hinv.entry fd j hentry).1
  rw [EventLoop.epoll_registerChannel] at hset
  rw [EventLoop.channels_registerChannel, if_pos rfl]
  by_cases hok : l.epoll fd = none ∧ admits = true
  · rw [if_pos hok, hfree]
    rfl
  · rw [if_neg fun h => hok h.2] at hset
    exact absurd hnone hset

/-- `wait_readable` from inside the callback: the channel is registered again, or the
registration throws and the callback ends. -/
theorem attached_waitReadable {h : EventLoop.Handling} {admits : Bool} (hinv : Inv id fd s)
    (hatt : Attached id fd s) (hpc : s.loop.pc = .running .readable h) (hid : h.id = id)
    (hnone : s.loop.epoll fd = none)
    (hstep : (match s.loop.registerChannel id fd .readable admits with
      | (l, true) => some { s with loop := l, callback := some .ret }
      | (l, false) =>
        (EventLoop.step l .throw).map fun l => { s with loop := l, callback := none }) =
      some s') : Inv id fd s' := by
  have hreg : EventLoop.Inv (s.loop.registerChannel id fd .readable admits).1 :=
    hatt.inv.registerChannel hatt.watched.channel admits
  have halone := alone_registerChannel (d := .readable) hinv.alone admits
  have hpc' : (s.loop.registerChannel id fd .readable admits).1.pc = .running .readable h :=
    (EventLoop.pc_registerChannel admits).trans hpc
  have hwatched : Watched id fd (s.loop.registerChannel id fd .readable admits).1 := by
    constructor
    · exact (EventLoop.lock_registerChannel admits).trans hatt.watched.channel
    · exact fun hset => .inl (entry_registerChannel hatt.inv hnone hset)
    · intro h' _ hwrite
      rcases hwrite with hwrite | hwrite <;> cases hpc'.symm.trans hwrite
  cases hresult : s.loop.registerChannel id fd .readable admits with
  | mk l registered =>
    rw [hresult] at hstep hreg halone hwatched hpc'
    cases registered with
    | true =>
      obtain rfl := Option.some.inj hstep
      refine ⟨halone, .inl ⟨hreg, hwatched, fun stmt hret => ⟨⟨h, hpc', hid⟩, fun hne => ?_⟩⟩,
        hinv.wakes⟩
      exact absurd (Option.some.inj hret).symm hne
    | false =>
      rcases Option.map_eq_some_iff.mp hstep with ⟨l', hthrow, rfl⟩
      have htarget : EventLoop.Act.throw.target ≠ some id := fun h => by cases h
      have halone' : Alone id fd l' := halone.step (fun h => by cases h) hthrow
      refine ⟨halone', .inl ⟨hreg.step hthrow, ?_, ?_⟩, hinv.wakes⟩
      · exact hwatched.step hreg halone htarget hthrow
      · intro _ hret
        cases hret

/-- A statement of the callback. -/
theorem attached_callback {stmt : Stmt} {left : Nat} {admits : Bool} (hinv : Inv id fd s)
    (hatt : Attached id fd s) (hstmt : s.callback = some stmt)
    (hstep : runCallback id fd s stmt left admits = some s') : Inv id fd s' := by
  rcases hatt.body stmt hstmt with ⟨⟨h, hpc, hid⟩, hepoll⟩
  -- a statement that leaves the loop alone, and is not the last one
  have hstays : ∀ {next : Stmt} {w : Worker}, stmt ≠ .ret → w.Wakes →
      Inv id fd { s with worker := w, callback := some next } := by
    intro next w hret hw
    refine ⟨hinv.alone, .inl ⟨hatt.inv, hatt.watched, fun stmt' _ => ?_⟩, hw⟩
    exact ⟨⟨h, hpc, hid⟩, fun _ => hepoll hret⟩
  cases stmt with
  | progress =>
    rcases Option.map_eq_some_iff.mp hstep with ⟨⟨more, w⟩, hprogress, rfl⟩
    exact hstays (by decide) ((Worker.wakes_progress hprogress).mpr hinv.wakes)
  | arm =>
    obtain rfl := Option.some.inj hstep
    exact hstays (by decide) (Worker.wakes_arm hinv.wakes)
  | useCount =>
    obtain rfl := Option.some.inj hstep
    exact hstays (by decide) hinv.wakes
  | waitReadable => exact attached_waitReadable hinv hatt hpc hid (hepoll (by decide)) hstep
  | reset =>
    rcases Option.map_eq_some_iff.mp hstep with ⟨c, hc, rfl⟩
    obtain rfl := Option.some.inj (hatt.watched.channel.symm.trans hc)
    refine ⟨?_, .inr ⟨hepoll (by decide), ?_, ?_, .inr rfl⟩, hinv.wakes⟩
    · intro j c hc' hj
      exact hinv.alone j c ((EventLoop.lock_setChannel_ne hj).symm.trans hc') hj
    · intro c hc'
      rw [EventLoop.lock_setChannel hc, if_pos rfl] at hc'
      obtain rfl := Option.some.inj hc'
      exact ⟨rfl, rfl⟩
    · rw [EventLoop.length_setChannel]
      exact (List.getElem?_eq_some_iff.mp (EventLoop.lock_eq_some.mp hc).1).1
  | ret => cases hstep

theorem inv_step {a : Act} (hinv : Inv id fd s) (hstep : step id fd s a = some s') :
    Inv id fd s' := by
  cases a with
  | arrive =>
    obtain rfl := Option.some.inj hstep
    exact hinv.of_worker rfl rfl (Worker.wakes_arrive.mpr hinv.wakes)
  | progress left =>
    rcases Option.map_eq_some_iff.mp hstep with ⟨⟨more, w⟩, hprogress, rfl⟩
    exact hinv.of_worker rfl rfl ((Worker.wakes_progress hprogress).mpr hinv.wakes)
  | arm =>
    obtain rfl := Option.some.inj hstep
    exact hinv.of_worker rfl rfl (Worker.wakes_arm hinv.wakes)
  | acquire =>
    obtain rfl := Option.some.inj hstep
    exact hinv.of_worker rfl rfl hinv.wakes
  | release =>
    rcases Option.ite_none_right_eq_some.mp hstep with ⟨-, hs⟩
    obtain rfl := Option.some.inj hs
    exact hinv.of_worker rfl rfl hinv.wakes
  | loop a =>
    rcases Option.ite_none_right_eq_some.mp hstep with ⟨hapart, hs⟩
    rcases Option.map_eq_some_iff.mp hs with ⟨l, hl, rfl⟩
    have hnew : a ≠ .newChannel fd := by
      rintro rfl
      exact hapart.2 rfl
    refine ⟨hinv.alone.step hnew hl, ?_, hinv.wakes⟩
    rcases hinv.channel with hatt | hdet
    · exact .inl (attached_loop hinv.alone hatt hapart hl)
    · exact .inr (detached_loop hinv.alone hdet hapart hl)
  | callback left admits =>
    rcases Option.bind_eq_some_iff.mp hstep with ⟨stmt, hstmt, hrun⟩
    rcases hinv.channel with hatt | hdet
    · exact attached_callback hinv hatt hstmt hrun
    · rcases hdet.body with hnone | hret
      · cases hnone.symm.trans hstmt
      · obtain rfl := Option.some.inj (hret.symm.trans hstmt)
        cases hrun

/-! ## The next poll -/

theorem step_advance {l : EventLoop.State} (hcallback : s.callback = none)
    (hl : s.loop.advance = some l) :
    step id fd s (.loop .advance) =
      some { s with
        loop := l
        callback := if CallbackRuns id l.pc then some .progress else none } := by
  have hapart : Apart id fd s .advance := ⟨(fun h => by cases h), .inl hcallback⟩
  simp only [step, if_pos hapart, EventLoop.step, hl, Option.map_some, if_true]

/-- A registered event channel whose descriptor is readable is polled. -/
theorem pollRuns_of_watched (hw : Watched id fd s.loop) (hset : s.loop.epoll fd ≠ none)
    (hcallback : s.callback = none) (hreadable : s.worker.readable = true)
    (hpc : s.loop.pc = .outside) : PollRuns id fd s := by
  have hentry : s.loop.channels fd = some id :=
    hw.entry_eq (fun h _ hpc' => by cases hpc.symm.trans hpc') hset
  let h : EventLoop.Handling := ⟨id, fd, (readEvent fd).2, []⟩
  let l₁ : EventLoop.State := { s.loop with pc := .batch [readEvent fd] }
  let l₂ : EventLoop.State := { s.loop with pc := .calling .readable h }
  have hlock₁ : l₁.lock id = some (eventChannel fd) := hw.channel
  have hlock₂ : l₂.lock id = some (eventChannel fd) := hw.channel
  have hwait : step id fd s (.loop (.epollWait [readEvent fd])) = some { s with loop := l₁ } := by
    simp [step, Apart, EventLoop.Act.target, EventLoop.step, hpc, hset, hreadable, readEvent, l₁]
  have hevent : l₁.advance = some l₂ :=
    congrArg some (EventLoop.event_of_entry (s := l₁) hentry hlock₁)
  have hcall : l₂.advance = some (l₂.callback .readable h (eventChannel fd)) :=
    EventLoop.advance_of_calling rfl (.inl rfl) hlock₂
  have hidle : ¬CallbackRuns id l₂.pc := fun hruns => by
    rcases callbackRuns_iff.mp hruns with ⟨h', hpc', -⟩
    cases hpc'
  have hruns : CallbackRuns id (l₂.callback .readable h (eventChannel fd)).pc :=
    callbackRuns_iff.mpr ⟨h, rfl, rfl⟩
  refine ⟨{ s with
    loop := l₂.callback .readable h (eventChannel fd), callback := some .progress }, ?_, rfl⟩
  rw [Lts.run_cons, hwait, Option.bind_some, Lts.run_cons,
    step_advance (s := { s with loop := l₁ }) hcallback hevent, if_neg hidle, Option.bind_some,
    Lts.run_cons, step_advance (s := { s with loop := l₂, callback := none }) rfl hcall,
    if_pos hruns, Option.bind_some, Lts.run_nil]

theorem good_of_inv (hinv : Inv id fd s) : Good id fd s := by
  intro hset hcallback hpending
  have hreadable := Worker.readable_of_wakes hinv.wakes hpending
  refine ⟨hreadable, fun hpc => ?_⟩
  rcases hinv.channel with hatt | hdet
  · exact pollRuns_of_watched hatt.watched hset hcallback hreadable hpc
  · exact absurd hdet.unwatched hset

/-! ## Runs -/

/-- The loop with the event channel before its first `wait_readable`. -/
theorem channel_set {l l' : EventLoop.State} (hinv : EventLoop.Inv l)
    (hrun : Lts.run EventLoop.step l
      [.newChannel fd, .setCallback l.objects.length .readable .run] = some l') :
    EventLoop.Inv l' ∧ l'.pc = l.pc ∧ l'.lock l.objects.length = some (eventChannel fd) ∧
      Alone l.objects.length fd l' := by
  rcases Lts.run_cons_some hrun with ⟨l₁, h₁, hrest⟩
  rcases Lts.run_cons_some hrest with ⟨l₂, h₂, hnil⟩
  obtain rfl := Option.some.inj hnil
  have hinv₁ := hinv.step h₁
  refine ⟨hinv₁.step h₂, ?_⟩
  cases EventLoop.step_cases h₁ with
  | newChannel _ hfree =>
    cases EventLoop.step_cases h₂ with
    | @setCallback _ _ _ c hc _ _ =>
      obtain rfl : EventLoop.Channel.new fd true = c := by
        have hget := (EventLoop.lock_eq_some.mp hc).1
        rw [List.getElem?_concat_length] at hget
        exact Option.some.inj hget
      refine ⟨rfl, ?_, fun j c hcj hj => ?_⟩
      · rw [EventLoop.lock_setChannel hc, if_pos rfl]
        rfl
      · have hlock := (EventLoop.lock_setChannel_ne hj).symm.trans hcj
        rcases EventLoop.lock_eq_some.mp hlock with ⟨hget, halive⟩
        rcases Trace.getElem?_concat.mp hget with hold | ⟨hnew, -⟩
        · exact hfree c (List.mem_of_getElem? hold) halive
        · exact absurd hnew hj

/-- What `register_loop` leaves. -/
theorem registerLoop_watched {l l' : EventLoop.State} {admits : Bool} (hinv : EventLoop.Inv l)
    (hreg : registerLoop l fd admits = some l') :
    EventLoop.Inv l' ∧ Watched l.objects.length fd l' ∧ Alone l.objects.length fd l' ∧
      l'.epoll fd ≠ none := by
  unfold registerLoop at hreg
  simp only at hreg
  split at hreg
  · rename_i l₁ hrun
    rcases channel_set hinv hrun with ⟨hinv₁, hpc, hchannel, halone⟩
    split at hreg
    · rename_i l₂ hresult
      obtain rfl := Option.some.inj hreg
      have hl₂ : (l₁.registerChannel l.objects.length fd .readable admits).1 = l₂ := by
        rw [hresult]
      have hok : l₁.epoll fd = none ∧ admits = true := by
        by_contra hno
        rw [EventLoop.registerChannel_eq, if_neg hno] at hresult
        cases hresult
      have hset : l₂.epoll fd ≠ none := by
        rw [← hl₂, EventLoop.epoll_registerChannel, if_pos ⟨rfl, hok⟩]
        exact Option.some_ne_none _
      rw [← hl₂] at hset ⊢
      refine ⟨hinv₁.registerChannel hchannel admits, ?_, alone_registerChannel halone admits, hset⟩
      refine ⟨(EventLoop.lock_registerChannel admits).trans hchannel, fun hset => ?_,
        fun h hid hwrite => ?_⟩
      · exact .inl (entry_registerChannel hinv₁ hok.1 hset)
      · -- an iteration that is going on is for a channel that was there before
        have hh : l.pc.handling = some h := by
          rw [EventLoop.pc_registerChannel, hpc] at hwrite
          rcases hwrite with hwrite | hwrite <;> rw [hwrite] <;> rfl
        rcases hinv.held h hh with ⟨c, hc, -⟩
        have hlt := (List.getElem?_eq_some_iff.mp (EventLoop.lock_eq_some.mp hc).1).1
        exact absurd hid (Nat.ne_of_lt hlt)
    · cases hreg
  · cases hreg

/-- From the return of `register_loop` on, no event of the worker is lost in any run, iff
the worker is armed or its descriptor readable when `register_loop` returns. -/
theorem no_lost_wakeup_iff (before : List EventLoop.Act) {l l' : EventLoop.State} {admits : Bool}
    (hrun : Lts.run EventLoop.step .init before = some l)
    (hreg : registerLoop l fd admits = some l') (w : Worker) (references : Nat) :
    (∀ acts s, Lts.run (step l.objects.length fd) ⟨l', w, references, none⟩ acts = some s →
        Good l.objects.length fd s) ↔ w.Wakes := by
  have hinv : EventLoop.Inv l := Lts.run_invariant (P := fun _ _ => True) EventLoop.Inv
    (fun _ _ _ h _ hstep => h.step hstep) EventLoop.inv_init (Lts.stepsMeet_true _ _) hrun
  rcases registerLoop_watched hinv hreg with ⟨hinv', hwatched, halone, hset⟩
  constructor
  · intro hgood
    by_contra hasleep
    -- an event arrives that the descriptor does not tell of
    have hlost := (hgood [.arrive] _ rfl hset rfl (Nat.succ_ne_zero w.pending)).1
    have hreadable : (w.armed || w.readable) = true := hlost
    rw [Bool.or_eq_true] at hreadable
    exact hasleep hreadable
  · intro hwakes acts s hs
    refine good_of_inv (Lts.run_invariant (P := fun _ _ => True) (Inv l.objects.length fd)
      (fun _ _ _ h _ hstep => inv_step h hstep) ?_ (Lts.stepsMeet_true _ _) hs)
    exact ⟨halone, .inl ⟨hinv', hwatched, fun _ hstmt => by cases hstmt⟩, hwakes⟩

end

/-! ### Two workers -/

/-- A worker that the program has armed. -/
def armedWorker : Worker where
  pending := 0
  armed := true
  readable := false
  armed_idle := fun _ => rfl

theorem no_lost_wakeup_armed :
    ∃ l, registerLoop .init 7 true = some l ∧
      ∀ acts s, Lts.run (step 0 7) ⟨l, armedWorker, 2, none⟩ acts = some s → Good 0 7 s := by
  have hreg : ∃ l, registerLoop .init 7 true = some l := ⟨_, rfl⟩
  rcases hreg with ⟨l, hreg⟩
  exact ⟨l, hreg, (no_lost_wakeup_iff [] rfl hreg armedWorker 2).mpr (.inl rfl)⟩

/-- A worker as `worker::worker` leaves it. -/
def newWorker : Worker where
  pending := 0
  armed := false
  readable := false
  armed_idle := fun h => nomatch h

/-- The first event of a new worker is not told to the loop. -/
theorem first_event_lost :
    ∃ l, registerLoop .init 7 true = some l ∧
      ∃ s, Lts.run (step 0 7) ⟨l, newWorker, 2, none⟩ [.arrive] = some s ∧
        s.loop.epoll 7 ≠ none ∧ s.callback = none ∧ s.worker.pending = 1 ∧
        s.worker.readable = false ∧ ¬Good 0 7 s := by
  refine ⟨_, rfl, _, rfl, ?_, rfl, rfl, rfl, fun hgood => ?_⟩
  · exact fun hnone => by cases hnone
  · have hreadable := (hgood (fun hnone => by cases hnone) rfl (Nat.succ_ne_zero 0)).1
    cases hreadable

end Ucxpp.WorkerEpoll
