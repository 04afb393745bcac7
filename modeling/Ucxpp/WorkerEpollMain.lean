import Ucxpp.WorkerEpollShutdown

/-!
# WorkerEpollMain — whether main leaves its loop

When `main` has the last reference beside the callback of `register_loop`, nobody else makes
progress or arms the worker. The callback has to be called once more, and only the event loop
can call it. So `main` can leave its loop iff the loop is going to be told of an event.
-/

namespace Ucxpp.WorkerEpoll

open EventLoop (Fd ChannelId Events readEvent)

/-- What happens when only `main` is left: it polls, and events arrive. `epoll` reports no
error on the descriptor of the worker. -/
def OfMain (fd : Fd) : Act → Prop
  | .loop (.epollWait batch) => ∀ e ∈ batch, e.1 = some fd → e.2.epollErr = false
  | .arrive | .callback .. | .loop _ => True
  | .progress _ | .arm | .acquire | .release => False

/-- `main` is between two calls of `poll`, and has the only reference. -/
def MainReturns (id : ChannelId) (s : State) : Prop :=
  s.loop.pc = .outside ∧ useCount id s = 1

/-- The events of the call of `poll` that goes on, from the one it handles. -/
def events : EventLoop.Pc → List (Option Fd × Events)
  | .batch rest => rest
  | .calling _ h | .running _ h | .returned _ h | .done h => (some h.fd, h.events) :: h.rest
  | .outside | .aborted => []

/-- No event of `es` runs the read callback of the channel of `fd`. -/
def Silent (fd : Fd) (es : List (Option Fd × Events)) : Prop :=
  ∀ e ∈ es, e.1 = some fd → e.2.epollIn = false ∧ e.2.epollErr = false

section

variable {id : ChannelId} {fd : Fd} {s s' : State}

/-! ## The events of a poll -/

theorem events_event {l : EventLoop.State} {e : Option Fd} {mask : Events}
    {rest : List (Option Fd × Events)} :
    (events (l.event e mask rest).pc).Sublist ((e, mask) :: rest) := by
  unfold EventLoop.State.event
  split
  · exact List.sublist_cons_self _ _
  · split
    · exact List.nil_sublist _
    · split
      · exact List.Sublist.refl _
      · exact List.sublist_cons_self _ _

theorem events_callback {l : EventLoop.State} {d : EventLoop.Direction} {h : EventLoop.Handling}
    {c : EventLoop.Channel} :
    (events (l.callback d h c).pc).Sublist ((some h.fd, h.events) :: h.rest) := by
  unfold EventLoop.State.callback
  split
  · split
    · exact List.Sublist.refl _
    · exact List.Sublist.refl _
    · exact List.Sublist.refl _
  · exact List.nil_sublist _

theorem events_next {d : EventLoop.Direction} {h : EventLoop.Handling} :
    events (h.next d) = (some h.fd, h.events) :: h.rest := by
  cases d <;> rfl

/-- A `poll` handles only events that `epoll_wait` has given it. -/
theorem events_step {l l' : EventLoop.State} {a : EventLoop.Act}
    (hstep : EventLoop.step l a = some l') :
    (events l'.pc).Sublist (events l.pc) ∨
      ∃ batch, a = .epollWait batch ∧ events l'.pc = batch := by
  cases EventLoop.step_cases hstep with
  | newChannel _ _ => exact .inl (List.Sublist.refl _)
  | setCallback _ _ _ => exact .inl (List.Sublist.refl _)
  | register _ _ =>
    rw [EventLoop.pc_registerChannel]
    exact .inl (List.Sublist.refl _)
  | deregister _ _ => exact .inl (List.Sublist.refl _)
  | await _ _ _ =>
    rw [EventLoop.pc_awaitSuspend]
    exact .inl (List.Sublist.refl _)
  | release _ _ =>
    rw [EventLoop.pc_drop]
    exact .inl (List.Sublist.refl _)
  | throw hpc =>
    rw [hpc]
    exact .inl (List.Sublist.cons_cons _ (List.nil_sublist _))
  | epollWait _ _ => exact .inr ⟨_, rfl, rfl⟩
  | batchEnd _ => exact .inl (List.nil_sublist _)
  | event hpc =>
    rw [hpc]
    exact .inl events_event
  | call hpc _ _ =>
    rw [hpc]
    exact .inl events_callback
  | skip hpc _ =>
    rw [hpc, events_next]
    exact .inl (List.Sublist.refl _)
  | ret hpc =>
    rw [hpc]
    exact .inl (List.Sublist.refl _)
  | returned hpc =>
    rw [hpc, events_next]
    exact .inl (List.Sublist.refl _)
  | done hpc =>
    rw [EventLoop.pc_drop, hpc]
    exact .inl (List.sublist_cons_self _ _)

theorem events_advance (hstep : step id fd s (.loop .advance) = some s') :
    (events s'.loop.pc).Sublist (events s.loop.pc) := by
  rcases Option.ite_none_right_eq_some.mp hstep with ⟨-, hs⟩
  rcases Option.map_eq_some_iff.mp hs with ⟨l, hl, rfl⟩
  refine (events_step hl).resolve_right ?_
  rintro ⟨_, h, -⟩
  cases h

/-- The first statements of a call of `poll`. -/
theorem events_poll {batch : List (Option Fd × Events)}
    (hrun : Lts.run (step id fd) s
      [.loop (.epollWait batch), .loop .advance, .loop .advance] = some s') :
    (events s'.loop.pc).Sublist batch := by
  rcases Lts.run_cons_some hrun with ⟨s₁, hwait, hrest⟩
  rcases Lts.run_cons_some hrest with ⟨s₂, hevent, hrest⟩
  rcases Lts.run_cons_some hrest with ⟨s₃, hcall, hnil⟩
  obtain rfl := Option.some.inj hnil
  rcases Option.ite_none_right_eq_some.mp hwait with ⟨-, hs⟩
  rcases Option.map_eq_some_iff.mp hs with ⟨l, hl, rfl⟩
  have hbatch : events l.pc = batch := by
    cases EventLoop.step_cases hl with
    | epollWait _ _ => rfl
  exact hbatch ▸ (events_advance hcall).trans (events_advance hevent)

/-! ## Nobody calls the callback -/

/-- The callback has the worker, which is not armed, and the loop does not know of an event. -/
structure Asleep (id : ChannelId) (fd : Fd) (s : State) : Prop where
  alone : Alone id fd s.loop
  attached : Attached id fd s
  idle : s.callback = none
  references : s.references = 1
  asleep : ¬s.worker.Wakes
  silent : Silent fd (events s.loop.pc)

/-- A call of the callback would be for an event of its descriptor. -/
theorem Asleep.not_callbackRuns {l : EventLoop.State} (h : Asleep id fd s)
    (hstep : EventLoop.step s.loop .advance = some l) : ¬CallbackRuns id l.pc := by
  intro hruns
  rcases callbackRuns_iff.mp hruns with ⟨hd, hpc', hid⟩
  cases EventLoop.step_cases hstep with
  | batchEnd _ => cases hpc'
  | event _ =>
    unfold EventLoop.State.event at hpc'
    split at hpc'
    · cases hpc'
    · split at hpc'
      · cases hpc'
      · split at hpc' <;> cases hpc'
  | @call d h₀ c hpc hmask hc =>
    have hrunning : EventLoop.Pc.running d h₀ = .running .readable hd := by
      unfold EventLoop.State.callback at hpc'
      split at hpc'
      · split at hpc'
        · cases hpc'
        · exact hpc'
        · exact hpc'
      · cases hpc'
    cases hrunning
    -- the descriptor of the iteration is the one of the channel
    have hfd : hd.fd = fd := by
      rcases h.attached.inv.held hd (congrArg EventLoop.Pc.handling hpc) with ⟨c', hc', hfd⟩
      rw [hid, h.attached.watched.channel] at hc'
      exact hfd.symm.trans (congrArg EventLoop.Channel.fd (Option.some.inj hc')).symm
    have hquiet := h.silent (some hd.fd, hd.events)
      (by rw [hpc]; exact List.mem_cons_self) (congrArg some hfd)
    rcases hmask with hin | herr
    · cases hquiet.1.symm.trans hin
    · cases hquiet.2.symm.trans herr
  | @skip d _ _ _ => cases d <;> cases hpc'
  | ret _ => cases hpc'
  | @returned d _ _ => cases d <;> cases hpc'
  | done _ =>
    rw [EventLoop.pc_drop] at hpc'
    cases hpc'

theorem Asleep.step {a : Act} (h : Asleep id fd s) (hmain : OfMain fd a)
    (hstep : step id fd s a = some s') : Asleep id fd s' := by
  cases a with
  | arrive =>
    obtain rfl := Option.some.inj hstep
    exact ⟨h.alone, h.attached.congr rfl rfl, h.idle, h.references,
      fun hwakes => h.asleep (Worker.wakes_arrive.mp hwakes), h.silent⟩
  | loop a =>
    rcases Option.ite_none_right_eq_some.mp hstep with ⟨hapart, hs⟩
    rcases Option.map_eq_some_iff.mp hs with ⟨l, hl, rfl⟩
    refine ⟨h.alone.next hapart hl, attached_loop h.alone h.attached hapart hl, ?_, h.references,
      h.asleep, ?_⟩
    · by_cases hadvance : a = .advance
      · subst hadvance
        exact if_neg (h.not_callbackRuns hl)
      · exact (if_neg hadvance).trans h.idle
    · rcases events_step hl with hsub | ⟨batch, rfl, hbatch⟩
      · exact fun e he => h.silent e (hsub.subset he)
      · intro e he hfd
        rw [hbatch] at he
        refine ⟨?_, hmain e he hfd⟩
        -- the descriptor is not readable, so the kernel does not report it as readable
        have hreadable := (hapart.2 e he hfd).1
        cases hin : e.2.epollIn with
        | false => rfl
        | true => exact absurd (.inr (hreadable hin)) h.asleep
  | callback left admits =>
    rcases Option.bind_eq_some_iff.mp hstep with ⟨stmt, hstmt, -⟩
    cases h.idle.symm.trans hstmt
  | progress _ | arm | acquire | release => cases hmain

theorem Asleep.run {acts : List Act} (h : Asleep id fd s) (hmain : ∀ a ∈ acts, OfMain fd a)
    (hrun : Lts.run (WorkerEpoll.step id fd) s acts = some s') : Asleep id fd s' :=
  Lts.run_invariant (P := fun _ a => OfMain fd a) (Asleep id fd)
    (fun _ _ _ h hmain hstep => h.step hmain hstep) h
    (Lts.stepsMeet_of_mem fun a ha _ => hmain a ha) hrun

/-! ## The last call of the callback -/

/-- Only the callback and the loop: nobody takes or drops the worker. -/
theorem references_step {a : Act} (hmain : OfMain fd a) (hstep : step id fd s a = some s') :
    s'.references = s.references := by
  cases a with
  | arrive =>
    obtain rfl := Option.some.inj hstep
    rfl
  | loop a =>
    rcases Option.ite_none_right_eq_some.mp hstep with ⟨-, hs⟩
    rcases Option.map_eq_some_iff.mp hs with ⟨l, -, rfl⟩
    rfl
  | callback left admits =>
    rcases Option.bind_eq_some_iff.mp hstep with ⟨stmt, -, hrun⟩
    cases stmt with
    | progress =>
      rcases Option.map_eq_some_iff.mp hrun with ⟨⟨more, w⟩, -, rfl⟩
      rfl
    | arm | useCount =>
      obtain rfl := Option.some.inj hrun
      rfl
    | waitReadable =>
      simp only [runCallback] at hrun
      split at hrun
      · obtain rfl := Option.some.inj hrun
        rfl
      · rcases Option.map_eq_some_iff.mp hrun with ⟨l, -, rfl⟩
        rfl
    | reset =>
      rcases Option.map_eq_some_iff.mp hrun with ⟨c, -, rfl⟩
      rfl
    | ret => cases hrun
  | progress _ | arm | acquire | release => cases hmain

theorem references_run {acts : List Act} (hmain : ∀ a ∈ acts, OfMain fd a)
    (hrun : Lts.run (step id fd) s acts = some s') : s'.references = s.references :=
  Lts.run_invariant (P := fun _ a => OfMain fd a) (fun t => t.references = s.references)
    (fun _ _ _ h hmain hstep => (references_step hmain hstep).trans h) rfl
    (Lts.stepsMeet_of_mem fun a ha _ => hmain a ha) hrun

theorem step_callback {stmt : Stmt} (hstmt : s.callback = some stmt) (left : Nat)
    (admits : Bool) :
    step id fd s (.callback left admits) = runCallback id fd s stmt left admits := by
  simp only [step, hstmt, Option.bind_some]

/-- The inner loop of the callback processes every event. -/
theorem progress_all (hstmt : s.callback = some .progress) :
    ∃ acts w, (∀ a ∈ acts, OfMain fd a) ∧ w.pending = 0 ∧
      Lts.run (step id fd) s acts = some { s with worker := w, callback := some .arm } := by
  -- a call that finds nothing to do ends the loop
  have hlast : ∀ t : State, t.callback = some .progress → t.worker.pending = 0 →
      step id fd t (.callback 0 true) = some { t with callback := some .arm } := by
    intro t ht hidle
    rw [step_callback ht]
    simp only [runCallback, Worker.progress, if_pos hidle, Option.map_some]
    rfl
  by_cases hidle : s.worker.pending = 0
  · refine ⟨[.callback 0 true], s.worker, fun a ha => ?_, hidle, ?_⟩
    · obtain rfl := List.mem_singleton.mp ha
      trivial
    · rw [Lts.run_cons, hlast s hstmt hidle, Option.bind_some, Lts.run_nil]
  · have hleft : 0 < s.worker.pending := Nat.pos_of_ne_zero hidle
    let w : Worker := ⟨0, s.worker.armed, s.worker.readable, fun _ => rfl⟩
    have hmore : step id fd s (.callback 0 true) =
        some { s with worker := w, callback := some .progress } := by
      rw [step_callback hstmt]
      simp only [runCallback, Worker.progress, if_neg hidle, dif_pos hleft, Option.map_some]
      rfl
    refine ⟨[.callback 0 true, .callback 0 true], w, fun a ha => ?_, rfl, ?_⟩
    · simp only [List.mem_cons, List.not_mem_nil, or_false, or_self] at ha
      subst ha
      trivial
    · rw [Lts.run_cons, hmore, Option.bind_some, Lts.run_cons, hlast _ rfl rfl, Option.bind_some,
        Lts.run_nil]

/-- The callback that finds no owner but `main` lets go. -/
theorem callback_lets_go (hsound : Sound id fd s) (hstmt : s.callback = some .progress)
    (hone : s.references = 1) :
    ∃ acts s', (∀ a ∈ acts, OfMain fd a) ∧ Lts.run (step id fd) s acts = some s' ∧
      Detached id fd s' ∧ s'.callback = some .ret ∧ s'.loop.pc = s.loop.pc := by
  rcases progress_all hstmt with ⟨acts, w, hacts, hidle, hrun⟩
  have hatt : Attached id fd s := by
    refine hsound.channel.resolve_right fun hdet => ?_
    rcases hdet.body with hnone | hret
    · cases hnone.symm.trans hstmt
    · cases hret.symm.trans hstmt
  let w' : Worker := w.arm.2
  have harm : step id fd { s with worker := w, callback := some .arm } (.callback 0 true) =
      some { s with worker := w', callback := some .useCount } := by
    rw [step_callback rfl]
    simp only [runCallback, w', Worker.arm, dif_pos hidle, if_true]
  have huse : step id fd { s with worker := w', callback := some .useCount } (.callback 0 true) =
      some { s with worker := w', callback := some .reset } := by
    rw [step_callback rfl]
    simp only [runCallback, hone]
    rfl
  let c : EventLoop.Channel :=
    { eventChannel fd with loop := false, readableCallback := .noop, owned := false }
  let s₁ : State := ⟨s.loop.setChannel id c, w', s.references, some .ret⟩
  have hreset : step id fd { s with worker := w', callback := some .reset } (.callback 0 true) =
      some s₁ := by
    rw [step_callback rfl]
    simp only [runCallback, hatt.watched.channel, Option.map_some]
    rfl
  have hall : Lts.run (step id fd) s
      (acts ++ [.callback 0 true, .callback 0 true, .callback 0 true]) = some s₁ := by
    rw [Lts.run_append, hrun, Option.bind_some, Lts.run_cons, harm, Option.bind_some,
      Lts.run_cons, huse, Option.bind_some, Lts.run_cons, hreset, Option.bind_some, Lts.run_nil]
  refine ⟨_, s₁, fun a ha => ?_, hall, ?_, rfl, rfl⟩
  · rcases List.mem_append.mp ha with ha | ha
    · exact hacts a ha
    · simp only [List.mem_cons, List.not_mem_nil, or_false, or_self] at ha
      subst ha
      trivial
  · refine (hsound.run hall).channel.resolve_left ?_
    have hout : s₁.callback = some .reset ∨ ¬Attached id fd s₁ := let_go_step rfl hreset
    rcases hout with hsame | hgone
    · cases hsame
    · exact hgone

/-- A statement of `poll` that runs no callback. -/
theorem step_advance_idle {l : EventLoop.State} (hidle : s.callback = none)
    (hl : s.loop.advance = some l) (hpc : ∀ h, l.pc ≠ .running .readable h) :
    step id fd s (.loop .advance) = some { s with loop := l } := by
  have hruns : ¬CallbackRuns id l.pc := by
    intro hruns
    rcases callbackRuns_iff.mp hruns with ⟨h, hpc', -⟩
    exact hpc h hpc'
  rw [step_advance hidle hl, if_neg hruns, ← hidle]

/-- After the callback `poll` returns, if the descriptor was the only one with an event. -/
theorem poll_returns (id : ChannelId) (fd : Fd) {h : EventLoop.Handling}
    (hpc : s.loop.pc = .running .readable h) (hret : s.callback = some .ret) (hrest : h.rest = [])
    (hout : h.events.epollOut = false) (herr : h.events.epollErr = false) :
    ∃ acts s', (∀ a ∈ acts, OfMain fd a) ∧ Lts.run (step id fd) s acts = some s' ∧
      s'.loop.pc = .outside := by
  let l₁ : EventLoop.State := { s.loop with pc := .returned .readable h }
  let l₂ : EventLoop.State := { s.loop with pc := .calling .writable h }
  let l₃ : EventLoop.State := { s.loop with pc := .done h }
  let l₄ : EventLoop.State := { s.loop with pc := .batch [] }
  have hfirst : step id fd s (.loop .advance) = some { s with loop := l₁, callback := none } := by
    have hapart : Apart id fd s .advance := ⟨(fun h => by cases h), .inr hret⟩
    simp only [step, if_pos hapart, EventLoop.step, EventLoop.State.advance, hpc, Option.map_some,
      if_true]
    rfl
  have hsecond : l₁.advance = some l₂ := by
    simp only [EventLoop.State.advance, l₁, herr]
    rfl
  have hthird : l₂.advance = some l₃ := by
    simp only [EventLoop.State.advance, l₂, herr, EventLoop.Events.reports, hout]
    rfl
  have hfourth : l₃.advance = some (l₄.drop h.id) := by
    simp only [EventLoop.State.advance, l₃, l₄, hrest]
  have hfifth : (l₄.drop h.id).advance = some { l₄.drop h.id with pc := .outside } := by
    have hpc₄ : (l₄.drop h.id).pc = .batch [] := EventLoop.pc_drop
    simp only [EventLoop.State.advance, hpc₄]
  have hnext : ∀ {l l' : EventLoop.State}, l.advance = some l' →
      (∀ h, l'.pc ≠ .running .readable h) →
      step id fd ⟨l, s.worker, s.references, none⟩ (.loop .advance) =
        some ⟨l', s.worker, s.references, none⟩ :=
    fun hl hpc => step_advance_idle rfl hl hpc
  have hpc₄ : (l₄.drop h.id).pc = .batch [] := EventLoop.pc_drop
  refine ⟨List.replicate 5 (.loop .advance),
    ⟨{ l₄.drop h.id with pc := .outside }, s.worker, s.references, none⟩, fun a ha => ?_, ?_, rfl⟩
  · obtain rfl := List.eq_of_mem_replicate ha
    trivial
  · simp only [List.replicate_succ, List.replicate_zero]
    rw [Lts.run_cons, hfirst, Option.bind_some,
      Lts.run_cons, hnext hsecond (fun _ h => by cases h), Option.bind_some,
      Lts.run_cons, hnext hthird (fun _ h => by cases h), Option.bind_some,
      Lts.run_cons, hnext hfourth (fun _ h => by cases hpc₄.symm.trans h), Option.bind_some,
      Lts.run_cons, hnext hfifth (fun _ h => by cases h), Option.bind_some, Lts.run_nil]

/-- A `poll` that finds the descriptor readable is enough. -/
theorem returns_of_readable (hsound : Sound id fd s) (hset : s.loop.epoll fd ≠ none)
    (hidle : s.callback = none) (hout : s.loop.pc = .outside) (hone : s.references = 1)
    (hreadable : s.worker.readable = true) :
    ∃ acts s', (∀ a ∈ acts, OfMain fd a) ∧ Lts.run (step id fd) s acts = some s' ∧
      MainReturns id s' := by
  have hatt : Attached id fd s :=
    hsound.channel.resolve_right fun hdet => hset hdet.unwatched
  rcases pollRuns_of_watched hatt.watched hset hidle hreadable hout with ⟨s₁, hpoll, hstmt⟩
  have hpollMain : ∀ a ∈ [Act.loop (.epollWait [readEvent fd]), .loop .advance, .loop .advance],
      OfMain fd a := by
    intro a ha
    simp only [List.mem_cons, List.not_mem_nil, or_false, or_self] at ha
    rcases ha with rfl | rfl
    · intro e he _
      obtain rfl := List.mem_singleton.mp he
      rfl
    · trivial
  have hsound₁ := hsound.run hpoll
  have hone₁ : s₁.references = 1 := (references_run hpollMain hpoll).trans hone
  rcases callback_lets_go hsound₁ hstmt hone₁ with ⟨acts, s₂, hacts, hlet, hdet, hret, hpc⟩
  -- the iteration is the one for the event of the descriptor
  have hatt₁ : Attached id fd s₁ := by
    refine hsound₁.channel.resolve_right fun hdet => ?_
    rcases hdet.body with hnone | hret
    · cases hnone.symm.trans hstmt
    · cases hret.symm.trans hstmt
  rcases (hatt₁.body _ hstmt).1 with ⟨h, hrunning, -⟩
  have hevents : ((some h.fd, h.events) :: h.rest).Sublist [readEvent fd] := by
    have hsub := events_poll hpoll
    rwa [hrunning] at hsub
  have honly : (some h.fd, h.events) :: h.rest = [readEvent fd] :=
    hevents.eq_of_length_le (Nat.succ_le_succ (Nat.zero_le _))
  have hevent : h.events = (readEvent fd).2 :=
    congrArg Prod.snd (List.cons.inj honly).1
  have hrest : h.rest = [] := (List.cons.inj honly).2
  rcases poll_returns id fd (hpc.trans hrunning) hret hrest
    (by rw [hevent]; rfl) (by rw [hevent]; rfl) with ⟨acts', s₃, hacts', hreturns, hout₃⟩
  have hrun : Lts.run (step id fd) s (([Act.loop (.epollWait [readEvent fd]), .loop .advance,
      .loop .advance] ++ acts) ++ acts') = some s₃ := by
    rw [Lts.run_append, Lts.run_append, hpoll, Option.bind_some, hlet, Option.bind_some, hreturns]
  have hmain : ∀ a ∈ ([Act.loop (.epollWait [readEvent fd]), .loop .advance, .loop .advance] ++
      acts) ++ acts', OfMain fd a := by
    intro a ha
    simp only [List.mem_append] at ha
    rcases ha with (ha | ha) | ha
    · exact hpollMain a ha
    · exact hacts a ha
    · exact hacts' a ha
  refine ⟨_, s₃, hmain, hrun, hout₃, ?_⟩
  have hdet₃ : Detached id fd s₃ := (hdet.run (hsound₁.run hlet).alone hreturns)
  exact (useCount_detached hdet₃).trans ((references_run hmain hrun).trans hone)

/-- When only `main` is left between two calls of `poll`, and the channel of the worker is still
registered, `main` can leave its loop iff the worker is armed or its descriptor readable. -/
theorem main_returns_iff (before : List EventLoop.Act) {l l' : EventLoop.State} {admits : Bool}
    (hrun : Lts.run EventLoop.step .init before = some l)
    (hreg : registerLoop l fd admits = some l') (w : Worker) (references : Nat)
    {acts : List Act} {s : State}
    (hs : Lts.run (step l.objects.length fd) ⟨l', w, references, none⟩ acts = some s)
    (hset : s.loop.epoll fd ≠ none) (hidle : s.callback = none) (hout : s.loop.pc = .outside)
    (hone : s.references = 1) :
    (∃ rest s', (∀ a ∈ rest, OfMain fd a) ∧
        Lts.run (step l.objects.length fd) s rest = some s' ∧
        MainReturns l.objects.length s') ↔ s.worker.Wakes := by
  rcases registerLoop_sound before hrun hreg w references with ⟨halone, hatt⟩
  have hinit : Sound l.objects.length fd ⟨l', w, references, none⟩ := ⟨halone, .inl hatt⟩
  have hsound := hinit.run hs
  constructor
  · rintro ⟨rest, s', hmain, hrest, -, hcount⟩
    by_contra hasleep
    have hattached : Attached l.objects.length fd s :=
      hsound.channel.resolve_right fun hdet => hset hdet.unwatched
    have hstart : Asleep l.objects.length fd s := by
      refine ⟨hsound.alone, hattached, hidle, hone, hasleep, ?_⟩
      rw [hout]
      intro e he
      cases he
    have hend := hstart.run hmain hrest
    have hkeeps := useCount_attached hend.attached
    rw [hend.references, hcount] at hkeeps
    omega
  · intro hwakes
    by_cases hreadable : s.worker.readable = true
    · exact returns_of_readable hsound hset hidle hout hone hreadable
    · -- an armed worker tells of the next event
      have harmed := hwakes.resolve_right hreadable
      let s₁ : State := { s with worker := s.worker.arrive }
      have hreadable₁ : s₁.worker.readable = true := by
        simp only [s₁, Worker.arrive, harmed, Bool.true_or]
      rcases returns_of_readable (s := s₁) (hsound.congr rfl rfl) hset hidle hout hone hreadable₁
        with ⟨rest, s', hmain, hrest, hreturns⟩
      refine ⟨.arrive :: rest, s', fun a ha => ?_, ?_, hreturns⟩
      · rcases List.mem_cons.mp ha with rfl | ha
        · trivial
        · exact hmain a ha
      · rw [Lts.run_cons]
        exact hrest

end

/-! ### Two workers -/

theorem main_returns_armed :
    ∃ l, registerLoop .init 7 true = some l ∧
      ∃ rest s', (∀ a ∈ rest, OfMain 7 a) ∧
        Lts.run (step 0 7) ⟨l, armedWorker, 1, none⟩ rest = some s' ∧ MainReturns 0 s' := by
  have hreg : ∃ l, registerLoop .init 7 true = some l := ⟨_, rfl⟩
  rcases hreg with ⟨l, hreg⟩
  have hwatched := registerLoop_watched EventLoop.inv_init hreg
  have hpc : l.pc = .outside := by
    cases hreg
    rfl
  have hstart : Lts.run (step 0 7) ⟨l, armedWorker, 1, none⟩ [] =
      some ⟨l, armedWorker, 1, none⟩ := rfl
  exact ⟨l, hreg, (main_returns_iff [] rfl hreg armedWorker 1 hstart hwatched.2.2.2 rfl hpc
    rfl).mpr (.inl rfl)⟩

end Ucxpp.WorkerEpoll
