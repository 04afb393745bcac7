import Ucxpp.WorkerEpollWakeup

/-!
# WorkerEpollShutdown — when the callback lets go of the worker

The callback of `register_loop` owns the worker and its own channel, and `main` polls while
`worker.use_count()` is above one. The callback lets go only when it runs and finds no owner
beside one (`Finds`), after that it is not set again, and nothing else makes it let go.
-/

namespace Ucxpp.WorkerEpoll

open EventLoop (Fd ChannelId)

/-- `worker.use_count()`: the callback is stored in its channel. -/
def useCount (id : ChannelId) (s : State) : Nat :=
  s.references +
    match s.loop.lock id with
    | some c => if c.readableCallback = .run then 1 else 0
    | none => 0

/-- The callback looks at `use_count()` and finds no owner beside one, `main`. -/
def Finds (s : State) : Act → Prop
  | .callback .. => s.callback = some .useCount ∧ s.references ≤ 1
  | .arrive | .progress _ | .arm | .acquire | .release | .loop _ => False

/-- The steps, by what they change: the worker and who has it, the loop, or the callback. -/
inductive Step (id : ChannelId) (fd : Fd) (s : State) : Act → State → Prop where
  | worker {a : Act} {s' : State} (hfinds : ¬Finds s a) (hloop : s'.loop = s.loop)
      (hcallback : s'.callback = s.callback) : Step id fd s a s'
  | loop {a : EventLoop.Act} {l : EventLoop.State} (hapart : Apart id fd s a)
      (hl : EventLoop.step s.loop a = some l) :
      Step id fd s (.loop a) { s with
        loop := l
        callback :=
          if a = .advance then if CallbackRuns id l.pc then some .progress else none
          else s.callback }
  | callback {left : Nat} {admits : Bool} {stmt : Stmt} {s' : State}
      (hstmt : s.callback = some stmt) (hrun : runCallback id fd s stmt left admits = some s') :
      Step id fd s (.callback left admits) s'

section

variable {id : ChannelId} {fd : Fd} {s s' : State}

theorem step_cases {a : Act} (hstep : step id fd s a = some s') : Step id fd s a s' := by
  cases a with
  | arrive =>
    obtain rfl := Option.some.inj hstep
    exact .worker not_false rfl rfl
  | progress left =>
    rcases Option.map_eq_some_iff.mp hstep with ⟨⟨more, w⟩, -, rfl⟩
    exact .worker not_false rfl rfl
  | arm =>
    obtain rfl := Option.some.inj hstep
    exact .worker not_false rfl rfl
  | acquire =>
    obtain rfl := Option.some.inj hstep
    exact .worker not_false rfl rfl
  | release =>
    rcases Option.ite_none_right_eq_some.mp hstep with ⟨-, hs⟩
    obtain rfl := Option.some.inj hs
    exact .worker not_false rfl rfl
  | loop a =>
    rcases Option.ite_none_right_eq_some.mp hstep with ⟨hapart, hs⟩
    rcases Option.map_eq_some_iff.mp hs with ⟨l, hl, rfl⟩
    exact .loop hapart hl
  | callback left admits =>
    rcases Option.bind_eq_some_iff.mp hstep with ⟨stmt, hstmt, hrun⟩
    exact .callback hstmt hrun

/-! ## Without the worker -/

/-- What holds after `register_loop`, whatever the worker. -/
structure Sound (id : ChannelId) (fd : Fd) (s : State) : Prop where
  alone : Alone id fd s.loop
  channel : Attached id fd s ∨ Detached id fd s

theorem Attached.congr (h : Attached id fd s) (hloop : s'.loop = s.loop)
    (hcallback : s'.callback = s.callback) : Attached id fd s' := by
  refine ⟨hloop ▸ h.inv, hloop ▸ h.watched, ?_⟩
  rw [hcallback, hloop]
  exact h.body

theorem Detached.congr (h : Detached id fd s) (hloop : s'.loop = s.loop)
    (hcallback : s'.callback = s.callback) : Detached id fd s' := by
  refine ⟨hloop ▸ h.unwatched, ?_, hloop ▸ h.length, hcallback ▸ h.body⟩
  rw [hloop]
  exact h.idle

theorem Sound.congr (h : Sound id fd s) (hloop : s'.loop = s.loop)
    (hcallback : s'.callback = s.callback) : Sound id fd s' := by
  refine ⟨hloop ▸ h.alone, ?_⟩
  rcases h.channel with hatt | hdet
  · exact .inl (hatt.congr hloop hcallback)
  · exact .inr (hdet.congr hloop hcallback)

/-- A statement that only moves the callback on. -/
theorem Attached.next (h : Attached id fd s) {stmt stmt' : Stmt} (hstmt : s.callback = some stmt)
    (hret : stmt ≠ .ret) (w : Worker) :
    Attached id fd { s with worker := w, callback := some stmt' } := by
  refine ⟨h.inv, h.watched, ?_⟩
  intro _ _
  rcases h.body stmt hstmt with ⟨hpc, hepoll⟩
  exact ⟨hpc, fun _ => hepoll hret⟩

/-- The last statements of the callback do not look at the worker. -/
theorem runCallback_worker {stmt : Stmt} (hstmt : stmt = .waitReadable ∨ stmt = .reset)
    (left : Nat) (admits : Bool) (w : Worker) :
    runCallback id fd { s with worker := w } stmt left admits =
      (runCallback id fd s stmt left admits).map fun s' => { s' with worker := w } := by
  rcases hstmt with rfl | rfl
  · simp only [runCallback]
    split
    · rfl
    · rw [Option.map_map]
      rfl
  · simp only [runCallback]
    rw [Option.map_map]
    rfl

/-- A statement of the callback. -/
theorem Sound.callback (h : Sound id fd s) (hatt : Attached id fd s) {stmt : Stmt} {left : Nat}
    {admits : Bool} (hstmt : s.callback = some stmt)
    (hstep : runCallback id fd s stmt left admits = some s') : Sound id fd s' := by
  have hlast : stmt = .waitReadable ∨ stmt = .reset → Sound id fd s' := by
    intro hlast
    -- with a worker that wakes the step is one of the runs without lost events
    let w : Worker := ⟨0, true, false, fun _ => rfl⟩
    have hinv : Inv id fd { s with worker := w } :=
      ⟨h.alone, .inl (hatt.congr rfl rfl), .inl rfl⟩
    have hrun : runCallback id fd { s with worker := w } stmt left admits =
        some { s' with worker := w } := by
      rw [runCallback_worker hlast, hstep]
      rfl
    have hinv' := attached_callback hinv (hatt.congr rfl rfl) hstmt hrun
    exact Sound.congr (s := { s' with worker := w }) ⟨hinv'.alone, hinv'.channel⟩ rfl rfl
  cases stmt with
  | progress =>
    rcases Option.map_eq_some_iff.mp hstep with ⟨⟨more, w⟩, -, rfl⟩
    exact ⟨h.alone, .inl (hatt.next hstmt (by decide) w)⟩
  | arm =>
    obtain rfl := Option.some.inj hstep
    exact ⟨h.alone, .inl (hatt.next hstmt (by decide) _)⟩
  | useCount =>
    obtain rfl := Option.some.inj hstep
    exact ⟨h.alone, .inl (hatt.next hstmt (by decide) s.worker)⟩
  | waitReadable => exact hlast (.inl rfl)
  | reset => exact hlast (.inr rfl)
  | ret => cases hstep

theorem Alone.next {a : EventLoop.Act} {l : EventLoop.State} (halone : Alone id fd s.loop)
    (hapart : Apart id fd s a) (hl : EventLoop.step s.loop a = some l) : Alone id fd l := by
  refine halone.step ?_ hl
  rintro rfl
  exact hapart.2 rfl

/-- Nothing follows in a callback that has been reset. -/
theorem Detached.callback (hdet : Detached id fd s) {stmt : Stmt} {left : Nat} {admits : Bool}
    (hstmt : s.callback = some stmt) : runCallback id fd s stmt left admits = none := by
  rcases hdet.body with hnone | hret
  · cases hnone.symm.trans hstmt
  · obtain rfl := Option.some.inj (hret.symm.trans hstmt)
    rfl

theorem Detached.step {a : Act} (hdet : Detached id fd s) (halone : Alone id fd s.loop)
    (hstep : step id fd s a = some s') : Detached id fd s' := by
  cases step_cases hstep with
  | worker _ hloop hcallback => exact hdet.congr hloop hcallback
  | loop hapart hl => exact detached_loop halone hdet hapart hl
  | callback hstmt hrun => cases (hdet.callback hstmt).symm.trans hrun

theorem Sound.step {a : Act} (h : Sound id fd s) (hstep : step id fd s a = some s') :
    Sound id fd s' := by
  rcases h.channel with hatt | hdet
  · cases step_cases hstep with
    | worker _ hloop hcallback => exact h.congr hloop hcallback
    | loop hapart hl => exact ⟨h.alone.next hapart hl, .inl (attached_loop h.alone hatt hapart hl)⟩
    | callback hstmt hrun => exact h.callback hatt hstmt hrun
  · refine ⟨?_, .inr (hdet.step h.alone hstep)⟩
    cases step_cases hstep with
    | worker _ hloop _ => exact hloop ▸ h.alone
    | loop hapart hl => exact h.alone.next hapart hl
    | callback hstmt hrun => cases (hdet.callback hstmt).symm.trans hrun

theorem Sound.run {acts : List Act} (h : Sound id fd s)
    (hrun : Lts.run (WorkerEpoll.step id fd) s acts = some s') : Sound id fd s' :=
  Lts.run_invariant (P := fun _ _ => True) (Sound id fd) (fun _ _ _ h _ hstep => h.step hstep) h
    (Lts.stepsMeet_true _ _) hrun

theorem Detached.run {acts : List Act} (hdet : Detached id fd s) (halone : Alone id fd s.loop)
    (hrun : Lts.run (WorkerEpoll.step id fd) s acts = some s') : Detached id fd s' :=
  (Lts.run_invariant (P := fun _ _ => True) (fun t => Detached id fd t ∧ Alone id fd t.loop)
    (fun _ _ _ h _ hstep =>
      ⟨h.1.step h.2 hstep, (Sound.step ⟨h.2, .inr h.1⟩ hstep).alone⟩)
    ⟨hdet, halone⟩ (Lts.stepsMeet_true _ _) hrun).1

/-! ## Who has the worker -/

theorem useCount_attached (h : Attached id fd s) : useCount id s = s.references + 1 := by
  unfold useCount
  rw [h.watched.channel]
  rfl

theorem useCount_detached (h : Detached id fd s) : useCount id s = s.references := by
  unfold useCount
  cases hlock : s.loop.lock id with
  | none => rfl
  | some c =>
    have hidle : c.readableCallback = .noop := (h.idle c hlock).1
    simp only [hidle]
    rfl

theorem Attached.not_detached (h : Attached id fd s) : ¬Detached id fd s := by
  intro hdet
  have hidle : (eventChannel fd).readableCallback = .noop := (hdet.idle _ h.watched.channel).1
  cases hidle

/-- The callback is set, and is not about to let go. -/
def Kept (id : ChannelId) (fd : Fd) (s : State) : Prop :=
  Attached id fd s ∧ s.callback ≠ some .reset

/-- `wait_readable` leaves the channel as it is. -/
theorem lock_waitReadable {left : Nat} {admits : Bool}
    (hstep : runCallback id fd s .waitReadable left admits = some s') :
    s'.loop.lock id = s.loop.lock id ∧ s'.callback ≠ some .reset := by
  simp only [runCallback] at hstep
  have hlock : (s.loop.registerChannel id fd .readable admits).1.lock id = s.loop.lock id :=
    EventLoop.lock_registerChannel admits
  split at hstep
  · rename_i l heq
    obtain rfl := Option.some.inj hstep
    rw [heq] at hlock
    exact ⟨hlock, fun hnext => by cases hnext⟩
  · rename_i l heq
    rcases Option.map_eq_some_iff.mp hstep with ⟨l', hthrow, rfl⟩
    rw [heq] at hlock
    cases EventLoop.step_cases hthrow with
    | throw _ => exact ⟨hlock, fun hnext => by cases hnext⟩

/-- A step keeps the callback set, unless the callback finds no owner beside one. -/
theorem kept_step {a : Act} (hsound : Sound id fd s) (hkept : Kept id fd s)
    (hstep : step id fd s a = some s') : Kept id fd s' ↔ ¬Finds s a := by
  rcases hkept with ⟨hatt, hreset⟩
  cases step_cases hstep with
  | worker hfinds hloop hcallback =>
    exact iff_of_true ⟨hatt.congr hloop hcallback, hcallback ▸ hreset⟩ hfinds
  | loop hapart hl =>
    refine iff_of_true ⟨attached_loop hsound.alone hatt hapart hl, fun hnext => ?_⟩ not_false
    simp only at hnext
    split at hnext
    · split at hnext
      · cases hnext
      · cases hnext
    · exact hreset hnext
  | @callback left admits stmt _ hstmt hrun =>
    have hfinds : Finds s (.callback left admits) ↔ stmt = .useCount ∧ s.references ≤ 1 := by
      unfold Finds
      rw [hstmt, Option.some.injEq]
    rw [hfinds]
    cases stmt with
    | progress =>
      rcases Option.map_eq_some_iff.mp hrun with ⟨⟨more, w⟩, -, rfl⟩
      refine iff_of_true ⟨hatt.next hstmt (by decide) w, ?_⟩ (fun h => by cases h.1)
      intro hnext
      cases more with
      | true => cases hnext
      | false => cases hnext
    | arm =>
      obtain rfl := Option.some.inj hrun
      refine iff_of_true ⟨hatt.next hstmt (by decide) _, ?_⟩ (fun h => by cases h.1)
      intro hnext
      split at hnext
      · cases hnext
      · cases hnext
    | useCount =>
      obtain rfl := Option.some.inj hrun
      have hatt' : Attached id fd { s with
          callback := some (if s.references + 1 > 2 then .waitReadable else .reset) } :=
        hatt.next hstmt (by decide) s.worker
      by_cases hmore : s.references + 1 > 2
      · have hfew : ¬s.references ≤ 1 := by omega
        refine iff_of_true ⟨hatt', ?_⟩ (fun h => hfew h.2)
        intro hnext
        rw [if_pos hmore] at hnext
        cases hnext
      · have hfew : s.references ≤ 1 := by omega
        refine iff_of_false (fun h => h.2 ?_) (fun h => h ⟨rfl, hfew⟩)
        rw [if_neg hmore]
    | waitReadable =>
      rcases lock_waitReadable hrun with ⟨hlock, hnot⟩
      refine iff_of_true ⟨?_, hnot⟩ (fun h => by cases h.1)
      rcases (hsound.callback hatt hstmt hrun).channel with hatt' | hdet
      · exact hatt'
      · have hidle := (hdet.idle _ (hlock.trans hatt.watched.channel)).1
        cases hidle
    | reset => exact absurd hstmt hreset
    | ret => cases hrun

/-- Once the callback is to let go, it lets go. -/
theorem let_go_step {a : Act} (hreset : s.callback = some .reset)
    (hstep : step id fd s a = some s') : s'.callback = some .reset ∨ ¬Attached id fd s' := by
  cases step_cases hstep with
  | worker _ _ hcallback => exact .inl (hcallback.trans hreset)
  | @loop a l hapart _ =>
    have hadvance : a ≠ .advance := by
      rintro rfl
      rcases hapart.2 with hnone | hret
      · cases hnone.symm.trans hreset
      · cases hret.symm.trans hreset
    exact .inl ((if_neg hadvance).trans hreset)
  | callback hstmt hrun =>
    obtain rfl := Option.some.inj (hreset.symm.trans hstmt)
    rcases Option.map_eq_some_iff.mp hrun with ⟨c, hc, rfl⟩
    refine .inr fun hatt' => ?_
    have hchannel := hatt'.watched.channel
    rw [EventLoop.lock_setChannel hc, if_pos rfl] at hchannel
    split at hchannel
    · cases hchannel
    · cases hchannel

/-- A callback that has let go, or is about to, is not set again. -/
theorem not_kept_step {a : Act} (hsound : Sound id fd s) (hlost : ¬Kept id fd s)
    (hstep : step id fd s a = some s') : ¬Kept id fd s' := by
  rintro ⟨hatt', hreset'⟩
  rcases hsound.channel with hatt | hdet
  · have hreset : s.callback = some .reset := by
      by_contra hno
      exact hlost ⟨hatt, hno⟩
    rcases let_go_step hreset hstep with hsame | hgone
    · exact hreset' hsame
    · exact hgone hatt'
  · exact hatt'.not_detached (hdet.step hsound.alone hstep)

/-- What `register_loop` leaves, without the worker. -/
theorem registerLoop_sound (before : List EventLoop.Act) {l l' : EventLoop.State} {admits : Bool}
    (hrun : Lts.run EventLoop.step .init before = some l)
    (hreg : registerLoop l fd admits = some l') (w : Worker) (references : Nat) :
    Alone l.objects.length fd l' ∧ Attached l.objects.length fd ⟨l', w, references, none⟩ := by
  have hinv : EventLoop.Inv l := Lts.run_invariant (P := fun _ _ => True) EventLoop.Inv
    (fun _ _ _ h _ hstep => h.step hstep) EventLoop.inv_init (Lts.stepsMeet_true _ _) hrun
  rcases registerLoop_watched hinv hreg with ⟨hinv', hwatched, halone, -⟩
  exact ⟨halone, hinv', hwatched, fun _ hstmt => by cases hstmt⟩

/-- After every run from the return of `register_loop` on, between the calls of its callback,
the callback has the worker iff it has never found that only one other owner is left. -/
theorem let_go_iff (before : List EventLoop.Act) {l l' : EventLoop.State} {admits : Bool}
    (hrun : Lts.run EventLoop.step .init before = some l)
    (hreg : registerLoop l fd admits = some l') (w : Worker) (references : Nat)
    {acts : List Act} {s : State}
    (hs : Lts.run (step l.objects.length fd) ⟨l', w, references, none⟩ acts = some s)
    (hidle : s.callback = none) :
    useCount l.objects.length s = s.references + 1 ↔
      Lts.StepsMeet (step l.objects.length fd) (fun s a => ¬Finds s a)
        ⟨l', w, references, none⟩ acts := by
  rcases registerLoop_sound before hrun hreg w references with ⟨halone, hatt⟩
  have hinit : Sound l.objects.length fd ⟨l', w, references, none⟩ := ⟨halone, .inl hatt⟩
  have hsound := hinit.run hs
  have hkept : Kept l.objects.length fd s ↔ Lts.StepsMeet (step l.objects.length fd)
      (fun s a => ¬Finds s a) ⟨l', w, references, none⟩ acts :=
    Lts.run_good_iff (D := fun _ _ => True) (Sound l.objects.length fd) (Kept l.objects.length fd)
      (fun _ _ _ h _ hstep => h.step hstep)
      (fun _ _ _ h hk _ hstep => kept_step h hk hstep)
      (fun _ _ _ h hk hstep => not_kept_step h hk hstep)
      hinit ⟨hatt, fun h => by cases h⟩ (Lts.stepsMeet_true _ _) hs
  rw [← hkept]
  rcases hsound.channel with hatt' | hdet
  · exact iff_of_true (useCount_attached hatt') ⟨hatt', fun h => by cases hidle.symm.trans h⟩
  · have hcount := useCount_detached hdet
    refine iff_of_false ?_ fun hk => hk.1.not_detached hdet
    omega

end

/-! ### The last owner -/

/-- An event arrives when only one other owner is left. -/
def lastCall : List Act :=
  [.arrive, .loop (.epollWait [EventLoop.readEvent 7]), .loop .advance, .loop .advance,
    .callback 0 true, .callback 0 true, .callback 0 true, .callback 0 true, .callback 0 true,
    .loop .advance]

theorem let_go_last :
    ∃ l, registerLoop .init 7 true = some l ∧
      ∃ s, Lts.run (step 0 7) ⟨l, armedWorker, 1, none⟩ lastCall = some s ∧ useCount 0 s = 1 ∧
        (useCount 0 s = s.references + 1 ↔ Lts.StepsMeet (step 0 7) (fun s a => ¬Finds s a)
          ⟨l, armedWorker, 1, none⟩ lastCall) := by
  have hreg : ∃ l, registerLoop .init 7 true = some l := ⟨_, rfl⟩
  rcases hreg with ⟨l, hreg⟩
  have hlast : ∃ s, Lts.run (step 0 7) ⟨l, armedWorker, 1, none⟩ lastCall = some s ∧
      useCount 0 s = 1 ∧ s.callback = none := by
    cases hreg
    exact ⟨_, rfl, rfl, rfl⟩
  rcases hlast with ⟨s, hs, hcount, hidle⟩
  exact ⟨l, hreg, s, hs, hcount, let_go_iff [] rfl hreg armedWorker 1 hs hidle⟩

end Ucxpp.WorkerEpoll
