import Ucxpp.EventLoopTable

/-!
# EventLoopFrame — what the steps leave alone

A step changes the descriptor of no channel, the callbacks only of the channel that
the user names, and the entries of a descriptor only through its channel. What the
rest of the program does not name it does not touch.
-/

namespace Ucxpp.EventLoop

section

variable {s s' : State} {i id : ChannelId} {fd : Fd} {c c' e : Channel} {d : Direction}
  {h : Handling} {a : Act}

/-! ## The channels -/

theorem lock_destroy_ne (hi : i ≠ id) : (s.destroy id c).lock i = s.lock i := by
  unfold State.destroy
  split
  · exact lock_setChannel_ne (s := s.deregister c.fd) hi
  · exact lock_setChannel_ne hi

theorem lock_destroy (hc : s.lock id = some c) : (s.destroy id c).lock id = none := by
  unfold State.destroy
  split
  · rw [lock_setChannel (s := s.deregister c.fd) hc]
    simp
  · rw [lock_setChannel hc]
    simp

theorem lock_drop_ne (hi : i ≠ id) : (s.drop id).lock i = s.lock i := by
  unfold State.drop
  split
  · split
    · exact lock_destroy_ne hi
    · rfl
  · rfl

/-- A channel that is dropped lives on if it has an owner. -/
theorem lock_drop (s : State) (id i : ChannelId) : (s.drop id).lock i = s.lock i ∨
    (s.drop id).lock i = none ∧ ∃ c, s.lock i = some c ∧ c.owned = false := by
  by_cases hi : i = id
  · subst hi
    unfold State.drop
    split
    · rename_i c hc
      split
      · rename_i hfree
        exact .inr ⟨lock_destroy hc, c, hc, hfree.1⟩
      · exact .inl rfl
    · exact .inl rfl
  · exact .inl (lock_drop_ne hi)

theorem lock_awaitSuspend_ne (hi : i ≠ id) (admits : Bool) :
    (s.awaitSuspend id c d admits).lock i = s.lock i := by
  have hreg : (s.newWait.registerChannel id c.fd d admits).1.lock i = s.lock i :=
    lock_registerChannel admits
  simp only [State.awaitSuspend, fd_setCallback]
  split
  · exact (lock_setChannel_ne hi).trans hreg
  · exact (lock_setChannel_ne hi).trans hreg

theorem objects_event {fd : Option Fd} {events : Events} {rest : List (Option Fd × Events)} :
    (s.event fd events rest).objects = s.objects := by
  unfold State.event
  split
  · rfl
  · split
    · rfl
    · split <;> rfl

theorem lock_event {fd : Option Fd} {events : Events} {rest : List (Option Fd × Events)} :
    (s.event fd events rest).lock i = s.lock i := by
  rw [State.lock, State.lock, objects_event]

theorem epoll_event {fd : Option Fd} {events : Events} {rest : List (Option Fd × Events)} :
    (s.event fd events rest).epoll = s.epoll := by
  unfold State.event
  split
  · rfl
  · split
    · rfl
    · split <;> rfl

/-- Only an event of a live channel begins an iteration. -/
theorem handling_event {fd : Option Fd} {events : Events} {rest : List (Option Fd × Events)}
    (hh : (s.event fd events rest).pc.handling = some h) :
    (s.event fd events rest).pc = .calling .readable h := by
  unfold State.event at hh ⊢
  split at hh
  · cases hh
  · split at hh
    · cases hh
    · split at hh
      · exact congrArg (Pc.calling .readable) (Option.some.inj hh)
      · cases hh

theorem lock_callback (hhandle : (c.callback d).handle = none) :
    (s.callback d h c).lock i = s.lock i := by
  unfold State.callback
  split
  · simp only
    split
    · rfl
    · rfl
    · -- a resumed wait clears `waiting`: excluded by `hhandle`
      rename_i w hcb
      rw [hcb] at hhandle
      cases hhandle
  · rfl

theorem lock_callback_ne (hi : i ≠ h.id) : (s.callback d h c).lock i = s.lock i := by
  unfold State.callback
  split
  · simp only
    split
    · rfl
    · rfl
    · exact lock_setChannel_ne (s := s.deregister c.fd) hi
  · rfl

/-- A channel that the step does not name stays as it is, unless it has no owner and
dies. -/
theorem lock_step (hstep : step s a = some s') (htarget : a.target ≠ some i)
    (hlen : i < s.objects.length)
    (hhandle : ∀ c, s.lock i = some c → ∀ d, (c.callback d).handle = none) :
    s'.lock i = s.lock i ∨ s'.lock i = none ∧ ∃ c, s.lock i = some c ∧ c.owned = false := by
  have hne : ∀ {j : ChannelId}, a.target = some j → i ≠ j := by
    rintro j hj rfl
    exact htarget hj
  cases step_cases hstep with
  | newChannel _ _ =>
    refine .inl ?_
    simp only [State.lock, List.getElem?_append_left hlen]
  | setCallback _ _ _ => exact .inl (lock_setChannel_ne (hne rfl))
  | register _ _ => exact .inl (lock_registerChannel _)
  | deregister _ _ => exact .inl rfl
  | await _ _ _ => exact .inl (lock_awaitSuspend_ne (hne rfl) _)
  | release _ _ => exact .inl ((lock_drop_ne (hne rfl)).trans (lock_setChannel_ne (hne rfl)))
  | throw _ => exact .inl rfl
  | epollWait _ _ => exact .inl rfl
  | batchEnd _ => exact .inl rfl
  | event _ => exact .inl lock_event
  | @call d h c _ _ hc =>
    -- `poll` calls the channel itself, or another one
    by_cases hi : i = h.id
    · subst hi
      exact .inl (lock_callback (hhandle c hc d))
    · exact .inl (lock_callback_ne hi)
  | skip _ _ => exact .inl rfl
  | ret _ => exact .inl rfl
  | returned _ =>
    refine .inl ?_
    split <;> rfl
  | done _ => exact lock_drop _ _ _

theorem length_setChannel : (s.setChannel id c).objects.length = s.objects.length :=
  List.length_set

theorem length_drop : (s.drop id).objects.length = s.objects.length := by
  unfold State.drop
  split
  · split
    · unfold State.destroy
      split <;> exact length_setChannel
    · rfl
  · rfl

theorem length_awaitSuspend (admits : Bool) :
    (s.awaitSuspend id c d admits).objects.length = s.objects.length := by
  have hreg : (s.newWait.registerChannel id c.fd d admits).1.objects.length = s.objects.length :=
    congrArg List.length (objects_registerChannel admits)
  simp only [State.awaitSuspend, fd_setCallback]
  split <;> exact length_setChannel.trans hreg

/-- Objects are never forgotten. -/
theorem length_step (hstep : step s a = some s') : s.objects.length ≤ s'.objects.length := by
  cases step_cases hstep with
  | newChannel _ _ =>
    rw [List.length_append]
    exact Nat.le_add_right ..
  | setCallback _ _ _ => exact Nat.le_of_eq length_setChannel.symm
  | register _ _ => exact Nat.le_of_eq (congrArg List.length (objects_registerChannel _)).symm
  | deregister _ _ => exact Nat.le_refl _
  | await _ _ _ => exact Nat.le_of_eq (length_awaitSuspend _).symm
  | release _ _ => exact Nat.le_of_eq (length_drop.trans length_setChannel).symm
  | throw _ => exact Nat.le_refl _
  | epollWait _ _ => exact Nat.le_refl _
  | batchEnd _ => exact Nat.le_refl _
  | event _ => exact Nat.le_of_eq (congrArg List.length objects_event).symm
  | @call d h c _ _ _ =>
    unfold State.callback
    split
    · simp only
      split
      · exact Nat.le_refl _
      · exact Nat.le_refl _
      · exact Nat.le_of_eq List.length_set.symm
    · exact Nat.le_refl _
  | skip _ _ => exact Nat.le_refl _
  | ret _ => exact Nat.le_refl _
  | returned _ => split <;> exact Nat.le_refl _
  | @done h _ => exact Nat.le_of_eq (length_drop (s := { s with pc := .batch h.rest })).symm

/-- The live channels were live before, with the same descriptors. -/
def FdsKept (s s' : State) : Prop :=
  ∀ i c', s'.lock i = some c' → ∃ c, s.lock i = some c ∧ c.fd = c'.fd

theorem FdsKept.of_lock (hlock : ∀ i, s'.lock i = s.lock i) : FdsKept s s' :=
  fun i c' hc' => ⟨c', (hlock i).symm.trans hc', rfl⟩

theorem FdsKept.trans {s₁ : State} (h₁ : FdsKept s s₁) (h₂ : FdsKept s₁ s') : FdsKept s s' := by
  intro i e he
  rcases h₂ i e he with ⟨c₁, hc₁, hfd₁⟩
  rcases h₁ i c₁ hc₁ with ⟨c₀, hc₀, hfd₀⟩
  exact ⟨c₀, hc₀, hfd₀.trans hfd₁⟩

theorem FdsKept.setChannel (hc : s.lock id = some c) (hfd : c'.fd = c.fd) :
    FdsKept s (s.setChannel id c') := by
  intro i e he
  by_cases hi : i = id
  · subst hi
    rw [lock_setChannel hc, if_pos rfl] at he
    split at he
    · obtain rfl := Option.some.inj he
      exact ⟨c, hc, hfd.symm⟩
    · cases he
  · exact ⟨e, (lock_setChannel_ne hi).symm.trans he, rfl⟩

theorem FdsKept.drop (hkept : FdsKept s s') : FdsKept s (s'.drop id) := by
  intro i e he
  rcases lock_drop s' id i with hsame | ⟨hnone, -⟩
  · exact hkept i e (hsame.symm.trans he)
  · cases hnone.symm.trans he

theorem FdsKept.awaitSuspend (hc : s.lock id = some c) (admits : Bool) :
    FdsKept s (s.awaitSuspend id c d admits) := by
  have hreg : (s.newWait.registerChannel id c.fd d admits).1.lock id = some c :=
    (lock_registerChannel admits).trans hc
  have hkept : FdsKept s (s.newWait.registerChannel id c.fd d admits).1 :=
    .of_lock fun _ => lock_registerChannel admits
  have hfd : (c.setCallback d (.resume s.nextWait)).fd = c.fd := fd_setCallback _
  simp only [State.awaitSuspend, fd_setCallback]
  split
  · exact hkept.trans (.setChannel hreg rfl)
  · exact hkept.trans (.setChannel hreg hfd)

theorem FdsKept.callback (hc : s.lock h.id = some c) : FdsKept s (s.callback d h c) := by
  unfold State.callback
  split
  · simp only
    split
    · exact .of_lock fun _ => rfl
    · exact .of_lock fun _ => rfl
    · exact FdsKept.setChannel (s := s.deregister c.fd) hc rfl
  · exact .of_lock fun _ => rfl

/-- A live channel was there before with the same descriptor, or is new. -/
theorem fd_step (hstep : step s a = some s') (hc' : s'.lock i = some c') :
    (∃ c, s.lock i = some c ∧ c.fd = c'.fd) ∨ a = .newChannel c'.fd := by
  cases step_cases hstep with
  | newChannel _ _ =>
    rcases lock_eq_some.mp hc' with ⟨hget, halive⟩
    -- the objects are the old ones and the new channel
    rcases Trace.getElem?_concat.mp hget with hget | ⟨-, rfl⟩
    · exact .inl ⟨c', lock_eq_some.mpr ⟨hget, halive⟩, rfl⟩
    · exact .inr rfl
  | setCallback hc _ _ => exact .inl (FdsKept.setChannel hc (fd_setCallback _) i c' hc')
  | register _ _ => exact .inl ⟨c', (lock_registerChannel _).symm.trans hc', rfl⟩
  | deregister _ _ => exact .inl ⟨c', hc', rfl⟩
  | await hc _ _ => exact .inl (FdsKept.awaitSuspend hc _ i c' hc')
  | @release id c hc _ =>
    have hset : FdsKept s (s.setChannel id { c with owned := false }) := .setChannel hc rfl
    exact .inl (hset.drop i c' hc')
  | throw _ => exact .inl ⟨c', hc', rfl⟩
  | epollWait _ _ => exact .inl ⟨c', hc', rfl⟩
  | batchEnd _ => exact .inl ⟨c', hc', rfl⟩
  | event _ => exact .inl ⟨c', lock_event.symm.trans hc', rfl⟩
  | call _ _ hc => exact .inl (FdsKept.callback hc i c' hc')
  | skip _ _ => exact .inl ⟨c', hc', rfl⟩
  | ret _ => exact .inl ⟨c', hc', rfl⟩
  | returned _ =>
    refine .inl ⟨c', Eq.trans ?_ hc', rfl⟩
    split <;> rfl
  | @done h _ =>
    have hkept : FdsKept s { s with pc := .batch h.rest } := .of_lock fun _ => rfl
    exact .inl (hkept.drop i c' hc')

/-! ## The entries -/

/-- The tables say the same of `fd`. -/
def SameAt (fd : Fd) (s s' : State) : Prop :=
  s'.channels fd = s.channels fd ∧ s'.epoll fd = s.epoll fd

theorem SameAt.deregister {fd' : Fd} (hne : fd' ≠ fd) : SameAt fd s (s.deregister fd') :=
  ⟨channels_deregister.trans (if_neg hne.symm), epoll_deregister.trans (if_neg hne.symm)⟩

theorem SameAt.erase {fd' : Fd} (hne : fd' ≠ fd) : SameAt fd s (s.erase fd') :=
  ⟨channels_erase.trans (if_neg hne.symm), rfl⟩

theorem SameAt.registerChannel {fd' : Fd} (hne : fd' ≠ fd) (admits : Bool) :
    SameAt fd s (s.registerChannel id fd' d admits).1 :=
  ⟨(channels_registerChannel admits).trans (if_neg hne.symm),
    (epoll_registerChannel admits).trans (if_neg fun h => hne.symm h.1)⟩

theorem SameAt.awaitSuspend (hne : c.fd ≠ fd) (admits : Bool) :
    SameAt fd s (s.awaitSuspend id c d admits) := by
  have hreg : SameAt fd s (s.newWait.registerChannel id c.fd d admits).1 :=
    SameAt.registerChannel (s := s.newWait) hne admits
  simp only [State.awaitSuspend, fd_setCallback]
  split <;> exact hreg

theorem SameAt.drop (hne : ∀ c, s.lock id = some c → c.fd ≠ fd) : SameAt fd s (s.drop id) := by
  unfold State.drop
  split
  · rename_i c hc
    split
    · unfold State.destroy
      split
      · exact SameAt.deregister (s := s) (hne c hc)
      · exact ⟨rfl, rfl⟩
    · exact ⟨rfl, rfl⟩
  · exact ⟨rfl, rfl⟩

theorem SameAt.callback (hne : c.fd ≠ fd) : SameAt fd s (s.callback d h c) := by
  unfold State.callback
  split
  · have hdereg : SameAt fd s (s.deregister c.fd) := .deregister hne
    simp only
    split <;> exact hdereg
  · exact ⟨rfl, rfl⟩

theorem SameAt.event (hinv : Inv s) {fd' : Option Fd} {events : Events}
    {rest : List (Option Fd × Events)} : SameAt fd s (s.event fd' events rest) := by
  unfold State.event
  split
  · exact ⟨rfl, rfl⟩
  · split
    · exact ⟨rfl, rfl⟩
    · rename_i hentry
      rcases hinv.entry _ _ hentry with ⟨-, c, hc, -⟩
      rw [hc]
      exact ⟨rfl, rfl⟩

/-- The entries of a descriptor change with its channel `i` only: when the user names
it, and in an iteration of `poll` for it. -/
theorem sameAt_step (hinv : Inv s) (hothers : ∀ j c, s.lock j = some c → j ≠ i → c.fd ≠ fd)
    (htarget : a.target ≠ some i)
    (hpoll : a = .advance → ∀ h, s.pc.handling = some h → h.id ≠ i)
    (hstep : step s a = some s') : SameAt fd s s' := by
  have hne : ∀ {j : ChannelId}, a.target = some j → j ≠ i := by
    rintro j hj rfl
    exact htarget hj
  cases step_cases hstep with
  | newChannel _ _ => exact ⟨rfl, rfl⟩
  | setCallback _ _ _ => exact ⟨rfl, rfl⟩
  | register hc _ => exact .registerChannel (hothers _ _ hc (hne rfl)) _
  | deregister hc _ => exact .deregister (hothers _ _ hc (hne rfl))
  | await hc _ _ => exact .awaitSuspend (hothers _ _ hc (hne rfl)) _
  | @release id c hc _ =>
    have hkept : FdsKept s (s.setChannel id { c with owned := false }) := .setChannel hc rfl
    -- the channel that loses its owner may die, and deregisters its own descriptor
    refine SameAt.drop (s := s.setChannel id { c with owned := false }) fun c' hc' => ?_
    rcases hkept id c' hc' with ⟨c₀, hc₀, hfd⟩
    exact hfd ▸ hothers id c₀ hc₀ (hne rfl)
  | throw _ => exact ⟨rfl, rfl⟩
  | epollWait _ _ => exact ⟨rfl, rfl⟩
  | batchEnd _ => exact ⟨rfl, rfl⟩
  | event _ => exact .event hinv
  | @call d h c hpc _ hc =>
    exact .callback (hothers h.id c hc (hpoll rfl h (congrArg Pc.handling hpc)))
  | skip _ _ => exact ⟨rfl, rfl⟩
  | ret _ => exact ⟨rfl, rfl⟩
  | @returned d h hpc =>
    have hh : s.pc.handling = some h := congrArg Pc.handling hpc
    -- `poll` erases by the descriptor that its channel has
    rcases hinv.held h hh with ⟨c, hc, hfd⟩
    split
    · exact SameAt.erase (s := s) (hfd ▸ hothers h.id c hc (hpoll rfl h hh))
    · exact ⟨rfl, rfl⟩
  | @done h hpc =>
    refine SameAt.drop (s := { s with pc := .batch h.rest }) fun c hc => ?_
    exact hothers h.id c hc (hpoll rfl h (congrArg Pc.handling hpc))

/-- A descriptor that is not watched becomes watched through its channel only. -/
theorem unwatched_step (hothers : ∀ j c, s.lock j = some c → j ≠ i → c.fd ≠ fd)
    (htarget : a.target ≠ some i) (hfd : s.epoll fd = none) (hstep : step s a = some s') :
    s'.epoll fd = none := by
  have hne : ∀ {j : ChannelId}, a.target = some j → j ≠ i := by
    rintro j hj rfl
    exact htarget hj
  -- a destructor only takes descriptors out of the epoll set
  have hdrop : ∀ {t : State} {j : ChannelId}, t.epoll fd = none → (t.drop j).epoll fd = none := by
    intro t j ht
    unfold State.drop
    split
    · split
      · unfold State.destroy
        split
        · exact epoll_deregister.trans (by rw [ht, ite_self])
        · exact ht
      · exact ht
    · exact ht
  cases step_cases hstep with
  | newChannel _ _ => exact hfd
  | setCallback _ _ _ => exact hfd
  | register hc _ => exact (SameAt.registerChannel (hothers _ _ hc (hne rfl)) _).2.trans hfd
  | deregister _ _ => exact epoll_deregister.trans (by rw [hfd, ite_self])
  | await hc _ _ => exact (SameAt.awaitSuspend (hothers _ _ hc (hne rfl)) _).2.trans hfd
  | release _ _ => exact hdrop hfd
  | throw _ => exact hfd
  | epollWait _ _ => exact hfd
  | batchEnd _ => exact hfd
  | event _ => exact (congrFun epoll_event fd).trans hfd
  | @call d h c _ _ _ =>
    have hdereg : (s.deregister c.fd).epoll fd = none :=
      epoll_deregister.trans (by rw [hfd, ite_self])
    unfold State.callback
    split
    · simp only
      split <;> exact hdereg
    · exact hfd
  | skip _ _ => exact hfd
  | ret _ => exact hfd
  | returned _ => split <;> exact hfd
  | done _ => exact hdrop hfd

/-! ## The thread -/

/-- Where `poll` runs a statement of its own it goes on. -/
theorem advance_of_poll (hruns : s.pc.userRuns = false) (hstep : step s a = some s') :
    a = .advance := by
  have hfalse : ∀ {p : Prop}, s.pc.userRuns = true → p := fun h => by
    cases hruns.symm.trans h
  cases step_cases hstep with
  | newChannel h _ => exact hfalse h
  | setCallback _ h _ => exact hfalse h
  | register _ h => exact hfalse h
  | deregister _ h => exact hfalse h
  | await _ h _ => exact hfalse h
  | release _ h => exact hfalse h
  | throw hpc => exact hfalse (congrArg Pc.userRuns hpc)
  | epollWait hpc _ => exact hfalse (congrArg Pc.userRuns hpc)
  | batchEnd _ | event _ | call _ _ _ | skip _ _ | ret _ | returned _ | done _ => rfl

/-- How an iteration comes to be where it is: it was there, `poll` went on in it, it
begins, or an exception ends it. -/
theorem handling_step (hstep : step s a = some s') (hh : s'.pc.handling = some h) :
    s'.pc = s.pc ∨ (a = .advance ∧ ∃ h₀, s.pc.handling = some h₀ ∧ h₀.id = h.id) ∨
      s'.pc = .calling .readable h ∨ s'.pc = .done h := by
  cases step_cases hstep with
  | newChannel _ _ => exact .inl rfl
  | setCallback _ _ _ => exact .inl rfl
  | register _ _ => exact .inl (pc_registerChannel _)
  | deregister _ _ => exact .inl rfl
  | await _ _ _ => exact .inl (pc_awaitSuspend _)
  | release _ _ => exact .inl pc_drop
  | throw hpc =>
    obtain rfl := Option.some.inj hh
    exact .inr (.inr (.inr rfl))
  | epollWait _ _ => cases hh
  | batchEnd _ => cases hh
  | event _ => exact .inr (.inr (.inl (handling_event hh)))
  | @call d h₀ c hpc _ _ =>
    refine .inr (.inl ⟨rfl, h₀, congrArg Pc.handling hpc, ?_⟩)
    unfold State.callback at hh
    split at hh
    · simp only at hh
      split at hh <;> exact congrArg Handling.id (Option.some.inj hh)
    · cases hh
  | @skip d h₀ hpc _ =>
    refine .inr (.inl ⟨rfl, h₀, congrArg Pc.handling hpc, ?_⟩)
    exact congrArg Handling.id (Option.some.inj (handling_next.symm.trans hh))
  | @ret d h₀ hpc =>
    refine .inr (.inl ⟨rfl, h₀, congrArg Pc.handling hpc, ?_⟩)
    exact congrArg Handling.id (Option.some.inj hh)
  | @returned d h₀ hpc =>
    refine .inr (.inl ⟨rfl, h₀, congrArg Pc.handling hpc, ?_⟩)
    exact congrArg Handling.id (Option.some.inj (handling_next.symm.trans hh))
  | done _ =>
    rw [pc_drop] at hh
    cases hh

/-- Operations of the user do not move `poll`. -/
theorem pc_step (hadvance : a ≠ .advance) (hthrow : a ≠ .throw) (hpc : s.pc ≠ .outside)
    (hstep : step s a = some s') : s'.pc = s.pc := by
  cases step_cases hstep with
  | newChannel _ _ => rfl
  | setCallback _ _ _ => rfl
  | register _ _ => exact pc_registerChannel _
  | deregister _ _ => rfl
  | await _ _ _ => exact pc_awaitSuspend _
  | release _ _ => exact pc_drop
  | throw _ => exact absurd rfl hthrow
  | epollWait houtside _ => exact absurd houtside hpc
  | batchEnd _ | event _ | call _ _ _ | skip _ _ | ret _ | returned _ | done _ =>
    exact absurd rfl hadvance

/-- A callback that has begun to run is the one that `poll` has called. -/
theorem running_of_advance (hstep : step s .advance = some s') (hpc' : s'.pc = .running d h) :
    ∃ c, s.lock h.id = some c ∧ s' = s.callback d h c := by
  cases step_cases hstep with
  | batchEnd _ => cases hpc'
  | event _ => cases (handling_event (congrArg Pc.handling hpc')).symm.trans hpc'
  | @call d₀ h₀ c _ _ hc =>
    have hsame : h₀ = h ∧ d₀ = d := by
      unfold State.callback at hpc'
      split at hpc'
      · simp only at hpc'
        split at hpc' <;> cases hpc' <;> exact ⟨rfl, rfl⟩
      · cases hpc'
    rcases hsame with ⟨rfl, rfl⟩
    exact ⟨c, hc, rfl⟩
  | @skip d₀ _ _ _ => cases d₀ <;> cases hpc'
  | ret _ => cases hpc'
  | @returned d₀ _ _ => cases d₀ <;> cases hpc'
  | done _ =>
    rw [pc_drop] at hpc'
    cases hpc'

end

end Ucxpp.EventLoop
