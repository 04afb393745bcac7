import Ucxpp.EventLoop
import Ucxpp.Lib.Trace

/-!
# EventLoopTable — `channels_` and the epoll set

The two tables are in step while every watched descriptor has an entry. The
invariant is the other half: an entry is that of a live channel with this
descriptor, and the descriptor is watched. Where both hold, an operation keeps
them in step except in three places: registering a descriptor that is watched,
the `erase` of `poll` after a callback under `EPOLLERR`, and an event whose
descriptor is no longer watched.
-/

namespace Ucxpp.EventLoop

open Function (update)

/-- Every watched descriptor has an entry. -/
def Tracked (s : State) : Prop :=
  ∀ fd, s.epoll fd ≠ none → s.channels fd ≠ none

/-- The tables are in step, and the assertion of `poll` has not failed. -/
def Good (s : State) : Prop :=
  s.pc ≠ .aborted ∧ Tracked s

structure Inv (s : State) : Prop where
  entry : ∀ fd id, s.channels fd = some id →
    s.epoll fd ≠ none ∧ ∃ c, s.lock id = some c ∧ c.fd = fd
  unique : ∀ i j c c', s.lock i = some c → s.lock j = some c' → c.fd = c'.fd → i = j
  loop : ∀ id c, s.lock id = some c → c.loop = true
  held : ∀ h, s.pc.handling = some h → ∃ c, s.lock h.id = some c ∧ c.fd = h.fd

/-- A channel is registered while its descriptor is not watched, a callback that
poll runs under `EPOLLERR` leaves its descriptor unwatched, and the descriptor of
an event is watched when `poll` comes to the event. -/
def InStep (s : State) : Act → Prop
  | .register id _ _ | .await id _ _ => ∀ c, s.lock id = some c → s.epoll c.fd = none
  | .advance =>
    match s.pc with
    | .batch ((some fd, _) :: _) => s.epoll fd ≠ none
    | .returned _ h => h.events.epollErr = true → s.epoll h.fd = none
    | .batch [] | .batch ((none, _) :: _) | .outside | .calling .. | .running .. | .done _
    | .aborted => True
  | .newChannel _ | .setCallback .. | .deregister _ | .release _ | .throw | .epollWait _ => True

theorem inv_init : Inv .init where
  entry := fun _ _ h => nomatch h
  unique := fun _ _ _ _ h => nomatch h
  loop := fun _ _ h => nomatch h
  held := fun _ h => nomatch h

theorem good_init : Good .init := by
  refine ⟨fun h => ?_, fun _ h => absurd rfl h⟩
  cases h

section

variable {s : State} {id : ChannelId} {fd : Fd} {c : Channel} {d : Direction} {h : Handling}

/-! ## The tables under the operations -/

theorem tracked_erase (ht : Tracked s) : Tracked (s.erase fd) ↔ s.epoll fd = none := by
  constructor
  · intro he
    by_contra hfd
    refine he fd hfd ?_
    rw [channels_erase, if_pos rfl]
  · intro hfd fd' hfd'
    have hne : fd' ≠ fd := fun e => hfd' (e ▸ hfd)
    rw [channels_erase, if_neg hne]
    exact ht fd' hfd'

theorem tracked_deregister (ht : Tracked s) : Tracked (s.deregister fd) := by
  intro fd' hfd'
  rw [epoll_deregister] at hfd'
  rw [channels_deregister]
  split at hfd'
  · exact absurd rfl hfd'
  · rename_i hne
    rw [if_neg hne]
    exact ht fd' hfd'

theorem tracked_registerChannel (ht : Tracked s) (admits : Bool) :
    Tracked (s.registerChannel id fd d admits).1 ↔ s.epoll fd = none := by
  constructor
  · intro htr
    by_contra hfd
    refine htr fd ?_ ?_
    · rw [epoll_registerChannel, if_neg fun h => hfd h.2.1]
      exact hfd
    · rw [channels_registerChannel, if_pos rfl, if_neg fun h => hfd h.1]
  · intro hfd fd' hfd'
    rw [epoll_registerChannel] at hfd'
    rw [channels_registerChannel]
    by_cases he : fd' = fd
    · subst he
      by_cases hok : s.epoll fd' = none ∧ admits = true
      · rw [if_pos rfl, if_pos hok]
        exact Option.some_ne_none _
      · rw [if_neg fun h => hok h.2] at hfd'
        exact absurd hfd hfd'
    · rw [if_neg fun h => he h.1] at hfd'
      rw [if_neg he]
      exact ht fd' hfd'

theorem Inv.erase (hinv : Inv s) : Inv (s.erase fd) where
  entry := by
    intro fd' id' hentry
    rw [channels_erase] at hentry
    split at hentry
    · cases hentry
    · exact hinv.entry fd' id' hentry
  unique := hinv.unique
  loop := hinv.loop
  held := hinv.held

theorem Inv.deregister (hinv : Inv s) : Inv (s.deregister fd) where
  entry := by
    intro fd' id' hentry
    rw [channels_deregister] at hentry
    split at hentry
    · cases hentry
    · rename_i hne
      rw [epoll_deregister, if_neg hne]
      exact hinv.entry fd' id' hentry
  unique := hinv.unique
  loop := hinv.loop
  held := hinv.held

theorem Inv.registerChannel (hinv : Inv s) (hc : s.lock id = some c) (admits : Bool) :
    Inv (s.registerChannel id c.fd d admits).1 := by
  have hentry : ∀ fd' id', (s.registerChannel id c.fd d admits).1.channels fd' = some id' →
      (s.registerChannel id c.fd d admits).1.epoll fd' ≠ none ∧
        ∃ c', s.lock id' = some c' ∧ c'.fd = fd' := by
    intro fd' id' he
    rw [channels_registerChannel] at he
    rw [epoll_registerChannel]
    by_cases hfd : fd' = c.fd
    · rw [if_pos hfd] at he
      split at he
      · rename_i hok
        -- an old entry would say that the descriptor is watched
        have hnone : s.channels c.fd = none := by
          cases hold : s.channels c.fd with
          | none => rfl
          | some i => exact absurd hok.1 (hinv.entry c.fd i hold).1
        rw [hnone] at he
        obtain rfl : id = id' := Option.some.inj he
        rw [if_pos ⟨hfd, hok⟩]
        exact ⟨Option.some_ne_none d, c, hc, hfd.symm⟩
      · cases he
    · rw [if_neg hfd] at he
      rw [if_neg fun h => hfd h.1]
      exact hinv.entry fd' id' he
  constructor
  · simpa only [lock_registerChannel] using hentry
  · simpa only [lock_registerChannel] using hinv.unique
  · simpa only [lock_registerChannel] using hinv.loop
  · simpa only [lock_registerChannel, pc_registerChannel] using hinv.held

/-! ## The channels -/

/-- A live channel may change in anything but its descriptor and its loop. -/
theorem Inv.setChannel (hinv : Inv s) (c' : Channel) (hc : s.lock id = some c) (hfd : c'.fd = c.fd)
    (hloop : c'.loop = c.loop) (halive : c'.alive = true) : Inv (s.setChannel id c') := by
  have hlock : ∀ i e', (s.setChannel id c').lock i = some e' →
      ∃ e, s.lock i = some e ∧ e'.fd = e.fd ∧ e'.loop = e.loop := by
    intro i e' he
    rw [lock_setChannel hc] at he
    split at he
    · rename_i hi
      obtain rfl := Option.some.inj he
      exact ⟨c, hi ▸ hc, hfd, hloop⟩
    · exact ⟨e', he, rfl, rfl⟩
  have hlive : ∀ i e, s.lock i = some e → ∃ e', (s.setChannel id c').lock i = some e' ∧
      e'.fd = e.fd := by
    intro i e he
    rw [lock_setChannel hc]
    split
    · rename_i hi
      subst hi
      exact ⟨c', rfl, hfd.trans (congrArg Channel.fd (Option.some.inj (hc.symm.trans he)))⟩
    · exact ⟨e, he, rfl⟩
  constructor
  · intro fd id' hentry
    rcases hinv.entry fd id' hentry with ⟨hset, e, he, hefd⟩
    rcases hlive id' e he with ⟨e', he', hefd'⟩
    exact ⟨hset, e', he', hefd'.trans hefd⟩
  · intro i j e₁ e₂ h₁ h₂ heq
    rcases hlock i e₁ h₁ with ⟨f₁, hf₁, hfd₁, -⟩
    rcases hlock j e₂ h₂ with ⟨f₂, hf₂, hfd₂, -⟩
    exact hinv.unique i j f₁ f₂ hf₁ hf₂ (hfd₁.symm.trans (heq.trans hfd₂))
  · intro i e he
    rcases hlock i e he with ⟨f, hf, -, hfloop⟩
    exact hfloop.trans (hinv.loop i f hf)
  · intro h hh
    rcases hinv.held h hh with ⟨e, he, hefd⟩
    rcases hlive h.id e he with ⟨e', he', hefd'⟩
    exact ⟨e', he', hefd'.trans hefd⟩

theorem Inv.newChannel (hinv : Inv s) (hfree : ∀ c ∈ s.objects, c.alive = true → c.fd ≠ fd) :
    Inv { s with objects := s.objects ++ [.new fd true] } := by
  have hlock : ∀ i e, ({ s with objects := s.objects ++ [.new fd true] } : State).lock i = some e ↔
      s.lock i = some e ∨ i = s.objects.length ∧ e = .new fd true := by
    intro i e
    rw [lock_eq_some, lock_eq_some, Trace.getElem?_concat]
    constructor
    · rintro ⟨hold | ⟨hi, he⟩, halive⟩
      · exact .inl ⟨hold, halive⟩
      · exact .inr ⟨hi, he.symm⟩
    · rintro (⟨hold, halive⟩ | ⟨hi, rfl⟩)
      · exact ⟨.inl hold, halive⟩
      · exact ⟨.inr ⟨hi, rfl⟩, rfl⟩
  have hne : ∀ i e, s.lock i = some e → e.fd ≠ fd := by
    intro i e he
    rcases lock_eq_some.mp he with ⟨hget, halive⟩
    exact hfree e (List.mem_of_getElem? hget) halive
  constructor
  · intro fd' id' hentry
    rcases hinv.entry fd' id' hentry with ⟨hset, e, he, hefd⟩
    exact ⟨hset, e, (hlock id' e).mpr (.inl he), hefd⟩
  · intro i j e₁ e₂ h₁ h₂ heq
    rcases (hlock i e₁).mp h₁ with h₁ | ⟨rfl, rfl⟩
    · rcases (hlock j e₂).mp h₂ with h₂ | ⟨rfl, rfl⟩
      · exact hinv.unique i j e₁ e₂ h₁ h₂ heq
      · exact absurd heq (hne i e₁ h₁)
    · rcases (hlock j e₂).mp h₂ with h₂ | ⟨rfl, rfl⟩
      · exact absurd heq.symm (hne j e₂ h₂)
      · rfl
  · intro i e he
    rcases (hlock i e).mp he with he | ⟨-, rfl⟩
    · exact hinv.loop i e he
    · rfl
  · intro h hh
    rcases hinv.held h hh with ⟨e, he, hefd⟩
    exact ⟨e, (hlock h.id e).mpr (.inl he), hefd⟩

theorem destroy_eq (hinv : Inv s) (hc : s.lock id = some c) :
    s.destroy id c = (s.deregister c.fd).setChannel id { c with alive := false } := by
  rw [State.destroy, if_pos (hinv.loop id c hc)]

theorem Inv.destroy (hinv : Inv s) (hc : s.lock id = some c)
    (hheld : s.pc.handling.map Handling.id ≠ some id) : Inv (s.destroy id c) := by
  have hlock : ∀ i, (s.destroy id c).lock i = if i = id then none else s.lock i := by
    intro i
    rw [destroy_eq hinv hc, lock_setChannel (s := s.deregister c.fd) hc]
    rfl
  have hlive : ∀ i e, (s.destroy id c).lock i = some e ↔ i ≠ id ∧ s.lock i = some e := by
    intro i e
    rw [hlock]
    by_cases hi : i = id
    · rw [if_pos hi]
      exact iff_of_false (fun h => nomatch h) fun h => h.1 hi
    · rw [if_neg hi]
      exact (and_iff_right hi).symm
  constructor
  · rw [destroy_eq hinv hc]
    intro fd' id' hentry
    rcases hinv.deregister.entry fd' id' hentry with ⟨hset, e, he, hefd⟩
    refine ⟨hset, e, ?_, hefd⟩
    -- the entry of the dead channel is gone
    have hne : id' ≠ id := by
      rintro rfl
      obtain rfl := Option.some.inj (hc.symm.trans he)
      exact hset (hefd ▸ Function.update_self ..)
    rw [← destroy_eq hinv hc]
    exact (hlive id' e).mpr ⟨hne, he⟩
  · intro i j e₁ e₂ h₁ h₂
    exact hinv.unique i j e₁ e₂ ((hlive i e₁).mp h₁).2 ((hlive j e₂).mp h₂).2
  · intro i e he
    exact hinv.loop i e ((hlive i e).mp he).2
  · intro h hh
    have hpc : (s.destroy id c).pc = s.pc := by
      rw [destroy_eq hinv hc]
      rfl
    rw [hpc] at hh
    rcases hinv.held h hh with ⟨e, he, hefd⟩
    refine ⟨e, (hlive h.id e).mpr ⟨fun hid => hheld ?_, he⟩, hefd⟩
    rw [hh, ← hid]
    rfl

theorem Inv.drop (hinv : Inv s) : Inv (s.drop id) := by
  unfold State.drop
  split
  · rename_i c hc
    split
    · rename_i hfree
      exact hinv.destroy hc hfree.2.2
    · exact hinv
  · exact hinv

theorem tracked_drop (hinv : Inv s) (ht : Tracked s) : Tracked (s.drop id) := by
  unfold State.drop
  split
  · rename_i c hc
    split
    · rw [destroy_eq hinv hc]
      exact tracked_deregister (s := s) ht
    · exact ht
  · exact ht

theorem handling_next : (h.next d).handling = some h := by
  cases d <;> rfl

theorem next_ne_aborted : h.next d ≠ .aborted := by
  cases d <;> exact fun h => nomatch h

theorem pc_erase_ite {err : Bool} : (if err then s.erase fd else s).pc = s.pc := by
  split <;> rfl

theorem pc_drop : (s.drop id).pc = s.pc := by
  unfold State.drop
  split
  · split
    · unfold State.destroy
      split <;> rfl
    · rfl
  · rfl

/-! ## `await_suspend` and `poll` -/

theorem Inv.awaitSuspend (hinv : Inv s) (hc : s.lock id = some c) (admits : Bool) :
    Inv (s.awaitSuspend id c d admits) := by
  have hnew : Inv s.newWait := ⟨hinv.entry, hinv.unique, hinv.loop, hinv.held⟩
  have hreg : Inv (s.newWait.registerChannel id c.fd d admits).1 := hnew.registerChannel hc admits
  have hlock : (s.newWait.registerChannel id c.fd d admits).1.lock id = some c :=
    (lock_registerChannel admits).trans hc
  have hfd : (c.setCallback d (.resume s.nextWait)).fd = c.fd := fd_setCallback _
  have hloop : (c.setCallback d (.resume s.nextWait)).loop = c.loop := loop_setCallback _
  have halive : (c.setCallback d (.resume s.nextWait)).alive = true :=
    (alive_setCallback _).trans (alive_of_lock hc)
  simp only [State.awaitSuspend, fd_setCallback]
  split
  · exact hreg.setChannel _ hlock rfl hloop halive
  · have hset := hreg.setChannel _ hlock hfd hloop halive
    exact ⟨hset.entry, hset.unique, hset.loop, hset.held⟩

theorem tracked_awaitSuspend (ht : Tracked s) (admits : Bool) :
    Tracked (s.awaitSuspend id c d admits) ↔ s.epoll c.fd = none := by
  have hreg : Tracked (s.newWait.registerChannel id c.fd d admits).1 ↔ s.epoll c.fd = none :=
    tracked_registerChannel (s := s.newWait) ht admits
  refine Iff.trans ?_ hreg
  simp only [State.awaitSuspend, fd_setCallback]
  split <;> exact Iff.rfl

theorem pc_awaitSuspend (admits : Bool) : (s.awaitSuspend id c d admits).pc = s.pc := by
  have hreg : (s.newWait.registerChannel id c.fd d admits).1.pc = s.pc := pc_registerChannel admits
  refine Eq.trans ?_ hreg
  simp only [State.awaitSuspend, fd_setCallback]
  split <;> rfl

/-- The thread goes on, in the same iteration or in none. -/
theorem Inv.goto (hinv : Inv s) (pc : Pc)
    (hpc : pc.handling = none ∨ pc.handling = s.pc.handling) : Inv { s with pc := pc } where
  entry := hinv.entry
  unique := hinv.unique
  loop := hinv.loop
  held := by
    intro h hh
    rcases hpc with hnone | hsame
    · exact nomatch hnone.symm.trans hh
    · exact hinv.held h (hsame.symm.trans hh)

theorem Inv.callback (hinv : Inv s) (hpc : s.pc = .calling d h) (hc : s.lock h.id = some c) :
    Inv (s.callback d h c) := by
  have halive := alive_of_lock hc
  have hdereg : Inv (s.deregister c.fd) := hinv.deregister
  have hhandling : (s.deregister c.fd).pc.handling = some h := congrArg Pc.handling hpc
  rw [State.callback, if_pos (hinv.loop h.id c hc)]
  simp only
  split
  · exact hdereg.goto _ (.inr hhandling.symm)
  · exact hdereg.goto _ (.inr hhandling.symm)
  · rename_i w _
    have hset := hdereg.setChannel
      { c with waiting := if c.waiting = some (d, w) then none else c.waiting } hc rfl rfl halive
    have hnew := hset.goto (.running d h) (.inr hhandling.symm)
    exact ⟨hnew.entry, hnew.unique, hnew.loop, hnew.held⟩

theorem tracked_callback (hinv : Inv s) (ht : Tracked s) (hc : s.lock h.id = some c) :
    Tracked (s.callback d h c) := by
  have hdereg : Tracked (s.deregister c.fd) := tracked_deregister ht
  rw [State.callback, if_pos (hinv.loop h.id c hc)]
  simp only
  split <;> exact hdereg

theorem pc_callback (hinv : Inv s) (hc : s.lock h.id = some c) :
    (s.callback d h c).pc = .running d h ∨ (s.callback d h c).pc = .returned d h := by
  rw [State.callback, if_pos (hinv.loop h.id c hc)]
  simp only
  split
  · exact .inr rfl
  · exact .inl rfl
  · exact .inl rfl

theorem handling_callback (hinv : Inv s) (hc : s.lock h.id = some c) :
    (s.callback d h c).pc.handling = some h := by
  rcases pc_callback (d := d) hinv hc with hpc | hpc
  · exact congrArg Pc.handling hpc
  · exact congrArg Pc.handling hpc

theorem Inv.event {fd : Option Fd} {events : Events} {rest : List (Option Fd × Events)}
    (hinv : Inv s) : Inv (s.event fd events rest) := by
  unfold State.event
  split
  · have hnew := hinv.goto (.batch rest) (.inl rfl)
    exact ⟨hnew.entry, hnew.unique, hnew.loop, hnew.held⟩
  · rename_i fd
    split
    · exact hinv.goto _ (.inl rfl)
    · rename_i id hentry
      rcases hinv.entry fd id hentry with ⟨-, c, hc, hfd⟩
      rw [hc]
      refine ⟨hinv.entry, hinv.unique, hinv.loop, fun h hh => ?_⟩
      obtain rfl := Option.some.inj hh
      exact ⟨c, hc, hfd⟩

/-- The event of a descriptor finds its entry exactly if it is still watched. -/
theorem good_event {fd : Option Fd} {events : Events} {rest : List (Option Fd × Events)}
    (hinv : Inv s) (ht : Tracked s) :
    Good (s.event fd events rest) ↔ ∀ fd' ∈ fd, s.epoll fd' ≠ none := by
  unfold State.event
  cases fd with
  | none =>
    refine iff_of_true ⟨fun h => ?_, ht⟩ fun _ h => ?_
    · cases h
    · cases h
  | some fd =>
    simp only [Option.mem_some_iff, forall_eq']
    cases hentry : s.channels fd with
    | none =>
      refine iff_of_false (fun h => h.1 rfl) fun h => ?_
      exact ht fd h hentry
    | some id =>
      rcases hinv.entry fd id hentry with ⟨hset, c, hc, -⟩
      simp only [hc]
      refine iff_of_true ⟨fun h => ?_, ht⟩ hset
      cases h

/-! ## The steps -/

theorem Inv.step {s' : State} {a : Act} (hinv : Inv s) (hstep : step s a = some s') : Inv s' := by
  cases step_cases hstep with
  | newChannel _ hfree => exact hinv.newChannel hfree
  | setCallback hc _ _ =>
    exact hinv.setChannel _ hc (fd_setCallback _) (loop_setCallback _)
      ((alive_setCallback _).trans (alive_of_lock hc))
  | register hc _ => exact hinv.registerChannel hc _
  | deregister _ _ => exact hinv.deregister
  | await hc _ _ => exact hinv.awaitSuspend hc _
  | @release id c hc _ =>
    have halive := alive_of_lock hc
    have hset := hinv.setChannel { c with owned := false } hc rfl rfl halive
    exact hset.drop
  | @throw d h hpc =>
    refine ⟨hinv.entry, hinv.unique, hinv.loop, fun h' hh => ?_⟩
    obtain rfl := Option.some.inj hh
    exact hinv.held h (congrArg Pc.handling hpc)
  | epollWait _ _ => exact hinv.goto _ (.inl rfl)
  | batchEnd _ => exact hinv.goto _ (.inl rfl)
  | event _ => exact hinv.event
  | call hpc _ hc => exact hinv.callback hpc hc
  | @skip d h hpc _ => exact hinv.goto _ (.inr (by rw [hpc, handling_next]; rfl))
  | ret hpc => exact hinv.goto _ (.inr (by rw [hpc]; rfl))
  | @returned d h hpc =>
    have herase : Inv (if h.events.epollErr then s.erase h.fd else s) := by
      split
      · exact hinv.erase
      · exact hinv
    refine herase.goto _ (.inr ?_)
    rw [handling_next, pc_erase_ite, hpc]
    rfl
  | done _ => exact (hinv.goto _ (.inl rfl)).drop

/-- A step keeps the tables in step exactly if it meets the condition. -/
theorem good_step {s' : State} {a : Act} (hinv : Inv s) (hg : Good s)
    (hstep : step s a = some s') : Good s' ↔ InStep s a := by
  rcases hg with ⟨hpc₀, ht⟩
  cases step_cases hstep with
  | newChannel _ _ => exact iff_of_true ⟨hpc₀, ht⟩ trivial
  | setCallback _ _ _ => exact iff_of_true ⟨hpc₀, ht⟩ trivial
  | @register id d admits c hc _ =>
    have hcond : InStep s (.register id d admits) ↔ s.epoll c.fd = none := by
      simp only [InStep, hc, Option.some.injEq, forall_eq']
    -- registering keeps the tables in step iff the descriptor is not watched yet
    rw [hcond, ← tracked_registerChannel ht admits, Good, pc_registerChannel]
    exact and_iff_right hpc₀
  | deregister _ _ => exact iff_of_true ⟨hpc₀, tracked_deregister ht⟩ trivial
  | @await id d admits c hc _ _ =>
    have hcond : InStep s (.await id d admits) ↔ s.epoll c.fd = none := by
      simp only [InStep, hc, Option.some.injEq, forall_eq']
    rw [hcond, ← tracked_awaitSuspend ht admits, Good, pc_awaitSuspend]
    exact and_iff_right hpc₀
  | @release id c hc _ =>
    have halive := alive_of_lock hc
    have hset := hinv.setChannel { c with owned := false } hc rfl rfl halive
    refine iff_of_true ⟨?_, tracked_drop hset ht⟩ trivial
    rw [pc_drop]
    exact hpc₀
  | throw _ => exact iff_of_true ⟨by simp, ht⟩ trivial
  | epollWait _ _ => exact iff_of_true ⟨by simp, ht⟩ trivial
  | batchEnd hpc =>
    refine iff_of_true ⟨by simp, ht⟩ ?_
    simp only [InStep, hpc]
  | @event fd events rest hpc =>
    -- the assertion of `poll`
    rw [good_event hinv ht]
    cases fd <;> simp [InStep, hpc]
  | @call d h c hpc _ hc =>
    refine iff_of_true ⟨fun habort => ?_, tracked_callback hinv ht hc⟩ ?_
    · rcases pc_callback (d := d) hinv hc with hp | hp <;> cases hp.symm.trans habort
    · simp only [InStep, hpc]
  | @skip d h hpc _ =>
    refine iff_of_true ⟨next_ne_aborted, ht⟩ ?_
    simp only [InStep, hpc]
  | ret hpc =>
    refine iff_of_true ⟨by simp, ht⟩ ?_
    simp only [InStep, hpc]
  | @returned d h hpc =>
    -- `poll` erases the entry under `EPOLLERR`: the descriptor must not be watched
    simp only [InStep, hpc, Good]
    rw [and_iff_right next_ne_aborted]
    by_cases herr : h.events.epollErr = true
    · simp only [herr, if_true, forall_const]
      exact tracked_erase ht
    · rw [if_neg herr]
      exact iff_of_true ht fun h => absurd h herr
  | @done h hpc =>
    refine iff_of_true ⟨?_, tracked_drop (hinv.goto (.batch h.rest) (.inl rfl)) ht⟩ ?_
    · rw [pc_drop]
      exact fun h => nomatch h
    · simp only [InStep, hpc]

/-- In every state of a run every watched descriptor has an entry and the assertion
of `poll` has not failed, iff each step of the run meets the condition. -/
theorem table_in_step_iff {s' : State} {as : List Act}
    (hrun : Lts.run step .init as = some s') :
    Lts.Always step Good .init as ↔ Lts.StepsMeet step InStep .init as :=
  Lts.run_always_iff Inv Good (fun _ _ _ hinv _ _ hstep => hinv.step hstep)
    (fun _ _ _ hinv hg hstep => good_step hinv hg hstep) inv_init good_init hrun

end

/-! ### Two runs -/

def readEvent (fd : Fd) : Option Fd × Events :=
  (some fd, ⟨true, false, false, false⟩)

/-- Two channels whose read callbacks are code of the user, with one event each in
the first batch; the callback of the first channel runs. -/
def twoEvents : List Act :=
  [.newChannel 5, .newChannel 6, .setCallback 0 .readable .run, .setCallback 1 .readable .run,
    .register 0 .readable true, .register 1 .readable true,
    .epollWait [readEvent 5, readEvent 6], .advance, .advance]

/-- To the end of the iteration, and to the next event. -/
def nextEvent : List Act :=
  [.advance, .advance, .advance, .advance, .advance]

/-- The callback registers its own channel again and releases it. -/
theorem table_in_step_release :
    ∃ s, Lts.run step .init (twoEvents ++ [.register 0 .readable true, .release 0] ++ nextEvent) =
        some s ∧
      (Lts.Always step Good .init
          (twoEvents ++ [.register 0 .readable true, .release 0] ++ nextEvent) ↔
        Lts.StepsMeet step InStep .init
          (twoEvents ++ [.register 0 .readable true, .release 0] ++ nextEvent)) := by
  refine ⟨_, rfl, ?_⟩
  exact table_in_step_iff rfl

/-- The callback deregisters the second channel, and `poll` does not find the entry
of the next event. -/
theorem batch_aborts :
    ∃ s, Lts.run step .init (twoEvents ++ [.deregister 1] ++ nextEvent) = some s ∧
      s.pc = .aborted ∧
      ¬Lts.Always step Good .init (twoEvents ++ [.deregister 1] ++ nextEvent) := by
  refine ⟨_, rfl, rfl, fun h => ?_⟩
  exact (h _ _ (List.prefix_refl _) rfl).1 rfl

end Ucxpp.EventLoop
