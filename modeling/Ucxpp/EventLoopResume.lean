import Ucxpp.EventLoopTable

/-!
# EventLoopResume — the waits on a channel and the handles they store

`await_suspend` stores the coroutine's handle in the channel, and nothing takes it
out again: not the callback that resumes it, and not a registration that fails. So
a stored handle is the one of the pending wait or the one of a wait that has ended,
and which of them `poll` resumes is decided when it runs the callback.
-/

namespace Ucxpp.EventLoop

/-- The await of `w` is over: its coroutine was resumed, or `await_suspend` threw. -/
def Ended (log : List Event) (w : WaitId) : Prop :=
  .resumed w ∈ log ∨ .failed w ∈ log

/-- A resumption is for a wait that has not ended. -/
def Once (past : List Event) (e : Event) : Prop :=
  ∀ w, e = .resumed w → ¬Ended past w

def State.ResumedOnce (s : State) : Prop :=
  Trace.Each Once s.log

/-- When `poll` is about to run a callback that holds a handle, the channel's pending
wait is in this direction, and is the one that stored the handle. -/
def HandlePending (s : State) : Act → Prop
  | .advance =>
    match s.pc with
    | .calling d h => h.events.reports d = true ∨ h.events.epollErr = true →
        ∀ c, s.lock h.id = some c → ∀ w, c.callback d = .resume w → c.waiting = some (d, w)
    | .outside | .batch _ | .running .. | .returned .. | .done _ | .aborted => True
  | .newChannel _ | .setCallback .. | .register .. | .deregister _ | .await .. | .release _
  | .throw | .epollWait _ => True

structure WaitInv (s : State) : Prop where
  stored : ∀ (id : ChannelId) (c : Channel) (d : Direction) (w : WaitId),
    s.objects[id]? = some c → c.callback d = .resume w →
      c.waiting = some (d, w) ∨ Ended s.log w
  pending : ∀ (id : ChannelId) (c : Channel) (d : Direction) (w : WaitId),
    s.objects[id]? = some c → c.waiting = some (d, w) → ¬Ended s.log w ∧ w < s.nextWait
  unique : ∀ (i j : ChannelId) (c c' : Channel) (d d' : Direction) (w : WaitId),
    s.objects[i]? = some c → s.objects[j]? = some c' →
    c.waiting = some (d, w) → c'.waiting = some (d', w) → i = j
  bound : ∀ w, Ended s.log w → w < s.nextWait

theorem waitInv_init : WaitInv .init where
  stored := fun _ _ _ _ h => nomatch h
  pending := fun _ _ _ _ h => nomatch h
  unique := fun _ _ _ _ _ _ _ h => nomatch h
  bound := by
    rintro w (h | h)
    · cases h
    · cases h

section

variable {s s' : State} {id : ChannelId} {c : Channel} {d : Direction} {h : Handling}

theorem ended_concat {log : List Event} {e : Event} {w : WaitId} :
    Ended (log ++ [e]) w ↔ Ended log w ∨ e = .resumed w ∨ e = .failed w := by
  simp only [Ended, List.mem_append, List.mem_singleton, eq_comm (a := e)]
  tauto

/-- The waits are in the objects and the history. -/
theorem WaitInv.of_eq (hinv : WaitInv s) (hobjects : s'.objects = s.objects)
    (hlog : s'.log = s.log) (hnext : s'.nextWait = s.nextWait) : WaitInv s' := by
  rcases hinv with ⟨hstored, hpending, hunique, hbound⟩
  constructor
  · rw [hobjects, hlog]
    exact hstored
  · rw [hobjects, hlog, hnext]
    exact hpending
  · rw [hobjects]
    exact hunique
  · rw [hlog, hnext]
    exact hbound

/-- Another channel waits for `w`. -/
def WaitsElsewhere (s : State) (id : ChannelId) (w : WaitId) : Prop :=
  ∃ (j : ChannelId) (e : Channel) (d : Direction),
    j ≠ id ∧ s.objects[j]? = some e ∧ e.waiting = some (d, w)

/-- One channel changes and the history grows: what has to be seen of that channel,
and of the waits that end. -/
theorem WaitInv.update (hinv : WaitInv s) (c' : Channel)
    (hobjects : s'.objects = s.objects.set id c') (hnext : s.nextWait ≤ s'.nextWait)
    (hold : ∀ w, Ended s.log w → Ended s'.log w)
    (hnew : ∀ w, Ended s'.log w → Ended s.log w ∨ ¬WaitsElsewhere s id w)
    (hbound : ∀ w, Ended s'.log w → w < s'.nextWait)
    (hstored : ∀ d w, c'.callback d = .resume w → c'.waiting = some (d, w) ∨ Ended s'.log w)
    (hpending : ∀ d w, c'.waiting = some (d, w) →
      (¬Ended s'.log w ∧ w < s'.nextWait) ∧ ¬WaitsElsewhere s id w) : WaitInv s' := by
  have hget : ∀ {i : ChannelId} {e : Channel}, s'.objects[i]? = some e →
      i = id ∧ e = c' ∨ i ≠ id ∧ s.objects[i]? = some e := by
    intro i e he
    rw [hobjects, List.getElem?_set] at he
    split at he
    · rename_i hi
      split at he
      · exact .inl ⟨hi.symm, (Option.some.inj he).symm⟩
      · cases he
    · rename_i hi
      exact .inr ⟨Ne.symm hi, he⟩
  constructor
  · intro i e d w he hcb
    rcases hget he with ⟨-, rfl⟩ | ⟨-, he⟩
    · exact hstored d w hcb
    · exact (hinv.stored i e d w he hcb).imp_right (hold w)
  · intro i e d w he hwait
    rcases hget he with ⟨-, rfl⟩ | ⟨hi, he⟩
    · exact (hpending d w hwait).1
    · rcases hinv.pending i e d w he hwait with ⟨hnot, hlt⟩
      refine ⟨fun hend => ?_, Nat.lt_of_lt_of_le hlt hnext⟩
      exact (hnew w hend).elim hnot fun h => h ⟨i, e, d, hi, he, hwait⟩
  · intro i j e f d d' w he hf h₁ h₂
    rcases hget he with ⟨rfl, rfl⟩ | ⟨hi, he⟩
    · rcases hget hf with ⟨rfl, -⟩ | ⟨hj, hf⟩
      · rfl
      · exact absurd ⟨j, f, d', hj, hf, h₂⟩ (hpending d w h₁).2
    · rcases hget hf with ⟨rfl, rfl⟩ | ⟨-, hf⟩
      · exact absurd ⟨i, e, d, hi, he, h₁⟩ (hpending d' w h₂).2
      · exact hinv.unique i j e f d d' w he hf h₁ h₂
  · exact hbound

/-- No other channel waits for the same coroutine. -/
theorem WaitInv.not_elsewhere (hinv : WaitInv s) {w : WaitId} (hc : s.objects[id]? = some c)
    (hwait : c.waiting = some (d, w)) : ¬WaitsElsewhere s id w := by
  rintro ⟨j, e, d', hj, he, hwait'⟩
  exact hj (hinv.unique j id e c d' d w he hc hwait' hwait)

/-- The channel keeps its wait, and stores no new handle. -/
theorem WaitInv.setChannel (hinv : WaitInv s) (c' : Channel) (hc : s.objects[id]? = some c)
    (hwait : c'.waiting = c.waiting)
    (hcallback : ∀ d w, c'.callback d = .resume w → c.callback d = .resume w) :
    WaitInv (s.setChannel id c') := by
  refine hinv.update c' rfl (Nat.le_refl _) (fun _ h => h) (fun _ h => .inl h) hinv.bound ?_ ?_
  · intro d w hcb
    rw [hwait]
    exact hinv.stored id c d w hc (hcallback d w hcb)
  · intro d w hw
    rw [hwait] at hw
    exact ⟨hinv.pending id c d w hc hw, hinv.not_elsewhere hc hw⟩

theorem callback_setCallback {d' : Direction} (callback : Callback) :
    (c.setCallback d callback).callback d' = if d' = d then callback else c.callback d' := by
  cases d <;> cases d' <;> rfl

theorem waiting_setCallback (callback : Callback) :
    (c.setCallback d callback).waiting = c.waiting := by
  cases d <;> rfl

/-! ## Suspending and resuming -/

/-- `poll` resumes the handle: the pending wait ends, or it was another one. -/
theorem WaitInv.resume (hinv : WaitInv s) {w : WaitId} (hc : s.objects[id]? = some c)
    (hcb : c.callback d = .resume w) (hobjects : s'.objects = s.objects.set id
      { c with waiting := if c.waiting = some (d, w) then none else c.waiting })
    (hlog : s'.log = s.log ++ [.resumed w]) (hnext : s'.nextWait = s.nextWait) : WaitInv s' := by
  have hended : ∀ w', Ended s'.log w' ↔ Ended s.log w' ∨ w' = w := by
    intro w'
    rw [hlog, ended_concat]
    simp [eq_comm]
  have hlt : w < s.nextWait := by
    rcases hinv.stored id c d w hc hcb with hwait | hend
    · exact (hinv.pending id c d w hc hwait).2
    · exact hinv.bound w hend
  refine hinv.update _ hobjects (Nat.le_of_eq hnext.symm) (fun w' h => (hended w').mpr (.inl h))
    ?_ ?_ ?_ ?_
  · intro w' hend
    -- the wait that ends is that of the channel, or it had ended before
    rcases (hended w').mp hend with hold | rfl
    · exact .inl hold
    · exact (hinv.stored id c d w' hc hcb).symm.imp_right (hinv.not_elsewhere hc)
  · intro w' hend
    rw [hnext]
    exact ((hended w').mp hend).elim (hinv.bound w') fun hw => hw ▸ hlt
  · intro d' w' hcb'
    have hcb₀ : c.callback d' = .resume w' := by cases d' <;> exact hcb'
    rcases hinv.stored id c d' w' hc hcb₀ with hwait | hend
    · by_cases hthis : c.waiting = some (d, w)
      · -- the pending wait is the one that is resumed
        have hw : w' = w := congrArg Prod.snd (Option.some.inj (hwait.symm.trans hthis))
        exact .inr ((hended w').mpr (.inr hw))
      · simp only [if_neg hthis]
        exact .inl hwait
    · exact .inr ((hended w').mpr (.inl hend))
  · intro d' w' hwait
    by_cases hthis : c.waiting = some (d, w)
    · simp only [if_pos hthis] at hwait
      cases hwait
    · simp only [if_neg hthis] at hwait
      rcases hinv.pending id c d' w' hc hwait with ⟨hnot, hlt'⟩
      -- the handle is that of a wait that has ended
      have hstale : Ended s.log w := (hinv.stored id c d w hc hcb).resolve_left hthis
      refine ⟨⟨fun hend => ?_, hnext ▸ hlt'⟩, hinv.not_elsewhere hc hwait⟩
      rcases (hended w').mp hend with hold | rfl
      · exact hnot hold
      · exact hnot hstale

/-- What `await_suspend` stores and records, and what is left if it throws. -/
theorem awaitSuspend_cases (s : State) (id : ChannelId) (c : Channel) (d : Direction)
    (admits : Bool) :
    (s.awaitSuspend id c d admits).nextWait = s.nextWait + 1 ∧
      ((s.awaitSuspend id c d admits).objects = s.objects.set id
          { c.setCallback d (.resume s.nextWait) with waiting := some (d, s.nextWait) } ∧
        (s.awaitSuspend id c d admits).log = s.log ++ [.suspended s.nextWait] ∨
      (s.awaitSuspend id c d admits).objects = s.objects.set id
          (c.setCallback d (.resume s.nextWait)) ∧
        (s.awaitSuspend id c d admits).log =
          s.log ++ [.suspended s.nextWait] ++ [.failed s.nextWait]) := by
  unfold State.awaitSuspend
  simp only
  split
  · refine ⟨nextWait_registerChannel admits, .inl ⟨?_, log_registerChannel admits⟩⟩
    rw [State.setChannel, objects_registerChannel]
    rfl
  · refine ⟨nextWait_registerChannel admits, .inr ⟨?_, ?_⟩⟩
    · rw [State.record, State.setChannel, objects_registerChannel]
      rfl
    · rw [State.record, State.setChannel, log_registerChannel]
      rfl

/-- A new wait has not ended, and nobody waits for it yet. -/
theorem WaitInv.fresh (hinv : WaitInv s) (id : ChannelId) :
    ¬Ended s.log s.nextWait ∧ ¬WaitsElsewhere s id s.nextWait := by
  constructor
  · exact fun h => Nat.lt_irrefl _ (hinv.bound _ h)
  · rintro ⟨j, e, d, -, he, hwait⟩
    exact Nat.lt_irrefl _ (hinv.pending j e d _ he hwait).2

/-- A channel without a pending wait stores only handles of waits that have ended. -/
theorem WaitInv.ended_of_free (hinv : WaitInv s) {w : WaitId} (hc : s.objects[id]? = some c)
    (hfree : c.waiting = none) (hcb : c.callback d = .resume w) : Ended s.log w := by
  refine (hinv.stored id c d w hc hcb).resolve_left fun hwait => ?_
  cases hfree.symm.trans hwait

/-- The wait is stored and pending. -/
theorem WaitInv.suspend (hinv : WaitInv s) (hc : s.objects[id]? = some c)
    (hfree : c.waiting = none) (hobjects : s'.objects = s.objects.set id
      { c.setCallback d (.resume s.nextWait) with waiting := some (d, s.nextWait) })
    (hlog : s'.log = s.log ++ [.suspended s.nextWait]) (hnext : s'.nextWait = s.nextWait + 1) :
    WaitInv s' := by
  rcases hinv.fresh id with ⟨hfresh, helse⟩
  have hle : s.nextWait ≤ s'.nextWait := hnext ▸ Nat.le_succ _
  have hended : ∀ w, Ended s'.log w ↔ Ended s.log w := by
    intro w
    rw [hlog, ended_concat]
    simp
  refine hinv.update _ hobjects hle (fun w h => (hended w).mpr h)
    (fun w h => .inl ((hended w).mp h)) (fun w h => ?_) ?_ ?_
  · exact Nat.lt_of_lt_of_le (hinv.bound w ((hended w).mp h)) hle
  · intro d' w hcb
    -- the new handle is pending, the one of the other direction is stale
    have hcb₀ : (c.setCallback d (.resume s.nextWait)).callback d' = .resume w := by
      cases d' <;> exact hcb
    rw [callback_setCallback] at hcb₀
    split at hcb₀
    · rename_i hd
      cases hcb₀
      exact .inl (hd ▸ rfl)
    · exact .inr ((hended w).mpr (hinv.ended_of_free hc hfree hcb₀))
  · intro d' w hwait
    obtain rfl : s.nextWait = w := congrArg Prod.snd (Option.some.inj hwait)
    exact ⟨⟨fun hend => hfresh ((hended _).mp hend), hnext ▸ Nat.lt_succ_self _⟩, helse⟩

/-- The registration throws: the handle stays stored, and its wait has ended. -/
theorem WaitInv.suspendFailed (hinv : WaitInv s) (hc : s.objects[id]? = some c)
    (hfree : c.waiting = none)
    (hobjects : s'.objects = s.objects.set id (c.setCallback d (.resume s.nextWait)))
    (hlog : s'.log = s.log ++ [.suspended s.nextWait] ++ [.failed s.nextWait])
    (hnext : s'.nextWait = s.nextWait + 1) : WaitInv s' := by
  have hle : s.nextWait ≤ s'.nextWait := hnext ▸ Nat.le_succ _
  have hended : ∀ w, Ended s'.log w ↔ Ended s.log w ∨ w = s.nextWait := by
    intro w
    rw [hlog, ended_concat, ended_concat]
    simp [eq_comm]
  refine hinv.update _ hobjects hle (fun w h => (hended w).mpr (.inl h)) ?_ ?_ ?_ ?_
  · intro w hend
    refine ((hended w).mp hend).imp_right fun (hw : w = s.nextWait) => ?_
    exact hw ▸ (hinv.fresh id).2
  · intro w hend
    rcases (hended w).mp hend with hold | rfl
    · exact Nat.lt_of_lt_of_le (hinv.bound w hold) hle
    · exact hnext ▸ Nat.lt_succ_self _
  · intro d' w hcb
    -- the handle that was just stored is stale as well
    rw [callback_setCallback] at hcb
    split at hcb
    · cases hcb
      exact .inr ((hended _).mpr (.inr rfl))
    · exact .inr ((hended w).mpr (.inl (hinv.ended_of_free hc hfree hcb)))
  · intro d' w hwait
    rw [waiting_setCallback, hfree] at hwait
    cases hwait

theorem WaitInv.awaitSuspend (hinv : WaitInv s) (hc : s.objects[id]? = some c)
    (hfree : c.waiting = none) (admits : Bool) : WaitInv (s.awaitSuspend id c d admits) := by
  rcases awaitSuspend_cases s id c d admits with ⟨hnext, ⟨hobjects, hlog⟩ | ⟨hobjects, hlog⟩⟩
  · exact hinv.suspend hc hfree hobjects hlog hnext
  · exact hinv.suspendFailed hc hfree hobjects hlog hnext

theorem WaitInv.newChannel (hinv : WaitInv s) (fd : Fd) :
    WaitInv { s with objects := s.objects ++ [.new fd true] } := by
  have hget : ∀ {i : ChannelId} {e : Channel}, (s.objects ++ [.new fd true])[i]? = some e →
      s.objects[i]? = some e ∨ e = .new fd true := by
    intro i e he
    exact (Trace.getElem?_concat.mp he).imp_right fun h => h.2.symm
  constructor
  · intro i e d w he hcb
    rcases hget he with he | rfl
    · exact hinv.stored i e d w he hcb
    · cases d <;> cases hcb
  · intro i e d w he hwait
    rcases hget he with he | rfl
    · exact hinv.pending i e d w he hwait
    · cases hwait
  · intro i j e f d d' w he hf h₁ h₂
    rcases hget he with he | rfl
    · rcases hget hf with hf | rfl
      · exact hinv.unique i j e f d d' w he hf h₁ h₂
      · cases h₂
    · cases h₁
  · exact hinv.bound

theorem WaitInv.drop (hinv : WaitInv s) : WaitInv (s.drop id) := by
  unfold State.drop
  split
  · rename_i c hc
    have hget := (lock_eq_some.mp hc).1
    split
    · unfold State.destroy
      split
      · have hdereg : WaitInv (s.deregister c.fd) := hinv.of_eq rfl rfl rfl
        exact hdereg.setChannel { c with alive := false } hget rfl fun d w h => by
          cases d <;> exact h
      · exact hinv.setChannel { c with alive := false } hget rfl fun d w h => by
          cases d <;> exact h
    · exact hinv
  · exact hinv

theorem WaitInv.callback (hinv : WaitInv s) (hc : s.objects[h.id]? = some c) :
    WaitInv (s.callback d h c) := by
  unfold State.callback
  split
  · simp only
    split
    · exact hinv.of_eq rfl rfl rfl
    · exact hinv.of_eq rfl rfl rfl
    · rename_i w hcb
      exact hinv.resume hc hcb rfl rfl rfl
  · exact hinv.of_eq rfl rfl rfl

/-! ## The steps -/

theorem log_drop : (s.drop id).log = s.log := by
  unfold State.drop
  split
  · split
    · unfold State.destroy
      split <;> rfl
    · rfl
  · rfl

theorem event_same {fd : Option Fd} {events : Events} {rest : List (Option Fd × Events)} :
    (s.event fd events rest).objects = s.objects ∧ (s.event fd events rest).log = s.log ∧
      (s.event fd events rest).nextWait = s.nextWait := by
  unfold State.event
  split
  · exact ⟨rfl, rfl, rfl⟩
  · split
    · exact ⟨rfl, rfl, rfl⟩
    · split <;> exact ⟨rfl, rfl, rfl⟩

theorem erase_ite_same {err : Bool} {fd : Fd} :
    (if err then s.erase fd else s).objects = s.objects ∧
      (if err then s.erase fd else s).log = s.log ∧
      (if err then s.erase fd else s).nextWait = s.nextWait := by
  split <;> exact ⟨rfl, rfl, rfl⟩

theorem WaitInv.step {a : Act} (hinv : WaitInv s) (hstep : step s a = some s') :
    WaitInv s' := by
  cases step_cases hstep with
  | @newChannel fd _ _ => exact hinv.newChannel fd
  | @setCallback id d callback c hc _ hcallback =>
    refine hinv.setChannel _ (lock_eq_some.mp hc).1 (waiting_setCallback _) fun d' w hcb => ?_
    rw [callback_setCallback] at hcb
    split at hcb
    · -- the callback that is set holds no handle
      rw [hcb] at hcallback
      cases hcallback
    · exact hcb
  | register hc _ =>
    exact hinv.of_eq (objects_registerChannel _) (log_registerChannel _)
      (nextWait_registerChannel _)
  | deregister _ _ => exact hinv.of_eq rfl rfl rfl
  | await hc _ hfree => exact hinv.awaitSuspend (lock_eq_some.mp hc).1 hfree _
  | @release id c hc _ =>
    have hset := hinv.setChannel { c with owned := false } (lock_eq_some.mp hc).1 rfl
      fun d w h => by cases d <;> exact h
    exact hset.drop
  | throw _ => exact hinv.of_eq rfl rfl rfl
  | epollWait _ _ => exact hinv.of_eq rfl rfl rfl
  | batchEnd _ => exact hinv.of_eq rfl rfl rfl
  | event _ => exact hinv.of_eq event_same.1 event_same.2.1 event_same.2.2
  | call _ _ hc => exact hinv.callback (lock_eq_some.mp hc).1
  | skip _ _ => exact hinv.of_eq rfl rfl rfl
  | ret _ => exact hinv.of_eq rfl rfl rfl
  | returned _ =>
    exact hinv.of_eq erase_ite_same.1 erase_ite_same.2.1 erase_ite_same.2.2
  | @done h _ =>
    have hnext : WaitInv { s with pc := .batch h.rest } := hinv.of_eq rfl rfl rfl
    exact hnext.drop

theorem resumedOnce_suspended {log : List Event} {w : WaitId} :
    Trace.Each Once (log ++ [.suspended w]) ↔ Trace.Each Once log := by
  rw [Trace.each_concat]
  refine and_iff_left fun w' he => ?_
  cases he

theorem resumedOnce_failed {log : List Event} {w : WaitId} :
    Trace.Each Once (log ++ [.failed w]) ↔ Trace.Each Once log := by
  rw [Trace.each_concat]
  refine and_iff_left fun w' he => ?_
  cases he

theorem resumedOnce_awaitSuspend (admits : Bool) :
    (s.awaitSuspend id c d admits).ResumedOnce ↔ s.ResumedOnce := by
  unfold State.ResumedOnce
  rcases (awaitSuspend_cases s id c d admits).2 with ⟨-, hlog⟩ | ⟨-, hlog⟩
  · rw [hlog, resumedOnce_suspended]
  · rw [hlog, resumedOnce_failed, resumedOnce_suspended]

/-- The callback resumes a wait that has not ended iff its handle is that of the
pending wait. -/
theorem resumedOnce_callback (hinv : WaitInv s) (hloop : c.loop = true)
    (hc : s.objects[h.id]? = some c) :
    (s.callback d h c).ResumedOnce ↔
      s.ResumedOnce ∧ ∀ w, c.callback d = .resume w → c.waiting = some (d, w) := by
  rw [State.callback, if_pos hloop]
  simp only
  cases hcb : c.callback d with
  | noop =>
    refine (and_iff_left fun w h => ?_).symm
    cases h
  | run =>
    refine (and_iff_left fun w h => ?_).symm
    cases h
  | resume w =>
    refine Trace.each_concat.trans (and_congr_right fun _ => ?_)
    constructor
    · intro honce w' hw
      obtain rfl := Callback.resume.inj hw
      exact (hinv.stored h.id c d w hc hcb).resolve_right (honce w rfl)
    · intro hwait w' hw
      obtain rfl := Event.resumed.inj hw
      exact (hinv.pending h.id c d w hc (hwait w rfl)).1

/-- A step resumes no coroutine out of turn iff its handle is that of the pending wait. -/
theorem resumedOnce_step {a : Act} (hinv : Inv s) (hwinv : WaitInv s) (hgood : s.ResumedOnce)
    (hstep : step s a = some s') : s'.ResumedOnce ↔ HandlePending s a := by
  have hsame : s'.log = s.log → s'.ResumedOnce := fun hlog => by
    rw [State.ResumedOnce, hlog]
    exact hgood
  cases step_cases hstep with
  | newChannel _ _ => exact iff_of_true hgood trivial
  | setCallback _ _ _ => exact iff_of_true hgood trivial
  | register _ _ => exact iff_of_true (hsame (log_registerChannel _)) trivial
  | deregister _ _ => exact iff_of_true hgood trivial
  | await _ _ _ => exact iff_of_true ((resumedOnce_awaitSuspend _).mpr hgood) trivial
  | release _ _ => exact iff_of_true (hsame log_drop) trivial
  | throw _ => exact iff_of_true hgood trivial
  | epollWait _ _ => exact iff_of_true hgood trivial
  | batchEnd hpc => exact iff_of_true hgood (by simp only [HandlePending, hpc])
  | event hpc => exact iff_of_true (hsame event_same.2.1) (by simp only [HandlePending, hpc])
  | @call d h c hpc hmask hc =>
    rw [resumedOnce_callback hwinv (hinv.loop _ _ hc) (lock_eq_some.mp hc).1, and_iff_right hgood]
    simp only [HandlePending, hpc, hmask, hc, Option.some.injEq, forall_const, forall_eq']
  | skip hpc hmask =>
    refine iff_of_true hgood ?_
    simp only [HandlePending, hpc]
    exact fun h => absurd h hmask
  | ret hpc => exact iff_of_true hgood (by simp only [HandlePending, hpc])
  | returned hpc =>
    exact iff_of_true (hsame erase_ite_same.2.1) (by simp only [HandlePending, hpc])
  | done hpc => exact iff_of_true (hsame log_drop) (by simp only [HandlePending, hpc])

end

end Ucxpp.EventLoop
