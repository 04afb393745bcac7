import Ucxpp.Task

/-!
# TaskLifetime — no frame is destroyed twice or used after that

The invariant `Inv` says who may still reach a frame: the one task object that
owns it, the parent that its `continuation_` names, the operation that will
resume it, or nobody but its own final awaiter. From it `step_spec` gives the
exact effect of every action that keeps to the `Contract`, a fault never being
one of them; each effect keeps `Inv` (`step_inv`).
-/

namespace Ucxpp.TaskRun

open Function (update update_self update_of_ne)
open Lts (ok_bind)

variable {V E : Type}

/-! ## The invariant -/

/-- Who will resume whom: an awaiting parent and the `continuation_` of its
unfinished child name each other, and an operation resumes a coroutine that
is suspended in it. -/
structure Links (frames : FrameId → Option (Cell V E)) (leaves : Finset FrameId) : Prop where
  release : ∀ f fr g, frames f = some (.live fr) → fr.releaseDetached = some g → g = f
  awaiting : ∀ p fp c, frames p = some (.live fp) → fp.phase = .awaiting c →
    ∃ fc, frames c = some (.live fc) ∧ fc.phase ≠ .done ∧ fc.continuation = some p
  continuation : ∀ c fc p, frames c = some (.live fc) → fc.phase ≠ .done →
    fc.continuation = some p → ∃ fp, frames p = some (.live fp) ∧ fp.phase = .awaiting c
  coAwaited : ∀ c fc p, frames c = some (.live fc) → fc.continuation = some p →
    fc.coAwaited = true
  leaf : ∀ f ∈ leaves, ∃ fr, frames f = some (.live fr) ∧ fr.phase = .leaf
  promise : ∀ f fr, frames f = some (.live fr) → fr.phase = .returning ∨ fr.phase = .done →
    fr.promise ≠ none

/-- Who may destroy a frame: a task object that is not detached is the only
one with its frame, and that frame is not marked for release. -/
structure Inv (s : St V E) : Prop extends Links s.frames s.leaves where
  unborn : ∀ f, s.nextFrame ≤ f → s.frames f = none
  unbuilt : ∀ t, s.nextTask ≤ t → s.tasks t = none
  held : ∀ t h, s.tasks t = some ⟨h, false⟩ → h ≠ none
  owned : ∀ t f, s.tasks t = some ⟨some f, false⟩ →
    ∃ fr, s.frames f = some (.live fr) ∧ fr.releaseDetached = none
  unique : ∀ t t' f, s.tasks t = some ⟨some f, false⟩ → s.tasks t' = some ⟨some f, false⟩ → t = t'

theorem init_inv : Inv (St.init : St V E) where
  release := fun _ _ _ h => nomatch h
  awaiting := fun _ _ _ h => nomatch h
  continuation := fun _ _ _ h => nomatch h
  coAwaited := fun _ _ _ h => nomatch h
  leaf := fun _ h => absurd h (Finset.notMem_empty _)
  promise := fun _ _ h => nomatch h
  unborn := fun _ _ => rfl
  unbuilt := fun _ _ => rfl
  held := fun _ _ h => nomatch h
  owned := fun _ _ h => nomatch h
  unique := fun _ _ _ h => nomatch h

/-! ## Reading and writing frames -/

theorem St.frame_live {s : St V E} {f : FrameId} {fr : Frame V E}
    (h : s.frames f = some (.live fr)) : s.frame f = .ok fr := by
  unfold St.frame
  rw [h]

theorem St.destroyFrame_live {s : St V E} {f : FrameId} {fr : Frame V E}
    (h : s.frames f = some (.live fr)) :
    s.destroyFrame f = .ok { s with frames := update s.frames f (some .destroyed) } := by
  unfold St.destroyFrame
  rw [h]

@[simp] theorem St.setFrame_frames_self (s : St V E) (f : FrameId) (fr : Frame V E) :
    (s.setFrame f fr).frames f = some (.live fr) :=
  update_self ..

theorem St.setFrame_frames_of_ne (s : St V E) {f g : FrameId} (fr : Frame V E) (h : g ≠ f) :
    (s.setFrame f fr).frames g = s.frames g :=
  update_of_ne h ..

theorem St.setFrame_frames (s : St V E) (f g : FrameId) (fr : Frame V E) :
    (s.setFrame f fr).frames g = if g = f then some (.live fr) else s.frames g := by
  by_cases h : g = f
  · rw [if_pos h, h, setFrame_frames_self]
  · rw [if_neg h, setFrame_frames_of_ne s fr h]

theorem St.setFrame_setFrame_frames (s : St V E) (f p g : FrameId) (fr fp : Frame V E) :
    ((s.setFrame f fr).setFrame p fp).frames g =
      if g = p then some (.live fp) else if g = f then some (.live fr) else s.frames g := by
  rw [setFrame_frames, setFrame_frames]

theorem St.setFrame_setFrame_inner (s : St V E) {f p : FrameId} (fr fp : Frame V E)
    (h : f ≠ p) : ((s.setFrame f fr).setFrame p fp).frames f = some (.live fr) := by
  rw [setFrame_frames_of_ne _ _ h, setFrame_frames_self]

@[simp] theorem St.setFrame_setFrame (s : St V E) (f : FrameId) (fr fr' : Frame V E) :
    (s.setFrame f fr).setFrame f fr' = s.setFrame f fr' := by
  simp [St.setFrame]

theorem St.live_eq_some {s : St V E} {f : FrameId} {fr : Frame V E} :
    s.live f = some fr ↔ s.frames f = some (.live fr) := by
  unfold St.live
  split <;> simp_all

theorem phaseOf_eq_some {s : St V E} {f : FrameId} {ph : Phase} :
    phaseOf s f = some ph ↔ ∃ fr, s.frames f = some (.live fr) ∧ fr.phase = ph := by
  simp only [phaseOf, Option.map_eq_some_iff, St.live_eq_some]

/-- What a `get()` gives once the promise is set. -/
def Frame.taken (fr : Frame V E) (o : Outcome V E) : Got V E :=
  if fr.futureValid then .outcome o else .futureError

theorem Frame.futureGet_promise (fr : Frame V E) {o : Outcome V E} (h : fr.promise = some o) :
    fr.futureGet = some (fr.taken o, { fr with futureValid := false }) := by
  unfold Frame.futureGet Frame.taken
  by_cases hv : fr.futureValid = true
  · simp [hv, h]
  · simp only [hv, Bool.false_eq_true, ↓reduceIte, Option.some.injEq, Prod.mk.injEq, true_and]
    rw [← Bool.eq_false_iff.mpr hv]

/-! ## The effect of each action -/

/-- What an action does that keeps to the contract. -/
inductive Effect (s : St V E) : Act V E → St V E → Prop where
  | call : Effect s .call (call s)
  | suspend {f fr} (hf : s.frames f = some (.live fr)) (hph : fr.phase = .running) :
      Effect s (.suspend f)
        { s.setFrame f { fr with phase := .leaf } with leaves := insert f s.leaves }
  | resume {f fr} (hf : s.frames f = some (.live fr)) (hph : fr.phase = .leaf) :
      Effect s (.resume f)
        { s.setFrame f { fr with phase := .running } with leaves := s.leaves.erase f }
  | coReturn {f fr o} (hf : s.frames f = some (.live fr)) (hph : fr.phase = .running) :
      Effect s (.coReturn f o) (s.setFrame f { fr with phase := .returning, promise := some o })
  | finish {f fr} (hf : s.frames f = some (.live fr)) (hph : fr.phase = .returning)
      (hc : fr.continuation = none) (hr : fr.releaseDetached = none) :
      Effect s (.finalSuspend f) (s.setFrame f { fr with phase := .done })
  | release {f fr} (hf : s.frames f = some (.live fr)) (hph : fr.phase = .returning)
      (hc : fr.continuation = none) (hr : fr.releaseDetached = some f) :
      Effect s (.finalSuspend f) { s with frames := update s.frames f (some .destroyed) }
  | handOver {f fr o p fp} (hf : s.frames f = some (.live fr)) (hph : fr.phase = .returning)
      (hc : fr.continuation = some p) (ho : fr.promise = some o)
      (hp : s.frames p = some (.live fp)) (hpp : fp.phase = .awaiting f) :
      Effect s (.finalSuspend f)
        ((s.setFrame f { fr with phase := .done, futureValid := false }).setFrame p
          { fp with phase := .running, got := some (fr.taken o) })
  | awaitDone {p fp t h fr o} (hp : s.frames p = some (.live fp)) (hpp : fp.phase = .running)
      (ht : s.tasks t = some ⟨some h, false⟩) (hf : s.frames h = some (.live fr))
      (hph : fr.phase = .done) (ho : fr.promise = some o) :
      Effect s (.coAwait p t)
        ((s.setFrame h { fr with coAwaited := true, futureValid := false }).setFrame p
          { fp with phase := .running, got := some (fr.taken o) })
  | awaitPending {p fp t h fr} (hp : s.frames p = some (.live fp)) (hpp : fp.phase = .running)
      (ht : s.tasks t = some ⟨some h, false⟩) (hf : s.frames h = some (.live fr))
      (hph : fr.phase ≠ .done) (hne : p ≠ h) (hc : fr.continuation = none) :
      Effect s (.coAwait p t)
        ((s.setFrame h { fr with coAwaited := true, continuation := some p }).setFrame p
          { fp with phase := .awaiting h })
  | awaitSelf {p fp t} (hp : s.frames p = some (.live fp)) (hpp : fp.phase = .running)
      (ht : s.tasks t = some ⟨some p, false⟩) (hc : fp.continuation = none) :
      Effect s (.coAwait p t)
        (s.setFrame p
          { fp with phase := .awaiting p, coAwaited := true, continuation := some p })
  | moveTask {t h} (ht : s.tasks t = some ⟨h, false⟩) :
      Effect s (.moveTask t) (moveTask s t ⟨h, false⟩)
  | detach {t h fr} (ht : s.tasks t = some ⟨some h, false⟩)
      (hf : s.frames h = some (.live fr)) :
      Effect s (.detach t) ((s.setFrame h (fr.setDetachedTask h)).setTask t ⟨some h, true⟩)
  | dropDetached {t h} (ht : s.tasks t = some ⟨h, true⟩) :
      Effect s (.destroyTask t) (s.eraseTask t)
  | dropDone {t h fr} (ht : s.tasks t = some ⟨some h, false⟩)
      (hf : s.frames h = some (.live fr)) (hph : fr.phase = .done) :
      Effect s (.destroyTask t)
        { s with frames := update s.frames h (some .destroyed), tasks := update s.tasks t none }
  | dropReturning {t h fr} (ht : s.tasks t = some ⟨some h, false⟩)
      (hf : s.frames h = some (.live fr)) (hph : fr.phase ≠ .done) :
      Effect s (.destroyTask t)
        ((s.setFrame h { fr with releaseDetached := some h, futureValid := false }).eraseTask t)
  | stop {t h fr s'} (ht : s.tasks t = some ⟨some h, false⟩) (hf : s.frames h = some (.live fr))
      (hph : fr.phase ≠ .done) (hthread : s'.thread ≠ .running) : Effect s (.destroyTask t) s'

/-- `await_resume` on a coroutine whose promise is set. -/
theorem awaitResume_promise {s : St V E} {p c : FrameId} {fp fr : Frame V E} {o : Outcome V E}
    (hc : s.frames c = some (.live fr)) (hp : s.frames p = some (.live fp)) (hne : p ≠ c)
    (ho : fr.promise = some o) :
    awaitResume s p c = .ok ((s.setFrame c { fr with futureValid := false }).setFrame p
      { fp with phase := .running, got := some (fr.taken o) }) := by
  have hp' : (s.setFrame c { fr with futureValid := false }).frames p = some (.live fp) :=
    (s.setFrame_frames_of_ne _ hne).trans hp
  simp only [awaitResume, St.frame_live hc, ok_bind, Frame.futureGet_promise _ ho,
    St.frame_live hp', pure, Except.pure]

theorem resume_awaiting {s : St V E} {p c : FrameId} {fp : Frame V E}
    (hp : s.frames p = some (.live fp)) (hpp : fp.phase = .awaiting c) :
    resume s p = awaitResume s p c := by
  simp only [resume, St.frame_live hp, ok_bind, hpp]

theorem finalAwaitSuspend_some {s : St V E} {f p : FrameId} {fr : Frame V E}
    (release : Option FrameId) (hf : s.frames f = some (.live fr))
    (hc : fr.continuation = some p) : finalAwaitSuspend s f release = resume s p := by
  simp only [finalAwaitSuspend, St.frame_live hf, ok_bind, hc]

theorem finalAwaitSuspend_none {s : St V E} {f : FrameId} {fr : Frame V E}
    (release : Option FrameId) (hf : s.frames f = some (.live fr))
    (hc : fr.continuation = none) :
    finalAwaitSuspend s f release =
      match release with
      | some h => s.destroyFrame h
      | none => .ok s := by
  simp only [finalAwaitSuspend, St.frame_live hf, ok_bind, hc]
  rfl

theorem finalSuspend_spec {s : St V E} {f : FrameId} (hinv : Inv s)
    (h : phaseOf s f = some .returning) :
    ∃ s', finalSuspend s f = .ok s' ∧ Effect s (.finalSuspend f) s' := by
  rcases phaseOf_eq_some.mp h with ⟨fr, hf, hph⟩
  have hself := s.setFrame_frames_self f { fr with phase := .done }
  simp only [finalSuspend, St.frame_live hf, ok_bind]
  by_cases hc : fr.continuation = none
  · rw [finalAwaitSuspend_none _ hself hc]
    by_cases hr : fr.releaseDetached = none
    · refine ⟨_, ?_, .finish hf hph hc hr⟩
      simp only [hr]
    · rcases Option.ne_none_iff_exists'.mp hr with ⟨g, hr⟩
      obtain rfl := hinv.release f fr g hf hr
      refine ⟨_, ?_, .release hf hph hc hr⟩
      simp only [hr] at hself ⊢
      rw [St.destroyFrame_live hself, St.setFrame, Function.update_idem]
  · rcases Option.ne_none_iff_exists'.mp hc with ⟨p, hc⟩
    -- symmetric transfer: the parent runs `await_resume` on the promise that is set
    rcases hinv.continuation f fr p hf (by simp [hph]) hc with ⟨fp, hp, hpp⟩
    rcases Option.ne_none_iff_exists'.mp (hinv.promise f fr hf (.inl hph)) with ⟨o, ho⟩
    have hne : p ≠ f := by
      rintro rfl
      rw [hf] at hp
      cases hp
      rw [hph] at hpp
      cases hpp
    have hp' := (s.setFrame_frames_of_ne { fr with phase := .done } hne).trans hp
    refine ⟨_, ?_, .handOver hf hph hc ho hp hpp⟩
    rw [finalAwaitSuspend_some _ hself hc, resume_awaiting hp' hpp,
      awaitResume_promise hself hp' hne ho, St.setFrame_setFrame]
    rfl

theorem coAwait_spec {s : St V E} {p : FrameId} {t : TaskId} (hinv : Inv s)
    (hp : phaseOf s p = some .running) (hcon : Contract s (.coAwait p t)) :
    ∃ s', step s (.coAwait p t) = .ok s' ∧ Effect s (.coAwait p t) s' := by
  rcases hcon with ⟨⟨h, detached⟩, ht, hd, h, rfl, fr, hf, hfirst⟩
  obtain rfl : detached = false := hd
  replace ht : s.tasks t = some ⟨some h, false⟩ := ht
  replace hf := St.live_eq_some.mp hf
  rcases phaseOf_eq_some.mp hp with ⟨fp, hp, hpp⟩
  -- the first await of a task finds no continuation
  have hc : fr.continuation = none := by
    by_contra hsome
    rcases Option.ne_none_iff_exists'.mp hsome with ⟨q, hq⟩
    rw [hinv.coAwaited h fr q hf hq] at hfirst
    cases hfirst
  simp only [step, ht, coAwait, St.frame_live hf, ok_bind]
  by_cases hph : fr.phase = .done
  · have hne : p ≠ h := by
      rintro rfl
      rw [hf] at hp
      cases hp
      rw [hph] at hpp
      cases hpp
    rcases Option.ne_none_iff_exists'.mp (hinv.promise h fr hf (.inr hph)) with ⟨o, ho⟩
    have hp' : (s.setFrame h { fr with coAwaited := true }).frames p = some (.live fp) :=
      (s.setFrame_frames_of_ne _ hne).trans hp
    have hres := awaitResume_promise (s.setFrame_frames_self h { fr with coAwaited := true })
      hp' hne ho
    rw [St.setFrame_setFrame] at hres
    refine ⟨_, ?_, .awaitDone hp hpp ht hf hph ho⟩
    simp only [hph, ↓reduceIte] at hres ⊢
    rw [hres]
    rfl
  · rw [if_neg hph]
    by_cases hne : p = h
    · subst hne
      rw [hf] at hp
      cases hp
      refine ⟨_, ?_, .awaitSelf hf hpp ht hc⟩
      simp only [St.frame_live (s.setFrame_frames_self p _), ok_bind, St.setFrame_setFrame, pure,
        Except.pure]
    · refine ⟨_, ?_, .awaitPending hp hpp ht hf hph hne hc⟩
      simp only [St.frame_live ((s.setFrame_frames_of_ne _ hne).trans hp), ok_bind, pure,
        Except.pure]

theorem destroyOwned_spec {s : St V E} {t : TaskId} {h : FrameId} (hinv : Inv s)
    (ht : s.tasks t = some ⟨some h, false⟩) :
    ∃ s', destroyOwned s t h = .ok s' ∧ Effect s (.destroyTask t) s' := by
  rcases hinv.owned t h ht with ⟨fr, hf, -⟩
  simp only [destroyOwned, St.frame_live hf, ok_bind]
  by_cases hph : fr.phase = .done
  · rw [if_pos hph, St.destroyFrame_live hf]
    exact ⟨_, rfl, .dropDone ht hf hph⟩
  · rw [if_neg hph]
    cases ho : fr.promise with
    | none =>
      -- `get` waits for a promise that is not set, or throws if the future is used up
      have hget : (fr.setDetachedTask h).futureGet = none ∨
          (fr.setDetachedTask h).futureGet = some (.futureError, fr.setDetachedTask h) := by
        unfold Frame.futureGet
        by_cases hv : (fr.setDetachedTask h).futureValid = true
        · exact .inl (by rw [if_pos hv]; simp [Frame.setDetachedTask, ho])
        · exact .inr (if_neg hv)
      rcases hget with hget | hget
      · simp only [hget]
        exact ⟨_, rfl, .stop ht hf hph (by simp)⟩
      · simp only [hget]
        exact ⟨_, rfl, .stop ht hf hph (by simp)⟩
    | some o =>
      -- the coroutine is on its way to its final suspend point
      have hget := Frame.futureGet_promise (fr.setDetachedTask h) ho
      simp only [hget]
      by_cases hv : fr.futureValid = true
      · have htaken : (fr.setDetachedTask h).taken o = .outcome o := if_pos hv
        rw [htaken]
        have heff := Effect.dropReturning ht hf hph
        cases o with
        | value v => exact ⟨_, rfl, heff⟩
        | void => exact ⟨_, rfl, heff⟩
        | exception e => exact ⟨_, rfl, .stop ht hf hph (by simp)⟩
      · have htaken : (fr.setDetachedTask h).taken o = .futureError := if_neg hv
        rw [htaken]
        exact ⟨_, rfl, .stop ht hf hph (by simp)⟩

/-- An action that keeps to the contract does not fault, and has one of the
listed effects. -/
theorem step_spec {s : St V E} {a : Act V E} (hinv : Inv s) (hen : Enabled s a)
    (hcon : Contract s a) : ∃ s', step s a = .ok s' ∧ Effect s a s' := by
  rcases hen with ⟨-, hen⟩
  cases a with
  | call => exact ⟨_, rfl, .call⟩
  | suspend f =>
    rcases phaseOf_eq_some.mp hen with ⟨fr, hf, hph⟩
    refine ⟨_, ?_, .suspend hf hph⟩
    simp only [step, St.frame_live hf, ok_bind, pure, Except.pure]
  | resume f =>
    rcases hinv.leaf f hen with ⟨fr, hf, hph⟩
    refine ⟨_, ?_, .resume hf hph⟩
    have hf' : ({ s with leaves := s.leaves.erase f } : St V E).frames f = some (.live fr) := hf
    simp only [step, resume, St.frame_live hf', ok_bind, hph, pure, Except.pure]
    rfl
  | coReturn f o =>
    rcases phaseOf_eq_some.mp hen with ⟨fr, hf, hph⟩
    refine ⟨_, ?_, .coReturn hf hph⟩
    simp only [step, St.frame_live hf, ok_bind, pure, Except.pure]
  | finalSuspend f => exact finalSuspend_spec hinv hen
  | coAwait p t => exact coAwait_spec hinv hen.1 hcon
  | moveTask t =>
    rcases hcon with ⟨⟨h, detached⟩, ht, hd⟩
    obtain rfl : detached = false := hd
    refine ⟨_, ?_, .moveTask ht⟩
    have ht' : s.tasks t = some ⟨h, false⟩ := ht
    simp only [step, ht']
  | detach t =>
    rcases hen with ⟨⟨h, detached⟩, ht, hd⟩
    obtain rfl : detached = false := hd
    rcases Option.ne_none_iff_exists'.mp (hinv.held t h ht) with ⟨f, rfl⟩
    rcases hinv.owned t f ht with ⟨fr, hf, -⟩
    refine ⟨_, ?_, .detach ht hf⟩
    have ht' : s.tasks t = some ⟨some f, false⟩ := ht
    simp only [step, ht', detach, St.frame_live hf, ok_bind, pure, Except.pure]
  | destroyTask t =>
    rcases Option.ne_none_iff_exists'.mp hen with ⟨⟨h, detached⟩, ht⟩
    cases detached with
    | true =>
      refine ⟨_, ?_, .dropDetached ht⟩
      simp only [step, ht, destroyTask, ↓reduceIte]
    | false =>
      rcases Option.ne_none_iff_exists'.mp (hinv.held t h ht) with ⟨f, rfl⟩
      rcases destroyOwned_spec hinv ht with ⟨s', hs', heff⟩
      refine ⟨s', ?_, heff⟩
      simpa [step, ht, destroyTask] using hs'

/-! ## The invariant holds along every run -/

theorem Inv.phase_eq_leaf {s : St V E} (hinv : Inv s) {f : FrameId} {fr : Frame V E}
    (hf : s.frames f = some (.live fr)) (h : f ∈ s.leaves) : fr.phase = .leaf := by
  rcases hinv.leaf f h with ⟨fr', hf', hph⟩
  rw [hf] at hf'
  cases hf'
  exact hph

/-- A step that leaves the task objects alone keeps `Inv` if it keeps the
links, allocates nothing and lets every owned frame live on unmarked. -/
theorem frames_inv {s : St V E} (hinv : Inv s) (frames : FrameId → Option (Cell V E))
    (leaves : Finset FrameId) (hlinks : Links frames leaves)
    (hnone : ∀ f, s.frames f = none → frames f = none)
    (hown : ∀ t f fr, s.tasks t = some ⟨some f, false⟩ → s.frames f = some (.live fr) →
      fr.releaseDetached = none → ∃ fr', frames f = some (.live fr') ∧ fr'.releaseDetached = none) :
    Inv { s with frames := frames, leaves := leaves } where
  toLinks := hlinks
  unborn := fun f hf => hnone f (hinv.unborn f hf)
  unbuilt := hinv.unbuilt
  held := hinv.held
  owned := by
    intro t f ht
    rcases hinv.owned t f ht with ⟨fr, hf, hr⟩
    exact hown t f fr ht hf hr
  unique := hinv.unique

/-- A step that gives up task objects keeps `Inv`. -/
theorem tasks_inv {s : St V E} (hinv : Inv s) (tasks : TaskId → Option TaskObj)
    (hold : ∀ t h, tasks t = some ⟨h, false⟩ → s.tasks t = some ⟨h, false⟩)
    (hnone : ∀ t, s.tasks t = none → tasks t = none) : Inv { s with tasks := tasks } where
  toLinks := hinv.toLinks
  unborn := hinv.unborn
  unbuilt := fun t ht => hnone t (hinv.unbuilt t ht)
  held := fun t h ht => hinv.held t h (hold t h ht)
  owned := fun t f ht => hinv.owned t f (hold t _ ht)
  unique := fun t t' f ht ht' => hinv.unique t t' f (hold t _ ht) (hold t' _ ht')

theorem call_inv {s : St V E} (hinv : Inv s) : Inv (call s) := by
  have hframes : ∀ g, (call s).frames g =
      if g = s.nextFrame then some (.live .fresh) else s.frames g :=
    fun _ => Function.update_apply ..
  have htasks : ∀ t, (call s).tasks t =
      if t = s.nextTask then some ⟨some s.nextFrame, false⟩ else s.tasks t :=
    fun _ => Function.update_apply ..
  have hnew := hinv.unborn s.nextFrame (Nat.le_refl _)
  have hnewTask := hinv.unbuilt s.nextTask (Nat.le_refl _)
  obtain ⟨⟨release, awaiting, continuation, coAwaited, leaf, promise⟩, unborn, unbuilt, held,
    owned, unique⟩ := hinv
  -- a fresh frame is suspended at its start: nothing is linked to it yet
  refine ⟨⟨?release, ?awaiting, ?continuation, ?coAwaited, ?leaf, ?promise⟩, ?unborn, ?unbuilt,
    ?held, ?owned, ?unique⟩
  case release => grind [Frame.fresh]
  case awaiting => grind [Frame.fresh]
  case continuation => grind [Frame.fresh]
  case coAwaited => grind [Frame.fresh]
  case leaf =>
    intro f (hf : f ∈ s.leaves)
    grind
  case promise => grind [Frame.fresh]
  case unborn =>
    intro f (hf : s.nextFrame + 1 ≤ f)
    grind
  case unbuilt =>
    intro t (ht : s.nextTask + 1 ≤ t)
    grind
  case held => grind
  case owned => grind [Frame.fresh]
  case unique => grind

theorem moveTask_inv {s : St V E} (hinv : Inv s) {t : TaskId} {h : Option FrameId}
    (ht : s.tasks t = some ⟨h, false⟩) : Inv (moveTask s t ⟨h, false⟩) := by
  have htasks : ∀ u, (moveTask s t ⟨h, false⟩).tasks u =
      if u = s.nextTask then some ⟨h, false⟩
      else if u = t then some ⟨none, true⟩ else s.tasks u := by
    intro u
    simp [moveTask, St.setTask, Function.update_apply]
  have hnewTask := hinv.unbuilt s.nextTask (Nat.le_refl _)
  rcases hinv with ⟨links, unborn, unbuilt, held, owned, unique⟩
  refine ⟨links, unborn, ?_, ?_, ?_, ?_⟩
  · intro u (hu : s.nextTask + 1 ≤ u)
    grind
  · grind
  · intro u f hu
    exact owned (if u = s.nextTask then t else u) f (by grind)
  · grind

/-- A frame may change in every way that leaves alone who resumes it; it may
be marked for release once no task object owns it. -/
theorem setFrame_inv {s : St V E} (hinv : Inv s) {f : FrameId} {fr : Frame V E}
    (hf : s.frames f = some (.live fr)) (fr' : Frame V E)
    (hdone : fr'.phase = .done ↔ fr.phase = .done)
    (haw : ∀ c, fr'.phase = .awaiting c ↔ fr.phase = .awaiting c)
    (hleaf : f ∈ s.leaves → fr'.phase = .leaf)
    (hprom : fr'.phase = .returning ∨ fr'.phase = .done → fr'.promise ≠ none)
    (hcont : fr'.continuation = fr.continuation)
    (hrel : fr'.releaseDetached = fr.releaseDetached ∨
      fr'.releaseDetached = some f ∧ ∀ t, s.tasks t ≠ some ⟨some f, false⟩)
    (hco : fr.coAwaited = true → fr'.coAwaited = true) : Inv (s.setFrame f fr') := by
  have hframes := fun g => s.setFrame_frames f g fr'
  refine frames_inv hinv _ _ ?_ (by grind) (by grind)
  rcases hinv with ⟨⟨release, awaiting, continuation, coAwaited, leaf, promise⟩, -⟩
  constructor <;> grind

/-- A finished frame, or one at its final suspend point that nobody awaits,
may be destroyed once no task object owns it. -/
theorem destroyFrame_inv {s : St V E} (hinv : Inv s) {f : FrameId} {fr : Frame V E}
    (hf : s.frames f = some (.live fr))
    (hph : fr.phase = .done ∨ fr.phase = .returning ∧ fr.continuation = none)
    (hown : ∀ t, s.tasks t ≠ some ⟨some f, false⟩) :
    Inv { s with frames := update s.frames f (some .destroyed) } := by
  have hframes := Function.update_apply s.frames f (some .destroyed)
  refine frames_inv hinv _ _ ?_ (by grind) (by grind)
  rcases hinv with ⟨⟨release, awaiting, continuation, coAwaited, leaf, promise⟩, -⟩
  constructor <;> grind

/-- Two frames change at once. -/
theorem setFrames_inv {s : St V E} (hinv : Inv s) {f p : FrameId} {fr fr' fp fp' : Frame V E}
    (hf : s.frames f = some (.live fr)) (hp : s.frames p = some (.live fp))
    (hrf : fr'.releaseDetached = fr.releaseDetached)
    (hrp : fp'.releaseDetached = fp.releaseDetached)
    (hlinks : ∀ frames : FrameId → Option (Cell V E),
      (∀ g, frames g =
        if g = p then some (.live fp') else if g = f then some (.live fr') else s.frames g) →
      Links frames s.leaves) :
    Inv ((s.setFrame f fr').setFrame p fp') := by
  have hframes := fun g => s.setFrame_setFrame_frames f p g fr' fp'
  refine frames_inv hinv _ _ (hlinks _ hframes) ?_ ?_
  · intro g hg
    refine (hframes g).trans ?_
    grind
  · intro t g fr₀ ht hg hr
    rw [show update (s.setFrame f fr').frames p (some (.live fp')) g = _ from hframes g]
    grind

/-- The awaited coroutine finishes and its parent continues. -/
theorem handOver_inv {s : St V E} (hinv : Inv s) {f p : FrameId} {fr fp fr' fp' : Frame V E}
    (hf : s.frames f = some (.live fr)) (hph : fr.phase = .returning)
    (hp : s.frames p = some (.live fp)) (hpp : fp.phase = .awaiting f)
    (hfr' : fr' = { fr with phase := .done, futureValid := false })
    (hfp' : fp' = { fp with phase := .running, got := fp'.got }) :
    Inv ((s.setFrame f fr').setFrame p fp') := by
  refine setFrames_inv hinv hf hp (by grind) (by grind) ?_
  intro frames hframes
  rcases hinv with ⟨⟨release, awaiting, continuation, coAwaited, leaf, promise⟩, -⟩
  -- nobody but `p` awaited `f`, and nobody awaits it from here on
  constructor
  case release => grind
  case awaiting => grind
  case continuation => grind
  case coAwaited => grind
  case leaf => grind
  case promise => grind

/-- A running coroutine suspends in the `co_await` of another one. -/
theorem awaitPending_inv {s : St V E} (hinv : Inv s) {h p : FrameId} {fr fp fr' fp' : Frame V E}
    (hf : s.frames h = some (.live fr)) (hph : fr.phase ≠ .done)
    (hp : s.frames p = some (.live fp)) (hpp : fp.phase = .running) (hne : p ≠ h)
    (hc : fr.continuation = none)
    (hfr' : fr' = { fr with coAwaited := true, continuation := some p })
    (hfp' : fp' = { fp with phase := .awaiting h }) :
    Inv ((s.setFrame h fr').setFrame p fp') := by
  refine setFrames_inv hinv hf hp (by grind) (by grind) ?_
  intro frames hframes
  rcases hinv with ⟨⟨release, awaiting, continuation, coAwaited, leaf, promise⟩, -⟩
  -- `h` had no continuation, so no other frame awaits it
  constructor
  case release => grind
  case awaiting => grind
  case continuation => grind
  case coAwaited => grind
  case leaf => grind
  case promise => grind

/-- A coroutine that awaits itself never continues. -/
theorem awaitSelf_inv {s : St V E} (hinv : Inv s) {p : FrameId} {fp fp' : Frame V E}
    (hp : s.frames p = some (.live fp)) (hpp : fp.phase = .running)
    (hc : fp.continuation = none)
    (hfp' : fp' = { fp with phase := .awaiting p, coAwaited := true, continuation := some p }) :
    Inv (s.setFrame p fp') := by
  have hframes := fun g => s.setFrame_frames p g fp'
  refine frames_inv hinv _ _ ?_ (by grind) (by grind)
  rcases hinv with ⟨⟨release, awaiting, continuation, coAwaited, leaf, promise⟩, -⟩
  constructor <;> grind

/-- A coroutine that nobody awaits finishes. -/
theorem finish_inv {s : St V E} (hinv : Inv s) {f : FrameId} {fr fr' : Frame V E}
    (hf : s.frames f = some (.live fr)) (hph : fr.phase = .returning)
    (hc : fr.continuation = none) (hfr' : fr' = { fr with phase := .done }) :
    Inv (s.setFrame f fr') := by
  have hframes := fun g => s.setFrame_frames f g fr'
  refine frames_inv hinv _ _ ?_ (by grind) (by grind)
  rcases hinv with ⟨⟨release, awaiting, continuation, coAwaited, leaf, promise⟩, -⟩
  constructor <;> grind

/-- A task object hands its frame to the frame's own final awaiter. -/
theorem giveUp_inv {s : St V E} (hinv : Inv s) {t : TaskId} {h : FrameId} {fr : Frame V E}
    (ht : s.tasks t = some ⟨some h, false⟩) (hf : s.frames h = some (.live fr))
    (obj : Option TaskObj) (hobj : ∀ g, obj ≠ some ⟨g, false⟩) (fr' : Frame V E)
    (hph : fr'.phase = fr.phase) (hp : fr'.promise = fr.promise)
    (hc : fr'.continuation = fr.continuation) (hr : fr'.releaseDetached = some h)
    (hco : fr'.coAwaited = fr.coAwaited) :
    Inv { s.setFrame h fr' with tasks := update s.tasks t obj } := by
  have htasks := Function.update_apply s.tasks t obj
  have hgive := tasks_inv hinv (update s.tasks t obj) (by grind) (by grind)
  refine setFrame_inv hgive hf fr' (by rw [hph]) (by simp [hph]) ?_ ?_ hc (.inr ⟨hr, ?_⟩)
    (by simp [hco])
  · rw [hph]
    exact hinv.phase_eq_leaf hf
  · rw [hph, hp]
    exact hinv.promise h fr hf
  · intro u (hu : update s.tasks t obj u = some ⟨some h, false⟩)
    grind [hinv.unique]

theorem effect_inv {s s' : St V E} {a : Act V E} (hinv : Inv s) (heff : Effect s a s')
    (hrun : s'.thread = .running) : Inv s' := by
  cases heff with
  | call => exact call_inv hinv
  | @suspend f fr hf hph =>
    have hset := setFrame_inv hinv hf { fr with phase := .leaf } (by simp [hph]) (by simp [hph])
      (fun _ => rfl) (by simp) rfl (.inl rfl) id
    refine frames_inv hset _ _ ⟨hset.release, hset.awaiting, hset.continuation, hset.coAwaited, ?_,
      hset.promise⟩ (fun _ => id) (fun _ _ fr' _ hfr' hr => ⟨fr', hfr', hr⟩)
    intro g hg
    rcases Finset.mem_insert.mp hg with rfl | hg
    · exact ⟨_, s.setFrame_frames_self g _, rfl⟩
    · exact hset.leaf g hg
  | @resume f fr hf hph =>
    have herase := frames_inv hinv s.frames (s.leaves.erase f) ⟨hinv.release, hinv.awaiting,
      hinv.continuation, hinv.coAwaited, fun g hg => hinv.leaf g (Finset.mem_of_mem_erase hg),
      hinv.promise⟩ (fun _ => id) (fun _ _ fr' _ hfr' hr => ⟨fr', hfr', hr⟩)
    exact setFrame_inv herase hf { fr with phase := .running } (by simp [hph]) (by simp [hph])
      (fun hmem => absurd hmem (Finset.notMem_erase f _)) (by simp) rfl (.inl rfl) id
  | @coReturn f fr o hf hph =>
    refine setFrame_inv hinv hf _ (by simp [hph]) (by simp [hph]) ?_ (by simp) rfl (.inl rfl) id
    intro hmem
    have := hinv.phase_eq_leaf hf hmem
    rw [hph] at this
    cases this
  | @finish f fr hf hph hc hr => exact finish_inv hinv hf hph hc rfl
  | @release f fr hf hph hc hr =>
    refine destroyFrame_inv hinv hf (.inr ⟨hph, hc⟩) ?_
    intro t ht
    rcases hinv.owned t f ht with ⟨fr', hf', hr'⟩
    grind
  | handOver hf hph hc ho hp hpp => exact handOver_inv hinv hf hph hp hpp rfl rfl
  | @awaitDone p fp t h fr o hp hpp ht hf hph ho =>
    have hne : p ≠ h := by grind
    have hleaf : h ∈ s.leaves → fr.phase = .leaf := hinv.phase_eq_leaf hf
    have hset := setFrame_inv hinv hf { fr with coAwaited := true, futureValid := false }
      .rfl (fun _ => .rfl) hleaf (by simp [ho]) rfl (.inl rfl) (fun _ => rfl)
    refine setFrame_inv hset ((s.setFrame_frames_of_ne _ hne).trans hp) _ (by simp [hpp])
      (by simp [hpp]) ?_ (by simp) rfl (.inl rfl) id
    intro hmem
    have := hinv.phase_eq_leaf hp hmem
    rw [hpp] at this
    cases this
  | awaitPending hp hpp ht hf hph hne hc => exact awaitPending_inv hinv hf hph hp hpp hne hc rfl rfl
  | awaitSelf hp hpp ht hc => exact awaitSelf_inv hinv hp hpp hc rfl
  | moveTask ht => exact moveTask_inv hinv ht
  | @detach t h fr ht hf =>
    exact giveUp_inv hinv ht hf (some ⟨some h, true⟩) nofun _ rfl rfl rfl rfl rfl
  | @dropDetached t h ht =>
    have htasks := Function.update_apply s.tasks t none
    exact tasks_inv hinv _ (by grind) (by grind)
  | @dropDone t h fr ht hf hph =>
    have htasks := Function.update_apply s.tasks t none
    have hgive := tasks_inv hinv (update s.tasks t none) (by grind) (by grind)
    exact destroyFrame_inv hgive hf (.inl hph) (by grind [hinv.unique])
  | @dropReturning t h fr ht hf hph =>
    exact giveUp_inv hinv ht hf none nofun _ rfl rfl rfl rfl rfl
  | stop ht hf hph hthread => exact absurd hrun hthread

theorem step_inv {s s' : St V E} {a : Act V E} (hinv : s.thread = .running → Inv s)
    (hcon : Contract s a) (h : next s a = some s') : s'.thread = .running → Inv s' := by
  rcases Lts.guarded_eq_some_iff.mp h with ⟨hen, hs⟩
  rcases step_spec (hinv hen.1) hen hcon with ⟨t, ht, heff⟩
  rw [hs] at ht
  cases ht
  exact effect_inv (hinv hen.1) heff

/-- The states of the runs that keep to the contract. -/
abbrev Reachable (s : St V E) : Prop :=
  Lts.Reachable next (· = St.init) Contract s

theorem safety {s : St V E} (h : Reachable s) : s.thread = .running → Inv s :=
  Lts.Reachable.invariant (fun s => s.thread = .running → Inv s)
    (by rintro _ rfl -; exact init_inv) (fun _ _ _ hinv hcon hs => step_inv hinv hcon hs) h

/-- No frame is destroyed twice, and nothing touches a destroyed frame: after
any number of steps that keep to the contract, no step that keeps to it can
fault. -/
theorem no_frame_fault (as : List (Act V E)) {s : St V E}
    (hcon : Lts.StepsMeet next Contract St.init as) (hrun : Lts.run next St.init as = some s)
    {a : Act V E} (hen : Enabled s a) (ha : Contract s a) (e : Fault) : step s a ≠ .error e := by
  have hinv : Inv s := safety (Lts.Reachable.run (.init rfl) hcon hrun) hen.1
  rcases step_spec hinv hen ha with ⟨s', hs', -⟩
  rw [hs']
  exact fun h => nomatch h

/-- A parent awaits a suspended child, which ends with an exception; the child's
task object can then be destroyed. -/
theorem no_frame_fault_await :
    ∃ s, Lts.run (next (V := Nat) (E := Nat)) St.init
        [.call, .call, .suspend 1, .coAwait 0 1, .resume 1, .coReturn 1 (.exception 5),
          .finalSuspend 1] = some s ∧
      step s (.destroyTask 1) ≠ .error (.doubleDestroy 1) := by
  obtain ⟨s, h⟩ : ∃ s, Lts.run (next (V := Nat) (E := Nat)) St.init
      [.call, .call, .suspend 1, .coAwait 0 1, .resume 1, .coReturn 1 (.exception 5),
        .finalSuspend 1] = some s := ⟨_, rfl⟩
  refine ⟨s, h, no_frame_fault (a := .destroyTask 1) _ (by decide) h ?_ trivial _⟩
  obtain rfl := Option.some.inj h
  decide

end Ucxpp.TaskRun
