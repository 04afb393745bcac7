import Ucxpp.TaskLifetime

/-!
# TaskLeak — which frames are never freed

A frame that is done is freed by the task object that owns it, or was freed by
its own final awaiter. `detach` gives the frame to the final awaiter without
looking at `done()`, which `~task` does look at, so a coroutine that has
already finished is then freed by nobody; and the final awaiter frees nothing
when there is a continuation.

`Careful` excludes exactly the uses of task objects behind which a frame is
left alone, and `no_leak` shows that nothing else leaks a frame.
-/

namespace Ucxpp.TaskRun

open Function (update update_self update_of_ne)
open Lts (ok_bind bind_eq_ok)

variable {V E : Type}

/-- The coroutine has finished, no task object refers to it, nobody awaits it,
and the frame is still there. -/
structure Leaked (s : St V E) (f : FrameId) : Prop where
  finished : phaseOf s f = some .done
  noTask : ∀ t obj, s.tasks t = some obj → obj.h ≠ some f
  noParent : ∀ p, phaseOf s p ≠ some (.awaiting f)

/-- The `get()` of `~task` comes back. -/
def Frame.getReturns (fr : Frame V E) : Bool :=
  match fr.futureGet with
  | some (.outcome (.value _), _) | some (.outcome .void, _) => true
  | _ => false

/-- A step does not leave a frame to a final awaiter that will not free it:
`detach` comes before the coroutine has finished and not while a parent awaits
it, a task is not awaited once its frame is marked for release, and `~task`
does not return while a parent awaits a coroutine that is about to finish. -/
def Careful (s : St V E) : Act V E → Prop
  | .detach t => ∀ obj ∈ s.tasks t, ∀ h ∈ obj.h, ∀ fr ∈ s.live h,
      fr.phase ≠ .done ∧ fr.continuation = none
  | .coAwait _ t => ∀ obj ∈ s.tasks t, ∀ h ∈ obj.h, ∀ fr ∈ s.live h,
      fr.phase ≠ .done → fr.releaseDetached = none
  | .destroyTask t => ∀ obj ∈ s.tasks t, obj.detached = false → ∀ h ∈ obj.h, ∀ fr ∈ s.live h,
      fr.phase ≠ .done → fr.getReturns = true → fr.continuation = none
  | _ => True

instance (s : St V E) : (a : Act V E) → Decidable (Careful s a)
  | .detach t => inferInstanceAs (Decidable (∀ obj ∈ s.tasks t, ∀ h ∈ obj.h, ∀ fr ∈ s.live h,
      fr.phase ≠ .done ∧ fr.continuation = none))
  | .coAwait _ t => inferInstanceAs (Decidable (∀ obj ∈ s.tasks t, ∀ h ∈ obj.h,
      ∀ fr ∈ s.live h, fr.phase ≠ .done → fr.releaseDetached = none))
  | .destroyTask t => inferInstanceAs (Decidable (∀ obj ∈ s.tasks t, obj.detached = false →
      ∀ h ∈ obj.h, ∀ fr ∈ s.live h, fr.phase ≠ .done → fr.getReturns = true →
        fr.continuation = none))
  | .call | .suspend _ | .resume _ | .coReturn _ _ | .finalSuspend _ | .moveTask _ =>
    .isTrue trivial

/-! ## Every frame has somebody who frees it -/

/-- A task object owns the frame, or the final awaiter will free it. -/
def Freed (s : St V E) (f : FrameId) (fr : Frame V E) : Prop :=
  (∃ t, s.tasks t = some ⟨some f, false⟩) ∨
    fr.releaseDetached = some f ∧ fr.phase ≠ .done ∧ fr.continuation = none

structure Accounted (s : St V E) : Prop where
  unbuilt : ∀ t, s.nextTask ≤ t → s.tasks t = none
  release : ∀ f fr g, s.frames f = some (.live fr) → fr.releaseDetached = some g → g = f
  freed : ∀ f fr, s.frames f = some (.live fr) → Freed s f fr

theorem init_accounted : Accounted (St.init : St V E) where
  unbuilt := fun _ _ => rfl
  release := fun _ _ _ h => nomatch h
  freed := fun _ _ h => nomatch h

theorem Accounted.not_leaked {s : St V E} (hacc : Accounted s) (f : FrameId) : ¬ Leaked s f := by
  intro h
  rcases phaseOf_eq_some.mp h.finished with ⟨fr, hf, hph⟩
  rcases hacc.freed f fr hf with ⟨t, ht⟩ | ⟨-, hdone, -⟩
  · exact h.noTask t _ ht rfl
  · exact hdone hph

/-! ## What keeps it so -/

theorem St.frame_eq_ok {s : St V E} {f : FrameId} {fr : Frame V E} (h : s.frame f = .ok fr) :
    s.frames f = some (.live fr) := by
  unfold St.frame at h
  split at h <;> simp_all

theorem St.destroyFrame_eq_ok {s s' : St V E} {f : FrameId} (h : s.destroyFrame f = .ok s') :
    s' = { s with frames := update s.frames f (some .destroyed) } := by
  unfold St.destroyFrame at h
  split at h <;> simp_all

/-- A change of one frame that somebody still frees. -/
theorem setFrame_accounted {s : St V E} (hacc : Accounted s) {f : FrameId} (fr : Frame V E)
    (hrel : ∀ g, fr.releaseDetached = some g → g = f) (hfreed : Freed s f fr) :
    Accounted (s.setFrame f fr) where
  unbuilt := hacc.unbuilt
  release := by
    intro g fr' r hg hr
    rw [s.setFrame_frames] at hg
    by_cases hgf : g = f
    · rw [if_pos hgf] at hg
      cases hg
      exact (hrel r hr).trans hgf.symm
    · rw [if_neg hgf] at hg
      exact hacc.release g fr' r hg hr
  freed := by
    intro g fr' hg
    rw [s.setFrame_frames] at hg
    by_cases hgf : g = f
    · rw [if_pos hgf] at hg
      cases hg
      exact hgf ▸ hfreed
    · rw [if_neg hgf] at hg
      exact hacc.freed g fr' hg

/-- A change that leaves alone what decides who frees the frame. -/
theorem setFrame_accounted_of_eq {s : St V E} (hacc : Accounted s) {f : FrameId}
    {fr : Frame V E} (hf : s.frames f = some (.live fr)) (fr' : Frame V E)
    (hrel : fr'.releaseDetached = fr.releaseDetached) (hcont : fr'.continuation = fr.continuation)
    (hdone : fr'.phase = .done → fr.phase = .done) : Accounted (s.setFrame f fr') := by
  refine setFrame_accounted hacc fr' ?_ ?_
  · intro g hg
    exact hacc.release f fr g hf (hrel ▸ hg)
  · rcases hacc.freed f fr hf with hown | ⟨hr, hph, hc⟩
    · exact .inl hown
    · exact .inr ⟨hrel.trans hr, fun h => hph (hdone h), hcont.trans hc⟩

theorem destroyFrame_accounted {s s' : St V E} (hacc : Accounted s) {f : FrameId}
    (h : s.destroyFrame f = .ok s') : Accounted s' := by
  obtain rfl := St.destroyFrame_eq_ok h
  constructor
  · exact hacc.unbuilt
  · intro g fr r hg
    by_cases hgf : g = f
    · simp [hgf] at hg
    · exact hacc.release g fr r (by simpa [update_of_ne hgf] using hg)
  · intro g fr hg
    by_cases hgf : g = f
    · simp [hgf] at hg
    · exact hacc.freed g fr (by simpa [update_of_ne hgf] using hg)

/-- A task object goes away whose frame somebody else frees. -/
theorem setTask_accounted {s : St V E} (hacc : Accounted s) (t : TaskId) (obj : Option TaskObj)
    (hlt : obj ≠ none → s.tasks t ≠ none)
    (hfreed : ∀ f fr, s.tasks t = some ⟨some f, false⟩ → s.frames f = some (.live fr) →
      fr.releaseDetached = some f ∧ fr.phase ≠ .done ∧ fr.continuation = none) :
    Accounted { s with tasks := update s.tasks t obj } where
  unbuilt := by
    intro u hu
    by_cases hut : u = t
    · subst hut
      by_contra hne
      exact hlt (by simpa using hne) (hacc.unbuilt u hu)
    · simpa [update_of_ne hut] using hacc.unbuilt u hu
  release := hacc.release
  freed := by
    intro f fr hf
    rcases hacc.freed f fr hf with ⟨u, hu⟩ | hrel
    · by_cases hut : u = t
      · exact .inr (hfreed f fr (hut ▸ hu) hf)
      · exact .inl ⟨u, by simpa [update_of_ne hut] using hu⟩
    · exact .inr hrel

/-! ## Every step keeps it -/

theorem futureGet_eq_some {fr fr' : Frame V E} {got : Got V E}
    (h : fr.futureGet = some (got, fr')) :
    fr'.phase = fr.phase ∧ fr'.releaseDetached = fr.releaseDetached ∧
      fr'.continuation = fr.continuation := by
  unfold Frame.futureGet at h
  split at h
  · split at h
    · cases h
      exact ⟨rfl, rfl, rfl⟩
    · cases h
  · cases h
    exact ⟨rfl, rfl, rfl⟩

theorem awaitResume_accounted {s s' : St V E} {p c : FrameId} (hacc : Accounted s)
    (h : awaitResume s p c = .ok s') : Accounted s' := by
  rcases bind_eq_ok.mp h with ⟨fr, hfr, h⟩
  cases hget : fr.futureGet with
  | none =>
    rw [hget] at h
    cases h
    exact ⟨hacc.unbuilt, hacc.release, hacc.freed⟩
  | some r =>
    rcases r with ⟨got, fr'⟩
    simp only [hget] at h
    rcases bind_eq_ok.mp h with ⟨fp, hfp, h⟩
    cases h
    rcases futureGet_eq_some hget with ⟨hph, hr, hc⟩
    have hchild := setFrame_accounted_of_eq hacc (St.frame_eq_ok hfr) fr' hr hc (hph ▸ id)
    exact setFrame_accounted_of_eq hchild (St.frame_eq_ok hfp) _ rfl rfl (fun h => nomatch h)

theorem resume_accounted {s s' : St V E} {p : FrameId} (hacc : Accounted s)
    (h : resume s p = .ok s') : Accounted s' := by
  rcases bind_eq_ok.mp h with ⟨fp, hfp, h⟩
  cases hph : fp.phase with
  | awaiting c =>
    rw [hph] at h
    exact awaitResume_accounted hacc h
  | leaf =>
    simp only [hph] at h
    cases h
    exact setFrame_accounted_of_eq hacc (St.frame_eq_ok hfp) _ rfl rfl (fun h => nomatch h)
  | running =>
    rw [hph] at h
    cases h
  | returning =>
    rw [hph] at h
    cases h
  | done =>
    rw [hph] at h
    cases h

/-- At its final suspend point a frame stays with the task object that owns
it, or its awaiter frees it: a marked frame has no continuation. -/
theorem finalSuspend_accounted {s s' : St V E} {f : FrameId} (hacc : Accounted s)
    (h : finalSuspend s f = .ok s') : Accounted s' := by
  rcases bind_eq_ok.mp h with ⟨fr, hfr, h⟩
  have hf := St.frame_eq_ok hfr
  have hself := s.setFrame_frames_self f { fr with phase := .done }
  rcases hacc.freed f fr hf with hown | ⟨hr, -, hc⟩
  · have hdone : Accounted (s.setFrame f { fr with phase := .done }) :=
      setFrame_accounted hacc _ (hacc.release f fr · hf) (.inl hown)
    by_cases hc : fr.continuation = none
    · rw [finalAwaitSuspend_none _ hself hc] at h
      split at h
      · exact destroyFrame_accounted hdone h
      · cases h
        exact hdone
    · rcases Option.ne_none_iff_exists'.mp hc with ⟨p, hc⟩
      rw [finalAwaitSuspend_some _ hself hc] at h
      exact resume_accounted hdone h
  · rw [finalAwaitSuspend_none _ hself hc, hr] at h
    have heq : s' = { s with frames := update s.frames f (some .destroyed) } := by
      rw [St.destroyFrame_eq_ok h]
      simp [St.setFrame]
    have hdestroy : s.destroyFrame f = .ok s' := (St.destroyFrame_live hf).trans (heq ▸ rfl)
    exact destroyFrame_accounted hacc hdestroy

theorem coAwait_accounted {s s' : St V E} {p h : FrameId} (hacc : Accounted s)
    (hcare : ∀ fr, s.frames h = some (.live fr) → fr.phase ≠ .done → fr.releaseDetached = none)
    (hs : coAwait s p h = .ok s') : Accounted s' := by
  rcases bind_eq_ok.mp hs with ⟨fr, hfr, hs⟩
  have hf := St.frame_eq_ok hfr
  by_cases hph : fr.phase = .done
  · rw [if_pos hph] at hs
    have hmarked := setFrame_accounted_of_eq hacc hf { fr with coAwaited := true } rfl rfl id
    exact awaitResume_accounted hmarked hs
  · rw [if_neg hph] at hs
    rcases bind_eq_ok.mp hs with ⟨fp, hfp, hs⟩
    cases hs
    have hown : Freed s h { fr with coAwaited := true, continuation := some p } := by
      rcases hacc.freed h fr hf with hown | ⟨hr, -⟩
      · exact .inl hown
      · rw [hcare fr hf hph] at hr
        cases hr
    have hchild : Accounted
        (s.setFrame h { fr with coAwaited := true, continuation := some p }) :=
      setFrame_accounted hacc _ (hacc.release h fr · hf) hown
    exact setFrame_accounted_of_eq hchild (St.frame_eq_ok hfp) { fp with phase := .awaiting h }
      rfl rfl (fun h => nomatch h)

theorem call_accounted {s : St V E} (hacc : Accounted s) : Accounted (call s) where
  unbuilt := by
    intro t (ht : s.nextTask < t)
    simpa [call, update_of_ne (Nat.ne_of_gt ht)] using hacc.unbuilt t (Nat.le_of_lt ht)
  release := by
    intro f fr g hf hr
    by_cases hff : f = s.nextFrame
    · subst hff
      obtain rfl : Frame.fresh = fr := by simpa [call] using hf
      cases hr
    · exact hacc.release f fr g (by simpa [call, update_of_ne hff] using hf) hr
  freed := by
    intro f fr hf
    by_cases hff : f = s.nextFrame
    · exact .inl ⟨s.nextTask, by simp [call, hff]⟩
    · rcases hacc.freed f fr (by simpa [call, update_of_ne hff] using hf) with ⟨t, ht⟩ | hrel
      · have hne : t ≠ s.nextTask := by
          rintro rfl
          rw [hacc.unbuilt _ (Nat.le_refl _)] at ht
          cases ht
        exact .inl ⟨t, by simpa [call, update_of_ne hne] using ht⟩
      · exact .inr hrel

theorem moveTask_accounted {s : St V E} (hacc : Accounted s) {t : TaskId} {obj : TaskObj}
    (ht : s.tasks t = some obj) : Accounted (moveTask s t obj) where
  unbuilt := by
    intro u (hu : s.nextTask < u)
    have hnone := hacc.unbuilt u (Nat.le_of_lt hu)
    have hne : u ≠ t := by
      rintro rfl
      rw [hnone] at ht
      cases ht
    simpa [moveTask, St.setTask, update_of_ne (Nat.ne_of_gt hu), update_of_ne hne] using hnone
  release := hacc.release
  freed := by
    intro f fr hf
    rcases hacc.freed f fr hf with ⟨u, hu⟩ | hrel
    · by_cases hut : u = t
      · obtain rfl : obj = ⟨some f, false⟩ := Option.some.inj (ht.symm.trans (hut ▸ hu))
        exact .inl ⟨s.nextTask, by simp [moveTask, St.setTask]⟩
      · have hne : u ≠ s.nextTask := by
          rintro rfl
          rw [hacc.unbuilt _ (Nat.le_refl _)] at hu
          cases hu
        exact .inl ⟨u, by simpa [moveTask, St.setTask, update_of_ne hne, update_of_ne hut] using hu⟩
    · exact .inr hrel

/-- A task object hands its frame to the frame's own final awaiter, which will
free it: the coroutine has not finished and nobody awaits it. -/
theorem giveUp_accounted {s : St V E} (hacc : Accounted s) {t : TaskId} {h : FrameId}
    (ht : s.tasks t = some ⟨some h, false⟩) (obj : Option TaskObj) (fr : Frame V E)
    (hr : fr.releaseDetached = some h) (hph : fr.phase ≠ .done) (hc : fr.continuation = none) :
    Accounted { s.setFrame h fr with tasks := update s.tasks t obj } := by
  have hmarked : Accounted (s.setFrame h fr) :=
    setFrame_accounted hacc fr (fun g hg => Option.some.inj (hg.symm.trans hr))
      (.inr ⟨hr, hph, hc⟩)
  refine setTask_accounted hmarked t obj (fun _ hnone => ?_) ?_
  · rw [show s.tasks t = none from hnone] at ht
    cases ht
  · intro f fr' ht' hf'
    obtain rfl : h = f := by
      have := ht.symm.trans ht'
      simpa using this
    obtain rfl : fr = fr' := by simpa using hf'
    exact ⟨hr, hph, hc⟩

theorem detach_accounted {s s' : St V E} {t : TaskId} {h : FrameId} (hacc : Accounted s)
    (ht : s.tasks t = some ⟨some h, false⟩)
    (hcare : ∀ fr, s.frames h = some (.live fr) → fr.phase ≠ .done ∧ fr.continuation = none)
    (hs : detach s t h = .ok s') : Accounted s' := by
  rcases bind_eq_ok.mp hs with ⟨fr, hfr, hs⟩
  cases hs
  rcases hcare fr (St.frame_eq_ok hfr) with ⟨hph, hc⟩
  exact giveUp_accounted hacc ht _ (fr.setDetachedTask h) rfl hph hc

/-- A `~task` that does not come back leaves the task object in place, as the
owner of its frame. -/
theorem stop_accounted {s : St V E} (hacc : Accounted s) {t : TaskId} {h : FrameId}
    (ht : s.tasks t = some ⟨some h, false⟩) (fr : Frame V E)
    (hr : fr.releaseDetached = some h) (thread : Thread) :
    Accounted { s.setFrame h fr with thread := thread } := by
  have hmarked : Accounted (s.setFrame h fr) :=
    setFrame_accounted hacc fr (fun g hg => Option.some.inj (hg.symm.trans hr)) (.inl ⟨t, ht⟩)
  exact ⟨hmarked.unbuilt, hmarked.release, hmarked.freed⟩

theorem destroyOwned_accounted {s s' : St V E} {t : TaskId} {h : FrameId} (hacc : Accounted s)
    (ht : s.tasks t = some ⟨some h, false⟩)
    (hcare : ∀ fr, s.frames h = some (.live fr) → fr.phase ≠ .done → fr.getReturns = true →
      fr.continuation = none)
    (hs : destroyOwned s t h = .ok s') : Accounted s' := by
  rcases bind_eq_ok.mp hs with ⟨fr, hfr, hs⟩
  have hf := St.frame_eq_ok hfr
  by_cases hph : fr.phase = .done
  · rw [if_pos hph] at hs
    rcases bind_eq_ok.mp hs with ⟨s₁, hs₁, hs⟩
    cases hs
    have hfreed := destroyFrame_accounted hacc hs₁
    obtain rfl := St.destroyFrame_eq_ok hs₁
    refine setTask_accounted hfreed t none (fun h => absurd rfl h) ?_
    intro f fr' ht' hf'
    obtain rfl : h = f := by
      have := ht.symm.trans ht'
      simpa using this
    simp at hf'
  · rw [if_neg hph] at hs
    have hsame : (fr.setDetachedTask h).futureGet = none ∨ ∃ got fr',
        (fr.setDetachedTask h).futureGet = some (got, fr') ∧ fr'.phase = fr.phase ∧
          fr'.releaseDetached = some h ∧ fr'.continuation = fr.continuation := by
      cases hget : (fr.setDetachedTask h).futureGet with
      | none => exact .inl rfl
      | some r => exact .inr ⟨r.1, r.2, rfl, futureGet_eq_some hget⟩
    rcases hsame with hget | ⟨got, fr', hget, hph', hr', hc'⟩
    · simp only [hget] at hs
      cases hs
      exact stop_accounted hacc ht _ rfl .blocked
    · have hreturns : (got = .outcome .void ∨ ∃ v, got = .outcome (.value v)) →
          fr.getReturns = true := by
        intro hgot
        unfold Frame.getReturns
        unfold Frame.futureGet at hget ⊢
        simp only [Frame.setDetachedTask] at hget
        grind
      simp only [hget] at hs
      split at hs
      all_goals rename_i heq
      all_goals cases heq
      all_goals cases hs
      · have hc := hcare fr hf hph (hreturns (.inr ⟨_, rfl⟩))
        exact giveUp_accounted hacc ht none fr' hr' (hph' ▸ hph) (hc'.trans hc)
      · have hc := hcare fr hf hph (hreturns (.inl rfl))
        exact giveUp_accounted hacc ht none fr' hr' (hph' ▸ hph) (hc'.trans hc)
      · exact stop_accounted hacc ht fr' hr' .terminated
      · exact stop_accounted hacc ht fr' hr' .terminated

theorem step_accounted {s s' : St V E} {a : Act V E} (hacc : Accounted s)
    (hcare : Careful s a) (h : next s a = some s') : Accounted s' := by
  rcases Lts.guarded_eq_some_iff.mp h with ⟨⟨-, hen⟩, hs⟩
  cases a with
  | call =>
    obtain rfl := Except.ok.inj hs
    exact call_accounted hacc
  | suspend f =>
    rcases bind_eq_ok.mp hs with ⟨fr, hfr, hs⟩
    cases hs
    have hset := setFrame_accounted_of_eq hacc (St.frame_eq_ok hfr) { fr with phase := .leaf }
      rfl rfl (fun h => nomatch h)
    exact ⟨hset.unbuilt, hset.release, hset.freed⟩
  | resume f =>
    exact resume_accounted (s := { s with leaves := s.leaves.erase f })
      ⟨hacc.unbuilt, hacc.release, hacc.freed⟩ hs
  | coReturn f o =>
    rcases bind_eq_ok.mp hs with ⟨fr, hfr, hs⟩
    cases hs
    exact setFrame_accounted_of_eq hacc (St.frame_eq_ok hfr) _ rfl rfl (fun h => nomatch h)
  | finalSuspend f => exact finalSuspend_accounted hacc hs
  | coAwait p t =>
    rcases hen with ⟨-, ⟨h, detached⟩, ht, -⟩
    replace ht : s.tasks t = some ⟨h, detached⟩ := ht
    cases h with
    | none =>
      simp only [step, ht] at hs
      cases hs
    | some h =>
      simp only [step, ht] at hs
      exact coAwait_accounted hacc
        (fun fr hf => hcare _ ht h rfl fr (St.live_eq_some.mpr hf)) hs
  | moveTask t =>
    rcases Option.ne_none_iff_exists'.mp hen with ⟨obj, ht⟩
    simp only [step, ht] at hs
    obtain rfl := Except.ok.inj hs
    exact moveTask_accounted hacc ht
  | detach t =>
    rcases hen with ⟨⟨h, detached⟩, ht, hd⟩
    obtain rfl : detached = false := hd
    replace ht : s.tasks t = some ⟨h, false⟩ := ht
    cases h with
    | none =>
      simp only [step, ht] at hs
      cases hs
    | some h =>
      simp only [step, ht] at hs
      exact detach_accounted hacc ht
        (fun fr hf => hcare _ ht h rfl fr (St.live_eq_some.mpr hf)) hs
  | destroyTask t =>
    rcases Option.ne_none_iff_exists'.mp hen with ⟨⟨h, detached⟩, ht⟩
    simp only [step, ht, destroyTask] at hs
    cases detached with
    | true =>
      obtain rfl := Except.ok.inj hs
      refine setTask_accounted hacc t none (fun h => absurd rfl h) ?_
      intro f fr ht'
      rw [ht] at ht'
      cases ht'
    | false =>
      cases h with
      | none => cases hs
      | some h =>
        exact destroyOwned_accounted hacc ht
          (fun fr hf => hcare _ ht rfl h rfl fr (St.live_eq_some.mpr hf)) hs

/-! ## The theorem about whole runs -/

/-- In every run whose steps are `Careful` no frame is leaked: it has been
destroyed as soon as its coroutine has finished, its task object is gone and
nobody awaits it. -/
theorem no_leak (as : List (Act V E)) {s : St V E}
    (hcare : Lts.StepsMeet next Careful St.init as) (hrun : Lts.run next St.init as = some s)
    (f : FrameId) : ¬ Leaked s f :=
  (Lts.run_invariant Accounted (fun _ _ _ hacc hcare hs => step_accounted hacc hcare hs)
    init_accounted hcare hrun).not_leaked f

/-- A detached coroutine that is suspended when `detach` is called is freed by
its own final awaiter. -/
theorem no_leak_detached :
    ∃ s, Lts.run (next (V := Nat) (E := Nat)) St.init
        [.call, .suspend 0, .detach 0, .destroyTask 0, .resume 0, .coReturn 0 (.value 3),
          .finalSuspend 0] = some s ∧ ¬ Leaked s 0 := by
  obtain ⟨s, h⟩ : ∃ s, Lts.run (next (V := Nat) (E := Nat)) St.init
      [.call, .suspend 0, .detach 0, .destroyTask 0, .resume 0, .coReturn 0 (.value 3),
        .finalSuspend 0] = some s := ⟨_, rfl⟩
  exact ⟨s, h, no_leak _ (by decide) h 0⟩

/-- A coroutine that finishes before its caller gets the task object, is
detached then and its task object destroyed: every use of the task object is
allowed, and the frame is never freed. -/
theorem leak_of_detach_done :
    ¬ ∀ (as : List (Act Nat Nat)) (s : St Nat Nat), Lts.StepsMeet next Contract St.init as →
      Lts.run next St.init as = some s → ∀ f, ¬ Leaked s f := by
  intro hall
  refine hall [.call, .coReturn 0 .void, .finalSuspend 0, .detach 0, .destroyTask 0] _
    (by decide) rfl 0 ⟨by decide, ?_, ?_⟩
  · intro t obj hobj
    cases t with
    | zero => cases hobj
    | succ t => cases hobj
  · intro p
    cases p with
    | zero => decide
    | succ p => exact nofun

end Ucxpp.TaskRun
