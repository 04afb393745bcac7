import Ucxpp.TaskLifetime

/-!
# TaskUnwind — coroutines that own tasks and leave their bodies

The frame machine of `Task` with the owner of every task object: the coroutine
whose local variable or vector element it is, or the code outside. When a value is
returned or an exception leaves the body, the coroutine destroys what it still owns
on its way to the final suspend point, and nothing else runs on the thread in
between. An exception that a `co_await` threw is one of these.

`~task` waits for a coroutine that has not finished, which on this thread is forever
(`Thread.blocked`). So a coroutine leaves its body exactly if all the tasks it still
owns have finished.
-/

namespace Ucxpp.TaskUnwind

open Function (update update_self update_of_ne)
open TaskRun (FrameId TaskId Outcome Phase Frame St Contract phaseOf)

variable {V E : Type}

/-- The thread, and who owns which task objects; `none` is the code outside. -/
structure State (V E : Type) where
  st : St V E
  owns : Option FrameId → List TaskId

def State.init : State V E where
  st := St.init
  owns := fun _ => []

/-- The owner runs. -/
def Runs (st : St V E) : Option FrameId → Prop
  | none => True
  | some p => phaseOf st p = some .running

instance (st : St V E) : ∀ p, Decidable (Runs st p)
  | none => inferInstanceAs (Decidable True)
  | some p => inferInstanceAs (Decidable (phaseOf st p = some .running))

/-- The destructors of task objects one after another, up to one that does not
return. -/
def destroyAll (st : St V E) : List TaskId → Option (St V E)
  | [] => some st
  | t :: ts =>
    (TaskRun.next st (.destroyTask t)).bind fun st =>
      -- a destructor that waits keeps the later ones from running
      if st.thread = .running then destroyAll st ts else some st

/-- The promise is set and the final suspend point is reached. -/
def finish (st : St V E) (p : FrameId) (o : Outcome V E) : Option (St V E) :=
  (TaskRun.next st (.coReturn p o)).bind fun st => TaskRun.next st (.finalSuspend p)

/-- The coroutine leaves its body: `co_return` sets the promise first, while an
exception reaches `unhandled_exception` after the body has been unwound. -/
def leave (st : St V E) (p : FrameId) (o : Outcome V E) (tasks : List TaskId) :
    Option (St V E) :=
  match o with
  | .exception _ =>
    (destroyAll st tasks).bind fun st =>
      if st.thread = .running then finish st p o else some st
  | .value _ | .void =>
    (TaskRun.next st (.coReturn p o)).bind fun st =>
      (destroyAll st tasks).bind fun st =>
        if st.thread = .running then TaskRun.next st (.finalSuspend p) else some st

/-- `drop` is the end of an inner scope; `leave` destroys the tasks that are left in
the given order. -/
inductive Act (V E : Type) where
  | call (p : Option FrameId)
  | suspend (f : FrameId)
  | resume (f : FrameId)
  | coAwait (p : FrameId) (t : TaskId)
  | moveTask (p : Option FrameId) (t : TaskId)
  | detach (p : Option FrameId) (t : TaskId)
  | drop (p : Option FrameId) (t : TaskId)
  | leave (p : FrameId) (o : Outcome V E) (tasks : List TaskId)
deriving DecidableEq, Repr

def State.give (s : State V E) (p : Option FrameId) (t : TaskId) : Option FrameId → List TaskId :=
  update s.owns p (s.owns p ++ [t])

/-- One step, if it can happen. A task is awaited once at most, by its owner. -/
def step (s : State V E) : Act V E → Option (State V E)
  | .call p =>
    if Runs s.st p then
      (TaskRun.next s.st .call).map fun st => ⟨st, s.give p s.st.nextTask⟩
    else none
  | .suspend f => (TaskRun.next s.st (.suspend f)).map fun st => ⟨st, s.owns⟩
  | .resume f => (TaskRun.next s.st (.resume f)).map fun st => ⟨st, s.owns⟩
  | .coAwait p t =>
    if t ∈ s.owns (some p) ∧ Contract s.st (.coAwait p t) then
      (TaskRun.next s.st (.coAwait p t)).map fun st => ⟨st, s.owns⟩
    else none
  | .moveTask p t =>
    if Runs s.st p ∧ t ∈ s.owns p ∧ Contract s.st (.moveTask t) then
      (TaskRun.next s.st (.moveTask t)).map fun st => ⟨st, s.give p s.st.nextTask⟩
    else none
  | .detach p t =>
    if Runs s.st p ∧ t ∈ s.owns p then
      (TaskRun.next s.st (.detach t)).map fun st => ⟨st, s.owns⟩
    else none
  | .drop p t =>
    if Runs s.st p ∧ t ∈ s.owns p then
      (TaskRun.next s.st (.destroyTask t)).map fun st =>
        ⟨st, update s.owns p ((s.owns p).erase t)⟩
    else none
  | .leave p o tasks =>
    if s.st.thread = .running ∧ phaseOf s.st p = some .running ∧
        tasks.Perm (s.owns (some p)) then
      (leave s.st p o tasks).map fun st => ⟨st, update s.owns (some p) []⟩
    else none

/-- `~task` has nothing to wait for: the object was moved from or detached, or its
coroutine has finished. -/
def Finished (st : St V E) (t : TaskId) : Prop :=
  ∀ h, st.tasks t = some ⟨some h, false⟩ → phaseOf st h = some .done

instance (st : St V E) (t : TaskId) : Decidable (Finished st t) :=
  decidable_of_iff
    (∀ obj ∈ st.tasks t, ∀ h ∈ obj.h, obj.detached = false → phaseOf st h = some .done) <| by
    unfold Finished
    constructor
    · exact fun hfin h ht => hfin _ ht h rfl rfl
    · rintro hfin ⟨h', detached⟩ ht h hh hd
      cases Option.mem_def.mp hh
      cases hd
      exact hfin h ht

/-- The tasks that a step destroys have finished. -/
def TasksFinished (s : State V E) : Act V E → Prop
  | .drop _ t => Finished s.st t
  | .leave p _ _ => ∀ t ∈ s.owns (some p), Finished s.st t
  | .call _ | .suspend _ | .resume _ | .coAwait .. | .moveTask .. | .detach .. => True

instance (s : State V E) (a : Act V E) : Decidable (TasksFinished s a) := by
  cases a <;> unfold TasksFinished <;> infer_instance

/-! ## The invariant -/

/-- A coroutine that has not finished has no result yet. -/
def NoResult (fr : Frame V E) : Prop :=
  fr.phase ≠ .returning ∧ (fr.phase ≠ .done → fr.promise = none ∧ fr.futureValid = true)

/-- No coroutine but `p` is on its way to its final suspend point. -/
def QuietBut (p : Option FrameId) (st : St V E) : Prop :=
  ∀ f fr, some f ≠ p → st.frames f = some (.live fr) → NoResult fr

/-- The task objects that exist have one owner each, which is not their own
coroutine. -/
structure Inv (s : State V E) : Prop where
  machine : TaskRun.Inv s.st
  quiet : QuietBut none s.st
  exist : ∀ p, ∀ t ∈ s.owns p, s.st.tasks t ≠ none
  nodup : ∀ p, (s.owns p).Nodup
  apart : ∀ p q t, t ∈ s.owns p → t ∈ s.owns q → p = q
  child : ∀ p, ∀ t ∈ s.owns (some p), s.st.tasks t ≠ some ⟨some p, false⟩

theorem init_inv : Inv (State.init : State V E) where
  machine := TaskRun.init_inv
  quiet := fun _ _ _ h => nomatch h
  exist := fun _ _ h => nomatch h
  nodup := fun _ => List.nodup_nil
  apart := fun _ _ _ h => nomatch h
  child := fun _ _ h => nomatch h

section

variable {st st' : St V E} {p : FrameId} {t : TaskId}

theorem NoResult.of_done {fr : Frame V E} (h : fr.phase = .done) : NoResult fr := by
  refine ⟨fun h' => ?_, fun hne => absurd h hne⟩
  cases h.symm.trans h'

/-- A coroutine that has not finished stays without a result while neither its promise
nor its future is touched. -/
theorem NoResult.of_eq {fr fr' : Frame V E} (h : NoResult fr) (hdone : fr.phase ≠ .done)
    (hph : fr'.phase ≠ .returning) (hpromise : fr'.promise = fr.promise)
    (hvalid : fr'.futureValid = fr.futureValid) : NoResult fr' := by
  refine ⟨hph, fun _ => ?_⟩
  rw [hpromise, hvalid]
  exact h.2 hdone

theorem QuietBut.setFrame {q : Option FrameId} (hq : QuietBut q st) {f : FrameId}
    {fr : Frame V E} (hfr : some f ≠ q → NoResult fr) : QuietBut q (st.setFrame f fr) := by
  intro g fr' hne hg
  rw [St.setFrame_frames] at hg
  split at hg
  · next hgf =>
    subst hgf
    cases hg
    exact hfr hne
  · exact hq g fr' hne hg

/-- An enabled action that keeps to the contract happens. -/
theorem next_spec {a : TaskRun.Act V E} (hinv : TaskRun.Inv st) (hen : TaskRun.Enabled st a)
    (hcon : Contract st a) : ∃ st', TaskRun.next st a = some st' ∧ TaskRun.Effect st a st' := by
  rcases TaskRun.step_spec hinv hen hcon with ⟨st', hs, heff⟩
  exact ⟨st', Lts.guarded_eq_some_iff.mpr ⟨hen, hs⟩, heff⟩

theorem next_effect {a : TaskRun.Act V E} (hinv : TaskRun.Inv st) (hcon : Contract st a)
    (hnext : TaskRun.next st a = some st') : TaskRun.Effect st a st' := by
  have hen := (Lts.guarded_eq_some_iff.mp hnext).1
  rcases next_spec hinv hen hcon with ⟨st₁, hnext₁, heff⟩
  cases hnext.symm.trans hnext₁
  exact heff

/-! ## Destructors -/

/-- A destructor that has returned: the object is gone, and the frame that it owned. -/
structure Destroyed (st : St V E) (t : TaskId) (st' : St V E) : Prop where
  thread : st'.thread = .running
  tasks : ∀ u, st'.tasks u = if u = t then none else st.tasks u
  live : ∀ f fr, st'.frames f = some (.live fr) → st.frames f = some (.live fr)
  kept : ∀ f, st.tasks t ≠ some ⟨some f, false⟩ → st'.frames f = st.frames f

theorem finished_iff_of_owned {h : FrameId} {fr : Frame V E}
    (ht : st.tasks t = some ⟨some h, false⟩) (hf : st.frames h = some (.live fr)) :
    Finished st t ↔ fr.phase = .done := by
  constructor
  · intro hfin
    rcases TaskRun.phaseOf_eq_some.mp (hfin h ht) with ⟨fr', hf', hph⟩
    cases hf.symm.trans hf'
    exact hph
  · intro hph h' ht'
    cases ht.symm.trans ht'
    exact TaskRun.phaseOf_eq_some.mpr ⟨fr, hf, hph⟩

/-- `~task` returns if the task has finished, and waits for good if not. -/
theorem destroyTask_spec (hinv : TaskRun.Inv st) (hthread : st.thread = .running)
    (hexist : st.tasks t ≠ none)
    (hquiet : ∀ h fr, st.tasks t = some ⟨some h, false⟩ → st.frames h = some (.live fr) →
      NoResult fr) :
    ∃ st', TaskRun.next st (.destroyTask t) = some st' ∧
      (Finished st t ∧ Destroyed st t st' ∨ ¬Finished st t ∧ st'.thread = .blocked) := by
  rcases next_spec hinv (a := .destroyTask t) ⟨hthread, hexist⟩ trivial with ⟨st', hnext, -⟩
  refine ⟨st', hnext, ?_⟩
  rcases Lts.guarded_eq_some_iff.mp hnext with ⟨-, hs⟩
  rcases Option.ne_none_iff_exists'.mp hexist with ⟨⟨h, detached⟩, ht⟩
  simp only [TaskRun.step, ht, TaskRun.destroyTask] at hs
  cases detached with
  | true =>
    cases hs
    refine .inl ⟨fun h' ht' => ?_, hthread, fun u => Function.update_apply ..,
      fun _ _ h => h, fun _ _ => rfl⟩
    cases ht.symm.trans ht'
  | false =>
    rcases Option.ne_none_iff_exists'.mp (hinv.held t h ht) with ⟨f, rfl⟩
    rcases hinv.owned t f ht with ⟨fr, hf, -⟩
    simp only [Bool.false_eq_true, if_false, TaskRun.destroyOwned, TaskRun.St.frame_live hf,
      Lts.ok_bind] at hs
    rw [finished_iff_of_owned ht hf]
    by_cases hph : fr.phase = .done
    · refine .inl ⟨hph, ?_⟩
      rw [if_pos hph, TaskRun.St.destroyFrame_live hf, Lts.ok_bind] at hs
      cases hs
      refine ⟨hthread, fun u => Function.update_apply .., fun g fr' hg => ?_, fun g hne => ?_⟩
      · by_cases hgf : g = f
        · subst hgf
          cases (update_self ..).symm.trans hg
        · exact (update_of_ne hgf ..).symm.trans hg
      · exact update_of_ne (fun (e : g = f) => hne (e ▸ ht)) ..
    · refine .inr ⟨hph, ?_⟩
      -- the promise is not set, so that `get` waits
      rcases (hquiet f fr ht hf).2 hph with ⟨hpromise, hvalid⟩
      have hget : (fr.setDetachedTask f).futureGet = none := by
        simp only [TaskRun.Frame.futureGet, TaskRun.Frame.setDetachedTask, hvalid, hpromise,
          if_true]
      rw [if_neg hph] at hs
      simp only [hget] at hs
      cases hs
      rfl

theorem Destroyed.tasks_some (hd : Destroyed st t st') {u : TaskId} {obj : TaskRun.TaskObj}
    (hu : st'.tasks u = some obj) : st.tasks u = some obj := by
  rw [hd.tasks] at hu
  split at hu
  · cases hu
  · exact hu

/-- Whether a task has finished depends on its object and its coroutine only. -/
theorem finished_congr {u : TaskId} (htask : st'.tasks u = st.tasks u)
    (hframe : ∀ h, st.tasks u = some ⟨some h, false⟩ → st'.frames h = st.frames h) :
    Finished st' u ↔ Finished st u := by
  unfold Finished
  rw [htask]
  refine forall_congr' fun h => ?_
  constructor
  · intro hfin hu
    rw [← hfin hu, phaseOf, phaseOf, St.live, St.live, hframe h hu]
  · intro hfin hu
    rw [← hfin hu, phaseOf, phaseOf, St.live, St.live, hframe h hu]

theorem Destroyed.finished_iff (hinv : TaskRun.Inv st) (hd : Destroyed st t st') {u : TaskId}
    (hne : u ≠ t) : Finished st' u ↔ Finished st u := by
  apply finished_congr
  · exact (hd.tasks u).trans (if_neg hne)
  · exact fun h hu => hd.kept h fun ht => hne (hinv.unique u t h hu ht)

/-- Destructors that have all returned. -/
structure Unwound (st : St V E) (ts : List TaskId) (st' : St V E) : Prop where
  thread : st'.thread = .running
  machine : TaskRun.Inv st'
  tasks : ∀ u obj, st'.tasks u = some obj → st.tasks u = some obj
  others : ∀ u, u ∉ ts → st'.tasks u = st.tasks u
  live : ∀ f fr, st'.frames f = some (.live fr) → st.frames f = some (.live fr)
  kept : ∀ f, (∀ t ∈ ts, st.tasks t ≠ some ⟨some f, false⟩) → st'.frames f = st.frames f

theorem Unwound.cons {st₁ : St V E} {ts : List TaskId} (hd : Destroyed st t st₁)
    (hun : Unwound st₁ ts st') : Unwound st (t :: ts) st' where
  thread := hun.thread
  machine := hun.machine
  tasks := fun u obj hu => hd.tasks_some (hun.tasks u obj hu)
  others := by
    intro u hu
    rcases not_or.mp (fun h => hu (List.mem_cons.mpr h)) with ⟨hne, hmem⟩
    rw [hun.others u hmem, hd.tasks, if_neg hne]
  live := fun f fr hf => hd.live f fr (hun.live f fr hf)
  kept := by
    intro f hf
    have hrest : ∀ u ∈ ts, st₁.tasks u ≠ some ⟨some f, false⟩ := fun u hu htask =>
      hf u (List.mem_cons_of_mem _ hu) (hd.tasks_some htask)
    exact (hun.kept f hrest).trans (hd.kept f (hf t List.mem_cons_self))

/-- The destructors all return iff the tasks have finished before the first of them. -/
theorem destroyAll_spec {ts : List TaskId} (hinv : TaskRun.Inv st)
    (hthread : st.thread = .running) (hexist : ∀ t ∈ ts, st.tasks t ≠ none) (hnodup : ts.Nodup)
    (hquiet : ∀ t ∈ ts, ∀ h fr, st.tasks t = some ⟨some h, false⟩ →
      st.frames h = some (.live fr) → NoResult fr) :
    ∃ st', destroyAll st ts = some st' ∧
      ((∀ t ∈ ts, Finished st t) ∧ Unwound st ts st' ∨
        ¬(∀ t ∈ ts, Finished st t) ∧ st'.thread = .blocked) := by
  induction ts generalizing st with
  | nil =>
    refine ⟨st, rfl, .inl ⟨fun _ h => (by cases h), ?_⟩⟩
    exact ⟨hthread, hinv, fun _ _ h => h, fun _ _ => rfl, fun _ _ h => h, fun _ _ => rfl⟩
  | cons t ts ih =>
    rw [List.forall_mem_cons] at hexist ⊢
    rcases List.nodup_cons.mp hnodup with ⟨hmem, hnodup⟩
    rcases destroyTask_spec hinv hthread hexist.1 (hquiet t List.mem_cons_self) with
      ⟨st₁, hnext, ⟨hfin, hd⟩ | ⟨hnot, hblocked⟩⟩
    · have hinv₁ : TaskRun.Inv st₁ :=
        TaskRun.step_inv (fun _ => hinv) (a := .destroyTask t) trivial hnext hd.thread
      -- the first destructor has returned and left the other tasks alone
      have hne : ∀ u ∈ ts, u ≠ t := fun u hu e => hmem (e ▸ hu)
      have hexist₁ : ∀ u ∈ ts, st₁.tasks u ≠ none := by
        intro u hu
        rw [hd.tasks, if_neg (hne u hu)]
        exact hexist.2 u hu
      have hquiet₁ : ∀ u ∈ ts, ∀ h fr, st₁.tasks u = some ⟨some h, false⟩ →
          st₁.frames h = some (.live fr) → NoResult fr := fun u hu h fr htask hframe =>
        hquiet u (List.mem_cons_of_mem _ hu) h fr (hd.tasks_some htask) (hd.live h fr hframe)
      have hsame : (∀ u ∈ ts, Finished st₁ u) ↔ ∀ u ∈ ts, Finished st u :=
        forall₂_congr fun u hu => hd.finished_iff hinv (hne u hu)
      rcases ih hinv₁ hd.thread hexist₁ hnodup hquiet₁ with ⟨st', hrest, hcases⟩
      refine ⟨st', ?_, ?_⟩
      · rw [destroyAll, hnext, Option.bind_some, if_pos hd.thread]
        exact hrest
      · rw [hsame] at hcases
        rw [and_iff_right hfin]
        exact hcases.imp (And.imp_right (Unwound.cons hd)) id
    · -- the first destructor waits: the others are not called
      have hstop : st₁.thread ≠ .running := fun h => by cases hblocked.symm.trans h
      refine ⟨st₁, ?_, .inr ⟨fun h => hnot h.1, hblocked⟩⟩
      rw [destroyAll, hnext, Option.bind_some, if_neg hstop]

/-! ## Leaving a body -/

/-- The promise has been set, and nothing else has changed. -/
structure Returned (st : St V E) (p : FrameId) (st' : St V E) : Prop where
  thread : st'.thread = .running
  machine : TaskRun.Inv st'
  quiet : QuietBut (some p) st'
  phase : phaseOf st' p = some .returning
  tasks : st'.tasks = st.tasks
  kept : ∀ f, f ≠ p → st'.frames f = st.frames f

theorem coReturn_spec (hinv : TaskRun.Inv st) (hthread : st.thread = .running)
    (hquiet : QuietBut none st) (hp : phaseOf st p = some .running) (o : Outcome V E) :
    ∃ st', TaskRun.next st (.coReturn p o) = some st' ∧ Returned st p st' := by
  rcases next_spec hinv (a := .coReturn p o) ⟨hthread, hp⟩ trivial with ⟨st', hnext, heff⟩
  refine ⟨st', hnext, ?_⟩
  have hinv' := TaskRun.effect_inv hinv heff
  cases heff with
  | @coReturn _ fr _ hf hph =>
    have hself := st.setFrame_frames_self p { fr with phase := .returning, promise := some o }
    refine ⟨hthread, hinv' hthread, ?_, TaskRun.phaseOf_eq_some.mpr ⟨_, hself, rfl⟩, rfl,
      fun f hne => st.setFrame_frames_of_ne _ hne⟩
    apply QuietBut.setFrame
    · exact fun f fr _ hf => hquiet f fr nofun hf
    · exact fun hne => absurd rfl hne

/-- The final suspend point has been passed. -/
structure Ended (st st' : St V E) : Prop where
  thread : st'.thread = .running
  machine : TaskRun.Inv st'
  quiet : QuietBut none st'
  tasks : st'.tasks = st.tasks

theorem finalSuspend_spec (hinv : TaskRun.Inv st) (hthread : st.thread = .running)
    (hquiet : QuietBut (some p) st) (hp : phaseOf st p = some .returning) :
    ∃ st', TaskRun.next st (.finalSuspend p) = some st' ∧ Ended st st' := by
  rcases next_spec hinv (a := .finalSuspend p) ⟨hthread, hp⟩ trivial with ⟨st', hnext, heff⟩
  refine ⟨st', hnext, ?_⟩
  have hinv' := TaskRun.effect_inv hinv heff
  -- a finished frame in the place of `p` leaves nobody on the way
  have hdone : ∀ fr : Frame V E, fr.phase = .done → QuietBut none (st.setFrame p fr) := by
    intro fr hph g fr' _ hg
    rw [St.setFrame_frames] at hg
    split at hg
    · cases hg
      exact .of_done hph
    · next hgp => exact hquiet g fr' (fun e => hgp (Option.some.inj e)) hg
  cases heff with
  | finish hf hph hc hr => exact ⟨hthread, hinv' hthread, hdone _ rfl, rfl⟩
  | release hf hph hc hr =>
    refine ⟨hthread, hinv' hthread, fun g fr' _ hg => ?_, rfl⟩
    by_cases hgp : g = p
    · subst hgp
      cases (update_self ..).symm.trans hg
    · exact hquiet g fr' (fun e => hgp (Option.some.inj e)) ((update_of_ne hgp ..).symm.trans hg)
  | @handOver _ fr o q fq hf hph hc ho hq hqq =>
    -- the parent continues: it has no result, as it is not leaving its own body
    have hqp : some q ≠ some p := by
      rintro e
      cases e
      cases hf.symm.trans hq
      cases hph.symm.trans hqq
    have hquietq : NoResult fq := hquiet q fq hqp hq
    refine ⟨hthread, hinv' hthread, (hdone _ rfl).setFrame fun _ => ?_, rfl⟩
    exact hquietq.of_eq (by rw [hqq]; nofun) nofun rfl rfl

/-- A coroutine has left its body. -/
structure Left (st : St V E) (ts : List TaskId) (st' : St V E) : Prop where
  thread : st'.thread = .running
  machine : TaskRun.Inv st'
  quiet : QuietBut none st'
  tasks : ∀ u obj, st'.tasks u = some obj → st.tasks u = some obj
  others : ∀ u, u ∉ ts → st'.tasks u = st.tasks u

theorem QuietBut.mono {q : Option FrameId} (hq : QuietBut q st)
    (hlive : ∀ f fr, st'.frames f = some (.live fr) → st.frames f = some (.live fr)) :
    QuietBut q st' :=
  fun f fr hne hf => hq f fr hne (hlive f fr hf)

theorem phaseOf_congr {f : FrameId} (h : st'.frames f = st.frames f) :
    phaseOf st' f = phaseOf st f := by
  rw [phaseOf, phaseOf, St.live, St.live, h]

/-- A coroutine that has set its promise destroys its tasks. -/
theorem destroyAll_returned {st₁ : St V E} {ts : List TaskId} (hret : Returned st p st₁)
    (hexist : ∀ t ∈ ts, st.tasks t ≠ none) (hnodup : ts.Nodup)
    (hchild : ∀ t ∈ ts, st.tasks t ≠ some ⟨some p, false⟩) :
    ∃ st', destroyAll st₁ ts = some st' ∧
      ((∀ t ∈ ts, Finished st t) ∧ Unwound st₁ ts st' ∨
        ¬(∀ t ∈ ts, Finished st t) ∧ st'.thread = .blocked) := by
  have hnot : ∀ t ∈ ts, ∀ h, st.tasks t = some ⟨some h, false⟩ → h ≠ p := by
    rintro t ht h htask rfl
    exact hchild t ht htask
  have hsame : (∀ t ∈ ts, Finished st₁ t) ↔ ∀ t ∈ ts, Finished st t := by
    refine forall₂_congr fun t ht => finished_congr (congrFun hret.tasks t) ?_
    exact fun h htask => hret.kept h (hnot t ht h htask)
  rw [← hsame]
  apply destroyAll_spec hret.machine hret.thread
  · rw [hret.tasks]
    exact hexist
  · exact hnodup
  · intro t ht h fr htask hf
    rw [hret.tasks] at htask
    exact hret.quiet h fr (fun e => hnot t ht h htask (Option.some.inj e)) hf

section

variable {ts : List TaskId} (hinv : TaskRun.Inv st) (hthread : st.thread = .running)
  (hquiet : QuietBut none st) (hp : phaseOf st p = some .running)
  (hexist : ∀ t ∈ ts, st.tasks t ≠ none) (hnodup : ts.Nodup)
  (hchild : ∀ t ∈ ts, st.tasks t ≠ some ⟨some p, false⟩)

include hinv hthread hquiet hp hexist hnodup hchild

/-- An exception unwinds the body before it is caught. -/
theorem leave_exception (e : E) :
    ∃ st', leave st p (.exception e) ts = some st' ∧
      ((∀ t ∈ ts, Finished st t) ∧ Left st ts st' ∨
        ¬(∀ t ∈ ts, Finished st t) ∧ st'.thread = .blocked) := by
  rcases destroyAll_spec hinv hthread hexist hnodup
    (fun t _ h fr _ hf => hquiet h fr nofun hf) with ⟨st₁, h₁, ⟨hfin, hun⟩ | ⟨hnot, hblocked⟩⟩
  · have hphase : phaseOf st₁ p = some .running := by
      rw [phaseOf_congr (hun.kept p hchild)]
      exact hp
    rcases coReturn_spec hun.machine hun.thread (hquiet.mono hun.live) hphase
      (.exception e) with ⟨st₂, h₂, hret⟩
    rcases finalSuspend_spec hret.machine hret.thread hret.quiet hret.phase with ⟨st₃, h₃, hend⟩
    refine ⟨st₃, ?_, .inl ⟨hfin, hend.thread, hend.machine, hend.quiet, ?_, ?_⟩⟩
    · rw [leave, h₁, Option.bind_some, if_pos hun.thread, finish, h₂, Option.bind_some, h₃]
    · rw [hend.tasks, hret.tasks]
      exact hun.tasks
    · rw [hend.tasks, hret.tasks]
      exact hun.others
  · have hstop : st₁.thread ≠ .running := fun h => by cases hblocked.symm.trans h
    refine ⟨st₁, ?_, .inr ⟨hnot, hblocked⟩⟩
    rw [leave, h₁, Option.bind_some, if_neg hstop]

/-- A coroutine leaves its body iff the tasks that it still owns have finished; the
thread waits for good if not. -/
theorem leave_spec (o : Outcome V E) :
    ∃ st', leave st p o ts = some st' ∧
      ((∀ t ∈ ts, Finished st t) ∧ Left st ts st' ∨
        ¬(∀ t ∈ ts, Finished st t) ∧ st'.thread = .blocked) := by
  by_cases ho : ∃ e, o = .exception e
  · obtain ⟨e, rfl⟩ := ho
    exact leave_exception hinv hthread hquiet hp hexist hnodup hchild e
  have hleave : leave st p o ts = (TaskRun.next st (.coReturn p o)).bind fun st =>
      (destroyAll st ts).bind fun st =>
        if st.thread = .running then TaskRun.next st (.finalSuspend p) else some st := by
    cases o with
    | value v => rfl
    | void => rfl
    | exception e => exact absurd ⟨e, rfl⟩ ho
  rw [hleave]
  rcases coReturn_spec hinv hthread hquiet hp o with ⟨st₁, h₁, hret⟩
  rcases destroyAll_returned hret hexist hnodup hchild with
    ⟨st₂, h₂, ⟨hfin, hun⟩ | ⟨hnot, hblocked⟩⟩
  · have hphase : phaseOf st₂ p = some .returning := by
      rw [phaseOf_congr (hun.kept p ?_)]
      · exact hret.phase
      · rw [hret.tasks]
        exact hchild
    rcases finalSuspend_spec hun.machine hun.thread (hret.quiet.mono hun.live) hphase with
      ⟨st₃, h₃, hend⟩
    refine ⟨st₃, ?_, .inl ⟨hfin, hend.thread, hend.machine, hend.quiet, ?_, ?_⟩⟩
    · rw [h₁, Option.bind_some, h₂, Option.bind_some, if_pos hun.thread, h₃]
    · rw [hend.tasks, ← hret.tasks]
      exact hun.tasks
    · rw [hend.tasks, ← hret.tasks]
      exact hun.others
  · have hstop : st₂.thread ≠ .running := fun h => by cases hblocked.symm.trans h
    refine ⟨st₂, ?_, .inr ⟨hnot, hblocked⟩⟩
    rw [h₁, Option.bind_some, h₂, Option.bind_some, if_neg hstop]

end

end

/-! ## Steps -/

section

variable {s s' : State V E} {st' : St V E}

/-- A step that hands no task object out keeps `Inv` if the owned objects that remain
exist, and no owner gets a new one. -/
theorem sub_inv (hi : Inv s) {owns : Option FrameId → List TaskId} (hmachine : TaskRun.Inv st')
    (hquiet : QuietBut none st') (hsub : ∀ q, (owns q).Sublist (s.owns q))
    (hexist : ∀ q, ∀ u ∈ owns q, st'.tasks u ≠ none)
    (hold : ∀ u f, st'.tasks u = some ⟨some f, false⟩ → s.st.tasks u = some ⟨some f, false⟩) :
    Inv ⟨st', owns⟩ where
  machine := hmachine
  quiet := hquiet
  exist := hexist
  nodup := fun q => (hi.nodup q).sublist (hsub q)
  apart := fun q r t hq hr => hi.apart q r t ((hsub q).subset hq) ((hsub r).subset hr)
  child := fun q t ht htask => hi.child q t ((hsub (some q)).subset ht) (hold t q htask)

/-- A step that leaves the owners alone. -/
theorem owns_inv (hi : Inv s) (hmachine : TaskRun.Inv st') (hquiet : QuietBut none st')
    (hexist : ∀ u, s.st.tasks u ≠ none → st'.tasks u ≠ none)
    (hold : ∀ u f, st'.tasks u = some ⟨some f, false⟩ → s.st.tasks u = some ⟨some f, false⟩) :
    Inv ⟨st', s.owns⟩ :=
  sub_inv hi hmachine hquiet (fun q => .refl (s.owns q))
    (fun q u hu => hexist u (hi.exist q u hu)) hold

theorem mem_give {p q : Option FrameId} {t u : TaskId} :
    u ∈ s.give p t q ↔ u ∈ s.owns q ∨ q = p ∧ u = t := by
  unfold State.give
  by_cases hq : q = p
  · subst hq
    rw [update_self, List.mem_append, List.mem_singleton, and_iff_right rfl]
  · rw [update_of_ne hq, or_iff_left (fun h => hq h.1)]

/-- A step that builds a task object for an owner. -/
theorem give_inv (hi : Inv s) {p : Option FrameId} (hmachine : TaskRun.Inv st')
    (hquiet : QuietBut none st') (hexist : ∀ u, s.st.tasks u ≠ none → st'.tasks u ≠ none)
    (hnew : st'.tasks s.st.nextTask ≠ none)
    (hold : ∀ u f, u ≠ s.st.nextTask → st'.tasks u = some ⟨some f, false⟩ →
      s.st.tasks u = some ⟨some f, false⟩)
    (hother : ∀ f, p = some f → st'.tasks s.st.nextTask ≠ some ⟨some f, false⟩) :
    Inv ⟨st', s.give p s.st.nextTask⟩ := by
  -- the number of the new object has not been used
  have hfresh : ∀ q, s.st.nextTask ∉ s.owns q := fun q h =>
    hi.exist q _ h (hi.machine.unbuilt _ (Nat.le_refl _))
  refine ⟨hmachine, hquiet, ?_, ?_, ?_, ?_⟩
  · intro q u hu
    rcases mem_give.mp hu with hu | ⟨-, rfl⟩
    · exact hexist u (hi.exist q u hu)
    · exact hnew
  · intro q
    show (s.give p s.st.nextTask q).Nodup
    by_cases hq : q = p
    · subst hq
      rw [State.give, update_self, List.nodup_append_comm]
      exact List.nodup_cons.mpr ⟨hfresh q, hi.nodup q⟩
    · rw [State.give, update_of_ne hq]
      exact hi.nodup q
  · intro q r u hq hr
    rcases mem_give.mp hq with hq | ⟨rfl, rfl⟩
    · rcases mem_give.mp hr with hr | ⟨-, rfl⟩
      · exact hi.apart q r u hq hr
      · exact absurd hq (hfresh q)
    · rcases mem_give.mp hr with hr | ⟨rfl, -⟩
      · exact absurd hr (hfresh r)
      · rfl
  · intro q u hu htask
    rcases mem_give.mp hu with hu | ⟨hq, rfl⟩
    · have hne : u ≠ s.st.nextTask := fun e => hfresh (some q) (e ▸ hu)
      exact hi.child q u hu (hold u q hne htask)
    · exact hother q hq.symm htask

/-- An action of the frame machine that destroys no task and ends no coroutine. -/
def Quiet : TaskRun.Act V E → Prop
  | .coReturn .. | .finalSuspend _ | .destroyTask _ => False
  | .call | .suspend _ | .resume _ | .coAwait .. | .moveTask _ | .detach _ => True

/-- Such an action does not block the thread, and no coroutine gets a result. -/
theorem quiet_effect {st : St V E} {a : TaskRun.Act V E} (hthread : st.thread = .running)
    (hquiet : QuietBut none st) (ha : Quiet a) (heff : TaskRun.Effect st a st') :
    st'.thread = .running ∧ QuietBut none st' := by
  have hold : ∀ {f : FrameId} {fr : Frame V E}, st.frames f = some (.live fr) → NoResult fr :=
    fun {f fr} hf => hquiet f fr (Option.some_ne_none f) hf
  cases heff with
  | call =>
    have hfresh : NoResult (.fresh : Frame V E) := ⟨nofun, fun _ => ⟨rfl, rfl⟩⟩
    exact ⟨hthread, hquiet.setFrame (f := st.nextFrame) fun _ => hfresh⟩
  | suspend hf hph =>
    refine ⟨hthread, QuietBut.setFrame hquiet fun _ => ?_⟩
    exact (hold hf).of_eq (by rw [hph]; nofun) nofun rfl rfl
  | resume hf hph =>
    refine ⟨hthread, QuietBut.setFrame hquiet fun _ => ?_⟩
    exact (hold hf).of_eq (by rw [hph]; nofun) nofun rfl rfl
  | awaitDone hp hpp ht hf hph ho =>
    refine ⟨hthread, (hquiet.setFrame fun _ => ?_).setFrame fun _ => ?_⟩
    · exact .of_done hph
    · exact (hold hp).of_eq (by rw [hpp]; nofun) nofun rfl rfl
  | awaitPending hp hpp ht hf hph hne hc =>
    refine ⟨hthread, (hquiet.setFrame fun _ => ?_).setFrame fun _ => ?_⟩
    · exact (hold hf).of_eq hph (hold hf).1 rfl rfl
    · exact (hold hp).of_eq (by rw [hpp]; nofun) nofun rfl rfl
  | awaitSelf hp hpp ht hc =>
    refine ⟨hthread, hquiet.setFrame fun _ => ?_⟩
    exact (hold hp).of_eq (by rw [hpp]; nofun) nofun rfl rfl
  | moveTask ht => exact ⟨hthread, hquiet⟩
  | @detach t h fr ht hf =>
    refine ⟨hthread, QuietBut.setFrame hquiet fun _ => ?_⟩
    exact ⟨(hold hf).1, (hold hf).2⟩
  | coReturn => exact ha.elim
  | finish => exact ha.elim
  | release => exact ha.elim
  | handOver => exact ha.elim
  | dropDetached => exact ha.elim
  | dropDone => exact ha.elim
  | dropReturning => exact ha.elim
  | stop => exact ha.elim

theorem quiet_step {st : St V E} {a : TaskRun.Act V E} (hi : TaskRun.Inv st)
    (hquiet : QuietBut none st) (hnext : TaskRun.next st a = some st') (ha : Quiet a)
    (hcon : Contract st a) :
    TaskRun.Effect st a st' ∧ st'.thread = .running ∧ TaskRun.Inv st' ∧ QuietBut none st' := by
  have hthread := (Lts.guarded_eq_some_iff.mp hnext).1.1
  have heff := next_effect hi hcon hnext
  rcases quiet_effect hthread hquiet ha heff with ⟨hthread', hquiet'⟩
  exact ⟨heff, hthread', TaskRun.effect_inv hi heff hthread', hquiet'⟩

/-- `leave_spec` for the tasks that the coroutine owns. -/
theorem leave_owned {p : FrameId} {ts : List TaskId} (hi : Inv s)
    (hthread : s.st.thread = .running) (hp : phaseOf s.st p = some .running)
    (hperm : ts.Perm (s.owns (some p))) (o : Outcome V E) :
    ∃ st', leave s.st p o ts = some st' ∧
      ((∀ t ∈ s.owns (some p), Finished s.st t) ∧ Left s.st ts st' ∨
        ¬(∀ t ∈ s.owns (some p), Finished s.st t) ∧ st'.thread = .blocked) := by
  have hmem : ∀ t, t ∈ s.owns (some p) ↔ t ∈ ts := fun t => hperm.mem_iff.symm
  simp only [hmem]
  apply leave_spec hi.machine hthread hi.quiet hp
  · exact fun t ht => hi.exist _ t ((hmem t).mpr ht)
  · exact hperm.nodup_iff.mpr (hi.nodup _)
  · exact fun t ht => hi.child p t ((hmem t).mpr ht)

theorem setTask_tasks {st : St V E} {t u : TaskId} {obj : TaskRun.TaskObj} :
    (st.setTask t obj).tasks u = if u = t then some obj else st.tasks u :=
  Function.update_apply ..

theorem call_inv {p : Option FrameId} (hi : Inv s) (hp : Runs s.st p)
    (hmachine : TaskRun.Inv (TaskRun.call s.st)) (hquiet : QuietBut none (TaskRun.call s.st)) :
    Inv ⟨TaskRun.call s.st, s.give p s.st.nextTask⟩ := by
  have htasks : ∀ u, (TaskRun.call s.st).tasks u =
      if u = s.st.nextTask then some ⟨some s.st.nextFrame, false⟩ else s.st.tasks u :=
    fun u => Function.update_apply ..
  apply give_inv hi hmachine hquiet
  · intro u hu
    rw [htasks]
    split
    · nofun
    · exact hu
  · rw [htasks, if_pos rfl]
    nofun
  · intro u f hne hu
    rw [htasks, if_neg hne] at hu
    exact hu
  · -- the caller is not the frame that the call allocates
    rintro f rfl hf
    rw [htasks, if_pos rfl] at hf
    cases hf
    rcases TaskRun.phaseOf_eq_some.mp hp with ⟨fr, hfr, -⟩
    cases (hi.machine.unborn _ (Nat.le_refl _)).symm.trans hfr

theorem moveTask_inv {p : Option FrameId} {t : TaskId} {h : Option FrameId} (hi : Inv s)
    (hmem : t ∈ s.owns p) (ht : s.st.tasks t = some ⟨h, false⟩)
    (hmachine : TaskRun.Inv (TaskRun.moveTask s.st t ⟨h, false⟩))
    (hquiet : QuietBut none (TaskRun.moveTask s.st t ⟨h, false⟩)) :
    Inv ⟨TaskRun.moveTask s.st t ⟨h, false⟩, s.give p s.st.nextTask⟩ := by
  have htasks : ∀ u, (TaskRun.moveTask s.st t ⟨h, false⟩).tasks u =
      if u = s.st.nextTask then some ⟨h, false⟩
      else if u = t then some ⟨none, true⟩ else s.st.tasks u := by
    intro u
    rw [← setTask_tasks]
    exact Function.update_apply ..
  apply give_inv hi hmachine hquiet
  · intro u hu
    rw [htasks]
    split
    · nofun
    · split
      · nofun
      · exact hu
  · rw [htasks, if_pos rfl]
    nofun
  · intro u f hne hu
    rw [htasks, if_neg hne] at hu
    split at hu
    · cases hu
    · exact hu
  · -- the new object has the coroutine of the old one
    rintro f rfl hf
    rw [htasks, if_pos rfl] at hf
    cases hf
    exact hi.child f t hmem ht

theorem detach_inv {t : TaskId} {h : FrameId} {st' : St V E} (hi : Inv s)
    (hmachine : TaskRun.Inv (st'.setTask t ⟨some h, true⟩))
    (hquiet : QuietBut none (st'.setTask t ⟨some h, true⟩)) (htasks : st'.tasks = s.st.tasks) :
    Inv ⟨st'.setTask t ⟨some h, true⟩, s.owns⟩ := by
  apply owns_inv hi hmachine hquiet
  · intro u hu
    rw [setTask_tasks, htasks]
    split
    · nofun
    · exact hu
  · intro u f hu
    rw [setTask_tasks, htasks] at hu
    split at hu
    · cases hu
    · exact hu

theorem drop_inv {p : Option FrameId} {t : TaskId} (hi : Inv s) (hmem : t ∈ s.owns p)
    (hd : Destroyed s.st t st') (hmachine : TaskRun.Inv st') :
    Inv ⟨st', update s.owns p ((s.owns p).erase t)⟩ := by
  apply sub_inv hi hmachine (hi.quiet.mono hd.live)
  · intro q
    by_cases hq : q = p
    · subst hq
      rw [update_self]
      exact List.erase_sublist
    · rw [update_of_ne hq]
  · intro q u hu
    have hne : u ≠ t ∧ u ∈ s.owns q := by
      by_cases hq : q = p
      · subst hq
        rw [update_self] at hu
        exact (hi.nodup q).mem_erase_iff.mp hu
      · rw [update_of_ne hq] at hu
        exact ⟨fun e => hq (hi.apart q p t (e ▸ hu) hmem), hu⟩
    rw [hd.tasks, if_neg hne.1]
    exact hi.exist q u hne.2
  · exact fun u f hu => hd.tasks_some hu

theorem leave_inv {p : FrameId} {ts : List TaskId} (hi : Inv s)
    (hperm : ts.Perm (s.owns (some p))) (hl : Left s.st ts st') :
    Inv ⟨st', update s.owns (some p) []⟩ := by
  apply sub_inv hi hl.machine hl.quiet
  · intro q
    by_cases hq : q = some p
    · subst hq
      rw [update_self]
      exact List.nil_sublist _
    · rw [update_of_ne hq]
  · intro q u hu
    by_cases hq : q = some p
    · subst hq
      rw [update_self] at hu
      cases hu
    · rw [update_of_ne hq] at hu
      -- the tasks of the other owners are not among the destroyed ones
      have hmem : u ∉ ts := fun h => hq (hi.apart q (some p) u hu (hperm.mem_iff.mp h))
      rw [hl.others u hmem]
      exact hi.exist q u hu
  · exact fun u f hu => hl.tasks u _ hu

/-- What a step does: if the tasks that it destroys have finished, the thread goes on;
if not, it waits for good. -/
theorem step_spec {a : Act V E} (hi : Inv s) (hs : step s a = some s') :
    TasksFinished s a ∧ s'.st.thread = .running ∧ Inv s' ∨
      ¬TasksFinished s a ∧ s'.st.thread = .blocked := by
  cases a with
  | call p =>
    rcases Option.ite_none_right_eq_some.mp hs with ⟨hp, hs⟩
    rcases Option.map_eq_some_iff.mp hs with ⟨st', hnext, rfl⟩
    rcases quiet_step hi.machine hi.quiet hnext trivial trivial with ⟨heff, hthread, hm, hq⟩
    refine .inl ⟨trivial, hthread, ?_⟩
    cases heff
    exact call_inv hi hp hm hq
  | suspend f =>
    rcases Option.map_eq_some_iff.mp hs with ⟨st', hnext, rfl⟩
    rcases quiet_step hi.machine hi.quiet hnext trivial trivial with ⟨heff, hthread, hm, hq⟩
    refine .inl ⟨trivial, hthread, ?_⟩
    cases heff
    exact owns_inv hi hm hq (fun _ h => h) (fun _ _ h => h)
  | resume f =>
    rcases Option.map_eq_some_iff.mp hs with ⟨st', hnext, rfl⟩
    rcases quiet_step hi.machine hi.quiet hnext trivial trivial with ⟨heff, hthread, hm, hq⟩
    refine .inl ⟨trivial, hthread, ?_⟩
    cases heff
    exact owns_inv hi hm hq (fun _ h => h) (fun _ _ h => h)
  | coAwait p t =>
    rcases Option.ite_none_right_eq_some.mp hs with ⟨⟨-, hcon⟩, hs⟩
    rcases Option.map_eq_some_iff.mp hs with ⟨st', hnext, rfl⟩
    rcases quiet_step hi.machine hi.quiet hnext trivial hcon with ⟨heff, hthread, hm, hq⟩
    refine .inl ⟨trivial, hthread, ?_⟩
    have htasks : st'.tasks = s.st.tasks := by cases heff <;> rfl
    apply owns_inv hi hm hq
    · rw [htasks]
      exact fun _ h => h
    · rw [htasks]
      exact fun _ _ h => h
  | moveTask p t =>
    rcases Option.ite_none_right_eq_some.mp hs with ⟨⟨-, hmem, hcon⟩, hs⟩
    rcases Option.map_eq_some_iff.mp hs with ⟨st', hnext, rfl⟩
    rcases quiet_step hi.machine hi.quiet hnext trivial hcon with ⟨heff, hthread, hm, hq⟩
    refine .inl ⟨trivial, hthread, ?_⟩
    cases heff with
    | moveTask ht => exact moveTask_inv hi hmem ht hm hq
  | detach p t =>
    rcases Option.ite_none_right_eq_some.mp hs with ⟨-, hs⟩
    rcases Option.map_eq_some_iff.mp hs with ⟨st', hnext, rfl⟩
    rcases quiet_step hi.machine hi.quiet hnext trivial trivial with ⟨heff, hthread, hm, hq⟩
    refine .inl ⟨trivial, hthread, ?_⟩
    cases heff with
    | detach ht hf => exact detach_inv hi hm hq rfl
  | drop p t =>
    rcases Option.ite_none_right_eq_some.mp hs with ⟨⟨-, hmem⟩, hs⟩
    rcases Option.map_eq_some_iff.mp hs with ⟨st', hnext, rfl⟩
    have hthread := (Lts.guarded_eq_some_iff.mp hnext).1.1
    rcases destroyTask_spec hi.machine hthread (hi.exist p t hmem)
      (fun h fr _ hf => hi.quiet h fr nofun hf) with ⟨st₁, hnext₁, hcases⟩
    cases hnext.symm.trans hnext₁
    refine hcases.imp (fun ⟨hfin, hd⟩ => ⟨hfin, hd.thread, ?_⟩) id
    have hm : TaskRun.Inv st' :=
      TaskRun.step_inv (fun _ => hi.machine) (a := .destroyTask t) trivial hnext hd.thread
    exact drop_inv hi hmem hd hm
  | leave p o ts =>
    rcases Option.ite_none_right_eq_some.mp hs with ⟨⟨hthread, hp, hperm⟩, hs⟩
    rcases Option.map_eq_some_iff.mp hs with ⟨st', hleave, rfl⟩
    rcases leave_owned hi hthread hp hperm o with ⟨st₁, hleave₁, hcases⟩
    cases hleave.symm.trans hleave₁
    exact hcases.imp (fun ⟨hfin, hl⟩ => ⟨hfin, hl.thread, leave_inv hi hperm hl⟩) id

/-- A running coroutine can leave its body in every order of its tasks. -/
theorem step_leave {p : FrameId} {ts : List TaskId} (hi : Inv s)
    (hthread : s.st.thread = .running) (hp : phaseOf s.st p = some .running)
    (hperm : ts.Perm (s.owns (some p))) (o : Outcome V E) :
    ∃ s', step s (.leave p o ts) = some s' := by
  rcases leave_owned hi hthread hp hperm o with ⟨st', hleave, -⟩
  refine ⟨⟨st', update s.owns (some p) []⟩, ?_⟩
  rw [step, if_pos ⟨hthread, hp, hperm⟩, hleave]
  rfl

/-- A thread that waits does not take another step. -/
theorem thread_of_step {a : Act V E} (hs : step s a = some s') : s.st.thread = .running := by
  have hnext : ∀ {b : TaskRun.Act V E} {g : St V E → State V E},
      (TaskRun.next s.st b).map g = some s' → s.st.thread = .running := by
    intro b g h
    rcases Option.map_eq_some_iff.mp h with ⟨st', hb, -⟩
    exact (Lts.guarded_eq_some_iff.mp hb).1.1
  cases a with
  | call p => exact hnext (Option.ite_none_right_eq_some.mp hs).2
  | suspend f => exact hnext hs
  | resume f => exact hnext hs
  | coAwait p t => exact hnext (Option.ite_none_right_eq_some.mp hs).2
  | moveTask p t => exact hnext (Option.ite_none_right_eq_some.mp hs).2
  | detach p t => exact hnext (Option.ite_none_right_eq_some.mp hs).2
  | drop p t => exact hnext (Option.ite_none_right_eq_some.mp hs).2
  | leave p o ts => exact (Option.ite_none_right_eq_some.mp hs).1.1

end

/-! ## Runs -/

/-- The thread runs in a state that keeps `Inv`, or waits for good. -/
def Settled (s : State V E) : Prop :=
  s.st.thread = .running ∧ Inv s ∨ s.st.thread = .blocked

theorem Settled.inv {s : State V E} (h : Settled s) (hthread : s.st.thread = .running) :
    Inv s := by
  rcases h with ⟨-, hi⟩ | hblocked
  · exact hi
  · cases hthread.symm.trans hblocked

theorem step_settled {s s' : State V E} {a : Act V E} (h : Settled s)
    (hs : step s a = some s') : Settled s' := by
  rcases step_spec (h.inv (thread_of_step hs)) hs with ⟨-, hthread, hi⟩ | ⟨-, hblocked⟩
  · exact .inl ⟨hthread, hi⟩
  · exact .inr hblocked

theorem run_settled {acts : List (Act V E)} {s : State V E}
    (hrun : Lts.run step .init acts = some s) : Settled s :=
  Lts.run_invariant Settled (fun _ _ _ h _ hs => step_settled h hs) (.inl ⟨rfl, init_inv⟩)
    (Lts.stepsMeet_true State.init acts) hrun

theorem step_running_iff {s s' : State V E} {a : Act V E} (hi : Inv s)
    (hs : step s a = some s') : s'.st.thread = .running ↔ TasksFinished s a := by
  rcases step_spec hi hs with ⟨hfin, hthread, -⟩ | ⟨hnot, hblocked⟩
  · exact iff_of_true hthread hfin
  · exact iff_of_false (fun h => by cases h.symm.trans hblocked) hnot

/-- The thread has never waited iff no task was destroyed before it had finished. -/
theorem run_running_iff {acts : List (Act V E)} {s : State V E}
    (hrun : Lts.run step .init acts = some s) :
    s.st.thread = .running ↔ Lts.StepsMeet step TasksFinished .init acts := by
  apply Lts.run_good_iff (D := fun _ _ => True) Settled (fun s => s.st.thread = .running)
  · exact fun _ _ _ h _ hs => step_settled h hs
  · exact fun _ _ _ h hg _ hs => step_running_iff (h.inv hg) hs
  · exact fun _ _ _ _ hng hs => absurd (thread_of_step hs) hng
  · exact .inl ⟨rfl, init_inv⟩
  · rfl
  · exact Lts.stepsMeet_true State.init acts
  · exact hrun

/-- A thread that runs task coroutines never waits in a destructor iff every task that is
destroyed has finished before. In particular, when an exception leaves a coroutine, the
destructors of the tasks that it still owns return, in every order, iff all of these
tasks have finished; if not, the thread waits. -/
theorem unwinding_returns_iff {acts : List (Act V E)} {s : State V E}
    (hrun : Lts.run step .init acts = some s) :
    (s.st.thread ≠ .blocked ↔ Lts.StepsMeet step TasksFinished .init acts) ∧
      ∀ (p : FrameId) (e : E) (ts : List TaskId), s.st.thread = .running →
        phaseOf s.st p = some .running → ts.Perm (s.owns (some p)) →
        ∃ s', step s (.leave p (.exception e) ts) = some s' ∧
          (s'.st.thread = .running ↔ ∀ t ∈ s.owns (some p), Finished s.st t) ∧
          (s'.st.thread = .blocked ↔ ¬∀ t ∈ s.owns (some p), Finished s.st t) := by
  have hsettled := run_settled hrun
  constructor
  · rw [← run_running_iff hrun]
    rcases hsettled with ⟨hthread, -⟩ | hblocked
    · exact iff_of_true (by rw [hthread]; nofun) hthread
    · exact iff_of_false (fun h => h hblocked) (by rw [hblocked]; nofun)
  · intro p e ts hthread hp hperm
    have hi := hsettled.inv hthread
    rcases step_leave hi hthread hp hperm (.exception e) with ⟨s', hs⟩
    rcases step_spec hi hs with ⟨hfin, hthread', -⟩ | ⟨hnot, hblocked⟩
    · refine ⟨s', hs, iff_of_true hthread' hfin, iff_of_false ?_ (fun h => h hfin)⟩
      exact fun h => by cases hthread'.symm.trans h
    · refine ⟨s', hs, iff_of_false ?_ hnot, iff_of_true hblocked hnot⟩
      exact fun h => by cases h.symm.trans hblocked

/-- A parent that owns two tasks and awaits the first, while both are suspended. -/
def twoTasks : List (Act Nat Nat) :=
  [.call none, .call (some 0), .suspend 1, .call (some 0), .suspend 2, .coAwait 0 1]

/-- The second task finishes, the first one fails, and the exception that the await
throws unwinds the parent. -/
theorem unwinding_returns_finished :
    ∃ s, Lts.run step .init (twoTasks ++
        [.resume 2, .leave 2 (.value 7) [], .resume 1, .leave 1 (.exception 5) []]) = some s ∧
      s.st.thread ≠ .blocked ∧
      ∃ s', step s (.leave 0 (.exception 5) [2, 1]) = some s' ∧ s'.st.thread = .running := by
  obtain ⟨s, hrun⟩ : ∃ s, Lts.run step .init (twoTasks ++
      [.resume 2, .leave 2 (.value 7) [], .resume 1, .leave 1 (.exception 5) []]) = some s :=
    ⟨_, rfl⟩
  rcases unwinding_returns_iff hrun with ⟨hblocked, hleave⟩
  have hs := hrun
  obtain rfl := Option.some.inj hs
  rcases hleave 0 5 [2, 1] (by decide) (by decide) (by decide) with ⟨s', hstep, hiff, -⟩
  exact ⟨_, hrun, hblocked.mpr (by decide), s', hstep, hiff.mpr (by decide)⟩

/-- The first task fails while the second one is still suspended: the exception that the
await throws unwinds the parent, and the thread waits for the second task. -/
theorem unwinding_hangs :
    ∃ s s', Lts.run step .init (twoTasks ++ [.resume 1, .leave 1 (.exception 5) []]) = some s ∧
      (s.st.live 0).bind (·.got) = some (.outcome (.exception 5)) ∧
      phaseOf s.st 2 = some .leaf ∧
      step s (.leave 0 (.exception 5) [2, 1]) = some s' ∧ s'.st.thread = .blocked :=
  ⟨_, _, rfl, rfl, rfl, rfl, rfl⟩

end Ucxpp.TaskUnwind
