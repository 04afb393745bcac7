import Ucxpp.Lib.Trace
import Ucxpp.TaskProgram

/-!
# TaskEval — awaiting tasks means the same as calling functions

The invariant `Inv` ties the machine to direct style: what a coroutine has left
to do, run in direct style with the outcomes of the tasks it still has to
await, gives the outcome of its whole call (`FrameOk.agrees`), and every local
variable holds the task of a coroutine that will finish with the outcome of its
own call.
-/

namespace Ucxpp.TaskProgram

open Function (update update_self update_of_ne)
open TaskRun (FrameId TaskId Outcome Got Phase Frame St Act Effect phaseOf)

variable {Op V E : Type} (res : Results Op V E)

/-! ## The invariant -/

/-- The outcome of the call that coroutine `f` runs, in direct style. -/
def expected (body : FrameId → Option (Body Op V E)) (f : FrameId) : Option (Outcome V E) :=
  (body f).bind fun b => direct res b.start b.path 0 []

/-- What is left to await: the outcomes of the calls behind the local
variables. -/
def Body.env (body : FrameId → Option (Body Op V E)) (b : Body Op V E) :
    List (Option (Outcome V E)) :=
  b.locals.map fun l => if l.awaited then none else expected res body l.child

structure FrameOk (c : Cfg Op V E) (f : FrameId) (b : Body Op V E) (fr : Frame V E) : Prop where
  unmarked : fr.releaseDetached = none
  agrees : fr.phase ≠ .returning → fr.phase ≠ .done →
    direct res b.prog b.path b.pos (b.env res c.body) = expected res c.body f
  leaf : fr.phase = .leaf → f ∈ c.st.leaves ∧ ∃ op k, b.prog = .leaf op k
  awaiting : ∀ h, fr.phase = .awaiting h → ∃ i k l, b.prog = .await i k ∧
    b.locals[i]? = some l ∧ l.child = h ∧ l.awaited = false
  returned : fr.phase = .returning ∨ fr.phase = .done →
    fr.promise = expected res c.body f ∧ ∀ l ∈ b.locals, l.awaited = true
  gone : fr.phase = .done → ∀ l ∈ b.locals, l.alive = false

structure LocalOk (c : Cfg Op V E) (p : FrameId) (i : Nat) (l : Local) : Prop where
  later : p < l.child
  caller : ∃ b, c.body l.child = some b ∧ b.caller = some (p, i)
  held : l.alive = true → c.st.tasks l.task = some ⟨some l.child, false⟩
  kept : l.awaited = false → l.alive = true
  finished : l.awaited = true → l.alive = true → phaseOf c.st l.child = some .done
  fresh : l.awaited = false → ∀ fc, c.st.frames l.child = some (.live fc) →
    fc.futureValid = true ∧ (fc.coAwaited = true → phaseOf c.st p = some (.awaiting l.child))

structure Inv (c : Cfg Op V E) : Prop where
  machine : TaskRun.Inv c.st
  thread : c.st.thread = .running
  born : ∀ f b, c.body f = some b → f < c.st.nextFrame
  body : ∀ f fr, c.st.frames f = some (.live fr) → ∃ b, c.body f = some b
  defined : ∀ f b, c.body f = some b → ∃ o, expected res c.body f = some o
  frame : ∀ f b fr, c.body f = some b → c.st.frames f = some (.live fr) → FrameOk res c f b fr
  loc : ∀ p b i l, c.body p = some b → b.locals[i]? = some l → LocalOk c p i l
  root : ∃ b fr, c.body 0 = some b ∧ b.caller = none ∧ c.st.frames 0 = some (.live fr)

/-! ## Frame rules -/

/-- Nothing but `start` and `path` decides what a coroutine is expected to
give. -/
theorem expected_update {body : FrameId → Option (Body Op V E)} {f : FrameId}
    {b b' : Body Op V E} (hb : body f = some b) (hstart : b'.start = b.start)
    (hpath : b'.path = b.path) : expected res (update body f (some b')) = expected res body := by
  funext g
  unfold expected
  by_cases hg : g = f
  · rw [hg, update_self, hb, Option.bind_some, Option.bind_some, hstart, hpath]
  · rw [update_of_ne hg]

theorem env_update {body : FrameId → Option (Body Op V E)} {f : FrameId} {b b' : Body Op V E}
    (hb : body f = some b) (hstart : b'.start = b.start) (hpath : b'.path = b.path)
    (a : Body Op V E) : a.env res (update body f (some b')) = a.env res body := by
  unfold Body.env
  rw [expected_update res hb hstart hpath]

variable {res}

/-- A coroutine that a step leaves alone. -/
theorem FrameOk.congr {c c' : Cfg Op V E} {f : FrameId} {b : Body Op V E} {fr : Frame V E}
    (h : FrameOk res c f b fr) (hexp : expected res c'.body f = expected res c.body f)
    (henv : b.env res c'.body = b.env res c.body) (hleaf : f ∈ c.st.leaves → f ∈ c'.st.leaves) :
    FrameOk res c' f b fr where
  unmarked := h.unmarked
  agrees := by
    rw [hexp, henv]
    exact h.agrees
  leaf := fun hph => ⟨hleaf (h.leaf hph).1, (h.leaf hph).2⟩
  awaiting := h.awaiting
  returned := by
    rw [hexp]
    exact h.returned
  gone := h.gone

/-- A coroutine in its body has to agree with direct style, and no more. -/
theorem FrameOk.of_running {c : Cfg Op V E} {f : FrameId} {b : Body Op V E} {fr : Frame V E}
    (hrun : fr.phase = .running) (hunmarked : fr.releaseDetached = none)
    (hagree : direct res b.prog b.path b.pos (b.env res c.body) = expected res c.body f) :
    FrameOk res c f b fr where
  unmarked := hunmarked
  agrees := fun _ _ => hagree
  leaf := fun h => nomatch hrun.symm.trans h
  awaiting := fun _ h => nomatch hrun.symm.trans h
  returned := by
    rintro (h | h)
    · cases hrun.symm.trans h
    · cases hrun.symm.trans h
  gone := fun h => nomatch hrun.symm.trans h

/-- A local variable whose coroutine and whose task a step leaves alone. -/
theorem LocalOk.congr {c c' : Cfg Op V E} {p : FrameId} {i : Nat} {l : Local}
    (h : LocalOk c p i l)
    (hcaller : ∀ b, c.body l.child = some b → ∃ b', c'.body l.child = some b' ∧
      b'.caller = b.caller)
    (htask : l.alive = true → c'.st.tasks l.task = c.st.tasks l.task)
    (hdone : phaseOf c.st l.child = some .done → phaseOf c'.st l.child = some .done)
    (hfresh : l.awaited = false → ∀ fc', c'.st.frames l.child = some (.live fc') →
      ∃ fc, c.st.frames l.child = some (.live fc) ∧ fc'.futureValid = fc.futureValid ∧
        fc'.coAwaited = fc.coAwaited)
    (hwait : phaseOf c.st p = some (.awaiting l.child) →
      phaseOf c'.st p = some (.awaiting l.child)) : LocalOk c' p i l where
  later := h.later
  caller := by
    rcases h.caller with ⟨b, hb, hcall⟩
    rcases hcaller b hb with ⟨b', hb', hsame⟩
    exact ⟨b', hb', hsame.trans hcall⟩
  held := fun halive => (htask halive).trans (h.held halive)
  kept := h.kept
  finished := fun haw halive => hdone (h.finished haw halive)
  fresh := by
    intro haw fc' hfc'
    rcases hfresh haw fc' hfc' with ⟨fc, hfc, hvalid, hco⟩
    rcases h.fresh haw fc hfc with ⟨hv, hw⟩
    exact ⟨hvalid.trans hv, fun hc => hwait (hw (hco.symm.trans hc))⟩

theorem phaseOf_of_frames {s s' : St V E} {f : FrameId} (h : s'.frames f = s.frames f) :
    phaseOf s' f = phaseOf s f := by
  unfold phaseOf St.live
  rw [h]

theorem phaseOf_live {s : St V E} {f : FrameId} {fr : Frame V E}
    (h : s.frames f = some (.live fr)) : phaseOf s f = some fr.phase :=
  TaskRun.phaseOf_eq_some.mpr ⟨fr, h, rfl⟩

theorem phaseOf_of_live {s : St V E} {f : FrameId} {fr : Frame V E} {ph : Phase}
    (h : s.frames f = some (.live fr)) (hph : fr.phase = ph) : phaseOf s f = some ph :=
  hph ▸ phaseOf_live h

theorem phaseOf_ne_of_live {s : St V E} {f : FrameId} {fr : Frame V E} {ph : Phase}
    (h : s.frames f = some (.live fr)) (hne : fr.phase ≠ ph) : phaseOf s f ≠ some ph := by
  rw [phaseOf_live h]
  exact fun heq => hne (Option.some.inj heq)

/-- Two local variables never hold the same coroutine. -/
theorem Inv.local_unique {c : Cfg Op V E} (hinv : Inv res c) {p q : FrameId} {i j : Nat}
    {b a : Body Op V E} {l m : Local} (hb : c.body p = some b) (hl : b.locals[i]? = some l)
    (ha : c.body q = some a) (hm : a.locals[j]? = some m) (h : l.child = m.child) :
    p = q ∧ i = j := by
  rcases (hinv.loc p b i l hb hl).caller with ⟨x, hx, hcall⟩
  rcases (hinv.loc q a j m ha hm).caller with ⟨y, hy, hcall'⟩
  rw [h, hy] at hx
  cases hx
  rw [hcall'] at hcall
  cases hcall
  exact ⟨rfl, rfl⟩

/-- What a step has to show that starts no new coroutine. -/
theorem Inv.of_step {c c' : Cfg Op V E} (hinv : Inv res c) (hm : TaskRun.Inv c'.st)
    (hthread : c'.st.thread = .running) (hnext : c'.st.nextFrame = c.st.nextFrame)
    (hbody : ∀ g a, c'.body g = some a → ∃ a', c.body g = some a' ∧ a'.caller = a.caller)
    (hbody' : ∀ g a, c.body g = some a → ∃ a', c'.body g = some a' ∧ a'.caller = a.caller)
    (hexp : expected res c'.body = expected res c.body)
    (hlive : ∀ g fr, c'.st.frames g = some (.live fr) → ∃ fr, c.st.frames g = some (.live fr))
    (hroot : ∃ fr, c'.st.frames 0 = some (.live fr))
    (hframe : ∀ f b fr, c'.body f = some b → c'.st.frames f = some (.live fr) →
      FrameOk res c' f b fr)
    (hloc : ∀ p b i l, c'.body p = some b → b.locals[i]? = some l → LocalOk c' p i l) :
    Inv res c' where
  machine := hm
  thread := hthread
  born := by
    intro f a ha
    rcases hbody f a ha with ⟨a', ha', -⟩
    exact hnext ▸ hinv.born f a' ha'
  body := by
    intro f fr hfr
    rcases hlive f fr hfr with ⟨fr', hfr'⟩
    rcases hinv.body f fr' hfr' with ⟨a, ha⟩
    rcases hbody' f a ha with ⟨a', ha', -⟩
    exact ⟨a', ha'⟩
  defined := by
    intro f a ha
    rcases hbody f a ha with ⟨a', ha', -⟩
    rw [hexp]
    exact hinv.defined f a' ha'
  frame := hframe
  loc := hloc
  root := by
    rcases hinv.root with ⟨b, -, hb, hcall, -⟩
    rcases hbody' 0 b hb with ⟨b', hb', hsame⟩
    rcases hroot with ⟨fr, hfr⟩
    exact ⟨b', fr, hb', hsame.trans hcall, hfr⟩

/-! ## Steps of one coroutine -/

/-- The bodies after a step of coroutine `p`. -/
theorem body_update {body : FrameId → Option (Body Op V E)} {p g : FrameId} {b b' a : Body Op V E}
    (hb : body p = some b) (hcaller : b'.caller = b.caller)
    (ha : update body p (some b') g = some a) :
    ∃ a', body g = some a' ∧ a'.caller = a.caller ∧ (g = p → a' = b ∧ a = b') ∧
      (g ≠ p → a' = a) := by
  by_cases hg : g = p
  · subst hg
    rw [update_self] at ha
    cases ha
    exact ⟨b, hb, hcaller.symm, fun _ => ⟨rfl, rfl⟩, fun h => absurd rfl h⟩
  · rw [update_of_ne hg] at ha
    exact ⟨a, ha, rfl, fun h => absurd h hg, fun _ => rfl⟩

theorem body_update' {body : FrameId → Option (Body Op V E)} {p g : FrameId} {b b' a : Body Op V E}
    (hb : body p = some b) (hcaller : b'.caller = b.caller) (ha : body g = some a) :
    ∃ a', update body p (some b') g = some a' ∧ a'.caller = a.caller := by
  by_cases hg : g = p
  · subst hg
    rw [hb] at ha
    cases ha
    exact ⟨b', update_self .., hcaller⟩
  · exact ⟨a, (update_of_ne hg ..).trans ha, rfl⟩

/-- `Inv.of_step` for a step that changes the body of coroutine `p` only. -/
theorem Inv.of_body_step {c : Cfg Op V E} (hinv : Inv res c) {p : FrameId} {b b' : Body Op V E}
    {st : St V E} {log : List (Event V E)} (hb : c.body p = some b) (hstart : b'.start = b.start)
    (hpath : b'.path = b.path) (hcaller : b'.caller = b.caller) (hm : TaskRun.Inv st)
    (hthread : st.thread = .running) (hnext : st.nextFrame = c.st.nextFrame)
    (hlive : ∀ g fr, st.frames g = some (.live fr) → ∃ fr, c.st.frames g = some (.live fr))
    (hroot : ∀ fr, c.st.frames 0 = some (.live fr) → ∃ fr, st.frames 0 = some (.live fr))
    (hframe : ∀ f a fr, update c.body p (some b') f = some a → st.frames f = some (.live fr) →
      FrameOk res ⟨st, update c.body p (some b'), log⟩ f a fr)
    (hloc : ∀ q a i l, update c.body p (some b') q = some a → a.locals[i]? = some l →
      LocalOk ⟨st, update c.body p (some b'), log⟩ q i l) :
    Inv res ⟨st, update c.body p (some b'), log⟩ := by
  refine hinv.of_step hm hthread hnext ?_ (fun g a => body_update' hb hcaller)
    (expected_update res hb hstart hpath) hlive ?_ hframe hloc
  · intro g a ha
    rcases body_update hb hcaller ha with ⟨a', ha', hcall, -⟩
    exact ⟨a', ha', hcall⟩
  · rcases hinv.root with ⟨-, fr, -, -, hfr⟩
    exact hroot fr hfr

/-- A coroutine in its body does a step that concerns nobody else. -/
theorem ownStep_inv {c : Cfg Op V E} (hinv : Inv res c) {p : FrameId} {b b' : Body Op V E}
    {fr : Frame V E} {st : St V E} {log : List (Event V E)}
    (hb : c.body p = some b) (hf : c.st.frames p = some (.live fr)) (fr' : Frame V E)
    (hstart : b'.start = b.start) (hpath : b'.path = b.path) (hcaller : b'.caller = b.caller)
    (hlocals : b'.locals = b.locals) (hvalid : fr'.futureValid = fr.futureValid)
    (hco : fr'.coAwaited = fr.coAwaited) (hdone : fr.phase ≠ .done)
    (hwait : ∀ h, fr.phase ≠ .awaiting h)
    (hm : TaskRun.Inv st) (hthread : st.thread = .running)
    (hframes : ∀ g, st.frames g = if g = p then some (.live fr') else c.st.frames g)
    (htasks : st.tasks = c.st.tasks) (hnext : st.nextFrame = c.st.nextFrame)
    (hleaves : ∀ g, g ≠ p → g ∈ c.st.leaves → g ∈ st.leaves)
    (hok : FrameOk res ⟨st, update c.body p (some b'), log⟩ p b' fr') :
    Inv res ⟨st, update c.body p (some b'), log⟩ := by
  have hexp := expected_update res hb hstart hpath
  have hother : ∀ g, g ≠ p → st.frames g = c.st.frames g := fun g hg =>
    (hframes g).trans (if_neg hg)
  have hself : st.frames p = some (.live fr') := (hframes p).trans (if_pos rfl)
  refine hinv.of_body_step hb hstart hpath hcaller hm hthread hnext ?_ ?_ ?_ ?_
  · intro g fr₀ hg
    by_cases hgp : g = p
    · exact ⟨fr, hgp ▸ hf⟩
    · exact ⟨fr₀, (hother g hgp).symm.trans hg⟩
  · intro fr₀ hroot
    by_cases h0 : 0 = p
    · exact ⟨fr', h0 ▸ hself⟩
    · exact ⟨fr₀, (hother 0 h0).trans hroot⟩
  · intro f a fr₀ ha hfr₀
    rcases body_update hb hcaller ha with ⟨a', ha', -, hp, hne⟩
    by_cases hfp : f = p
    · rcases hp hfp with ⟨-, rfl⟩
      subst hfp
      rw [show st.frames f = _ from hself] at hfr₀
      cases hfr₀
      exact hok
    · obtain rfl := hne hfp
      exact (hinv.frame f a' fr₀ ha' ((hother f hfp).symm.trans hfr₀)).congr
        (congrFun hexp f) (env_update res hb hstart hpath a') (hleaves f hfp)
  · intro q a i l ha hl
    rcases body_update hb hcaller ha with ⟨a', ha', -, hp, hne⟩
    have hl' : a'.locals[i]? = some l := by
      by_cases hqp : q = p
      · rcases hp hqp with ⟨rfl, rfl⟩
        exact hlocals ▸ hl
      · exact (hne hqp) ▸ hl
    refine (hinv.loc q a' i l ha' hl').congr (fun x => body_update' hb hcaller)
      (fun _ => congrFun htasks _) ?_ ?_ ?_
    · intro hd
      by_cases hcp : l.child = p
      · exact absurd (hcp ▸ hd) (phaseOf_ne_of_live hf hdone)
      · exact (phaseOf_of_frames (hother _ hcp)).trans hd
    · intro _ fc hfc
      by_cases hcp : l.child = p
      · rw [hcp] at hfc ⊢
        rw [show st.frames p = _ from hself] at hfc
        cases hfc
        exact ⟨fr, hf, hvalid, hco⟩
      · exact ⟨fc, (hother _ hcp).symm.trans hfc, rfl, rfl⟩
    · intro hw
      by_cases hqp : q = p
      · exact absurd (hqp ▸ hw) (phaseOf_ne_of_live hf (hwait _))
      · exact (phaseOf_of_frames (hother _ hqp)).trans hw

/-! ## Steps of a parent and its child -/

/-- A step that changes the frames of a parent and its child, and no other. -/
structure PairStep (s st : St V E) (p h : FrameId) (fp fr fp' fr' : Frame V E) : Prop where
  parent : s.frames p = some (.live fp)
  child : s.frames h = some (.live fr)
  parent' : st.frames p = some (.live fp')
  child' : st.frames h = some (.live fr')
  other : ∀ g, g ≠ p → g ≠ h → st.frames g = s.frames g

theorem PairStep.of_frames {s st : St V E} {p h : FrameId} {fp fr fp' fr' : Frame V E}
    (hp : s.frames p = some (.live fp)) (hf : s.frames h = some (.live fr)) (hne : h ≠ p)
    (hframes : ∀ g, st.frames g = if g = p then some (.live fp') else
      if g = h then some (.live fr') else s.frames g) : PairStep s st p h fp fr fp' fr' where
  parent := hp
  child := hf
  parent' := (hframes p).trans (if_pos rfl)
  child' := by rw [hframes, if_neg hne, if_pos rfl]
  other := by
    intro g hgp hgh
    rw [hframes, if_neg hgp, if_neg hgh]

section
variable {s st : St V E} {p h : FrameId} {fp fr fp' fr' : Frame V E}

theorem PairStep.live (hpair : PairStep s st p h fp fr fp' fr') {g : FrameId} {x : Frame V E}
    (hg : st.frames g = some (.live x)) : ∃ y, s.frames g = some (.live y) := by
  by_cases hgp : g = p
  · exact ⟨fp, hgp ▸ hpair.parent⟩
  · by_cases hgh : g = h
    · exact ⟨fr, hgh ▸ hpair.child⟩
    · exact ⟨x, (hpair.other g hgp hgh).symm.trans hg⟩

theorem PairStep.live' (hpair : PairStep s st p h fp fr fp' fr') {g : FrameId} {x : Frame V E}
    (hg : s.frames g = some (.live x)) : ∃ y, st.frames g = some (.live y) := by
  by_cases hgp : g = p
  · exact ⟨fp', hgp ▸ hpair.parent'⟩
  · by_cases hgh : g = h
    · exact ⟨fr', hgh ▸ hpair.child'⟩
    · exact ⟨x, (hpair.other g hgp hgh).trans hg⟩

end

/-- A local variable that holds another coroutine than the child. Its own
coroutine may be the parent, which has not finished and keeps its future. -/
theorem PairStep.loc {c c' : Cfg Op V E} {p h q : FrameId} {fp fr fp' fr' : Frame V E} {j : Nat}
    {m : Local} (hpair : PairStep c.st c'.st p h fp fr fp' fr') (hloc : LocalOk c q j m)
    (hmh : m.child ≠ h)
    (hcaller : ∀ b, c.body m.child = some b → ∃ b', c'.body m.child = some b' ∧
      b'.caller = b.caller)
    (htasks : c'.st.tasks = c.st.tasks) (hdone : fp.phase ≠ .done)
    (hvalid : fp'.futureValid = fp.futureValid) (hco : fp'.coAwaited = fp.coAwaited)
    (hparent : fp.phase ≠ .awaiting m.child)
    (hchild : ∀ g, fr.phase = .awaiting g → fr'.phase = fr.phase) : LocalOk c' q j m := by
  refine hloc.congr hcaller (fun _ => congrFun htasks _) ?_ ?_ ?_
  · intro hd
    by_cases hmp : m.child = p
    · exact absurd (hmp ▸ hd) (phaseOf_ne_of_live hpair.parent hdone)
    · exact (phaseOf_of_frames (hpair.other _ hmp hmh)).trans hd
  · intro _ fc hfc
    by_cases hmp : m.child = p
    · rw [hmp] at hfc ⊢
      rw [hpair.parent'] at hfc
      cases hfc
      exact ⟨fp, hpair.parent, hvalid, hco⟩
    · exact ⟨fc, (hpair.other _ hmp hmh).symm.trans hfc, rfl, rfl⟩
  · intro hw
    by_cases hqp : q = p
    · exact absurd (hqp ▸ hw) (phaseOf_ne_of_live hpair.parent hparent)
    · by_cases hqh : q = h
      · rw [hqh, phaseOf_live hpair.child] at hw
        rw [hqh, phaseOf_live hpair.child', hchild _ (Option.some.inj hw)]
        exact hw
      · exact (phaseOf_of_frames (hpair.other _ hqp hqh)).trans hw

/-- The parent suspends in the `co_await` of a child that has not finished. -/
theorem pending_inv {c : Cfg Op V E} (hinv : Inv res c) {p : FrameId} {b : Body Op V E}
    {i : Nat} {k : Outcome V E → Prog Op V E} {l : Local} {fp fp' fr fr' : Frame V E}
    {st : St V E} (hb : c.body p = some b) (hprog : b.prog = .await i k)
    (hl : b.locals[i]? = some l) (haw : l.awaited = false)
    (hp : c.st.frames p = some (.live fp)) (hpp : fp.phase = .running)
    (hf : c.st.frames l.child = some (.live fr))
    (hfr' : fr' = { fr with coAwaited := true, continuation := some p })
    (hfp' : fp' = { fp with phase := .awaiting l.child })
    (hm : TaskRun.Inv st) (hthread : st.thread = .running)
    (hframes : ∀ g, st.frames g = if g = p then some (.live fp') else
      if g = l.child then some (.live fr') else c.st.frames g)
    (htasks : st.tasks = c.st.tasks) (hnext : st.nextFrame = c.st.nextFrame)
    (hleaves : st.leaves = c.st.leaves) : Inv res { c with st := st } := by
  have hne : l.child ≠ p := Nat.ne_of_gt (hinv.loc p b i l hb hl).later
  have hpair := PairStep.of_frames hp hf hne hframes
  refine hinv.of_step hm hthread hnext (fun _ a ha => ⟨a, ha, rfl⟩) (fun _ a ha => ⟨a, ha, rfl⟩)
    rfl (fun _ _ => hpair.live) ?_ ?_ ?_
  · rcases hinv.root with ⟨r, fr₀, -, -, hroot⟩
    exact hpair.live' hroot
  · intro f a fr₀ ha hfr₀
    by_cases hfp : f = p
    · -- the parent waits for the coroutine that its program names
      subst hfp
      obtain rfl : b = a := Option.some.inj (hb.symm.trans ha)
      rw [show st.frames f = _ from hpair.parent'] at hfr₀
      cases hfr₀
      have hold := hinv.frame f b fp hb hp
      subst hfp'
      exact {
        unmarked := hold.unmarked
        agrees := fun _ _ => hold.agrees (by simp [hpp]) (by simp [hpp])
        leaf := fun h => nomatch h
        awaiting := by
          intro h hph
          cases hph
          exact ⟨i, k, l, hprog, hl, rfl, haw⟩
        returned := fun h => by rcases h with h | h <;> cases h
        gone := fun h => nomatch h }
    · by_cases hfc : f = l.child
      · subst hfc
        rw [show st.frames l.child = _ from hpair.child'] at hfr₀
        cases hfr₀
        subst hfr'
        have hold := hinv.frame _ a fr ha hf
        exact ⟨hold.unmarked, hold.agrees, fun h => hleaves ▸ hold.leaf h, hold.awaiting,
          hold.returned, hold.gone⟩
      · exact (hinv.frame f a fr₀ ha ((hpair.other f hfp hfc).symm.trans hfr₀)).congr rfl rfl
          (fun h => hleaves ▸ h)
  · intro q a j m ha hm
    have hloc := hinv.loc q a j m ha hm
    by_cases hmc : m.child = l.child
    · -- the only local variable with this child is the one that is awaited
      rcases hinv.local_unique ha hm hb hl hmc with ⟨rfl, rfl⟩
      obtain rfl : b = a := Option.some.inj (hb.symm.trans ha)
      obtain rfl : l = m := Option.some.inj (hl.symm.trans hm)
      refine ⟨hloc.later, hloc.caller, fun h => (congrFun htasks _).trans (hloc.held h), hloc.kept,
        fun h => ?_, fun _ fc hfc => ?_⟩
      · rw [haw] at h
        cases h
      · rw [show st.frames l.child = _ from hpair.child'] at hfc
        cases hfc
        subst hfr' hfp'
        exact ⟨(hloc.fresh haw fr hf).1, fun _ => phaseOf_live hpair.parent'⟩
    · subst hfr' hfp'
      exact PairStep.loc hpair hloc hmc (fun x hx => ⟨x, hx, rfl⟩) htasks (by simp [hpp]) rfl rfl
        (by simp [hpp]) (fun _ _ => rfl)

theorem env_set_awaited {body : FrameId → Option (Body Op V E)} (b : Body Op V E) (i : Nat)
    (l : Local) (prog : Prog Op V E) :
    (b.afterAwait i l prog).env res body = (b.env res body).set i none := by
  simp [Body.env, Body.afterAwait, List.map_set]

theorem env_expected {body : FrameId → Option (Body Op V E)} {b : Body Op V E} {i : Nat}
    {l : Local} {o : Outcome V E} (hl : b.locals[i]? = some l) (haw : l.awaited = false)
    (hexp : expected res body l.child = some o) : (b.env res body)[i]? = some (some o) := by
  simp [Body.env, hl, haw, hexp]

/-- Direct style goes on behind the `co_await` with the outcome that the child
is expected to give. -/
theorem agrees_afterAwait {body : FrameId → Option (Body Op V E)} {b : Body Op V E} {i : Nat}
    {k : Outcome V E → Prog Op V E} {l : Local} {o : Outcome V E} {r : Option (Outcome V E)}
    (hprog : b.prog = .await i k) (hl : b.locals[i]? = some l) (haw : l.awaited = false)
    (hexp : expected res body l.child = some o)
    (hagree : direct res b.prog b.path b.pos (b.env res body) = r) :
    direct res (k o) b.path b.pos ((b.afterAwait i l (k o)).env res body) = r := by
  rw [hprog, direct, env_expected hl haw hexp] at hagree
  rw [env_set_awaited]
  exact hagree

/-- After local variable `i` of `p` has changed, a local variable is that one or
was there before. -/
theorem local_cases {body : FrameId → Option (Body Op V E)} {p q : FrameId}
    {b b' a : Body Op V E} {i j : Nat} {l l' m : Local} (hb : body p = some b)
    (hcaller : b'.caller = b.caller) (hl : b.locals[i]? = some l)
    (hlocals : b'.locals = b.locals.set i l') (ha : update body p (some b') q = some a)
    (hm : a.locals[j]? = some m) :
    q = p ∧ j = i ∧ l' = m ∨
      ¬ (q = p ∧ j = i) ∧ ∃ a', body q = some a' ∧ a'.locals[j]? = some m := by
  have hilt : i < b.locals.length := (List.getElem?_eq_some_iff.mp hl).1
  rcases body_update hb hcaller ha with ⟨a', ha', -, hpa, hna⟩
  by_cases hqp : q = p
  · rcases hpa hqp with ⟨rfl, rfl⟩
    rw [hlocals] at hm
    by_cases hji : j = i
    · subst hji
      rw [List.getElem?_set_self hilt] at hm
      exact .inl ⟨hqp, rfl, Option.some.inj hm⟩
    · rw [List.getElem?_set_ne (Ne.symm hji)] at hm
      exact .inr ⟨fun h => hji h.2, a', ha', hm⟩
  · obtain rfl := hna hqp
    exact .inr ⟨fun h => hqp h.1, a', ha', hm⟩

/-- The parent goes on behind the `co_await` of a child that has finished. -/
theorem delivered_inv {c : Cfg Op V E} (hinv : Inv res c) {p : FrameId} {b : Body Op V E}
    {i : Nat} {k : Outcome V E → Prog Op V E} {l : Local} {fp fr : Frame V E}
    {o : Outcome V E} {st : St V E} {log : List (Event V E)}
    (hb : c.body p = some b) (hprog : b.prog = .await i k)
    (hl : b.locals[i]? = some l) (haw : l.awaited = false)
    (hp : c.st.frames p = some (.live fp))
    (hpp : fp.phase = .running ∨ fp.phase = .awaiting l.child)
    (hf : c.st.frames l.child = some (.live fr)) (hph : fr.phase = .returning ∨ fr.phase = .done)
    (ho : fr.promise = some o)
    (hgone : ∀ x, c.body l.child = some x → ∀ m ∈ x.locals, m.alive = false)
    (fr' fp' : Frame V E)
    (hfr' : fr'.phase = .done ∧ fr'.promise = fr.promise ∧
      fr'.releaseDetached = fr.releaseDetached)
    (hfp' : fp'.phase = .running ∧ fp'.releaseDetached = fp.releaseDetached ∧
      fp'.futureValid = fp.futureValid ∧ fp'.coAwaited = fp.coAwaited)
    (hm : TaskRun.Inv st) (hthread : st.thread = .running)
    (hframes : ∀ g, st.frames g = if g = p then some (.live fp') else
      if g = l.child then some (.live fr') else c.st.frames g)
    (htasks : st.tasks = c.st.tasks) (hnext : st.nextFrame = c.st.nextFrame)
    (hleaves : st.leaves = c.st.leaves) :
    Inv res ⟨st, update c.body p (some (b.afterAwait i l (k o))), log⟩ := by
  rcases hfr' with ⟨hdone', hpromise', hrelease'⟩
  rcases hfp' with ⟨hrun', hreleasep', hvalid', hco'⟩
  have hloc := hinv.loc p b i l hb hl
  have hne : l.child ≠ p := Nat.ne_of_gt hloc.later
  have hpair := PairStep.of_frames hp hf hne hframes
  have hnotdone : fp.phase ≠ .done := by
    rcases hpp with h | h <;> simp [h]
  generalize hb' : b.afterAwait i l (k o) = b'
  have hstart : b'.start = b.start := by rw [← hb']; rfl
  have hpath : b'.path = b.path := by rw [← hb']; rfl
  have hcaller : b'.caller = b.caller := by rw [← hb']; rfl
  have hlocals : b'.locals = b.locals.set i { l with awaited := true } := by rw [← hb']; rfl
  have hexp := expected_update res hb hstart hpath
  refine hinv.of_body_step hb hstart hpath hcaller hm hthread hnext (fun _ _ => hpair.live)
    (fun _ => hpair.live') ?_ ?_
  · intro f a fr₀ ha hfr₀
    rcases body_update hb hcaller ha with ⟨a', ha', -, hpa, hna⟩
    by_cases hfp : f = p
    · rcases hpa hfp with ⟨-, rfl⟩
      subst hfp
      rw [show st.frames f = _ from hpair.parent'] at hfr₀
      cases hfr₀
      have hold := hinv.frame f b fp hb hp
      refine .of_running hrun' (hreleasep'.trans hold.unmarked) ?_
      -- direct style takes the same branch: the child's outcome is its promise
      rcases hloc.caller with ⟨x, hx, -⟩
      have hexpc : expected res c.body l.child = some o :=
        ((hinv.frame _ x fr hx hf).returned hph).1.symm.trans ho
      have hagree := hold.agrees (by rcases hpp with h | h <;> simp [h]) hnotdone
      show direct res a.prog a.path a.pos (a.env res (update c.body f (some a))) = _
      rw [env_update res hb hstart hpath, show expected res (update c.body f (some a)) = _ from
        hexp, ← hb']
      exact agrees_afterAwait hprog hl haw hexpc hagree
    · obtain rfl := hna hfp
      by_cases hfc : f = l.child
      · subst hfc
        rw [show st.frames l.child = _ from hpair.child'] at hfr₀
        cases hfr₀
        have hold := hinv.frame _ a' fr ha' hf
        refine ⟨hrelease'.trans hold.unmarked, fun _ h => absurd hdone' h, ?_, ?_, fun _ => ?_,
          fun _ => hgone a' ha'⟩
        · simp [hdone']
        · simp [hdone']
        · refine ⟨?_, (hold.returned hph).2⟩
          rw [show expected res (update c.body p (some b')) = _ from hexp]
          exact hpromise'.trans (hold.returned hph).1
      · exact (hinv.frame f a' fr₀ ha' ((hpair.other f hfp hfc).symm.trans hfr₀)).congr
          (congrFun hexp f) (env_update res hb hstart hpath a') (fun h => hleaves ▸ h)
  · intro q a j m ha hm
    rcases local_cases hb hcaller hl hlocals ha hm with ⟨rfl, rfl, rfl⟩ | ⟨hqi, a', ha', hm'⟩
    · -- the local variable that was awaited
      refine ⟨hloc.later, ?_, fun h => (congrFun htasks _).trans (hloc.held h),
        fun h => (nomatch h), fun _ _ => phaseOf_of_live hpair.child' hdone',
        fun h => (nomatch h)⟩
      rcases hloc.caller with ⟨x, hx, hcall⟩
      exact ⟨x, (update_of_ne hne ..).trans hx, hcall⟩
    · have hmc : m.child ≠ l.child := fun h => hqi (hinv.local_unique ha' hm' hb hl h)
      refine PairStep.loc hpair (hinv.loc q a' j m ha' hm') hmc (fun x => body_update' hb hcaller)
        htasks hnotdone hvalid' hco' ?_ ?_
      · -- the parent waited for the child, if for anybody
        rcases hpp with h | h
        · simp [h]
        · rw [h]
          exact fun heq => hmc (Phase.awaiting.inj heq).symm
      · intro g hg
        rcases hph with h | h <;> simp [h] at hg

theorem set_eq_self {α : Type} {xs : List α} {i : Nat} {x : α} (h : xs[i]? = some x) :
    xs.set i x = xs := by
  rcases List.getElem?_eq_some_iff.mp h with ⟨hlt, rfl⟩
  exact List.set_getElem_self hlt

theorem env_set_dropped {body : FrameId → Option (Body Op V E)} (b : Body Op V E) {i : Nat}
    {l : Local} (hl : b.locals[i]? = some l) :
    (b.afterDrop i l).env res body = b.env res body := by
  unfold Body.env Body.afterDrop
  rw [List.map_set]
  exact set_eq_self (by simp [hl])

/-- The parent destroys the task object of a child that has finished, and the
frame of the child with it. -/
theorem drop_inv {c : Cfg Op V E} (hinv : Inv res c) {p : FrameId} {b : Body Op V E} {i : Nat}
    {l : Local} {fp fr : Frame V E} {st : St V E} (hb : c.body p = some b)
    (hl : b.locals[i]? = some l) (haw : l.awaited = true) (halive : l.alive = true)
    (hp : c.st.frames p = some (.live fp)) (hpp : fp.phase = .running ∨ fp.phase = .returning)
    (hf : c.st.frames l.child = some (.live fr)) (hph : fr.phase = .done)
    (hm : TaskRun.Inv st) (hthread : st.thread = .running)
    (hframes : ∀ g, st.frames g = if g = l.child then some .destroyed else c.st.frames g)
    (htasks : ∀ t, st.tasks t = if t = l.task then none else c.st.tasks t)
    (hnext : st.nextFrame = c.st.nextFrame) (hleaves : st.leaves = c.st.leaves) :
    Inv res ⟨st, update c.body p (some (b.afterDrop i l)), c.log⟩ := by
  have hne : p ≠ l.child := Nat.ne_of_lt (hinv.loc p b i l hb hl).later
  have hchild : st.frames l.child = some .destroyed := (hframes l.child).trans (if_pos rfl)
  have hother : ∀ g, g ≠ l.child → st.frames g = c.st.frames g := fun g hg =>
    (hframes g).trans (if_neg hg)
  generalize hb' : b.afterDrop i l = b'
  have hstart : b'.start = b.start := by rw [← hb']; rfl
  have hpath : b'.path = b.path := by rw [← hb']; rfl
  have hcaller : b'.caller = b.caller := by rw [← hb']; rfl
  have hlocals : b'.locals = b.locals.set i { l with alive := false } := by rw [← hb']; rfl
  have hexp := expected_update res hb hstart hpath
  have henv : b'.env res c.body = b.env res c.body := by
    rw [← hb']
    exact env_set_dropped b hl
  have hdrop : ∀ m ∈ b'.locals, m ∈ b.locals ∨ m = { l with alive := false } := by
    rw [hlocals]
    exact fun m => List.mem_or_eq_of_mem_set
  refine hinv.of_body_step hb hstart hpath hcaller hm hthread hnext ?_ ?_ ?_ ?_
  · intro g fr₀ hg
    by_cases hgc : g = l.child
    · exact ⟨fr, hgc ▸ hf⟩
    · exact ⟨fr₀, (hother g hgc).symm.trans hg⟩
  · intro fr₀ hroot
    have h0c : 0 ≠ l.child := Nat.ne_of_lt
      (Nat.lt_of_le_of_lt (Nat.zero_le p) (hinv.loc p b i l hb hl).later)
    exact ⟨fr₀, (hother 0 h0c).trans hroot⟩
  · intro f a fr₀ ha hfr₀
    rcases body_update hb hcaller ha with ⟨a', ha', -, hpa, hna⟩
    by_cases hfp : f = p
    · rcases hpa hfp with ⟨-, rfl⟩
      subst hfp
      obtain rfl : fp = fr₀ := by
        have := hp.symm.trans ((hother f hne).symm.trans hfr₀)
        simpa using this
      have hold := hinv.frame f b fp hb hp
      refine ⟨hold.unmarked, fun h1 h2 => ?_, ?_, ?_, fun h => ⟨?_, ?_⟩, ?_⟩
      · show direct res a.prog a.path a.pos (a.env res (update c.body f (some a))) = _
        rw [env_update res hb hstart hpath, henv,
          show expected res (update c.body f (some a)) = _ from hexp, ← hold.agrees h1 h2, ← hb']
        rfl
      · rcases hpp with h | h <;> simp [h]
      · rcases hpp with h | h <;> simp [h]
      · exact (hold.returned h).1.trans (congrFun hexp f).symm
      · intro m hm
        rcases hdrop m hm with hm | rfl
        · exact (hold.returned h).2 m hm
        · exact haw
      · rcases hpp with h | h <;> simp [h]
    · obtain rfl := hna hfp
      have hfc : f ≠ l.child := by
        rintro rfl
        rw [show st.frames l.child = _ from hchild] at hfr₀
        cases hfr₀
      exact (hinv.frame f a' fr₀ ha' ((hother f hfc).symm.trans hfr₀)).congr
        (congrFun hexp f) (env_update res hb hstart hpath a') (fun h => hleaves ▸ h)
  · intro q a j m ha hm
    rcases local_cases hb hcaller hl hlocals ha hm with ⟨rfl, rfl, rfl⟩ | ⟨hqi, a', ha', hm'⟩
    · -- the local variable that was destroyed
      have hloc := hinv.loc q b j l hb hl
      rcases hloc.caller with ⟨x, hx, hcall⟩
      exact ⟨hloc.later, ⟨x, (update_of_ne hne.symm ..).trans hx, hcall⟩, fun h => (nomatch h),
        fun h => absurd (haw.symm.trans h) (by decide), fun _ h => (nomatch h),
        fun h => absurd (haw.symm.trans h) (by decide)⟩
    · have hloc := hinv.loc q a' j m ha' hm'
      have hmc : m.child ≠ l.child := fun h => hqi (hinv.local_unique ha' hm' hb hl h)
      refine hloc.congr (fun x => body_update' hb hcaller) ?_ ?_ ?_ ?_
      · intro hmalive
        have htask : m.task ≠ l.task := by
          intro h
          have hheld := hloc.held hmalive
          rw [h, (hinv.loc p b i l hb hl).held halive] at hheld
          simp only [Option.some.injEq, TaskRun.TaskObj.mk.injEq, and_true] at hheld
          exact hmc hheld.symm
        exact (htasks m.task).trans (if_neg htask)
      · exact fun hd => (phaseOf_of_frames (hother _ hmc)).trans hd
      · exact fun _ fc hfc => ⟨fc, (hother _ hmc).symm.trans hfc, rfl, rfl⟩
      · intro hw
        by_cases hqc : q = l.child
        · rw [hqc, phaseOf_live hf, hph] at hw
          cases hw
        · exact (phaseOf_of_frames (hother _ hqc)).trans hw

/-! ## A call -/

theorem bodyAfterCall_new (c : Cfg Op V E) (p : FrameId) (b : Body Op V E)
    (child k : Prog Op V E) : c.bodyAfterCall p b child k c.st.nextFrame =
      some (Body.enter child (b.pos :: b.path) (some (p, b.locals.length))) :=
  update_self ..

theorem bodyAfterCall_of_ne (c : Cfg Op V E) {p g : FrameId} (b : Body Op V E)
    (child k : Prog Op V E) (h : g ≠ c.st.nextFrame) : c.bodyAfterCall p b child k g =
      update c.body p (some (b.afterCall k c.st.nextTask c.st.nextFrame)) g :=
  update_of_ne h ..

/-- A local variable after a call was there before, or holds the new task. -/
theorem local_call_cases {c : Cfg Op V E} {p q : FrameId} {a b : Body Op V E}
    {child k : Prog Op V E} {i : Nat} {l : Local} (hb : c.body p = some b)
    (ha : c.bodyAfterCall p b child k q = some a) (hl : a.locals[i]? = some l) :
    (∃ a', c.body q = some a' ∧ a'.locals[i]? = some l) ∨
      q = p ∧ i = b.locals.length ∧ l = ⟨c.st.nextTask, c.st.nextFrame, false, true⟩ := by
  by_cases hqn : q = c.st.nextFrame
  · -- the new coroutine has no local variables
    obtain rfl : Body.enter child (b.pos :: b.path) (some (p, b.locals.length)) = a := by
      have := (bodyAfterCall_new ..).symm.trans (hqn ▸ ha)
      simpa using this
    cases hl
  · have hcaller : (b.afterCall k c.st.nextTask c.st.nextFrame).caller = b.caller := rfl
    have hold := (bodyAfterCall_of_ne c b child k hqn).symm.trans ha
    rcases body_update hb hcaller hold with ⟨a', ha', -, hpa, hna⟩
    by_cases hqp : q = p
    · rcases hpa hqp with ⟨rfl, rfl⟩
      rcases Trace.getElem?_concat.mp hl with hl | ⟨hi, heq⟩
      · exact .inl ⟨a', ha', hl⟩
      · exact .inr ⟨hqp, hi, heq.symm⟩
    · obtain rfl := hna hqp
      exact .inl ⟨a', ha', hl⟩

theorem Inv.ne_nextFrame {c : Cfg Op V E} (hinv : Inv res c) {f : FrameId} {b : Body Op V E}
    (hb : c.body f = some b) : f ≠ c.st.nextFrame :=
  Nat.ne_of_lt (hinv.born f b hb)

theorem Inv.child_ne_nextFrame {c : Cfg Op V E} (hinv : Inv res c) {p : FrameId}
    {b : Body Op V E} {i : Nat} {l : Local} (hb : c.body p = some b)
    (hl : b.locals[i]? = some l) : l.child ≠ c.st.nextFrame := by
  rcases (hinv.loc p b i l hb hl).caller with ⟨x, hx, -⟩
  exact hinv.ne_nextFrame hx

theorem expected_call_new (c : Cfg Op V E) (p : FrameId) (b : Body Op V E)
    (child k : Prog Op V E) : expected res (c.bodyAfterCall p b child k) c.st.nextFrame =
      direct res child (b.pos :: b.path) 0 [] := by
  unfold expected
  rw [bodyAfterCall_new]
  rfl

/-- What the other coroutines are expected to give is as before. -/
theorem expected_call_of_ne {c : Cfg Op V E} {p g : FrameId} {b : Body Op V E}
    (hb : c.body p = some b) (child k : Prog Op V E) (h : g ≠ c.st.nextFrame) :
    expected res (c.bodyAfterCall p b child k) g = expected res c.body g := by
  have hstart : (b.afterCall k c.st.nextTask c.st.nextFrame).start = b.start := rfl
  rw [← expected_update res hb hstart rfl]
  unfold expected
  rw [bodyAfterCall_of_ne c b child k h]

theorem env_call {c : Cfg Op V E} (hinv : Inv res c) {p q : FrameId} {a b : Body Op V E}
    (hb : c.body p = some b) (child k : Prog Op V E) (ha : c.body q = some a) :
    a.env res (c.bodyAfterCall p b child k) = a.env res c.body := by
  refine List.map_congr_left fun l hl => ?_
  rcases List.mem_iff_getElem?.mp hl with ⟨i, hi⟩
  rw [expected_call_of_ne hb child k (hinv.child_ne_nextFrame ha hi)]

theorem env_afterCall {c : Cfg Op V E} (hinv : Inv res c) {p : FrameId} {b : Body Op V E}
    (hb : c.body p = some b) (child k : Prog Op V E) :
    (b.afterCall k c.st.nextTask c.st.nextFrame).env res (c.bodyAfterCall p b child k) =
      b.env res c.body ++ [direct res child (b.pos :: b.path) 0 []] := by
  rw [← env_call hinv hb child k hb]
  simp [Body.env, Body.afterCall, expected_call_new]

theorem frames_call (s : St V E) {g : FrameId} (h : g ≠ s.nextFrame) :
    (TaskRun.call s).frames g = s.frames g :=
  update_of_ne h ..

/-- The local variables that were there before the call. -/
theorem local_call_kept {c : Cfg Op V E} (hinv : Inv res c) {p q : FrameId} {a b : Body Op V E}
    {i : Nat} {l : Local} (hb : c.body p = some b) (child k : Prog Op V E)
    (ha : c.body q = some a) (hl : a.locals[i]? = some l) :
    LocalOk ⟨TaskRun.call c.st, c.bodyAfterCall p b child k, c.log⟩ q i l := by
  have hloc := hinv.loc q a i l ha hl
  have hqn := hinv.ne_nextFrame ha
  have hcn := hinv.child_ne_nextFrame ha hl
  have hcall : (b.afterCall k c.st.nextTask c.st.nextFrame).caller = b.caller := rfl
  refine hloc.congr ?_ ?_ ?_ ?_ ?_
  · intro x hx
    rcases body_update' hb hcall hx with ⟨x', hx', hsame⟩
    exact ⟨x', (bodyAfterCall_of_ne c b child k hcn).trans hx', hsame⟩
  · -- the number of the new task has not been used
    intro halive
    have hne : l.task ≠ c.st.nextTask := by
      intro h
      have hheld := hloc.held halive
      rw [h, hinv.machine.unbuilt _ (Nat.le_refl _)] at hheld
      cases hheld
    exact update_of_ne hne ..
  · exact fun hd => (phaseOf_of_frames (frames_call c.st hcn)).trans hd
  · exact fun _ fc hfc => ⟨fc, (frames_call c.st hcn).symm.trans hfc, rfl, rfl⟩
  · exact fun hw => (phaseOf_of_frames (frames_call c.st hqn)).trans hw

/-- The local variable that holds the new task. -/
theorem local_call_new {c : Cfg Op V E} (hinv : Inv res c) {p : FrameId} {b : Body Op V E}
    (hb : c.body p = some b) (child k : Prog Op V E) :
    LocalOk ⟨TaskRun.call c.st, c.bodyAfterCall p b child k, c.log⟩ p b.locals.length
      ⟨c.st.nextTask, c.st.nextFrame, false, true⟩ := by
  refine ⟨hinv.born p b hb, ⟨_, bodyAfterCall_new .., rfl⟩, fun _ => update_self ..,
    fun _ => rfl, fun h => (nomatch h), fun _ fc hfc => ?_⟩
  obtain rfl : Frame.fresh = fc := by
    have hnew : (TaskRun.call c.st).frames c.st.nextFrame = some (.live .fresh) := update_self ..
    simpa using hnew.symm.trans hfc
  exact ⟨rfl, fun h => (nomatch h)⟩

theorem call_inv {c : Cfg Op V E} (hinv : Inv res c) {p : FrameId} {b : Body Op V E}
    {child k : Prog Op V E} {fp : Frame V E} (hb : c.body p = some b)
    (hprog : b.prog = .call child k) (hp : c.st.frames p = some (.live fp))
    (hpp : fp.phase = .running) :
    Inv res ⟨TaskRun.call c.st, c.bodyAfterCall p b child k, c.log⟩ := by
  have hbody := fun g (hg : g ≠ c.st.nextFrame) => bodyAfterCall_of_ne c (p := p) b child k hg
  have hframes : ∀ g, g ≠ c.st.nextFrame → (TaskRun.call c.st).frames g = c.st.frames g :=
    fun g hg => frames_call c.st hg
  have hnew : (TaskRun.call c.st).frames c.st.nextFrame = some (.live .fresh) := update_self ..
  have hcall : (b.afterCall k c.st.nextTask c.st.nextFrame).caller = b.caller := rfl
  have hold := hinv.frame p b fp hb hp
  have hagree := hold.agrees (by simp [hpp]) (by simp [hpp])
  rw [hprog, direct] at hagree
  rcases hinv.defined p b hb with ⟨r, hr⟩
  rcases Option.bind_eq_some_iff.mp (hagree.trans hr) with ⟨o, ho, hk⟩
  constructor
  case machine => exact TaskRun.call_inv hinv.machine
  case thread => exact hinv.thread
  case born =>
    intro f a ha
    by_cases hfn : f = c.st.nextFrame
    · subst hfn
      exact Nat.lt_succ_self c.st.nextFrame
    · rcases body_update hb hcall ((hbody f hfn).symm.trans ha) with ⟨a', ha', -⟩
      exact Nat.lt_succ_of_lt (hinv.born f a' ha')
  case body =>
    intro f fr hfr
    by_cases hfn : f = c.st.nextFrame
    · exact ⟨_, hfn ▸ bodyAfterCall_new ..⟩
    · rcases hinv.body f fr ((hframes f hfn).symm.trans hfr) with ⟨a, ha⟩
      rcases body_update' hb hcall ha with ⟨a', ha', -⟩
      exact ⟨a', (hbody f hfn).trans ha'⟩
  case defined =>
    intro f a ha
    by_cases hfn : f = c.st.nextFrame
    · subst hfn
      exact ⟨o, (expected_call_new ..).trans ho⟩
    · rcases body_update hb hcall ((hbody f hfn).symm.trans ha) with ⟨a', ha', -⟩
      rcases hinv.defined f a' ha' with ⟨r', hr'⟩
      exact ⟨r', (expected_call_of_ne hb child k hfn).trans hr'⟩
  case frame =>
    intro f a fr ha hfr
    by_cases hfn : f = c.st.nextFrame
    · subst hfn
      obtain rfl : Body.enter child (b.pos :: b.path) (some (p, b.locals.length)) = a := by
        have := (bodyAfterCall_new ..).symm.trans ha
        simpa using this
      obtain rfl : Frame.fresh = fr := by
        have := hnew.symm.trans hfr
        simpa using this
      -- the new coroutine has the whole call before it
      exact .of_running rfl rfl (expected_call_new ..).symm
    · rcases body_update hb hcall ((hbody f hfn).symm.trans ha) with ⟨a', ha', -, hpa, hna⟩
      have hfr' := (hframes f hfn).symm.trans hfr
      by_cases hfp : f = p
      · rcases hpa hfp with ⟨-, rfl⟩
        subst hfp
        obtain rfl : fp = fr := by
          have := hp.symm.trans hfr'
          simpa using this
        refine .of_running hpp hold.unmarked ?_
        show direct res k b.path (b.pos + 1) (Body.env res _ _) = expected res _ f
        rw [env_afterCall hinv hb, expected_call_of_ne hb child k hfn, hr, ho, ← hk]
      · obtain rfl := hna hfp
        exact (hinv.frame f a' fr ha' hfr').congr (expected_call_of_ne hb child k hfn)
          (env_call hinv hb child k ha') id
  case loc =>
    intro q a i l ha hl
    rcases local_call_cases hb ha hl with ⟨a', ha', hl'⟩ | ⟨rfl, rfl, rfl⟩
    · exact local_call_kept hinv hb child k ha' hl'
    · exact local_call_new hinv hb child k
  case root =>
    rcases hinv.root with ⟨a, fr, ha, hroot, hfr⟩
    have h0 := hinv.ne_nextFrame ha
    rcases body_update' hb hcall ha with ⟨a', ha', hsame⟩
    exact ⟨a', fr, (hbody 0 h0).trans ha', hsame.trans hroot, (hframes 0 h0).trans hfr⟩

end Ucxpp.TaskProgram
