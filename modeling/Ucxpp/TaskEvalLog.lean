import Ucxpp.Lib.Trace
import Ucxpp.TaskEvalStep

/-!
# TaskEvalLog — the history of the awaits

What the log of a run says: a `co_await` ends after its coroutine has finished,
with the outcome that its body returned, and once for each task.
-/

namespace Ucxpp.TaskProgram

open Function (update update_self update_of_ne)
open TaskRun (FrameId TaskId Outcome Got Phase Frame St Act Effect phaseOf)

variable {Op V E : Type} {res : Results Op V E}

def Event.resumes (h : FrameId) : Event V E → Bool
  | .resumed _ c _ => decide (c = h)
  | _ => false

/-- A `co_await` ends only after its coroutine has finished, with the outcome
that its body returned. -/
def Ordered (log : List (Event V E)) : Prop :=
  Trace.Each (fun past e => ∀ p h o, e = .resumed p h o →
    .finished h ∈ past ∧ .returned h o ∈ past) log

/-- A coroutine has finished: it awaited all its tasks and stays where it is. -/
def Over (c : Cfg Op V E) (f : FrameId) : Prop :=
  (∃ b, c.body f = some b ∧ ∀ l ∈ b.locals, l.awaited = true) ∧
    ∀ fr, c.st.frames f = some (.live fr) → fr.phase = .done

variable (res) in
structure LogOk (c : Cfg Op V E) : Prop where
  returned : ∀ f o, .returned f o ∈ c.log → expected res c.body f = some o
  promise : ∀ f fr o, c.st.frames f = some (.live fr) →
    fr.phase = .returning ∨ fr.phase = .done → fr.promise = some o → .returned f o ∈ c.log
  finished : ∀ f fr, c.st.frames f = some (.live fr) → fr.phase = .done → .finished f ∈ c.log
  ended : ∀ f, .finished f ∈ c.log → Over c f
  resumed : ∀ p h o, .resumed p h o ∈ c.log →
    ∃ (b : Body Op V E) (i : Nat) (l : Local),
      c.body p = some b ∧ b.locals[i]? = some l ∧ l.child = h ∧ l.awaited = true
  once : ∀ (p : FrameId) (b : Body Op V E) (i : Nat) (l : Local),
    c.body p = some b → b.locals[i]? = some l → l.awaited = true →
    c.log.countP (Event.resumes l.child) = 1
  ordered : Ordered c.log

theorem Ordered.append {log : List (Event V E)} (h : Ordered log) {e : Event V E}
    (he : ∀ p c o, e = .resumed p c o → .finished c ∈ log ∧ .returned c o ∈ log) :
    Ordered (log ++ [e]) :=
  Trace.each_concat.mpr ⟨h, he⟩

/-- A step that adds nothing to the history. -/
theorem LogOk.silent {c c' : Cfg Op V E} (h : LogOk res c) (hlog : c'.log = c.log)
    (hexp : ∀ f o, expected res c.body f = some o → expected res c'.body f = some o)
    (hframe : ∀ f fr', c'.st.frames f = some (.live fr') →
      fr'.phase = .returning ∨ fr'.phase = .done →
      ∃ fr, c.st.frames f = some (.live fr) ∧ fr.phase = fr'.phase ∧ fr.promise = fr'.promise)
    (hover : ∀ f, Over c f → Over c' f)
    (hkeep : ∀ (p : FrameId) (b : Body Op V E) (i : Nat) (l : Local),
      c.body p = some b → b.locals[i]? = some l → l.awaited = true →
      ∃ (b' : Body Op V E) (l' : Local), c'.body p = some b' ∧ b'.locals[i]? = some l' ∧
        l'.child = l.child ∧ l'.awaited = true)
    (hnew : ∀ (p : FrameId) (b' : Body Op V E) (i : Nat) (l' : Local),
      c'.body p = some b' → b'.locals[i]? = some l' → l'.awaited = true →
      ∃ (b : Body Op V E) (l : Local), c.body p = some b ∧ b.locals[i]? = some l ∧
        l.child = l'.child ∧ l.awaited = true) : LogOk res c' where
  returned := fun f o hmem => hexp f o (h.returned f o (hlog ▸ hmem))
  promise := by
    intro f fr' o hf hph ho
    rcases hframe f fr' hf hph with ⟨fr, hfr, hsame, hpromise⟩
    rw [hlog]
    exact h.promise f fr o hfr (hsame ▸ hph) (hpromise.trans ho)
  finished := by
    intro f fr' hf hph
    rcases hframe f fr' hf (.inr hph) with ⟨fr, hfr, hsame, -⟩
    rw [hlog]
    exact h.finished f fr hfr (hsame.trans hph)
  ended := fun f hmem => hover f (h.ended f (hlog ▸ hmem))
  resumed := by
    intro p x o hmem
    rcases h.resumed p x o (hlog ▸ hmem) with ⟨b, i, l, hb, hl, hchild, haw⟩
    rcases hkeep p b i l hb hl haw with ⟨b', l', hb', hl', hsame, haw'⟩
    exact ⟨b', i, l', hb', hl', hsame.trans hchild, haw'⟩
  once := by
    intro p b' i l' hb' hl' haw'
    rcases hnew p b' i l' hb' hl' haw' with ⟨b, l, hb, hl, hsame, haw⟩
    rw [hlog, ← hsame]
    exact h.once p b i l hb hl haw
  ordered := hlog ▸ h.ordered

theorem mem_append_singleton {log : List (Event V E)} {e x : Event V E}
    (h : x ∈ log ++ [e]) : x ∈ log ∨ x = e := by
  simpa using h

theorem count_append {log : List (Event V E)} {e : Event V E} {h : FrameId}
    (he : Event.resumes h e = false) :
    (log ++ [e]).countP (Event.resumes h) = log.countP (Event.resumes h) := by
  simp [he]

/-- A body returns. -/
theorem LogOk.ret {c : Cfg Op V E} (h : LogOk res c) {p : FrameId} {fr : Frame V E}
    {o : Outcome V E} (hp : c.st.frames p = some (.live fr)) (hph : fr.phase ≠ .done)
    (hexp : expected res c.body p = some o) :
    LogOk res ⟨c.st.setFrame p { fr with phase := .returning, promise := some o }, c.body,
      c.log ++ [.returned p o]⟩ := by
  have hold : ∀ x, x ∈ c.log → x ∈ c.log ++ [.returned p o] := fun x => List.mem_append_left _
  have hframes := fun g => c.st.setFrame_frames p g
    { fr with phase := .returning, promise := some o }
  constructor
  · intro f o' hmem
    rcases mem_append_singleton hmem with hmem | heq
    · exact h.returned f o' hmem
    · cases heq
      exact hexp
  · intro f fr' o' hf hret ho
    by_cases hfp : f = p
    · rw [show (c.st.setFrame p _).frames f = _ from hframes f, if_pos hfp] at hf
      cases hf
      cases ho
      exact hfp ▸ List.mem_append_right _ (List.mem_singleton_self _)
    · rw [show (c.st.setFrame p _).frames f = _ from hframes f, if_neg hfp] at hf
      exact hold _ (h.promise f fr' o' hf hret ho)
  · intro f fr' hf hdone
    by_cases hfp : f = p
    · rw [show (c.st.setFrame p _).frames f = _ from hframes f, if_pos hfp] at hf
      cases hf
      cases hdone
    · rw [show (c.st.setFrame p _).frames f = _ from hframes f, if_neg hfp] at hf
      exact hold _ (h.finished f fr' hf hdone)
  · intro f hmem
    rcases mem_append_singleton hmem with hmem | heq
    · rcases h.ended f hmem with ⟨hb, hfr⟩
      refine ⟨hb, fun fr' hf => ?_⟩
      by_cases hfp : f = p
      · exact absurd (hfr fr (hfp ▸ hp)) hph
      · rw [show (c.st.setFrame p _).frames f = _ from hframes f, if_neg hfp] at hf
        exact hfr fr' hf
    · cases heq
  · intro q x o' hmem
    rcases mem_append_singleton hmem with hmem | heq
    · exact h.resumed q x o' hmem
    · cases heq
  · intro q b i l hb hl haw
    exact (count_append rfl).trans (h.once q b i l hb hl haw)
  · exact h.ordered.append (fun _ _ _ heq => nomatch heq)

/-- A coroutine finishes. -/
theorem LogOk.finish {c : Cfg Op V E} (h : LogOk res c) {p : FrameId} {b : Body Op V E}
    {fr : Frame V E} (hb : c.body p = some b) (hall : ∀ l ∈ b.locals, l.awaited = true)
    (hp : c.st.frames p = some (.live fr)) (hph : fr.phase = .returning) (fr' : Frame V E)
    (hph' : fr'.phase = .done) (hpromise : fr'.promise = fr.promise) :
    LogOk res ⟨c.st.setFrame p fr', c.body, c.log ++ [.finished p]⟩ := by
  have hold : ∀ x, x ∈ c.log → x ∈ c.log ++ [.finished p] := fun x => List.mem_append_left _
  have hframes := fun g => c.st.setFrame_frames p g fr'
  constructor
  · intro f o hmem
    rcases mem_append_singleton hmem with hmem | heq
    · exact h.returned f o hmem
    · cases heq
  · intro f fr₀ o hf hret ho
    by_cases hfp : f = p
    · rw [show (c.st.setFrame p _).frames f = _ from hframes f, if_pos hfp] at hf
      cases hf
      exact hold _ (hfp ▸ h.promise p fr o hp (.inl hph) (hpromise.symm.trans ho))
    · rw [show (c.st.setFrame p _).frames f = _ from hframes f, if_neg hfp] at hf
      exact hold _ (h.promise f fr₀ o hf hret ho)
  · intro f fr₀ hf hdone
    by_cases hfp : f = p
    · exact hfp ▸ List.mem_append_right _ (List.mem_singleton_self _)
    · rw [show (c.st.setFrame p _).frames f = _ from hframes f, if_neg hfp] at hf
      exact hold _ (h.finished f fr₀ hf hdone)
  · intro f hmem
    by_cases hfp : f = p
    · refine ⟨⟨b, hfp ▸ hb, hall⟩, fun fr₀ hf => ?_⟩
      rw [show (c.st.setFrame p _).frames f = _ from hframes f, if_pos hfp] at hf
      cases hf
      exact hph'
    · rcases mem_append_singleton hmem with hmem | heq
      · rcases h.ended f hmem with ⟨hbody, hfr⟩
        refine ⟨hbody, fun fr₀ hf => ?_⟩
        rw [show (c.st.setFrame p _).frames f = _ from hframes f, if_neg hfp] at hf
        exact hfr fr₀ hf
      · cases heq
        exact absurd rfl hfp
  · intro q x o hmem
    rcases mem_append_singleton hmem with hmem | heq
    · exact h.resumed q x o hmem
    · cases heq
  · intro q a i l ha hl haw
    exact (count_append rfl).trans (h.once q a i l ha hl haw)
  · exact h.ordered.append (fun _ _ _ heq => nomatch heq)

/-- Nothing has been delivered from a task that has not been awaited. -/
theorem LogOk.not_resumed {c : Cfg Op V E} (h : LogOk res c) {q : FrameId} {b : Body Op V E}
    {i : Nat} {l : Local}
    (hunique : ∀ (r : FrameId) (a : Body Op V E) (j : Nat) (m : Local), c.body r = some a →
      a.locals[j]? = some m → m.child = l.child → r = q ∧ j = i)
    (hb : c.body q = some b) (hl : b.locals[i]? = some l) (haw : l.awaited = false) :
    c.log.countP (Event.resumes l.child) = 0 := by
  rw [List.countP_eq_zero]
  intro e he hres
  cases e with
  | resumed r x o =>
    rcases h.resumed r x o he with ⟨a, j, m, ha, hm, hchild, hmaw⟩
    have hx : x = l.child := by simpa [Event.resumes] using hres
    rcases hunique r a j m ha hm (hchild.trans hx) with ⟨rfl, rfl⟩
    rw [hb] at ha
    cases ha
    rw [hl] at hm
    cases hm
    rw [haw] at hmaw
    cases hmaw
  | returned => cases hres
  | finished => cases hres

/-- The local variables that have been awaited before stay. -/
theorem awaited_afterAwait {body : FrameId → Option (Body Op V E)} {q r : FrameId}
    {a b : Body Op V E} {i j : Nat} {l m : Local} (prog : Prog Op V E) (hb : body q = some b)
    (hl : b.locals[i]? = some l) (haw : l.awaited = false) (ha : body r = some a)
    (hm : a.locals[j]? = some m) (hmaw : m.awaited = true) :
    ∃ a', update body q (some (b.afterAwait i l prog)) r = some a' ∧ a'.locals[j]? = some m := by
  by_cases hrq : r = q
  · subst hrq
    rw [hb] at ha
    cases ha
    have hij : i ≠ j := by
      rintro rfl
      rw [hl] at hm
      cases hm
      rw [haw] at hmaw
      cases hmaw
    exact ⟨_, update_self .., (List.getElem?_set_ne hij).trans hm⟩
  · exact ⟨a, (update_of_ne hrq ..).trans ha, hm⟩

/-- A `co_await` ends. -/
theorem LogOk.deliver {c : Cfg Op V E} (h : LogOk res c) {q : FrameId} {b : Body Op V E}
    {i : Nat} {l : Local} {fp : Frame V E} {o : Outcome V E} (prog : Prog Op V E) (st : St V E)
    (hunique : ∀ (r : FrameId) (a : Body Op V E) (j : Nat) (m : Local), c.body r = some a →
      a.locals[j]? = some m → m.child = l.child → r = q ∧ j = i)
    (hb : c.body q = some b) (hl : b.locals[i]? = some l) (haw : l.awaited = false)
    (hq : c.st.frames q = some (.live fp)) (hqp : fp.phase ≠ .done)
    (hfinished : .finished l.child ∈ c.log) (hreturned : .returned l.child o ∈ c.log)
    (hframe : ∀ f fr', st.frames f = some (.live fr') →
      ∃ fr, c.st.frames f = some (.live fr) ∧ (f ≠ q → fr.phase = fr'.phase) ∧
        fr.promise = fr'.promise)
    (hrun : ∀ fr', st.frames q = some (.live fr') → fr'.phase = .running) :
    LogOk res ⟨st, update c.body q (some (b.afterAwait i l prog)),
      c.log ++ [.resumed q l.child o]⟩ := by
  have hold : ∀ x, x ∈ c.log → x ∈ c.log ++ [.resumed q l.child o] :=
    fun x => List.mem_append_left _
  have hilt : i < b.locals.length := (List.getElem?_eq_some_iff.mp hl).1
  have hstart : (b.afterAwait i l prog).start = b.start := rfl
  have hcaller : (b.afterAwait i l prog).caller = b.caller := rfl
  have hlocals : (b.afterAwait i l prog).locals = b.locals.set i { l with awaited := true } := rfl
  have hzero := h.not_resumed hunique hb hl haw
  have hphase : ∀ f fr', st.frames f = some (.live fr') →
      fr'.phase = .returning ∨ fr'.phase = .done →
      ∃ fr, c.st.frames f = some (.live fr) ∧ fr.phase = fr'.phase ∧ fr.promise = fr'.promise := by
    intro f fr' hf hph
    have hfq : f ≠ q := by
      rintro rfl
      rw [hrun fr' hf] at hph
      rcases hph with hph | hph <;> cases hph
    rcases hframe f fr' hf with ⟨fr, hfr, hsame, hpromise⟩
    exact ⟨fr, hfr, hsame hfq, hpromise⟩
  constructor
  case returned =>
    intro f o' hmem
    show expected res (update c.body q (some (b.afterAwait i l prog))) f = _
    rw [expected_update res hb hstart rfl]
    rcases mem_append_singleton hmem with hmem | heq
    · exact h.returned f o' hmem
    · cases heq
  case promise =>
    intro f fr' o' hf hret ho
    rcases hphase f fr' hf hret with ⟨fr, hfr, hsame, hpromise⟩
    exact hold _ (h.promise f fr o' hfr (hsame ▸ hret) (hpromise.trans ho))
  case finished =>
    intro f fr' hf hdone
    rcases hphase f fr' hf (.inr hdone) with ⟨fr, hfr, hsame, -⟩
    exact hold _ (h.finished f fr hfr (hsame.trans hdone))
  case ended =>
    intro f hmem
    rcases mem_append_singleton hmem with hmem | heq
    · rcases h.ended f hmem with ⟨⟨a, ha, hall⟩, hfr⟩
      have hfq : f ≠ q := by
        rintro rfl
        exact hqp (hfr fp hq)
      refine ⟨⟨a, (update_of_ne hfq ..).trans ha, hall⟩, fun fr' hf => ?_⟩
      rcases hframe f fr' hf with ⟨fr, hfr₀, hsame, -⟩
      exact (hsame hfq).symm.trans (hfr fr hfr₀)
    · cases heq
  case resumed =>
    intro r x o' hmem
    rcases mem_append_singleton hmem with hmem | heq
    · rcases h.resumed r x o' hmem with ⟨a, j, m, ha, hm, hchild, hmaw⟩
      rcases awaited_afterAwait prog hb hl haw ha hm hmaw with ⟨a', ha', hm'⟩
      exact ⟨a', j, m, ha', hm', hchild, hmaw⟩
    · cases heq
      exact ⟨_, i, { l with awaited := true }, update_self .., List.getElem?_set_self hilt, rfl,
        rfl⟩
  case once =>
    intro r a j m ha hm hmaw
    rcases local_cases hb hcaller hl hlocals ha hm with ⟨-, -, rfl⟩ | ⟨hother, a', ha', hm'⟩
    · -- the task has not been awaited before
      rw [List.countP_append, hzero]
      simp [Event.resumes]
    · have hmc : m.child ≠ l.child := fun hmc => hother (hunique r a' j m ha' hm' hmc)
      refine (count_append (by simpa [Event.resumes] using fun h => hmc h.symm)).trans ?_
      exact h.once r a' j m ha' hm' hmaw
  case ordered =>
    refine h.ordered.append ?_
    rintro p x o' heq
    cases heq
    exact ⟨hfinished, hreturned⟩

/-- Which coroutine a local variable holds, and whether it has been awaited. -/
def Local.flag (l : Local) : FrameId × Bool := (l.child, l.awaited)

/-- A silent step of coroutine `p`, which has not finished: it keeps the flags
of its local variables. -/
theorem LogOk.silent_step {c : Cfg Op V E} (h : LogOk res c) {p : FrameId} {b b' : Body Op V E}
    {fp : Frame V E} {st : St V E} (hb : c.body p = some b)
    (hp : c.st.frames p = some (.live fp)) (hpp : fp.phase ≠ .done)
    (hstart : b'.start = b.start) (hpath : b'.path = b.path)
    (hflags : b'.locals.map Local.flag = b.locals.map Local.flag)
    (hframe : ∀ f fr', st.frames f = some (.live fr') →
      ∃ fr, c.st.frames f = some (.live fr) ∧ (f ≠ p → fr.phase = fr'.phase) ∧
        fr.promise = fr'.promise)
    (hown : ∀ fr', st.frames p = some (.live fr') → fr'.phase = fp.phase ∨
      fr'.phase ≠ .returning ∧ fr'.phase ≠ .done) :
    LogOk res ⟨st, update c.body p (some b'), c.log⟩ := by
  have hget : ∀ i : Nat, (b'.locals[i]?).map Local.flag = (b.locals[i]?).map Local.flag := by
    intro i
    rw [← List.getElem?_map, ← List.getElem?_map, hflags]
  refine h.silent rfl ?_ ?_ ?_ ?_ ?_
  · intro f o ho
    rwa [show expected res (update c.body p (some b')) = _ from
      expected_update res hb hstart hpath]
  · intro f fr' hf hph
    rcases hframe f fr' hf with ⟨fr, hfr, hsame, hpromise⟩
    refine ⟨fr, hfr, ?_, hpromise⟩
    by_cases hfp : f = p
    · subst hfp
      obtain rfl := live_eq hp hfr
      rcases hown fr' hf with heq | ⟨hret, hdone⟩
      · exact heq.symm
      · rcases hph with hph | hph
        · exact absurd hph hret
        · exact absurd hph hdone
    · exact hsame hfp
  · rintro f ⟨⟨a, ha, hall⟩, hdone⟩
    have hfp : f ≠ p := by
      rintro rfl
      exact hpp (hdone fp hp)
    refine ⟨⟨a, (update_of_ne hfp ..).trans ha, hall⟩, fun fr' hf => ?_⟩
    rcases hframe f fr' hf with ⟨fr, hfr, hsame, -⟩
    exact (hsame hfp).symm.trans (hdone fr hfr)
  · intro q a i l ha hl haw
    by_cases hqp : q = p
    · subst hqp
      rw [hb] at ha
      cases ha
      have hpair := hget i
      rw [hl, Option.map_some, Option.map_eq_some_iff] at hpair
      rcases hpair with ⟨l', hl', heq⟩
      simp only [Local.flag, Prod.mk.injEq] at heq
      exact ⟨b', l', update_self .., hl', heq.1, heq.2.trans haw⟩
    · exact ⟨a, l, (update_of_ne hqp ..).trans ha, hl, rfl, haw⟩
  · intro q a i l ha hl haw
    by_cases hqp : q = p
    · subst hqp
      obtain rfl : b' = a := by
        have := (update_self ..).symm.trans ha
        simpa using this
      have hpair := hget i
      rw [hl, Option.map_some, eq_comm, Option.map_eq_some_iff] at hpair
      rcases hpair with ⟨l', hl', heq⟩
      simp only [Local.flag, Prod.mk.injEq] at heq
      exact ⟨b, l', hb, hl', heq.1, heq.2.trans haw⟩
    · exact ⟨a, l, (update_of_ne hqp ..).symm.trans ha, hl, rfl, haw⟩

/-- A call adds a coroutine that has not been awaited. -/
theorem LogOk.call {c : Cfg Op V E} (h : LogOk res c) (hinv : Inv res c) {p : FrameId}
    {b : Body Op V E} {fp : Frame V E} {child k : Prog Op V E} (hb : c.body p = some b)
    (hp : c.st.frames p = some (.live fp)) (hpp : fp.phase ≠ .done) :
    LogOk res ⟨TaskRun.call c.st, c.bodyAfterCall p b child k, c.log⟩ := by
  have hbody := fun g (hg : g ≠ c.st.nextFrame) => bodyAfterCall_of_ne c (p := p) b child k hg
  have hframes : ∀ g, g ≠ c.st.nextFrame → (TaskRun.call c.st).frames g = c.st.frames g :=
    fun g hg => update_of_ne hg ..
  have hnew : (TaskRun.call c.st).frames c.st.nextFrame = some (.live .fresh) := update_self ..
  refine h.silent rfl ?_ ?_ ?_ ?_ ?_
  · intro f o ho
    rcases Option.bind_eq_some_iff.mp ho with ⟨a, ha, -⟩
    exact (expected_call_of_ne hb child k (hinv.ne_nextFrame ha)).trans ho
  · intro f fr' hf hph
    by_cases hfn : f = c.st.nextFrame
    · rw [show (TaskRun.call c.st).frames f = _ from hfn ▸ hnew] at hf
      cases hf
      rcases hph with hph | hph <;> cases hph
    · exact ⟨fr', (hframes f hfn).symm.trans hf, rfl, rfl⟩
  · rintro f ⟨⟨a, ha, hall⟩, hdone⟩
    have hfp : f ≠ p := by
      rintro rfl
      exact hpp (hdone fp hp)
    have hfn := hinv.ne_nextFrame ha
    exact ⟨⟨a, (hbody f hfn).trans ((update_of_ne hfp ..).trans ha), hall⟩,
      fun fr' hf => hdone fr' ((hframes f hfn).symm.trans hf)⟩
  · intro q a i l ha hl haw
    have hqn := hinv.ne_nextFrame ha
    by_cases hqp : q = p
    · subst hqp
      rw [hb] at ha
      cases ha
      refine ⟨_, l, (hbody q hqn).trans (update_self ..), ?_, rfl, haw⟩
      exact (List.getElem?_append_left (List.getElem?_eq_some_iff.mp hl).1).trans hl
    · exact ⟨a, l, (hbody q hqn).trans ((update_of_ne hqp ..).trans ha), hl, rfl, haw⟩
  · intro q a i l ha hl haw
    rcases local_call_cases hb ha hl with ⟨a', ha', hl'⟩ | ⟨-, -, rfl⟩
    · exact ⟨a', l, ha', hl', rfl, haw⟩
    · cases haw

/-- A step that changes one frame, and neither its promise nor whether it is
leaving. -/
theorem frame_of_setFrame {s st : St V E} {p : FrameId} {fr : Frame V E}
    (hp : s.frames p = some (.live fr)) (fr' : Frame V E) (hpromise : fr'.promise = fr.promise)
    (hframes : st.frames = (s.setFrame p fr').frames) :
    ∀ f x, st.frames f = some (.live x) →
      ∃ y, s.frames f = some (.live y) ∧ (f ≠ p → y.phase = x.phase) ∧ y.promise = x.promise := by
  intro f x hx
  rw [hframes, s.setFrame_frames] at hx
  by_cases hfp : f = p
  · rw [if_pos hfp] at hx
    cases hx
    exact ⟨fr, hfp ▸ hp, fun h => absurd hfp h, hpromise.symm⟩
  · rw [if_neg hfp] at hx
    exact ⟨x, hx, fun _ => rfl, rfl⟩

/-- A step in which `p` goes on and `f` keeps its promise and its phase. -/
theorem frame_of_setFrames {s : St V E} {f p : FrameId} {fr fp : Frame V E}
    (hf : s.frames f = some (.live fr)) (hp : s.frames p = some (.live fp)) (fr' fp' : Frame V E)
    (hphase : fr'.phase = fr.phase) (hrpromise : fr'.promise = fr.promise)
    (hpromise : fp'.promise = fp.promise) :
    ∀ g x, ((s.setFrame f fr').setFrame p fp').frames g = some (.live x) →
      ∃ y, s.frames g = some (.live y) ∧ (g ≠ p → y.phase = x.phase) ∧ y.promise = x.promise := by
  intro g x hx
  rw [s.setFrame_setFrame_frames] at hx
  by_cases hgp : g = p
  · rw [if_pos hgp] at hx
    cases hx
    exact ⟨fp, hgp ▸ hp, fun h => absurd hgp h, hpromise.symm⟩
  · rw [if_neg hgp] at hx
    by_cases hgf : g = f
    · rw [if_pos hgf] at hx
      cases hx
      exact ⟨fr, hgf ▸ hf, fun _ => hphase.symm, hrpromise.symm⟩
    · rw [if_neg hgf] at hx
      exact ⟨x, hx, fun _ => rfl, rfl⟩

theorem step_log {c c' : Cfg Op V E} {m : Move} (hinv : Inv res c) (hlog : LogOk res c)
    (h : Step res c m c') : LogOk res c' := by
  cases h with
  | @ret p r b fr o hb hprog hp hph =>
    exact hlog.ret hp (by simp [hph]) (hinv.ret_awaited hb hprog hp hph).1
  | @ready p b fr op k hb hprog hp hph =>
    refine hlog.silent_step hb hp (by simp [hph]) rfl rfl rfl
      (fun f x hx => ⟨x, hx, fun _ => rfl, rfl⟩) ?_
    intro x hx
    exact .inl (congrArg Frame.phase (live_eq hp hx)).symm
  | @suspend p b fr op k hb hprog hp hph =>
    rw [← body_self hb]
    refine hlog.silent_step hb hp (by simp [hph]) rfl rfl rfl
      (frame_of_setFrame hp { fr with phase := .leaf } rfl rfl) ?_
    intro x hx
    obtain rfl := live_eq (c.st.setFrame_frames_self p _) hx
    exact .inr ⟨by simp, by simp⟩
  | @call p r b fr child k hb hprog hp hph => exact hlog.call hinv hb hp (by simp [hph])
  | @awaitPending p r b i k l fp fr hb hprog hl haw hp hpp hf hph =>
    rw [← body_self hb]
    refine hlog.silent_step hb hp (by simp [hpp]) rfl rfl rfl
      (frame_of_setFrames hf hp _ _ rfl rfl rfl) ?_
    intro x hx
    obtain rfl := live_eq (TaskRun.St.setFrame_frames_self ..) hx
    exact .inr ⟨by simp, by simp⟩
  | @awaitDone p r b i k l fp fr o hb hprog hl haw hp hpp hf hph ho =>
    have hret := hlog.promise _ fr o hf (.inr hph) ho
    refine hlog.deliver _ _ (fun r a j m ha hm hmc => hinv.local_unique ha hm hb hl hmc)
      hb hl haw hp (by simp [hpp]) (hlog.finished _ fr hf hph) hret
      (frame_of_setFrames hf hp _ _ rfl rfl rfl) ?_
    intro x hx
    obtain rfl := live_eq (TaskRun.St.setFrame_frames_self ..) hx
    rfl
  | @resume f b fr op k hb hprog hf hph =>
    refine hlog.silent_step hb hf (by simp [hph]) rfl rfl rfl
      (frame_of_setFrame hf { fr with phase := .running } rfl rfl) ?_
    intro x hx
    obtain rfl := live_eq (c.st.setFrame_frames_self f _) hx
    exact .inr ⟨by simp, by simp⟩
  | @drop p i b l fp fr hb hl haw halive hp hpp hf hph =>
    have hne : p ≠ l.child := Nat.ne_of_lt (hinv.loc p b i l hb hl).later
    have hkept : ∀ f x, update c.st.frames l.child (some .destroyed) f = some (.live x) →
        c.st.frames f = some (.live x) := by
      intro f x hx
      by_cases hfc : f = l.child
      · simp [hfc] at hx
      · rwa [update_of_ne hfc] at hx
    refine hlog.silent_step hb hp (by rcases hpp with h | h <;> simp [h]) rfl rfl ?_
      (fun f x hx => ⟨x, hkept f x hx, fun _ => rfl, rfl⟩) ?_
    · unfold Body.afterDrop
      rw [List.map_set]
      exact set_eq_self (by simp [hl, Local.flag])
    · intro x hx
      exact .inl (congrArg Frame.phase (live_eq hp (hkept p x hx))).symm
  | @finish p b fr hb hgone hp hph hc =>
    exact hlog.finish hb ((hinv.frame p b fr hb hp).returned (.inl hph)).2 hp hph _ rfl rfl
  | @handOver p a fr q b i k l fp o ha hgone hf hph ho hb hprog hl haw hchild hq hqp =>
    subst hchild
    have hne : q ≠ l.child := Nat.ne_of_lt (hinv.loc q b i l hb hl).later
    -- the child finishes first, then the parent goes on
    have hfin := hlog.finish ha ((hinv.frame _ a fr ha hf).returned (.inl hph)).2 hf hph
      { fr with phase := .done, futureValid := false } rfl rfl
    have hq' := (c.st.setFrame_frames_of_ne { fr with phase := .done, futureValid := false }
      hne).trans hq
    have hret := hlog.promise _ fr o hf (.inl hph) ho
    have hdel := hfin.deliver (k o) ((c.st.setFrame l.child
      { fr with phase := .done, futureValid := false }).setFrame q
        { fp with phase := .running, got := some (.outcome o) })
      (fun r x j m hx hm hmc => hinv.local_unique hx hm hb hl hmc) hb hl haw hq' (by simp [hqp])
      (List.mem_append_right _ (List.mem_singleton_self _)) (List.mem_append_left _ hret)
      (frame_of_setFrame hq' { fp with phase := .running, got := some (.outcome o) } rfl rfl) ?_
    · simpa using hdel
    · intro x hx
      obtain rfl := live_eq (TaskRun.St.setFrame_frames_self ..) hx
      rfl

end Ucxpp.TaskProgram
