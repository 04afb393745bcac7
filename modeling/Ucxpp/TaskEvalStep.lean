import Ucxpp.TaskEval

/-!
# TaskEvalStep — what the moves of a run do

`Step` lists what a move can do in a state of a run, with everything that its
case analysis finds out. One lemma for each kind of move says that it is
possible and has that effect; `step_cases` is the inversion, and `step_inv`
takes the invariant over every effect.
-/

namespace Ucxpp.TaskProgram

open Function (update update_self update_of_ne)
open TaskRun (FrameId TaskId Outcome Got Phase Frame St Act Effect phaseOf)

variable {Op V E : Type} (res : Results Op V E)

/-! ## What a step does -/

/-- The effect of each move in a state of a run. -/
inductive Step (c : Cfg Op V E) : Move → Cfg Op V E → Prop where
  | ret {p r b fr o} (hb : c.body p = some b) (hprog : b.prog = .ret o)
      (hp : c.st.frames p = some (.live fr)) (hph : fr.phase = .running) :
      Step c (.step p r)
        ⟨c.st.setFrame p { fr with phase := .returning, promise := some o }, c.body,
          c.log ++ [.returned p o]⟩
  | ready {p b fr op k} (hb : c.body p = some b) (hprog : b.prog = .leaf op k)
      (hp : c.st.frames p = some (.live fr)) (hph : fr.phase = .running) :
      Step c (.step p true) (c.setBody p (b.afterLeaf res op k))
  | suspend {p b fr op k} (hb : c.body p = some b) (hprog : b.prog = .leaf op k)
      (hp : c.st.frames p = some (.live fr)) (hph : fr.phase = .running) :
      Step c (.step p false) { c with
        st := { c.st.setFrame p { fr with phase := .leaf } with
          leaves := insert p c.st.leaves } }
  | call {p r b fr child k} (hb : c.body p = some b) (hprog : b.prog = .call child k)
      (hp : c.st.frames p = some (.live fr)) (hph : fr.phase = .running) :
      Step c (.step p r)
        ⟨TaskRun.call c.st, c.bodyAfterCall p b child k, c.log⟩
  | awaitPending {p r b i k l fp fr} (hb : c.body p = some b) (hprog : b.prog = .await i k)
      (hl : b.locals[i]? = some l) (haw : l.awaited = false)
      (hp : c.st.frames p = some (.live fp)) (hpp : fp.phase = .running)
      (hf : c.st.frames l.child = some (.live fr)) (hph : fr.phase ≠ .done) :
      Step c (.step p r) { c with
        st := (c.st.setFrame l.child { fr with coAwaited := true, continuation := some p }).setFrame
          p { fp with phase := .awaiting l.child } }
  | awaitDone {p r b i k l fp fr o} (hb : c.body p = some b) (hprog : b.prog = .await i k)
      (hl : b.locals[i]? = some l) (haw : l.awaited = false)
      (hp : c.st.frames p = some (.live fp)) (hpp : fp.phase = .running)
      (hf : c.st.frames l.child = some (.live fr)) (hph : fr.phase = .done)
      (ho : fr.promise = some o) :
      Step c (.step p r)
        ⟨(c.st.setFrame l.child { fr with coAwaited := true, futureValid := false }).setFrame p
            { fp with phase := .running, got := some (.outcome o) },
          update c.body p (some (b.afterAwait i l (k o))),
          c.log ++ [.resumed p l.child o]⟩
  | resume {f b fr op k} (hb : c.body f = some b) (hprog : b.prog = .leaf op k)
      (hf : c.st.frames f = some (.live fr)) (hph : fr.phase = .leaf) :
      Step c (.resume f)
        ⟨{ c.st.setFrame f { fr with phase := .running } with leaves := c.st.leaves.erase f },
          update c.body f (some (b.afterLeaf res op k)), c.log⟩
  | drop {p i b l fp fr} (hb : c.body p = some b) (hl : b.locals[i]? = some l)
      (haw : l.awaited = true) (halive : l.alive = true)
      (hp : c.st.frames p = some (.live fp))
      (hpp : fp.phase = .running ∨ fp.phase = .returning)
      (hf : c.st.frames l.child = some (.live fr)) (hph : fr.phase = .done) :
      Step c (.drop p i)
        ⟨{ c.st with
            frames := update c.st.frames l.child (some .destroyed)
            tasks := update c.st.tasks l.task none },
          update c.body p (some (b.afterDrop i l)), c.log⟩
  | finish {p b fr} (hb : c.body p = some b) (hgone : ∀ m ∈ b.locals, m.alive = false)
      (hp : c.st.frames p = some (.live fr)) (hph : fr.phase = .returning)
      (hc : fr.continuation = none) :
      Step c (.leave p)
        ⟨c.st.setFrame p { fr with phase := .done }, c.body, c.log ++ [.finished p]⟩
  | handOver {p a fr q b i k l fp o} (ha : c.body p = some a)
      (hgone : ∀ m ∈ a.locals, m.alive = false)
      (hf : c.st.frames p = some (.live fr)) (hph : fr.phase = .returning)
      (ho : fr.promise = some o) (hb : c.body q = some b) (hprog : b.prog = .await i k)
      (hl : b.locals[i]? = some l) (haw : l.awaited = false) (hchild : l.child = p)
      (hq : c.st.frames q = some (.live fp)) (hqp : fp.phase = .awaiting p) :
      Step c (.leave p)
        ⟨(c.st.setFrame p { fr with phase := .done, futureValid := false }).setFrame q
            { fp with phase := .running, got := some (.outcome o) },
          update c.body q (some (b.afterAwait i l (k o))),
          c.log ++ [.finished p, .resumed q p o]⟩

variable {res}

theorem machine_spec {s : St V E} {a : Act V E} (hinv : TaskRun.Inv s)
    (hen : TaskRun.Enabled s a) (hcon : TaskRun.Contract s a) :
    ∃ s', TaskRun.next s a = some s' ∧ Effect s a s' := by
  rcases TaskRun.step_spec hinv hen hcon with ⟨s', hs', heff⟩
  exact ⟨s', Lts.guarded_eq_some_iff.mpr ⟨hen, hs'⟩, heff⟩

/-- A running coroutine that awaits a local variable keeps to the contract of
task objects. -/
theorem Inv.await_contract {c : Cfg Op V E} (hinv : Inv res c) {p : FrameId} {b : Body Op V E}
    {i : Nat} {l : Local} {fp : Frame V E} (hb : c.body p = some b)
    (hl : b.locals[i]? = some l) (haw : l.awaited = false)
    (hp : c.st.frames p = some (.live fp)) (hpp : fp.phase = .running) :
    TaskRun.Contract c.st (.coAwait p l.task) := by
  have hloc := hinv.loc p b i l hb hl
  have hheld := hloc.held (hloc.kept haw)
  rcases hinv.machine.owned _ _ hheld with ⟨fr, hf, -⟩
  refine ⟨_, hheld, rfl, l.child, rfl, fr, TaskRun.St.live_eq_some.mpr hf, ?_⟩
  by_contra hco
  have hwait := (hloc.fresh haw fr hf).2 (by simpa using hco)
  exact phaseOf_ne_of_live hp (by simp [hpp]) hwait

theorem deliver_eq {c : Cfg Op V E} {p : FrameId} {b : Body Op V E} {fp : Frame V E} {i : Nat}
    {k : Outcome V E → Prog Op V E} {l : Local} {o : Outcome V E} (hb : c.body p = some b)
    (hp : c.st.frames p = some (.live fp)) (hprog : b.prog = .await i k)
    (hl : b.locals[i]? = some l) (hgot : fp.got = some (.outcome o)) :
    deliver c p = some ⟨c.st, update c.body p (some (b.afterAwait i l (k o))),
      c.log ++ [.resumed p l.child o]⟩ := by
  simp only [deliver, hb, TaskRun.St.live_eq_some.mpr hp, hprog, hgot, hl]
  rfl

theorem live_eq {s : St V E} {f : FrameId} {fr fr' : Frame V E}
    (h : s.frames f = some (.live fr)) (h' : s.frames f = some (.live fr')) : fr = fr' := by
  have := h.symm.trans h'
  simpa using this

/-- Direct style tells which local variable a running coroutine awaits. -/
theorem Inv.await_local {c : Cfg Op V E} (hinv : Inv res c) {p : FrameId} {b : Body Op V E}
    {i : Nat} {k : Outcome V E → Prog Op V E} {fp : Frame V E} (hb : c.body p = some b)
    (hprog : b.prog = .await i k) (hp : c.st.frames p = some (.live fp))
    (hpp : fp.phase = .running) : ∃ l, b.locals[i]? = some l ∧ l.awaited = false := by
  rcases hinv.defined p b hb with ⟨o, ho⟩
  have hagree := (hinv.frame p b fp hb hp).agrees (by simp [hpp]) (by simp [hpp])
  rw [hprog, direct, ho] at hagree
  split at hagree
  · rename_i o' henv
    simp only [Body.env, List.getElem?_map, Option.map_eq_some_iff] at henv
    rcases henv with ⟨l, hl, hentry⟩
    refine ⟨l, hl, ?_⟩
    by_contra haw
    simp [haw] at hentry
  · cases hagree

/-- A running coroutine can always do its next step. -/
theorem run_spec {c : Cfg Op V E} (hinv : Inv res c) {p : FrameId} {b : Body Op V E}
    {fp : Frame V E} (hb : c.body p = some b) (hp : c.st.frames p = some (.live fp))
    (hpp : fp.phase = .running) (ready : Bool) :
    ∃ c', next res c (.step p ready) = some c' ∧ Step res c (.step p ready) c' := by
  have hrun : phaseOf c.st p = some .running := phaseOf_of_live hp hpp
  have hnext : next res c (.step p ready) = stepBody res c p ready b := by
    simp only [next, hb, hrun]
  rw [hnext]
  cases hprog : b.prog with
  | ret o =>
    obtain ⟨s', hs', heff⟩ := machine_spec (a := .coReturn p o) hinv.machine
      ⟨hinv.thread, hrun⟩ trivial
    simp only [stepBody, hprog, hs', Option.map_some]
    cases heff with
    | coReturn hf hph =>
      obtain rfl := live_eq hp hf
      exact ⟨_, rfl, .ret hb hprog hp hpp⟩
  | leaf op k =>
    cases ready with
    | true =>
      simp only [stepBody, hprog, if_true]
      exact ⟨_, rfl, .ready hb hprog hp hpp⟩
    | false =>
      obtain ⟨s', hs', heff⟩ := machine_spec (a := .suspend p) hinv.machine
        ⟨hinv.thread, hrun⟩ trivial
      simp only [stepBody, hprog, Bool.false_eq_true, if_false, hs', Option.map_some]
      cases heff with
      | suspend hf hph =>
        obtain rfl := live_eq hp hf
        exact ⟨_, rfl, .suspend hb hprog hp hpp⟩
  | call child k =>
    obtain ⟨s', hs', heff⟩ := machine_spec (a := .call) hinv.machine ⟨hinv.thread, trivial⟩ trivial
    simp only [stepBody, hprog, hs', Option.map_some]
    cases heff with
    | call => exact ⟨_, rfl, .call hb hprog hp hpp⟩
  | await i k =>
    rcases hinv.await_local hb hprog hp hpp with ⟨l, hl, haw⟩
    have hloc := hinv.loc p b i l hb hl
    have hheld := hloc.held (hloc.kept haw)
    have hne : p ≠ l.child := Nat.ne_of_lt hloc.later
    obtain ⟨s', hs', heff⟩ := machine_spec (a := .coAwait p l.task) hinv.machine
      ⟨hinv.thread, hrun, _, hheld, by simp⟩ (hinv.await_contract hb hl haw hp hpp)
    simp only [stepBody, hprog, hl, haw, Bool.false_eq_true, if_false, hs', Option.bind_some]
    cases heff with
    | @awaitDone _ fp' _ h fr o hp' hpp' ht hf hph ho =>
      -- the child has finished: the parent does not suspend
      obtain rfl := live_eq hp hp'
      obtain rfl : l.child = h := by simpa using hheld.symm.trans ht
      have htaken : fr.taken o = .outcome o := if_pos (hloc.fresh haw fr hf).1
      rw [if_pos ((phaseOf_live (TaskRun.St.setFrame_frames_self ..)).trans rfl)]
      refine ⟨_, ?_, .awaitDone hb hprog hl haw hp hpp hf hph ho⟩
      rw [htaken]
      exact deliver_eq (c := { c with st := (c.st.setFrame l.child _).setFrame p _ }) hb
        (TaskRun.St.setFrame_frames_self ..) hprog hl rfl
    | @awaitPending _ fp' _ h fr hp' hpp' ht hf hph hne' hc =>
      obtain rfl := live_eq hp hp'
      obtain rfl : l.child = h := by simpa using hheld.symm.trans ht
      rw [if_neg]
      · exact ⟨_, rfl, .awaitPending hb hprog hl haw hp hpp hf hph⟩
      · exact phaseOf_ne_of_live (TaskRun.St.setFrame_frames_self ..) (fun h => nomatch h)
    | awaitSelf hp' hpp' ht hc =>
      -- a coroutine never holds its own task: its children are younger
      have : l.child = p := by simpa using hheld.symm.trans ht
      exact absurd this.symm hne

/-- A pending operation can always complete. -/
theorem resume_spec {c : Cfg Op V E} (hinv : Inv res c) {f : FrameId}
    (hleaf : f ∈ c.st.leaves) :
    ∃ c', next res c (.resume f) = some c' ∧ Step res c (.resume f) c' := by
  rcases hinv.machine.leaf f hleaf with ⟨fr, hf, hph⟩
  rcases hinv.body f fr hf with ⟨b, hb⟩
  rcases (hinv.frame f b fr hb hf).leaf hph with ⟨-, op, k, hprog⟩
  obtain ⟨s', hs', heff⟩ := machine_spec (a := .resume f) hinv.machine
    ⟨hinv.thread, hleaf⟩ trivial
  cases heff with
  | resume hf' hph' =>
    obtain rfl := live_eq hf hf'
    refine ⟨_, ?_, .resume hb hprog hf hph⟩
    simp only [next, hb, resumeBody, hprog, hs', Option.map_some]
    rfl

/-- The task object of an awaited coroutine can always be destroyed. -/
theorem drop_spec {c : Cfg Op V E} (hinv : Inv res c) {p : FrameId} {b : Body Op V E} {i : Nat}
    {l : Local} {fp : Frame V E} (hb : c.body p = some b) (hl : b.locals[i]? = some l)
    (haw : l.awaited = true) (halive : l.alive = true) (hp : c.st.frames p = some (.live fp))
    (hpp : fp.phase = .running ∨ fp.phase = .returning) :
    ∃ c', next res c (.drop p i) = some c' ∧ Step res c (.drop p i) c' := by
  have hloc := hinv.loc p b i l hb hl
  have hheld := hloc.held halive
  rcases TaskRun.phaseOf_eq_some.mp (hloc.finished haw halive) with ⟨fr, hf, hph⟩
  have hnext : next res c (.drop p i) = dropLocal c p i b := by
    rcases hpp with h | h <;> simp only [next, hb, phaseOf_live hp, h]
  obtain ⟨s', hs', heff⟩ := machine_spec (a := .destroyTask l.task) hinv.machine
    ⟨hinv.thread, by simp [hheld]⟩ trivial
  rw [hnext]
  simp only [dropLocal, hl, if_pos (And.intro haw halive), hs', Option.map_some]
  cases heff with
  | dropDetached ht =>
    rw [hheld] at ht
    cases ht
  | @dropDone _ h fr' ht hf' hph' =>
    obtain rfl : l.child = h := by simpa using hheld.symm.trans ht
    exact ⟨_, rfl, .drop hb hl haw halive hp hpp hf hph⟩
  | @dropReturning _ h fr' ht hf' hph' =>
    obtain rfl : l.child = h := by simpa using hheld.symm.trans ht
    obtain rfl := live_eq hf hf'
    exact absurd hph hph'
  | @stop _ h fr' _ ht hf' hph' =>
    obtain rfl : l.child = h := by simpa using hheld.symm.trans ht
    obtain rfl := live_eq hf hf'
    exact absurd hph hph'

/-- A coroutine whose local variables are gone can always reach its final
suspend point. -/
theorem leave_spec {c : Cfg Op V E} (hinv : Inv res c) {p : FrameId} {b : Body Op V E}
    {fr : Frame V E} (hb : c.body p = some b) (hgone : ∀ m ∈ b.locals, m.alive = false)
    (hp : c.st.frames p = some (.live fr)) (hph : fr.phase = .returning) :
    ∃ c', next res c (.leave p) = some c' ∧ Step res c (.leave p) c' := by
  have hret : phaseOf c.st p = some .returning := phaseOf_of_live hp hph
  obtain ⟨s', hs', heff⟩ := machine_spec (a := .finalSuspend p) hinv.machine
    ⟨hinv.thread, hret⟩ trivial
  simp only [next, hb, leaveBody, if_pos hgone, hs', Option.bind_some,
    TaskRun.St.live_eq_some.mpr hp]
  cases heff with
  | finish hf _ hc hr =>
    obtain rfl := live_eq hp hf
    refine ⟨_, ?_, .finish hb hgone hp hph hc⟩
    simp only [hc]
  | release hf _ hc hr =>
    obtain rfl := live_eq hp hf
    rw [(hinv.frame p b fr hb hp).unmarked] at hr
    cases hr
  | @handOver _ fr' o q fp hf _ hc ho hq hqp =>
    obtain rfl := live_eq hp hf
    rcases hinv.body q fp hq with ⟨a, ha⟩
    rcases (hinv.frame q a fp ha hq).awaiting p hqp with ⟨i, k, l, hprog, hl, rfl, haw⟩
    have htaken : fr.taken o = .outcome o := if_pos ((hinv.loc q a i l ha hl).fresh haw fr hp).1
    have hdel := deliver_eq (c := ⟨(c.st.setFrame l.child
      { fr with phase := .done, futureValid := false }).setFrame q
        { fp with phase := .running, got := some (fr.taken o) }, c.body,
      c.log ++ [.finished l.child]⟩) ha (TaskRun.St.setFrame_frames_self ..) hprog hl
        (congrArg some htaken)
    refine ⟨_, ?_, .handOver hb hgone hp hph ho ha hprog hl haw rfl hq hqp⟩
    simp only [htaken, List.append_assoc, List.cons_append, List.nil_append] at hdel
    simp only [hc, htaken] at hdel ⊢
    exact hdel

/-- Everything a move can do. -/
theorem step_cases {c c' : Cfg Op V E} {m : Move} (hinv : Inv res c)
    (h : next res c m = some c') : Step res c m c' := by
  have hdet : (∃ c'', next res c m = some c'' ∧ Step res c m c'') → Step res c m c' := by
    rintro ⟨c'', h', hstep⟩
    rw [h] at h'
    cases h'
    exact hstep
  refine hdet ?_
  cases m with
  | step p ready =>
    simp only [next] at h
    split at h
    · rename_i b hb hph
      rcases TaskRun.phaseOf_eq_some.mp hph with ⟨fp, hp, hph⟩
      exact run_spec hinv hb hp hph ready
    · cases h
  | resume f =>
    simp only [next] at h
    split at h
    · rename_i b hb
      unfold resumeBody at h
      split at h
      · rcases Option.map_eq_some_iff.mp h with ⟨s', hs', -⟩
        exact resume_spec hinv (Lts.guarded_eq_some_iff.mp hs').1.2
      · cases h
    · cases h
  | drop p i =>
    have hdrop : ∃ b fp, c.body p = some b ∧ c.st.frames p = some (.live fp) ∧
        (fp.phase = .running ∨ fp.phase = .returning) ∧ dropLocal c p i b = some c' := by
      simp only [next] at h
      split at h
      · rename_i b hb hph
        rcases TaskRun.phaseOf_eq_some.mp hph with ⟨fp, hp, hph⟩
        exact ⟨b, fp, hb, hp, .inl hph, h⟩
      · rename_i b hb hph
        rcases TaskRun.phaseOf_eq_some.mp hph with ⟨fp, hp, hph⟩
        exact ⟨b, fp, hb, hp, .inr hph, h⟩
      · cases h
    rcases hdrop with ⟨b, fp, hb, hp, hpp, hdrop⟩
    unfold dropLocal at hdrop
    split at hdrop
    · rename_i l hl
      split at hdrop
      · rename_i hflags
        exact drop_spec hinv hb hl hflags.1 hflags.2 hp hpp
      · cases hdrop
    · cases hdrop
  | leave p =>
    simp only [next] at h
    split at h
    · rename_i b hb
      unfold leaveBody at h
      split at h
      · rename_i hgone
        rcases Option.bind_eq_some_iff.mp h with ⟨s', hs', -⟩
        rcases TaskRun.phaseOf_eq_some.mp (Lts.guarded_eq_some_iff.mp hs').1.2 with ⟨fr, hp, hph⟩
        exact leave_spec hinv hb hgone hp hph
      · cases h
    · cases h

/-! ## Every step keeps the invariant -/

/-- A body that ends in direct style has awaited every task. -/
theorem Inv.ret_awaited {c : Cfg Op V E} (hinv : Inv res c) {p : FrameId} {b : Body Op V E}
    {o : Outcome V E} {fr : Frame V E} (hb : c.body p = some b) (hprog : b.prog = .ret o)
    (hp : c.st.frames p = some (.live fr)) (hph : fr.phase = .running) :
    expected res c.body p = some o ∧ ∀ l ∈ b.locals, l.awaited = true := by
  rcases hinv.defined p b hb with ⟨r, hr⟩
  have hagree := (hinv.frame p b fr hb hp).agrees (by simp [hph]) (by simp [hph])
  rw [hprog, direct, hr] at hagree
  split at hagree
  · rename_i hall
    refine ⟨hr.trans hagree.symm, fun l hl => ?_⟩
    by_contra haw
    rcases List.mem_iff_getElem?.mp hl with ⟨i, hi⟩
    rcases (hinv.loc p b i l hb hi).caller with ⟨x, hx, -⟩
    rcases hinv.defined _ x hx with ⟨r', hr'⟩
    have hnone := hall (expected res c.body l.child)
      (List.mem_map.mpr ⟨l, hl, if_neg haw⟩)
    rw [hr'] at hnone
    cases hnone
  · cases hagree

theorem body_self {body : FrameId → Option (Body Op V E)} {p : FrameId} {b : Body Op V E}
    (hb : body p = some b) : update body p (some b) = body := by
  rw [← hb, Function.update_eq_self]

theorem env_afterLeaf {c : Cfg Op V E} {p : FrameId} {b : Body Op V E} {op : Op}
    {k : Outcome V E → Prog Op V E} {fr : Frame V E} (hb : c.body p = some b)
    (hprog : b.prog = .leaf op k) (h : FrameOk res c p b fr) (hret : fr.phase ≠ .returning)
    (hdone : fr.phase ≠ .done) (body : FrameId → Option (Body Op V E))
    (hbody : body = update c.body p (some (b.afterLeaf res op k))) :
    direct res (b.afterLeaf res op k).prog b.path (b.pos + 1)
      ((b.afterLeaf res op k).env res body) = expected res body p := by
  have hagree := h.agrees hret hdone
  rw [hprog, direct] at hagree
  have hstart : (b.afterLeaf res op k).start = b.start := rfl
  have hpath : (b.afterLeaf res op k).path = b.path := rfl
  rw [hbody, env_update res hb hstart hpath, expected_update res hb hstart hpath, ← hagree]
  rfl

theorem step_inv {c c' : Cfg Op V E} {m : Move} (hinv : Inv res c) (h : Step res c m c') :
    Inv res c' := by
  cases h with
  | @ret p r b fr o hb hprog hp hph =>
    have hm := TaskRun.effect_inv hinv.machine (Effect.coReturn (o := o) hp hph) hinv.thread
    rcases hinv.ret_awaited hb hprog hp hph with ⟨hexp, hall⟩
    rw [← body_self hb]
    refine ownStep_inv hinv hb hp { fr with phase := .returning, promise := some o } rfl rfl rfl
      rfl rfl rfl (by simp [hph]) (by simp [hph]) hm hinv.thread
      (fun g => c.st.setFrame_frames p g _) rfl rfl (fun _ _ => id) ?_
    rw [body_self hb]
    exact ⟨(hinv.frame p b fr hb hp).unmarked, fun h => absurd rfl h, fun h => (nomatch h),
      fun _ h => (nomatch h), fun _ => ⟨hexp.symm, hall⟩, fun h => (nomatch h)⟩
  | @ready p b fr op k hb hprog hp hph =>
    have hold := hinv.frame p b fr hb hp
    refine ownStep_inv hinv hb hp fr rfl rfl rfl rfl rfl rfl (by simp [hph]) (by simp [hph])
      hinv.machine hinv.thread (fun g => ?_) rfl rfl (fun _ _ => id) ?_
    · by_cases hg : g = p
      · rw [if_pos hg, hg, hp]
      · rw [if_neg hg]
    · exact .of_running hph hold.unmarked
        (env_afterLeaf hb hprog hold (by simp [hph]) (by simp [hph]) _ rfl)
  | @suspend p b fr op k hb hprog hp hph =>
    have hm := TaskRun.effect_inv hinv.machine (Effect.suspend hp hph) hinv.thread
    have hold := hinv.frame p b fr hb hp
    rw [← body_self hb]
    refine ownStep_inv hinv hb hp { fr with phase := .leaf } rfl rfl rfl rfl rfl rfl
      (by simp [hph]) (by simp [hph]) hm hinv.thread (fun g => c.st.setFrame_frames p g _) rfl rfl
      (fun g _ hg => Finset.mem_insert_of_mem hg) ?_
    rw [body_self hb]
    exact ⟨hold.unmarked, fun _ _ => hold.agrees (by simp [hph]) (by simp [hph]),
      fun _ => ⟨Finset.mem_insert_self .., op, k, hprog⟩, fun _ h => (nomatch h),
      fun h => by simp at h, fun h => (nomatch h)⟩
  | @call p r b fr child k hb hprog hp hph => exact call_inv hinv hb hprog hp hph
  | @awaitPending p r b i k l fp fr hb hprog hl haw hp hpp hf hph =>
    have hloc := hinv.loc p b i l hb hl
    have hc : fr.continuation = none := by
      by_contra hne
      rcases Option.ne_none_iff_exists'.mp hne with ⟨q, hq⟩
      have hwait := (hloc.fresh haw fr hf).2 (hinv.machine.coAwaited _ fr q hf hq)
      exact phaseOf_ne_of_live hp (by simp [hpp]) hwait
    have hm := TaskRun.effect_inv hinv.machine (Effect.awaitPending hp hpp
      (hloc.held (hloc.kept haw)) hf hph (Nat.ne_of_lt hloc.later) hc) hinv.thread
    exact pending_inv hinv hb hprog hl haw hp hpp hf rfl rfl hm hinv.thread
      (fun g => c.st.setFrame_setFrame_frames l.child p g _ _) rfl rfl rfl
  | @awaitDone p r b i k l fp fr o hb hprog hl haw hp hpp hf hph ho =>
    have hloc := hinv.loc p b i l hb hl
    have hm := TaskRun.effect_inv hinv.machine (Effect.awaitDone hp hpp
      (hloc.held (hloc.kept haw)) hf hph ho) hinv.thread
    rw [show fr.taken o = .outcome o from if_pos (hloc.fresh haw fr hf).1] at hm
    exact delivered_inv hinv hb hprog hl haw hp (.inl hpp) hf (.inr hph) ho
      (fun x hx => (hinv.frame _ x fr hx hf).gone hph)
      { fr with coAwaited := true, futureValid := false }
      { fp with phase := .running, got := some (.outcome o) }
      ⟨hph, rfl, rfl⟩ ⟨rfl, rfl, rfl, rfl⟩ hm hinv.thread
      (fun g => c.st.setFrame_setFrame_frames l.child p g _ _) rfl rfl rfl
  | @resume f b fr op k hb hprog hf hph =>
    have hm := TaskRun.effect_inv hinv.machine (Effect.resume hf hph) hinv.thread
    have hold := hinv.frame f b fr hb hf
    refine ownStep_inv hinv hb hf { fr with phase := .running } rfl rfl rfl rfl rfl rfl
      (by simp [hph]) (by simp [hph]) hm hinv.thread (fun g => c.st.setFrame_frames f g _) rfl rfl
      (fun g hg hmem => Finset.mem_erase.mpr ⟨hg, hmem⟩) ?_
    exact .of_running rfl hold.unmarked
      (env_afterLeaf hb hprog hold (by simp [hph]) (by simp [hph]) _ rfl)
  | @drop p i b l fp fr hb hl haw halive hp hpp hf hph =>
    have hm := TaskRun.effect_inv hinv.machine (Effect.dropDone
      ((hinv.loc p b i l hb hl).held halive) hf hph) hinv.thread
    exact drop_inv hinv hb hl haw halive hp hpp hf hph hm hinv.thread
      (fun g => Function.update_apply ..) (fun t => Function.update_apply ..) rfl rfl
  | @finish p b fr hb hgone hp hph hc =>
    have hold := hinv.frame p b fr hb hp
    have hm := TaskRun.effect_inv hinv.machine (Effect.finish hp hph hc hold.unmarked) hinv.thread
    rw [← body_self hb]
    refine ownStep_inv hinv hb hp { fr with phase := .done } rfl rfl rfl rfl rfl rfl
      (by simp [hph]) (by simp [hph]) hm hinv.thread (fun g => c.st.setFrame_frames p g _) rfl rfl
      (fun _ _ => id) ?_
    rw [body_self hb]
    exact ⟨hold.unmarked, fun _ h => absurd rfl h, fun h => (nomatch h), fun _ h => (nomatch h),
      fun _ => hold.returned (.inl hph), fun _ => hgone⟩
  | @handOver p a fr q b i k l fp o ha hgone hf hph ho hb hprog hl haw hchild hq hqp =>
    subst hchild
    have hc : fr.continuation = some q := by
      rcases hinv.machine.awaiting q fp _ hq hqp with ⟨fc, hfc, -, hc⟩
      exact live_eq hfc hf ▸ hc
    have hm := TaskRun.effect_inv hinv.machine (Effect.handOver hf hph hc ho hq hqp) hinv.thread
    rw [show fr.taken o = .outcome o from
      if_pos ((hinv.loc q b i l hb hl).fresh haw fr hf).1] at hm
    refine delivered_inv hinv hb hprog hl haw hq (.inr hqp) hf (.inl hph) ho ?_
      { fr with phase := .done, futureValid := false }
      { fp with phase := .running, got := some (.outcome o) }
      ⟨rfl, rfl, rfl⟩ ⟨rfl, rfl, rfl, rfl⟩ hm hinv.thread
      (fun g => c.st.setFrame_setFrame_frames l.child q g _ _) rfl rfl rfl
    intro x hx
    rw [ha] at hx
    cases hx
    exact hgone

/-- A step does not change what a coroutine is expected to give. -/
theorem step_expected {c c' : Cfg Op V E} {m : Move} (hinv : Inv res c) (h : Step res c m c')
    {f : FrameId} {o : Outcome V E} (ho : expected res c.body f = some o) :
    expected res c'.body f = some o := by
  have hupdate : ∀ (p : FrameId) (b b' : Body Op V E), c.body p = some b → b'.start = b.start →
      b'.path = b.path → expected res (update c.body p (some b')) f = some o := by
    intro p b b' hb hstart hpath
    rwa [expected_update res hb hstart hpath]
  cases h with
  | ret => exact ho
  | ready hb => exact hupdate _ _ _ hb rfl rfl
  | suspend => exact ho
  | call hb =>
    rcases Option.bind_eq_some_iff.mp ho with ⟨a, ha, -⟩
    exact (expected_call_of_ne hb _ _ (hinv.ne_nextFrame ha)).trans ho
  | awaitPending => exact ho
  | awaitDone hb => exact hupdate _ _ _ hb rfl rfl
  | resume hb => exact hupdate _ _ _ hb rfl rfl
  | drop hb => exact hupdate _ _ _ hb rfl rfl
  | finish => exact ho
  | handOver _ _ _ _ _ hb => exact hupdate _ _ _ hb rfl rfl

end Ucxpp.TaskProgram
