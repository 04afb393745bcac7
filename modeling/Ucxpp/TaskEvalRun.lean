import Mathlib.Algebra.BigOperators.Intervals
import Mathlib.Algebra.Order.BigOperators.Group.Finset
import Ucxpp.TaskEvalLog

/-!
# TaskEvalRun — every run computes what direct style computes

Runs of coroutine bodies from the call of the root: the invariants hold, some
coroutine can always go on until the root has finished (`progress`), and every
move uses up some of the work that direct style says is left (`work_lt`). The
theorem `await_eq_call` puts this together.
-/

namespace Ucxpp.TaskProgram

open Function (update update_self update_of_ne)
open TaskRun (FrameId TaskId Outcome Got Phase Frame St Act Effect phaseOf)

variable {Op V E : Type} (res : Results Op V E)

/-! ## The start of a run -/

theorem init_body (prog : Prog Op V E) (f : FrameId) :
    (Cfg.init prog).body f = if f = 0 then some (Body.enter prog [] none) else none :=
  Function.update_apply (fun _ => none) 0 _ f

theorem init_frames (prog : Prog Op V E) (f : FrameId) :
    (Cfg.init prog).st.frames f = if f = 0 then some (.live .fresh) else none :=
  Function.update_apply ..

theorem init_body_eq {prog : Prog Op V E} {f : FrameId} {b : Body Op V E}
    (h : (Cfg.init prog).body f = some b) : f = 0 ∧ b = Body.enter prog [] none := by
  rw [init_body] at h
  split at h
  · rename_i hf
    exact ⟨hf, (Option.some.inj h).symm⟩
  · cases h

theorem init_frames_eq {prog : Prog Op V E} {f : FrameId} {fr : Frame V E}
    (h : (Cfg.init prog).st.frames f = some (.live fr)) : f = 0 ∧ fr = .fresh := by
  rw [init_frames] at h
  split at h
  · rename_i hf
    cases h
    exact ⟨hf, rfl⟩
  · cases h

theorem init_inv {prog : Prog Op V E} {o : Outcome V E} (h : direct res prog [] 0 [] = some o) :
    Inv res (Cfg.init prog) where
  machine := TaskRun.call_inv TaskRun.init_inv
  thread := rfl
  born := by
    intro f b hb
    rcases init_body_eq hb with ⟨rfl, -⟩
    exact Nat.zero_lt_one
  body := by
    intro f fr hfr
    rcases init_frames_eq hfr with ⟨rfl, -⟩
    exact ⟨_, init_body prog 0⟩
  defined := by
    intro f b hb
    rcases init_body_eq hb with ⟨rfl, -⟩
    exact ⟨o, h⟩
  frame := by
    intro f b fr hb hfr
    rcases init_body_eq hb with ⟨rfl, rfl⟩
    rcases init_frames_eq hfr with ⟨-, rfl⟩
    refine ⟨rfl, fun _ _ => rfl, fun h => (nomatch h), fun _ h => (nomatch h), ?_,
      fun h => (nomatch h)⟩
    rintro (h | h) <;> cases h
  loc := by
    intro p b i l hb hl
    rcases init_body_eq hb with ⟨-, rfl⟩
    cases hl
  root := ⟨_, _, init_body prog 0, rfl, init_frames prog 0⟩

theorem init_log (prog : Prog Op V E) : LogOk res (Cfg.init prog) where
  returned := fun _ _ h => nomatch h
  promise := by
    intro f fr o hf hph
    rcases init_frames_eq hf with ⟨-, rfl⟩
    rcases hph with hph | hph <;> cases hph
  finished := by
    intro f fr hf hph
    rcases init_frames_eq hf with ⟨-, rfl⟩
    cases hph
  ended := fun _ h => nomatch h
  resumed := fun _ _ _ h => nomatch h
  once := by
    intro p b i l hb hl
    rcases init_body_eq hb with ⟨-, rfl⟩
    cases hl
  ordered := Trace.each_nil

variable {res}

/-- The invariants hold along every run. -/
theorem safety {prog : Prog Op V E} {o : Outcome V E} (h : direct res prog [] 0 [] = some o)
    {ms : List Move} {c : Cfg Op V E} (hrun : Lts.run (next res) (Cfg.init prog) ms = some c) :
    Inv res c ∧ LogOk res c ∧ expected res c.body 0 = some o := by
  refine Lts.run_invariant (P := fun _ _ => True)
    (fun c => Inv res c ∧ LogOk res c ∧ expected res c.body 0 = some o) ?_
    ⟨init_inv res h, init_log res prog, h⟩ (Lts.stepsMeet_true _ _) hrun
  rintro c m c' ⟨hinv, hlog, hroot⟩ - hnext
  have hstep := step_cases hinv hnext
  exact ⟨step_inv hinv hstep, step_log hinv hlog hstep, step_expected hinv hstep hroot⟩

/-! ## Progress -/

/-- A coroutine that is in its body or leaving it can go on. -/
theorem active_spec {c : Cfg Op V E} (hinv : Inv res c) {f : FrameId}
    (h : phaseOf c.st f = some .running ∨ phaseOf c.st f = some .returning) :
    ∃ m c', next res c m = some c' := by
  rcases h with h | h
  · rcases TaskRun.phaseOf_eq_some.mp h with ⟨fr, hf, hph⟩
    rcases hinv.body f fr hf with ⟨b, hb⟩
    rcases run_spec hinv hb hf hph true with ⟨c', hnext, -⟩
    exact ⟨_, c', hnext⟩
  · rcases TaskRun.phaseOf_eq_some.mp h with ⟨fr, hf, hph⟩
    rcases hinv.body f fr hf with ⟨b, hb⟩
    by_cases hgone : ∀ m ∈ b.locals, m.alive = false
    · rcases leave_spec hinv hb hgone hf hph with ⟨c', hnext, -⟩
      exact ⟨_, c', hnext⟩
    · push Not at hgone
      rcases hgone with ⟨l, hmem, halive⟩
      rcases List.mem_iff_getElem?.mp hmem with ⟨i, hl⟩
      have haw := ((hinv.frame f b fr hb hf).returned (.inl hph)).2 l hmem
      rcases drop_spec hinv hb hl haw (by simpa using halive) hf (.inr hph) with ⟨c', hnext, -⟩
      exact ⟨_, c', hnext⟩

/-- A coroutine that has not finished is waiting, through its awaits, for one
that can go on or for an operation. The await goes to a younger coroutine. -/
theorem waits_for {c : Cfg Op V E} (hinv : Inv res c) (n : Nat) (f : FrameId) (fr : Frame V E)
    (hn : c.st.nextFrame - f ≤ n) (hf : c.st.frames f = some (.live fr)) (hph : fr.phase ≠ .done) :
    ∃ g, phaseOf c.st g = some .running ∨ phaseOf c.st g = some .returning ∨
      g ∈ c.st.leaves := by
  induction n generalizing f fr with
  | zero =>
    rcases hinv.body f fr hf with ⟨b, hb⟩
    have hlt := hinv.born f b hb
    exact absurd (Nat.sub_eq_zero_iff_le.mp (Nat.le_zero.mp hn)) (Nat.not_le.mpr hlt)
  | succ n ih =>
    rcases hinv.body f fr hf with ⟨b, hb⟩
    have hok := hinv.frame f b fr hb hf
    cases hphase : fr.phase with
    | running => exact ⟨f, .inl (phaseOf_of_live hf hphase)⟩
    | returning => exact ⟨f, .inr (.inl (phaseOf_of_live hf hphase))⟩
    | leaf => exact ⟨f, .inr (.inr (hok.leaf hphase).1)⟩
    | done => exact absurd hphase hph
    | awaiting h =>
      rcases hinv.machine.awaiting f fr h hf hphase with ⟨fc, hfc, hdone, -⟩
      rcases hok.awaiting h hphase with ⟨i, k, l, -, hl, rfl, -⟩
      have hlater := (hinv.loc f b i l hb hl).later
      have hlt := hinv.born f b hb
      refine ih l.child fc ?_ hfc hdone
      have hstep : c.st.nextFrame - l.child < c.st.nextFrame - f :=
        Nat.sub_lt_sub_left hlt hlater
      exact Nat.le_of_lt_succ (Nat.lt_of_lt_of_le hstep hn)

/-- Until the root has finished, something can happen. -/
theorem progress {c : Cfg Op V E} (hinv : Inv res c) (h : phaseOf c.st 0 ≠ some .done) :
    ∃ m c', next res c m = some c' := by
  rcases hinv.root with ⟨-, fr, -, -, hf⟩
  have hph : fr.phase ≠ .done := fun hdone => h (phaseOf_of_live hf hdone)
  rcases waits_for hinv _ 0 fr (Nat.le_refl _) hf hph with ⟨g, hg⟩
  rcases hg with hg | hg | hg
  · exact active_spec hinv (.inl hg)
  · exact active_spec hinv (.inr hg)
  · rcases resume_spec hinv hg with ⟨c', hnext, -⟩
    exact ⟨_, c', hnext⟩

/-! ## The length of a run -/

variable (res)

/-- The number of moves that a body takes at most, the coroutines that it calls
included. -/
def moves : Prog Op V E → List Nat → Nat → List (Option (Outcome V E)) → Nat
  | .ret _, _, _, _ => 2
  | .leaf op k, path, pos, env => moves (k (res path pos op)) path (pos + 1) env + 2
  | .call child k, path, pos, env =>
    match direct res child (pos :: path) 0 [] with
    | some o => moves child (pos :: path) 0 [] + moves k path (pos + 1) (env ++ [some o]) + 2
    | none => 0
  | .await i k, path, pos, env =>
    match env[i]? with
    | some (some o) => moves (k o) path pos (env.set i none) + 1
    | _ => 0

/-- The moves that a coroutine still has to do in its phase, besides the
destruction of its local variables. -/
def Body.left (body : FrameId → Option (Body Op V E)) (b : Body Op V E) : Phase → Nat
  | .running => moves res b.prog b.path b.pos (b.env res body)
  | .leaf | .awaiting _ => moves res b.prog b.path b.pos (b.env res body) - 1
  | .returning => 1
  | .done => 0

def Body.alive (b : Body Op V E) : Nat := b.locals.countP Local.alive

/-- What coroutine `f` still has to do. -/
def remaining (c : Cfg Op V E) (f : FrameId) : Nat :=
  match c.body f, phaseOf c.st f with
  | some b, some ph => b.left res c.body ph + b.alive
  | _, _ => 0

def work (c : Cfg Op V E) : Nat := ∑ f ∈ Finset.range c.st.nextFrame, remaining res c f

variable {res}

theorem remaining_eq {c : Cfg Op V E} {f : FrameId} {b : Body Op V E} {ph : Phase}
    (hb : c.body f = some b) (hph : phaseOf c.st f = some ph) :
    remaining res c f = b.left res c.body ph + b.alive := by
  simp only [remaining, hb, hph]

/-- A coroutine that a step leaves alone has as much left as before. -/
theorem remaining_congr {c c' : Cfg Op V E} {f : FrameId} (hbody : c'.body f = c.body f)
    (hph : phaseOf c'.st f = phaseOf c.st f)
    (henv : ∀ b, c.body f = some b → b.env res c'.body = b.env res c.body) :
    remaining res c' f = remaining res c f := by
  unfold remaining
  rw [hbody, hph]
  split
  · rename_i b ph hb _
    cases ph <;> simp only [Body.left, henv b hb]
  · rfl

/-- Nobody else notices when the frame of `p` changes. -/
theorem remaining_le_of_setFrame {c : Cfg Op V E} {p : FrameId} (fr : Frame V E)
    (log : List (Event V E)) : ∀ f, f ≠ p →
      remaining res ⟨c.st.setFrame p fr, c.body, log⟩ f ≤ remaining res c f := by
  intro f hf
  exact Nat.le_of_eq (remaining_congr rfl
    (phaseOf_of_frames (c.st.setFrame_frames_of_ne _ hf)) (fun _ _ => rfl))

/-- One coroutine gets on, and no other one has more to do than before. -/
theorem work_lt_of {c c' : Cfg Op V E} {old new : Nat} (hinv : Inv res c)
    (hnext : c'.st.nextFrame = c.st.nextFrame) {p : FrameId} {b : Body Op V E}
    (hb : c.body p = some b) (hold : remaining res c p = old) (hnew : remaining res c' p = new)
    (hlt : new < old) (hother : ∀ f, f ≠ p → remaining res c' f ≤ remaining res c f) :
    work res c' < work res c := by
  unfold work
  rw [hnext]
  refine Finset.sum_lt_sum (fun f _ => ?_)
    ⟨p, Finset.mem_range.mpr (hinv.born p b hb), by rw [hold, hnew]; exact hlt⟩
  by_cases hfp : f = p
  · rw [hfp, hold, hnew]
    exact Nat.le_of_lt hlt
  · exact hother f hfp

/-- The others, when only `p` and `h` change and `h` does not get more to do. -/
theorem remaining_le_of_update {c : Cfg Op V E} {p h : FrameId} {b b' : Body Op V E} {st : St V E}
    {log : List (Event V E)} (hb : c.body p = some b) (hstart : b'.start = b.start)
    (hpath : b'.path = b.path)
    (hframes : ∀ f, f ≠ p → f ≠ h → st.frames f = c.st.frames f)
    (hchild : h ≠ p → remaining res ⟨st, update c.body p (some b'), log⟩ h ≤ remaining res c h) :
    ∀ f, f ≠ p →
      remaining res ⟨st, update c.body p (some b'), log⟩ f ≤ remaining res c f := by
  intro f hfp
  by_cases hfh : f = h
  · subst hfh
    exact hchild hfp
  · exact Nat.le_of_eq (remaining_congr (update_of_ne hfp ..)
      (phaseOf_of_frames (hframes f hfp hfh)) (fun a _ => env_update res hb hstart hpath a))

theorem remaining_done {c : Cfg Op V E} {f : FrameId} {b : Body Op V E} {fr : Frame V E}
    (hb : c.body f = some b) (hgone : ∀ l ∈ b.locals, l.alive = false)
    (hf : c.st.frames f = some (.live fr)) (hph : fr.phase = .done) : remaining res c f = 0 := by
  rw [remaining_eq hb (phaseOf_of_live hf hph)]
  simp only [Body.left, Body.alive, Nat.zero_add, List.countP_eq_zero]
  intro l hl halive
  rw [hgone l hl] at halive
  cases halive

variable (res) in
theorem left_afterLeaf {c : Cfg Op V E} {p : FrameId} {b : Body Op V E} {op : Op}
    {k : Outcome V E → Prog Op V E} (hb : c.body p = some b) (hprog : b.prog = .leaf op k) :
    (b.afterLeaf res op k).left res (update c.body p (some (b.afterLeaf res op k))) .running + 2 =
      b.left res c.body .running := by
  have hstart : (b.afterLeaf res op k).start = b.start := rfl
  unfold Body.left
  rw [env_update res hb hstart rfl, hprog]
  rfl

theorem left_afterAwait {c : Cfg Op V E} {p : FrameId} {b : Body Op V E} {i : Nat}
    {k : Outcome V E → Prog Op V E} {l : Local} {o : Outcome V E} (hb : c.body p = some b)
    (hprog : b.prog = .await i k) (hl : b.locals[i]? = some l) (haw : l.awaited = false)
    (hexp : expected res c.body l.child = some o) :
    (b.afterAwait i l (k o)).left res (update c.body p (some (b.afterAwait i l (k o)))) .running +
      1 = b.left res c.body .running := by
  have hstart : (b.afterAwait i l (k o)).start = b.start := rfl
  have henv := env_expected hl haw hexp
  unfold Body.left
  rw [env_update res hb hstart rfl, env_set_awaited, hprog, moves, henv]
  rfl

theorem left_afterDrop {c : Cfg Op V E} {p : FrameId} {b : Body Op V E} {i : Nat} {l : Local}
    (hb : c.body p = some b) (hl : b.locals[i]? = some l) (ph : Phase) :
    (b.afterDrop i l).left res (update c.body p (some (b.afterDrop i l))) ph =
      b.left res c.body ph := by
  have hstart : (b.afterDrop i l).start = b.start := rfl
  have henv := (env_update res hb hstart rfl (b.afterDrop i l)).trans (env_set_dropped b hl)
  cases ph <;> simp only [Body.left, henv] <;> rfl

theorem alive_afterAwait {b : Body Op V E} {i : Nat} {l : Local} (hl : b.locals[i]? = some l)
    (prog : Prog Op V E) : (b.afterAwait i l prog).alive = b.alive := by
  have hmap : ∀ ls : List Local, ls.countP Local.alive = (ls.map Local.alive).countP id := by
    intro ls
    rw [List.countP_map]
    rfl
  unfold Body.alive Body.afterAwait
  rw [hmap, hmap, List.map_set, set_eq_self (by simp [hl])]

theorem alive_afterDrop {b : Body Op V E} {i : Nat} {l : Local} (hl : b.locals[i]? = some l)
    (h : l.alive = true) : (b.afterDrop i l).alive + 1 = b.alive := by
  rcases List.getElem?_eq_some_iff.mp hl with ⟨hlt, rfl⟩
  have hpos : 0 < b.locals.countP Local.alive :=
    List.countP_pos_iff.mpr ⟨_, List.getElem_mem hlt, h⟩
  unfold Body.alive Body.afterDrop
  rw [List.countP_set hlt, h]
  simp only [↓reduceIte, Bool.false_eq_true]
  omega

theorem left_afterCall {c : Cfg Op V E} (hinv : Inv res c) {p : FrameId} {b : Body Op V E}
    {child k : Prog Op V E} {o : Outcome V E} (hb : c.body p = some b)
    (hprog : b.prog = .call child k) (ho : direct res child (b.pos :: b.path) 0 [] = some o) :
    b.left res c.body .running = moves res child (b.pos :: b.path) 0 [] +
      (b.afterCall k c.st.nextTask c.st.nextFrame).left res (c.bodyAfterCall p b child k)
        .running + 2 := by
  unfold Body.left
  rw [hprog, moves, ho, env_afterCall hinv hb, ho]
  rfl

/-- Behind a call the caller has its own rest to do, and one more task object
to destroy. -/
theorem work_call {c : Cfg Op V E} (hinv : Inv res c) {p : FrameId} {b : Body Op V E}
    {child k : Prog Op V E} {fr : Frame V E} (hb : c.body p = some b)
    (hprog : b.prog = .call child k) (hp : c.st.frames p = some (.live fr))
    (hph : fr.phase = .running) :
    work res ⟨TaskRun.call c.st, c.bodyAfterCall p b child k, c.log⟩ < work res c := by
  have hpn := hinv.ne_nextFrame hb
  have hmem : p ∈ Finset.range c.st.nextFrame := Finset.mem_range.mpr (hinv.born p b hb)
  have hframes : ∀ g, g ≠ c.st.nextFrame → (TaskRun.call c.st).frames g = c.st.frames g :=
    fun g hg => update_of_ne hg ..
  generalize hc' : (⟨TaskRun.call c.st, c.bodyAfterCall p b child k, c.log⟩ : Cfg Op V E) = c'
  have hold : remaining res c p = b.left res c.body .running + b.alive :=
    remaining_eq hb (phaseOf_of_live hp hph)
  have hnew : remaining res c' p = (b.afterCall k c.st.nextTask c.st.nextFrame).left res
      (c.bodyAfterCall p b child k) .running + (b.alive + 1) := by
    have hlive := (hframes p hpn).trans hp
    rw [← hc', remaining_eq (((bodyAfterCall_of_ne c b child k hpn).trans (update_self ..)))
      (phaseOf_of_live hlive hph)]
    simp [Body.alive, Body.afterCall]
  have hchild : remaining res c' c.st.nextFrame = moves res child (b.pos :: b.path) 0 [] := by
    rw [← hc', remaining_eq (bodyAfterCall_new ..) (phaseOf_live (update_self ..))]
    rfl
  have hother : ∀ f ∈ (Finset.range c.st.nextFrame).erase p,
      remaining res c' f = remaining res c f := by
    intro f hf
    have hfp := Finset.ne_of_mem_erase hf
    have hfn : f ≠ c.st.nextFrame :=
      Nat.ne_of_lt (Finset.mem_range.mp (Finset.mem_of_mem_erase hf))
    rw [← hc']
    exact remaining_congr ((bodyAfterCall_of_ne c b child k hfn).trans (update_of_ne hfp ..))
      (phaseOf_of_frames (hframes f hfn)) (fun a ha => env_call hinv hb child k ha)
  rcases hinv.defined p b hb with ⟨r, hr⟩
  have hagree := (hinv.frame p b fr hb hp).agrees (by simp [hph]) (by simp [hph])
  rw [hprog, direct] at hagree
  rcases Option.bind_eq_some_iff.mp (hagree.trans hr) with ⟨o, ho, -⟩
  have hleft := left_afterCall hinv hb hprog ho
  have hnext : c'.st.nextFrame = c.st.nextFrame + 1 := by rw [← hc']; rfl
  have hsum : remaining res c p + ∑ f ∈ (Finset.range c.st.nextFrame).erase p, remaining res c f =
      work res c := Finset.add_sum_erase _ _ hmem
  have hsum' : remaining res c' p + ∑ f ∈ (Finset.range c.st.nextFrame).erase p,
      remaining res c f + remaining res c' c.st.nextFrame = work res c' := by
    unfold work
    rw [hnext, Finset.sum_range_succ, ← Finset.sum_congr rfl hother]
    exact congrArg (· + _) (Finset.add_sum_erase _ _ hmem)
  omega

theorem work_lt {c c' : Cfg Op V E} {m : Move} (hinv : Inv res c) (h : Step res c m c') :
    work res c' < work res c := by
  cases h with
  | @ret p r b fr o hb hprog hp hph =>
    refine work_lt_of hinv rfl hb (remaining_eq hb (phaseOf_of_live hp hph))
      (remaining_eq hb (phaseOf_live (c.st.setFrame_frames_self p _))) ?_
      (remaining_le_of_setFrame _ _)
    simp [Body.left, hprog, moves]
  | @ready p b fr op k hb hprog hp hph =>
    have hleft := left_afterLeaf res hb hprog
    refine work_lt_of hinv rfl hb (remaining_eq hb (phaseOf_of_live hp hph))
      (remaining_eq (update_self ..) (phaseOf_of_live hp hph)) ?_
      (remaining_le_of_update hb rfl rfl (fun _ _ _ => rfl) (fun h => absurd rfl h))
    show Body.left res (update c.body p _) _ _ + b.alive < _
    omega
  | @suspend p b fr op k hb hprog hp hph =>
    refine work_lt_of hinv rfl hb (remaining_eq hb (phaseOf_of_live hp hph))
      (remaining_eq hb (phaseOf_live (c.st.setFrame_frames_self p _))) ?_
      (remaining_le_of_setFrame _ c.log)
    simp [Body.left, hprog, moves]
  | @call p r b fr child k hb hprog hp hph => exact work_call hinv hb hprog hp hph
  | @awaitPending p r b i k l fp fr hb hprog hl haw hp hpp hf hph =>
    rcases (hinv.loc p b i l hb hl).caller with ⟨x, hx, -⟩
    rcases hinv.defined _ x hx with ⟨o, ho⟩
    have hleft := left_afterAwait hb hprog hl haw ho
    refine work_lt_of hinv rfl hb (remaining_eq hb (phaseOf_of_live hp hpp))
      (remaining_eq hb (phaseOf_live (TaskRun.St.setFrame_frames_self ..))) ?_ ?_
    · show b.left res c.body .running - 1 + b.alive < _
      omega
    · intro f hfp
      refine Nat.le_of_eq (remaining_congr rfl ?_ (fun _ _ => rfl))
      by_cases hfc : f = l.child
      · subst hfc
        exact (phaseOf_live (c.st.setFrame_setFrame_inner _ _ hfp)).trans (phaseOf_live hf).symm
      · exact phaseOf_of_frames ((TaskRun.St.setFrame_frames_of_ne _ _ hfp).trans
          (c.st.setFrame_frames_of_ne _ hfc))
  | @awaitDone p r b i k l fp fr o hb hprog hl haw hp hpp hf hph ho =>
    rcases (hinv.loc p b i l hb hl).caller with ⟨x, hx, -⟩
    have hgone := (hinv.frame _ x fr hx hf).gone hph
    have hexp := ((hinv.frame _ x fr hx hf).returned (.inr hph)).1.symm.trans ho
    have hleft := left_afterAwait hb hprog hl haw hexp
    have halive := alive_afterAwait hl (k o)
    refine work_lt_of hinv rfl hb (remaining_eq hb (phaseOf_of_live hp hpp))
      (remaining_eq (update_self ..) (phaseOf_live (TaskRun.St.setFrame_frames_self ..))) ?_
      (remaining_le_of_update (h := l.child) hb rfl rfl ?_ ?_)
    · show Body.left res (update c.body p _) _ .running + _ < _
      omega
    · intro f hfp hfc
      rw [c.st.setFrame_setFrame_frames, if_neg hfp, if_neg hfc]
    · intro hne
      rw [remaining_done hx hgone hf hph]
      exact Nat.le_of_eq (remaining_done ((update_of_ne hne ..).trans hx) hgone
        (c.st.setFrame_setFrame_inner _ _ hne) hph)
  | @resume f b fr op k hb hprog hf hph =>
    have hleft := left_afterLeaf res hb hprog
    refine work_lt_of hinv rfl hb (remaining_eq hb (phaseOf_of_live hf hph))
      (remaining_eq (update_self ..) (phaseOf_live (c.st.setFrame_frames_self f _))) ?_
      (remaining_le_of_update (h := f) hb rfl rfl
        (fun g hg _ => c.st.setFrame_frames_of_ne _ hg) (fun h => absurd rfl h))
    show Body.left res (update c.body f _) _ .running + b.alive <
      b.left res c.body .running - 1 + b.alive
    omega
  | @drop p i b l fp fr hb hl haw halive hp hpp hf hph =>
    have hne : l.child ≠ p := Nat.ne_of_gt (hinv.loc p b i l hb hl).later
    have hkeep := (update_of_ne hne.symm (some .destroyed) c.st.frames).trans hp
    have hdrop := alive_afterDrop hl halive
    refine work_lt_of hinv rfl hb (remaining_eq hb (phaseOf_live hp))
      (remaining_eq (update_self ..) (phaseOf_live hkeep)) ?_
      (remaining_le_of_update (h := l.child) hb rfl rfl ?_ ?_)
    · rw [left_afterDrop hb hl]
      omega
    · exact fun f _ hfc => update_of_ne hfc ..
    · intro _
      have hnone : phaseOf { c.st with
          frames := update c.st.frames l.child (some .destroyed)
          tasks := update c.st.tasks l.task none } l.child = none := by
        simp [phaseOf, St.live]
      simp [remaining, hnone]
  | @finish p b fr hb hgone hp hph hc =>
    refine work_lt_of hinv rfl hb (remaining_eq hb (phaseOf_of_live hp hph))
      (remaining_done hb hgone (c.st.setFrame_frames_self p _) rfl) ?_
      (remaining_le_of_setFrame _ _)
    exact Nat.lt_of_lt_of_le Nat.zero_lt_one (Nat.le_add_right 1 _)
  | @handOver p a fr q b i k l fp o ha hgone hf hph ho hb hprog hl haw hchild hq hqp =>
    subst hchild
    have hne : l.child ≠ q := Nat.ne_of_gt (hinv.loc q b i l hb hl).later
    have hexp := ((hinv.frame _ a fr ha hf).returned (.inl hph)).1.symm.trans ho
    have hleft := left_afterAwait hb hprog hl haw hexp
    have halive := alive_afterAwait hl (k o)
    refine work_lt_of hinv rfl ha (remaining_eq ha (phaseOf_of_live hf hph))
      (remaining_done ((update_of_ne hne ..).trans ha) hgone
        (c.st.setFrame_setFrame_inner _ _ hne) rfl) ?_ ?_
    · exact Nat.lt_of_lt_of_le Nat.zero_lt_one (Nat.le_add_right 1 _)
    · intro f hfc
      by_cases hfq : f = q
      · -- the parent has as much left as before: its await was counted already
        rw [hfq, remaining_eq hb (phaseOf_of_live hq hqp),
          remaining_eq (update_self ..) (phaseOf_live (TaskRun.St.setFrame_frames_self ..))]
        show Body.left res (update c.body q _) _ .running + _ ≤
          b.left res c.body .running - 1 + b.alive
        omega
      · have hstart : (b.afterAwait i l (k o)).start = b.start := rfl
        refine Nat.le_of_eq (remaining_congr (update_of_ne hfq ..) (phaseOf_of_frames ?_)
          (fun x _ => env_update res hb hstart rfl x))
        rw [c.st.setFrame_setFrame_frames, if_neg hfq, if_neg hfc]

theorem run_length_le {c c' : Cfg Op V E} {ms : List Move} (hinv : Inv res c)
    (hrun : Lts.run (next res) c ms = some c') : ms.length + work res c' ≤ work res c := by
  have hlen := Lts.run_rank (Inv res) (work res) (fun _ => true)
    (fun _ _ _ hinv h => step_inv hinv (step_cases hinv h))
    (fun _ _ _ hinv h _ => work_lt hinv (step_cases hinv h))
    (fun _ _ _ _ _ h => nomatch h) hinv hrun
  rwa [List.countP_true] at hlen

theorem work_init (prog : Prog Op V E) :
    work res (Cfg.init prog) = moves res prog [] 0 [] := by
  have hn : (Cfg.init prog).st.nextFrame = 1 := rfl
  unfold work
  rw [hn, Finset.sum_range_one, remaining_eq (init_body prog 0)
    (phaseOf_live (init_frames prog 0))]
  rfl

/-! ## The theorem about whole runs -/

/-- What a run of a program says whose outcome in direct style is `o`. -/
structure AsCalls (res : Results Op V E) (prog : Prog Op V E) (o : Outcome V E)
    (ms : List Move) (c : Cfg Op V E) : Prop where
  /-- A `co_await` ends after its coroutine has finished, with that outcome. -/
  ordered : Ordered c.log
  /-- No `co_await` of a task ends twice. -/
  once : ∀ p h x, .resumed p h x ∈ c.log → c.log.countP (Event.resumes h) = 1
  /-- A coroutine that has finished got one result for every task it called. -/
  all : ∀ p, .finished p ∈ c.log → ∃ b, c.body p = some b ∧
    ∀ l ∈ b.locals, c.log.countP (Event.resumes l.child) = 1
  /-- Every coroutine returns what its call gives in direct style. -/
  calls : ∀ f x, .returned f x ∈ c.log →
    ∃ b, c.body f = some b ∧ direct res b.start b.path 0 [] = some x
  /-- The root can only end with `o`. -/
  root : ∀ fr, c.st.frames 0 = some (.live fr) → fr.phase = .done → fr.promise = some o
  /-- If nothing can happen any more, the root has ended. -/
  ends : (∀ m, next res c m = none) → phaseOf c.st 0 = some .done
  /-- Sooner or later nothing can happen any more. -/
  bounded : ms.length ≤ moves res prog [] 0 []

/-- Awaiting tasks means the same as calling functions. -/
theorem await_eq_call {prog : Prog Op V E} {o : Outcome V E}
    (h : direct res prog [] 0 [] = some o) (ms : List Move) {c : Cfg Op V E}
    (hrun : Lts.run (next res) (Cfg.init prog) ms = some c) : AsCalls res prog o ms c := by
  rcases safety h hrun with ⟨hinv, hlog, hroot⟩
  refine ⟨hlog.ordered, ?_, ?_, ?_, ?_, ?_, ?_⟩
  · intro p x o' hmem
    rcases hlog.resumed p x o' hmem with ⟨b, i, l, hb, hl, rfl, haw⟩
    exact hlog.once p b i l hb hl haw
  · intro p hmem
    rcases hlog.ended p hmem with ⟨⟨b, hb, hall⟩, -⟩
    refine ⟨b, hb, fun l hl => ?_⟩
    rcases List.mem_iff_getElem?.mp hl with ⟨i, hi⟩
    exact hlog.once p b i l hb hi (hall l hl)
  · intro f x hmem
    exact Option.bind_eq_some_iff.mp (hlog.returned f x hmem)
  · intro fr hf hph
    rcases hinv.root with ⟨b, -, hb, -⟩
    exact ((hinv.frame 0 b fr hb hf).returned (.inr hph)).1.trans hroot
  · intro hstuck
    by_contra hdone
    rcases progress hinv hdone with ⟨m, c', hnext⟩
    rw [hstuck m] at hnext
    cases hnext
  · have hlen := run_length_le (init_inv res h) hrun
    rw [work_init] at hlen
    omega

/-- A parent with two children: the first suspends in its operation and throws
later, the second finishes at once; the parent catches the exception. -/
def twoChildren : Prog Nat Nat Nat :=
  .call (.leaf 7 fun o => .ret o) <| .call (.ret (.value 4)) <| .await 0 fun _ =>
    .await 1 fun o => .ret o

theorem await_eq_call_two :
    ∃ c, Lts.run (next fun _ _ op => .exception op) (Cfg.init twoChildren)
        [.step 0 true, .step 1 false, .step 0 true, .step 0 true, .step 2 true, .leave 2,
          .resume 1, .step 1 true, .leave 1, .step 0 true, .drop 0 0, .step 0 true, .drop 0 1,
          .leave 0] = some c ∧
      ∀ fr, c.st.frames 0 = some (.live fr) → fr.phase = .done → fr.promise = some (.value 4) := by
  obtain ⟨c, h⟩ : ∃ c, Lts.run (next fun _ _ op => .exception op) (Cfg.init twoChildren)
      [.step 0 true, .step 1 false, .step 0 true, .step 0 true, .step 2 true, .leave 2,
        .resume 1, .step 1 true, .leave 1, .step 0 true, .drop 0 0, .step 0 true, .drop 0 1,
        .leave 0] = some c := ⟨_, rfl⟩
  exact ⟨c, h, (await_eq_call (by rfl) _ h).root⟩

end Ucxpp.TaskProgram
