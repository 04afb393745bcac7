import Mathlib.Logic.Basic

/-!
# Lts — runs of a guarded machine

A machine is a partial step function `step : σ → α → Option σ`: `none` means
that the action is not possible in the state. Everything a safety argument
needs is here, stated once over arbitrary states and actions:

* `guarded` — the machine of a step that may fault, under a guard;
* `run` — a whole sequence of actions;
* `StepsMeet` — every step of a run meets a condition on the state before it;
* `run_invariant` — inductive invariance along the runs that meet a condition;
* `run_rank` — how often a run can take the steps that lower a rank;
* `exists_maximal` — how far a run can go where every step lowers a rank;
* `Always` and `run_always_iff` — a property of every state on the way, for
  runs that can also regain it;
* `macroStep` — the machine whose actions stand for sequences of actions, and
  what its runs are in the machine below;
* `run_good_iff` — the exact form of it: when a step keeps a property exactly
  if it meets the condition, and a lost property is never regained, then the
  property holds at the end of a run iff every step of the run met the
  condition.
-/

namespace Lts

variable {σ α : Type*}

/-! ## Steps that may fault -/

/-- The machine of a step function that may fault: an action must be enabled
and must not fault. -/
def guarded {ε : Type*} (Enabled : σ → α → Prop) [∀ s a, Decidable (Enabled s a)]
    (step : σ → α → Except ε σ) (s : σ) (a : α) : Option σ :=
  if Enabled s a then (step s a).toOption else none

theorem ok_bind {ε α β : Type} (a : α) (k : α → Except ε β) :
    (Except.ok a >>= k) = k a := rfl

theorem bind_eq_ok {ε α β : Type} {x : Except ε α} {k : α → Except ε β} {b : β} :
    x >>= k = .ok b ↔ ∃ a, x = .ok a ∧ k a = .ok b := by
  constructor
  · intro h
    cases x with
    | error e => cases h
    | ok a => exact ⟨a, rfl, h⟩
  · rintro ⟨a, rfl, h⟩
    exact h

theorem guarded_eq_some_iff {ε : Type*} {Enabled : σ → α → Prop}
    [∀ s a, Decidable (Enabled s a)] {step : σ → α → Except ε σ} {s s' : σ} {a : α} :
    guarded Enabled step s a = some s' ↔ Enabled s a ∧ step s a = .ok s' := by
  unfold guarded
  by_cases hen : Enabled s a
  · cases hs : step s a <;> simp [hen, Except.toOption]
  · simp [hen]

/-! ## Runs -/

variable (step : σ → α → Option σ)

/-- Run a sequence of actions; `none` as soon as one of them is not possible. -/
def run : σ → List α → Option σ
  | s, [] => some s
  | s, a :: as => (step s a).bind fun s' => run s' as

/-- Every step that the run takes meets `P`. -/
def StepsMeet (P : σ → α → Prop) : σ → List α → Prop
  | _, [] => True
  | s, a :: as => P s a ∧ ∀ s', step s a = some s' → StepsMeet P s' as

/-- `Good` holds in every state that the actions pass through. -/
def Always (Good : σ → Prop) (s : σ) (as : List α) : Prop :=
  ∀ pre s', pre <+: as → run step s pre = some s' → Good s'

/-- The states that runs from `Init` reach through steps that meet `P`. -/
inductive Reachable (Init : σ → Prop) (P : σ → α → Prop) : σ → Prop where
  | init {s : σ} : Init s → Reachable Init P s
  | step {s s' : σ} {a : α} :
      Reachable Init P s → P s a → step s a = some s' → Reachable Init P s'

variable {step}

@[simp] theorem run_nil (s : σ) : run step s [] = some s := rfl

@[simp] theorem run_cons (s : σ) (a : α) (as : List α) :
    run step s (a :: as) = (step s a).bind fun s' => run step s' as := rfl

/-- A run that starts with `a` takes that step and continues from there. -/
theorem run_cons_some {s s' : σ} {a : α} {as : List α}
    (h : run step s (a :: as) = some s') :
    ∃ s₁, step s a = some s₁ ∧ run step s₁ as = some s' := by
  rw [run_cons] at h
  exact Option.bind_eq_some_iff.mp h

instance StepsMeet.decidable {P : σ → α → Prop} [∀ s a, Decidable (P s a)] :
    ∀ (s : σ) (as : List α), Decidable (StepsMeet step P s as)
  | _, [] => isTrue trivial
  | s, a :: as =>
    haveI := fun s' => StepsMeet.decidable (P := P) s' as
    inferInstanceAs (Decidable (P s a ∧ ∀ s' ∈ step s a, StepsMeet step P s' as))

theorem stepsMeet_true (s : σ) (as : List α) : StepsMeet step (fun _ _ => True) s as := by
  induction as generalizing s with
  | nil => trivial
  | cons a as ih => exact ⟨trivial, fun s' _ => ih s'⟩

/-- Actions that meet `P` in every state. -/
theorem stepsMeet_of_mem {P : σ → α → Prop} {s : σ} {as : List α} (h : ∀ a ∈ as, ∀ s, P s a) :
    StepsMeet step P s as := by
  induction as generalizing s with
  | nil => trivial
  | cons a as ih =>
    exact ⟨h a List.mem_cons_self s, fun s' _ => ih fun b hb => h b (List.mem_cons_of_mem a hb)⟩

theorem StepsMeet.mono {P Q : σ → α → Prop} (h : ∀ s a, P s a → Q s a) {s : σ} {as : List α}
    (hmeet : StepsMeet step P s as) : StepsMeet step Q s as := by
  induction as generalizing s with
  | nil => trivial
  | cons a as ih => exact ⟨h s a hmeet.1, fun s' hs => ih (hmeet.2 s' hs)⟩

theorem stepsMeet_forall {ι : Type*} {P : ι → σ → α → Prop} {s : σ} {as : List α} :
    StepsMeet step (fun s a => ∀ i, P i s a) s as ↔ ∀ i, StepsMeet step (P i) s as := by
  constructor
  · intro hmeet i
    exact hmeet.mono fun s a h => h i
  · intro hmeet
    induction as generalizing s with
    | nil => trivial
    | cons a as ih =>
      exact ⟨fun i => (hmeet i).1, fun s' hs => ih fun i => (hmeet i).2 s' hs⟩

theorem run_append (s : σ) (as bs : List α) :
    run step s (as ++ bs) = (run step s as).bind fun s' => run step s' bs := by
  induction as generalizing s with
  | nil => rfl
  | cons a as ih =>
    rw [List.cons_append, run_cons, run_cons, Option.bind_assoc]
    congr 1
    funext s'
    exact ih s'

theorem stepsMeet_append {P : σ → α → Prop} {s : σ} {as bs : List α} :
    StepsMeet step P s (as ++ bs) ↔
      StepsMeet step P s as ∧ ∀ s', run step s as = some s' → StepsMeet step P s' bs := by
  induction as generalizing s with
  | nil => simp only [List.nil_append, StepsMeet, run_nil, Option.some.injEq, forall_eq', true_and]
  | cons a as ih =>
    simp only [List.cons_append, StepsMeet, ih, run_cons, Option.bind_eq_some_iff,
      forall_exists_index, and_imp, forall_and, and_assoc]
    exact and_congr_right fun _ => and_congr_right fun _ =>
      ⟨fun h s' s₁ h₁ h₂ => h s₁ h₁ s' h₂, fun h s₁ h₁ s' h₂ => h s' s₁ h₁ h₂⟩

/-! ## Sequences as actions -/

variable {β : Type*}

/-- The machine in which an action stands for a sequence of actions. -/
def macroStep (step : σ → α → Option σ) (expand : β → List α) (s : σ) (b : β) : Option σ :=
  run step s (expand b)

variable {expand : β → List α}

theorem run_macroStep (s : σ) (bs : List β) :
    run (macroStep step expand) s bs = run step s (bs.flatMap expand) := by
  induction bs generalizing s with
  | nil => rfl
  | cons b bs ih =>
    rw [List.flatMap_cons, run_append, run_cons, macroStep]
    congr 1
    funext s'
    exact ih s'

theorem stepsMeet_macroStep {P : σ → α → Prop} {s : σ} {bs : List β} :
    StepsMeet (macroStep step expand) (fun s b => StepsMeet step P s (expand b)) s bs ↔
      StepsMeet step P s (bs.flatMap expand) := by
  induction bs generalizing s with
  | nil => exact Iff.rfl
  | cons b bs ih => simp only [List.flatMap_cons, stepsMeet_append, StepsMeet, ih, macroStep]

/-! ## Invariants -/

/-- Inductive invariance along the runs whose steps meet `P`. -/
theorem run_invariant {P : σ → α → Prop} (Inv : σ → Prop)
    (hstep : ∀ s a s', Inv s → P s a → step s a = some s' → Inv s')
    {s s' : σ} {as : List α} (hinv : Inv s) (hok : StepsMeet step P s as)
    (hrun : run step s as = some s') : Inv s' := by
  induction as generalizing s with
  | nil =>
    rw [run_nil] at hrun
    exact Option.some.inj hrun ▸ hinv
  | cons a as ih =>
    rcases run_cons_some hrun with ⟨s₁, h₁, h₂⟩
    exact ih (hstep s a s₁ hinv hok.1 h₁) (hok.2 s₁ h₁) h₂

/-- Inductive invariance of the reachable states. -/
theorem Reachable.invariant {Init : σ → Prop} {P : σ → α → Prop} (Inv : σ → Prop)
    (hinit : ∀ s, Init s → Inv s)
    (hstep : ∀ s a s', Inv s → P s a → step s a = some s' → Inv s')
    {s : σ} (h : Reachable step Init P s) : Inv s := by
  induction h with
  | init h₀ => exact hinit _ h₀
  | step _ hP hs ih => exact hstep _ _ _ ih hP hs

/-- What can be reached from a state that can be reached. -/
theorem Reachable.trans {Init : σ → Prop} {P : σ → α → Prop} {s s' : σ}
    (h : Reachable step Init P s) (h' : Reachable step (· = s) P s') :
    Reachable step Init P s' := by
  induction h' with
  | init hs => exact hs ▸ h
  | step _ hP hs ih => exact .step ih hP hs

/-- A run whose steps meet `P` stays inside the reachable states. -/
theorem Reachable.run {Init : σ → Prop} {P : σ → α → Prop} {s s' : σ} {as : List α}
    (h : Reachable step Init P s) (hok : StepsMeet step P s as)
    (hrun : Lts.run step s as = some s') : Reachable step Init P s' :=
  run_invariant (Reachable step Init P)
    (fun _ _ _ hs hP hstep => .step hs hP hstep) h hok hrun

/-- A rank that the steps picked out by `p` lower and that no step raises bounds
how many of those steps a run takes. -/
theorem run_rank (Inv : σ → Prop) (rank : σ → Nat) (p : α → Bool)
    (hinv : ∀ s a s', Inv s → step s a = some s' → Inv s')
    (hlower : ∀ s a s', Inv s → step s a = some s' → p a = true → rank s' < rank s)
    (hkeep : ∀ s a s', Inv s → step s a = some s' → p a = false → rank s' = rank s)
    {s s' : σ} {as : List α} (hs : Inv s) (hrun : run step s as = some s') :
    as.countP p + rank s' ≤ rank s := by
  induction as generalizing s with
  | nil =>
    rw [run_nil] at hrun
    obtain rfl := Option.some.inj hrun
    exact Nat.le_of_eq (Nat.zero_add _)
  | cons a as ih =>
    rcases run_cons_some hrun with ⟨s₁, h₁, h₂⟩
    have hrest := ih (hinv s a s₁ hs h₁) h₂
    rw [List.countP_cons]
    cases hp : p a with
    | true =>
      have hlt := hlower s a s₁ hs h₁ hp
      simp only [if_true]
      omega
    | false =>
      have heq := hkeep s a s₁ hs h₁ hp
      simp only [Bool.false_eq_true, if_false]
      omega

/-- Where every step lowers a rank, a run can go on through steps that meet `P` until
there is none left. -/
theorem exists_maximal {P : σ → α → Prop} (Inv : σ → Prop) (rank : σ → Nat)
    (hinv : ∀ s a s', Inv s → step s a = some s' → Inv s')
    (hlower : ∀ s a s', Inv s → step s a = some s' → rank s' < rank s) {s : σ} (hs : Inv s) :
    ∃ as s', run step s as = some s' ∧ StepsMeet step P s as ∧
      ∀ a s'', step s' a = some s'' → ¬P s' a := by
  induction hn : rank s using Nat.strongRecOn generalizing s with
  | _ n ih =>
    by_cases hmore : ∃ a s₁, step s a = some s₁ ∧ P s a
    · rcases hmore with ⟨a, s₁, hstep, hP⟩
      have hlt : rank s₁ < n := hn ▸ hlower s a s₁ hs hstep
      rcases ih (rank s₁) hlt (hinv s a s₁ hs hstep) rfl with ⟨as, s', hrun, hmeet, hend⟩
      refine ⟨a :: as, s', ?_, ⟨hP, fun s₂ hs₂ => ?_⟩, hend⟩
      · rw [run_cons, hstep]
        exact hrun
      · rw [hstep] at hs₂
        exact Option.some.inj hs₂ ▸ hmeet
    · refine ⟨[], s, rfl, trivial, fun a s'' hstep hP => ?_⟩
      exact hmore ⟨a, s'', hstep, hP⟩

/-- The exact form of invariance, for runs whose steps meet `D`. `Inv` holds
along every such run; `Good` is kept by a step exactly if the step meets `P`,
and once lost it stays lost. Then `Good` holds at the end of a run iff every
step of the run met `P`. -/
theorem run_good_iff {D P : σ → α → Prop} (Inv Good : σ → Prop)
    (hinv : ∀ s a s', Inv s → D s a → step s a = some s' → Inv s')
    (hgood : ∀ s a s', Inv s → Good s → D s a → step s a = some s' → (Good s' ↔ P s a))
    (hlost : ∀ s a s', Inv s → ¬ Good s → step s a = some s' → ¬ Good s')
    {s s' : σ} {as : List α} (hs : Inv s) (hg : Good s) (hok : StepsMeet step D s as)
    (hrun : run step s as = some s') :
    Good s' ↔ StepsMeet step P s as := by
  -- a run that starts without `Good` never regains it
  have hstay : ∀ (as : List α) (t : σ), Inv t → ¬ Good t → StepsMeet step D t as →
      run step t as = some s' → ¬ Good s' := by
    intro as
    induction as with
    | nil =>
      intro t _ hng _ hr
      rw [run_nil] at hr
      exact Option.some.inj hr ▸ hng
    | cons a as ih =>
      intro t ht hng hD hr
      rcases run_cons_some hr with ⟨t₁, h₁, h₂⟩
      exact ih t₁ (hinv t a t₁ ht hD.1 h₁) (hlost t a t₁ ht hng h₁) (hD.2 t₁ h₁) h₂
  induction as generalizing s with
  | nil =>
    rw [run_nil] at hrun
    exact iff_of_true (Option.some.inj hrun ▸ hg) trivial
  | cons a as ih =>
    rcases run_cons_some hrun with ⟨s₁, h₁, h₂⟩
    have hs₁ : Inv s₁ := hinv s a s₁ hs hok.1 h₁
    have hok₁ := hok.2 s₁ h₁
    by_cases hP : P s a
    · have hg₁ : Good s₁ := (hgood s a s₁ hs hg hok.1 h₁).mpr hP
      refine (ih hs₁ hg₁ hok₁ h₂).trans ?_
      constructor
      · intro hmeet
        refine ⟨hP, fun t ht => ?_⟩
        rw [h₁] at ht
        exact Option.some.inj ht ▸ hmeet
      · intro hmeet
        exact hmeet.2 s₁ h₁
    · have hng₁ : ¬ Good s₁ := fun h => hP ((hgood s a s₁ hs hg hok.1 h₁).mp h)
      exact iff_of_false (hstay as s₁ hs₁ hng₁ hok₁ h₂) (fun hmeet => hP hmeet.1)

theorem always_nil {Good : σ → Prop} {s : σ} : Always step Good s [] ↔ Good s := by
  constructor
  · intro h
    exact h [] s (List.prefix_refl _) (run_nil s)
  · intro hg pre s' hpre hrun
    rw [List.prefix_nil.mp hpre, run_nil] at hrun
    exact Option.some.inj hrun ▸ hg

theorem always_cons {Good : σ → Prop} {s s₁ : σ} {a : α} {as : List α}
    (hstep : step s a = some s₁) :
    Always step Good s (a :: as) ↔ Good s ∧ Always step Good s₁ as := by
  constructor
  · intro h
    refine ⟨h [] s (List.nil_prefix ..) (run_nil s), fun pre s' hpre hrun => ?_⟩
    refine h (a :: pre) s' ((List.cons_prefix_cons).mpr ⟨rfl, hpre⟩) ?_
    rw [run_cons, hstep]
    exact hrun
  · rintro ⟨hg, hrest⟩ pre s' hpre hrun
    rcases List.prefix_cons_iff.mp hpre with rfl | ⟨pre', rfl, hpre'⟩
    · rw [run_nil] at hrun
      exact Option.some.inj hrun ▸ hg
    · rw [run_cons, hstep] at hrun
      exact hrest pre' s' hpre' hrun

/-- The exact form of invariance for a property that a run can regain. `Inv` is
kept by the steps that meet `P` where `Good` holds, and there a step keeps `Good`
exactly if it meets `P`. Then `Good` holds all along a run iff its steps met `P`. -/
theorem run_always_iff {P : σ → α → Prop} (Inv Good : σ → Prop)
    (hinv : ∀ s a s', Inv s → Good s → P s a → step s a = some s' → Inv s')
    (hgood : ∀ s a s', Inv s → Good s → step s a = some s' → (Good s' ↔ P s a))
    {s s' : σ} {as : List α} (hs : Inv s) (hg : Good s) (hrun : run step s as = some s') :
    Always step Good s as ↔ StepsMeet step P s as := by
  induction as generalizing s with
  | nil => exact always_nil.trans (iff_of_true hg trivial)
  | cons a as ih =>
    rcases run_cons_some hrun with ⟨s₁, h₁, h₂⟩
    rw [always_cons h₁]
    have hiff := hgood s a s₁ hs hg h₁
    constructor
    · rintro ⟨-, hrest⟩
      have hg₁ : Good s₁ := hrest [] s₁ (List.nil_prefix ..) (run_nil s₁)
      have hP := hiff.mp hg₁
      refine ⟨hP, fun t ht => ?_⟩
      rw [h₁] at ht
      obtain rfl := Option.some.inj ht
      exact (ih (hinv s a s₁ hs hg hP h₁) hg₁ h₂).mp hrest
    · rintro ⟨hP, hrest⟩
      exact ⟨hg, (ih (hinv s a s₁ hs hg hP h₁) (hiff.mpr hP) h₂).mpr (hrest s₁ h₁)⟩

end Lts
