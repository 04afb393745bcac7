import Ucxpp.Lib.Lts
import Ucxpp.Lib.RefCount

/-!
# Ledger — tokens that a machine obtains, and may lose

A machine gives out tokens, and `count` says how often each is accounted for in
a state: by its owners, or by a record that it has been given back. A step
obtains at most one new token, loses at most one that was accounted for, and
only moves the others. Then a token is accounted for exactly once, from the step
that obtains it on, in exactly the runs that never lose it (`Ledger.run_kept_iff`).
-/

open RefCount (holds)

variable {σ α τ : Type*} [DecidableEq τ]

/-- The books of a machine. -/
structure Ledger (step : σ → α → Option σ) (count : σ → τ → Nat) (Given : σ → τ → Prop)
    (obtains lost : σ → α → Option τ) : Prop where
  balance : ∀ {s s' a}, step s a = some s' → ∀ t,
    count s' t + holds (lost s a) t = count s t + holds (obtains s a) t
  given : ∀ {s s' a}, step s a = some s' → ∀ t, Given s' t ↔ Given s t ∨ obtains s a = some t
  fresh : ∀ {s s' a}, step s a = some s' → ∀ t, obtains s a = some t → ¬Given s t

namespace Ledger

/-- No token is accounted for twice, or before it has been given out. -/
structure Tidy (count : σ → τ → Nat) (Given : σ → τ → Prop) (s : σ) : Prop where
  le_one : ∀ t, count s t ≤ 1
  not_given : ∀ t, ¬Given s t → count s t = 0

/-- Once given out, the token is accounted for exactly once. -/
def Kept (count : σ → τ → Nat) (Given : σ → τ → Prop) (t : τ) (s : σ) : Prop :=
  Given s t → count s t = 1

variable {step : σ → α → Option σ} {count : σ → τ → Nat} {Given : σ → τ → Prop}
  {obtains lost : σ → α → Option τ}

theorem step_tidy (h : Ledger step count Given obtains lost) {s s' : σ} {a : α}
    (hs : Tidy count Given s) (hstep : step s a = some s') : Tidy count Given s' where
  le_one := by
    intro t
    have hbal := h.balance hstep t
    have hle := hs.le_one t
    by_cases ht : obtains s a = some t
    · have hzero := hs.not_given t (h.fresh hstep t ht)
      rw [ht, RefCount.holds_self] at hbal
      omega
    · rw [holds, holds, if_neg ht] at hbal
      omega
  not_given := by
    intro t ht
    have hnot := mt (h.given hstep t).mpr ht
    rcases not_or.mp hnot with ⟨hgiven, hobtains⟩
    have hbal := h.balance hstep t
    have hzero := hs.not_given t hgiven
    rw [holds, holds, if_neg hobtains] at hbal
    omega

/-- What a step does to a token that has been given out before. -/
theorem count_given (h : Ledger step count Given obtains lost) {s s' : σ} {a : α} {t : τ}
    (hstep : step s a = some s') (ht : Given s t) :
    count s' t + holds (lost s a) t = count s t := by
  have hbal := h.balance hstep t
  have hobtains : obtains s a ≠ some t := fun heq => h.fresh hstep t heq ht
  rwa [holds, holds, if_neg hobtains] at hbal

/-- A step keeps a token exactly if it does not lose it. -/
theorem step_kept_iff (h : Ledger step count Given obtains lost) {s s' : σ} {a : α} {t : τ}
    (hs : Tidy count Given s) (hkept : Kept count Given t s) (hstep : step s a = some s') :
    Kept count Given t s' ↔ lost s a ≠ some t := by
  by_cases ht : Given s t
  · have hcount := h.count_given hstep ht
    have hone := hkept ht
    have ht' := (h.given hstep t).mpr (.inl ht)
    constructor
    · intro hkept' hlost
      have hone' := hkept' ht'
      rw [hlost, RefCount.holds_self] at hcount
      omega
    · intro hlost _
      rw [holds, if_neg hlost] at hcount
      omega
  · -- the token is new, or still to come
    have hbal := h.balance hstep t
    have hzero := hs.not_given t ht
    constructor
    · intro hkept' hlost
      by_cases hobtains : obtains s a = some t
      · have hone' := hkept' ((h.given hstep t).mpr (.inr hobtains))
        rw [hlost, hobtains, RefCount.holds_self] at hbal
        omega
      · rw [hlost, RefCount.holds_self, holds, if_neg hobtains] at hbal
        omega
    · intro hlost ht'
      have hobtains := ((h.given hstep t).mp ht').resolve_left ht
      rw [hobtains, RefCount.holds_self, holds, if_neg hlost] at hbal
      omega

/-- What is lost stays lost. -/
theorem step_not_kept (h : Ledger step count Given obtains lost) {s s' : σ} {a : α} {t : τ}
    (hs : Tidy count Given s) (hlost : ¬Kept count Given t s) (hstep : step s a = some s') :
    ¬Kept count Given t s' := by
  rcases Classical.not_imp.mp hlost with ⟨ht, hne⟩
  have hle := hs.le_one t
  have hcount := h.count_given hstep ht
  intro hkept
  have hone := hkept ((h.given hstep t).mpr (.inl ht))
  omega

/-- A token is accounted for exactly once at the end of a run iff no step lost it. -/
theorem run_kept_iff (h : Ledger step count Given obtains lost) {s s' : σ} {as : List α} {t : τ}
    (hs : Tidy count Given s) (hkept : Kept count Given t s)
    (hrun : Lts.run step s as = some s') :
    Kept count Given t s' ↔ Lts.StepsMeet step (fun s a => lost s a ≠ some t) s as :=
  Lts.run_good_iff (D := fun _ _ => True) (Tidy count Given) (Kept count Given t)
    (fun _ _ _ hs _ hstep => h.step_tidy hs hstep)
    (fun _ _ _ hs hg _ hstep => h.step_kept_iff hs hg hstep)
    (fun _ _ _ hs hl hstep => h.step_not_kept hs hl hstep)
    hs hkept (Lts.stepsMeet_true _ _) hrun

end Ledger
