import Mathlib.Algebra.Order.BigOperators.Group.Finset

/-!
# Family — parties of which a step changes one

The state of a system with finitely many parties is a family `x : ι → σ`, and a step of
party `i` changes `x i` only. `total f x` adds up what `f` says of each party: how much
it has sent, or how far it is.
-/

namespace Family

variable {ι σ : Type*}

/-- A family in which one party has changed keeps what holds of every party. -/
theorem forall_update [DecidableEq ι] {P : σ → Prop} {x : ι → σ} {i : ι} {a : σ}
    (h : ∀ j, P (x j)) (ha : P a) (j : ι) : P (Function.update x i a j) := by
  by_cases hj : j = i
  · subst hj
    rw [Function.update_self]
    exact ha
  · rw [Function.update_of_ne hj]
    exact h j

variable [Fintype ι]

/-- The sum of what `f` says of each party. -/
def total (f : σ → Nat) (x : ι → σ) : Nat :=
  ∑ i, f (x i)

theorem total_zero {f : σ → Nat} {x : ι → σ} (h : ∀ i, f (x i) = 0) : total f x = 0 :=
  Finset.sum_eq_zero fun i _ => h i

variable [DecidableEq ι]

/-- The sum without one of the parties. -/
theorem total_split (f : σ → Nat) (x : ι → σ) (i : ι) :
    total f x = f (x i) + ∑ j ∈ Finset.univ.erase i, f (x j) :=
  (Finset.add_sum_erase Finset.univ (fun j => f (x j)) (Finset.mem_univ i)).symm

/-- What becomes of the sum when one party changes. -/
theorem total_update (f : σ → Nat) (x : ι → σ) (i : ι) (a : σ) :
    total f (Function.update x i a) + f (x i) = total f x + f a := by
  have hothers : ∑ j ∈ Finset.univ.erase i, f (Function.update x i a j) =
      ∑ j ∈ Finset.univ.erase i, f (x j) := by
    refine Finset.sum_congr rfl fun j hj => ?_
    rw [Function.update_of_ne (Finset.ne_of_mem_erase hj)]
  rw [total_split f _ i, total_split f x i, hothers, Function.update_self]
  omega

/-- A party that comes closer to its end brings the whole system closer. -/
theorem total_update_lt {f : σ → Nat} {x : ι → σ} {i : ι} {a : σ} (h : f a < f (x i)) :
    total f (Function.update x i a) < total f x := by
  have hupdate := total_update f x i a
  omega

end Family
