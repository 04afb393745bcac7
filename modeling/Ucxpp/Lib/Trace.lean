import Mathlib.Data.List.Basic

/-!
# Trace — what a growing history says about its past

A history is a list of events that grows at its end. `Each P` says that every
event of a history meets `P` against the events before it; it is checked event
by event as the history grows.
-/

namespace Trace

variable {α : Type*} {P : List α → α → Prop} {log es : List α} {e : α}

/-- Every event meets `P` against what happened before it. -/
def Each (P : List α → α → Prop) (log : List α) : Prop :=
  ∀ pre e post, log = pre ++ e :: post → P pre e

theorem each_nil : Each P [] := by
  intro pre e post h
  have hne : pre ++ e :: post ≠ [] :=
    List.append_ne_nil_of_right_ne_nil pre (List.cons_ne_nil e post)
  exact absurd h.symm hne

/-- The last event is checked against the whole history before it. -/
theorem each_concat : Each P (log ++ [e]) ↔ Each P log ∧ P log e := by
  constructor
  · intro h
    refine ⟨fun pre x post heq => ?_, h log e [] rfl⟩
    exact h pre x (post ++ [e]) (by rw [heq]; simp)
  · rintro ⟨hold, hnew⟩ pre x post heq
    -- the event is the new one, or it stands in the old history
    rcases List.eq_nil_or_concat post with rfl | ⟨post, y, rfl⟩
    · rcases List.append_inj' heq rfl with ⟨rfl, hlast⟩
      exact List.singleton_inj.mp hlast ▸ hnew
    · have hsplit : log ++ [e] = (pre ++ x :: post) ++ [y] := by
        rw [heq]
        simp
      exact hold pre x post (List.append_inj' hsplit rfl).1

/-- Events that meet `P` whatever came before them. -/
theorem each_append (hes : ∀ x ∈ es, ∀ past, P past x) : Each P (log ++ es) ↔ Each P log := by
  induction es generalizing log with
  | nil => rw [List.append_nil]
  | cons x es ih =>
    have hsplit : log ++ x :: es = (log ++ [x]) ++ es := by simp
    rw [hsplit, ih fun y hy => hes y (List.mem_cons_of_mem _ hy), each_concat]
    exact and_iff_left (hes x (List.mem_cons_self ..) log)

/-- An earlier history. -/
theorem Each.of_append (h : Each P (log ++ es)) : Each P log := by
  intro pre x post heq
  exact h pre x (post ++ es) (by rw [heq]; simp)

/-- The entries of a history that has grown by one. -/
theorem getElem?_concat {l : List α} {x y : α} {i : Nat} :
    (l ++ [x])[i]? = some y ↔ l[i]? = some y ∨ i = l.length ∧ x = y := by
  rcases Nat.lt_trichotomy i l.length with hlt | rfl | hgt
  · rw [List.getElem?_append_left hlt]
    exact ⟨.inl, fun h => h.resolve_right fun h => Nat.ne_of_lt hlt h.1⟩
  · simp
  · have hnone : (l ++ [x])[i]? = none := List.getElem?_eq_none (by simp; omega)
    have hnone' : l[i]? = none := List.getElem?_eq_none (Nat.le_of_lt hgt)
    rw [hnone, hnone']
    simp [Nat.ne_of_gt hgt]

/-- The entries before the first one that does not meet `p`. -/
theorem takeWhile_eq_take {p : α → Bool} {l : List α} {n : Nat}
    (hbefore : ∀ m < n, ∃ a, l[m]? = some a ∧ p a = true)
    (hnext : ∀ a, l[n]? = some a → p a = false) : l.takeWhile p = l.take n := by
  induction l generalizing n with
  | nil => simp
  | cons x l ih =>
    cases n with
    | zero => rw [List.takeWhile_cons_of_neg (by simp [hnext x rfl]), List.take_zero]
    | succ n =>
      rcases hbefore 0 (Nat.succ_pos n) with ⟨a, ha, hp⟩
      obtain rfl : x = a := Option.some.inj ha
      rw [List.takeWhile_cons_of_pos hp, List.take_succ_cons]
      rw [ih (fun m hm => hbefore (m + 1) (Nat.succ_lt_succ hm)) hnext]

end Trace
