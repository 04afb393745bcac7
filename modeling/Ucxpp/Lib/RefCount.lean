import Mathlib.Data.List.Basic
import Mathlib.Logic.Function.Basic

/-!
# RefCount — use counts and the pointers that they count

A table is a list of cells, each an object with its use count; the pointers to
the cells are held by the elements of other lists, at most one by each.

* `uses`, `setUses`, `setObj` — reading and changing a cell;
* `held` — how many elements of a list hold a pointer to a target, and what a
  change of the list does to it;
* `Owed` — the use counts are the pointers that are held, plus one pointer that
  has been taken from its holder and is about to be released; `Owed.trade`,
  `Owed.create`, `Owed.retain` and `Owed.release` are the rules for it.
-/

namespace RefCount

variable {α β ρ : Type*}

/-! ## Cells -/

structure Cell (α : Type*) where
  obj : α
  uses : Nat
deriving DecidableEq, Repr

/-- The use count of cell `i`; zero where there is none. -/
def uses (t : List (Cell α)) (i : Nat) : Nat :=
  (t[i]?.map Cell.uses).getD 0

def setUses (t : List (Cell α)) (i n : Nat) : List (Cell α) :=
  t.modify i fun cell => { cell with uses := n }

def setObj (t : List (Cell α)) (i : Nat) (obj : α) : List (Cell α) :=
  t.modify i fun cell => { cell with obj := obj }

theorem uses_eq {t : List (Cell α)} {i : Nat} {cell : Cell α} (h : t[i]? = some cell) :
    uses t i = cell.uses := by
  rw [uses, h]
  rfl

theorem exists_cell {t : List (Cell α)} {i : Nat} (h : uses t i ≠ 0) :
    ∃ cell, t[i]? = some cell := by
  cases hcell : t[i]? with
  | none =>
    rw [uses, hcell] at h
    exact absurd rfl h
  | some cell => exact ⟨cell, rfl⟩

theorem getElem?_setUses_self {t : List (Cell α)} {i : Nat} {cell : Cell α}
    (h : t[i]? = some cell) (n : Nat) :
    (setUses t i n)[i]? = some { cell with uses := n } := by
  rw [setUses, List.getElem?_modify_eq, h]
  rfl

theorem getElem?_setUses_of_ne (t : List (Cell α)) {i j : Nat} (h : j ≠ i) (n : Nat) :
    (setUses t i n)[j]? = t[j]? :=
  List.getElem?_modify_ne _ t h.symm

theorem getElem?_setObj_self {t : List (Cell α)} {i : Nat} {cell : Cell α}
    (h : t[i]? = some cell) (obj : α) :
    (setObj t i obj)[i]? = some { cell with obj := obj } := by
  rw [setObj, List.getElem?_modify_eq, h]
  rfl

theorem getElem?_setObj_of_ne (t : List (Cell α)) {i j : Nat} (h : j ≠ i) (obj : α) :
    (setObj t i obj)[j]? = t[j]? :=
  List.getElem?_modify_ne _ t h.symm

@[simp] theorem length_setUses (t : List (Cell α)) (i n : Nat) :
    (setUses t i n).length = t.length :=
  List.length_modify ..

@[simp] theorem length_setObj (t : List (Cell α)) (i : Nat) (obj : α) :
    (setObj t i obj).length = t.length :=
  List.length_modify ..

theorem uses_setUses_self {t : List (Cell α)} {i : Nat} {cell : Cell α} (h : t[i]? = some cell)
    (n : Nat) : uses (setUses t i n) i = n :=
  uses_eq (getElem?_setUses_self h n)

theorem uses_setUses_of_ne (t : List (Cell α)) {i j : Nat} (h : j ≠ i) (n : Nat) :
    uses (setUses t i n) j = uses t j := by
  rw [uses, getElem?_setUses_of_ne t h, uses]

/-- A cell with a use behind a change of a count, and the same object before. -/
theorem of_getElem?_setUses {t : List (Cell α)} {i j n : Nat} {cell : Cell α}
    (hpos : uses t i ≠ 0) (h : (setUses t i n)[j]? = some cell) (hcell : cell.uses ≠ 0) :
    ∃ old, t[j]? = some old ∧ old.uses ≠ 0 ∧ old.obj = cell.obj := by
  by_cases hj : j = i
  · subst hj
    rcases exists_cell hpos with ⟨old, hold⟩
    rw [getElem?_setUses_self hold] at h
    rw [uses_eq hold] at hpos
    have hobj : old.obj = cell.obj := by rw [← Option.some.inj h]
    exact ⟨old, hold, hpos, hobj⟩
  · rw [getElem?_setUses_of_ne t hj] at h
    exact ⟨cell, h, hcell, rfl⟩

@[simp] theorem uses_setObj (t : List (Cell α)) (i : Nat) (obj : α) (j : Nat) :
    uses (setObj t i obj) j = uses t j := by
  rw [uses, uses, setObj, List.getElem?_modify]
  cases t[j]? with
  | none => rfl
  | some cell => by_cases h : i = j <;> simp [h]

theorem uses_append_length (t : List (Cell α)) (cell : Cell α) :
    uses (t ++ [cell]) t.length = cell.uses :=
  uses_eq List.getElem?_concat_length

theorem uses_length (t : List (Cell α)) : uses t t.length = 0 := by
  rw [uses, List.getElem?_eq_none (Nat.le_refl _)]
  rfl

theorem uses_append_of_ne (t : List (Cell α)) (cell : Cell α) {i : Nat} (h : i ≠ t.length) :
    uses (t ++ [cell]) i = uses t i := by
  rw [uses, uses]
  rcases Nat.lt_or_ge i t.length with hlt | hge
  · rw [List.getElem?_append_left hlt]
  · rw [List.getElem?_eq_none hge, List.getElem?_eq_none]
    rw [List.length_append, List.length_singleton]
    omega

/-! ## Pointers -/

variable [DecidableEq ρ]

/-- Whether a pointer points to `r`, as a number. -/
def holds (p : Option ρ) (r : ρ) : Nat :=
  if p = some r then 1 else 0

@[simp] theorem holds_none (r : ρ) : holds none r = 0 :=
  if_neg nofun

@[simp] theorem holds_self (r : ρ) : holds (some r) r = 1 :=
  if_pos rfl

theorem holds_of_ne {r r' : ρ} (h : r' ≠ r) : holds (some r) r' = 0 :=
  if_neg fun heq => h (Option.some.inj heq).symm

/-- A new cell has one use, the pointer that its maker gets; `f` names the cells
of the table. -/
theorem uses_concat {f : Nat → ρ} (hf : Function.Injective f) (t : List (Cell α)) (obj : α)
    (i : Nat) : uses (t ++ [⟨obj, 1⟩]) i = uses t i + holds (some (f t.length)) (f i) := by
  by_cases hi : i = t.length
  · rw [hi, uses_append_length, uses_length, holds_self]
  · rw [uses_append_of_ne t _ hi, holds_of_ne fun heq => hi (hf heq), Nat.add_zero]

/-- How many elements of a list hold a pointer to `r`. -/
def held (ptr : α → Option ρ) : List α → ρ → Nat
  | [], _ => 0
  | a :: l, r => holds (ptr a) r + held ptr l r

variable {ptr : α → Option ρ}

theorem held_cons (a : α) (l : List α) (r : ρ) :
    held ptr (a :: l) r = holds (ptr a) r + held ptr l r := rfl

theorem held_append (l : List α) (a : α) (r : ρ) :
    held ptr (l ++ [a]) r = held ptr l r + holds (ptr a) r := by
  induction l with
  | nil => exact Nat.add_comm ..
  | cons x l ih =>
    rw [List.cons_append, held_cons, held_cons, ih]
    omega

theorem held_append_list (l l' : List α) (r : ρ) :
    held ptr (l ++ l') r = held ptr l r + held ptr l' r := by
  induction l with
  | nil => exact (Nat.zero_add _).symm
  | cons a l ih => rw [List.cons_append, held_cons, held_cons, ih, Nat.add_assoc]

theorem length_filter_eq_held (l : List α) (r : ρ) :
    (l.filter fun a => ptr a = some r).length = held ptr l r := by
  induction l with
  | nil => rfl
  | cons a l ih =>
    rw [List.filter_cons, held_cons, holds]
    by_cases h : ptr a = some r
    · simp only [h, decide_true, if_true, List.length_cons, ih, Nat.add_comm]
    · simp only [h, decide_false, Bool.false_eq_true, if_false, ih, Nat.zero_add]

theorem held_set {l : List α} {i : Nat} {a : α} (h : l[i]? = some a) (b : α) (r : ρ) :
    held ptr (l.set i b) r + holds (ptr a) r = held ptr l r + holds (ptr b) r := by
  induction l generalizing i with
  | nil => exact nomatch h
  | cons x l ih =>
    cases i with
    | zero =>
      obtain rfl : x = a := Option.some.inj h
      rw [List.set_cons_zero, held_cons, held_cons]
      omega
    | succ i =>
      have htail := ih (i := i) h
      rw [List.set_cons_succ, held_cons, held_cons]
      omega

theorem held_eq_zero {l : List α} {r : ρ} : held ptr l r = 0 ↔ ∀ a ∈ l, ptr a ≠ some r := by
  induction l with
  | nil => exact iff_of_true rfl nofun
  | cons x l ih =>
    rw [held_cons, Nat.add_eq_zero_iff, ih, List.forall_mem_cons, holds]
    by_cases h : ptr x = some r
    · simp [h]
    · simp [h]

theorem held_pos {l : List α} {i : Nat} {a : α} {r : ρ} (h : l[i]? = some a)
    (hptr : ptr a = some r) : 0 < held ptr l r := by
  rcases Nat.eq_zero_or_pos (held ptr l r) with hzero | hpos
  · exact absurd hptr (held_eq_zero.mp hzero a (List.mem_of_getElem? h))
  · exact hpos

/-- Of two elements with one pointer to `r` between them, there is only one. -/
theorem eq_of_held_le_one {l : List α} {i j : Nat} {a b : α} {r : ρ} (hone : held ptr l r ≤ 1)
    (hi : l[i]? = some a) (ha : ptr a = some r) (hj : l[j]? = some b) (hb : ptr b = some r) :
    i = j := by
  induction l generalizing i j with
  | nil => cases hi
  | cons x l ih =>
    rw [held_cons] at hone
    cases i with
    | zero =>
      obtain rfl : x = a := Option.some.inj hi
      rw [ha, holds_self] at hone
      cases j with
      | zero => rfl
      | succ j =>
        have hpos : 0 < held ptr l r := held_pos (i := j) hj hb
        omega
    | succ i =>
      cases j with
      | zero =>
        obtain rfl : x = b := Option.some.inj hj
        have hpos : 0 < held ptr l r := held_pos (i := i) hi ha
        rw [hb, holds_self] at hone
        omega
      | succ j =>
        have heq := ih (i := i) (j := j) (by omega) hi hj
        omega

theorem modify_eq_set {l : List α} {i : Nat} {a : α} (h : l[i]? = some a) (f : α → α) :
    l.modify i f = l.set i (f a) := by
  apply List.ext_getElem?
  intro j
  by_cases hj : j = i
  · subst hj
    have hlt : j < l.length := (List.getElem?_eq_some_iff.mp h).1
    rw [List.getElem?_modify_eq, h, List.getElem?_set_self hlt]
    rfl
  · rw [List.getElem?_modify_ne _ _ (Ne.symm hj), List.getElem?_set_ne (Ne.symm hj)]

/-- How many objects of a table hold a pointer to `r`. -/
def heldBy (ptr : α → Option ρ) (t : List (Cell α)) (r : ρ) : Nat :=
  held (fun cell => ptr cell.obj) t r

/-- Changes that keep the pointers. -/
theorem held_modify {f : α → α} (hf : ∀ a, ptr (f a) = ptr a) (l : List α) (i : Nat) (r : ρ) :
    held ptr (l.modify i f) r = held ptr l r := by
  induction l generalizing i with
  | nil => rw [List.modify_nil]
  | cons x l ih =>
    cases i with
    | zero => rw [List.modify_zero_cons, held_cons, held_cons, hf]
    | succ i => rw [List.modify_succ_cons, held_cons, held_cons, ih]

@[simp] theorem heldBy_setUses (t : List (Cell α)) (i n : Nat) (r : ρ) :
    heldBy ptr (setUses t i n) r = heldBy ptr t r := by
  unfold heldBy setUses
  apply held_modify
  intro cell
  rfl

theorem heldBy_setObj {t : List (Cell α)} {i : Nat} {cell : Cell α} (h : t[i]? = some cell)
    (obj : α) (r : ρ) :
    heldBy ptr (setObj t i obj) r + holds (ptr cell.obj) r =
      heldBy ptr t r + holds (ptr obj) r := by
  rw [setObj, modify_eq_set h]
  exact held_set h { cell with obj := obj } r

/-! ## The balance -/

/-- The use counts are the pointers that are held, and the pointer `p`. -/
def Owed (uses holders : ρ → Nat) (p : Option ρ) : Prop :=
  ∀ r, uses r = holders r + holds p r

variable {uses holders : ρ → Nat}

theorem Owed.pos {r : ρ} (h : Owed uses holders (some r)) : 0 < uses r := by
  rw [h r, holds_self]
  exact Nat.succ_pos _

theorem Owed.holders_le {p : Option ρ} (h : Owed uses holders p) (r : ρ) : holders r ≤ uses r := by
  rw [h r]
  exact Nat.le_add_right ..

/-- A pointer finds a holder, which gives up another one. -/
theorem Owed.trade {p q : Option ρ} {holders' : ρ → Nat} (h : Owed uses holders p)
    (hset : ∀ r, holders' r + holds q r = holders r + holds p r) : Owed uses holders' q := by
  intro r
  rw [hset r]
  exact h r

/-- A new object takes the pointer, and its maker gets a pointer to it. -/
theorem Owed.create {p q : Option ρ} {uses' holders' : ρ → Nat} (h : Owed uses holders p)
    (huses : ∀ r, uses' r = uses r + holds q r)
    (hholders : ∀ r, holders' r = holders r + holds p r) : Owed uses' holders' q := by
  intro r
  rw [huses r, hholders r, h r]

/-- A copy of a pointer waits for its holder. -/
theorem Owed.retain {r : ρ} {uses' : ρ → Nat} (h : Owed uses holders none)
    (hself : uses' r = uses r + 1) (hother : ∀ r', r' ≠ r → uses' r' = uses r') :
    Owed uses' holders (some r) := by
  intro r'
  have hold := h r'
  rw [holds_none, Nat.add_zero] at hold
  by_cases hr : r' = r
  · subst hr
    rw [hself, hold, holds_self]
  · rw [hother r' hr, hold, holds_of_ne hr, Nat.add_zero]

/-- Releasing the pointer settles the balance. -/
theorem Owed.release {r : ρ} {uses' : ρ → Nat} (h : Owed uses holders (some r))
    (hself : uses' r = uses r - 1) (hother : ∀ r', r' ≠ r → uses' r' = uses r') :
    Owed uses' holders none := by
  intro r'
  have hold := h r'
  by_cases hr : r' = r
  · subst hr
    rw [holds_self] at hold
    rw [hself, hold, holds_none]
    omega
  · rw [hother r' hr, hold, holds_of_ne hr, holds_none]

end RefCount
