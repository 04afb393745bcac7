import Mathlib.Data.List.Basic

/-!
# Resource — handles that are acquired and must be released

Code that acquires and releases handles, and may throw. A `World` has the
handles that are live; releasing a handle that is not live is recorded as misuse.

* `acquire`, `release` — the two operations, and what a release undoes;
* `withLocal` — a local object, destroyed on every way out of its scope;
* `Owning` — code that, if it throws, has released what it acquired, and if it
  returns, leaves exactly the handles of its result, which a destructor releases.
-/

namespace Resource

variable {κ ε α β : Type}

structure Handle (κ : Type) where
  kind : κ
  id : Nat
deriving DecidableEq, Repr

structure World (κ : Type) where
  next : Nat
  live : List (Handle κ)
  misused : List (Handle κ)
  live_lt : ∀ h ∈ live, h.id < next

/-- Code that throws an `ε` or returns an `α`. -/
abbrev Code (κ ε α : Type) :=
  ExceptT ε (StateM (World κ)) α

/-- The outcome, and the world afterwards. -/
def Code.exec (code : Code κ ε α) (w : World κ) : Except ε α × World κ :=
  code.run.run w

namespace World

def init : World κ :=
  ⟨0, [], [], fun _ h => nomatch h⟩

/-- The handle that is given out next. -/
def fresh (w : World κ) (kind : κ) : Handle κ :=
  ⟨kind, w.next⟩

def acquire (w : World κ) (kind : κ) : World κ where
  next := w.next + 1
  live := w.live ++ [w.fresh kind]
  misused := w.misused
  live_lt := by
    intro h hmem
    rcases List.mem_append.mp hmem with hmem | hmem
    · exact Nat.lt_succ_of_lt (w.live_lt h hmem)
    · rw [List.mem_singleton.mp hmem]
      exact Nat.lt_succ_self w.next

theorem fresh_not_mem (w : World κ) (kind : κ) : w.fresh kind ∉ w.live :=
  fun h => Nat.lt_irrefl _ (w.live_lt _ h)

/-- The same handles are live, and no more have been misused. -/
structure Same (w w' : World κ) : Prop where
  live : w'.live = w.live
  misused : w'.misused = w.misused

theorem Same.refl (w : World κ) : w.Same w := ⟨rfl, rfl⟩

variable [DecidableEq κ]

def release (w : World κ) (h : Handle κ) : World κ where
  next := w.next
  live := w.live.erase h
  misused := if h ∈ w.live then w.misused else w.misused ++ [h]
  live_lt := fun x hx => w.live_lt x (List.mem_of_mem_erase hx)

theorem release_live {w : World κ} {h : Handle κ} {pre post : List (Handle κ)}
    (hlive : w.live = pre ++ h :: post) (hpre : h ∉ pre) :
    (w.release h).live = pre ++ post ∧ (w.release h).misused = w.misused := by
  constructor
  · simp only [release, hlive]
    rw [List.erase_append_right _ hpre, List.erase_cons_head]
  · have hmem : h ∈ w.live := by
      rw [hlive]
      exact List.mem_append_right _ List.mem_cons_self
    simp only [release, if_pos hmem]

/-- The one handle that is live since `w` is released. -/
theorem same_release {w w' : World κ} {h : Handle κ} (hlive : w'.live = w.live ++ [h])
    (hmisused : w'.misused = w.misused) (hnot : h ∉ w.live) : w.Same (w'.release h) := by
  rcases release_live hlive hnot with ⟨hlive', hmisused'⟩
  exact ⟨hlive'.trans (List.append_nil _), hmisused'.trans hmisused⟩

/-- What has just been acquired is released. -/
theorem release_acquire (w : World κ) (kind : κ) :
    w.Same ((w.acquire kind).release (w.fresh kind)) :=
  same_release rfl rfl (w.fresh_not_mem kind)

/-- What was acquired first is released first. -/
theorem release_acquire_acquire (w : World κ) (kind kind' : κ) :
    (((w.acquire kind).acquire kind').release (w.fresh kind)).live =
        w.live ++ [(w.acquire kind).fresh kind'] ∧
      (((w.acquire kind).acquire kind').release (w.fresh kind)).misused = w.misused := by
  refine release_live ?_ (w.fresh_not_mem kind)
  exact List.append_assoc ..

end World

/-! ## Code -/

def acquire (kind : κ) : Code κ ε (Handle κ) := do
  let w ← get
  set (w.acquire kind)
  return w.fresh kind

theorem exec_bind_ok {code : Code κ ε α} {k : α → Code κ ε β} {w w' : World κ} {a : α}
    (h : code.exec w = (.ok a, w')) : (code >>= k).exec w = (k a).exec w' := by
  have hexec : (code >>= k).exec w =
      (ExceptT.bindCont k (code.exec w).1).run (code.exec w).2 := rfl
  rw [hexec, h]
  rfl

theorem exec_bind_error {code : Code κ ε α} {k : α → Code κ ε β} {w w' : World κ} {e : ε}
    (h : code.exec w = (.error e, w')) : (code >>= k).exec w = (.error e, w') := by
  have hexec : (code >>= k).exec w =
      (ExceptT.bindCont k (code.exec w).1).run (code.exec w).2 := rfl
  rw [hexec, h]
  rfl

theorem exec_tryCatch (code : Code κ ε α) (handler : ε → Code κ ε α) (w : World κ) :
    (tryCatch code handler).exec w =
      match code.exec w with
      | (.ok a, w') => (.ok a, w')
      | (.error e, w') => (handler e).exec w' := by
  have hexec : (tryCatch code handler).exec w =
      (match (code.exec w).1 with
        | .ok a => (pure (.ok a) : StateM (World κ) (Except ε α))
        | .error e => handler e).run (code.exec w).2 := rfl
  rw [hexec]
  rcases code.exec w with ⟨e | a, w'⟩
  · rfl
  · rfl

theorem exec_liftExcept {e e' : Except ε α} (h : e = e') (w : World κ) :
    (liftExcept e : Code κ ε α).exec w = (e', w) := by
  subst h
  cases e with
  | error e => rfl
  | ok a => rfl

theorem exec_acquire (kind : κ) (w : World κ) :
    (acquire kind : Code κ ε (Handle κ)).exec w = (.ok (w.fresh kind), w.acquire kind) := rfl

/-- The body with a local object, which is destroyed when the body returns and
when it throws. -/
def withLocal (construct : Code κ ε α) (destroy : α → Code κ ε Unit) (body : α → Code κ ε β) :
    Code κ ε β := do
  let a ← construct
  let b ← tryCatch (body a) fun e => do
    destroy a
    throw e
  destroy a
  return b

section

variable {construct : Code κ ε α} {destroy : α → Code κ ε Unit} {body : α → Code κ ε β}
  {w w₁ w₂ w₃ : World κ} {a : α}

theorem withLocal_ok {b : β} (hconstruct : construct.exec w = (.ok a, w₁))
    (hbody : (body a).exec w₁ = (.ok b, w₂)) (hdestroy : (destroy a).exec w₂ = (.ok (), w₃)) :
    (withLocal construct destroy body).exec w = (.ok b, w₃) := by
  rw [withLocal, exec_bind_ok hconstruct]
  have hcatch : (tryCatch (body a) fun e => do destroy a; throw e : Code κ ε β).exec w₁ =
      (.ok b, w₂) := by
    rw [exec_tryCatch, hbody]
  rw [exec_bind_ok hcatch, exec_bind_ok hdestroy]
  rfl

theorem withLocal_error {e : ε} (hconstruct : construct.exec w = (.ok a, w₁))
    (hbody : (body a).exec w₁ = (.error e, w₂)) (hdestroy : (destroy a).exec w₂ = (.ok (), w₃)) :
    (withLocal construct destroy body).exec w = (.error e, w₃) := by
  rw [withLocal, exec_bind_ok hconstruct]
  apply exec_bind_error
  rw [exec_tryCatch, hbody]
  exact exec_bind_ok hdestroy

theorem withLocal_construct_error {e : ε} (hconstruct : construct.exec w = (.error e, w₁)) :
    (withLocal construct destroy body).exec w = (.error e, w₁) :=
  exec_bind_error hconstruct

end

def release [DecidableEq κ] (h : Handle κ) : Code κ ε Unit :=
  modify fun w => w.release h

theorem exec_release [DecidableEq κ] (h : Handle κ) (w : World κ) :
    (release h : Code κ ε Unit).exec w = (.ok (), w.release h) := rfl

/-! ## Owning -/

/-- What is expected of code that makes an object: if it throws, what it acquired
has been released, and if it returns, what it acquired is the object's, until the
destructor releases it. -/
def Owning (owned : α → List (Handle κ)) (destroy : α → Code κ ε Unit) (code : Code κ ε α)
    (w : World κ) : Prop :=
  match code.exec w with
  | (.error _, w') => w.Same w'
  | (.ok a, w') =>
    w'.live = w.live ++ owned a ∧ w'.misused = w.misused ∧ w.Same ((destroy a).exec w').2

section

variable {owned : α → List (Handle κ)} {destroy : α → Code κ ε Unit} {code : Code κ ε α}
  {w w' : World κ} {a : α}

/-- Code that does in `w` what other code does there. -/
theorem owning_congr {code' : Code κ ε α} (h : code.exec w = code'.exec w) :
    Owning owned destroy code w ↔ Owning owned destroy code' w := by
  rw [Owning, Owning, h]

theorem owning_error_iff {e : ε} (h : code.exec w = (.error e, w')) :
    Owning owned destroy code w ↔ w.Same w' := by
  rw [Owning, h]

theorem owning_ok_iff (h : code.exec w = (.ok a, w')) :
    Owning owned destroy code w ↔
      w'.live = w.live ++ owned a ∧ w'.misused = w.misused ∧ w.Same ((destroy a).exec w').2 := by
  rw [Owning, h]

/-- The object owns the one handle that has been acquired. -/
theorem owning_acquire [DecidableEq κ] {kind : κ} (h : code.exec w = (.ok a, w.acquire kind))
    (howned : owned a = [w.fresh kind])
    (hdestroy : ((destroy a).exec (w.acquire kind)).2 =
      (w.acquire kind).release (w.fresh kind)) : Owning owned destroy code w := by
  rw [owning_ok_iff h, howned, hdestroy]
  exact ⟨rfl, rfl, w.release_acquire kind⟩

/-- Handles that are live beside those of before are leaked. -/
theorem not_same_append {h : Handle κ} {rest : List (Handle κ)}
    (hlive : w'.live = w.live ++ h :: rest) : ¬w.Same w' := by
  intro hsame
  have happend := hsame.live
  rw [hlive] at happend
  simp at happend

/-- A handle that is acquired and not released is leaked. -/
theorem not_same_acquire (w : World κ) (kind : κ) : ¬w.Same (w.acquire kind) :=
  not_same_append rfl

end

end Resource
