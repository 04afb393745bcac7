import Ucxpp.Lib.Ledger
import Ucxpp.Teardown

/-!
# Conservation — each handle has one owner, until it is given back

Addresses, memory handles, packed keys and remote keys are owned by one
variable each. `St.count` is the number of owners and of calls that have given
the handle back; `ledger` says what each statement does to it. The one statement
that loses a handle is a move assignment to a `local_address` that still holds
an address (`lost`), so memory handles and keys are given back exactly once
whatever the user does, and addresses exactly if no such assignment is made.

A `Stmt` is a statement of a user who also has acceptors and connectors, which
move their members one by one.
-/

namespace Ucxpp.Ownership

open RefCount (held holds)

/-! ## Handles and their owners -/

/-- A handle that one object owns. -/
inductive Token where
  | address (a : Nat)
  | mem (m : Nat)
  | buffer (b : Nat)
  | rkey (r : Nat)
deriving DecidableEq, Repr

/-- The handle that a variable owns. -/
def Var.token : Var → Option Token
  | .localAddress _ address => address.map .address
  | .localMemoryHandle _ mem => mem.map .mem
  | .packedMemoryRkey buffer => buffer.map .buffer
  | .remoteMemoryHandle _ _ rkey => rkey.map .rkey
  | .contextPtr _ | .workerPtr _ | .endpointPtr _ | .dropped => none

/-- The handle that a call gives back. -/
def Call.token : Call → Option Token
  | .workerReleaseAddress _ address => some (.address address)
  | .memUnmap _ mem => some (.mem mem)
  | .rkeyBufferRelease buffer => some (.buffer buffer)
  | .rkeyDestroy rkey => some (.rkey rkey)
  | .cleanup _ | .workerDestroy _ | .epCloseNbx _ => none

def Entry.token (x : Entry) : Option Token :=
  x.call.token

/-- UCX has given the handle out. -/
def Ucx.Gave (ucx : Ucx) : Token → Prop
  | .address a => a < ucx.addresses.length
  | .mem m => m < ucx.mems.length
  | .buffer b => b < ucx.buffers.length
  | .rkey r => r < ucx.rkeys.length

instance (ucx : Ucx) (t : Token) : Decidable (ucx.Gave t) :=
  match t with
  | .address _ | .mem _ | .buffer _ | .rkey _ => inferInstanceAs (Decidable (_ < _))

def St.Gave (s : St) (t : Token) : Prop :=
  s.heap.ucx.Gave t

instance (s : St) (t : Token) : Decidable (s.Gave t) :=
  inferInstanceAs (Decidable (s.heap.ucx.Gave t))

/-- How many variables own the handle, and how many calls have given it back. -/
def St.count (s : St) (t : Token) : Nat :=
  held Var.token s.heap.vars t + held Entry.token s.log t

/-- The calls that have given the handle back. -/
def St.released (s : St) (t : Token) : List Call :=
  (s.log.filter fun x => x.token = some t).map Entry.call

/-- The handle that a statement gets from UCX. -/
def obtains (s : St) : Act → Option Token
  | .getAddress _ => some (.address s.heap.ucx.addresses.length)
  | .mapMem _ => some (.mem s.heap.ucx.mems.length)
  | .packRkey _ => some (.buffer s.heap.ucx.buffers.length)
  | .unpackRkey _ => some (.rkey s.heap.ucx.rkeys.length)
  | .build | .createWorker _ | .createEndpoint .. | .contextPtr _ | .workerPtr _
  | .endpointPtr _ | .copy _ | .move _ | .copyAssign .. | .moveAssign .. | .drop _ => none

/-- The address that a move assignment overwrites. -/
def lost (s : St) : Act → Option Token
  | .moveAssign dst src =>
    match s.heap.vars[dst]? with
    | some (.localAddress _ address) => if dst = src then none else address.map .address
    | _ => none
  | _ => none

/-! ## Changes that leave the owners alone -/

/-- The variables and what UCX has given out stay, and no call gives back a
handle that a variable owns. -/
structure Quiet (s s' : St) : Prop where
  vars : s'.heap.vars = s.heap.vars
  ucx : s'.heap.ucx = s.heap.ucx
  log : ∃ es, s'.log = s.log ++ es ∧ ∀ x ∈ es, x.token = none

theorem Quiet.of_log {s s' : St} (h : SameVars s s') (hlog : s'.log = s.log) : Quiet s s' where
  vars := h.1
  ucx := h.2
  log := ⟨[], hlog.trans (List.append_nil _).symm, fun _ hx => nomatch hx⟩

theorem Quiet.trans {s s' s'' : St} (h : Quiet s s') (h' : Quiet s' s'') : Quiet s s'' where
  vars := h'.vars.trans h.vars
  ucx := h'.ucx.trans h.ucx
  log := by
    rcases h.log with ⟨es, hes, hnone⟩
    rcases h'.log with ⟨es', hes', hnone'⟩
    refine ⟨es ++ es', ?_, ?_⟩
    · rw [hes', hes, List.append_assoc]
    · intro x hx
      rcases List.mem_append.mp hx with hx | hx
      · exact hnone x hx
      · exact hnone' x hx

theorem call_quiet (s : St) {c : Call} (h : c.token = none) : Quiet s (s.call c) where
  vars := rfl
  ucx := rfl
  log := ⟨[⟨c, s.heap⟩], rfl, fun _ hx => List.mem_singleton.mp hx ▸ h⟩

theorem setUses_quiet (s : St) (r : Ref) (n : Nat) : Quiet s (s.setUses r n) :=
  .of_log (setUses_sameVars s r n) rfl

theorem retain_quiet (s : St) (p : Option Ref) : Quiet s (s.retain p) := by
  cases p with
  | none => exact .of_log ⟨rfl, rfl⟩ rfl
  | some r => exact setUses_quiet ..

theorem releaseContext_quiet (s : St) (c : Nat) : Quiet s (releaseContext s c) := by
  have hunuse : Quiet s (s.unuse (.context c)) := setUses_quiet ..
  simp only [releaseContext]
  split
  · exact hunuse.trans (call_quiet _ rfl)
  · exact hunuse

theorem destroyWorker_quiet (s : St) (w : Nat) : Quiet s (destroyWorker s w) := by
  unfold destroyWorker
  split
  · rename_i cell hcell
    have hcall : Quiet s (s.call (.workerDestroy w)) := call_quiet s rfl
    cases cell.obj.ctx with
    | none => exact hcall
    | some c =>
      have hset : Quiet (s.call (.workerDestroy w))
          ((s.call (.workerDestroy w)).setWorker w { ctx := none }) := .of_log ⟨rfl, rfl⟩ rfl
      exact (hcall.trans hset).trans (releaseContext_quiet _ c)
  · exact .of_log ⟨rfl, rfl⟩ rfl

theorem releaseWorker_quiet (s : St) (w : Nat) : Quiet s (releaseWorker s w) := by
  have hunuse : Quiet s (s.unuse (.worker w)) := setUses_quiet ..
  simp only [releaseWorker]
  split
  · exact hunuse.trans (destroyWorker_quiet _ w)
  · exact hunuse

theorem destroyEndpoint_quiet (s : St) (e : Nat) : Quiet s (destroyEndpoint s e) := by
  unfold destroyEndpoint
  split
  · rename_i cell hcell
    have hclose : Quiet s (if cell.obj.ep = true ∧ cell.obj.closeRequest = false then
        s.call (.epCloseNbx e) else s) := by
      split
      · exact call_quiet s rfl
      · exact .of_log ⟨rfl, rfl⟩ rfl
    cases cell.obj.worker with
    | none => exact hclose
    | some w =>
      refine (hclose.trans ?_).trans (releaseWorker_quiet _ w)
      exact .of_log ⟨rfl, rfl⟩ rfl
  · exact .of_log ⟨rfl, rfl⟩ rfl

theorem releaseEndpoint_quiet (s : St) (e : Nat) : Quiet s (releaseEndpoint s e) := by
  have hunuse : Quiet s (s.unuse (.endpoint e)) := setUses_quiet ..
  simp only [releaseEndpoint]
  split
  · exact hunuse.trans (destroyEndpoint_quiet _ e)
  · exact hunuse

theorem release_quiet (s : St) (p : Option Ref) : Quiet s (release s p) := by
  match p with
  | none => exact .of_log ⟨rfl, rfl⟩ rfl
  | some (.context c) => exact releaseContext_quiet s c
  | some (.worker w) => exact releaseWorker_quiet s w
  | some (.endpoint e) => exact releaseEndpoint_quiet s e

/-! ## Counting -/

theorem Quiet.count {s s' : St} (h : Quiet s s') (t : Token) : s'.count t = s.count t := by
  rcases h.log with ⟨es, hes, hnone⟩
  have hzero : held Entry.token es t = 0 :=
    RefCount.held_eq_zero.mpr fun x hx heq => nomatch (hnone x hx) ▸ heq
  rw [St.count, St.count, h.vars, hes, RefCount.held_append_list, hzero, Nat.add_zero]

theorem count_setVar {s : St} {i : Nat} {old : Var} (h : s.heap.vars[i]? = some old) (v : Var)
    (t : Token) : (s.setVar i v).count t + holds old.token t = s.count t + holds v.token t := by
  have hset : held Var.token (s.heap.vars.set i v) t + holds old.token t =
      held Var.token s.heap.vars t + holds v.token t := RefCount.held_set h v t
  simp only [St.count, St.setVar]
  omega

theorem count_addVar (s : St) (v : Var) (t : Token) :
    (s.addVar v).count t = s.count t + holds v.token t := by
  have happend : held Var.token (s.heap.vars ++ [v]) t =
      held Var.token s.heap.vars t + holds v.token t := RefCount.held_append _ _ t
  simp only [St.count, St.addVar]
  omega

/-- A variable changes, but not the handle that it owns. -/
theorem count_modifyVar (s : St) (i : Nat) {f : Var → Var} (hf : ∀ v, (f v).token = v.token)
    (t : Token) : (s.modifyVar i f).count t = s.count t := by
  simp only [St.count, St.modifyVar, RefCount.held_modify hf]

/-- A destructor gives back what the variable owns. -/
theorem count_destructorBody (s : St) (v : Var) (t : Token) :
    (destructorBody s v).count t = s.count t + holds v.token t := by
  have hcall : ∀ c : Call, (s.call c).count t = s.count t + holds c.token t := by
    intro c
    have happend : held Entry.token (s.log ++ [⟨c, s.heap⟩]) t =
        held Entry.token s.log t + holds c.token t := RefCount.held_append _ _ t
    simp only [St.count, St.call]
    omega
  cases v with
  | localAddress worker address =>
    cases address with
    | none => rfl
    | some a => exact hcall _
  | localMemoryHandle ctx mem =>
    cases mem with
    | none => rfl
    | some m => exact hcall _
  | packedMemoryRkey buffer =>
    cases buffer with
    | none => rfl
    | some b => exact hcall _
  | remoteMemoryHandle endpoint ep rkey =>
    cases rkey with
    | none => rfl
    | some r => exact hcall _
  | contextPtr | workerPtr | endpointPtr | dropped => rfl

theorem movedFrom_token (v : Var) : v.movedFrom.token = none := by
  cases v <;> rfl

theorem samePtr_token {old v : Var} (h : old.samePtr v = true) :
    old.token = none ∧ v.token = none := by
  cases old <;> cases v <;> first | exact ⟨rfl, rfl⟩ | cases h

theorem withWorker_token (worker : Option Nat) (v : Var) :
    (v.withWorker worker).token = v.token := by
  cases v <;> rfl

/-! ## The books -/

/-- A statement that only adds a variable. -/
theorem balance_addVar {s s' : St} {t : Token} (h : s'.count t = s.count t) (v : Var) :
    (s'.addVar v).count t + holds none t = s.count t + holds v.token t := by
  rw [count_addVar, h, RefCount.holds_none, Nat.add_zero]

theorem count_moveConstruct {s : St} {src : Nat} {v : Var} (hsrc : s.heap.vars[src]? = some v)
    (t : Token) : (moveConstruct s src v).count t = s.count t := by
  have hset := count_setVar hsrc v.movedFrom t
  rw [movedFrom_token, RefCount.holds_none] at hset
  rw [moveConstruct, count_addVar]
  omega

/-- Variables that own nothing are assigned. -/
theorem count_setVar_none {s : St} {i : Nat} {old v : Var} (h : s.heap.vars[i]? = some old)
    (hold : old.token = none) (hv : v.token = none) (t : Token) :
    (s.setVar i v).count t = s.count t := by
  have hset := count_setVar h v t
  rwa [hold, hv, RefCount.holds_none, Nat.add_zero, Nat.add_zero] at hset

theorem count_moveAssignPtr {s : St} {dst src : Nat} {old v : Var}
    (hdst : s.heap.vars[dst]? = some old) (hsrc : s.heap.vars[src]? = some v)
    (hptr : old.samePtr v = true) (t : Token) :
    (moveAssignPtr s dst src v).count t = s.count t := by
  rcases samePtr_token hptr with ⟨hold, hv⟩
  have hmoved := count_setVar_none hsrc hv (movedFrom_token v) t
  -- the target may be the source, which is empty by now
  have hdst' : ∃ old', (s.setVar src v.movedFrom).heap.vars[dst]? = some old' ∧
      old'.token = none := by
    simp only [St.setVar, List.getElem?_set]
    split
    · split
      · exact ⟨_, rfl, movedFrom_token v⟩
      · rename_i heq hlt
        exact absurd (List.getElem?_eq_some_iff.mp hsrc).1 hlt
    · exact ⟨old, hdst, hold⟩
  rcases hdst' with ⟨old', hold', htoken⟩
  rw [moveAssignPtr, (release_quiet _ _).count, count_setVar_none hold' htoken hv, hmoved]

/-- `address_` of one variable is set. -/
theorem count_withAddress {s : St} {i : Nat} {worker address : Option Nat}
    (h : s.heap.vars[i]? = some (.localAddress worker address)) (address' : Option Nat)
    (t : Token) :
    (s.modifyVar i (Var.withAddress address')).count t + holds (address.map .address) t =
      s.count t + holds (address'.map .address) t := by
  rw [modifyVar_eq h]
  exact count_setVar h (.localAddress worker address') t

/-- `local_address::operator=`: what the target owned is owned by nobody, unless
the target is the source. -/
theorem count_moveAssignAddress {s : St} {dst src : Nat}
    {worker address worker' address' : Option Nat}
    (hdst : s.heap.vars[dst]? = some (.localAddress worker' address'))
    (hsrc : s.heap.vars[src]? = some (.localAddress worker address)) (t : Token) :
    (moveAssignAddress s dst src worker address).count t +
        holds (lost s (.moveAssign dst src)) t = s.count t := by
  -- the pointers to the workers have moved, the addresses have not
  let s₁ := release ((s.modifyVar src (Var.withWorker none)).modifyVar dst (Var.withWorker worker))
    (((s.modifyVar src (Var.withWorker none)).heap.vars[dst]?).bind Var.ref)
  have hvars : s₁.heap.vars =
      (s.heap.vars.modify src (Var.withWorker none)).modify dst (Var.withWorker worker) :=
    (release_quiet _ _).vars
  have hcount : s₁.count t = s.count t := by
    rw [(release_quiet _ _).count, count_modifyVar _ _ (withWorker_token worker),
      count_modifyVar _ _ (withWorker_token none)]
  have hsrc₁ : ∃ w, s₁.heap.vars[src]? = some (.localAddress w address) := by
    rw [hvars, List.getElem?_modify, List.getElem?_modify_eq, hsrc]
    by_cases hd : dst = src
    · exact ⟨worker, congrArg some (if_pos hd)⟩
    · exact ⟨none, congrArg some (if_neg hd)⟩
  rcases hsrc₁ with ⟨w, hsrc₁⟩
  -- `other.address_` is taken, and put where the target's address is
  let s₂ := s₁.modifyVar src (Var.withAddress none)
  have htaken : s₂.count t + holds (address.map .address) t = s₁.count t + holds none t :=
    count_withAddress hsrc₁ none t
  have hres : moveAssignAddress s dst src worker address =
      s₂.modifyVar dst (Var.withAddress address) := rfl
  rw [hres]
  rw [RefCount.holds_none] at htaken
  by_cases hd : dst = src
  · -- a self-assignment gives the address back to where it was taken from
    subst hd
    have hself : s₂.heap.vars[dst]? = some (.localAddress w none) := by
      simp only [s₂, St.modifyVar, List.getElem?_modify_eq, hsrc₁]
      rfl
    have hput := count_withAddress hself address t
    simp only [lost, hdst, if_true]
    simp only [Option.map_none, RefCount.holds_none] at hput ⊢
    omega
  · have hother : ∃ w', s₂.heap.vars[dst]? = some (.localAddress w' address') := by
      simp only [s₂, St.modifyVar, List.getElem?_modify_ne _ _ (Ne.symm hd), hvars,
        List.getElem?_modify_eq, hdst]
      exact ⟨worker, rfl⟩
    -- what the target owned before is owned by nobody from here on
    rcases hother with ⟨w', hother⟩
    have hput := count_withAddress hother address t
    simp only [lost, if_neg hd, hdst]
    omega

theorem count_drop {s : St} {i : Nat} {v : Var} (hi : s.heap.vars[i]? = some v) (t : Token) :
    (drop s i v).count t = s.count t := by
  have hbody := count_destructorBody s v t
  -- the handle goes from the variable to the log
  rw [← destructorBody_heap s v] at hi
  have hset := count_setVar hi .dropped t
  have hdropped : holds Var.dropped.token t = 0 := RefCount.holds_none t
  rw [drop, (release_quiet _ _).count]
  omega

theorem count_copyAssign {s : St} {dst : Nat} {old v : Var}
    (hdst : s.heap.vars[dst]? = some old) (hptr : old.samePtr v = true) (t : Token) :
    (copyAssign s dst old v).count t = s.count t := by
  rcases samePtr_token hptr with ⟨hold, hv⟩
  rw [← (retain_quiet s v.ref).vars] at hdst
  rw [copyAssign, (release_quiet _ _).count, count_setVar_none hdst hold hv,
    (retain_quiet s v.ref).count]

/-- What each statement does to the owners of the handles. -/
theorem step_balance {s s' : St} {a : Act} (hstep : step s a = some s') (t : Token) :
    s'.count t + holds (lost s a) t = s.count t + holds (obtains s a) t := by
  cases step_cases hstep with
  | build => exact balance_addVar rfl _
  | createWorker => exact balance_addVar ((retain_quiet s _).count t) _
  | createEndpoint => exact balance_addVar ((retain_quiet s _).count t) _
  | getAddress => exact balance_addVar ((retain_quiet (s.setUcx _) _).count t) _
  | mapMem => exact balance_addVar ((retain_quiet (s.setUcx _) _).count t) _
  | packRkey =>
    have hset : (s.setUcx _).count t = s.count t := rfl
    exact balance_addVar hset _
  | unpackRkey => exact balance_addVar ((retain_quiet (s.setUcx _) _).count t) _
  | contextPtr => exact balance_addVar ((retain_quiet s _).count t) _
  | workerPtr => exact balance_addVar ((retain_quiet s _).count t) _
  | endpointPtr => exact balance_addVar ((retain_quiet s _).count t) _
  | @copy src v _ hptr =>
    have hcopy := balance_addVar ((retain_quiet s v.ref).count t) v
    rwa [(samePtr_token hptr).1] at hcopy
  | move hi => exact congrArg (· + 0) (count_moveConstruct hi t)
  | copyAssign hdst _ hptr => exact congrArg (· + 0) (count_copyAssign hdst hptr t)
  | moveAssignAddress hdst hsrc => exact count_moveAssignAddress hdst hsrc t
  | @moveAssignPtr dst src old _ hdst hsrc hptr =>
    have hlost : lost s (.moveAssign dst src) = none := by
      rw [lost, hdst]
      cases old with
      | localAddress => cases hptr
      | contextPtr | workerPtr | endpointPtr | localMemoryHandle | packedMemoryRkey
      | remoteMemoryHandle | dropped => rfl
    rw [hlost]
    exact congrArg (· + 0) (count_moveAssignPtr hdst hsrc hptr t)
  | drop hi => exact congrArg (· + 0) (count_drop hi t)

/-- What UCX has given out, when it gives out nothing. -/
theorem gave_same {s s' : St} {t : Token} (h : s'.Gave t ↔ s.Gave t) :
    s'.Gave t ↔ s.Gave t ∨ none = some t := by
  rw [h]
  exact (or_iff_left nofun).symm

theorem Quiet.gave {s s' : St} (h : Quiet s s') (t : Token) : s'.Gave t ↔ s.Gave t := by
  rw [St.Gave, St.Gave, h.ucx]

theorem lt_length_concat {l : List Nat} {i x : Nat} :
    i < (l ++ [x]).length ↔ i < l.length ∨ l.length = i := by
  rw [List.length_append, List.length_singleton]
  omega

theorem step_gave {s s' : St} {a : Act} (hstep : step s a = some s') (t : Token) :
    s'.Gave t ↔ s.Gave t ∨ obtains s a = some t := by
  cases step_cases hstep with
  | build => exact gave_same Iff.rfl
  | createWorker => exact gave_same ((retain_quiet s _).gave t)
  | createEndpoint => exact gave_same ((retain_quiet s _).gave t)
  | getAddress =>
    refine ((retain_quiet (s.setUcx _) _).gave t).trans ?_
    cases t with
    | address a =>
      simp only [St.Gave, St.setUcx, Ucx.Gave, obtains, lt_length_concat, Option.some.injEq,
        Token.address.injEq]
    | mem | buffer | rkey => simp [St.Gave, St.setUcx, Ucx.Gave, obtains]
  | mapMem =>
    refine ((retain_quiet (s.setUcx _) _).gave t).trans ?_
    cases t with
    | mem a =>
      simp only [St.Gave, St.setUcx, Ucx.Gave, obtains, lt_length_concat, Option.some.injEq,
        Token.mem.injEq]
    | address | buffer | rkey => simp [St.Gave, St.setUcx, Ucx.Gave, obtains]
  | packRkey =>
    cases t with
    | buffer a =>
      simp only [St.Gave, packRkey, St.addVar, St.setUcx, Ucx.Gave, obtains, lt_length_concat,
        Option.some.injEq, Token.buffer.injEq]
    | address | mem | rkey => simp [St.Gave, packRkey, St.addVar, St.setUcx, Ucx.Gave, obtains]
  | unpackRkey =>
    refine ((retain_quiet (s.setUcx _) _).gave t).trans ?_
    cases t with
    | rkey a =>
      simp only [St.Gave, St.setUcx, Ucx.Gave, obtains, lt_length_concat, Option.some.injEq,
        Token.rkey.injEq]
    | address | mem | buffer => simp [St.Gave, St.setUcx, Ucx.Gave, obtains]
  | contextPtr => exact gave_same ((retain_quiet s _).gave t)
  | workerPtr => exact gave_same ((retain_quiet s _).gave t)
  | endpointPtr => exact gave_same ((retain_quiet s _).gave t)
  | copy => exact gave_same ((retain_quiet s _).gave t)
  | move => exact gave_same Iff.rfl
  | copyAssign =>
    exact gave_same (((release_quiet _ _).gave t).trans ((retain_quiet s _).gave t))
  | moveAssignAddress =>
    exact gave_same (s := s) ((release_quiet ((s.modifyVar _ _).modifyVar _ _) _).gave t)
  | moveAssignPtr => exact gave_same (s := s) ((release_quiet ((s.setVar _ _).setVar _ _) _).gave t)
  | @drop i v =>
    refine gave_same (((release_quiet _ _).gave t).trans ?_)
    simp only [St.Gave, St.setVar, destructorBody_heap]

theorem obtains_fresh {s : St} {a : Act} {t : Token} (h : obtains s a = some t) : ¬s.Gave t := by
  cases a with
  | getAddress | mapMem | packRkey | unpackRkey =>
    obtain rfl := Option.some.inj h
    exact Nat.lt_irrefl _
  | build | createWorker | createEndpoint | contextPtr | workerPtr | endpointPtr | copy | move
  | copyAssign | moveAssign | drop => exact nomatch h

/-- The books of the handles that objects own. -/
theorem ledger : Ledger step St.count St.Gave obtains lost where
  balance := step_balance
  given := step_gave
  fresh := fun _ _ h => obtains_fresh h

theorem init_tidy : Ledger.Tidy St.count St.Gave .init where
  le_one := fun _ => Nat.zero_le 1
  not_given := fun _ _ => rfl

theorem init_kept (t : Token) : Ledger.Kept St.count St.Gave t .init := by
  intro h
  cases t <;> exact nomatch h

end Ucxpp.Ownership
