import Ucxpp.Conservation

/-!
# Released — every handle is given back once, with its parent

What the variables owned has been given back when they are gone: memory handles
and keys whatever the user does (`memory_handles_released`), addresses exactly
if no move assignment overwrites one (`addresses_released_iff`), in programs
with acceptors and connectors too. A handle is given back together with the
object that it was made from (`LogPaired`).
-/

namespace Ucxpp.Ownership

open RefCount (held)

/-! ## With its parent -/

/-- The call that gives a handle back, with the object that it was made from. -/
def Ucx.releaseCall (ucx : Ucx) : Token → Call
  | .address a => .workerReleaseAddress ucx.addresses[a]? a
  | .mem m => .memUnmap ucx.mems[m]? m
  | .buffer b => .rkeyBufferRelease b
  | .rkey r => .rkeyDestroy r

/-- A call names the object that the handle was made from. -/
def Call.Paired (ucx : Ucx) : Call → Prop
  | .workerReleaseAddress worker address => ∃ w, worker = some w ∧ ucx.addresses[address]? = some w
  | .memUnmap ctx mem => ∃ c, ctx = some c ∧ ucx.mems[mem]? = some c
  | .cleanup _ | .workerDestroy _ | .epCloseNbx _ | .rkeyBufferRelease _ | .rkeyDestroy _ => True

def St.LogPaired (s : St) : Prop :=
  ∀ x ∈ s.log, x.call.Paired s.heap.ucx

theorem Call.Paired.grows {ucx ucx' : Ucx} {c : Call} (h : c.Paired ucx) (hucx : ucx.Grows ucx') :
    c.Paired ucx' := by
  cases c with
  | workerReleaseAddress worker address =>
    rcases h with ⟨w, hworker, hw⟩
    exact ⟨w, hworker, hucx.addresses _ _ hw⟩
  | memUnmap ctx mem =>
    rcases h with ⟨c, hctx, hc⟩
    exact ⟨c, hctx, hucx.mems _ _ hc⟩
  | cleanup | workerDestroy | epCloseNbx | rkeyBufferRelease | rkeyDestroy => trivial

theorem Call.Paired.of_token {ucx : Ucx} {c : Call} (h : c.token = none) : c.Paired ucx := by
  cases c with
  | workerReleaseAddress | memUnmap => exact nomatch h
  | cleanup | workerDestroy | epCloseNbx | rkeyBufferRelease | rkeyDestroy => trivial

theorem Call.Paired.eq_releaseCall {ucx : Ucx} {c : Call} {t : Token} (h : c.Paired ucx)
    (ht : c.token = some t) : c = ucx.releaseCall t := by
  cases c with
  | workerReleaseAddress worker address =>
    rcases h with ⟨w, rfl, hw⟩
    obtain rfl := Option.some.inj ht
    rw [Ucx.releaseCall, hw]
  | memUnmap ctx mem =>
    rcases h with ⟨c, rfl, hc⟩
    obtain rfl := Option.some.inj ht
    rw [Ucx.releaseCall, hc]
  | rkeyBufferRelease | rkeyDestroy =>
    obtain rfl := Option.some.inj ht
    rfl
  | cleanup | workerDestroy | epCloseNbx => exact nomatch ht

theorem Quiet.logPaired {s s' : St} (h : Quiet s s') (hs : s.LogPaired) : s'.LogPaired := by
  rcases h.log with ⟨es, hes, hnone⟩
  intro x hx
  rw [hes] at hx
  rw [h.ucx]
  rcases List.mem_append.mp hx with hx | hx
  · exact hs x hx
  · exact .of_token (hnone x hx)

theorem setUcx_logPaired {s : St} (hs : s.LogPaired) {ucx : Ucx} (hucx : s.heap.ucx.Grows ucx) :
    (s.setUcx ucx).LogPaired :=
  fun x hx => (hs x hx).grows hucx

/-- A destructor names the parent that the variable holds. -/
theorem destructorBody_logPaired {s : St} (hs : s.LogPaired) {v : Var}
    (hv : v.Paired s.heap.ucx) : (destructorBody s v).LogPaired := by
  have hcall : ∀ c : Call, c.Paired s.heap.ucx → (s.call c).LogPaired := by
    intro c hc x hx
    rcases List.mem_append.mp hx with hx | hx
    · exact hs x hx
    · exact List.mem_singleton.mp hx ▸ hc
  cases v with
  | localAddress worker address =>
    cases address with
    | none => exact hs
    | some a => exact hcall _ (hv a rfl)
  | localMemoryHandle ctx mem =>
    cases mem with
    | none => exact hs
    | some m => exact hcall _ (hv m rfl)
  | packedMemoryRkey buffer =>
    cases buffer with
    | none => exact hs
    | some b => exact hcall _ trivial
  | remoteMemoryHandle endpoint ep rkey =>
    cases rkey with
    | none => exact hs
    | some r => exact hcall _ trivial
  | contextPtr | workerPtr | endpointPtr | dropped => exact hs

theorem step_logPaired {s s' : St} {a : Act} (hg : Good s) (hs : s.LogPaired)
    (hstep : step s a = some s') : s'.LogPaired := by
  cases step_cases hstep with
  | build => exact hs
  | createWorker =>
    exact fun x hx => ((retain_quiet s _).logPaired hs x hx).grows (.same rfl rfl rfl)
  | createEndpoint =>
    exact fun x hx => ((retain_quiet s _).logPaired hs x hx).grows (.same rfl rfl rfl)
  | getAddress =>
    exact (retain_quiet (s.setUcx _) _).logPaired (setUcx_logPaired hs
      ⟨fun _ _ => grows_concat, fun _ _ => id, fun _ _ => id⟩)
  | mapMem =>
    exact (retain_quiet (s.setUcx _) _).logPaired (setUcx_logPaired hs
      ⟨fun _ _ => id, fun _ _ => grows_concat, fun _ _ => id⟩)
  | packRkey => exact setUcx_logPaired hs (.same rfl rfl rfl)
  | unpackRkey =>
    exact (retain_quiet (s.setUcx _) _).logPaired (setUcx_logPaired hs
      ⟨fun _ _ => id, fun _ _ => id, fun _ _ => grows_concat⟩)
  | contextPtr => exact (retain_quiet s _).logPaired hs
  | workerPtr => exact (retain_quiet s _).logPaired hs
  | endpointPtr => exact (retain_quiet s _).logPaired hs
  | copy => exact (retain_quiet s _).logPaired hs
  | move => exact hs
  | copyAssign =>
    exact (release_quiet ((s.retain _).setVar _ _) _).logPaired ((retain_quiet s _).logPaired hs)
  | moveAssignAddress =>
    exact (release_quiet ((s.modifyVar _ _).modifyVar _ _) _).logPaired hs
  | moveAssignPtr => exact (release_quiet ((s.setVar _ _).setVar _ _) _).logPaired hs
  | @drop i v hi =>
    exact (release_quiet ((destructorBody s v).setVar i _) _).logPaired
      (destructorBody_logPaired hs (hg.paired_at hi))

theorem run_logPaired {acts : List Act} {s : St} (hrun : Lts.run step .init acts = some s) :
    s.LogPaired := by
  have hinv : Good s ∧ s.LogPaired :=
    Lts.run_invariant (fun s => Good s ∧ s.LogPaired)
      (fun _ _ _ hs _ hstep => ⟨step_good hs.1 hstep, step_logPaired hs.1 hs.2 hstep⟩)
      ⟨init_good, fun _ h => nomatch h⟩ (Lts.stepsMeet_true _ _) hrun
  exact hinv.2

/-! ## Exactly once -/

/-- The handle has been given back by one call, which names its parent. -/
def St.GivenBackOnce (s : St) (t : Token) : Prop :=
  s.released t = [s.heap.ucx.releaseCall t]

instance (s : St) (t : Token) : Decidable (s.GivenBackOnce t) :=
  inferInstanceAs (Decidable (_ = _))

theorem length_released (s : St) (t : Token) :
    (s.released t).length = held Entry.token s.log t := by
  rw [St.released, List.length_map]
  exact RefCount.length_filter_eq_held s.log t

theorem mem_released {s : St} (hs : s.LogPaired) {t : Token} {c : Call} (h : c ∈ s.released t) :
    c = s.heap.ucx.releaseCall t := by
  rcases List.mem_map.mp h with ⟨x, hx, rfl⟩
  rcases List.mem_filter.mp hx with ⟨hmem, htoken⟩
  exact (hs x hmem).eq_releaseCall (of_decide_eq_true htoken)

/-- When no variable owns the handle, the calls account for it. -/
theorem givenBackOnce_iff {s : St} (hs : s.LogPaired) {t : Token}
    (hgone : ∀ v ∈ s.heap.vars, v.token ≠ some t) : s.GivenBackOnce t ↔ s.count t = 1 := by
  have hcount : s.count t = (s.released t).length := by
    rw [St.count, RefCount.held_eq_zero.mpr hgone, Nat.zero_add, length_released]
  rw [hcount, List.length_eq_one_iff]
  constructor
  · intro h
    exact ⟨_, h⟩
  · rintro ⟨c, hc⟩
    have heq := mem_released hs (t := t) (hc ▸ List.mem_singleton_self c)
    rw [St.GivenBackOnce, hc, heq]

/-- A handle that no variable owns at the end of a run has been given back exactly
once iff no statement of the run has lost it. -/
theorem run_givenBackOnce_iff {acts : List Act} {s : St}
    (hrun : Lts.run step .init acts = some s) {t : Token} (hgave : s.Gave t)
    (hgone : ∀ v ∈ s.heap.vars, v.token ≠ some t) :
    s.GivenBackOnce t ↔ Lts.StepsMeet step (fun s a => lost s a ≠ some t) .init acts := by
  rw [givenBackOnce_iff (run_logPaired hrun) hgone,
    ← ledger.run_kept_iff init_tidy (init_kept t) hrun]
  exact ⟨fun h _ => h, fun h => h hgave⟩

/-! ## Memory handles and keys -/

/-- A `local_memory_handle`, `packed_memory_rkey` or `remote_memory_handle`. -/
def Var.isMemory : Var → Bool
  | .localMemoryHandle .. | .packedMemoryRkey _ | .remoteMemoryHandle .. => true
  | .contextPtr _ | .workerPtr _ | .endpointPtr _ | .localAddress .. | .dropped => false

def Token.isMemory : Token → Bool
  | .mem _ | .buffer _ | .rkey _ => true
  | .address _ => false

theorem token_ne_of_not_isMemory {v : Var} (hv : v.isMemory = false) {t : Token}
    (ht : t.isMemory = true) : v.token ≠ some t := by
  intro heq
  cases v with
  | localAddress worker address =>
    rcases Option.map_eq_some_iff.mp heq with ⟨a, -, rfl⟩
    cases ht
  | localMemoryHandle | packedMemoryRkey | remoteMemoryHandle => cases hv
  | contextPtr | workerPtr | endpointPtr | dropped => cases heq

/-- What a statement loses is an address. -/
theorem lost_eq {s : St} {a : Act} {t : Token} (h : lost s a = some t) :
    ∃ x, t = .address x := by
  unfold lost at h
  split at h
  · split at h
    · split at h
      · cases h
      · rcases Option.map_eq_some_iff.mp h with ⟨x, -, rfl⟩
        exact ⟨x, rfl⟩
    · cases h
  · cases h

/-- A memory handle or key that has been moved from. -/
def Var.isEmptied (v : Var) : Prop :=
  v.isMemory = true ∧ v.movedFrom = v

theorem movedFrom_isEmptied {v : Var} (h : v.isMemory = true) : v.movedFrom.isEmptied := by
  cases v with
  | localMemoryHandle | packedMemoryRkey | remoteMemoryHandle => exact ⟨rfl, rfl⟩
  | contextPtr | workerPtr | endpointPtr | localAddress | dropped => cases h

/-- The classes that have an assignment. -/
def Var.assignable : Var → Bool
  | .contextPtr _ | .workerPtr _ | .endpointPtr _ | .localAddress .. => true
  | .localMemoryHandle .. | .packedMemoryRkey _ | .remoteMemoryHandle .. | .dropped => false

theorem samePtr_assignable {old v : Var} (h : old.samePtr v = true) :
    old.assignable = true ∧ v.assignable = true := by
  cases old <;> cases v <;> first | exact ⟨rfl, rfl⟩ | cases h

/-- Variable `i` is the emptied `v`, or it has gone. -/
def EmptiedAt (i : Nat) (v : Var) (vars : List Var) : Prop :=
  vars[i]? = some v ∨ vars[i]? = some .dropped

theorem EmptiedAt.append {i : Nat} {v : Var} {vars : List Var} (h : EmptiedAt i v vars) (x : Var) :
    EmptiedAt i v (vars ++ [x]) := by
  rcases h with h | h
  · exact .inl (Trace.getElem?_concat.mpr (.inl h))
  · exact .inr (Trace.getElem?_concat.mpr (.inl h))

theorem EmptiedAt.of_eq {i : Nat} {v : Var} {vars vars' : List Var} (h : EmptiedAt i v vars)
    (heq : vars'[i]? = vars[i]?) : EmptiedAt i v vars' := by
  rwa [EmptiedAt, heq]

theorem EmptiedAt.not_assignable {i : Nat} {v old : Var} {vars : List Var}
    (h : EmptiedAt i v vars) (hv : v.isEmptied) (hi : vars[i]? = some old) :
    old.assignable = false := by
  rcases h with h | h
  · obtain rfl := Option.some.inj (hi.symm.trans h)
    cases old with
    | localMemoryHandle | packedMemoryRkey | remoteMemoryHandle => rfl
    | contextPtr | workerPtr | endpointPtr | localAddress | dropped => exact nomatch hv.1
  · obtain rfl := Option.some.inj (hi.symm.trans h)
    rfl

/-- Assignments are to other variables. -/
theorem EmptiedAt.ne_of_assignable {i j : Nat} {v old : Var} {vars : List Var}
    (h : EmptiedAt i v vars) (hv : v.isEmptied) (hj : vars[j]? = some old)
    (hold : old.assignable = true) : j ≠ i := by
  rintro rfl
  rw [h.not_assignable hv hj] at hold
  cases hold

theorem EmptiedAt.retain {s : St} {i : Nat} {v : Var} (h : EmptiedAt i v s.heap.vars)
    (r : Option Ref) (w : Var) : EmptiedAt i v ((s.retain r).heap.vars ++ [w]) := by
  refine EmptiedAt.append ?_ w
  rw [(retain_quiet s r).vars]
  exact h

/-- A second move leaves the variable empty. -/
theorem EmptiedAt.move {s : St} {i src : Nat} {v x : Var} (h : EmptiedAt i v s.heap.vars)
    (hv : v.isEmptied) (hsrc : s.heap.vars[src]? = some x) :
    EmptiedAt i v (s.setVar src x.movedFrom).heap.vars := by
  by_cases hi : src = i
  · subst hi
    have hlt := (List.getElem?_eq_some_iff.mp hsrc).1
    rw [EmptiedAt, St.setVar, List.getElem?_set_self hlt]
    rcases h with h | h
    · obtain rfl := Option.some.inj (hsrc.symm.trans h)
      exact .inl (congrArg some hv.2)
    · obtain rfl := Option.some.inj (hsrc.symm.trans h)
      exact .inr rfl
  · exact h.of_eq (List.getElem?_set_ne hi)

/-- A variable that has been moved from stays empty until it goes: these classes
have no assignment. -/
theorem step_emptied {s s' : St} {a : Act} {i : Nat} {v : Var} (hv : v.isEmptied)
    (h : EmptiedAt i v s.heap.vars) (hstep : step s a = some s') :
    EmptiedAt i v s'.heap.vars := by
  cases step_cases hstep with
  | build => exact h.append _
  | createWorker => exact h.retain _ _
  | createEndpoint => exact h.retain _ _
  | getAddress | mapMem | unpackRkey =>
    apply EmptiedAt.retain
    exact h
  | packRkey => exact h.append _
  | contextPtr | workerPtr | endpointPtr | copy => exact h.retain _ _
  | move hsrc => exact (h.move hv hsrc).append _
  | @copyAssign dst src old x hdst hsrc hptr =>
    have hne := h.ne_of_assignable hv hdst (samePtr_assignable hptr).1
    refine h.of_eq ?_
    rw [copyAssign, (release_quiet _ _).vars, St.setVar, List.getElem?_set_ne hne,
      (retain_quiet s _).vars]
  | @moveAssignAddress dst src worker address worker' address' hdst hsrc =>
    have hd := h.ne_of_assignable hv hdst rfl
    have hs := h.ne_of_assignable hv hsrc rfl
    refine h.of_eq ?_
    simp only [moveAssignAddress, St.modifyVar, (release_quiet _ _).vars,
      List.getElem?_modify_ne _ _ hd, List.getElem?_modify_ne _ _ hs]
  | @moveAssignPtr dst src old x hdst hsrc hptr =>
    have hd := h.ne_of_assignable hv hdst (samePtr_assignable hptr).1
    have hs := h.ne_of_assignable hv hsrc (samePtr_assignable hptr).2
    refine h.of_eq ?_
    rw [moveAssignPtr, (release_quiet _ _).vars, St.setVar, List.getElem?_set_ne hd, St.setVar,
      List.getElem?_set_ne hs]
  | @drop j x hj =>
    rw [Ownership.drop, (release_quiet _ _).vars, St.setVar, destructorBody_heap]
    by_cases hi : j = i
    · subst hi
      exact .inr (List.getElem?_set_self (List.getElem?_eq_some_iff.mp hj).1)
    · exact h.of_eq (List.getElem?_set_ne hi)

/-- The destructor of an object that has been moved from calls nothing. -/
theorem drop_emptied (s : St) (i : Nat) {v : Var} (hv : v.isEmptied) :
    (drop s i v).log = s.log := by
  rw [← hv.2]
  cases v <;> rfl

/-- However the objects travel: when they have gone, each memory mapping, packed
key buffer and remote key has been given back exactly once, a mapping with the
context that it was made in, and no object that was moved from has given
anything back. -/
theorem memory_handles_released {acts : List Act} {s : St}
    (hrun : Lts.run step .init acts = some s) (hgone : ∀ v ∈ s.heap.vars, v.isMemory = false) :
    (∀ t : Token, t.isMemory = true → s.Gave t → s.GivenBackOnce t) ∧
      ∀ (mid : List Act) (src : Nat) (s₁ s₂ s₃ : St) (v : Var),
        s₁.heap.vars[src]? = some v → v.isMemory = true →
        Lts.run step s₁ (.move src :: mid) = some s₂ → step s₂ (.drop src) = some s₃ →
        s₃.log = s₂.log := by
  constructor
  · intro t ht hgave
    refine (run_givenBackOnce_iff hrun hgave fun v hv => ?_).mpr ?_
    · exact token_ne_of_not_isMemory (hgone v hv) ht
    · refine (Lts.stepsMeet_true _ _).mono fun s a _ hlost => ?_
      rcases lost_eq hlost with ⟨x, rfl⟩
      cases ht
  · intro mid src s₁ s₂ s₃ v hsrc hv hmid hdrop
    -- the variable is empty right after the move, and stays so up to its end
    rcases Lts.run_cons_some hmid with ⟨s', hmove, hmid⟩
    have hempty := movedFrom_isEmptied hv
    have hat : EmptiedAt src v.movedFrom s'.heap.vars := by
      cases step_cases hmove with
      | @move _ x hsrc' =>
        obtain rfl := Option.some.inj (hsrc.symm.trans hsrc')
        refine EmptiedAt.append (.inl ?_) _
        exact List.getElem?_set_self (List.getElem?_eq_some_iff.mp hsrc).1
    have hat' : EmptiedAt src v.movedFrom s₂.heap.vars :=
      Lts.run_invariant (fun s => EmptiedAt src v.movedFrom s.heap.vars)
        (fun _ _ _ h _ hstep => step_emptied hempty h hstep) hat (Lts.stepsMeet_true _ _) hmid
    cases step_cases hdrop with
    | drop hi =>
      rcases hat' with hat' | hat'
      · obtain rfl := Option.some.inj (hi.symm.trans hat')
        exact drop_emptied s₂ src hempty
      · obtain rfl := Option.some.inj (hi.symm.trans hat')
        rfl

/-- A mapping, a packed key and a remote key, moved and then dropped, the objects
that were moved from first. -/
def memoryActs : List Act :=
  [.build, .createWorker 0, .createEndpoint 1 false, .mapMem 0, .packRkey 3, .unpackRkey 2,
    .move 3, .move 4, .move 5, .move 6, .drop 3, .drop 4, .drop 5, .drop 6, .drop 0, .drop 1,
    .drop 2, .drop 9, .drop 8, .drop 7]

theorem memory_handles_released_moved : ∃ s, Lts.run step .init memoryActs = some s ∧
    s.GivenBackOnce (.mem 0) ∧ s.GivenBackOnce (.buffer 0) ∧ s.GivenBackOnce (.rkey 0) := by
  have hrun : ∃ s, Lts.run step .init memoryActs = some s ∧
      (∀ v ∈ s.heap.vars, v.isMemory = false) ∧ s.heap.ucx.mems.length = 1 ∧
        s.heap.ucx.buffers.length = 1 ∧ s.heap.ucx.rkeys.length = 1 :=
    ⟨_, rfl, by decide, rfl, rfl, rfl⟩
  rcases hrun with ⟨s, hs, hgone, hmems, hbuffers, hrkeys⟩
  have hreleased := (memory_handles_released hs hgone).1
  refine ⟨s, hs, hreleased _ rfl ?_, hreleased _ rfl ?_, hreleased _ rfl ?_⟩
  · exact Nat.lt_of_lt_of_eq Nat.zero_lt_one hmems.symm
  · exact Nat.lt_of_lt_of_eq Nat.zero_lt_one hbuffers.symm
  · exact Nat.lt_of_lt_of_eq Nat.zero_lt_one hrkeys.symm

/-! ## Addresses -/

def Var.isLocalAddress : Var → Bool
  | .localAddress .. => true
  | .contextPtr _ | .workerPtr _ | .endpointPtr _ | .localMemoryHandle .. | .packedMemoryRkey _
  | .remoteMemoryHandle .. | .dropped => false

theorem token_ne_of_not_isLocalAddress {v : Var} (hv : v.isLocalAddress = false) (a : Nat) :
    v.token ≠ some (.address a) := by
  intro heq
  cases v with
  | localAddress => cases hv
  | localMemoryHandle | packedMemoryRkey | remoteMemoryHandle =>
    rcases Option.map_eq_some_iff.mp heq with ⟨x, -, hx⟩
    cases hx
  | contextPtr | workerPtr | endpointPtr | dropped => cases heq

/-- An acceptor or a connector: the variables that are its members `worker_` and
`address_`. -/
structure Holder where
  worker : Nat
  address : Nat
deriving DecidableEq, Repr

/-- A statement of a user who has acceptors and connectors. -/
inductive Stmt where
  | act (a : Act)
  | construct (worker : Nat)
  | move (src : Holder)
  | moveAssign (dst src : Holder)
  | drop (holder : Holder)
deriving DecidableEq, Repr

/-- What a statement does to the members, in their order. -/
def Stmt.acts : Stmt → List Act
  | .act a => [a]
  -- worker_(worker), address_(worker->get_address())
  | .construct worker => [.copy worker, .getAddress worker]
  | .move src => [.move src.worker, .move src.address]
  | .moveAssign dst src => [.moveAssign dst.worker src.worker, .moveAssign dst.address src.address]
  | .drop holder => [.drop holder.address, .drop holder.worker]

def stmtStep : St → Stmt → Option St :=
  Lts.macroStep step Stmt.acts

/-- No move assignment is to a `local_address`, other than its source, that still
holds an address. -/
def NoOverwrite (s : St) (stmt : Stmt) : Prop :=
  Lts.StepsMeet step (fun s a => lost s a = none) s stmt.acts

instance (s : St) (stmt : Stmt) : Decidable (NoOverwrite s stmt) :=
  inferInstanceAs (Decidable (Lts.StepsMeet ..))

/-- When all addresses are gone, each has been given back exactly once and with
its worker, iff none has been overwritten. -/
theorem addresses_released_iff {stmts : List Stmt} {s : St}
    (hrun : Lts.run stmtStep .init stmts = some s)
    (hgone : ∀ v ∈ s.heap.vars, v.isLocalAddress = false) :
    (∀ a, s.Gave (.address a) → s.GivenBackOnce (.address a)) ↔
      Lts.StepsMeet stmtStep NoOverwrite .init stmts := by
  have hacts : Lts.run step .init (stmts.flatMap Stmt.acts) = some s := by
    rw [← Lts.run_macroStep]
    exact hrun
  have hkept : ∀ a, (s.Gave (.address a) → s.GivenBackOnce (.address a)) ↔
      Lts.StepsMeet step (fun s act => lost s act ≠ some (.address a)) .init
        (stmts.flatMap Stmt.acts) := by
    intro a
    rw [← ledger.run_kept_iff init_tidy (init_kept _) hacts,
      givenBackOnce_iff (run_logPaired hacts) fun v hv =>
        token_ne_of_not_isLocalAddress (hgone v hv) a]
    exact Iff.rfl
  have hlost : ∀ (s : St) (act : Act),
      (∀ a, lost s act ≠ some (.address a)) ↔ lost s act = none := by
    intro s act
    refine ⟨fun h => ?_, fun h a => h ▸ nofun⟩
    rw [Option.eq_none_iff_forall_ne_some]
    intro t ht
    rcases lost_eq ht with ⟨a, rfl⟩
    exact h a ht
  calc (∀ a, s.Gave (.address a) → s.GivenBackOnce (.address a))
      ↔ ∀ a, Lts.StepsMeet step (fun s act => lost s act ≠ some (.address a)) .init
          (stmts.flatMap Stmt.acts) := forall_congr' hkept
    _ ↔ Lts.StepsMeet step (fun s act => ∀ a, lost s act ≠ some (.address a)) .init
          (stmts.flatMap Stmt.acts) := Lts.stepsMeet_forall.symm
    _ ↔ Lts.StepsMeet step (fun s act => lost s act = none) .init (stmts.flatMap Stmt.acts) :=
        ⟨Lts.StepsMeet.mono fun s act => (hlost s act).mp,
          Lts.StepsMeet.mono fun s act => (hlost s act).mpr⟩
    _ ↔ Lts.StepsMeet stmtStep NoOverwrite .init stmts := Lts.stepsMeet_macroStep.symm

/-- An address that moves through an acceptor, and an assignment to the acceptor
that was moved from. -/
def acceptorStmts : List Stmt :=
  [.act .build, .act (.createWorker 0), .construct 1, .construct 1, .move ⟨2, 3⟩,
    .moveAssign ⟨2, 3⟩ ⟨4, 5⟩, .drop ⟨2, 3⟩, .drop ⟨4, 5⟩, .drop ⟨6, 7⟩]

theorem addresses_released_iff_acceptor : ∃ s, Lts.run stmtStep .init acceptorStmts = some s ∧
    ((∀ a, s.Gave (.address a) → s.GivenBackOnce (.address a)) ↔
      Lts.StepsMeet stmtStep NoOverwrite .init acceptorStmts) ∧
    Lts.StepsMeet stmtStep NoOverwrite .init acceptorStmts := by
  have hrun : ∃ s, Lts.run stmtStep .init acceptorStmts = some s ∧
      ∀ v ∈ s.heap.vars, v.isLocalAddress = false := ⟨_, rfl, by decide⟩
  rcases hrun with ⟨s, hs, hgone⟩
  exact ⟨s, hs, addresses_released_iff hs hgone, by decide⟩

/-- One address assigned onto another: the first is never given back. -/
theorem overwritten_address_leaks : ∃ s,
    Lts.run stmtStep .init [.act .build, .act (.createWorker 0), .act (.getAddress 1),
      .act (.getAddress 1), .act (.moveAssign 2 3), .act (.drop 3), .act (.drop 2), .act (.drop 1),
      .act (.drop 0)] = some s ∧
    (∀ v ∈ s.heap.vars, v = .dropped) ∧ s.Gave (.address 0) ∧ s.released (.address 0) = [] ∧
      ¬∀ a, s.Gave (.address a) → s.GivenBackOnce (.address a) := by
  refine ⟨_, rfl, by decide, by decide, by decide, fun h => ?_⟩
  exact absurd (h 0 (by decide)) (by decide)

end Ucxpp.Ownership
