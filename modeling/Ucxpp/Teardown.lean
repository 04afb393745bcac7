import Ucxpp.OwnershipInv

/-!
# Teardown — every handle is given back before its parent

The new objects of the statements that create keep `Inv`, and so do the
statements that copy, move, assign and drop: each takes a pointer from one
holder and gives it to another, or releases it. `Paired` is what the variables
add: an address, a memory handle and a remote key are held together with the
pointer to their parent, also in objects that have been moved or assigned.
`teardown` reads the order of all calls off the invariant.
-/

namespace Ucxpp.Ownership

open RefCount (Cell held heldBy)
open Trace (getElem?_concat)

/-! ## New objects -/

/-- What has been destroyed stays so when objects are added. -/
theorem Inv.dead_of_grows {s : St} {p : Option Ref} (h : Inv s p) {heap : Heap}
    (hgrows : ∀ r, s.heap.Made r → heap.Made r ∧ heap.uses r = s.heap.uses r) :
    ∀ x ∈ s.log, ∀ r, x.call.destroys = some r → heap.Made r ∧ heap.uses r = 0 := by
  intro x hx r hr
  rcases h.dead x hx r hr with ⟨hmade, hzero⟩
  rcases hgrows r hmade with ⟨hmade', huses⟩
  exact ⟨hmade', huses.trans hzero⟩

/-- The cells that are there, in a longer table. -/
theorem table_grows {α : Type} (t : List (Cell α)) (obj : α) {i : Nat} (h : i < t.length) :
    i < (t ++ [makeShared obj]).length ∧
      RefCount.uses (t ++ [makeShared obj]) i = RefCount.uses t i := by
  refine ⟨?_, RefCount.uses_append_of_ne _ _ (Nat.ne_of_lt h)⟩
  rw [List.length_append]
  exact Nat.lt_of_lt_of_le h (Nat.le_add_right ..)

theorem build_inv {s : St} (h : Inv s none) : Inv (build s) none := by
  refine addVar_inv (v := .contextPtr (some s.heap.contexts.length)) ⟨?_, h.worker, h.endpoint,
    h.workers_length, h.eps_length, h.dead_of_grows ?_, h.calls⟩
  · -- the use of the new context is the pointer that is returned
    refine h.owed.create (fun r => ?_) fun r => rfl
    cases r with
    | context c => exact RefCount.uses_concat (fun _ _ => Ref.context.inj) _ _ c
    | worker | endpoint => rfl
  · intro r hmade
    cases r with
    | context c => exact table_grows _ _ hmade
    | worker | endpoint => exact ⟨hmade, rfl⟩

/-- The new worker takes the pointer to its context. -/
theorem addWorker_inv {s : St} {c : Nat} (h : Inv s (some (.context c))) :
    Inv (s.addWorker c) (some (.worker s.heap.workers.length)) where
  owed := by
    refine h.owed.create (fun r => ?_) fun r => ?_
    · cases r with
      | worker w => exact RefCount.uses_concat (fun _ _ => Ref.worker.inj) _ _ w
      | context | endpoint => rfl
    · have happend : heldBy Worker.ref (s.heap.workers ++ [makeShared { ctx := some c }]) r =
          heldBy Worker.ref s.heap.workers r + RefCount.holds (some (.context c)) r :=
        RefCount.held_append _ _ r
      simp only [Heap.holders, St.addWorker]
      omega
  worker := by
    intro w cell hcell huses
    rcases getElem?_concat.mp hcell with hcell | ⟨rfl, rfl⟩
    · rcases h.worker w cell hcell huses with ⟨c', hctx, hucx⟩
      exact ⟨c', hctx, getElem?_concat.mpr (.inl hucx)⟩
    · exact ⟨c, rfl, getElem?_concat.mpr (.inr ⟨h.workers_length.symm, rfl⟩)⟩
  endpoint := h.endpoint
  workers_length := by
    simp only [St.addWorker, List.length_append, h.workers_length, List.length_singleton]
  eps_length := h.eps_length
  dead := by
    refine h.dead_of_grows fun r hmade => ?_
    cases r with
    | worker w => exact table_grows _ _ hmade
    | context | endpoint => exact ⟨hmade, rfl⟩
  calls := h.calls

/-- The new endpoint takes the pointer to its worker. -/
theorem addEndpoint_inv {s : St} {w : Nat} (h : Inv s (some (.worker w))) (closeRequest : Bool) :
    Inv (s.addEndpoint w closeRequest) (some (.endpoint s.heap.endpoints.length)) where
  owed := by
    refine h.owed.create (fun r => ?_) fun r => ?_
    · cases r with
      | endpoint e => exact RefCount.uses_concat (fun _ _ => Ref.endpoint.inj) _ _ e
      | context | worker => rfl
    · have happend : heldBy Endpoint.ref (s.heap.endpoints ++
          [makeShared { worker := some w, ep := true, closeRequest := closeRequest }]) r =
          heldBy Endpoint.ref s.heap.endpoints r + RefCount.holds (some (.worker w)) r :=
        RefCount.held_append _ _ r
      simp only [Heap.holders, St.addEndpoint]
      omega
  worker := h.worker
  endpoint := by
    intro e cell hcell huses
    rcases getElem?_concat.mp hcell with hcell | ⟨rfl, rfl⟩
    · rcases h.endpoint e cell hcell huses with ⟨w', hworker, hucx⟩
      exact ⟨w', hworker, getElem?_concat.mpr (.inl hucx)⟩
    · exact ⟨w, rfl, getElem?_concat.mpr (.inr ⟨h.eps_length.symm, rfl⟩)⟩
  workers_length := h.workers_length
  eps_length := by
    simp only [St.addEndpoint, List.length_append, h.eps_length, List.length_singleton]
  dead := by
    refine h.dead_of_grows fun r hmade => ?_
    cases r with
    | endpoint e => exact table_grows _ _ hmade
    | context | worker => exact ⟨hmade, rfl⟩
  calls := h.calls

/-! ## Handles and their parents -/

/-- A handle is held together with the pointer to the parent that it was made
from. -/
def Var.Paired (ucx : Ucx) : Var → Prop
  | .localAddress worker address =>
    ∀ a, address = some a → ∃ w, worker = some w ∧ ucx.addresses[a]? = some w
  | .localMemoryHandle ctx mem => ∀ m, mem = some m → ∃ c, ctx = some c ∧ ucx.mems[m]? = some c
  | .remoteMemoryHandle endpoint _ rkey =>
    ∀ r, rkey = some r → ∃ e, endpoint = some e ∧ ucx.rkeys[r]? = some e
  | .contextPtr _ | .workerPtr _ | .endpointPtr _ | .packedMemoryRkey _ | .dropped => True

/-- UCX has given out more. -/
structure Ucx.Grows (ucx ucx' : Ucx) : Prop where
  addresses : ∀ i x : Nat, ucx.addresses[i]? = some x → ucx'.addresses[i]? = some x
  mems : ∀ i x : Nat, ucx.mems[i]? = some x → ucx'.mems[i]? = some x
  rkeys : ∀ i x : Nat, ucx.rkeys[i]? = some x → ucx'.rkeys[i]? = some x

theorem Ucx.Grows.same {ucx ucx' : Ucx} (haddresses : ucx'.addresses = ucx.addresses)
    (hmems : ucx'.mems = ucx.mems) (hrkeys : ucx'.rkeys = ucx.rkeys) : ucx.Grows ucx' where
  addresses := fun _ _ h => haddresses ▸ h
  mems := fun _ _ h => hmems ▸ h
  rkeys := fun _ _ h => hrkeys ▸ h

theorem Var.Paired.grows {ucx ucx' : Ucx} {v : Var} (h : v.Paired ucx) (hucx : ucx.Grows ucx') :
    v.Paired ucx' := by
  cases v with
  | localAddress worker address =>
    intro a ha
    rcases h a ha with ⟨w, hworker, hw⟩
    exact ⟨w, hworker, hucx.addresses a w hw⟩
  | localMemoryHandle ctx mem =>
    intro m hm
    rcases h m hm with ⟨c, hctx, hc⟩
    exact ⟨c, hctx, hucx.mems m c hc⟩
  | remoteMemoryHandle endpoint ep rkey =>
    intro r hr
    rcases h r hr with ⟨e, hendpoint, he⟩
    exact ⟨e, hendpoint, hucx.rkeys r e he⟩
  | contextPtr | workerPtr | endpointPtr | packedMemoryRkey | dropped => trivial

theorem movedFrom_ref (v : Var) : v.movedFrom.ref = none := by
  cases v <;> rfl

theorem movedFrom_paired (ucx : Ucx) (v : Var) : v.movedFrom.Paired ucx := by
  cases v with
  | localAddress | localMemoryHandle | remoteMemoryHandle => exact fun _ h => nomatch h
  | contextPtr | workerPtr | endpointPtr | packedMemoryRkey | dropped => trivial

/-- The destructors change neither the other variables nor what UCX has given
out. -/
def SameVars (s s' : St) : Prop :=
  s'.heap.vars = s.heap.vars ∧ s'.heap.ucx = s.heap.ucx

theorem SameVars.trans {s s' s'' : St} (h : SameVars s s') (h' : SameVars s' s'') :
    SameVars s s'' :=
  ⟨h'.1.trans h.1, h'.2.trans h.2⟩

theorem setUses_sameVars (s : St) (r : Ref) (n : Nat) : SameVars s (s.setUses r n) :=
  ⟨setUses_vars .., setUses_ucx ..⟩

theorem retain_sameVars (s : St) (p : Option Ref) : SameVars s (s.retain p) := by
  cases p with
  | none => exact ⟨rfl, rfl⟩
  | some r => exact setUses_sameVars ..

theorem releaseContext_sameVars (s : St) (c : Nat) : SameVars s (releaseContext s c) := by
  have hunuse : SameVars s (s.unuse (.context c)) := setUses_sameVars ..
  simp only [releaseContext]
  split
  · exact hunuse.trans ⟨rfl, rfl⟩
  · exact hunuse

theorem releaseWorker_sameVars (s : St) (w : Nat) : SameVars s (releaseWorker s w) := by
  have hunuse : SameVars s (s.unuse (.worker w)) := setUses_sameVars ..
  simp only [releaseWorker]
  split
  · refine hunuse.trans ?_
    unfold destroyWorker
    split
    · rename_i cell hcell
      cases cell.obj.ctx with
      | none => exact ⟨rfl, rfl⟩
      | some c => exact releaseContext_sameVars ..
    · exact ⟨rfl, rfl⟩
  · exact hunuse

theorem releaseEndpoint_sameVars (s : St) (e : Nat) : SameVars s (releaseEndpoint s e) := by
  have hunuse : SameVars s (s.unuse (.endpoint e)) := setUses_sameVars ..
  simp only [releaseEndpoint]
  split
  · refine hunuse.trans ?_
    unfold destroyEndpoint
    split
    · rename_i cell hcell
      dsimp only
      split
      · cases cell.obj.worker with
        | none => exact ⟨rfl, rfl⟩
        | some w => exact releaseWorker_sameVars ..
      · cases cell.obj.worker with
        | none => exact ⟨rfl, rfl⟩
        | some w => exact releaseWorker_sameVars ..
    · exact ⟨rfl, rfl⟩
  · exact hunuse

theorem release_sameVars (s : St) (p : Option Ref) : SameVars s (release s p) := by
  match p with
  | none => exact ⟨rfl, rfl⟩
  | some (.context c) => exact releaseContext_sameVars s c
  | some (.worker w) => exact releaseWorker_sameVars s w
  | some (.endpoint e) => exact releaseEndpoint_sameVars s e

theorem destructorBody_heap (s : St) (v : Var) : (destructorBody s v).heap = s.heap := by
  cases v with
  | localAddress worker address => cases address <;> rfl
  | localMemoryHandle ctx mem => cases mem <;> rfl
  | packedMemoryRkey buffer => cases buffer <;> rfl
  | remoteMemoryHandle endpoint ep rkey => cases rkey <;> rfl
  | contextPtr | workerPtr | endpointPtr | dropped => rfl

/-- Every variable holds its handle together with the parent. -/
def St.Paired (s : St) : Prop :=
  ∀ v ∈ s.heap.vars, v.Paired s.heap.ucx

theorem SameVars.paired {s s' : St} (h : SameVars s s') (hs : s.Paired) : s'.Paired := by
  rcases h with ⟨hvars, hucx⟩
  intro v hv
  rw [hvars] at hv
  rw [hucx]
  exact hs v hv

theorem setVar_paired {s : St} (hs : s.Paired) {v : Var} (hv : v.Paired s.heap.ucx) (i : Nat) :
    (s.setVar i v).Paired := by
  intro v' hv'
  rcases List.mem_or_eq_of_mem_set hv' with hmem | rfl
  · exact hs v' hmem
  · exact hv

theorem addVar_paired {s : St} (hs : s.Paired) {v : Var} (hv : v.Paired s.heap.ucx) :
    (s.addVar v).Paired := by
  intro v' hv'
  rcases List.mem_append.mp hv' with hmem | hnew
  · exact hs v' hmem
  · exact List.mem_singleton.mp hnew ▸ hv

theorem setUcx_paired {s : St} (hs : s.Paired) {ucx : Ucx} (hucx : s.heap.ucx.Grows ucx) :
    (s.setUcx ucx).Paired :=
  fun v hv => (hs v hv).grows hucx

theorem retain_paired {s : St} (hs : s.Paired) (p : Option Ref) : (s.retain p).Paired :=
  (retain_sameVars s p).paired hs

theorem release_paired {s : St} (hs : s.Paired) (p : Option Ref) : (release s p).Paired :=
  (release_sameVars s p).paired hs

/-! ## The statements -/

/-- Between two statements. -/
structure Good (s : St) : Prop where
  inv : Inv s none
  paired : s.Paired

theorem init_good : Good .init where
  inv := init_inv
  paired := fun _ h => nomatch h

theorem Good.paired_at {s : St} (h : Good s) {i : Nat} {v : Var}
    (hi : s.heap.vars[i]? = some v) : v.Paired s.heap.ucx :=
  h.paired v (List.mem_of_getElem? hi)

/-- A variable is a holder of what it points to. -/
theorem holders_pos {s : St} {i : Nat} {v : Var} (hi : s.heap.vars[i]? = some v) {r : Ref}
    (hr : v.ref = some r) : 0 < s.heap.holders r := by
  have hheld : 0 < held Var.ref s.heap.vars r := RefCount.held_pos hi hr
  rw [Heap.holders]
  omega

/-- A pointer is copied into a new variable. -/
theorem copy_good {s : St} (h : Good s) {v : Var} (hv : v.Paired s.heap.ucx)
    (hholders : ∀ r, v.ref = some r → 0 < s.heap.holders r) : Good (copy s v) where
  inv := addVar_inv (retain_inv h.inv hholders)
  paired := by
    refine addVar_paired (retain_paired h.paired v.ref) ?_
    rw [(retain_sameVars s v.ref).2]
    exact hv

theorem moveConstruct_good {s : St} (h : Good s) {src : Nat} {v : Var}
    (hsrc : s.heap.vars[src]? = some v) : Good (moveConstruct s src v) where
  inv := by
    have hempty : Inv s v.movedFrom.ref := by
      rw [movedFrom_ref]
      exact h.inv
    exact addVar_inv (setVar_inv hsrc hempty)
  paired := addVar_paired (setVar_paired h.paired (movedFrom_paired _ v) src) (h.paired_at hsrc)

theorem copyAssign_good {s : St} (h : Good s) {dst src : Nat} {old v : Var}
    (hdst : s.heap.vars[dst]? = some old) (hsrc : s.heap.vars[src]? = some v) :
    Good (copyAssign s dst old v) where
  inv := by
    have hretain : Inv (s.retain v.ref) v.ref :=
      retain_inv h.inv fun r hr => holders_pos hsrc hr
    have hdst' : (s.retain v.ref).heap.vars[dst]? = some old := by
      rw [(retain_sameVars s v.ref).1]
      exact hdst
    exact release_inv (setVar_inv hdst' hretain)
  paired := by
    refine release_paired (setVar_paired (retain_paired h.paired v.ref) ?_ dst) old.ref
    rw [(retain_sameVars s v.ref).2]
    exact h.paired_at hsrc

/-- The pointer of `src`, which may be `dst` itself, goes into `dst`, and the
pointer that `dst` has then is released. -/
theorem moveAssignPtr_good {s : St} (h : Good s) {dst src : Nat} {old v : Var}
    (hdst : s.heap.vars[dst]? = some old) (hsrc : s.heap.vars[src]? = some v) :
    Good (moveAssignPtr s dst src v) where
  inv := by
    have hempty : Inv s v.movedFrom.ref := by
      rw [movedFrom_ref]
      exact h.inv
    have hmoved := setVar_inv hsrc hempty
    have hlt : dst < (s.setVar src v.movedFrom).heap.vars.length := by
      simp only [St.setVar, List.length_set]
      exact (List.getElem?_eq_some_iff.mp hdst).1
    have hold := List.getElem?_eq_getElem hlt
    have hassigned := release_inv (setVar_inv hold hmoved)
    simp only [moveAssignPtr, hold, Option.bind_some]
    exact hassigned
  paired := release_paired (setVar_paired (setVar_paired h.paired (movedFrom_paired _ v) src)
    (h.paired_at hsrc) dst) _

theorem modifyVar_eq {s : St} {i : Nat} {v : Var} (h : s.heap.vars[i]? = some v) (f : Var → Var) :
    s.modifyVar i f = s.setVar i (f v) := by
  rw [St.modifyVar, RefCount.modify_eq_set h, St.setVar]

theorem withAddress_ref (address : Option Nat) (v : Var) : (v.withAddress address).ref = v.ref := by
  cases v <;> rfl

/-- What is in a variable behind `local_address::operator=`. -/
theorem moveAssignAddress_vars {s : St} {dst src : Nat}
    {worker address worker' address' : Option Nat}
    (hdst : s.heap.vars[dst]? = some (.localAddress worker' address'))
    (hsrc : s.heap.vars[src]? = some (.localAddress worker address)) {i : Nat} {v : Var}
    (hi : (moveAssignAddress s dst src worker address).heap.vars[i]? = some v) :
    v = .localAddress worker address ∨ v = .localAddress none none ∨
      s.heap.vars[i]? = some v := by
  simp only [moveAssignAddress, St.modifyVar, (release_sameVars _ _).1, List.getElem?_modify] at hi
  by_cases hd : dst = i
  · subst hd
    rw [hdst] at hi
    by_cases hs : src = dst
    · simp only [hs, if_true, Option.map_eq_map, Option.map_some, Option.some.injEq] at hi
      exact .inl hi.symm
    · simp only [hs, if_true, if_false, Option.map_eq_map, Option.map_some, Option.some.injEq] at hi
      exact .inl hi.symm
  · by_cases hs : src = i
    · subst hs
      rw [hsrc] at hi
      simp only [hd, if_true, if_false, Option.map_eq_map, Option.map_some, Option.some.injEq] at hi
      exact .inr (.inl hi.symm)
    · simp only [hd, hs, if_false, Option.map_eq_map, Option.map_id_fun', id_eq] at hi
      exact .inr (.inr hi)

theorem moveAssignAddress_good {s : St} (h : Good s) {dst src : Nat}
    {worker address worker' address' : Option Nat}
    (hdst : s.heap.vars[dst]? = some (.localAddress worker' address'))
    (hsrc : s.heap.vars[src]? = some (.localAddress worker address)) :
    Good (moveAssignAddress s dst src worker address) where
  inv := by
    -- `other.worker_` is taken
    have hmoved : Inv (s.modifyVar src (Var.withWorker none)) (worker.map .worker) := by
      rw [modifyVar_eq hsrc]
      exact setVar_inv (v := .localAddress none address) hsrc h.inv
    -- what `worker_` is then: null, when an object is assigned to itself
    obtain ⟨w, a, hold⟩ : ∃ w a, (s.modifyVar src (Var.withWorker none)).heap.vars[dst]? =
        some (.localAddress w a) := by
      simp only [St.modifyVar, List.getElem?_modify, hdst]
      by_cases hs : src = dst
      · exact ⟨none, address', congrArg some (if_pos hs)⟩
      · exact ⟨worker', address', congrArg some (if_neg hs)⟩
    have hassigned : Inv ((s.modifyVar src (Var.withWorker none)).modifyVar dst
        (Var.withWorker worker)) (w.map .worker) := by
      rw [modifyVar_eq hold]
      exact setVar_inv (v := .localAddress worker a) hold hmoved
    have hreleased := release_inv hassigned
    simp only [moveAssignAddress, hold, Option.bind_some]
    exact modifyVar_inv (modifyVar_inv hreleased (withAddress_ref none) src)
      (withAddress_ref address) dst
  paired := by
    intro v hv
    rcases List.mem_iff_getElem?.mp hv with ⟨i, hi⟩
    have hucx : (moveAssignAddress s dst src worker address).heap.ucx = s.heap.ucx := by
      simp only [moveAssignAddress, St.modifyVar, (release_sameVars _ _).2]
    rw [hucx]
    rcases moveAssignAddress_vars hdst hsrc hi with rfl | rfl | hi
    · exact h.paired_at hsrc
    · exact movedFrom_paired s.heap.ucx (.localAddress none none)
    · exact h.paired_at hi

/-- The body of a destructor finds the parent alive. -/
theorem destructorBody_inv {s : St} (h : Good s) {i : Nat} {v : Var}
    (hi : s.heap.vars[i]? = some v) : Inv (destructorBody s v) none := by
  have hpaired := h.paired_at hi
  cases v with
  | localAddress worker address =>
    cases address with
    | none => exact h.inv
    | some a =>
      rcases hpaired a rfl with ⟨w, rfl, hw⟩
      exact call_inv h.inv ⟨w, rfl, hw, h.inv.alive (holders_pos hi rfl)⟩ nofun
  | localMemoryHandle ctx mem =>
    cases mem with
    | none => exact h.inv
    | some m =>
      rcases hpaired m rfl with ⟨c, rfl, hc⟩
      exact call_inv h.inv ⟨c, rfl, hc, h.inv.alive (holders_pos hi rfl)⟩ nofun
  | packedMemoryRkey buffer =>
    cases buffer with
    | none => exact h.inv
    | some b => exact call_inv h.inv trivial nofun
  | remoteMemoryHandle endpoint ep rkey =>
    cases rkey with
    | none => exact h.inv
    | some r =>
      rcases hpaired r rfl with ⟨e, rfl, he⟩
      exact call_inv h.inv ⟨e, he, h.inv.alive (holders_pos hi rfl)⟩ nofun
  | contextPtr | workerPtr | endpointPtr | dropped => exact h.inv

theorem drop_good {s : St} (h : Good s) {i : Nat} {v : Var} (hi : s.heap.vars[i]? = some v) :
    Good (drop s i v) where
  inv := by
    have hbody := destructorBody_inv h hi
    rw [← destructorBody_heap s v] at hi
    exact release_inv (setVar_inv (v := .dropped) hi hbody)
  paired := by
    have hpaired : (destructorBody s v).Paired := by
      rw [St.Paired, destructorBody_heap]
      exact h.paired
    exact release_paired (setVar_paired (v := .dropped) hpaired trivial i) v.ref

theorem build_good {s : St} (h : Good s) : Good (build s) where
  inv := build_inv h.inv
  paired := by
    intro v hv
    rcases List.mem_append.mp hv with hmem | hnew
    · exact h.paired v hmem
    · exact List.mem_singleton.mp hnew ▸ trivial

theorem createWorker_good {s : St} (h : Good s) {i c : Nat}
    (hi : s.heap.vars[i]? = some (.contextPtr (some c))) : Good (createWorker s c) where
  inv := by
    have hretain : Inv (s.retain (some (.context c))) (some (.context c)) :=
      retain_inv h.inv fun r hr => holders_pos hi hr
    exact addVar_inv (v := .workerPtr (some s.heap.workers.length)) (addWorker_inv hretain)
  paired := addVar_paired (s := (s.retain _).addWorker c)
    (fun v hv => (retain_paired h.paired _ v hv).grows (.same rfl rfl rfl)) trivial

theorem createEndpoint_good {s : St} (h : Good s) {i w : Nat}
    (hi : s.heap.vars[i]? = some (.workerPtr (some w))) (closeRequest : Bool) :
    Good (createEndpoint s w closeRequest) where
  inv := by
    have hretain : Inv (s.retain (some (.worker w))) (some (.worker w)) :=
      retain_inv h.inv fun r hr => holders_pos hi hr
    exact addVar_inv (v := .endpointPtr (some s.heap.endpoints.length))
      (addEndpoint_inv hretain closeRequest)
  paired := addVar_paired (s := (s.retain _).addEndpoint w closeRequest)
    (fun v hv => (retain_paired h.paired _ v hv).grows (.same rfl rfl rfl)) trivial

/-- UCX gives out a handle that is made from the object `r` of a variable. -/
theorem newHandle_good {s : St} (h : Good s) {i : Nat} {v x : Var} {r : Ref} {ucx : Ucx}
    (hi : s.heap.vars[i]? = some v) (hr : v.ref = some r)
    (hworkers : ucx.workers = s.heap.ucx.workers) (heps : ucx.eps = s.heap.ucx.eps)
    (hucx : s.heap.ucx.Grows ucx) (href : x.ref = some r) (hx : x.Paired ucx) :
    Good (((s.setUcx ucx).retain (some r)).addVar x) where
  inv := by
    have hset : Inv (s.setUcx ucx) none := setUcx_inv h.inv hworkers heps
    have hretain : Inv ((s.setUcx ucx).retain (some r)) x.ref := by
      rw [href]
      refine retain_inv hset fun r' hr' => ?_
      obtain rfl : r = r' := Option.some.inj hr'
      exact holders_pos (s := s.setUcx ucx) hi hr
    exact addVar_inv hretain
  paired := by
    refine addVar_paired (retain_paired (setUcx_paired h.paired hucx) _) ?_
    rw [(retain_sameVars _ _).2]
    exact hx

theorem grows_concat {l : List Nat} {i x y : Nat} (h : l[i]? = some x) :
    (l ++ [y])[i]? = some x :=
  getElem?_concat.mpr (.inl h)

theorem getAddress_good {s : St} (h : Good s) {i w : Nat}
    (hi : s.heap.vars[i]? = some (.workerPtr (some w))) : Good (getAddress s w) := by
  refine newHandle_good h hi rfl rfl rfl ⟨fun _ _ => grows_concat, fun _ _ => id, fun _ _ => id⟩
    rfl ?_
  intro a ha
  obtain rfl := Option.some.inj ha
  exact ⟨w, rfl, List.getElem?_concat_length⟩

theorem mapMem_good {s : St} (h : Good s) {i c : Nat}
    (hi : s.heap.vars[i]? = some (.contextPtr (some c))) : Good (mapMem s c) := by
  refine newHandle_good h hi rfl rfl rfl ⟨fun _ _ => id, fun _ _ => grows_concat, fun _ _ => id⟩
    rfl ?_
  intro m hm
  obtain rfl := Option.some.inj hm
  exact ⟨c, rfl, List.getElem?_concat_length⟩

theorem unpackRkey_good {s : St} (h : Good s) {i e : Nat}
    (hi : s.heap.vars[i]? = some (.endpointPtr (some e))) : Good (unpackRkey s e) := by
  refine newHandle_good h hi rfl rfl rfl ⟨fun _ _ => id, fun _ _ => id, fun _ _ => grows_concat⟩
    rfl ?_
  intro r hr
  obtain rfl := Option.some.inj hr
  exact ⟨e, rfl, List.getElem?_concat_length⟩

theorem packRkey_good {s : St} (h : Good s) (m : Nat) : Good (packRkey s m) where
  inv := addVar_inv (v := .packedMemoryRkey _) (setUcx_inv h.inv rfl rfl)
  paired := addVar_paired (setUcx_paired h.paired (.same rfl rfl rfl)) trivial

/-- Every statement keeps the invariant. -/
theorem step_good {s s' : St} {a : Act} (h : Good s) (hstep : step s a = some s') : Good s' := by
  cases step_cases hstep with
  | build => exact build_good h
  | createWorker hi => exact createWorker_good h hi
  | createEndpoint hi => exact createEndpoint_good h hi _
  | getAddress hi => exact getAddress_good h hi
  | mapMem hi => exact mapMem_good h hi
  | packRkey => exact packRkey_good h _
  | unpackRkey hi => exact unpackRkey_good h hi
  | contextPtr hcell =>
    refine copy_good h trivial fun r hr => ?_
    have hheld : 0 < heldBy Worker.ref s.heap.workers r := RefCount.held_pos hcell hr
    rw [Heap.holders]
    omega
  | workerPtr hcell =>
    refine copy_good h trivial fun r hr => ?_
    have hheld : 0 < heldBy Endpoint.ref s.heap.endpoints r := RefCount.held_pos hcell hr
    rw [Heap.holders]
    omega
  | endpointPtr hi => exact copy_good h trivial fun r hr => holders_pos hi hr
  | copy hi => exact copy_good h (h.paired_at hi) fun r hr => holders_pos hi hr
  | move hi => exact moveConstruct_good h hi
  | copyAssign hdst hsrc => exact copyAssign_good h hdst hsrc
  | moveAssignAddress hdst hsrc => exact moveAssignAddress_good h hdst hsrc
  | moveAssignPtr hdst hsrc => exact moveAssignPtr_good h hdst hsrc
  | drop hi => exact drop_good h hi

theorem run_good {acts : List Act} {s s' : St} (h : Good s)
    (hrun : Lts.run step s acts = some s') : Good s' :=
  Lts.run_invariant Good (fun _ _ _ hs _ hstep => step_good hs hstep) h
    (Lts.stepsMeet_true _ _) hrun

/-! ## The order of the calls -/

/-- Whatever the user creates, copies, moves, assigns and drops, in whatever
order: each context and each worker is destroyed at most once, when no wrapper
and no pointer of the user refers to it any more, and each handle is given back
while the object that it was made from is alive. -/
theorem teardown {acts : List Act} {s : St} (hrun : Lts.run step .init acts = some s) :
    Trace.Each CallOk s.log :=
  (run_good init_good hrun).inv.calls

/-- One of everything, an address that moves between two workers, and the
variables dropped from the context on. -/
def teardownActs : List Act :=
  [.build, .createWorker 0, .createEndpoint 1 false, .getAddress 1, .mapMem 0, .packRkey 4,
    .unpackRkey 2, .createWorker 0, .getAddress 7, .moveAssign 3 8, .drop 8, .copy 1, .drop 0,
    .drop 1, .drop 2, .moveAssign 9 7, .drop 9, .drop 4, .drop 5, .drop 6, .drop 3]

theorem teardown_all : ∃ s, Lts.run step .init teardownActs = some s ∧
    s.log.map (·.call) =
      [.memUnmap (some 0) 0, .rkeyBufferRelease 0, .rkeyDestroy 0, .epCloseNbx 0,
        .workerDestroy 0, .workerReleaseAddress (some 1) 1, .workerDestroy 1, .cleanup 0] ∧
    Trace.Each CallOk s.log := by
  have hrun : ∃ s, Lts.run step .init teardownActs = some s ∧
      s.log.map (·.call) =
        [.memUnmap (some 0) 0, .rkeyBufferRelease 0, .rkeyDestroy 0, .epCloseNbx 0,
          .workerDestroy 0, .workerReleaseAddress (some 1) 1, .workerDestroy 1, .cleanup 0] :=
    ⟨_, rfl, rfl⟩
  rcases hrun with ⟨s, hs, hcalls⟩
  exact ⟨s, hs, hcalls, teardown hs⟩

end Ucxpp.Ownership
