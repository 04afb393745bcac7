import Ucxpp.Lib.Trace
import Ucxpp.Ownership

/-!
# OwnershipInv — the use counts, the parents and the calls

`CallOk` is what a call that gives a handle back must find: nothing refers to
the object of a context or a worker, and the parent is still there. `Inv` is
the invariant that implies it for the next call: the use counts are the
pointers (`Owed`, with the pointer that is being released, if any), an object
that is used has its parent's pointer, and what has been destroyed has no use.
It is kept by each way in which the heap changes, and so by the destructors
(`releaseContext_inv`, `releaseWorker_inv`, `releaseEndpoint_inv`).
-/

namespace Ucxpp.Ownership

open RefCount (Cell Owed setUses setObj held heldBy)

/-! ## What a call must find -/

/-- The object whose own handle a call gives back. -/
def Call.destroys : Call → Option Ref
  | .cleanup c => some (.context c)
  | .workerDestroy w => some (.worker w)
  | .epCloseNbx e => some (.endpoint e)
  | .workerReleaseAddress .. | .memUnmap .. | .rkeyBufferRelease _ | .rkeyDestroy _ => none

/-- No shared pointer refers to the object: neither a variable's nor a
wrapper's. -/
def Heap.Unreferenced (h : Heap) (r : Ref) : Prop :=
  (∀ v ∈ h.vars, v.ref ≠ some r) ∧ (∀ cell ∈ h.workers, cell.obj.ref ≠ some r) ∧
    ∀ cell ∈ h.endpoints, cell.obj.ref ≠ some r

/-- The object is used, and its handle has not been given back. -/
def Alive (before : List Entry) (h : Heap) (r : Ref) : Prop :=
  h.uses r ≠ 0 ∧ ∀ y ∈ before, y.call.destroys ≠ some r

/-- What holds of a call, after the calls `before`: a context and a worker are
destroyed once, when nothing refers to them, and the parent from which the
handle was made is alive. -/
def CallOk (before : List Entry) (x : Entry) : Prop :=
  match x.call with
  | .cleanup c => x.heap.Unreferenced (.context c) ∧ ∀ y ∈ before, y.call ≠ .cleanup c
  | .workerDestroy w =>
    x.heap.Unreferenced (.worker w) ∧ (∀ y ∈ before, y.call ≠ .workerDestroy w) ∧
      ∃ c, x.heap.ucx.workers[w]? = some c ∧ Alive before x.heap (.context c)
  | .epCloseNbx e =>
    (∀ y ∈ before, y.call ≠ .epCloseNbx e) ∧
      ∃ w, x.heap.ucx.eps[e]? = some w ∧ Alive before x.heap (.worker w)
  | .workerReleaseAddress worker address =>
    ∃ w, worker = some w ∧ x.heap.ucx.addresses[address]? = some w ∧
      Alive before x.heap (.worker w)
  | .memUnmap ctx mem =>
    ∃ c, ctx = some c ∧ x.heap.ucx.mems[mem]? = some c ∧ Alive before x.heap (.context c)
  | .rkeyBufferRelease _ => True
  | .rkeyDestroy rkey => ∃ e, x.heap.ucx.rkeys[rkey]? = some e ∧ Alive before x.heap (.endpoint e)

/-! ## The heap -/

theorem unreferenced_iff {h : Heap} {r : Ref} : h.Unreferenced r ↔ h.holders r = 0 := by
  rw [Heap.holders, Nat.add_eq_zero_iff, Nat.add_eq_zero_iff, and_assoc, heldBy, heldBy,
    RefCount.held_eq_zero, RefCount.held_eq_zero, RefCount.held_eq_zero]
  rfl

/-- The cell of the object is there. -/
def Heap.Made (h : Heap) : Ref → Prop
  | .context c => c < h.contexts.length
  | .worker w => w < h.workers.length
  | .endpoint e => e < h.endpoints.length

theorem uses_setUses_self {h : Heap} {r : Ref} (hr : h.uses r ≠ 0) (n : Nat) :
    (h.setUses r n).uses r = n := by
  cases r with
  | context | worker | endpoint =>
    rcases RefCount.exists_cell hr with ⟨cell, hcell⟩
    exact RefCount.uses_setUses_self hcell n

theorem uses_setUses_of_ne (h : Heap) {r r' : Ref} (hr : r' ≠ r) (n : Nat) :
    (h.setUses r n).uses r' = h.uses r' := by
  cases r with
  | context c =>
    cases r' with
    | context c' => exact RefCount.uses_setUses_of_ne _ (fun heq => hr (congrArg _ heq)) n
    | worker | endpoint => rfl
  | worker w =>
    cases r' with
    | worker w' => exact RefCount.uses_setUses_of_ne _ (fun heq => hr (congrArg _ heq)) n
    | context | endpoint => rfl
  | endpoint e =>
    cases r' with
    | endpoint e' => exact RefCount.uses_setUses_of_ne _ (fun heq => hr (congrArg _ heq)) n
    | context | worker => rfl

@[simp] theorem holders_setUses (h : Heap) (r : Ref) (n : Nat) (r' : Ref) :
    (h.setUses r n).holders r' = h.holders r' := by
  cases r with
  | context => rfl
  | worker | endpoint => simp only [Heap.setUses, Heap.holders, RefCount.heldBy_setUses]

@[simp] theorem setUses_vars (h : Heap) (r : Ref) (n : Nat) : (h.setUses r n).vars = h.vars := by
  cases r <;> rfl

@[simp] theorem setUses_ucx (h : Heap) (r : Ref) (n : Nat) : (h.setUses r n).ucx = h.ucx := by
  cases r <;> rfl

theorem made_setUses {h : Heap} {r r' : Ref} {n : Nat} :
    (h.setUses r n).Made r' ↔ h.Made r' := by
  cases r <;> cases r' <;> simp only [Heap.setUses, Heap.Made, RefCount.length_setUses]

/-! ## The invariant -/

/-- `p` is the pointer that is being released. -/
structure Inv (s : St) (p : Option Ref) : Prop where
  owed : Owed s.heap.uses s.heap.holders p
  worker : ∀ (w : Nat) (cell : Cell Worker), s.heap.workers[w]? = some cell → cell.uses ≠ 0 →
    ∃ c, cell.obj.ctx = some c ∧ s.heap.ucx.workers[w]? = some c
  endpoint : ∀ (e : Nat) (cell : Cell Endpoint), s.heap.endpoints[e]? = some cell →
    cell.uses ≠ 0 → ∃ w, cell.obj.worker = some w ∧ s.heap.ucx.eps[e]? = some w
  workers_length : s.heap.ucx.workers.length = s.heap.workers.length
  eps_length : s.heap.ucx.eps.length = s.heap.endpoints.length
  dead : ∀ x ∈ s.log, ∀ r, x.call.destroys = some r → s.heap.Made r ∧ s.heap.uses r = 0
  calls : Trace.Each CallOk s.log

theorem init_inv : Inv .init none where
  owed := fun r => by cases r <;> rfl
  worker := fun _ _ h => nomatch h
  endpoint := fun _ _ h => nomatch h
  workers_length := rfl
  eps_length := rfl
  dead := fun _ h => nomatch h
  calls := Trace.each_nil

theorem Inv.not_destroyed {s : St} {p : Option Ref} (h : Inv s p) {r : Ref}
    (hr : s.heap.uses r ≠ 0) : ∀ y ∈ s.log, y.call.destroys ≠ some r :=
  fun y hy heq => hr (h.dead y hy r heq).2

/-- Whatever is pointed to is alive. -/
theorem Inv.alive {s : St} {p : Option Ref} (h : Inv s p) {r : Ref} (hr : 0 < s.heap.holders r) :
    Alive s.log s.heap r := by
  have huses : s.heap.uses r ≠ 0 :=
    Nat.ne_of_gt (Nat.lt_of_lt_of_le hr (h.owed.holders_le r))
  exact ⟨huses, h.not_destroyed huses⟩

theorem call_inv {s : St} {p : Option Ref} (h : Inv s p) {c : Call}
    (hcall : CallOk s.log ⟨c, s.heap⟩)
    (hdead : ∀ r, c.destroys = some r → s.heap.Made r ∧ s.heap.uses r = 0) :
    Inv (s.call c) p where
  owed := h.owed
  worker := h.worker
  endpoint := h.endpoint
  workers_length := h.workers_length
  eps_length := h.eps_length
  dead := by
    intro x hx r hr
    rcases List.mem_append.mp hx with hx | hx
    · exact h.dead x hx r hr
    · obtain rfl := List.mem_singleton.mp hx
      exact hdead r hr
  calls := Trace.each_concat.mpr ⟨h.calls, hcall⟩

/-- The use count of an object changes that is used. -/
theorem setUses_inv {s : St} {p q : Option Ref} (h : Inv s p) {r : Ref} {n : Nat}
    (hr : s.heap.uses r ≠ 0) (howed : Owed (s.heap.setUses r n).uses s.heap.holders q) :
    Inv (s.setUses r n) q where
  owed := fun r' => by
    rw [St.setUses, holders_setUses]
    exact howed r'
  worker := by
    intro w cell hcell huses
    cases r with
    | worker w' =>
      rcases RefCount.of_getElem?_setUses hr hcell huses with ⟨old, hold, hne, hobj⟩
      rw [← hobj]
      exact h.worker w old hold hne
    | context | endpoint => exact h.worker w cell hcell huses
  endpoint := by
    intro e cell hcell huses
    cases r with
    | endpoint e' =>
      rcases RefCount.of_getElem?_setUses hr hcell huses with ⟨old, hold, hne, hobj⟩
      rw [← hobj]
      exact h.endpoint e old hold hne
    | context | worker => exact h.endpoint e cell hcell huses
  workers_length := by
    cases r with
    | worker => exact h.workers_length.trans (RefCount.length_setUses ..).symm
    | context | endpoint => exact h.workers_length
  eps_length := by
    cases r with
    | endpoint => exact h.eps_length.trans (RefCount.length_setUses ..).symm
    | context | worker => exact h.eps_length
  dead := by
    intro x hx r' hr'
    rcases h.dead x hx r' hr' with ⟨hmade, hzero⟩
    have hne : r' ≠ r := by
      rintro rfl
      exact hr hzero
    exact ⟨made_setUses.mpr hmade, (uses_setUses_of_ne _ hne n).trans hzero⟩
  calls := h.calls

/-- A shared pointer goes. -/
theorem unuse_inv {s : St} {r : Ref} (h : Inv s (some r)) : Inv (s.unuse r) none := by
  have hr : s.heap.uses r ≠ 0 := Nat.ne_of_gt h.owed.pos
  exact setUses_inv h hr
    (h.owed.release (uses_setUses_self hr _) fun r' hne => uses_setUses_of_ne _ hne _)

/-- A shared pointer is copied: the copy has no holder yet. -/
theorem retain_inv {s : St} {p : Option Ref} (h : Inv s none)
    (hp : ∀ r, p = some r → 0 < s.heap.holders r) : Inv (s.retain p) p := by
  cases p with
  | none => exact h
  | some r =>
    have hr : s.heap.uses r ≠ 0 := (h.alive (hp r rfl)).1
    exact setUses_inv h hr
      (h.owed.retain (uses_setUses_self hr _) fun r' hne => uses_setUses_of_ne _ hne _)

/-- The variables change: they have taken `p`, and given up `q`. -/
theorem vars_inv {s : St} {p q : Option Ref} (h : Inv s p) {vars : List Var}
    (hset : ∀ r, held Var.ref vars r + RefCount.holds q r =
      held Var.ref s.heap.vars r + RefCount.holds p r) :
    Inv { s with heap := { s.heap with vars := vars } } q where
  owed := by
    refine h.owed.trade fun r => ?_
    have hr := hset r
    simp only [Heap.holders]
    omega
  worker := h.worker
  endpoint := h.endpoint
  workers_length := h.workers_length
  eps_length := h.eps_length
  dead := h.dead
  calls := h.calls

/-- A pointer is put into a variable, and its old pointer taken out. -/
theorem setVar_inv {s : St} {i : Nat} {old v : Var} (hi : s.heap.vars[i]? = some old)
    (h : Inv s v.ref) : Inv (s.setVar i v) old.ref :=
  vars_inv h (RefCount.held_set hi v)

/-- A variable changes, but not its pointer. -/
theorem modifyVar_inv {s : St} {p : Option Ref} (h : Inv s p) {f : Var → Var}
    (hf : ∀ v, (f v).ref = v.ref) (i : Nat) : Inv (s.modifyVar i f) p :=
  vars_inv h fun r => by rw [RefCount.held_modify hf]

/-- A pointer finds its holder in a new variable. -/
theorem addVar_inv {s : St} {v : Var} (h : Inv s v.ref) : Inv (s.addVar v) none :=
  vars_inv h fun r => by rw [RefCount.held_append, RefCount.holds_none, Nat.add_zero]

/-- UCX gives out a handle that is no worker and no endpoint. -/
theorem setUcx_inv {s : St} {p : Option Ref} (h : Inv s p) {ucx : Ucx}
    (hworkers : ucx.workers = s.heap.ucx.workers) (heps : ucx.eps = s.heap.ucx.eps) :
    Inv (s.setUcx ucx) p where
  owed := h.owed
  worker := by
    intro w cell hcell huses
    rw [St.setUcx, hworkers]
    exact h.worker w cell hcell huses
  endpoint := by
    intro e cell hcell huses
    rw [St.setUcx, heps]
    exact h.endpoint e cell hcell huses
  workers_length := by
    rw [St.setUcx, hworkers]
    exact h.workers_length
  eps_length := by
    rw [St.setUcx, heps]
    exact h.eps_length
  dead := h.dead
  calls := h.calls

/-! ## The destructors -/

/-- The member `ctx_` of a worker that is not used any more is taken out. -/
theorem setWorker_inv {s : St} {w : Nat} {cell : Cell Worker} (h : Inv s none)
    (hcell : s.heap.workers[w]? = some cell) (huses : cell.uses = 0) :
    Inv (s.setWorker w { ctx := none }) cell.obj.ref where
  owed := by
    have hsame : (s.setWorker w { ctx := none }).heap.uses = s.heap.uses := by
      funext r
      cases r with
      | worker => exact RefCount.uses_setObj ..
      | context | endpoint => rfl
    rw [hsame]
    refine h.owed.trade fun r => ?_
    have hset : heldBy Worker.ref (setObj s.heap.workers w { ctx := none }) r +
        RefCount.holds cell.obj.ref r =
          heldBy Worker.ref s.heap.workers r + RefCount.holds none r :=
      RefCount.heldBy_setObj hcell _ r
    simp only [Heap.holders, St.setWorker]
    omega
  worker := by
    intro w' cell' hcell' huses'
    by_cases hw : w' = w
    · -- the worker itself has no use
      subst hw
      have hself := RefCount.getElem?_setObj_self hcell { ctx := none }
      have heq := Option.some.inj (hcell'.symm.trans hself)
      rw [heq] at huses'
      exact absurd huses huses'
    · exact h.worker w' cell' ((RefCount.getElem?_setObj_of_ne _ hw _).symm.trans hcell') huses'
  endpoint := h.endpoint
  workers_length := h.workers_length.trans (RefCount.length_setObj ..).symm
  eps_length := h.eps_length
  dead := by
    intro x hx r hr
    rcases h.dead x hx r hr with ⟨hmade, hzero⟩
    cases r with
    | worker =>
      exact ⟨Nat.lt_of_lt_of_eq hmade (RefCount.length_setObj ..).symm,
        (RefCount.uses_setObj ..).trans hzero⟩
    | context | endpoint => exact ⟨hmade, hzero⟩
  calls := h.calls

/-- The member `worker_` of an endpoint that is not used any more is taken out. -/
theorem setEndpoint_inv {s : St} {e : Nat} {cell : Cell Endpoint} (h : Inv s none)
    (hcell : s.heap.endpoints[e]? = some cell) (huses : cell.uses = 0) :
    Inv (s.setEndpoint e { cell.obj with worker := none }) cell.obj.ref where
  owed := by
    have hsame : (s.setEndpoint e { cell.obj with worker := none }).heap.uses = s.heap.uses := by
      funext r
      cases r with
      | endpoint => exact RefCount.uses_setObj ..
      | context | worker => rfl
    rw [hsame]
    refine h.owed.trade fun r => ?_
    have hset : heldBy Endpoint.ref
        (setObj s.heap.endpoints e { cell.obj with worker := none }) r +
        RefCount.holds cell.obj.ref r =
          heldBy Endpoint.ref s.heap.endpoints r + RefCount.holds none r :=
      RefCount.heldBy_setObj hcell _ r
    simp only [Heap.holders, St.setEndpoint] at hset ⊢
    omega
  worker := h.worker
  endpoint := by
    intro e' cell' hcell' huses'
    by_cases he : e' = e
    · -- the endpoint itself has no use
      subst he
      have hself := RefCount.getElem?_setObj_self hcell { cell.obj with worker := none }
      have heq := Option.some.inj (hcell'.symm.trans hself)
      rw [heq] at huses'
      exact absurd huses huses'
    · exact h.endpoint e' cell' ((RefCount.getElem?_setObj_of_ne _ he _).symm.trans hcell') huses'
  workers_length := h.workers_length
  eps_length := h.eps_length.trans (RefCount.length_setObj ..).symm
  dead := by
    intro x hx r hr
    rcases h.dead x hx r hr with ⟨hmade, hzero⟩
    cases r with
    | endpoint =>
      exact ⟨Nat.lt_of_lt_of_eq hmade (RefCount.length_setObj ..).symm,
        (RefCount.uses_setObj ..).trans hzero⟩
    | context | worker => exact ⟨hmade, hzero⟩
  calls := h.calls

theorem Inv.unreferenced {s : St} (h : Inv s none) {r : Ref} (hzero : s.heap.uses r = 0) :
    s.heap.Unreferenced r := by
  refine unreferenced_iff.mpr ?_
  have hle := h.owed.holders_le r
  omega

/-- `~shared_ptr<context>`. -/
theorem releaseContext_inv {s : St} {c : Nat} (h : Inv s (some (.context c))) :
    Inv (releaseContext s c) none := by
  have hr : s.heap.uses (.context c) ≠ 0 := Nat.ne_of_gt h.owed.pos
  have hmade : s.heap.Made (.context c) := by
    rcases RefCount.exists_cell hr with ⟨cell, hcell⟩
    exact (List.getElem?_eq_some_iff.mp hcell).1
  have hunused := unuse_inv h
  simp only [releaseContext]
  split
  · -- the last pointer: the context is destroyed
    rename_i hzero
    refine call_inv hunused ⟨hunused.unreferenced hzero, ?_⟩ ?_
    · intro y hy heq
      exact h.not_destroyed hr y hy (by rw [heq]; rfl)
    · intro r hdestroys
      obtain rfl : Ref.context c = r := Option.some.inj hdestroys
      exact ⟨made_setUses.mpr hmade, hzero⟩
  · exact hunused

theorem destroyWorker_inv {s : St} {w : Nat} {cell : Cell Worker} (h : Inv s none)
    (hcell : s.heap.workers[w]? = some cell) (huses : cell.uses = 0)
    (hparent : ∃ c, cell.obj.ctx = some c ∧ s.heap.ucx.workers[w]? = some c)
    (hnot : ∀ y ∈ s.log, y.call.destroys ≠ some (.worker w)) :
    Inv (destroyWorker s w) none := by
  rcases hparent with ⟨c, hctx, hucx⟩
  have hzero : s.heap.uses (.worker w) = 0 := (RefCount.uses_eq hcell).trans huses
  have hmade : s.heap.Made (.worker w) := (List.getElem?_eq_some_iff.mp hcell).1
  have hholders : 0 < s.heap.holders (.context c) := by
    have hheld : 0 < heldBy Worker.ref s.heap.workers (.context c) :=
      RefCount.held_pos hcell (congrArg (Option.map Ref.context) hctx)
    rw [Heap.holders]
    omega
  -- the body of the destructor, while `ctx_` still holds the context
  have hcall : Inv (s.call (.workerDestroy w)) none := by
    refine call_inv h ⟨h.unreferenced hzero, ?_, c, hucx, h.alive hholders⟩ ?_
    · intro y hy heq
      exact hnot y hy (by rw [heq]; rfl)
    · intro r hdestroys
      obtain rfl : Ref.worker w = r := Option.some.inj hdestroys
      exact ⟨hmade, hzero⟩
  -- and then the member
  have hset := setWorker_inv hcall hcell huses
  rw [Worker.ref, hctx] at hset
  simp only [destroyWorker, hcell, hctx, Option.elim_some]
  exact releaseContext_inv hset

/-- `~shared_ptr<worker>`. -/
theorem releaseWorker_inv {s : St} {w : Nat} (h : Inv s (some (.worker w))) :
    Inv (releaseWorker s w) none := by
  have hr : s.heap.uses (.worker w) ≠ 0 := Nat.ne_of_gt h.owed.pos
  rcases RefCount.exists_cell hr with ⟨cell, hcell⟩
  have hunused := unuse_inv h
  simp only [releaseWorker]
  split
  · rename_i hzero
    have hself : (s.unuse (.worker w)).heap.workers[w]? =
        some { cell with uses := s.heap.uses (.worker w) - 1 } :=
      RefCount.getElem?_setUses_self hcell _
    have hcellUses : cell.uses ≠ 0 := fun heq => hr ((RefCount.uses_eq hcell).trans heq)
    refine destroyWorker_inv hunused hself ?_ (h.worker w cell hcell hcellUses)
      (h.not_destroyed hr)
    exact (RefCount.uses_eq hself).symm.trans hzero
  · exact hunused

theorem destroyEndpoint_inv {s : St} {e : Nat} {cell : Cell Endpoint} (h : Inv s none)
    (hcell : s.heap.endpoints[e]? = some cell) (huses : cell.uses = 0)
    (hparent : ∃ w, cell.obj.worker = some w ∧ s.heap.ucx.eps[e]? = some w)
    (hnot : ∀ y ∈ s.log, y.call.destroys ≠ some (.endpoint e)) :
    Inv (destroyEndpoint s e) none := by
  rcases hparent with ⟨w, hworker, hucx⟩
  have hzero : s.heap.uses (.endpoint e) = 0 := (RefCount.uses_eq hcell).trans huses
  have hmade : s.heap.Made (.endpoint e) := (List.getElem?_eq_some_iff.mp hcell).1
  have hholders : 0 < s.heap.holders (.worker w) := by
    have hheld : 0 < heldBy Endpoint.ref s.heap.endpoints (.worker w) :=
      RefCount.held_pos hcell (congrArg (Option.map Ref.worker) hworker)
    rw [Heap.holders]
    omega
  have hcall : Inv (s.call (.epCloseNbx e)) none := by
    refine call_inv h ⟨?_, w, hucx, h.alive hholders⟩ ?_
    · intro y hy heq
      exact hnot y hy (by rw [heq]; rfl)
    · intro r hdestroys
      obtain rfl : Ref.endpoint e = r := Option.some.inj hdestroys
      exact ⟨hmade, hzero⟩
  simp only [destroyEndpoint, hcell, hworker, Option.elim_some]
  split
  · have hset := setEndpoint_inv hcall hcell huses
    rw [Endpoint.ref, hworker] at hset
    exact releaseWorker_inv hset
  · have hset := setEndpoint_inv h hcell huses
    rw [Endpoint.ref, hworker] at hset
    exact releaseWorker_inv hset

/-- `~shared_ptr<endpoint>`. -/
theorem releaseEndpoint_inv {s : St} {e : Nat} (h : Inv s (some (.endpoint e))) :
    Inv (releaseEndpoint s e) none := by
  have hr : s.heap.uses (.endpoint e) ≠ 0 := Nat.ne_of_gt h.owed.pos
  rcases RefCount.exists_cell hr with ⟨cell, hcell⟩
  have hunused := unuse_inv h
  simp only [releaseEndpoint]
  split
  · rename_i hzero
    have hself : (s.unuse (.endpoint e)).heap.endpoints[e]? =
        some { cell with uses := s.heap.uses (.endpoint e) - 1 } :=
      RefCount.getElem?_setUses_self hcell _
    have hcellUses : cell.uses ≠ 0 := fun heq => hr ((RefCount.uses_eq hcell).trans heq)
    refine destroyEndpoint_inv hunused hself ?_ (h.endpoint e cell hcell hcellUses)
      (h.not_destroyed hr)
    exact (RefCount.uses_eq hself).symm.trans hzero
  · exact hunused

theorem release_inv {s : St} {p : Option Ref} (h : Inv s p) : Inv (release s p) none := by
  match p, h with
  | none, h => exact h
  | some (.context c), h => exact releaseContext_inv h
  | some (.worker w), h => exact releaseWorker_inv h
  | some (.endpoint e), h => exact releaseEndpoint_inv h

end Ucxpp.Ownership
