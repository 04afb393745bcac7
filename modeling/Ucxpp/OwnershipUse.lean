import Ucxpp.Released

/-!
# OwnershipUse — what the user holds can be used

Between two statements of the user, a handle that a variable holds has not been given back and
no other variable holds it. Everything that it needs is alive: the object that its pointer
points to, the one that UCX made it from, and what UCX made those from. A packed key needs
nothing, its bytes are its own.
-/

namespace Ucxpp.Ownership

open RefCount (Cell held heldBy)

/-- What UCX made the handle of an object from. -/
def Ucx.parent (ucx : Ucx) : Ref → Option Ref
  | .context _ => none
  | .worker w => ucx.workers[w]?.map .context
  | .endpoint e => ucx.eps[e]?.map .worker

/-- What UCX made a handle from that a variable owns. -/
def Ucx.origin (ucx : Ucx) : Token → Option Ref
  | .address a => ucx.addresses[a]?.map .worker
  | .mem m => ucx.mems[m]?.map .context
  | .buffer _ => none
  | .rkey r => ucx.rkeys[r]?.map .endpoint

/-- The objects that have to be alive when the variable is used. -/
inductive Needs (ucx : Ucx) (v : Var) : Ref → Prop where
  | pointer {r : Ref} (hr : v.ref = some r) : Needs ucx v r
  | origin {t : Token} {r : Ref} (ht : v.token = some t) (hr : ucx.origin t = some r) :
      Needs ucx v r
  -- `put`, `get` and the atomics pass `ep_`, not the pointer
  | ep {endpoint rkey : Option Nat} {e : Nat}
      (hv : v = .remoteMemoryHandle endpoint (some e) rkey) : Needs ucx v (.endpoint e)
  | parent {r r' : Ref} (h : Needs ucx v r) (hr : ucx.parent r = some r') : Needs ucx v r'

/-! ## The endpoint of a remote key -/

/-- `ep_` is the handle of the endpoint behind `endpoint_`. -/
def Var.SameEp (v : Var) : Prop :=
  ∀ endpoint ep rkey, v = .remoteMemoryHandle endpoint ep rkey → ep = endpoint

theorem sameEp_movedFrom (v : Var) : v.movedFrom.SameEp := by
  intro endpoint ep rkey h
  cases v with
  | remoteMemoryHandle _ _ _ =>
    cases h
    rfl
  | contextPtr _ | workerPtr _ | endpointPtr _ | localAddress _ _ | localMemoryHandle _ _
  | packedMemoryRkey _ | dropped => cases h

/-- Of two shared pointers of the same type. -/
theorem sameEp_of_samePtr {old v : Var} (h : old.samePtr v = true) : v.SameEp := by
  rintro endpoint ep rkey rfl
  cases old <;> cases h

theorem sameEp_set {vars : List Var} (h : ∀ v ∈ vars, v.SameEp) {v : Var} (hv : v.SameEp)
    (i : Nat) : ∀ x ∈ vars.set i v, x.SameEp := by
  intro x hx
  rcases List.mem_or_eq_of_mem_set hx with hx | rfl
  · exact h x hx
  · exact hv

theorem sameEp_append {vars : List Var} (h : ∀ v ∈ vars, v.SameEp) {v : Var} (hv : v.SameEp) :
    ∀ x ∈ vars ++ [v], x.SameEp := by
  intro x hx
  rcases List.mem_append.mp hx with hx | hx
  · exact h x hx
  · exact List.mem_singleton.mp hx ▸ hv

theorem step_sameEp {s s' : St} {a : Act} (h : ∀ v ∈ s.heap.vars, v.SameEp)
    (hstep : step s a = some s') : ∀ v ∈ s'.heap.vars, v.SameEp := by
  have hretain : ∀ p, ∀ v ∈ (s.retain p).heap.vars, v.SameEp := by
    intro p
    rw [(retain_sameVars s p).1]
    exact h
  cases step_cases hstep with
  | build => exact sameEp_append h (fun _ _ _ hv => by cases hv)
  | createWorker _ => exact sameEp_append (hretain _) (fun _ _ _ hv => by cases hv)
  | createEndpoint _ => exact sameEp_append (hretain _) (fun _ _ _ hv => by cases hv)
  | getAddress _ | mapMem _ =>
    refine sameEp_append ?_ (fun _ _ _ hv => by cases hv)
    rw [(retain_sameVars _ _).1]
    exact h
  | packRkey _ => exact sameEp_append h (fun _ _ _ hv => by cases hv)
  | unpackRkey _ =>
    refine sameEp_append ?_ (fun _ _ _ hv => by cases hv; rfl)
    rw [(retain_sameVars _ _).1]
    exact h
  | contextPtr _ | workerPtr _ | endpointPtr _ =>
    exact sameEp_append (hretain _) (fun _ _ _ hv => by cases hv)
  | copy _ hptr => exact sameEp_append (hretain _) (sameEp_of_samePtr hptr)
  | move hsrc =>
    exact sameEp_append (sameEp_set h (sameEp_movedFrom _) _) (h _ (List.mem_of_getElem? hsrc))
  | copyAssign _ _ hptr =>
    rw [copyAssign, (release_sameVars _ _).1]
    exact sameEp_set (hretain _) (sameEp_of_samePtr hptr) _
  | moveAssignAddress hdst hsrc =>
    intro v hv
    rcases List.mem_iff_getElem?.mp hv with ⟨i, hi⟩
    rcases moveAssignAddress_vars hdst hsrc hi with rfl | rfl | hi
    · exact fun _ _ _ hv => by cases hv
    · exact fun _ _ _ hv => by cases hv
    · exact h v (List.mem_of_getElem? hi)
  | moveAssignPtr _ _ hptr =>
    rw [moveAssignPtr, (release_sameVars _ _).1]
    exact sameEp_set (sameEp_set h (sameEp_movedFrom _) _) (sameEp_of_samePtr hptr) _
  | drop _ =>
    rw [Ownership.drop, (release_sameVars _ _).1, St.setVar, destructorBody_heap]
    exact sameEp_set h (fun _ _ _ hv => by cases hv) _

/-! ## What is needed is alive -/

/-- The parent of an object that is alive is held by it. -/
theorem Inv.parent_alive {s : St} {p : Option Ref} (h : Inv s p) {r r' : Ref}
    (hr : Alive s.log s.heap r) (hparent : s.heap.ucx.parent r = some r') :
    Alive s.log s.heap r' := by
  apply h.alive
  rw [Heap.holders]
  cases r with
  | context c => cases hparent
  | worker w =>
    rcases RefCount.exists_cell hr.1 with ⟨cell, hcell⟩
    rcases h.worker w cell hcell (RefCount.uses_eq hcell ▸ hr.1) with ⟨c, hctx, hucx⟩
    rw [Ucx.parent, hucx] at hparent
    obtain rfl := Option.some.inj hparent
    have hheld : 0 < heldBy Worker.ref s.heap.workers (.context c) :=
      RefCount.held_pos hcell (by rw [Worker.ref, hctx]; rfl)
    omega
  | endpoint e =>
    rcases RefCount.exists_cell hr.1 with ⟨cell, hcell⟩
    rcases h.endpoint e cell hcell (RefCount.uses_eq hcell ▸ hr.1) with ⟨w, hworker, hucx⟩
    rw [Ucx.parent, hucx] at hparent
    obtain rfl := Option.some.inj hparent
    have hheld : 0 < heldBy Endpoint.ref s.heap.endpoints (.worker w) :=
      RefCount.held_pos hcell (by rw [Endpoint.ref, hworker]; rfl)
    omega

/-- A handle is held with a pointer to what UCX made it from. -/
theorem ref_of_origin {ucx : Ucx} {v : Var} (hv : v.Paired ucx) {t : Token} {r : Ref}
    (ht : v.token = some t) (hr : ucx.origin t = some r) : v.ref = some r := by
  cases v with
  | localAddress worker address =>
    rcases Option.map_eq_some_iff.mp ht with ⟨a, rfl, rfl⟩
    rcases hv a rfl with ⟨w, rfl, hw⟩
    rw [Ucx.origin, hw] at hr
    exact hr
  | localMemoryHandle ctx mem =>
    rcases Option.map_eq_some_iff.mp ht with ⟨m, rfl, rfl⟩
    rcases hv m rfl with ⟨c, rfl, hc⟩
    rw [Ucx.origin, hc] at hr
    exact hr
  | packedMemoryRkey buffer =>
    rcases Option.map_eq_some_iff.mp ht with ⟨b, rfl, rfl⟩
    cases hr
  | remoteMemoryHandle endpoint ep rkey =>
    rcases Option.map_eq_some_iff.mp ht with ⟨k, rfl, rfl⟩
    rcases hv k rfl with ⟨e, rfl, he⟩
    rw [Ucx.origin, he] at hr
    exact hr
  | contextPtr _ | workerPtr _ | endpointPtr _ | dropped => cases ht

theorem Good.needs_alive {s : St} (h : Good s) {i : Nat} {v : Var}
    (hi : s.heap.vars[i]? = some v) (hep : v.SameEp) {r : Ref} (hr : Needs s.heap.ucx v r) :
    Alive s.log s.heap r := by
  induction hr with
  | pointer hr => exact h.inv.alive (holders_pos hi hr)
  | origin ht hr => exact h.inv.alive (holders_pos hi (ref_of_origin (h.paired_at hi) ht hr))
  | ep hv =>
    have hpointer := hep _ _ _ hv
    refine h.inv.alive (holders_pos hi ?_)
    rw [hv, Var.ref, ← hpointer]
    rfl
  | parent _ hr ih => exact h.inv.parent_alive ih hr

/-! ## One owner -/

/-- Between two statements of the user, the handle that a variable holds has not been given
back, no other variable holds it, and what it needs is alive. -/
theorem held_usable {acts : List Act} {s : St} (hrun : Lts.run step .init acts = some s)
    {i : Nat} {v : Var} (hi : s.heap.vars[i]? = some v) :
    (∀ t, v.token = some t → s.released t = [] ∧
        ∀ j w, s.heap.vars[j]? = some w → w.token = some t → j = i) ∧
      ∀ r, Needs s.heap.ucx v r → Alive s.log s.heap r := by
  have hinv : Good s ∧ (∀ v ∈ s.heap.vars, v.SameEp) ∧ Ledger.Tidy St.count St.Gave s :=
    Lts.run_invariant (P := fun _ _ => True)
      (fun s => Good s ∧ (∀ v ∈ s.heap.vars, v.SameEp) ∧ Ledger.Tidy St.count St.Gave s)
      (fun _ _ _ hs _ hstep => ⟨step_good hs.1 hstep, step_sameEp hs.2.1 hstep,
        ledger.step_tidy hs.2.2 hstep⟩)
      ⟨init_good, (fun _ h => nomatch h), init_tidy⟩ (Lts.stepsMeet_true _ _) hrun
  rcases hinv with ⟨hgood, hep, htidy⟩
  refine ⟨fun t ht => ?_, fun r => hgood.needs_alive hi (hep v (List.mem_of_getElem? hi))⟩
  have hone := htidy.le_one t
  have hheld : 0 < held Var.token s.heap.vars t := RefCount.held_pos hi ht
  rw [St.count] at hone
  refine ⟨?_, fun j w hj hw => ?_⟩
  · have hnone : held Entry.token s.log t = 0 := by omega
    rw [← length_released] at hnone
    exact List.length_eq_zero_iff.mp hnone
  · exact RefCount.eq_of_held_le_one (by omega) hj hw hi ht

/-- A remote key that is moved, and has the last pointer to its endpoint. -/
def lastHandleActs : List Act :=
  [.build, .createWorker 0, .createEndpoint 1 false, .unpackRkey 2, .drop 0, .drop 1, .move 3,
    .drop 2]

theorem held_usable_last : ∃ s, Lts.run step .init lastHandleActs = some s ∧
    s.released (.rkey 0) = [] ∧ Alive s.log s.heap (.context 0) := by
  have hrun : ∃ s, Lts.run step .init lastHandleActs = some s ∧
      s.heap.vars[4]? = some (.remoteMemoryHandle (some 0) (some 0) (some 0)) ∧
      s.heap.ucx.parent (.endpoint 0) = some (.worker 0) ∧
      s.heap.ucx.parent (.worker 0) = some (.context 0) := ⟨_, rfl, rfl, rfl, rfl⟩
  rcases hrun with ⟨s, hs, hv, hworker, hcontext⟩
  have hall := held_usable hs hv
  exact ⟨s, hs, (hall.1 (.rkey 0) rfl).1,
    hall.2 _ (.parent (.parent (.pointer rfl) hworker) hcontext)⟩

end Ucxpp.Ownership
