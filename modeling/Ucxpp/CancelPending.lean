import Ucxpp.Cancel

/-!
# CancelPending — what cancel passes to UCX

`ObjInv` relates `request_` to the history of its object: in a
`tag_recv_awaitable` it is null unless the receive is pending, in a
`stream_recv_awaitable` it is what the storage held until the first request, and
the last request from then on. So `cancel` of a stream receive passes a pointer
that is not pending exactly if it is called at the wrong time
(`cancel_only_pending`).
-/

namespace Ucxpp.Cancel

open Function (update)

/-! ## Fields of an awaitable -/

theorem makes_cases {c : RecvClass} {worker : Nat} {op : Operation} (h : c.Makes worker op) :
    (c = .stream ∧ ∃ ep buffer length, op = .streamRecv ep buffer length) ∨
      (c = .tag ∧ ∃ buffer length tag mask, op = .tagRecv worker buffer length tag mask) := by
  unfold RecvClass.Makes at h
  split at h
  · exact .inl ⟨rfl, _, _, _, rfl⟩
  · subst h
    exact .inr ⟨rfl, _, _, _, _, rfl⟩
  · exact h.elim

theorem awaitReady_op (self : Awaitable) (ans : Answer) : (awaitReady self ans).1.op = self.op := by
  rcases ans with ⟨ptr, length, senderTag⟩
  cases ptr <;> simp [awaitReady, checkRequestReady]

theorem awaitReady_final_request (self : Awaitable) {ans : Answer} (h : ans.ptr.isPtr = false) :
    (awaitReady self ans).1.request = self.request := by
  rcases ans with ⟨ptr, length, senderTag⟩
  cases ptr with
  | null =>
    cases hop : self.op <;> simp [awaitReady, checkRequestReady, Awaitable.fill, hop]
  | err e =>
    cases hop : self.op <;> simp [awaitReady, checkRequestReady, Awaitable.fill, hop]
  | request r => cases h

theorem awaitReady_pending_request {c : RecvClass} {worker : Nat} {self : Awaitable}
    (hop : c.Makes worker self.op) {ans : Answer} {r : Request} (h : ans.ptr = .request r) :
    (awaitReady self ans).1.request = some r := by
  rcases makes_cases hop with ⟨-, ep, buffer, length, hself⟩ | ⟨-, buffer, length, tag, mask, hself⟩
  · simp [awaitReady, checkRequestReady, Awaitable.fill, Awaitable.keepRequest, h, hself]
  · simp [awaitReady, checkRequestReady, Awaitable.fill, Awaitable.keepRequest, h, hself]

theorem store_request (cb : Callback) (self : Awaitable) (fin : Completion) :
    (cb.store self fin).request = self.request := by
  cases cb <;> rfl

theorem resumeFields_op (self : Awaitable) : (resumeFields self).op = self.op := by
  unfold resumeFields
  split <;> rfl

theorem resumeFields_stream {worker : Nat} {self : Awaitable}
    (hop : RecvClass.stream.Makes worker self.op) : (resumeFields self).request = self.request := by
  rcases makes_cases hop with ⟨-, ep, buffer, length, hself⟩ | ⟨h, -⟩
  · rw [resumeFields, hself]
  · cases h

theorem resumeFields_tag {worker : Nat} {self : Awaitable}
    (hop : RecvClass.tag.Makes worker self.op) : (resumeFields self).request = none := by
  rcases makes_cases hop with ⟨h, -⟩ | ⟨-, buffer, length, tag, mask, hself⟩
  · cases h
  · rw [resumeFields, hself]

/-! ## One object -/

/-- `request_` against the history of the object. -/
structure StreamInv (obj : Obj) : Prop where
  fresh : obj.requested = false → obj.aw.request = obj.storage.request ∧ obj.pending = none
  set : obj.requested = true → obj.aw.request ≠ none
  pending : ∀ r, obj.pending = some r → obj.aw.request = some r

structure TagInv (obj : Obj) : Prop where
  pending : ∀ r, obj.aw.request = some r → obj.pending = some r ∧ obj.cancelled = false

structure ObjInv (c : RecvClass) (obj : Obj) : Prop where
  makes : c.Makes obj.worker obj.aw.op
  stream : c = .stream → StreamInv obj
  tag : c = .tag → TagInv obj

theorem construct_objInv {c : RecvClass} {worker : Nat} {op : Operation}
    (hop : c.Makes worker op) (mem : Storage) :
    ObjInv c ⟨op.construct mem, worker, mem, false, none, false⟩ where
  makes := by
    rw [construct_op]
    exact hop
  stream := by
    rintro rfl
    rcases makes_cases hop with ⟨-, ep, buffer, length, rfl⟩ | ⟨h, -⟩
    · exact ⟨fun _ => ⟨rfl, rfl⟩, nofun, nofun⟩
    · cases h
  tag := by
    rintro rfl
    rcases makes_cases hop with ⟨h, -⟩ | ⟨-, buffer, length, tag, mask, rfl⟩
    · cases h
    · exact ⟨nofun⟩

/-- A receive that is done at once leaves `request_` alone. -/
theorem readyFinal_objInv {c : RecvClass} {obj : Obj} (h : ObjInv c obj) {ans : Answer}
    (hans : ans.ptr.isPtr = false) :
    ObjInv c { obj with aw := (awaitReady obj.aw ans).1 } := by
  have hrequest := awaitReady_final_request obj.aw hans
  refine ⟨?_, fun hc => ?_, fun hc => ⟨fun r hr => ?_⟩⟩
  · rw [awaitReady_op]
    exact h.makes
  · have hs := h.stream hc
    refine ⟨fun hreq => ?_, fun hreq => ?_, fun r hr => ?_⟩
    · rw [hrequest]
      exact hs.fresh hreq
    · rw [hrequest]
      exact hs.set hreq
    · rw [hrequest]
      exact hs.pending r hr
  · rw [hrequest] at hr
    exact (h.tag hc).pending r hr

theorem readyPending_objInv {c : RecvClass} {obj : Obj} (h : ObjInv c obj) {ans : Answer}
    {r : Request} (hans : ans.ptr = .request r) :
    ObjInv c { obj with
      aw := (awaitReady obj.aw ans).1
      requested := true
      pending := some r
      cancelled := false } := by
  have hrequest := awaitReady_pending_request h.makes hans
  refine ⟨?_, fun _ => ⟨nofun, fun _ => ?_, fun r' hr' => ?_⟩, fun _ => ⟨fun r' hr' => ?_⟩⟩
  · rw [awaitReady_op]
    exact h.makes
  · rw [hrequest]
    exact nofun
  · exact hrequest.trans hr'
  · exact ⟨hrequest.symm.trans hr', rfl⟩

/-- The fields change as `await_resume` changes them, and no receive is pending
afterwards. -/
theorem resume_objInv {c : RecvClass} {obj : Obj} (h : ObjInv c obj) {aw : Awaitable}
    (hop : aw.op = obj.aw.op) (hrequest : aw.request = obj.aw.request) :
    ObjInv c { obj with aw := resumeFields aw, pending := none } := by
  have hmakes : c.Makes obj.worker aw.op := hop ▸ h.makes
  refine ⟨?_, fun hc => ?_, fun hc => ⟨fun r hr => ?_⟩⟩
  · rw [resumeFields_op]
    exact hmakes
  · subst hc
    have hs := h.stream rfl
    have hkept : (resumeFields aw).request = obj.aw.request :=
      (resumeFields_stream hmakes).trans hrequest
    refine ⟨fun hreq => ⟨hkept.trans (hs.fresh hreq).1, rfl⟩, fun hreq => ?_, nofun⟩
    rw [hkept]
    exact hs.set hreq
  · subst hc
    rw [resumeFields_tag hmakes] at hr
    cases hr

theorem clear_objInv {obj : Obj} (h : ObjInv .tag obj) (cancelled : Bool) :
    ObjInv .tag { obj with aw := { obj.aw with request := none }, cancelled := cancelled } where
  makes := h.makes
  stream := nofun
  tag := fun _ => ⟨nofun⟩

/-! ## All objects -/

section

variable (slotClass : Nat → RecvClass)

def ObjsInv (objs : Nat → Option Obj) : Prop :=
  ∀ i obj, objs i = some obj → ObjInv (slotClass i) obj

variable {slotClass}

theorem ObjsInv.set {objs : Nat → Option Obj} (h : ObjsInv slotClass objs) {i : Nat} {obj : Obj}
    (hobj : ObjInv (slotClass i) obj) : ObjsInv slotClass (update objs i (some obj)) := by
  intro j obj' hj
  by_cases hji : j = i
  · subst hji
    rw [Function.update_self] at hj
    exact Option.some.inj hj ▸ hobj
  · rw [Function.update_of_ne hji] at hj
    exact h j obj' hj

theorem ObjsInv.erase {objs : Nat → Option Obj} (h : ObjsInv slotClass objs) (i : Nat) :
    ObjsInv slotClass (update objs i none) := by
  intro j obj hj
  by_cases hji : j = i
  · subst hji
    rw [Function.update_self] at hj
    cases hj
  · rw [Function.update_of_ne hji] at hj
    exact h j obj hj

theorem clearRequest_objs {s : St} (h : ObjsInv slotClass s.objs) {f : Frame}
    (hc : slotClass f.slot = .tag) : ObjsInv slotClass (clearRequest s f).objs := by
  unfold clearRequest
  split
  · rename_i obj hobj
    have hinv := h _ _ hobj
    rw [hc] at hinv
    refine h.set ?_
    rw [hc]
    exact clear_objInv hinv _
  · exact h

theorem step_objs {s s' : St} {a : Act} (h : ObjsInv slotClass s.objs)
    (hstep : step slotClass s a = some s') : ObjsInv slotClass s'.objs := by
  cases step_cases hstep with
  | construct _ hop => exact h.set (construct_objInv hop _)
  | @awaitReady slot ans obj hobj hidle =>
    have hinv := h _ _ hobj
    unfold ready
    split
    · rename_i r hr
      exact h.set (readyPending_objInv hinv hr)
    · rename_i hr
      exact h.set (readyFinal_objInv hinv (by rw [hr]; rfl))
    · rename_i e hr
      exact h.set (readyFinal_objInv hinv (by rw [hr]; rfl))
  | @awaitResume slot obj hobj hidle =>
    have hinv := resume_objInv (h _ _ hobj) rfl rfl
    -- no receive is pending, so that `resume_objInv` speaks of this object
    have heq : ({ obj with aw := resumeFields obj.aw, pending := none } : Obj) =
        { obj with aw := resumeFields obj.aw } := by
      rw [← hidle]
    rw [heq] at hinv
    exact h.set hinv
  | complete _ hobj => exact h.set (resume_objInv (h _ _ hobj) (store_op ..) (store_request ..))
  | @cancel slot obj hobj =>
    unfold Cancel.cancel
    dsimp only
    split
    · exact h
    · exact h
  | @cancelReturn f rest _ =>
    simp only [Cancel.cancelReturn]
    cases hc : slotClass f.slot with
    | stream => exact h
    | tag => exact clearRequest_objs (s := { s with stack := rest }) h hc
  | destroy => exact h.erase _

theorem init_objs : ObjsInv slotClass St.init.objs := by
  intro i obj h
  cases h

/-! ## What is passed to UCX -/

/-- What `cancel` passes is the request of the pending receive. -/
def Event.PassesPending : Event → Prop
  | .cancelCalled _ pending _ passed => ∀ r, passed = some r → pending = some r
  | .cancelReturned .. => True

def St.OnlyPending (s : St) : Prop :=
  ∀ e ∈ s.log, e.PassesPending

variable (slotClass)

/-- `cancel` of a `stream_recv_awaitable` is called while its receive is pending,
or in storage that held null, before a receive of it has returned a request. -/
def CancelInTime (s : St) : Act → Prop
  | .cancel slot =>
    ∀ obj, s.objs slot = some obj → slotClass slot = .stream →
      obj.pending ≠ none ∨ (obj.storage.request = none ∧ obj.requested = false)
  | .construct .. | .awaitReady .. | .awaitResume _ | .complete .. | .cancelReturn
  | .destroy _ => True

variable {slotClass}

/-- The steps other than `cancel` pass nothing. -/
theorem step_log {s s' : St} {a : Act} (hstep : step slotClass s a = some s') :
    (∃ slot obj, a = .cancel slot ∧ s.objs slot = some obj ∧
      s'.log = s.log ++ [.cancelCalled obj.worker obj.pending obj.cancelled obj.aw.request]) ∨
    (∃ f rest, a = .cancelReturn ∧ s.stack = f :: rest ∧
      s'.log = s.log ++ [.cancelReturned f.resumed s.awaitables s'.awaitables]) ∨
    ((∀ slot, a ≠ .cancel slot) ∧ a ≠ .cancelReturn ∧ s'.log = s.log) := by
  cases step_cases hstep with
  | construct | awaitResume | complete | destroy => exact .inr (.inr ⟨nofun, nofun, rfl⟩)
  | @awaitReady slot ans obj =>
    refine .inr (.inr ⟨nofun, nofun, ?_⟩)
    unfold ready
    dsimp only
    split <;> rfl
  | @cancel slot obj hobj =>
    refine .inl ⟨slot, obj, rfl, hobj, ?_⟩
    unfold Cancel.cancel
    dsimp only
    split <;> rfl
  | @cancelReturn f rest hstack =>
    refine .inr (.inl ⟨f, rest, rfl, hstack, ?_⟩)
    unfold Cancel.cancelReturn
    cases slotClass f.slot with
    | stream => rfl
    | tag =>
      unfold clearRequest
      dsimp only
      split <;> rfl

/-- A `cancel` passes the pending request, or nothing, exactly if it is in time. -/
theorem cancel_passes_iff {slot : Nat} {obj : Obj} (h : ObjInv (slotClass slot) obj) :
    (∀ r, obj.aw.request = some r → obj.pending = some r) ↔
      (slotClass slot = .stream →
        obj.pending ≠ none ∨ (obj.storage.request = none ∧ obj.requested = false)) := by
  cases hc : slotClass slot with
  | tag => exact iff_of_true (fun r hr => ((h.tag hc).pending r hr).1) nofun
  | stream =>
    have hs := h.stream hc
    -- a stream receive keeps the pointer of its last request
    rw [forall_prop_of_true rfl]
    cases hpending : obj.pending with
    | some r =>
      refine iff_of_true (fun r' hr' => ?_) (.inl nofun)
      rw [← hs.pending r hpending, hr']
    | none =>
      cases hrequested : obj.requested with
      | true =>
        refine iff_of_false (fun hall => ?_) (fun hor => ?_)
        · rcases Option.ne_none_iff_exists'.mp (hs.set hrequested) with ⟨r, hr⟩
          exact nomatch hall r hr
        · rcases hor with hor | ⟨-, hor⟩
          · exact hor rfl
          · cases hor
      | false =>
        -- `request_` is still what the storage held
        rw [← (hs.fresh hrequested).1]
        constructor
        · intro hall
          refine .inr ⟨Option.eq_none_iff_forall_ne_some.mpr fun r hr => ?_, rfl⟩
          exact nomatch hall r hr
        · rintro (hor | ⟨hnull, -⟩) r hr
          · exact absurd rfl hor
          · exact nomatch hnull.symm.trans hr

theorem onlyPending_append {s s' : St} {e : Event} (h : s'.log = s.log ++ [e]) :
    s'.OnlyPending ↔ s.OnlyPending ∧ e.PassesPending := by
  rw [St.OnlyPending, h, St.OnlyPending, List.forall_mem_append, List.forall_mem_singleton]

theorem step_onlyPending_iff {s s' : St} {a : Act} (hs : ObjsInv slotClass s.objs)
    (hgood : s.OnlyPending) (hstep : step slotClass s a = some s') :
    s'.OnlyPending ↔ CancelInTime slotClass s a := by
  rcases step_log hstep with ⟨slot, obj, rfl, hobj, hlog⟩ | ⟨f, rest, rfl, -, hlog⟩ |
    ⟨hcancel, -, hlog⟩
  · rw [onlyPending_append hlog, and_iff_right hgood]
    refine (cancel_passes_iff (hs slot obj hobj)).trans ?_
    constructor
    · intro h obj' hobj'
      exact Option.some.inj (hobj.symm.trans hobj') ▸ h
    · intro h
      exact h obj hobj
  · rw [onlyPending_append hlog, and_iff_right hgood]
    exact Iff.rfl
  · rw [St.OnlyPending, hlog]
    refine iff_of_true hgood ?_
    cases a with
    | cancel slot => exact absurd rfl (hcancel slot)
    | construct | awaitReady | awaitResume | complete | cancelReturn | destroy => trivial

/-- The calls that have been made stay made. -/
theorem OnlyPending.of_step {s s' : St} {a : Act} (hstep : step slotClass s a = some s')
    (h : s'.OnlyPending) : s.OnlyPending := by
  rcases step_log hstep with ⟨slot, obj, -, -, hlog⟩ | ⟨f, rest, -, -, hlog⟩ | ⟨-, -, hlog⟩
  · exact ((onlyPending_append hlog).mp h).1
  · exact ((onlyPending_append hlog).mp h).1
  · rwa [St.OnlyPending, hlog] at h

/-- In a run every pointer that is passed to `ucp_request_cancel` is the request of
the awaitable's own pending receive iff every `cancel` is in time. -/
theorem cancel_only_pending {acts : List Act} {s : St}
    (hrun : Lts.run (step slotClass) .init acts = some s) :
    s.OnlyPending ↔ Lts.StepsMeet (step slotClass) (CancelInTime slotClass) .init acts :=
  Lts.run_good_iff (D := fun _ _ => True) (fun s => ObjsInv slotClass s.objs) St.OnlyPending
    (fun _ _ _ h _ hstep => step_objs h hstep)
    (fun _ _ _ h hg _ hstep => step_onlyPending_iff h hg hstep)
    (fun _ _ _ _ hlost hstep hg => hlost (OnlyPending.of_step hstep hg))
    init_objs (fun _ h => nomatch h) (Lts.stepsMeet_true _ _) hrun

end

/-! ### Two runs -/

/-- Storage that holds null. -/
def nullStorage : Storage :=
  ⟨none, ⟨0, 0⟩⟩

/-- One stream receive, completed by a callback. -/
def streamActs : List Act :=
  [.construct 0 0 (.streamRecv (some 0) 0 8) nullStorage, .awaitReady 0 ⟨.request 5, 0, 0⟩,
    .complete 5 ⟨.ok, 8, 0⟩]

theorem cancel_only_pending_stream :
    ∃ s, Lts.run (step fun _ => .stream) .init (streamActs.take 2 ++ [.cancel 0]) = some s ∧
      (s.OnlyPending ↔ Lts.StepsMeet (step fun _ => .stream) (CancelInTime fun _ => .stream) .init
        (streamActs.take 2 ++ [.cancel 0])) := by
  have hrun : ∃ s, Lts.run (step fun _ => .stream) .init (streamActs.take 2 ++ [.cancel 0]) =
      some s := ⟨_, rfl⟩
  rcases hrun with ⟨s, hs⟩
  exact ⟨s, hs, cancel_only_pending hs⟩

/-- A `cancel` behind the callback passes the request that the callback has freed. -/
theorem cancel_passes_freed :
    ∃ s, Lts.run (step fun _ => .stream) .init (streamActs ++ [.cancel 0]) = some s ∧
      s.live 5 = none ∧ s.log = [.cancelCalled 0 none false (some 5)] ∧ ¬s.OnlyPending := by
  refine ⟨_, rfl, rfl, rfl, fun h => ?_⟩
  exact nomatch h _ List.mem_cons_self 5 rfl

end Ucxpp.Cancel
