import Ucxpp.CancelPending

/-!
# CancelNext — what cancel does behind the callback

`tag_recv_awaitable::cancel` sets `request_` to null when `ucp_request_cancel`
has returned. If UCX has run the callback inside that call, the storage may hold
the next awaitable by then, with a receive of its own pending. `Inv` says which
requests are pending where, also for the calls of `cancel` in progress, and
`Kept` that a pending receive that has not been cancelled keeps its `request_`;
`cancel_undisturbed` is the condition under which it does.
-/

namespace Ucxpp.Cancel

open Function (update)

/-! ## Pending requests -/

/-- What the object at `i` has pending. -/
def pendingAt (objs : Nat → Option Obj) (i : Nat) : Option Request :=
  (objs i).bind Obj.pending

theorem pendingAt_eq {objs : Nat → Option Obj} {i : Nat} {obj : Obj} (h : objs i = some obj) :
    pendingAt objs i = obj.pending := by
  rw [pendingAt, h]
  rfl

theorem pendingAt_update (objs : Nat → Option Obj) (i : Nat) (o : Option Obj) :
    pendingAt (update objs i o) = update (pendingAt objs) i (o.bind Obj.pending) := by
  funext j
  by_cases hj : j = i
  · subst hj
    rw [pendingAt, Function.update_self, Function.update_self]
  · rw [pendingAt, Function.update_of_ne hj, Function.update_of_ne hj, pendingAt]

/-- An object changes, but not what it has pending. -/
theorem pendingAt_same {objs : Nat → Option Obj} {i : Nat} {o : Option Obj}
    (h : o.bind Obj.pending = pendingAt objs i) :
    pendingAt (update objs i o) = pendingAt objs := by
  rw [pendingAt_update, h, Function.update_eq_self]

theorem clearRequest_pendingAt (s : St) (f : Frame) :
    pendingAt (clearRequest s f).objs = pendingAt s.objs := by
  unfold clearRequest
  split
  · rename_i obj hobj
    exact pendingAt_same (pendingAt_eq hobj).symm
  · rfl

section

variable (slotClass : Nat → RecvClass)

/-- The objects with their histories, the requests that UCX has, and the calls of
`cancel` whose callback has not run. -/
structure Inv (s : St) : Prop where
  objs : ObjsInv slotClass s.objs
  live : ∀ r i, s.live r = some i ↔ pendingAt s.objs i = some r
  frame : ∀ f ∈ s.stack, slotClass f.slot = .tag → f.resumed = false →
    pendingAt s.objs f.slot = some f.request

variable {slotClass}

theorem init_inv : Inv slotClass .init where
  objs := init_objs
  live := fun _ _ => iff_of_false nofun nofun
  frame := fun _ h => nomatch h

/-- Nothing becomes pending or ends. -/
theorem Inv.same {s s' : St} (h : Inv slotClass s) (hobjs : ObjsInv slotClass s'.objs)
    (hpending : pendingAt s'.objs = pendingAt s.objs) (hlive : s'.live = s.live)
    (hstack : ∀ f ∈ s'.stack, f ∈ s.stack) : Inv slotClass s' where
  objs := hobjs
  live := by
    rw [hpending, hlive]
    exact h.live
  frame := by
    intro f hf
    rw [hpending]
    exact h.frame f (hstack f hf)

section

variable {α β : Type} [DecidableEq α] [DecidableEq β] {f : α → Option β} {g : β → Option α}
  {a : α} {b : β}

/-- Two partial functions that are inverse to each other stay so with a new pair. -/
theorem inverse_insert (h : ∀ a b, f a = some b ↔ g b = some a) (ha : f a = none)
    (hb : g b = none) (a' : α) (b' : β) :
    update f a (some b) a' = some b' ↔ update g b (some a) b' = some a' := by
  by_cases haa : a' = a
  · subst haa
    rw [Function.update_self]
    by_cases hbb : b' = b
    · subst hbb
      rw [Function.update_self]
      exact iff_of_true rfl rfl
    · rw [Function.update_of_ne hbb, ← h, ha]
      exact iff_of_false (fun heq => hbb (Option.some.inj heq).symm) nofun
  · rw [Function.update_of_ne haa, h]
    by_cases hbb : b' = b
    · subst hbb
      rw [Function.update_self, hb]
      exact iff_of_false nofun fun heq => haa (Option.some.inj heq).symm
    · rw [Function.update_of_ne hbb]

/-- And without one of their pairs. -/
theorem inverse_erase (h : ∀ a b, f a = some b ↔ g b = some a) (hab : f a = some b) (a' : α)
    (b' : β) : update f a none a' = some b' ↔ update g b none b' = some a' := by
  by_cases haa : a' = a
  · subst haa
    rw [Function.update_self]
    by_cases hbb : b' = b
    · subst hbb
      rw [Function.update_self]
      exact iff_of_false nofun nofun
    · rw [Function.update_of_ne hbb, ← h, hab]
      exact iff_of_false nofun fun heq => hbb (Option.some.inj heq).symm
  · rw [Function.update_of_ne haa, h]
    by_cases hbb : b' = b
    · subst hbb
      rw [Function.update_self, (h a b').mp hab]
      exact iff_of_false (fun heq => haa (Option.some.inj heq).symm) nofun
    · rw [Function.update_of_ne hbb]

end

theorem ready_inv {s : St} {slot : Nat} {obj : Obj} {ans : Answer} (h : Inv slotClass s)
    (hobj : s.objs slot = some obj) (hidle : obj.pending = none) (hfresh : Fresh s ans.ptr)
    (hobjs : ObjsInv slotClass (ready s slot obj ans).objs) :
    Inv slotClass (ready s slot obj ans) := by
  have hpending : pendingAt s.objs slot = none := (pendingAt_eq hobj).trans hidle
  cases hptr : ans.ptr with
  | null | err e =>
    refine h.same hobjs ?_ ?_ ?_
    · rw [ready, hptr]
      exact pendingAt_same (pendingAt_eq hobj).symm
    · rw [ready, hptr]
      rfl
    · rw [ready, hptr]
      exact fun _ hf => hf
  | request r =>
    rw [hptr] at hfresh
    have hpending' : pendingAt (ready s slot obj ans).objs =
        update (pendingAt s.objs) slot (some r) := by
      rw [ready, hptr]
      exact pendingAt_update ..
    have hlive' : (ready s slot obj ans).live = update s.live r (some slot) := by
      rw [ready, hptr]
    refine ⟨hobjs, fun r' i => ?_, fun f hf hc hresumed => ?_⟩
    · rw [hpending', hlive']
      exact inverse_insert h.live hfresh hpending r' i
    · have hold := h.frame f (by rw [ready, hptr] at hf; exact hf) hc hresumed
      rw [hpending']
      by_cases hi : f.slot = slot
      · rw [hi, hpending] at hold
        cases hold
      · rwa [Function.update_of_ne hi]

theorem complete_inv {s : St} {slot : Nat} {obj : Obj} {r : Request} {fin : Completion}
    (h : Inv slotClass s) (hlive : s.live r = some slot)
    (hobjs : ObjsInv slotClass (complete s slot obj r fin).objs) :
    Inv slotClass (complete s slot obj r fin) := by
  have hpending := (h.live r slot).mp hlive
  have hpending' : pendingAt (complete s slot obj r fin).objs =
      update (pendingAt s.objs) slot none := pendingAt_update ..
  refine ⟨hobjs, fun r' i => ?_, fun f hf hc hresumed => ?_⟩
  · rw [hpending']
    exact inverse_erase h.live hlive r' i
  · -- the frames of this request have been marked
    rcases List.mem_map.mp hf with ⟨g, hg, rfl⟩
    by_cases hr : g.request = r
    · rw [if_pos hr] at hresumed
      cases hresumed
    · rw [if_neg hr] at hc hresumed ⊢
      have hold := h.frame g hg hc hresumed
      rw [hpending']
      by_cases hi : g.slot = slot
      · rw [hi, hpending] at hold
        exact absurd (Option.some.inj hold).symm hr
      · rwa [Function.update_of_ne hi]

theorem cancel_inv {s : St} {slot : Nat} {obj : Obj} (h : Inv slotClass s)
    (hobj : s.objs slot = some obj) : Inv slotClass (cancel s slot obj) := by
  unfold cancel
  dsimp only
  split
  · rename_i r hr
    refine ⟨h.objs, h.live, fun f hf hc hresumed => ?_⟩
    cases hf with
    | head => exact (pendingAt_eq hobj).trans (((h.objs slot obj hobj).tag hc).pending r hr).1
    | tail _ hf => exact h.frame f hf hc hresumed
  · exact ⟨h.objs, h.live, h.frame⟩

theorem step_inv {s s' : St} {a : Act} (h : Inv slotClass s)
    (hstep : step slotClass s a = some s') : Inv slotClass s' := by
  have hobjs := step_objs h.objs hstep
  cases step_cases hstep with
  | construct hnone =>
    refine h.same hobjs (pendingAt_same ?_) rfl fun _ hf => hf
    rw [pendingAt, hnone]
    rfl
  | awaitReady hobj hidle hfresh => exact ready_inv h hobj hidle hfresh hobjs
  | awaitResume hobj =>
    exact h.same hobjs (pendingAt_same (pendingAt_eq hobj).symm) rfl fun _ hf => hf
  | complete hlive => exact complete_inv h hlive hobjs
  | cancel hobj => exact cancel_inv h hobj
  | @cancelReturn f rest hstack =>
    have hpop : ∀ g ∈ rest, g ∈ s.stack := fun g hg => hstack ▸ List.mem_cons_of_mem f hg
    unfold Cancel.cancelReturn at hobjs ⊢
    cases hc : slotClass f.slot with
    | stream => exact h.same h.objs rfl rfl hpop
    | tag =>
      rw [hc] at hobjs
      refine h.same hobjs (clearRequest_pendingAt _ f) ?_ ?_
      · simp only [clearRequest, St.record]
        split <;> rfl
      · simp only [clearRequest, St.record]
        split <;> exact hpop
  | destroy hobj hidle =>
    refine h.same hobjs (pendingAt_same ?_) rfl fun _ hf => hf
    rw [pendingAt_eq hobj, hidle]
    rfl

/-! ## The next receive -/

/-- A `cancel` whose callback has resumed the coroutine changes no awaitable, and
a `cancel` of a pending receive passes its request, unless one has already
returned. -/
def Event.Undisturbed : Event → Prop
  | .cancelReturned resumed before after => resumed = true → after = before
  | .cancelCalled _ pending cancelled passed =>
    ∀ r, pending = some r → cancelled = false → passed = some r

def St.Undisturbed (s : St) : Prop :=
  ∀ e ∈ s.log, e.Undisturbed

variable (slotClass)

/-- When a tag `cancel` goes on after its callback has resumed the coroutine, no
receive is pending in the same storage, except one that has been cancelled. -/
def NextIdle (s : St) : Act → Prop
  | .cancelReturn =>
    ∀ f rest, s.stack = f :: rest → f.resumed = true → slotClass f.slot = .tag →
      ∀ obj, s.objs f.slot = some obj → obj.pending = none ∨ obj.cancelled = true
  | .construct .. | .awaitReady .. | .awaitResume _ | .complete .. | .cancel _ | .destroy _ => True

variable {slotClass}

/-- A pending receive that has not been cancelled keeps its `request_`. -/
def ObjKept (obj : Obj) : Prop :=
  ∀ r, obj.pending = some r → obj.cancelled = false → obj.aw.request = some r

def Kept (objs : Nat → Option Obj) : Prop :=
  ∀ i obj, objs i = some obj → ObjKept obj

theorem Kept.update {objs : Nat → Option Obj} (h : Kept objs) {i : Nat} {o : Option Obj}
    (ho : ∀ obj, o = some obj → ObjKept obj) : Kept (update objs i o) := by
  intro j obj hj
  by_cases hji : j = i
  · subst hji
    rw [Function.update_self] at hj
    exact ho obj hj
  · rw [Function.update_of_ne hji] at hj
    exact h j obj hj

theorem Kept.set {objs : Nat → Option Obj} (h : Kept objs) {i : Nat} {obj : Obj}
    (ho : ObjKept obj) : Kept (Function.update objs i (some obj)) := by
  refine h.update fun obj' hobj' => ?_
  obtain rfl := Option.some.inj hobj'
  exact ho

theorem ObjKept.of_idle {obj : Obj} (h : obj.pending = none) : ObjKept obj := by
  intro r hr
  rw [h] at hr
  cases hr

/-- Whether clearing `request_` changes the object. -/
theorem request_null_iff {obj : Obj} (hinv : ObjInv .tag obj) (hkept : ObjKept obj) :
    obj.aw.request = none ↔ obj.pending = none ∨ obj.cancelled = true := by
  constructor
  · intro hnull
    cases hpending : obj.pending with
    | none => exact .inl rfl
    | some r =>
      cases hcancelled : obj.cancelled with
      | true => exact .inr rfl
      | false => exact nomatch hnull.symm.trans (hkept r hpending hcancelled)
  · intro hor
    cases hrequest : obj.aw.request with
    | none => rfl
    | some r =>
      rcases (hinv.tag rfl).pending r hrequest with ⟨hpending, hcancelled⟩
      rcases hor with hor | hor
      · exact nomatch hpending.symm.trans hor
      · exact nomatch hcancelled.symm.trans hor

/-- What is left of `cancel` keeps the pending receives, if its condition is met. -/
theorem cancelReturn_kept {s : St} {f : Frame} {rest : List Frame} (h : Inv slotClass s)
    (hkept : Kept s.objs) (hstack : s.stack = f :: rest)
    (hidle : NextIdle slotClass s .cancelReturn) :
    Kept (cancelReturn (slotClass f.slot) s f rest).objs := by
  unfold cancelReturn
  cases hc : slotClass f.slot with
  | stream => exact hkept
  | tag =>
    simp only [St.record, clearRequest]
    split
    · rename_i obj hobj
      refine hkept.set fun r hr hcancelled => ?_
      rcases Bool.or_eq_false_iff.mp hcancelled with ⟨hold, hnew⟩
      cases hresumed : f.resumed with
      | true =>
        rcases hidle f rest hstack hresumed hc obj hobj with hnone | hdone
        · exact nomatch hr.symm.trans hnone
        · exact nomatch hold.symm.trans hdone
      | false =>
        -- the receive that this call has cancelled is still the pending one
        have hpending := h.frame f (hstack ▸ List.mem_cons_self) hc hresumed
        rw [pendingAt_eq hobj] at hpending
        rw [hresumed, hpending] at hnew
        simp at hnew
    · exact hkept

theorem step_kept {s s' : St} {a : Act} (h : Inv slotClass s) (hkept : Kept s.objs)
    (hidle : NextIdle slotClass s a) (hstep : step slotClass s a = some s') : Kept s'.objs := by
  cases step_cases hstep with
  | construct => exact hkept.set (.of_idle rfl)
  | @awaitReady slot ans obj hobj hnone =>
    unfold ready
    dsimp only
    split
    · rename_i r hr
      refine hkept.set fun r' hr' _ => ?_
      exact (awaitReady_pending_request (h.objs slot obj hobj).makes hr).trans hr'
    · exact hkept.set (.of_idle hnone)
    · exact hkept.set (.of_idle hnone)
  | awaitResume _ hnone => exact hkept.set (.of_idle hnone)
  | complete => exact hkept.set (.of_idle rfl)
  | cancel =>
    unfold Cancel.cancel
    dsimp only
    split
    · exact hkept
    · exact hkept
  | cancelReturn hstack => exact cancelReturn_kept h hkept hstack hidle
  | destroy => exact hkept.update fun obj hobj => nomatch hobj

/-- What is left of `cancel` changes no awaitable behind its callback exactly if its
condition is met. -/
theorem cancelReturn_undisturbed_iff {s : St} {f : Frame} {rest : List Frame}
    (h : Inv slotClass s) (hkept : Kept s.objs) (hstack : s.stack = f :: rest) :
    (f.resumed = true →
        (cancelReturn (slotClass f.slot) s f rest).awaitables = s.awaitables) ↔
      NextIdle slotClass s .cancelReturn := by
  have hcond : NextIdle slotClass s .cancelReturn ↔ (f.resumed = true → slotClass f.slot = .tag →
      ∀ obj, s.objs f.slot = some obj → obj.pending = none ∨ obj.cancelled = true) := by
    constructor
    · intro hall
      exact hall f rest hstack
    · intro hf g rest' hg
      obtain ⟨rfl, rfl⟩ := List.cons.inj (hstack.symm.trans hg)
      exact hf
  -- the frame that returns is the innermost one
  rw [hcond]
  refine forall_congr' fun _ => ?_
  unfold cancelReturn
  cases hc : slotClass f.slot with
  | stream => exact iff_of_true rfl nofun
  | tag =>
    rw [forall_prop_of_true rfl]
    simp only [clearRequest]
    split
    · rename_i obj hobj
      have hinv := h.objs f.slot obj hobj
      rw [hc] at hinv
      have hnull := request_null_iff hinv (hkept f.slot obj hobj)
      constructor
      · -- setting `request_` to null changes nothing iff it is null
        intro hsame obj' hobj'
        obtain rfl := Option.some.inj (hobj.symm.trans hobj')
        rw [← hnull]
        have hat := congrFun hsame f.slot
        simp only [St.awaitables, St.record, St.setObj, Function.update_self, hobj,
          Option.map_some, Option.some.injEq] at hat
        rw [← hat]
      · intro hidle
        have hrequest := hnull.mpr (hidle obj hobj)
        funext i
        simp only [St.awaitables, St.record, St.setObj]
        by_cases hi : i = f.slot
        · subst hi
          rw [Function.update_self, hobj, Option.map_some, Option.map_some, ← hrequest]
        · rw [Function.update_of_ne hi]
    · rename_i hnone
      refine iff_of_true rfl fun obj hobj => ?_
      exact nomatch (show none = some obj from hnone.symm.trans hobj)

theorem undisturbed_append {s s' : St} {e : Event} (h : s'.log = s.log ++ [e]) :
    s'.Undisturbed ↔ s.Undisturbed ∧ e.Undisturbed := by
  rw [St.Undisturbed, h, St.Undisturbed, List.forall_mem_append, List.forall_mem_singleton]

/-- The events that have been recorded stay. -/
theorem Undisturbed.of_step {s s' : St} {a : Act} (hstep : step slotClass s a = some s')
    (h : s'.Undisturbed) : s.Undisturbed := by
  rcases step_log hstep with ⟨slot, obj, -, -, hlog⟩ | ⟨f, rest, -, -, hlog⟩ | ⟨-, -, hlog⟩
  · exact ((undisturbed_append hlog).mp h).1
  · exact ((undisturbed_append hlog).mp h).1
  · rwa [St.Undisturbed, hlog] at h

theorem step_undisturbed_iff {s s' : St} {a : Act} (h : Inv slotClass s) (hkept : Kept s.objs)
    (hgood : s.Undisturbed) (hstep : step slotClass s a = some s') :
    s'.Undisturbed ↔ NextIdle slotClass s a := by
  rcases step_log hstep with ⟨slot, obj, rfl, hobj, hlog⟩ | ⟨f, rest, rfl, hstack, hlog⟩ |
    ⟨-, hreturn, hlog⟩
  · rw [undisturbed_append hlog, and_iff_right hgood]
    exact iff_of_true (hkept slot obj hobj) trivial
  · rw [undisturbed_append hlog, and_iff_right hgood]
    obtain rfl : cancelReturn (slotClass f.slot) s f rest = s' := by
      simp only [step, hstack, Option.some.injEq] at hstep
      exact hstep
    exact cancelReturn_undisturbed_iff h hkept hstack
  · rw [St.Undisturbed, hlog]
    refine iff_of_true hgood ?_
    cases a with
    | cancelReturn => exact absurd rfl hreturn
    | construct | awaitReady | awaitResume | complete | cancel | destroy => trivial

/-- As long as nothing has been disturbed, pending receives are kept. -/
structure RunInv (slotClass : Nat → RecvClass) (s : St) : Prop where
  inv : Inv slotClass s
  kept : s.Undisturbed → Kept s.objs

theorem step_runInv {s s' : St} {a : Act} (h : RunInv slotClass s)
    (hstep : step slotClass s a = some s') : RunInv slotClass s' where
  inv := step_inv h.inv hstep
  kept := by
    intro hgood'
    have hgood := Undisturbed.of_step hstep hgood'
    have hkept := h.kept hgood
    exact step_kept h.inv hkept ((step_undisturbed_iff h.inv hkept hgood hstep).mp hgood') hstep

/-- In a run no `cancel` changes an awaitable behind its callback, and every `cancel`
reaches the pending receive, iff whenever a tag `cancel` goes on behind its callback no
receive that has not been cancelled is pending in its storage. -/
theorem cancel_undisturbed {acts : List Act} {s : St}
    (hrun : Lts.run (step slotClass) .init acts = some s) :
    s.Undisturbed ↔ Lts.StepsMeet (step slotClass) (NextIdle slotClass) .init acts :=
  Lts.run_good_iff (D := fun _ _ => True) (RunInv slotClass) St.Undisturbed
    (fun _ _ _ h _ hstep => step_runInv h hstep)
    (fun _ _ _ h hg _ hstep => step_undisturbed_iff h.inv (h.kept hg) hg hstep)
    (fun _ _ _ _ hlost hstep hg => hlost (Undisturbed.of_step hstep hg))
    ⟨init_inv, fun _ _ _ h => nomatch h⟩ (fun _ h => nomatch h) (Lts.stepsMeet_true _ _) hrun

end

/-! ### Two runs -/

/-- A tag receive that is cancelled, whose callback runs inside the call with
`UCS_ERR_CANCELED`. -/
def tagActs : List Act :=
  [.construct 0 0 (.tagRecv 0 0 8 0 0) nullStorage, .awaitReady 0 ⟨.request 5, 0, 0⟩, .cancel 0,
    .complete 5 ⟨.err ⟨15, by decide⟩, 0, 0⟩, .destroy 0]

/-- The coroutine goes on with the next receive in the same storage. -/
def nextActs : List Act :=
  [.construct 0 0 (.tagRecv 0 0 8 0 0) nullStorage, .awaitReady 0 ⟨.request 6, 0, 0⟩]

theorem cancel_undisturbed_return :
    ∃ s, Lts.run (step fun _ => .tag) .init (tagActs ++ [.cancelReturn] ++ nextActs) = some s ∧
      (s.Undisturbed ↔ Lts.StepsMeet (step fun _ => .tag) (NextIdle fun _ => .tag) .init
        (tagActs ++ [.cancelReturn] ++ nextActs)) := by
  have hrun : ∃ s, Lts.run (step fun _ => .tag) .init (tagActs ++ [.cancelReturn] ++ nextActs) =
      some s := ⟨_, rfl⟩
  rcases hrun with ⟨s, hs⟩
  exact ⟨s, hs, cancel_undisturbed hs⟩

/-- The call in progress takes the request of the next receive away, and a later
`cancel` does nothing. -/
theorem cancel_clears_next :
    ∃ s, Lts.run (step fun _ => .tag) .init
        (tagActs ++ nextActs ++ [.cancelReturn, .cancel 0]) = some s ∧
      (∃ obj, s.objs 0 = some obj ∧ obj.pending = some 6 ∧ obj.cancelled = false ∧
        obj.aw.request = none) ∧ s.stack = [] ∧ ¬s.Undisturbed := by
  refine ⟨_, rfl, ⟨_, rfl, rfl, rfl, rfl⟩, rfl, fun h => ?_⟩
  have hlast := h _ (List.mem_append_right _ List.mem_cons_self) 6 rfl rfl
  cases hlast

end Ucxpp.Cancel
