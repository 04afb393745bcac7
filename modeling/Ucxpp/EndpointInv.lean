import Mathlib.Data.List.Perm.Basic
import Ucxpp.EndpointRun
import Ucxpp.Lib.Trace

/-!
# EndpointInv — what a step can do to an endpoint

`Step` lists the effects that a step can have: most steps are `Quiet`, they
only change who refers to the endpoint. `Inv` ties the life of the endpoint to
its references, the life of the worker to the endpoint and the user, and each
suspended `close()` to the request that it waits for.
-/

namespace Ucxpp.EndpointRun

open Trace (getElem?_concat)

/-! ## References -/

theorem refs_hold (s : St) (x : Holder) :
    (s.hold x).refs = s.refs + if x.owns then 1 else 0 := by
  simp only [St.refs, St.hold, List.countP_append, List.countP_singleton]
  omega

/-- An object that owns a reference keeps the count positive. -/
theorem refs_pos_of_owner {s : St} {i : Nat} {x : Holder} (hx : s.holders[i]? = some x)
    (hown : x.owns = true) : 0 < s.refs := by
  have hpos : 0 < s.holders.countP Holder.owns :=
    List.countP_pos_iff.mpr ⟨x, List.mem_of_getElem? hx, hown⟩
  unfold St.refs
  omega

theorem lends_owns {x : Holder} (h : x.lends = true) : x.owns = true := by
  cases x with
  | pointer | memory => exact h
  | operation | flush => cases h

theorem refs_pos_of_pending {s : St} {k i : Nat} (hk : s.closes[k]? = some (.pending i)) :
    0 < s.refs := by
  have hpos : 0 < s.closes.countP CloseState.isPending :=
    List.countP_pos_iff.mpr ⟨_, List.mem_of_getElem? hk, rfl⟩
  unfold St.refs
  omega

theorem refs_dropped {s : St} {i : Nat} {x : Holder} (hx : s.holders[i]? = some x) :
    (s.dropped i).refs + (if x.owns then 1 else 0) = s.refs := by
  rcases List.getElem?_eq_some_iff.mp hx with ⟨hi, rfl⟩
  have hperm := (List.getElem_cons_eraseIdx_perm hi).countP_eq Holder.owns
  rw [List.countP_cons] at hperm
  simp only [St.refs, St.dropped]
  omega

theorem refs_finished {s : St} {k i : Nat} (hk : s.closes[k]? = some (.pending i)) :
    (s.finished k).refs + 1 = s.refs := by
  have hpos := refs_pos_of_pending hk
  rcases List.getElem?_eq_some_iff.mp hk with ⟨hlt, hget⟩
  have hcount : 0 < s.closes.countP CloseState.isPending :=
    List.countP_pos_iff.mpr ⟨_, List.mem_of_getElem? hk, rfl⟩
  simp only [St.refs, St.finished, List.countP_set hlt, hget, CloseState.isPending, if_true,
    Bool.false_eq_true, if_false, Nat.add_zero]
  omega

/-! ## The last reference -/

/-- The action gives up a reference to the endpoint. -/
def Releases (s : St) : Act → Prop
  | .drop i _ => ∃ x ∈ s.holders[i]?, x.owns = true
  | .complete i _ _ => ∃ q ∈ s.requests[i]?, q.closer.isClose = true
  | _ => False

instance (s : St) : (a : Act) → Decidable (Releases s a)
  | .drop i _ => inferInstanceAs (Decidable (∃ x ∈ s.holders[i]?, x.owns = true))
  | .complete i _ _ => inferInstanceAs (Decidable (∃ q ∈ s.requests[i]?, q.closer.isClose = true))
  | .copy _ | .unpack .. | .moveMemory _ | .endpointCall .. | .flush _ | .memoryCall .. | .await _
  | .copyWorker | .dropWorker | .close .. | .errorCb _ => .isFalse id

/-- The action gives up the last reference to the endpoint. -/
def LastRelease (s : St) (a : Act) : Prop :=
  Releases s a ∧ s.refs = 1

instance (s : St) (a : Act) : Decidable (LastRelease s a) :=
  inferInstanceAs (Decidable (_ ∧ _))

/-! ## The invariant -/

/-- The suspended `close()` coroutines are those whose requests have not
completed. -/
structure Linked (closes : List CloseState) (requests : List CloseRequest) : Prop where
  waiting : ∀ k i : Nat, closes[k]? = some (.pending i) →
    ∃ q, requests[i]? = some q ∧ q.closer = .close k ∧ q.completed = false
  pending : ∀ (i : Nat) (q : CloseRequest) (k : Nat), requests[i]? = some q →
    q.closer = .close k → q.completed = false → closes[k]? = some (.pending i)

/-- The endpoint lives as long as there is a reference to it, the worker as
long as the endpoint or the user refers to it. -/
structure Inv (s : St) : Prop extends Linked s.closes s.requests where
  owned : s.alive = true ↔ 0 < s.refs
  worker : s.workerAlive = true ↔ s.alive = true ∨ 0 < s.workerPtrs

/-- Who gives up the last reference finds the endpoint alive. -/
theorem Inv.alive_of_last {s : St} (hinv : Inv s) {a : Act} (hlast : LastRelease s a) :
    s.alive = true := by
  refine hinv.owned.mpr ?_
  rw [hlast.2]
  exact Nat.zero_lt_one

theorem init_inv (mem : Endpoint) (epH : Nat) : Inv (.init mem epH) where
  owned := iff_of_true rfl Nat.zero_lt_one
  worker := iff_of_true rfl (.inl rfl)
  waiting := fun _ _ h => nomatch h
  pending := fun _ _ _ h => nomatch h

/-! ## Steps -/

/-- The native handle that a holder has a copy of. -/
def Holder.ep? : Holder → Option UcpEp
  | .memory m => some m.ep
  | .operation op => op.ep?
  | .pointer | .flush => none

/-- The handle is null, `ep_`, or one that a holder has a copy of. -/
def Known (s : St) (ep : UcpEp) : Prop :=
  ep = none ∨ ep = s.obj.ep ∨ ∃ y ∈ s.holders, ep ∈ y.ep?

/-- The object was there before, or the handle in it, if any, comes from what
was there. -/
def HandleFrom (s : St) (x : Holder) : Prop :=
  x ∈ s.holders ∨
    match x with
    | .memory m => Known s m.ep
    | .operation op => ∃ ep, op.ep? = some ep ∧ Known s ep
    | .pointer | .flush => True

/-- The actions whose only effect is on the holders. -/
def Idle (s : St) : Act → Prop
  | .copy _ | .unpack .. | .moveMemory _ | .endpointCall .. | .flush _ | .memoryCall .. => True
  | .drop i ans => ¬ LastRelease s (.drop i ans)
  | .await _ | .copyWorker | .dropWorker | .close .. | .errorCb _ | .complete .. => False

/-- What a step can do. -/
inductive Step (s : St) : Act → St → Prop where
  | holders {a : Act} {hs : List Holder} (hidle : Idle s a) (hfrom : ∀ x ∈ hs, HandleFrom s x)
      (hrefs : 0 < St.refs { s with holders := hs } ↔ 0 < s.refs) :
      Step s a { s with holders := hs }
  | copyWorker (h : 0 < s.workerPtrs ∨ 0 < s.refs) :
      Step s .copyWorker { s with workerPtrs := s.workerPtrs + 1 }
  | dropWorker (h : 0 < s.workerPtrs) :
      Step s .dropWorker (St.settleWorker { s with workerPtrs := s.workerPtrs - 1 })
  | await {i : Nat} {op : Operation} (h : s.awaited i = some op) :
      Step s (.await i) (s.emit (.issued op))
  | dropLast {i : Nat} {ans : StatusPtr} (hlast : LastRelease s (.drop i ans))
      (hrefs : (s.dropped i).refs = 0) : Step s (.drop i ans) ((s.dropped i).destroy ans)
  | close {i : Nat} {ans : StatusPtr} (h : s.holders[i]? = some .pointer) :
      Step s (.close i ans) (close s ans)
  | errorCb {ans : StatusPtr} (halive : s.alive = true) (hopen : s.epOpen = true) :
      Step s (.errorCb ans) (errorCb s ans)
  | completeOther {i : Nat} {status : UcsStatus} {ans : StatusPtr} {q : CloseRequest}
      {frees : Nat} (hq : s.requests[i]? = some q) (hnew : q.completed = false)
      (hworker : s.workerAlive = true)
      (hfrees : q.closer = .errorCb ∧ frees = q.frees ∨
        q.closer = .destructor ∧ frees = q.frees + 1) :
      Step s (.complete i status ans) (s.completeRequest i q frees)
  | closeLast {i k : Nat} {status : UcsStatus} {ans : StatusPtr} {q : CloseRequest}
      (hq : s.requests[i]? = some q) (hnew : q.completed = false) (hk : q.closer = .close k)
      (hlast : LastRelease s (.complete i status ans))
      (hrefs : ((s.completeRequest i q (q.frees + 1)).finished k).refs = 0) :
      Step s (.complete i status ans)
        ((((s.completeRequest i q (q.frees + 1)).finished k).destroy ans).emit (.closeFinished k))
  | closeEnds {i k : Nat} {status : UcsStatus} {ans : StatusPtr} {q : CloseRequest}
      {obj : Endpoint} (hq : s.requests[i]? = some q) (hnew : q.completed = false)
      (hk : q.closer = .close k) (hlast : ¬ LastRelease s (.complete i status ans))
      (hobj : obj = s.obj ∨ obj = s.obj.closeDone)
      (hrefs : 0 < ((s.completeRequest i q (q.frees + 1)).finished k).refs) :
      Step s (.complete i status ans)
        (St.emit { (s.completeRequest i q (q.frees + 1)).finished k with obj := obj }
          (.closeFinished k))

/-- A request of `error_cb` or `~endpoint` belongs to no coroutine. -/
theorem closer_not_close {q : CloseRequest} {frees : Nat}
    (h : q.closer = .errorCb ∧ frees = q.frees ∨ q.closer = .destructor ∧ frees = q.frees + 1) :
    q.closer.isClose = false := by
  rcases h with ⟨hc, -⟩ | ⟨hc, -⟩
  · rw [hc]
    rfl
  · rw [hc]
    rfl

/-- So nobody gives up a reference when it completes. -/
theorem not_lastRelease_of_closer {s : St} {i : Nat} {q : CloseRequest}
    (hq : s.requests[i]? = some q) (hcloser : q.closer.isClose = false) (status : UcsStatus)
    (ans : StatusPtr) : ¬ LastRelease s (.complete i status ans) := by
  rintro ⟨⟨p, hp, hclose⟩, -⟩
  rw [← Option.some.inj (hq.symm.trans hp), hcloser] at hclose
  cases hclose

/-! ## The steps of the machine -/

theorem through_eq {s s' t : St} {i : Nat} (h : s.through i t = some s') :
    s.holders[i]? = some .pointer ∧ t = s' := by
  unfold St.through at h
  split at h
  · rename_i hi
    exact ⟨hi, Option.some.inj h⟩
  · cases h

theorem withMemory_eq {s s' : St} {i : Nat} {f : RemoteMemoryHandle → St}
    (h : s.withMemory i f = some s') :
    ∃ m, s.holders[i]? = some (.memory m) ∧ f m = s' := by
  unfold St.withMemory at h
  split at h
  · rename_i m hm
    exact ⟨m, hm, Option.some.inj h⟩
  · cases h

/-- A new holder that comes from one that owns a reference, or owns none. -/
theorem hold_step {s : St} {a : Act} {x : Holder} (hidle : Idle s a) (hx : HandleFrom s x)
    (hown : x.owns = true → 0 < s.refs) : Step s a (s.hold x) := by
  refine .holders hidle ?_ ?_
  · intro y hy
    rcases List.mem_append.mp hy with hy | hy
    · exact .inl hy
    · exact List.mem_singleton.mp hy ▸ hx
  · have hrefs : St.refs { s with holders := s.holders ++ [x] } = _ := refs_hold s x
    rw [hrefs]
    cases hx : x.owns with
    | false => simp
    | true =>
      have hpos := hown hx
      simp only [if_true]
      omega

theorem moveMemory_step {s : St} {i : Nat} {m : RemoteMemoryHandle}
    (hm : s.holders[i]? = some (.memory m)) :
    Step s (.moveMemory i)
      (St.hold { s with holders := s.holders.set i (.memory .movedFrom) } (.memory m)) := by
  have hmem := List.mem_of_getElem? hm
  refine .holders trivial ?_ ?_
  · intro x hx
    rcases List.mem_append.mp hx with hx | hx
    · rcases List.mem_or_eq_of_mem_set hx with hx | rfl
      · exact .inl hx
      · exact .inr (.inl rfl)
    · exact .inl (List.mem_singleton.mp hx ▸ hmem)
  · -- the reference goes from one object to the other
    rcases List.getElem?_eq_some_iff.mp hm with ⟨hi, hget⟩
    have hpos : m.endpoint = true → 0 < s.holders.countP Holder.owns :=
      fun hown => List.countP_pos_iff.mpr ⟨_, hmem, hown⟩
    simp only [St.refs, List.countP_append, List.countP_singleton, List.countP_set hi, hget,
      Holder.owns, RemoteMemoryHandle.movedFrom]
    by_cases hown : m.endpoint = true
    · have hpos := hpos hown
      simp only [hown, if_true, Bool.false_eq_true, if_false, Nat.add_zero]
      omega
    · simp [hown]

/-! ## The destructor -/

theorem settleWorker_eq (s : St) :
    s.settleWorker = { s with
      workerAlive := if s.alive = false ∧ s.workerPtrs = 0 then false else s.workerAlive } := by
  unfold St.settleWorker
  split <;> rfl

/-- What `~endpoint` adds to the history. -/
def destructorEvents (s : St) : List Event :=
  .destructor :: if s.obj.destructorCloses then [.epClose .destructor s.obj.ep] else []

/-- The requests that the close call of `~endpoint` returns. -/
def destructorRequests (s : St) (ans : StatusPtr) : List CloseRequest :=
  if s.obj.destructorCloses then returned .destructor ans else []

/-- What holds of the two events of `~endpoint` holds of all that it adds. -/
theorem forall_destructorEvents {P : Event → Prop} (s : St) (hdtor : P .destructor)
    (hclose : ∀ ep : UcpEp, P (.epClose .destructor ep)) : ∀ e ∈ destructorEvents s, P e := by
  intro e he
  rcases List.mem_cons.mp he with rfl | he
  · exact hdtor
  · split at he
    · rw [List.mem_singleton.mp he]
      exact hclose _
    · cases he

theorem destroy_eq (s : St) (ans : StatusPtr) :
    s.destroy ans = { s with
      epOpen := s.epOpen && (!s.obj.destructorCloses || ans.isPtr)
      alive := false
      requests := s.requests ++ destructorRequests s ans
      workerAlive := if s.workerPtrs = 0 then false else s.workerAlive
      log := s.log ++ destructorEvents s } := by
  simp only [St.destroy, settleWorker_eq, destructorRequests, destructorEvents]
  by_cases hcloses : s.obj.destructorCloses = true
  · simp [St.emit, St.closeCall, hcloses]
  · simp [St.emit, hcloses]

theorem destroy_alive (s : St) (ans : StatusPtr) : (s.destroy ans).alive = false := by
  rw [destroy_eq]

/-- `error_cb` closes when there is no request yet. -/
theorem errorCb_closing {s : St} (h : s.obj.errorCbCloses = true) (ans : StatusPtr) :
    errorCb s ans =
      { s.closeCall .errorCb (some s.epH) ans with obj := s.obj.errorCb ans } := by
  simp only [errorCb, h, if_true]

/-- `error_cb` finds a request and does nothing. -/
theorem errorCb_idle {s : St} (h : ¬ s.obj.errorCbCloses = true) (ans : StatusPtr) :
    errorCb s ans = s := by
  simp [errorCb, Endpoint.errorCb_of_not_closes (Bool.eq_false_iff.mpr h), h]

theorem settle_last {s : St} {ans : StatusPtr} (halive : s.alive = true) (hrefs : s.refs = 0) :
    s.settle ans = s.destroy ans :=
  if_pos ⟨halive, hrefs⟩

theorem settle_keep {s : St} {ans : StatusPtr} (h : s.alive = true → 0 < s.refs) :
    s.settle ans = s :=
  if_neg fun ⟨halive, hrefs⟩ => Nat.ne_of_gt (h halive) hrefs

theorem drop_step {s : St} (hinv : Inv s) {i : Nat} {ans : StatusPtr}
    (hi : i < s.holders.length) : Step s (.drop i ans) ((s.dropped i).settle ans) := by
  obtain ⟨x, hx⟩ : ∃ x, s.holders[i]? = some x := ⟨_, List.getElem?_eq_getElem hi⟩
  have hrefs := refs_dropped hx
  by_cases hlast : LastRelease s (.drop i ans)
  · rcases hlast with ⟨⟨y, hy, hown⟩, hone⟩
    obtain rfl : x = y := Option.some.inj (hx.symm.trans hy)
    have hzero : (s.dropped i).refs = 0 := by
      rw [if_pos hown] at hrefs
      omega
    rw [settle_last (s := s.dropped i) (hinv.owned.mpr (refs_pos_of_owner hx hown)) hzero]
    exact .dropLast ⟨⟨x, hx, hown⟩, hone⟩ hzero
  · -- either the holder owns nothing or somebody else has a reference
    have hiff : 0 < (s.dropped i).refs ↔ 0 < s.refs := by
      by_cases hown : x.owns = true
      · have hne : s.refs ≠ 1 := fun hone => hlast ⟨⟨x, hx, hown⟩, hone⟩
        rw [if_pos hown] at hrefs
        omega
      · rw [if_neg hown] at hrefs
        omega
    rw [settle_keep (s := s.dropped i) fun halive => hiff.mpr (hinv.owned.mp halive)]
    exact .holders hlast (fun y hy => .inl (List.mem_of_mem_eraseIdx hy)) hiff

theorem complete_step {s : St} (hinv : Inv s) {i : Nat} {status : UcsStatus} {ans : StatusPtr}
    {q : CloseRequest} (hq : s.requests[i]? = some q) (hnew : q.completed = false)
    (hworker : s.workerAlive = true) :
    Step s (.complete i status ans) (complete s i q status ans) := by
  cases hk : q.closer with
  | errorCb =>
    simp only [complete, hk]
    exact .completeOther hq hnew hworker (.inl ⟨hk, rfl⟩)
  | destructor =>
    simp only [complete, hk]
    exact .completeOther hq hnew hworker (.inr ⟨hk, rfl⟩)
  | close k =>
    have hwait := hinv.pending i q k hq hk hnew
    have halive : s.alive = true := hinv.owned.mpr (refs_pos_of_pending hwait)
    -- the awaitable gives up its reference
    have hrefs : ((s.completeRequest i q (q.frees + 1)).finished k).refs + 1 = s.refs :=
      refs_finished (s := s.completeRequest i q (q.frees + 1)) hwait
    simp only [complete, hk, resumeClose]
    by_cases hlast : LastRelease s (.complete i status ans)
    · have hzero : ((s.completeRequest i q (q.frees + 1)).finished k).refs = 0 := by
        have hone := hlast.2
        omega
      have hstep := Step.closeLast hq hnew hk hlast hzero
      rw [settle_last (s := (s.completeRequest i q (q.frees + 1)).finished k) halive hzero]
      cases status with
      | err e => exact hstep
      | ok | inProgress =>
        rw [if_neg (by rw [destroy_alive]; exact Bool.false_ne_true)]
        exact hstep
    · have hpos : 0 < ((s.completeRequest i q (q.frees + 1)).finished k).refs := by
        have hne : s.refs ≠ 1 := fun hone => hlast ⟨⟨q, hq, by rw [hk]; rfl⟩, hone⟩
        omega
      rw [settle_keep fun _ => hpos]
      cases status with
      | err e => exact .closeEnds hq hnew hk hlast (.inl rfl) hpos
      | ok | inProgress =>
        replace halive : ((s.completeRequest i q (q.frees + 1)).finished k).alive = true := halive
        rw [if_pos halive]
        exact .closeEnds hq hnew hk hlast (.inr rfl) hpos

/-- The effect of every step is one of those listed. -/
theorem step_cases {s s' : St} {a : Act} (hinv : Inv s) (h : next s a = some s') :
    Step s a s' := by
  cases a with
  | copy i =>
    simp only [next, Option.ite_none_right_eq_some] at h
    rcases h with ⟨⟨x, hx, hlends⟩, h⟩
    obtain rfl := Option.some.inj h
    exact hold_step trivial (.inr trivial) fun _ => refs_pos_of_owner hx (lends_owns hlends)
  | unpack i rkey =>
    rcases through_eq h with ⟨hi, rfl⟩
    exact hold_step trivial (.inr (.inr (.inl rfl))) fun _ => refs_pos_of_owner hi rfl
  | moveMemory i =>
    rcases withMemory_eq h with ⟨m, hm, rfl⟩
    exact moveMemory_step hm
  | endpointCall i c =>
    rcases through_eq h with ⟨hi, rfl⟩
    have hfrom : HandleFrom s (.operation (s.obj.call c)) :=
      .inr ⟨_, s.obj.call_ep? c, .inr (.inl rfl)⟩
    exact hold_step trivial hfrom fun h => nomatch h
  | flush i =>
    rcases through_eq h with ⟨hi, rfl⟩
    exact hold_step trivial (.inr trivial) fun _ => refs_pos_of_owner hi rfl
  | memoryCall i c =>
    rcases withMemory_eq h with ⟨m, hm, rfl⟩
    have hfrom : HandleFrom s (.operation (m.call c)) :=
      .inr ⟨_, m.call_ep? c, .inr (.inr ⟨_, List.mem_of_getElem? hm, rfl⟩)⟩
    exact hold_step trivial hfrom fun h => nomatch h
  | await i =>
    rcases Option.map_eq_some_iff.mp h with ⟨op, hop, rfl⟩
    exact .await hop
  | drop i ans =>
    simp only [next, Option.ite_none_right_eq_some] at h
    rcases h with ⟨hi, h⟩
    obtain rfl := Option.some.inj h
    exact drop_step hinv hi
  | copyWorker =>
    simp only [next, Option.ite_none_right_eq_some] at h
    rcases h with ⟨hor, h⟩
    obtain rfl := Option.some.inj h
    refine .copyWorker (hor.imp id fun hmem => ?_)
    rcases List.mem_iff_getElem?.mp hmem with ⟨i, hi⟩
    exact refs_pos_of_owner hi rfl
  | dropWorker =>
    simp only [next, Option.ite_none_right_eq_some] at h
    rcases h with ⟨hpos, h⟩
    obtain rfl := Option.some.inj h
    exact .dropWorker hpos
  | close i ans =>
    rcases through_eq h with ⟨hi, rfl⟩
    exact .close hi
  | errorCb ans =>
    simp only [next, Option.ite_none_right_eq_some] at h
    rcases h with ⟨⟨halive, hopen⟩, h⟩
    obtain rfl := Option.some.inj h
    exact .errorCb halive hopen
  | complete i status ans =>
    simp only [next] at h
    split at h
    · rename_i q hq
      simp only [Option.ite_none_right_eq_some] at h
      rcases h with ⟨⟨hworker, hnew⟩, h⟩
      obtain rfl := Option.some.inj h
      exact complete_step hinv hq hnew hworker
    · cases h

/-! ## Close calls -/

/-- The handle that an event passes to a UCX close function. -/
def Event.closed? : Event → Option UcpEp
  | .epClose _ ep => some ep
  | .issued _ | .closeStarted _ | .closeFinished _ | .destructor => none

/-- The handles that have been passed to a UCX close function. -/
def St.closeCalls (s : St) : List UcpEp :=
  s.log.filterMap Event.closed?

@[simp] theorem closeCalls_emit (s : St) {e : Event} (he : e.closed? = none) :
    (s.emit e).closeCalls = s.closeCalls := by
  simp [St.closeCalls, St.emit, he]

@[simp] theorem closeCalls_closeCall (s : St) (closer : Closer) (ep : UcpEp) (ans : StatusPtr) :
    (s.closeCall closer ep ans).closeCalls = s.closeCalls ++ [ep] := by
  simp [St.closeCalls, St.closeCall, Event.closed?]

theorem closeCalls_destroy (s : St) (ans : StatusPtr) :
    (s.destroy ans).closeCalls =
      s.closeCalls ++ if s.obj.destructorCloses then [s.obj.ep] else [] := by
  rw [destroy_eq]
  simp only [St.closeCalls, List.filterMap_append, destructorEvents]
  cases s.obj.destructorCloses <;> rfl

theorem closeCalls_errorCb (s : St) (ans : StatusPtr) :
    (errorCb s ans).closeCalls =
      s.closeCalls ++ if s.obj.errorCbCloses then [some s.epH] else [] := by
  unfold errorCb
  cases s.obj.errorCbCloses with
  | true => exact closeCalls_closeCall s .errorCb (some s.epH) ans
  | false => exact (List.append_nil _).symm

/-- What `close()` adds to the history before it suspends or finishes. -/
def closeEvents (s : St) (ans : StatusPtr) : List Event :=
  [.closeStarted s.closes.length, .epClose (.close s.closes.length) s.obj.ep] ++
    if ans.isPtr then [] else [.closeFinished s.closes.length]

theorem close_log (s : St) (ans : StatusPtr) :
    (close s ans).log = s.log ++ closeEvents s ans := by
  cases ans <;> simp [close, closeEvents, St.emit, St.closeCall, StatusPtr.isPtr, Endpoint.handle]

theorem close_closes (s : St) (ans : StatusPtr) : (close s ans).closes =
    s.closes ++ [if ans.isPtr then .pending s.requests.length else .finished] := by
  cases ans <;> rfl

theorem closeCalls_close (s : St) (ans : StatusPtr) :
    (close s ans).closeCalls = s.closeCalls ++ [s.obj.ep] := by
  rw [St.closeCalls, close_log, List.filterMap_append]
  cases ans <;> rfl

/-- The history only grows. -/
theorem step_history {s s' : St} {a : Act} (h : Step s a s') : ∃ es, s'.log = s.log ++ es := by
  cases h with
  | holders | copyWorker | completeOther => exact ⟨[], (List.append_nil _).symm⟩
  | dropWorker =>
    rw [settleWorker_eq]
    exact ⟨[], (List.append_nil _).symm⟩
  | await | closeEnds => exact ⟨_, rfl⟩
  | dropLast =>
    rw [destroy_eq]
    exact ⟨_, rfl⟩
  | @close i ans => exact ⟨_, close_log s ans⟩
  | errorCb =>
    unfold errorCb
    split
    · exact ⟨_, rfl⟩
    · exact ⟨[], (List.append_nil _).symm⟩
  | closeLast =>
    rw [destroy_eq]
    exact ⟨_, List.append_assoc ..⟩

/-! ## The invariant is kept -/

theorem returned_eq (closer : Closer) (ans : StatusPtr) :
    returned closer ans = [] ∨ ∃ r, returned closer ans = [⟨r, closer, false, 0⟩] := by
  cases ans with
  | null | err => exact .inl rfl
  | request r => exact .inr ⟨r, rfl⟩

/-- A request that no coroutine waits for is added. -/
theorem Linked.append {cs : List CloseState} {rs : List CloseRequest} (h : Linked cs rs)
    {closer : Closer} (hcloser : closer.isClose = false) (ans : StatusPtr) :
    Linked cs (rs ++ returned closer ans) := by
  rcases returned_eq closer ans with hnone | ⟨r, hone⟩
  · rw [hnone, List.append_nil]
    exact h
  · rw [hone]
    constructor
    · intro k i hk
      rcases h.waiting k i hk with ⟨q, hq, hcq, hnew⟩
      exact ⟨q, getElem?_concat.mpr (.inl hq), hcq, hnew⟩
    · intro i q k hq hk hnew
      rcases getElem?_concat.mp hq with hq | ⟨-, rfl⟩
      · exact h.pending i q k hq hk hnew
      · rw [show closer = .close k from hk] at hcloser
        cases hcloser

/-- A `close()` coroutine starts, and waits if UCX returned a request. -/
theorem Linked.start {cs : List CloseState} {rs : List CloseRequest} (h : Linked cs rs)
    (ans : StatusPtr) :
    Linked (cs ++ [if ans.isPtr then .pending rs.length else .finished])
      (rs ++ returned (.close cs.length) ans) := by
  cases ans with
  | request r =>
    constructor
    · intro k i hk
      rcases getElem?_concat.mp hk with hk | ⟨rfl, heq⟩
      · rcases h.waiting k i hk with ⟨q, hq, hcq, hnew⟩
        exact ⟨q, getElem?_concat.mpr (.inl hq), hcq, hnew⟩
      · obtain rfl : rs.length = i := CloseState.pending.inj heq
        exact ⟨_, getElem?_concat.mpr (.inr ⟨rfl, rfl⟩), rfl, rfl⟩
    · intro i q k hq hk hnew
      rcases getElem?_concat.mp hq with hq | ⟨rfl, rfl⟩
      · exact getElem?_concat.mpr (.inl (h.pending i q k hq hk hnew))
      · obtain rfl : cs.length = k := Closer.close.inj hk
        exact getElem?_concat.mpr (.inr ⟨rfl, rfl⟩)
  | null | err =>
    simp only [returned, List.append_nil]
    constructor
    · intro k i hk
      rcases getElem?_concat.mp hk with hk | ⟨rfl, heq⟩
      · exact h.waiting k i hk
      · cases heq
    · intro i q k hq hk hnew
      exact getElem?_concat.mpr (.inl (h.pending i q k hq hk hnew))

/-- A request completes that no coroutine waits for. -/
theorem Linked.complete {cs : List CloseState} {rs : List CloseRequest} (h : Linked cs rs)
    {i : Nat} {q q' : CloseRequest} (hq : rs[i]? = some q) (hcloser : q.closer.isClose = false)
    (hdone : q'.completed = true) : Linked cs (rs.set i q') := by
  constructor
  · intro k j hk
    rcases h.waiting k j hk with ⟨p, hp, hcp, hnew⟩
    have hne : i ≠ j := by
      rintro rfl
      rw [Option.some.inj (hq.symm.trans hp), hcp] at hcloser
      cases hcloser
    exact ⟨p, (List.getElem?_set_ne hne).trans hp, hcp, hnew⟩
  · intro j p k hp hk hnew
    rw [List.getElem?_set] at hp
    split at hp
    · split at hp
      · rw [← Option.some.inj hp, hdone] at hnew
        cases hnew
      · cases hp
    · exact h.pending j p k hp hk hnew

/-- The request of coroutine `k` completes, and the coroutine finishes. -/
theorem Linked.finish {cs : List CloseState} {rs : List CloseRequest} (h : Linked cs rs)
    {i k : Nat} {q q' : CloseRequest} (hq : rs[i]? = some q) (hk : q.closer = .close k)
    (hnew : q.completed = false) (hdone : q'.completed = true) :
    Linked (cs.set k .finished) (rs.set i q') := by
  constructor
  · intro l j hl
    rw [List.getElem?_set] at hl
    split at hl
    · split at hl <;> cases hl
    · rename_i hkl
      rcases h.waiting l j hl with ⟨p, hp, hcp, hpnew⟩
      have hne : i ≠ j := by
        rintro rfl
        rw [← Option.some.inj (hq.symm.trans hp), hk] at hcp
        exact hkl (Closer.close.inj hcp)
      exact ⟨p, (List.getElem?_set_ne hne).trans hp, hcp, hpnew⟩
  · intro j p l hp hl hpnew
    rw [List.getElem?_set] at hp
    split at hp
    · split at hp
      · rw [← Option.some.inj hp, hdone] at hpnew
        cases hpnew
      · cases hp
    · rename_i hij
      have hwait := h.pending j p l hp hl hpnew
      have hne : k ≠ l := by
        rintro rfl
        -- both requests would be the one that coroutine `k` waits for
        have hsame := (h.pending i q k hq hk hnew).symm.trans hwait
        exact hij (CloseState.pending.inj (Option.some.inj hsame))
      exact (List.getElem?_set_ne hne).trans hwait

/-- The destructor runs when there is no reference left. -/
theorem destroy_inv {s : St} (hlinked : Linked s.closes s.requests) (hrefs : s.refs = 0)
    (hworker : s.workerAlive = true) (ans : StatusPtr) : Inv (s.destroy ans) := by
  rw [destroy_eq]
  refine ⟨?_, ?_, ?_⟩
  · unfold destructorRequests
    split
    · exact hlinked.append rfl ans
    · rw [List.append_nil]
      exact hlinked
  · exact iff_of_false Bool.false_ne_true (fun hpos => Nat.ne_of_gt hpos hrefs)
  · show (if s.workerPtrs = 0 then false else s.workerAlive) = true ↔
      false = true ∨ 0 < s.workerPtrs
    by_cases hzero : s.workerPtrs = 0
    · simp [hzero]
    · simp only [hzero, if_false, hworker, true_iff]
      omega

/-- An event does not matter to the invariant. -/
theorem Inv.emit {s : St} (h : Inv s) (e : Event) : Inv (s.emit e) :=
  ⟨h.toLinked, h.owned, h.worker⟩

theorem close_inv {s : St} (hinv : Inv s) {i : Nat} (hi : s.holders[i]? = some .pointer)
    (ans : StatusPtr) : Inv (close s ans) := by
  have hrefs := refs_pos_of_owner hi rfl
  have halive := hinv.owned.mpr hrefs
  have hlinked := hinv.toLinked.start ans
  have hpos : 0 < s.holders.countP Holder.owns + (s.closes ++
      [if ans.isPtr then CloseState.pending s.requests.length else .finished]).countP
        CloseState.isPending := by
    unfold St.refs at hrefs
    rw [List.countP_append]
    omega
  cases ans with
  | null | err | request =>
    exact ⟨hlinked, iff_of_true halive hpos, hinv.worker⟩

theorem step_inv {s s' : St} {a : Act} (hinv : Inv s) (h : Step s a s') : Inv s' := by
  cases h with
  | holders hidle hfrom hrefs => exact ⟨hinv.toLinked, hinv.owned.trans hrefs.symm, hinv.worker⟩
  | copyWorker hor =>
    refine ⟨hinv.toLinked, hinv.owned, ?_⟩
    have hworker := hinv.worker
    have howned := hinv.owned
    refine iff_of_true (hworker.mpr ?_) (.inr (Nat.succ_pos _))
    exact hor.elim .inr (fun hpos => .inl (howned.mpr hpos))
  | dropWorker hpos =>
    rw [settleWorker_eq]
    refine ⟨hinv.toLinked, hinv.owned, ?_⟩
    have hworker := hinv.worker.mpr (.inr hpos)
    show (if s.alive = false ∧ s.workerPtrs - 1 = 0 then false else s.workerAlive) = true ↔
      s.alive = true ∨ 0 < s.workerPtrs - 1
    cases s.alive with
    | true => simp [hworker]
    | false =>
      by_cases hlast : s.workerPtrs - 1 = 0
      · simp [hlast]
      · simp [hlast, hworker]
        omega
  | await hop => exact hinv.emit _
  | dropLast hlast hrefs =>
    have halive := hinv.alive_of_last hlast
    exact destroy_inv (s := s.dropped _) hinv.toLinked hrefs (hinv.worker.mpr (.inl halive)) _
  | close hi => exact close_inv hinv hi _
  | @errorCb ans halive hopen =>
    unfold errorCb
    split
    · exact ⟨hinv.toLinked.append rfl ans, hinv.owned, hinv.worker⟩
    · exact ⟨hinv.toLinked, hinv.owned, hinv.worker⟩
  | completeOther hq hnew hworker hfrees =>
    have hcloser := closer_not_close hfrees
    exact ⟨hinv.toLinked.complete hq hcloser rfl, hinv.owned, hinv.worker⟩
  | closeLast hq hnew hk hlast hrefs =>
    have halive := hinv.alive_of_last hlast
    refine (destroy_inv ?_ hrefs (hinv.worker.mpr (.inl halive)) _).emit _
    exact hinv.toLinked.finish hq hk hnew rfl
  | closeEnds hq hnew hk hlast hobj hrefs =>
    refine ⟨hinv.toLinked.finish hq hk hnew rfl, ?_, hinv.worker⟩
    have halive := hinv.owned.mpr (refs_pos_of_pending (hinv.pending _ _ _ hq hk hnew))
    exact iff_of_true halive hrefs

/-- The invariant holds along every run. -/
theorem safety {mem : Endpoint} {epH : Nat} {as : List Act} {s : St}
    (hrun : Lts.run next (.init mem epH) as = some s) : Inv s :=
  Lts.run_invariant (P := fun _ _ => True) Inv
    (fun _ _ _ hinv _ h => step_inv hinv (step_cases hinv h)) (init_inv mem epH)
    (Lts.stepsMeet_true _ _) hrun

end Ucxpp.EndpointRun
