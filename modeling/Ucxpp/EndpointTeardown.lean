import Ucxpp.EndpointClosed

/-!
# EndpointTeardown — what has become of an endpoint when its worker goes

The handle should have been closed and every request of a close call completed
and freed by the time of `ucp_worker_destroy`. Three things get in the way: a
`close_request_` that the constructor leaves with something in it makes
`~endpoint` skip the close, the request of `ucp_ep_close_nb` is kept by
`error_cb` and never freed, and `~endpoint` lets go of the worker, perhaps as
the last to refer to it, right after it has started a close.
`ClosesForGood` excludes just these.
-/

namespace Ucxpp.EndpointRun

/-- Once the worker has been destroyed, the handle has been passed to a close
function, and every request has completed and been freed exactly once. The
destruction is the last thing in its step, and no request completes after it. -/
def ClosedForGood (s : St) : Prop :=
  s.workerAlive = false →
    some s.epH ∈ s.closeCalls ∧ ∀ q ∈ s.requests, q.completed = true ∧ q.frees = 1

instance (s : St) : Decidable (ClosedForGood s) :=
  inferInstanceAs (Decidable (_ → _ ∧ _))

/-- `~endpoint` finds a request only after `close()` has been called, and if
its own close takes time, the user has a pointer to the worker left. -/
def DestructorCloses (s : St) (ans : StatusPtr) : Prop :=
  (s.closes = [] → s.obj.ep ≠ none → s.obj.closeRequest = none) ∧
    (s.obj.destructorCloses = true → ans.isPtr = true → s.workerPtrs ≠ 0)

instance (s : St) (ans : StatusPtr) : Decidable (DestructorCloses s ans) :=
  inferInstanceAs (Decidable (_ ∧ _))

/-- The close that `error_cb` starts is over at once, `~endpoint` closes what
has to be closed, and the user does not let go of the worker, as the last to
refer to it, before the close that `~endpoint` started is over. -/
def ClosesForGood (s : St) (a : Act) : Prop :=
  match a with
  | .errorCb ans => s.obj.errorCbCloses = true → ans.isPtr = false
  | .drop i ans => LastRelease s (.drop i ans) → DestructorCloses s ans
  | .complete i status ans => LastRelease s (.complete i status ans) → DestructorCloses s ans
  | .dropWorker => s.alive = false → s.workerPtrs = 1 → ∀ q ∈ s.requests, q.completed = true
  | _ => True

instance (s : St) : (a : Act) → Decidable (ClosesForGood s a)
  | .errorCb ans => inferInstanceAs (Decidable (s.obj.errorCbCloses = true → ans.isPtr = false))
  | .drop i ans =>
    inferInstanceAs (Decidable (LastRelease s (.drop i ans) → DestructorCloses s ans))
  | .complete i status ans =>
    inferInstanceAs (Decidable (LastRelease s (.complete i status ans) → DestructorCloses s ans))
  | .dropWorker => inferInstanceAs (Decidable
      (s.alive = false → s.workerPtrs = 1 → ∀ q ∈ s.requests, q.completed = true))
  | .copy _ | .unpack .. | .moveMemory _ | .endpointCall .. | .flush _ | .memoryCall .. | .await _
  | .copyWorker | .close .. => .isTrue trivial

/-! ## The invariant -/

/-- Somebody waits for the request with a callback that frees it, or it has
completed and been freed once. -/
def CloseRequest.Tracked (alive : Bool) (q : CloseRequest) : Prop :=
  (q.closer.isClose = true ∨ q.closer = .destructor ∧ alive = false) ∧
    q.frees = if q.completed then 1 else 0

/-- The handle is closed, or `close()` has not been called and `ep_` still is
the handle; requests are tracked; and after the endpoint and the worker are
gone nothing is left open. -/
structure Accounted (s : St) : Prop where
  called : some s.epH ∈ s.closeCalls ∨ s.obj.ep = some s.epH ∧ s.closes = []
  tracked : ∀ q ∈ s.requests, q.Tracked s.alive
  dead : s.alive = false → some s.epH ∈ s.closeCalls
  gone : s.workerAlive = false → ∀ q ∈ s.requests, q.completed = true

theorem init_accounted (mem : Endpoint) (epH : Nat) : Accounted (.init mem epH) where
  called := .inr ⟨rfl, rfl⟩
  tracked := fun _ h => nomatch h
  dead := fun h => nomatch h
  gone := fun h => nomatch h

theorem Accounted.closedForGood {s : St} (hinv : Inv s) (h : Accounted s) : ClosedForGood s := by
  intro hworker
  have halive : s.alive = false := by
    have hnot : ¬ s.alive = true := fun ha =>
      Bool.false_ne_true (hworker.symm.trans (hinv.worker.mpr (.inl ha)))
    exact Bool.eq_false_iff.mpr hnot
  refine ⟨h.dead halive, fun q hq => ?_⟩
  have hdone := h.gone hworker q hq
  refine ⟨hdone, ?_⟩
  rw [(h.tracked q hq).2, if_pos hdone]

/-- With no reference left, no request of a `close()` coroutine is pending. -/
theorem completed_of_refs {s : St} (hlinked : Linked s.closes s.requests) (hrefs : s.refs = 0)
    {q : CloseRequest} (hq : q ∈ s.requests) (hclose : q.closer.isClose = true) :
    q.completed = true := by
  by_contra hnew
  rcases List.mem_iff_getElem?.mp hq with ⟨i, hi⟩
  cases hk : q.closer with
  | errorCb | destructor =>
    rw [hk] at hclose
    cases hclose
  | close k =>
    have hwait := hlinked.pending i q k hi hk (Bool.eq_false_iff.mpr hnew)
    exact Nat.ne_of_gt (refs_pos_of_pending hwait) hrefs

theorem destroy_accounted {s : St} (hlinked : Linked s.closes s.requests) (hacc : Accounted s)
    (halive : s.alive = true) (hthere : s.workerAlive = true) (hrefs : s.refs = 0)
    {ans : StatusPtr} (hcloses : DestructorCloses s ans) : Accounted (s.destroy ans) := by
  rcases hcloses with ⟨hfinds, hkeeps⟩
  have hcalls := closeCalls_destroy s ans
  -- either the handle has been closed before, or the destructor does it now
  have hclosed : some s.epH ∈ (s.destroy ans).closeCalls := by
    rw [hcalls]
    rcases hacc.called with hmem | ⟨hep, hnil⟩
    · exact List.mem_append_left _ hmem
    · have hnone := hfinds hnil (by rw [hep]; simp)
      have hd : s.obj.destructorCloses = true := by
        simp [Endpoint.destructorCloses, hep, hnone]
      rw [if_pos hd, hep]
      exact List.mem_append_right _ (List.mem_singleton_self _)
  have hepH : (s.destroy ans).epH = s.epH := by rw [destroy_eq]
  have hold : ∀ q ∈ s.requests, q.closer.isClose = true := by
    intro q hq
    rcases (hacc.tracked q hq).1 with hclose | ⟨-, hdead⟩
    · exact hclose
    · rw [halive] at hdead
      cases hdead
  have hnew : ∀ q ∈ destructorRequests s ans, s.obj.destructorCloses = true ∧
      ans.isPtr = true ∧ q.closer = .destructor ∧ q.completed = false ∧ q.frees = 0 := by
    intro q hq
    unfold destructorRequests at hq
    split at hq
    · rename_i hd
      cases ans with
      | null | err => cases hq
      | request r =>
        obtain rfl := List.mem_singleton.mp hq
        exact ⟨hd, rfl, rfl, rfl, rfl⟩
    · cases hq
  refine ⟨.inl (hepH ▸ hclosed), ?_, fun _ => hepH ▸ hclosed, ?_⟩
  · intro q hq
    rw [destroy_eq] at hq ⊢
    rcases List.mem_append.mp hq with hq | hq
    · exact ⟨.inl (hold q hq), (hacc.tracked q hq).2⟩
    · rcases hnew q hq with ⟨-, -, hdtor, hpend, hfrees⟩
      refine ⟨.inr ⟨hdtor, rfl⟩, ?_⟩
      rw [hpend, hfrees]
      rfl
  · intro hworker q hq
    rw [destroy_eq] at hworker hq
    rcases List.mem_append.mp hq with hq | hq
    · exact completed_of_refs hlinked hrefs hq (hold q hq)
    · -- the worker would still be there
      rcases hnew q hq with ⟨hd, hptr, -⟩
      rw [if_neg (hkeeps hd hptr), hthere] at hworker
      cases hworker

theorem Accounted.emit {s : St} (h : Accounted s) {e : Event} (he : e.closed? = none) :
    Accounted (s.emit e) where
  called := (closeCalls_emit s he).symm ▸ h.called
  tracked := h.tracked
  dead := (closeCalls_emit s he).symm ▸ h.dead
  gone := h.gone

theorem close_accounted {s : St} (hacc : Accounted s) (hthere : s.workerAlive = true)
    (ans : StatusPtr) : Accounted (close s ans) := by
  have hcalls := closeCalls_close s ans
  have hepH : (close s ans).epH = s.epH := by cases ans <;> rfl
  have hsame : (close s ans).alive = s.alive ∧ (close s ans).workerAlive = s.workerAlive ∧
      (close s ans).requests = s.requests ++ returned (.close s.closes.length) ans := by
    cases ans <;> exact ⟨rfl, rfl, rfl⟩
  rcases hsame with ⟨halive, hworker, hrequests⟩
  have hcalled : some s.epH ∈ (close s ans).closeCalls := by
    rw [hcalls]
    rcases hacc.called with hmem | ⟨hep, -⟩
    · exact List.mem_append_left _ hmem
    · rw [hep]
      exact List.mem_append_right _ (List.mem_singleton_self _)
  refine ⟨.inl (hepH ▸ hcalled), ?_, fun _ => hepH ▸ hcalled, ?_⟩
  · intro q hq
    rw [hrequests] at hq
    rw [halive]
    rcases List.mem_append.mp hq with hq | hq
    · exact hacc.tracked q hq
    · rcases returned_eq (.close s.closes.length) ans with hnone | ⟨r, hone⟩
      · rw [hnone] at hq
        cases hq
      · rw [hone] at hq
        obtain rfl := List.mem_singleton.mp hq
        exact ⟨.inl rfl, rfl⟩
  · intro hgone
    rw [hworker, hthere] at hgone
    cases hgone

theorem errorCb_accounted {s : St} (hacc : Accounted s) {ans : StatusPtr}
    (hdone : s.obj.errorCbCloses = true → ans.isPtr = false) : Accounted (errorCb s ans) := by
  have hcalls := closeCalls_errorCb s ans
  by_cases hcb : s.obj.errorCbCloses = true
  · have hnone : returned .errorCb ans = [] := by
      cases ans with
      | null | err => rfl
      | request r => cases hdone hcb
    have hcall := errorCb_closing hcb ans
    have hrequests : (errorCb s ans).requests = s.requests := by
      rw [hcall]
      exact (congrArg _ hnone).trans (List.append_nil _)
    have hcalled : some s.epH ∈ (errorCb s ans).closeCalls := by
      rw [hcalls, if_pos hcb]
      exact List.mem_append_right _ (List.mem_singleton_self _)
    have hepH : (errorCb s ans).epH = s.epH := by rw [hcall]; rfl
    refine ⟨.inl (hepH ▸ hcalled), ?_, fun _ => hepH ▸ hcalled, ?_⟩
    · rw [hrequests]
      rw [hcall]
      exact hacc.tracked
    · rw [hrequests]
      rw [hcall]
      exact hacc.gone
  · rw [errorCb_idle hcb]
    exact hacc

/-- A request completes, and its callback has freed it. -/
theorem completeRequest_accounted {s : St} (hacc : Accounted s) {i : Nat} {q : CloseRequest}
    (hq : s.requests[i]? = some q) (hnew : q.completed = false) :
    Accounted (s.completeRequest i q (q.frees + 1)) where
  called := hacc.called
  dead := hacc.dead
  tracked := by
    intro p hp
    rcases List.mem_or_eq_of_mem_set hp with hp | rfl
    · exact hacc.tracked p hp
    · rcases hacc.tracked q (List.mem_of_getElem? hq) with ⟨hcloser, hfrees⟩
      rw [hnew] at hfrees
      exact ⟨hcloser, congrArg (· + 1) hfrees⟩
  gone := by
    intro hworker p hp
    rcases List.mem_or_eq_of_mem_set hp with hp | rfl
    · exact hacc.gone hworker p hp
    · rfl

/-- A `close()` coroutine finishes. It has been called, so the handle has been
closed already. -/
theorem finished_accounted {s : St} (hacc : Accounted s) {i k : Nat}
    (hwait : s.closes[k]? = some (.pending i)) (obj : Endpoint) :
    Accounted { s.finished k with obj := obj } := by
  refine ⟨?_, hacc.tracked, hacc.dead, hacc.gone⟩
  rcases hacc.called with hmem | ⟨-, hnil⟩
  · exact .inl hmem
  · rw [hnil] at hwait
    cases hwait

theorem step_accounted {s s' : St} {a : Act} (hinv : Inv s) (hacc : Accounted s)
    (hcloses : ClosesForGood s a) (h : Step s a s') : Accounted s' := by
  cases h with
  | holders | copyWorker => exact ⟨hacc.called, hacc.tracked, hacc.dead, hacc.gone⟩
  | dropWorker hpos =>
    rw [settleWorker_eq]
    refine ⟨hacc.called, hacc.tracked, hacc.dead, ?_⟩
    intro hworker
    by_cases hlast : s.alive = false ∧ s.workerPtrs - 1 = 0
    · exact hcloses hlast.1 (by omega)
    · exact hacc.gone ((if_neg hlast).symm.trans hworker)
  | await => exact hacc.emit rfl
  | @dropLast i ans hlast hrefs =>
    have halive := hinv.alive_of_last hlast
    have hacc' : Accounted (s.dropped i) := ⟨hacc.called, hacc.tracked, hacc.dead, hacc.gone⟩
    exact destroy_accounted (s := s.dropped i) hinv.toLinked hacc' halive
      (hinv.worker.mpr (.inl halive)) hrefs (hcloses hlast)
  | close hi =>
    have halive := hinv.owned.mpr (refs_pos_of_owner hi rfl)
    exact close_accounted hacc (hinv.worker.mpr (.inl halive)) _
  | errorCb => exact errorCb_accounted hacc hcloses
  | @completeOther i status ans q frees hq hnew hworker hfrees =>
    rcases hfrees with ⟨hc, -⟩ | ⟨-, rfl⟩
    · -- there is no such request
      rcases (hacc.tracked q (List.mem_of_getElem? hq)).1 with hclose | ⟨hdtor, -⟩
      · rw [hc] at hclose
        cases hclose
      · cases hc.symm.trans hdtor
    · exact completeRequest_accounted hacc hq hnew
  | @closeLast i k status ans q hq hnew hk hlast hrefs =>
    have halive := hinv.alive_of_last hlast
    have hwait := hinv.pending i q k hq hk hnew
    have hacc' := finished_accounted (completeRequest_accounted hacc hq hnew) hwait s.obj
    rcases hcloses hlast with ⟨-, hkeeps⟩
    refine (destroy_accounted (hinv.toLinked.finish hq hk hnew rfl) hacc' halive
      (hinv.worker.mpr (.inl halive)) hrefs ⟨?_, hkeeps⟩).emit rfl
    -- `close()` has been called
    intro hnil
    have hlen := congrArg List.length hnil
    rw [show ((s.completeRequest i q (q.frees + 1)).finished k).closes =
      s.closes.set k .finished from rfl, List.length_set] at hlen
    rw [List.eq_nil_of_length_eq_zero hlen] at hwait
    cases hwait
  | @closeEnds i k status ans q obj hq hnew hk hlast hobj hrefs =>
    have hwait := hinv.pending i q k hq hk hnew
    exact (finished_accounted (completeRequest_accounted hacc hq hnew) hwait obj).emit rfl

/-! ## Whole runs -/

/-- In every run whose steps meet `ClosesForGood`, the endpoint has been closed
by the time its worker is destroyed, and no request is left. -/
theorem closed_for_good (mem : Endpoint) (epH : Nat) (as : List Act) {s : St}
    (hcloses : Lts.StepsMeet next ClosesForGood (.init mem epH) as)
    (hrun : Lts.run next (.init mem epH) as = some s) : ClosedForGood s := by
  have hboth : Inv s ∧ Accounted s := by
    refine Lts.run_invariant (fun s => Inv s ∧ Accounted s) ?_
      ⟨init_inv mem epH, init_accounted mem epH⟩ hcloses hrun
    rintro s a s' ⟨hinv, hacc⟩ hP hs
    have hstep := step_cases hinv hs
    exact ⟨step_inv hinv hstep, step_accounted hinv hacc hP hstep⟩
  exact hboth.2.closedForGood hboth.1

/-- The close of `~endpoint` takes time, and the user progresses the worker
until it is over. -/
theorem closed_for_good_by_destructor :
    ∃ s, Lts.run next (.init ⟨none, none⟩ 1)
        [.drop 0 (.request 7), .complete 0 .ok .null, .dropWorker] = some s ∧
      s.workerAlive = false ∧ ClosedForGood s := by
  refine ⟨_, rfl, rfl, ?_⟩
  exact closed_for_good ⟨none, none⟩ 1 [.drop 0 (.request 7), .complete 0 .ok .null, .dropWorker]
    (by decide) rfl

/-- The memory of the endpoint held something where `close_request_` is:
nothing ever closes the handle. -/
theorem never_closed_after_garbage :
    ¬ ∀ (mem : Endpoint) (epH : Nat) (as : List Act) (s : St),
      Lts.StepsMeet next CallsCloseOnce (.init mem epH) as →
        Lts.run next (.init mem epH) as = some s → ClosedForGood s := by
  intro hall
  have hgood := hall ⟨none, some 5⟩ 1 [.drop 0 .null, .dropWorker] _ (by decide) rfl
  revert hgood
  decide

end Ucxpp.EndpointRun
