import Ucxpp.EndpointClosed
import Ucxpp.Lib.Trace

/-!
# EndpointUse — which handles operations hand to UCX

An operation takes its handle from `ep_` or from a copy of it, when the member
is called or when the awaitable is awaited, and hands it to UCX as it is. When
`error_cb` has closed the handle meanwhile, `ep_` is null or a closed handle,
and no copy knows. `UsesOpen` is the test that none of the operations makes,
and `issued_open` shows that it is the exact condition for handing over a
handle that is open.
-/

namespace Ucxpp.EndpointRun

/-- The operation hands over a handle that no close call in `past` was made
on. -/
def IssuesOpen (past : List Event) (op : Operation) : Prop :=
  ∃ h : Nat, op.ep? = some (some h) ∧ some h ∉ past.filterMap Event.closed?

/-- Every operation handed to UCX had an open handle at that time. -/
def IssuedOpen (log : List Event) : Prop :=
  Trace.Each (fun past e => ∀ op, e = .issued op → IssuesOpen past op) log

/-- The user does not call `close()`. -/
def NeverCloses (_ : St) : Act → Prop
  | .close .. => False
  | _ => True

instance (s : St) : (a : Act) → Decidable (NeverCloses s a)
  | .close .. => .isFalse id
  | .copy _ | .unpack .. | .moveMemory _ | .endpointCall .. | .flush _ | .memoryCall .. | .await _
  | .drop .. | .copyWorker | .dropWorker | .errorCb _ | .complete .. => .isTrue trivial

/-- The fields are as the constructor left them, and the object is still there
or its destructor did not close because it took what it found in
`close_request_` for a request. -/
def Untouched (mem : Endpoint) (s : St) : Prop :=
  s.obj = .construct mem s.epH ∧ (s.alive = true ∨ mem.closeRequest ≠ none)

instance (mem : Endpoint) (s : St) : Decidable (Untouched mem s) :=
  inferInstanceAs (Decidable (_ ∧ _))

/-- An operation is awaited only while its handle is not null and the endpoint
is untouched. -/
def UsesOpen (mem : Endpoint) (s : St) : Act → Prop
  | .await i => ∀ op ∈ s.awaited i, op.ep? ≠ some none ∧ Untouched mem s
  | _ => True

instance (mem : Endpoint) (s : St) : (a : Act) → Decidable (UsesOpen mem s a)
  | .await i =>
    inferInstanceAs (Decidable (∀ op ∈ s.awaited i, op.ep? ≠ some none ∧ Untouched mem s))
  | .copy _ | .unpack .. | .moveMemory _ | .endpointCall .. | .flush _ | .memoryCall ..
  | .drop .. | .copyWorker | .dropWorker | .close .. | .errorCb _ | .complete .. => .isTrue trivial

/-! ## The history -/

def Event.isIssued : Event → Bool
  | .issued _ => true
  | .epClose .. | .closeStarted _ | .closeFinished _ | .destructor => false

/-- Other events do not matter. -/
theorem issuedOpen_append {log es : List Event} (hes : ∀ e ∈ es, e.isIssued = false) :
    IssuedOpen (log ++ es) ↔ IssuedOpen log := by
  refine Trace.each_append fun e he _ op hop => ?_
  have hnot := hes e he
  rw [hop] at hnot
  cases hnot

/-! ## The invariant -/

/-- The handles in a holder are null or the one that was created. -/
def Holder.Handled (epH : Nat) : Holder → Prop
  | .memory m => m.ep = none ∨ m.ep = some epH
  | .operation op => ∃ ep, op.ep? = some ep ∧ (ep = none ∨ ep = some epH)
  | .pointer | .flush => True

/-- There is one handle; it has been closed exactly if the endpoint is no longer
untouched. -/
structure Handles (mem : Endpoint) (s : St) : Prop where
  holders : ∀ x ∈ s.holders, x.Handled s.epH
  ep : s.obj.ep = none ∨ s.obj.ep = some s.epH
  garbage : s.obj.closeRequest = none → mem.closeRequest = none
  closes : s.closes = []
  calls : ∀ ep ∈ s.closeCalls, ep = some s.epH
  closed : s.closeCalls = [] ↔ Untouched mem s

variable {mem : Endpoint}

theorem init_handles (mem : Endpoint) (epH : Nat) : Handles mem (.init mem epH) where
  holders := by
    intro x hx
    obtain rfl := List.mem_singleton.mp hx
    trivial
  ep := .inr rfl
  garbage := id
  closes := rfl
  calls := fun _ h => nomatch h
  closed := iff_of_true rfl ⟨rfl, .inl rfl⟩

theorem Handles.known {s : St} (h : Handles mem s) {ep : UcpEp} (hep : Known s ep) :
    ep = none ∨ ep = some s.epH := by
  rcases hep with hnull | hobj | ⟨y, hy, hcopy⟩
  · exact .inl hnull
  · rw [hobj]
    exact h.ep
  · have hhandled := h.holders y hy
    cases y with
    | pointer | flush => cases hcopy
    | memory m =>
      obtain rfl := Option.mem_some_iff.mp hcopy
      exact hhandled
    | operation op =>
      rcases hhandled with ⟨ep', hop, hor⟩
      obtain rfl : ep' = ep := Option.some.inj (hop.symm.trans hcopy)
      exact hor

theorem Handles.handled {s : St} (h : Handles mem s) {x : Holder} (hx : HandleFrom s x) :
    x.Handled s.epH := by
  rcases hx with hmem | hnew
  · exact h.holders x hmem
  · cases x with
    | pointer | flush => trivial
    | memory m => exact h.known hnew
    | operation op =>
      rcases hnew with ⟨ep, hop, hep⟩
      exact ⟨ep, hop, h.known hep⟩

/-- An awaited operation has a handle, null or the one that was created. -/
theorem Handles.awaited {s : St} (h : Handles mem s) {i : Nat} {op : Operation}
    (hop : s.awaited i = some op) : ∃ ep, op.ep? = some ep ∧ (ep = none ∨ ep = some s.epH) := by
  unfold St.awaited at hop
  split at hop
  · rename_i op' hi
    obtain rfl := Option.some.inj hop
    exact h.holders _ (List.mem_of_getElem? hi)
  · obtain rfl := Option.some.inj hop
    exact ⟨_, rfl, h.ep⟩
  · cases hop

/-- Handing over an operation is right exactly if its handle is not null and
the endpoint is untouched. -/
theorem Handles.issues_iff {s : St} (h : Handles mem s) {i : Nat} {op : Operation}
    (hop : s.awaited i = some op) :
    IssuesOpen s.log op ↔ op.ep? ≠ some none ∧ Untouched mem s := by
  rcases h.awaited hop with ⟨ep, hep, hor⟩
  rw [← h.closed]
  constructor
  · rintro ⟨a, ha, hnot⟩
    refine ⟨by rw [ha]; simp, ?_⟩
    obtain rfl : ep = some a := Option.some.inj (hep.symm.trans ha)
    rcases hor with hnull | hsome
    · cases hnull
    · rw [hsome] at hnot
      -- every close call was made on this handle
      refine List.eq_nil_iff_forall_not_mem.mpr fun c hc => ?_
      exact hnot (h.calls c hc ▸ hc)
  · rintro ⟨hne, hnil⟩
    rcases hor with rfl | rfl
    · exact absurd hep hne
    · refine ⟨s.epH, hep, ?_⟩
      show some s.epH ∉ s.closeCalls
      rw [hnil]
      exact List.not_mem_nil

/-- A step that calls no close function and leaves the fields alone. -/
theorem Handles.same {s s' : St} (h : Handles mem s) (hepH : s'.epH = s.epH)
    (hholders : ∀ x ∈ s'.holders, HandleFrom s x) (hobj : s'.obj = s.obj)
    (hcloses : s'.closes = s.closes) (hcalls : s'.closeCalls = s.closeCalls)
    (halive : s'.alive = s.alive) : Handles mem s' where
  holders := fun x hx => hepH ▸ h.handled (hholders x hx)
  ep := by
    rw [hobj, hepH]
    exact h.ep
  garbage := hobj ▸ h.garbage
  closes := hcloses.trans h.closes
  calls := by
    rw [hcalls, hepH]
    exact h.calls
  closed := by
    rw [hcalls, Untouched, hobj, hepH, halive]
    exact h.closed

theorem destroy_handles {s : St} (h : Handles mem s) (halive : s.alive = true)
    (ans : StatusPtr) : Handles mem (s.destroy ans) := by
  have hcalls := closeCalls_destroy s ans
  rw [destroy_eq] at hcalls ⊢
  refine ⟨h.holders, h.ep, h.garbage, h.closes, ?_, ?_⟩
  · rw [hcalls]
    intro ep hep
    rcases List.mem_append.mp hep with hep | hep
    · exact h.calls ep hep
    · split at hep
      · rename_i hd
        obtain rfl := List.mem_singleton.mp hep
        refine h.ep.resolve_left fun hnull => ?_
        rw [Endpoint.destructorCloses, hnull] at hd
        cases hd
      · cases hep
  · rw [hcalls]
    by_cases hd : s.obj.destructorCloses = true
    · rw [if_pos hd]
      refine iff_of_false (List.append_ne_nil_of_right_ne_nil _ (List.cons_ne_nil _ _)) ?_
      rintro ⟨-, hdead | hgarbage⟩
      · cases hdead
      · have hnone := (Bool.and_eq_true_iff.mp hd).2
        exact hgarbage (h.garbage (Option.isNone_iff_eq_none.mp hnone))
    · rw [if_neg hd, List.append_nil]
      refine h.closed.trans (and_congr_right fun hobj => ?_)
      replace hobj : s.obj = .construct mem s.epH := hobj
      -- an untouched endpoint is left open only because of the garbage
      have hgarbage : mem.closeRequest ≠ none := by
        intro hnone
        rw [hobj] at hd
        exact hd (by simp [Endpoint.destructorCloses, Endpoint.construct, hnone])
      exact iff_of_true (.inl halive) (.inr hgarbage)

theorem errorCb_handles {s : St} (h : Handles mem s) (ans : StatusPtr) :
    Handles mem (errorCb s ans) := by
  by_cases hcb : s.obj.errorCbCloses = true
  · have hcalls := closeCalls_errorCb s ans
    have hnone := h.garbage (Option.isNone_iff_eq_none.mp hcb)
    rw [errorCb_closing hcb] at hcalls ⊢
    rw [if_pos hcb] at hcalls
    have hobj : (s.obj.errorCb ans).ep = none ∨
        (s.obj.errorCb ans).ep = some s.epH ∧ (s.obj.errorCb ans).closeRequest ≠ none := by
      cases ans with
      | null | err => exact .inl (congrArg Endpoint.ep (Endpoint.errorCb_done hcb rfl))
      | request r =>
        rw [Endpoint.errorCb_request hcb]
        exact h.ep.imp id fun hep => ⟨hep, Option.some_ne_none r⟩
    refine ⟨h.holders, hobj.imp id And.left, fun _ => hnone, h.closes, ?_, ?_⟩
    · rw [hcalls]
      intro ep hep
      rcases List.mem_append.mp hep with hep | hep
      · exact h.calls ep hep
      · exact List.mem_singleton.mp hep
    · rw [hcalls]
      refine iff_of_false (List.append_ne_nil_of_right_ne_nil _ (List.cons_ne_nil _ _)) ?_
      rintro ⟨hsame, -⟩
      replace hsame : s.obj.errorCb ans = .construct mem s.epH := hsame
      rw [hsame] at hobj
      rcases hobj with hnull | ⟨-, hrequest⟩
      · cases hnull
      · exact hrequest hnone
  · rw [errorCb_idle hcb]
    exact h

/-- There is no `close()` coroutine, so no step resumes one. -/
theorem Handles.no_close {s : St} (h : Handles mem s) (hinv : Inv s) {i k : Nat}
    {q : CloseRequest} (hq : s.requests[i]? = some q) (hnew : q.completed = false)
    (hk : q.closer = .close k) : False := by
  have hwait := hinv.pending i q k hq hk hnew
  rw [h.closes] at hwait
  cases hwait

theorem step_handles {s s' : St} {a : Act} (hinv : Inv s) (h : Handles mem s)
    (hnever : NeverCloses s a) (hstep : Step s a s') : Handles mem s' := by
  cases hstep with
  | holders hidle hfrom => exact h.same rfl hfrom rfl rfl rfl rfl
  | copyWorker => exact h.same rfl (fun _ hx => .inl hx) rfl rfl rfl rfl
  | dropWorker =>
    rw [settleWorker_eq]
    exact h.same rfl (fun _ hx => .inl hx) rfl rfl rfl rfl
  | await => exact h.same rfl (fun _ hx => .inl hx) rfl rfl (closeCalls_emit s rfl) rfl
  | @dropLast i ans hlast =>
    have halive := hinv.alive_of_last hlast
    have hdropped : Handles mem (s.dropped i) :=
      h.same rfl (fun _ hx => .inl (List.mem_of_mem_eraseIdx hx)) rfl rfl rfl rfl
    exact destroy_handles hdropped halive ans
  | close => exact hnever.elim
  | errorCb => exact errorCb_handles h _
  | completeOther => exact h.same rfl (fun _ hx => .inl hx) rfl rfl rfl rfl
  | closeLast hq hnew hk => exact (h.no_close hinv hq hnew hk).elim
  | closeEnds hq hnew hk => exact (h.no_close hinv hq hnew hk).elim

/-! ## Operations that reach UCX -/

/-- A step hands a bad handle to UCX exactly if it does not meet `UsesOpen`. -/
theorem step_issuedOpen {s s' : St} {a : Act} (hinv : Inv s) (h : Handles mem s)
    (hgood : IssuedOpen s.log) (hnever : NeverCloses s a) (hstep : Step s a s') :
    IssuedOpen s'.log ↔ UsesOpen mem s a := by
  cases hstep with
  | holders hidle =>
    refine iff_of_true hgood ?_
    cases a with
    | await => exact hidle.elim
    | _ => trivial
  | copyWorker | completeOther => exact iff_of_true hgood trivial
  | dropWorker =>
    rw [settleWorker_eq]
    exact iff_of_true hgood trivial
  | @await i op hop =>
    refine Trace.each_concat.trans ?_
    constructor
    · rintro ⟨-, hnew⟩ op' hop'
      obtain rfl : op = op' := Option.some.inj (hop.symm.trans hop')
      exact (h.issues_iff hop).mp (hnew op rfl)
    · intro huse
      refine ⟨hgood, fun op' heq => ?_⟩
      obtain rfl := Event.issued.inj heq
      exact (h.issues_iff hop).mpr (huse op hop)
  | @dropLast i ans =>
    rw [destroy_eq]
    refine iff_of_true ((issuedOpen_append ?_).mpr hgood) trivial
    exact forall_destructorEvents _ rfl fun _ => rfl
  | close => exact hnever.elim
  | @errorCb ans =>
    refine iff_of_true ?_ trivial
    unfold errorCb
    split
    · refine (issuedOpen_append ?_).mpr hgood
      intro e he
      rw [List.mem_singleton.mp he]
      rfl
    · exact hgood
  | closeLast hq hnew hk => exact (h.no_close hinv hq hnew hk).elim
  | closeEnds hq hnew hk => exact (h.no_close hinv hq hnew hk).elim

/-! ## Whole runs -/

/-- In a run without `close()`, every operation that was handed to UCX had a
handle that was open, exactly if all the steps of the run meet `UsesOpen`. -/
theorem issued_open (mem : Endpoint) (epH : Nat) (as : List Act) {s : St}
    (hnever : Lts.StepsMeet next NeverCloses (.init mem epH) as)
    (hrun : Lts.run next (.init mem epH) as = some s) :
    IssuedOpen s.log ↔ Lts.StepsMeet next (UsesOpen mem) (.init mem epH) as := by
  refine Lts.run_good_iff (fun s => Inv s ∧ Handles mem s) (fun s => IssuedOpen s.log) ?_ ?_ ?_
    ⟨init_inv mem epH, init_handles mem epH⟩ Trace.each_nil hnever hrun
  · rintro s a s' ⟨hinv, hhandles⟩ hD hs
    have hstep := step_cases hinv hs
    exact ⟨step_inv hinv hstep, step_handles hinv hhandles hD hstep⟩
  · rintro s a s' ⟨hinv, hhandles⟩ hgood hD hs
    exact step_issuedOpen hinv hhandles hgood hD (step_cases hinv hs)
  · rintro s a s' ⟨hinv, -⟩ hbad hs hgood
    rcases step_history (step_cases hinv hs) with ⟨es, hes⟩
    rw [hes] at hgood
    exact hbad hgood.of_append

/-- A memory handle is built and moved, a put on the new one is awaited, and
only then the error comes. -/
theorem issued_open_before_error :
    ∃ s, Lts.run next (.init ⟨none, none⟩ 1)
        [.unpack 0 3, .moveMemory 1, .memoryCall 2 (.put 64 8 0), .await 3, .errorCb .null]
          = some s ∧ IssuedOpen s.log := by
  refine ⟨_, rfl, ?_⟩
  exact (issued_open ⟨none, none⟩ 1
    [.unpack 0 3, .moveMemory 1, .memoryCall 2 (.put 64 8 0), .await 3, .errorCb .null]
    (by decide) rfl).mpr (by decide)

/-- After `error_cb` has cleared `ep_`, `stream_send` hands a null handle to
UCX. -/
theorem issued_null_after_error :
    ¬ ∀ (mem : Endpoint) (epH : Nat) (as : List Act) (s : St),
      Lts.StepsMeet next NeverCloses (.init mem epH) as →
        Lts.run next (.init mem epH) as = some s → IssuedOpen s.log := by
  intro hall
  have hgood := hall ⟨none, none⟩ 1 [.errorCb .null, .endpointCall 0 (.streamSend 64 8), .await 1]
    _ (by decide) rfl
  obtain ⟨h, hop, -⟩ := hgood [.epClose .errorCb (some 1)] (.issued (.streamSend none 64 8)) [] rfl
    _ rfl
  cases hop

end Ucxpp.EndpointRun
