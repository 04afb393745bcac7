import Ucxpp.EndpointInv

/-!
# EndpointClosed — how often the handle is closed

`error_cb`, `close` and `~endpoint` each decide from `ep_` and
`close_request_` whether they close. `error_cb` and `~endpoint` test the fields
and record every answer; `close` tests nothing, and records nothing when UCX
refuses the close at once. `ClosesOnce` is the condition on a step under which
this does no harm, and `closed_at_most_once` shows that it is the exact one.
-/

namespace Ucxpp.EndpointRun

/-- The handle has been passed to a close function at most once, and no close
function has been called with a null handle. -/
def ClosedOnce (s : St) : Prop :=
  s.closeCalls.count (some s.epH) ≤ 1 ∧ none ∉ s.closeCalls

instance (s : St) : Decidable (ClosedOnce s) :=
  inferInstanceAs (Decidable (_ ∧ _))

/-- The user calls `close()` at most once. -/
def CallsCloseOnce (s : St) : Act → Prop
  | .close .. => s.closes = []
  | _ => True

/-- `close()` is called while the fields are as the constructor left them, and
when `~endpoint` runs after `close()` has been called it does not close. -/
def ClosesOnce (mem : Endpoint) (s : St) (a : Act) : Prop :=
  match a with
  | .close .. => s.obj.ep ≠ none ∧ s.obj.closeRequest = mem.closeRequest
  | a => LastRelease s a → s.closes ≠ [] → s.obj.destructorCloses = false

/-- What the fields say about the close calls so far, while there has been no
more than one: either nothing has changed since construction, or none of the
three will close again. -/
inductive Tracked (mem : Endpoint) (s : St) : Prop where
  | fresh (hcalls : s.closeCalls = []) (hobj : s.obj = .construct mem s.epH)
      (hcloses : s.closes = [])
  | closed (hcalls : s.closeCalls = [some s.epH])
      (hcb : s.alive = true → s.epOpen = true → s.obj.errorCbCloses = false)
      (hdtor : s.alive = true → s.obj.destructorCloses = true → s.closes ≠ [])
      (hep : s.obj.ep = none ∨ s.obj.ep = some s.epH)
      (hclose : s.alive = true → s.closes = [] →
        s.obj.ep = none ∨ s.obj.closeRequest ≠ mem.closeRequest)
  | lost (h : ¬ ClosedOnce s)

instance (mem : Endpoint) (s : St) : (a : Act) → Decidable (ClosesOnce mem s a)
  | .close .. =>
    inferInstanceAs (Decidable (s.obj.ep ≠ none ∧ s.obj.closeRequest = mem.closeRequest))
  | .copy _ | .unpack .. | .moveMemory _ | .endpointCall .. | .flush _ | .memoryCall .. | .await _
  | .drop .. | .copyWorker | .dropWorker | .errorCb _ | .complete .. =>
    inferInstanceAs (Decidable (LastRelease s _ → s.closes ≠ [] → s.obj.destructorCloses = false))

instance (s : St) : (a : Act) → Decidable (CallsCloseOnce s a)
  | .close .. => inferInstanceAs (Decidable (s.closes = []))
  | .copy _ | .unpack .. | .moveMemory _ | .endpointCall .. | .flush _ | .memoryCall .. | .await _
  | .drop .. | .copyWorker | .dropWorker | .errorCb _ | .complete .. => .isTrue trivial

/-! ## Counting the close calls -/

theorem closedOnce_nil {s : St} (h : s.closeCalls = []) : ClosedOnce s := by
  simp [ClosedOnce, h]

theorem closedOnce_one {s : St} (h : s.closeCalls = [some s.epH]) : ClosedOnce s := by
  simp [ClosedOnce, h]

/-- A second call is one too many, or one with a null handle. -/
theorem not_closedOnce {s : St} (ep : UcpEp) (h : s.closeCalls = [some s.epH, ep])
    (hep : ep = none ∨ ep = some s.epH) : ¬ ClosedOnce s := by
  rintro ⟨hcount, hnone⟩
  rw [h] at hcount hnone
  rcases hep with rfl | rfl
  · exact hnone (by simp)
  · simp at hcount

theorem closedOnce_congr {s s' : St} (hepH : s'.epH = s.epH)
    (hcalls : s'.closeCalls = s.closeCalls) : ClosedOnce s' ↔ ClosedOnce s := by
  rw [ClosedOnce, ClosedOnce, hepH, hcalls]

theorem closedOnce_emit (s : St) {e : Event} (he : e.closed? = none) :
    ClosedOnce (s.emit e) ↔ ClosedOnce s :=
  closedOnce_congr (s := s) rfl (closeCalls_emit s he)

/-- Calls that have been made stay made. -/
theorem not_closedOnce_of_append {s s' : St} {eps : List UcpEp} (h : ¬ ClosedOnce s)
    (hepH : s'.epH = s.epH) (hcalls : s'.closeCalls = s.closeCalls ++ eps) : ¬ ClosedOnce s' := by
  rintro ⟨hcount, hnone⟩
  rw [hcalls] at hcount hnone
  rw [hepH, List.count_append] at hcount
  exact h ⟨by omega, fun hmem => hnone (List.mem_append_left _ hmem)⟩

theorem step_calls {s s' : St} {a : Act} (h : Step s a s') :
    s'.epH = s.epH ∧ ∃ eps, s'.closeCalls = s.closeCalls ++ eps := by
  have hsame : s.closeCalls = s.closeCalls ++ [] := (List.append_nil _).symm
  cases h with
  | holders | copyWorker | completeOther => exact ⟨rfl, [], hsame⟩
  | dropWorker =>
    rw [settleWorker_eq]
    exact ⟨rfl, [], hsame⟩
  | await => exact ⟨rfl, [], (closeCalls_emit s rfl).trans hsame⟩
  | dropLast => exact ⟨by rw [destroy_eq]; rfl, _, closeCalls_destroy ..⟩
  | @close i ans =>
    refine ⟨?_, _, closeCalls_close ..⟩
    cases ans <;> rfl
  | errorCb =>
    refine ⟨?_, _, closeCalls_errorCb ..⟩
    unfold errorCb
    split <;> rfl
  | closeLast =>
    refine ⟨?_, _, (closeCalls_emit _ rfl).trans (closeCalls_destroy ..)⟩
    rw [destroy_eq]
    rfl
  | closeEnds => exact ⟨rfl, [], (closeCalls_emit _ rfl).trans hsame⟩

/-! ## One step -/

variable {mem : Endpoint}

/-- A step that calls no close function and leaves the fields alone. -/
theorem Tracked.same {s s' : St} (h : Tracked mem s) (hepH : s'.epH = s.epH)
    (hcalls : s'.closeCalls = s.closeCalls) (hobj : s'.obj = s.obj)
    (hcloses : s'.closes = [] ↔ s.closes = []) (halive : s'.alive = true → s.alive = true)
    (hopen : s'.epOpen = true → s.epOpen = true) : Tracked mem s' := by
  cases h with
  | fresh hc ho hn => exact .fresh (hcalls.trans hc) (by rw [hobj, ho, hepH]) (hcloses.mpr hn)
  | closed hc hcb hdtor hep hclose =>
    refine .closed (by rw [hcalls, hc, hepH]) ?_ ?_ ?_ ?_
    · intro ha hop
      rw [hobj]
      exact hcb (halive ha) (hopen hop)
    · intro ha hd hn
      rw [hobj] at hd
      exact hdtor (halive ha) hd (hcloses.mp hn)
    · rw [hobj, hepH]
      exact hep
    · intro ha hn
      rw [hobj]
      exact hclose (halive ha) (hcloses.mp hn)
  | lost hl => exact .lost fun hgood => hl ((closedOnce_congr hepH hcalls).mp hgood)

theorem Tracked.emit {s : St} (h : Tracked mem s) {e : Event} (he : e.closed? = none) :
    Tracked mem (s.emit e) :=
  h.same rfl (closeCalls_emit s he) rfl .rfl id id

theorem destroy_closed {s : St} (htr : Tracked mem s) (halive : s.alive = true)
    (ans : StatusPtr) : Tracked mem (s.destroy ans) ∧ (ClosedOnce s →
      (ClosedOnce (s.destroy ans) ↔ (s.closes ≠ [] → s.obj.destructorCloses = false))) := by
  have hcalls := closeCalls_destroy s ans
  have hepH : (s.destroy ans).epH = s.epH := by rw [destroy_eq]
  have hobj : (s.destroy ans).obj = s.obj := by rw [destroy_eq]
  have hcloses : (s.destroy ans).closes = s.closes := by rw [destroy_eq]
  have hdead : (s.destroy ans).alive = true → False := by
    rw [destroy_alive]
    exact Bool.false_ne_true
  by_cases hd : s.obj.destructorCloses = true
  · rw [if_pos hd] at hcalls
    cases htr with
    | fresh hc ho hn =>
      -- the first close call; the object is gone afterwards
      have hone : (s.destroy ans).closeCalls = [some (s.destroy ans).epH] := by
        rw [hcalls, hc, hepH, ho]
        rfl
      refine ⟨.closed hone (fun h => (hdead h).elim) (fun h => (hdead h).elim) ?_
        (fun h => (hdead h).elim), fun _ => iff_of_true (closedOnce_one hone) ?_⟩
      · rw [hobj, hepH, ho]
        exact .inr rfl
      · exact fun hne => absurd hn hne
    | closed hc hcb hdtor hep hclose =>
      have hbad : ¬ ClosedOnce (s.destroy ans) := by
        refine not_closedOnce s.obj.ep ?_ (hepH.symm ▸ hep)
        rw [hcalls, hc, hepH]
        rfl
      refine ⟨.lost hbad, fun _ => iff_of_false hbad fun h => ?_⟩
      rw [h (hdtor halive hd)] at hd
      cases hd
    | lost hl => exact ⟨.lost (not_closedOnce_of_append hl hepH hcalls), fun h => absurd h hl⟩
  · rw [if_neg hd, List.append_nil] at hcalls
    refine ⟨htr.same hepH hcalls hobj (by rw [hcloses]) (fun h => (hdead h).elim) ?_, ?_⟩
    · rw [destroy_eq]
      exact fun h => (Bool.and_eq_true_iff.mp h).1
    · intro hgood
      refine iff_of_true ((closedOnce_congr hepH hcalls).mpr hgood) fun _ => ?_
      exact Bool.eq_false_iff.mpr hd

theorem close_closed {s : St} (htr : Tracked mem s) (halive : s.alive = true)
    (hone : s.closes = []) (ans : StatusPtr) : Tracked mem (close s ans) ∧ (ClosedOnce s →
      (ClosedOnce (close s ans) ↔
        s.obj.ep ≠ none ∧ s.obj.closeRequest = mem.closeRequest)) := by
  have hcalls := closeCalls_close s ans
  have hepH : (close s ans).epH = s.epH := by cases ans <;> rfl
  cases htr with
  | fresh hc ho hn =>
    have hep : s.obj.ep = some s.epH := by rw [ho]; rfl
    have hcalled : (close s ans).closeCalls = [some (close s ans).epH] := by
      rw [hcalls, hc, hepH, hep]
      rfl
    refine ⟨?_, fun _ => iff_of_true (closedOnce_one hcalled) ⟨by rw [hep]; simp, by rw [ho]; rfl⟩⟩
    have hcloses : (close s ans).closes ≠ [] := by cases ans <;> simp [close, St.emit, St.closeCall]
    refine .closed hcalled ?_ (fun _ _ => hcloses) ?_ (fun _ hnil => absurd hnil hcloses)
    · -- a request is recorded, any other answer means that the handle is gone
      intro _ hopen
      cases ans with
      | null | err => simp [close, St.emit, St.closeCall, StatusPtr.isPtr] at hopen
      | request r => rfl
    · cases ans with
      | null => exact .inl rfl
      | err | request => exact .inr hep
  | closed hc hcb hdtor hep hclose =>
    have hbad : ¬ ClosedOnce (close s ans) := by
      refine not_closedOnce s.obj.ep ?_ (hepH.symm ▸ hep)
      rw [hcalls, hc, hepH]
      rfl
    refine ⟨.lost hbad, fun _ => iff_of_false hbad ?_⟩
    rintro ⟨hne, hsame⟩
    rcases hclose halive hone with hnull | hchanged
    · exact hne hnull
    · exact hchanged hsame
  | lost hl => exact ⟨.lost (not_closedOnce_of_append hl hepH hcalls), fun h => absurd h hl⟩

/-- `error_cb` makes the first close call: a request is recorded, and any other answer
means that the handle is gone. -/
theorem errorCb_first {s : St} (hc : s.closeCalls = []) (ho : s.obj = .construct mem s.epH)
    (hcb : s.obj.errorCbCloses = true) (ans : StatusPtr) :
    Tracked mem (errorCb s ans) ∧ ClosedOnce (errorCb s ans) := by
  have hnone : s.obj.closeRequest = none := Option.isNone_iff_eq_none.mp hcb
  have hcall := errorCb_closing hcb ans
  have hepH : (errorCb s ans).epH = s.epH := by rw [hcall]; rfl
  have hcalled : (errorCb s ans).closeCalls = [some (errorCb s ans).epH] := by
    rw [closeCalls_errorCb, if_pos hcb, hc, hepH]
    rfl
  have hmem : mem.closeRequest = none := by
    rw [ho] at hnone
    exact hnone
  refine ⟨?_, closedOnce_one hcalled⟩
  by_cases hptr : ans.isPtr = true
  · cases ans with
    | null | err => cases hptr
    | request r =>
      have hobj := Endpoint.errorCb_request hcb r
      refine .closed hcalled ?_ ?_ ?_ ?_
      · intro _ _
        rw [hcall, hobj]
        rfl
      · intro _ hd
        rw [hcall, hobj] at hd
        simp [Endpoint.destructorCloses] at hd
      · rw [hcall, hobj, ho]
        exact .inr rfl
      · intro _ _
        rw [hcall, hobj, hmem]
        exact .inr (Option.some_ne_none r)
  · have hdone := Bool.eq_false_iff.mpr hptr
    have hobj := Endpoint.errorCb_done hcb hdone
    refine .closed hcalled ?_ ?_ ?_ ?_
    · intro _ hop
      rw [hcall] at hop
      simp [St.closeCall, hdone] at hop
    · intro _ hd
      rw [hcall, hobj] at hd
      cases hd
    · rw [hcall, hobj]
      exact .inl rfl
    · intro _ _
      rw [hcall, hobj]
      exact .inl rfl

theorem errorCb_closed {s : St} (htr : Tracked mem s) (halive : s.alive = true)
    (hopen : s.epOpen = true) (ans : StatusPtr) : Tracked mem (errorCb s ans) ∧
      (ClosedOnce s → ClosedOnce (errorCb s ans)) := by
  by_cases hcb : s.obj.errorCbCloses = true
  · cases htr with
    | fresh hc ho hn =>
      rcases errorCb_first hc ho hcb ans with ⟨htr', hgood⟩
      exact ⟨htr', fun _ => hgood⟩
    | closed hc hcb' hdtor hep hclose =>
      rw [hcb' halive hopen] at hcb
      cases hcb
    | lost hl =>
      have hepH : (errorCb s ans).epH = s.epH := by
        rw [errorCb_closing hcb ans]
        rfl
      have hcalls := closeCalls_errorCb s ans
      exact ⟨.lost (not_closedOnce_of_append hl hepH hcalls), fun h => absurd h hl⟩
  · rw [errorCb_idle hcb]
    exact ⟨htr, id⟩

theorem step_closed {s s' : St} {a : Act} (hinv : Inv s) (htr : Tracked mem s)
    (hone : CallsCloseOnce s a) (h : Step s a s') : Tracked mem s' ∧ (ClosedOnce s →
      (ClosedOnce s' ↔ ClosesOnce mem s a)) := by
  cases h with
  | holders hidle =>
    refine ⟨htr.same rfl rfl rfl .rfl id id, fun hgood => iff_of_true hgood ?_⟩
    cases a with
    | drop i ans => exact fun hlast => absurd hlast hidle
    | copy | unpack | moveMemory | endpointCall | flush | memoryCall =>
      exact fun hlast => hlast.1.elim
    | await | copyWorker | dropWorker | close | errorCb | complete => exact hidle.elim
  | copyWorker =>
    exact ⟨htr.same rfl rfl rfl .rfl id id,
      fun hgood => iff_of_true hgood fun hlast => hlast.1.elim⟩
  | dropWorker =>
    rw [settleWorker_eq]
    exact ⟨htr.same rfl rfl rfl .rfl id id,
      fun hgood => iff_of_true hgood fun hlast => hlast.1.elim⟩
  | @await i op hop =>
    exact ⟨htr.emit rfl, fun hgood =>
      iff_of_true ((closedOnce_emit s rfl).mpr hgood) fun hlast => hlast.1.elim⟩
  | @dropLast i ans hlast hrefs =>
    have halive := hinv.alive_of_last hlast
    have htr' : Tracked mem (s.dropped i) := htr.same rfl rfl rfl .rfl id id
    rcases destroy_closed htr' halive ans with ⟨hd, hiff⟩
    exact ⟨hd, fun hgood => (hiff hgood).trans ⟨fun h _ => h, fun h => h hlast⟩⟩
  | @close i ans hi =>
    exact close_closed htr (hinv.owned.mpr (refs_pos_of_owner hi rfl)) hone ans
  | @errorCb ans halive hopen =>
    rcases errorCb_closed htr halive hopen ans with ⟨htr', hgood'⟩
    exact ⟨htr', fun hgood => iff_of_true (hgood' hgood) fun hlast => hlast.1.elim⟩
  | @completeOther i status ans q frees hq hnew hworker hfrees =>
    have hnot := not_lastRelease_of_closer hq (closer_not_close hfrees) status ans
    exact ⟨htr.same rfl rfl rfl .rfl id (fun h => nomatch h),
      fun hgood => iff_of_true hgood fun hlast => absurd hlast hnot⟩
  | @closeLast i k status ans q hq hnew hk hlast hrefs =>
    have halive := hinv.alive_of_last hlast
    have hnil := List.set_eq_nil_iff (l := s.closes) k CloseState.finished
    have htr' : Tracked mem ((s.completeRequest i q (q.frees + 1)).finished k) :=
      htr.same rfl rfl rfl hnil id (fun h => nomatch h)
    rcases destroy_closed htr' halive ans with ⟨hd, hiff⟩
    refine ⟨hd.emit rfl, fun hgood => (closedOnce_emit _ rfl).trans ((hiff hgood).trans ?_)⟩
    refine ⟨fun h _ hne => h (mt hnil.mp hne), fun h hne => ?_⟩
    exact h hlast (mt hnil.mpr hne)
  | @closeEnds i k status ans q obj hq hnew hk hlast hobj hrefs =>
    have hwait := hinv.pending i q k hq hk hnew
    have hcalled : s.closes ≠ [] := List.ne_nil_of_mem (List.mem_of_getElem? hwait)
    have hcalled' : s.closes.set k .finished ≠ [] := mt (List.set_eq_nil_iff ..).mp hcalled
    have htr' : Tracked mem
        { (s.completeRequest i q (q.frees + 1)).finished k with obj := obj } := by
      cases htr with
      | fresh hc ho hn => exact absurd hn hcalled
      | closed hc hcb hdtor hep hclose =>
        refine .closed hc (fun _ h => nomatch h) (fun _ _ => hcalled') ?_
          (fun _ hnil => absurd hnil hcalled')
        rcases hobj with rfl | rfl
        · exact hep
        · exact .inl rfl
      | lost hl => exact .lost hl
    refine ⟨htr'.emit rfl, fun hgood => iff_of_true ((closedOnce_emit _ rfl).mpr hgood) ?_⟩
    exact fun h => absurd h hlast

/-! ## Whole runs -/

/-- With at most one call of `close()`, the handle is closed at most once, and
never a null one, exactly in the runs whose steps all meet `ClosesOnce`. -/
theorem closed_at_most_once (mem : Endpoint) (epH : Nat) (as : List Act) {s : St}
    (hone : Lts.StepsMeet next CallsCloseOnce (.init mem epH) as)
    (hrun : Lts.run next (.init mem epH) as = some s) :
    ClosedOnce s ↔ Lts.StepsMeet next (ClosesOnce mem) (.init mem epH) as := by
  have htr : Tracked mem (.init mem epH) := .fresh rfl rfl rfl
  refine Lts.run_good_iff (fun s => Inv s ∧ Tracked mem s) ClosedOnce ?_ ?_ ?_
    ⟨init_inv mem epH, htr⟩ (closedOnce_nil rfl) hone hrun
  · rintro s a s' ⟨hinv, htr⟩ hD hs
    have hstep := step_cases hinv hs
    exact ⟨step_inv hinv hstep, (step_closed hinv htr hD hstep).1⟩
  · rintro s a s' ⟨hinv, htr⟩ hgood hD hs
    exact (step_closed hinv htr hD (step_cases hinv hs)).2 hgood
  · rintro s a s' ⟨hinv, -⟩ hbad hs
    rcases step_calls (step_cases hinv hs) with ⟨hepH, eps, hcalls⟩
    exact not_closedOnce_of_append hbad hepH hcalls

/-- An error is followed by a close that takes its time; the destructor leaves
it at that. -/
theorem closed_at_most_once_after_error :
    ∃ s, Lts.run next (.init ⟨none, none⟩ 1) [.errorCb (.request 7), .drop 0 .null] = some s ∧
      ClosedOnce s := by
  refine ⟨_, rfl, ?_⟩
  exact (closed_at_most_once ⟨none, none⟩ 1 [.errorCb (.request 7), .drop 0 .null]
    (by decide) rfl).mpr (by decide)

/-- UCX refuses the close of `close()`, which releases the handle all the same.
The exception leaves `ep_` and `close_request_` as they were, and `~endpoint`
closes once more. -/
theorem closed_twice_after_refused_close :
    ¬ ∀ (mem : Endpoint) (epH : Nat) (as : List Act) (s : St),
      Lts.StepsMeet next CallsCloseOnce (.init mem epH) as →
        Lts.run next (.init mem epH) as = some s → ClosedOnce s := by
  intro hall
  have hgood := hall ⟨none, none⟩ 1 [.close 0 (.err 0), .drop 0 .null] _ (by decide) rfl
  revert hgood
  decide

end Ucxpp.EndpointRun
