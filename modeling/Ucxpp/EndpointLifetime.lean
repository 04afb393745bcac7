import Ucxpp.EndpointInv
import Ucxpp.Lib.Trace

/-!
# EndpointLifetime — close() and the life of its endpoint

`close()` is a member coroutine. While it waits, the endpoint is kept alive by
the `shared_ptr` in the awaitable, and the awaitable is destroyed at the end of
the `co_await` expression, before the assignment to `ep_`. So the destructor
comes too early exactly when nobody else has a reference at that moment.
-/

namespace Ucxpp.EndpointRun

open Trace (getElem?_concat)

/-- The destructor has not run before a `close()` that had been started was
finished. -/
def OutlivesClose (log : List Event) : Prop :=
  Trace.Each (fun past e => e = .destructor →
    ∀ k, .closeStarted k ∈ past → .closeFinished k ∈ past) log

/-- When the request of a `close()` completes, somebody besides the awaitable
has a reference to the endpoint. -/
def KeepsOwner (s : St) : Act → Prop
  | .complete i status ans => ¬ LastRelease s (.complete i status ans)
  | _ => True

instance (s : St) : (a : Act) → Decidable (KeepsOwner s a)
  | .complete i status ans => inferInstanceAs (Decidable (¬ LastRelease s (.complete i status ans)))
  | .copy _ | .unpack .. | .moveMemory _ | .endpointCall .. | .flush _ | .memoryCall .. | .await _
  | .drop .. | .copyWorker | .dropWorker | .close .. | .errorCb _ => .isTrue trivial

/-! ## What the history says about the coroutines -/

/-- The `close()` coroutine that an event is about. -/
def Event.coroutine? : Event → Option Nat
  | .closeStarted k | .closeFinished k => some k
  | .epClose .. | .issued _ | .destructor => none

/-- The history knows which coroutines there are, and which are finished. -/
structure Recorded (s : St) : Prop where
  known : ∀ e ∈ s.log, ∀ k ∈ e.coroutine?, k < s.closes.length
  finished : ∀ k : Nat, s.closes[k]? = some .finished → .closeFinished k ∈ s.log
  waiting : ∀ k i : Nat, s.closes[k]? = some (.pending i) →
    .closeStarted k ∈ s.log ∧ .closeFinished k ∉ s.log

theorem init_recorded (mem : Endpoint) (epH : Nat) : Recorded (.init mem epH) where
  known := fun _ h => nomatch h
  finished := fun _ h => nomatch h
  waiting := fun _ _ h => nomatch h

/-- Events that are not about coroutines. -/
theorem Recorded.append {s s' : St} (h : Recorded s) {es : List Event}
    (hes : ∀ e ∈ es, e.coroutine? = none) (hlog : s'.log = s.log ++ es)
    (hcloses : s'.closes = s.closes) : Recorded s' := by
  constructor
  · rw [hlog, hcloses]
    intro e he k hk
    rcases List.mem_append.mp he with he | he
    · exact h.known e he k hk
    · rw [hes e he] at hk
      cases hk
  · rw [hlog, hcloses]
    intro k hk
    exact List.mem_append_left _ (h.finished k hk)
  · rw [hlog, hcloses]
    intro k i hk
    rcases h.waiting k i hk with ⟨hstart, hnot⟩
    refine ⟨List.mem_append_left _ hstart, fun hmem => ?_⟩
    rcases List.mem_append.mp hmem with hmem | hmem
    · exact hnot hmem
    · cases hes _ hmem

theorem Recorded.same {s s' : St} (h : Recorded s) (hlog : s'.log = s.log)
    (hcloses : s'.closes = s.closes) : Recorded s' :=
  have hnil : ∀ e ∈ ([] : List Event), e.coroutine? = none := fun _ h => nomatch h
  h.append hnil (hlog.trans (List.append_nil _).symm) hcloses

/-- Coroutine `k` waited and finishes. -/
theorem Recorded.finish {s : St} (h : Recorded s) {k i : Nat}
    (hwait : s.closes[k]? = some (.pending i)) (obj : Endpoint) :
    Recorded (St.emit { s.finished k with obj := obj } (.closeFinished k)) := by
  have hk : k < s.closes.length := (List.getElem?_eq_some_iff.mp hwait).1
  constructor
  · intro e he l hl
    show l < (s.closes.set k .finished).length
    rw [List.length_set]
    rcases List.mem_append.mp he with he | he
    · exact h.known e he l hl
    · obtain rfl := List.mem_singleton.mp he
      exact Option.mem_some_iff.mp hl ▸ hk
  · intro l hl
    by_cases hkl : k = l
    · subst hkl
      exact List.mem_append_right _ (List.mem_singleton_self _)
    · exact List.mem_append_left _ (h.finished l ((List.getElem?_set_ne hkl).symm.trans hl))
  · intro l j hl
    have hkl : k ≠ l := by
      rintro rfl
      rw [show (St.emit { s.finished k with obj := obj } (.closeFinished k)).closes =
        s.closes.set k .finished from rfl, List.getElem?_set_self hk] at hl
      cases hl
    rcases h.waiting l j ((List.getElem?_set_ne hkl).symm.trans hl) with ⟨hstart, hnot⟩
    refine ⟨List.mem_append_left _ hstart, fun hmem => ?_⟩
    rcases List.mem_append.mp hmem with hmem | hmem
    · exact hnot hmem
    · exact hkl (Event.closeFinished.inj (List.mem_singleton.mp hmem)).symm

/-- A coroutine starts, and finishes at once unless UCX returned a request. -/
theorem close_recorded {s : St} (h : Recorded s) (ans : StatusPtr) : Recorded (close s ans) := by
  have hevents : ∀ e ∈ closeEvents s ans, ∀ k ∈ e.coroutine?, k = s.closes.length := by
    intro e he k hk
    rcases List.mem_append.mp he with he | he
    · rcases List.mem_pair.mp he with rfl | rfl
      · exact (Option.mem_some_iff.mp hk).symm
      · cases hk
    · split at he
      · cases he
      · obtain rfl := List.mem_singleton.mp he
        exact (Option.mem_some_iff.mp hk).symm
  constructor
  · rw [close_log, close_closes, List.length_append]
    intro e he k hk
    rcases List.mem_append.mp he with he | he
    · exact Nat.lt_add_right _ (h.known e he k hk)
    · rw [hevents e he k hk]
      exact Nat.lt_succ_self _
  · rw [close_log, close_closes]
    intro k hk
    rcases getElem?_concat.mp hk with hk | ⟨rfl, hstate⟩
    · exact List.mem_append_left _ (h.finished k hk)
    · refine List.mem_append_right _ (List.mem_append_right _ ?_)
      split at hstate
      · cases hstate
      · rename_i hptr
        rw [if_neg hptr]
        exact List.mem_singleton_self _
  · rw [close_log, close_closes]
    intro k i hk
    rcases getElem?_concat.mp hk with hold | ⟨rfl, hstate⟩
    · rcases h.waiting k i hold with ⟨hstart, hnot⟩
      refine ⟨List.mem_append_left _ hstart, fun hmem => ?_⟩
      rcases List.mem_append.mp hmem with hmem | hmem
      · exact hnot hmem
      · have hlt := (List.getElem?_eq_some_iff.mp hold).1
        exact Nat.ne_of_lt hlt (hevents _ hmem k rfl)
    · split at hstate
      · rename_i hptr
        refine ⟨List.mem_append_right _ (List.mem_cons_self ..), fun hmem => ?_⟩
        rcases List.mem_append.mp hmem with hmem | hmem
        · exact Nat.lt_irrefl _ (h.known _ hmem _ rfl)
        · simp [closeEvents, hptr] at hmem
      · cases hstate

theorem destructorEvents_coroutine (s : St) : ∀ e ∈ destructorEvents s, e.coroutine? = none :=
  forall_destructorEvents s rfl fun _ => rfl

theorem step_recorded {s s' : St} {a : Act} (hinv : Inv s) (h : Recorded s)
    (hstep : Step s a s') : Recorded s' := by
  cases hstep with
  | holders | copyWorker | completeOther => exact h.same rfl rfl
  | dropWorker =>
    rw [settleWorker_eq]
    exact h.same rfl rfl
  | await =>
    refine h.append (fun e he => ?_) rfl rfl
    rw [List.mem_singleton.mp he]
    rfl
  | @dropLast i ans =>
    rw [destroy_eq]
    exact h.append (destructorEvents_coroutine (s.dropped i)) rfl rfl
  | close => exact close_recorded h _
  | errorCb =>
    unfold errorCb
    split
    · refine h.append (fun e he => ?_) rfl rfl
      rw [List.mem_singleton.mp he]
      rfl
    · exact h.same rfl rfl
  | @closeLast i k status ans q hq hnew hk =>
    have hdestroyed : Recorded { s with log := s.log ++ destructorEvents s } :=
      h.append (destructorEvents_coroutine s) rfl rfl
    refine (hdestroyed.finish (hinv.pending i q k hq hk hnew) s.obj).same ?_ ?_
    · rw [destroy_eq]
      rfl
    · rw [destroy_eq]
      rfl
  | @closeEnds i k status ans q obj hq hnew hk =>
    have hsame : Recorded (s.completeRequest i q (q.frees + 1)) := h.same rfl rfl
    exact hsame.finish (hinv.pending i q k hq hk hnew) obj

/-! ## The destructor -/

/-- Events among which there is no destructor do not matter. -/
theorem outlives_append {log es : List Event} (hes : .destructor ∉ es) :
    OutlivesClose (log ++ es) ↔ OutlivesClose log :=
  Trace.each_append fun _ he _ hdtor => absurd (hdtor ▸ he) hes

/-- Whether the destructor comes too early is decided when it runs. -/
theorem outlives_destroy {s : St} (h : OutlivesClose s.log) (t : St) :
    OutlivesClose (s.log ++ destructorEvents t) ↔
      ∀ k, .closeStarted k ∈ s.log → .closeFinished k ∈ s.log := by
  have hsplit : s.log ++ destructorEvents t = (s.log ++ [.destructor]) ++
      if t.obj.destructorCloses then [.epClose .destructor t.obj.ep] else [] := by
    simp [destructorEvents]
  rw [hsplit, outlives_append]
  · rw [OutlivesClose, Trace.each_concat]
    exact ⟨fun h => h.2 rfl, fun hall => ⟨h, fun _ => hall⟩⟩
  · split
    · simp
    · exact List.not_mem_nil

/-- With no reference left, every coroutine is finished. -/
theorem Recorded.all_finished {s : St} (h : Recorded s) (hrefs : s.refs = 0) {k : Nat}
    (hk : .closeStarted k ∈ s.log) : .closeFinished k ∈ s.log := by
  have hlt := h.known _ hk k rfl
  cases hstate : s.closes[k] with
  | finished => exact h.finished k (List.getElem?_eq_some_iff.mpr ⟨hlt, hstate⟩)
  | pending i =>
    have hwait := List.getElem?_eq_some_iff.mpr ⟨hlt, hstate⟩
    exact absurd hrefs (Nat.ne_of_gt (refs_pos_of_pending hwait))

/-- A step lets the destructor run too early exactly if the last reference was
that of a waiting `close()`. -/
theorem step_outlives {s s' : St} {a : Act} (hinv : Inv s) (h : Recorded s)
    (hgood : OutlivesClose s.log) (hstep : Step s a s') :
    OutlivesClose s'.log ↔ KeepsOwner s a := by
  cases hstep with
  | holders hidle =>
    refine iff_of_true hgood ?_
    cases a with
    | complete => exact hidle.elim
    | _ => trivial
  | copyWorker => exact iff_of_true hgood trivial
  | dropWorker =>
    rw [settleWorker_eq]
    exact iff_of_true hgood trivial
  | await => exact iff_of_true ((outlives_append (by simp)).mpr hgood) trivial
  | @dropLast i ans hlast hrefs =>
    have hrecorded : Recorded (s.dropped i) := h.same rfl rfl
    rw [destroy_eq]
    refine iff_of_true ((outlives_destroy (s := s.dropped i) hgood _).mpr ?_) trivial
    exact fun k hk => hrecorded.all_finished hrefs hk
  | @close i ans hi =>
    rw [close_log]
    refine iff_of_true ((outlives_append ?_).mpr hgood) trivial
    cases ans <;> simp [closeEvents, StatusPtr.isPtr]
  | errorCb =>
    refine iff_of_true ?_ trivial
    unfold errorCb
    split
    · exact (outlives_append (by simp)).mpr hgood
    · exact hgood
  | @completeOther i status ans q frees hq hnew hworker hfrees =>
    exact iff_of_true hgood (not_lastRelease_of_closer hq (closer_not_close hfrees) status ans)
  | @closeLast i k status ans q hq hnew hk hlast =>
    -- the coroutine is the one that is not finished
    rcases h.waiting k i (hinv.pending i q k hq hk hnew) with ⟨hstart, hnot⟩
    refine iff_of_false ?_ (fun hkeep => hkeep hlast)
    rw [destroy_eq]
    intro hout
    have hdestroyed : OutlivesClose (s.log ++ destructorEvents s) := Trace.Each.of_append hout
    exact hnot ((outlives_destroy hgood s).mp hdestroyed k hstart)
  | closeEnds hq hnew hk hlast =>
    exact iff_of_true ((outlives_append (by simp)).mpr hgood) hlast

/-! ## Whole runs -/

/-- The destructor never runs before a `close()` that was started has finished,
exactly in the runs whose steps all meet `KeepsOwner`. -/
theorem outlives_close (mem : Endpoint) (epH : Nat) (as : List Act) {s : St}
    (hrun : Lts.run next (.init mem epH) as = some s) :
    OutlivesClose s.log ↔ Lts.StepsMeet next KeepsOwner (.init mem epH) as := by
  refine Lts.run_good_iff (D := fun _ _ => True) (fun s => Inv s ∧ Recorded s)
    (fun s => OutlivesClose s.log) ?_ ?_ ?_
    ⟨init_inv mem epH, init_recorded mem epH⟩ Trace.each_nil (Lts.stepsMeet_true _ _) hrun
  · rintro s a s' ⟨hinv, hrecorded⟩ - hs
    have hstep := step_cases hinv hs
    exact ⟨step_inv hinv hstep, step_recorded hinv hrecorded hstep⟩
  · rintro s a s' ⟨hinv, hrecorded⟩ hgood - hs
    exact step_outlives hinv hrecorded hgood (step_cases hinv hs)
  · rintro s a s' ⟨hinv, -⟩ hbad hs hgood
    rcases step_history (step_cases hinv hs) with ⟨es, hes⟩
    rw [hes] at hgood
    exact hbad hgood.of_append

/-- A second pointer to the endpoint is dropped after the close is over. -/
theorem outlives_close_second_pointer :
    ∃ s, Lts.run next (.init ⟨none, none⟩ 1)
        [.copy 0, .close 0 (.request 7), .drop 0 .null, .complete 0 .ok .null, .drop 0 .null]
          = some s ∧ OutlivesClose s.log := by
  refine ⟨_, rfl, ?_⟩
  exact (outlives_close ⟨none, none⟩ 1
    [.copy 0, .close 0 (.request 7), .drop 0 .null, .complete 0 .ok .null, .drop 0 .null]
    rfl).mpr (by decide)

/-- The only pointer is dropped while the close is pending. The awaitable then
takes the endpoint with it, and `close()` goes on in a destroyed object. -/
theorem destroyed_inside_close :
    ¬ ∀ (mem : Endpoint) (epH : Nat) (as : List Act) (s : St),
      Lts.run next (.init mem epH) as = some s → OutlivesClose s.log := by
  intro hall
  have hgood := hall ⟨none, none⟩ 1
    [.close 0 (.request 7), .drop 0 .null, .complete 0 .ok .null] _ rfl
  have hfinished := hgood [.closeStarted 0, .epClose (.close 0) (some 1)] .destructor
    [.closeFinished 0] rfl rfl 0 (by decide)
  revert hfinished
  decide

end Ucxpp.EndpointRun
