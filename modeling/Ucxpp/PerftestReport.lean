import Ucxpp.PerftestAgree

/-!
# PerftestReport — the number of operations that perftest reports

At the end `client` and `server` report `g_counter` as the number of operations of the timed
phase. Each coroutine tests it before its operation and counts after it, so the operations in
flight at the limit are counted too. What a side can report is everything from `iterations` up
to one less than `concurrency` more.

How a side goes on is decided by its `View`; `Goes` are the ways that it can take.
-/

namespace Ucxpp.Perftest

/-- What can be reported. -/
def Reports (perf : PerfContext) (n : Nat) : Prop :=
  perf.iterations ≤ n ∧ n < perf.iterations + perf.concurrency ∧ (perf.iterations = 0 → n = 0)

instance (perf : PerfContext) (n : Nat) : Decidable (Reports perf n) := by
  unfold Reports
  infer_instance

/-! ## What decides how a side goes on -/

structure View where
  counter : Nat
  warmup : Bool
  pc : Pc
  tasks : List Task

def Side.view (s : Side) : View :=
  ⟨s.counter, s.warmup, s.pc, s.tasks⟩

/-- A side that looks like `v` can come to look like `v'`. -/
def Goes (perf : PerfContext) (v v' : View) : Prop :=
  ∀ s : Side, s.view = v → ∃ acts s', Lts.run (Side.step perf) s acts = some s' ∧ s'.view = v'

section

variable {perf : PerfContext}

theorem Goes.refl (v : View) : Goes perf v v :=
  fun s hs => ⟨[], s, rfl, hs⟩

theorem Goes.trans {v v₁ v₂ : View} (h : Goes perf v v₁) (h₁ : Goes perf v₁ v₂) :
    Goes perf v v₂ := by
  intro s hs
  rcases h s hs with ⟨acts, s₁, hrun, hs₁⟩
  rcases h₁ s₁ hs₁ with ⟨acts₁, s₂, hrun₁, hs₂⟩
  refine ⟨acts ++ acts₁, s₂, ?_, hs₂⟩
  rw [Lts.run_append, hrun, Option.bind_some, hrun₁]

theorem Goes.one {v v' : View} (a : SideAct)
    (h : ∀ s : Side, s.view = v → ∃ s', s.step perf a = some s' ∧ s'.view = v') :
    Goes perf v v' := by
  intro s hs
  rcases h s hs with ⟨s', hstep, hs'⟩
  refine ⟨[a], s', ?_, hs'⟩
  rw [Lts.run_cons, hstep, Option.bind_some, Lts.run_nil]

/-! ## The steps -/

variable {n : Nat} {w : Bool} {tasks : List Task}

theorem goes_spawn (hlen : tasks.length < perf.concurrency) :
    Goes perf ⟨n, w, .spawning, tasks⟩
      ⟨n, w, .running tasks.length none, tasks ++ [.running]⟩ := by
  refine Goes.one .go fun s hs => ?_
  cases s
  cases hs
  exact ⟨_, if_pos hlen, rfl⟩

theorem goes_spawned (hlen : perf.concurrency ≤ tasks.length) :
    Goes perf ⟨n, w, .spawning, tasks⟩ ⟨n, w, .awaiting 0, tasks⟩ := by
  refine Goes.one .go fun s hs => ?_
  cases s
  cases hs
  exact ⟨_, if_neg (Nat.not_lt.mpr hlen), rfl⟩

theorem goes_later {i : Nat} {awaited : Option Nat} (hn : n < perf.totalIterations w) :
    Goes perf ⟨n, w, .running i awaited, tasks⟩ ⟨n, w, back awaited, tasks.set i .waiting⟩ := by
  refine Goes.one (.post false) fun s hs => ?_
  cases s
  cases hs
  exact ⟨_, (if_pos hn).trans (if_neg Bool.false_ne_true), rfl⟩

theorem goes_atOnce {i : Nat} {awaited : Option Nat} (hn : n < perf.totalIterations w) :
    Goes perf ⟨n, w, .running i awaited, tasks⟩ ⟨n + 1, w, .running i awaited, tasks⟩ := by
  refine Goes.one (.post true) fun s hs => ?_
  cases s
  cases hs
  exact ⟨_, (if_pos hn).trans (if_pos rfl), rfl⟩

theorem goes_ended {i : Nat} {awaited : Option Nat} (hn : perf.totalIterations w ≤ n) :
    Goes perf ⟨n, w, .running i awaited, tasks⟩ ⟨n, w, back awaited, tasks.set i .done⟩ := by
  refine Goes.one .go fun s hs => ?_
  cases s
  cases hs
  exact ⟨_, if_neg (Nat.not_lt.mpr hn), rfl⟩

theorem goes_awaited {i : Nat} (hdone : tasks[i]? = some .done) :
    Goes perf ⟨n, w, .awaiting i, tasks⟩ ⟨n, w, .awaiting (i + 1), tasks⟩ := by
  refine Goes.one .go fun s hs => ?_
  cases s
  cases hs
  apply Exists.intro
  constructor
  · simp only [Side.step, hdone]
    rfl
  · rfl

theorem goes_complete {i : Nat} (hwaiting : tasks[i]? = some .waiting) :
    Goes perf ⟨n, w, .awaiting i, tasks⟩
      ⟨n + 1, w, .running i (some i), tasks.set i .running⟩ := by
  refine Goes.one (.complete i) fun s hs => ?_
  cases s
  cases hs
  apply Exists.intro
  constructor
  · simp only [Side.step, hwaiting, and_self, if_true]
    rfl
  · rfl

theorem goes_warm {i : Nat} (hall : tasks[i]? = none) :
    Goes perf ⟨n, true, .awaiting i, tasks⟩ ⟨0, false, .spawning, []⟩ := by
  refine Goes.one .go fun s hs => ?_
  cases s
  cases hs
  apply Exists.intro
  constructor
  · simp only [Side.step, hall, Side.endPhase, if_true]
    rfl
  · rfl

theorem goes_finished {i : Nat} (hall : tasks[i]? = none) :
    Goes perf ⟨n, false, .awaiting i, tasks⟩ ⟨n, false, .finished, tasks⟩ := by
  refine Goes.one .go fun s hs => ?_
  cases s
  cases hs
  apply Exists.intro
  constructor
  · simp only [Side.step, hall, Side.endPhase, Bool.false_eq_true, if_false]
    rfl
  · rfl

/-! ## A phase -/

theorem set_concat (tasks : List Task) (x y : Task) :
    (tasks ++ [x]).set tasks.length y = tasks ++ [y] := by
  rw [List.set_append_right _ _ (Nat.le_refl _), Nat.sub_self]
  rfl

/-- A coroutine that starts posts an operation, which completes later. -/
theorem goes_waiting (hlen : tasks.length < perf.concurrency)
    (hn : n < perf.totalIterations w) :
    Goes perf ⟨n, w, .spawning, tasks⟩ ⟨n, w, .spawning, tasks ++ [.waiting]⟩ := by
  rw [← set_concat tasks .running .waiting]
  exact (goes_spawn hlen).trans (goes_later hn)

/-- A coroutine that starts at the limit ends. -/
theorem goes_ending (hlen : tasks.length < perf.concurrency) (hn : perf.totalIterations w ≤ n) :
    Goes perf ⟨n, w, .spawning, tasks⟩ ⟨n, w, .spawning, tasks ++ [.done]⟩ := by
  rw [← set_concat tasks .running .done]
  exact (goes_spawn hlen).trans (goes_ended hn)

/-- The operations of a coroutine that complete at once. -/
theorem goes_counting {i : Nat} {awaited : Option Nat} (m : Nat)
    (hm : n + m = perf.totalIterations w) :
    Goes perf ⟨n, w, .running i awaited, tasks⟩
      ⟨perf.totalIterations w, w, .running i awaited, tasks⟩ := by
  induction m generalizing n with
  | zero =>
    rw [← hm]
    exact .refl _
  | succ m ih => exact (goes_atOnce (by omega)).trans (ih (by omega))

/-- A coroutine that starts makes all operations up to the limit. -/
theorem goes_counted (hlen : tasks.length < perf.concurrency)
    (hn : n ≤ perf.totalIterations w) :
    Goes perf ⟨n, w, .spawning, tasks⟩
      ⟨perf.totalIterations w, w, .spawning, tasks ++ [.done]⟩ := by
  rw [← set_concat tasks .running .done]
  rcases Nat.exists_eq_add_of_le hn with ⟨m, hm⟩
  exact (goes_spawn hlen).trans ((goes_counting m hm.symm).trans (goes_ended (Nat.le_refl _)))

/-- The first `k` coroutines wait. -/
theorem goes_allWaiting {k : Nat} (hk : k ≤ perf.concurrency)
    (hpos : 0 < perf.totalIterations w) :
    Goes perf ⟨0, w, .spawning, []⟩ ⟨0, w, .spawning, List.replicate k .waiting⟩ := by
  induction k with
  | zero => exact .refl _
  | succ k ih =>
    rw [List.replicate_succ']
    refine (ih (Nat.le_of_succ_le hk)).trans (goes_waiting ?_ hpos)
    rw [List.length_replicate]
    exact hk

/-- The last `m` coroutines end when they start. -/
theorem goes_allEnding (m : Nat) (hn : perf.totalIterations w ≤ n)
    (hlen : tasks.length + m ≤ perf.concurrency) :
    Goes perf ⟨n, w, .spawning, tasks⟩ ⟨n, w, .spawning, tasks ++ List.replicate m .done⟩ := by
  induction m with
  | zero =>
    rw [List.replicate_zero, List.append_nil]
    exact .refl _
  | succ m ih =>
    rw [List.replicate_succ', ← List.append_assoc]
    refine (ih (by omega)).trans (goes_ending ?_ hn)
    rw [List.length_append, List.length_replicate]
    omega

/-- The operation that is awaited completes, and its coroutine ends. -/
theorem goes_completed {i : Nat} {before rest : List Task} (hi : before.length = i)
    (hn : perf.totalIterations w ≤ n + 1) :
    Goes perf ⟨n, w, .awaiting i, before ++ .waiting :: rest⟩
      ⟨n + 1, w, .awaiting (i + 1), before ++ .done :: rest⟩ := by
  have hget : ∀ x : Task, (before ++ x :: rest)[i]? = some x := by
    intro x
    rw [← hi, List.getElem?_append_right (Nat.le_refl _), Nat.sub_self]
    rfl
  have hset : ∀ x y : Task, (before ++ x :: rest).set i y = before ++ y :: rest := by
    intro x y
    rw [← hi, List.set_append_right _ _ (Nat.le_refl _), Nat.sub_self]
    rfl
  have hcomplete : Goes perf ⟨n, w, .awaiting i, before ++ .waiting :: rest⟩
      ⟨n + 1, w, .running i (some i), before ++ .running :: rest⟩ := by
    rw [← hset .waiting .running]
    exact goes_complete (hget .waiting)
  have hended : Goes perf ⟨n + 1, w, .running i (some i), before ++ .running :: rest⟩
      ⟨n + 1, w, .awaiting i, before ++ .done :: rest⟩ := by
    rw [← hset .running .done]
    exact goes_ended hn
  exact hcomplete.trans (hended.trans (goes_awaited (hget .done)))

/-- The operations that were in flight at the limit complete. -/
theorem goes_inFlight (k : Nat) {i : Nat} {rest : List Task} (hn : perf.totalIterations w ≤ n) :
    Goes perf ⟨n, w, .awaiting i, List.replicate i .done ++ (List.replicate k .waiting ++ rest)⟩
      ⟨n + k, w, .awaiting (i + k), List.replicate (i + k) .done ++ rest⟩ := by
  induction k generalizing i n with
  | zero => exact .refl _
  | succ k ih =>
    have hrest : Goes perf
        ⟨n + 1, w, .awaiting (i + 1),
          List.replicate (i + 1) .done ++ (List.replicate k .waiting ++ rest)⟩
        ⟨n + 1 + k, w, .awaiting (i + 1 + k), List.replicate (i + 1 + k) .done ++ rest⟩ :=
      ih (Nat.le_succ_of_le hn)
    rw [Nat.add_right_comm n 1 k, Nat.add_right_comm i 1 k, List.replicate_succ',
      List.append_assoc] at hrest
    exact (goes_completed List.length_replicate (Nat.le_succ_of_le hn)).trans hrest

/-- All that is left to await has ended. -/
theorem goes_done {c i : Nat} (m : Nat) (hm : i + m = c) :
    Goes perf ⟨n, w, .awaiting i, List.replicate c .done⟩
      ⟨n, w, .awaiting c, List.replicate c .done⟩ := by
  induction m generalizing i with
  | zero =>
    obtain rfl : i = c := hm
    exact .refl _
  | succ m ih =>
    refine (goes_awaited ?_).trans (ih (by omega))
    rw [List.getElem?_replicate, if_pos (by omega)]

/-- A phase that goes `k` beyond its limit. -/
theorem goes_phase {k : Nat} (hk : k < perf.concurrency)
    (hzero : perf.totalIterations w = 0 → k = 0) :
    Goes perf ⟨0, w, .spawning, []⟩ ⟨perf.totalIterations w + k, w, .awaiting perf.concurrency,
      List.replicate perf.concurrency .done⟩ := by
  rcases Nat.exists_eq_add_of_le hk with ⟨m, hm⟩
  have hwaiting : (List.replicate k Task.waiting).length = k := List.length_replicate
  let tasks := List.replicate k Task.waiting ++ Task.done :: List.replicate m Task.done
  -- the next coroutine makes the operations of the phase while `k` others wait
  have hstart : Goes perf ⟨0, w, .spawning, []⟩
      ⟨0, w, .spawning, List.replicate k .waiting⟩ := by
    rcases Nat.eq_zero_or_pos (perf.totalIterations w) with htotal | hpos
    · rw [hzero htotal]
      exact .refl _
    · exact goes_allWaiting (Nat.le_of_lt hk) hpos
  have hlimit : Goes perf ⟨0, w, .spawning, List.replicate k .waiting⟩
      ⟨perf.totalIterations w, w, .spawning, List.replicate k .waiting ++ [.done]⟩ :=
    goes_counted (by omega) (Nat.zero_le _)
  have hending : Goes perf
      ⟨perf.totalIterations w, w, .spawning, List.replicate k .waiting ++ [.done]⟩
      ⟨perf.totalIterations w, w, .spawning, tasks⟩ := by
    have hall : tasks = List.replicate k .waiting ++ [.done] ++ List.replicate m .done := by
      rw [List.append_assoc]
      rfl
    rw [hall]
    refine goes_allEnding m (Nat.le_refl _) ?_
    rw [List.length_append, List.length_singleton]
    omega
  have hspawned : Goes perf ⟨perf.totalIterations w, w, .spawning, tasks⟩
      ⟨perf.totalIterations w, w, .awaiting 0, tasks⟩ := by
    refine goes_spawned ?_
    simp only [tasks, List.length_append, List.length_cons, List.length_replicate]
    omega
  have hflight : Goes perf ⟨perf.totalIterations w, w, .awaiting 0, tasks⟩
      ⟨perf.totalIterations w + k, w, .awaiting k, List.replicate perf.concurrency .done⟩ := by
    have hall : List.replicate perf.concurrency Task.done =
        List.replicate k .done ++ (.done :: List.replicate m .done) := by
      rw [← List.replicate_succ, List.replicate_append_replicate]
      exact congrArg (List.replicate · Task.done) (by omega)
    have hgoes : Goes perf
        ⟨perf.totalIterations w, w, .awaiting 0, List.replicate 0 .done ++ tasks⟩
        ⟨perf.totalIterations w + k, w, .awaiting (0 + k),
          List.replicate (0 + k) .done ++ (.done :: List.replicate m .done)⟩ :=
      goes_inFlight k (Nat.le_refl _)
    rw [Nat.zero_add] at hgoes
    rw [hall]
    exact hgoes
  have hdone : Goes perf
      ⟨perf.totalIterations w + k, w, .awaiting k, List.replicate perf.concurrency .done⟩
      ⟨perf.totalIterations w + k, w, .awaiting perf.concurrency,
        List.replicate perf.concurrency .done⟩ :=
    goes_done (1 + m) (by omega)
  exact hstart.trans (hlimit.trans (hending.trans (hspawned.trans (hflight.trans hdone))))

/-! ## A side -/

/-- A side can report every such number. -/
theorem side_reports (hreports : Reports perf n) :
    ∃ acts s, Lts.run (Side.step perf) .init acts = some s ∧ s.pc = .finished ∧ s.counter = n := by
  rcases hreports with ⟨hle, hlt, hzero⟩
  rcases Nat.exists_eq_add_of_le hle with ⟨k, rfl⟩
  have hc : 0 < perf.concurrency := by omega
  have hall : (List.replicate perf.concurrency Task.done)[perf.concurrency]? = none :=
    List.getElem?_eq_none (Nat.le_of_eq List.length_replicate)
  have hwarm : Goes perf ⟨0, true, .spawning, []⟩ ⟨0, false, .spawning, []⟩ :=
    (goes_phase hc (fun _ => rfl)).trans (goes_warm hall)
  have htimed : Goes perf ⟨0, false, .spawning, []⟩ ⟨perf.iterations + k, false, .finished,
      List.replicate perf.concurrency .done⟩ := by
    have hextra : perf.totalIterations false = 0 → k = 0 := by
      intro htotal
      have hnone := hzero htotal
      omega
    exact (goes_phase (by omega) hextra).trans (goes_finished hall)
  rcases hwarm.trans htimed .init rfl with ⟨acts, s, hrun, hview⟩
  exact ⟨acts, s, hrun, congrArg View.pc hview, congrArg View.counter hview⟩

/-- A side reports no other number. -/
theorem Side.Inv.reports {s : Side} (hc : 1 ≤ perf.concurrency) (h : s.Inv perf)
    (hpc : s.pc = .finished) : Reports perf s.counter := by
  have hcounter := (h.account.counter_of_done hc (h.layout.finished hpc)).2
  have hlt := h.account.atLimit_lt
  have hzero := h.account.atLimit_zero
  rw [total_timed (h.account.last hpc)] at hcounter hzero
  refine ⟨by omega, by omega, fun hnone => ?_⟩
  have hatLimit := hzero hnone
  omega

/-! ## Both sides -/

/-- A run of the client. -/
theorem run_client {acts : List SideAct} {s : St} {client : Side}
    (hrun : Lts.run (Side.step perf) s.client acts = some client) :
    Lts.run (step perf) s (acts.map .client) = some { s with client := client } := by
  induction acts generalizing s with
  | nil =>
    obtain rfl := Option.some.inj hrun
    rfl
  | cons a acts ih =>
    rcases Lts.run_cons_some hrun with ⟨client₁, hstep, hrest⟩
    have hone : step perf s (.client a) = some { s with client := client₁ } := by
      simp only [step, hstep, Option.map_some]
    rw [List.map_cons, Lts.run_cons, hone, Option.bind_some]
    exact ih (s := { s with client := client₁ }) hrest

theorem completed_le {acts : List SideAct} {s s' : Side}
    (hrun : Lts.run (Side.step perf) s acts = some s') : s.completed ≤ s'.completed := by
  induction acts generalizing s with
  | nil =>
    obtain rfl := Option.some.inj hrun
    exact Nat.le_refl _
  | cons a acts ih =>
    rcases Lts.run_cons_some hrun with ⟨s₁, hstep, hrest⟩
    have hcompleted := Side.step_completed hstep
    have hle := ih hrest
    omega

/-- A run of the server, for which the client has sent enough. -/
theorem run_server {acts : List SideAct} {s : St} {server : Side}
    (hrun : Lts.run (Side.step perf) s.server acts = some server)
    (hsent : server.completed ≤ s.client.posts) :
    Lts.run (step perf) s (acts.map .server) = some { s with server := server } := by
  induction acts generalizing s with
  | nil =>
    obtain rfl := Option.some.inj hrun
    rfl
  | cons a acts ih =>
    rcases Lts.run_cons_some hrun with ⟨server₁, hstep, hrest⟩
    have hmessage : a.completes = true → s.server.completed < s.client.posts := by
      intro hcompletes
      have hcompleted := Side.step_completed hstep
      rw [if_pos hcompletes] at hcompleted
      have hle := completed_le hrest
      omega
    have hone : step perf s (.server a) = some { s with server := server₁ } := by
      simp only [step, if_pos hmessage, hstep, Option.map_some]
    rw [List.map_cons, Lts.run_cons, hone, Option.bind_some]
    exact ih (s := { s with server := server₁ }) hrest hsent

/-- The numbers that the client can report, and the server, are those from `iterations` to
`iterations + concurrency - 1`, and nothing but zero if there is nothing to count. -/
theorem reported_iff (perf : PerfContext) (hc : 1 ≤ perf.concurrency) (n : Nat) :
    ((∃ acts s, Lts.run (step perf) .init acts = some s ∧ s.client.pc = .finished ∧
        s.client.counter = n) ↔ Reports perf n) ∧
      ((∃ acts s, Lts.run (step perf) .init acts = some s ∧ s.server.pc = .finished ∧
        s.server.counter = n) ↔ Reports perf n) := by
  have hinv : ∀ {acts s}, Lts.run (step perf) .init acts = some s → Inv perf s :=
    fun hrun => Lts.run_invariant (Inv perf) (fun _ _ _ h _ hstep => h.step hc hstep)
      (Inv.init hc) (Lts.stepsMeet_true _ _) hrun
  refine ⟨⟨?_, fun hreports => ?_⟩, ⟨?_, fun hreports => ?_⟩⟩
  · rintro ⟨acts, s, hrun, hpc, rfl⟩
    exact (hinv hrun).client.reports hc hpc
  · rcases side_reports hreports with ⟨acts, client, hrun, hpc, hcounter⟩
    exact ⟨_, _, run_client (s := .init) hrun, hpc, hcounter⟩
  · rintro ⟨acts, s, hrun, hpc, rfl⟩
    exact (hinv hrun).server.reports hc hpc
  · -- the client first, and then the server in the same way
    rcases side_reports hreports with ⟨acts, side, hrun, hpc, hcounter⟩
    have hclient := run_client (s := .init) hrun
    have hposts := ((hinv hclient).client.finished_posts hc hpc).2.1
    have hserver := run_server (s := { St.init with client := side }) hrun (Nat.le_of_eq hposts)
    refine ⟨acts.map .client ++ acts.map .server, ⟨side, side⟩, ?_, hpc, hcounter⟩
    rw [Lts.run_append, hclient, Option.bind_some, hserver]

end

/-- Two coroutines that count to ten report eleven at the most. -/
theorem reported_two :
    (∃ acts s, Lts.run (step ⟨2, 0, 10⟩) .init acts = some s ∧ s.client.pc = .finished ∧
      s.client.counter = 11) ∧
    ¬∃ acts s, Lts.run (step ⟨2, 0, 10⟩) .init acts = some s ∧ s.client.pc = .finished ∧
      s.client.counter = 12 :=
  ⟨(reported_iff ⟨2, 0, 10⟩ (by decide) 11).1.mpr (by decide),
    fun h => absurd ((reported_iff ⟨2, 0, 10⟩ (by decide) 12).1.mp h) (by decide)⟩

end Ucxpp.Perftest
