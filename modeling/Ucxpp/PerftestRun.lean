import Ucxpp.Lib.Trace
import Ucxpp.Perftest

/-!
# PerftestRun — how many messages the two sides exchange

A phase posts as many operations as its limit, and one more for each operation that
was in flight when `g_counter` reached the limit (`Side.Inv.limit`): those coroutines
had tested the counter before. So the sides agree at the end of a run exactly if these
numbers are the same on both (`agree_iff`), which completions decide as they like
unless there is one coroutine only. Every run ends (`Side.rank`).
-/

namespace Ucxpp.Perftest

variable {perf : PerfContext} {s s' : Side}

theorem Side.total_warmup (h : s.warmup = true) : s.total perf = perf.warmupIterations := by
  rw [total, PerfContext.totalIterations, if_pos h]

theorem Side.total_timed (h : s.warmup = false) : s.total perf = perf.iterations := by
  rw [total, PerfContext.totalIterations, if_neg (ne_true_of_eq_false h)]

/-! ## The steps -/

/-- The steps of a side, one constructor for each way to take one. -/
inductive Side.Step (perf : PerfContext) (s : Side) : SideAct → Side → Prop where
  | spawn (hpc : s.pc = .spawning) (hlen : s.tasks.length < perf.concurrency) :
      Step perf s .go { s with
        tasks := s.tasks ++ [.running]
        pc := .running s.tasks.length none }
  | spawned (hpc : s.pc = .spawning) (hlen : perf.concurrency ≤ s.tasks.length) :
      Step perf s .go { s with pc := .awaiting 0 }
  | ended {i : Nat} {awaited : Option Nat} (hpc : s.pc = .running i awaited)
      (hlimit : s.total perf ≤ s.counter) :
      Step perf s .go { s with tasks := s.tasks.set i .done, pc := back awaited }
  | awaited {i : Nat} (hpc : s.pc = .awaiting i) (hdone : s.tasks[i]? = some .done) :
      Step perf s .go { s with pc := .awaiting (i + 1) }
  | endPhase {i : Nat} (hpc : s.pc = .awaiting i) (hlen : s.tasks.length ≤ i) :
      Step perf s .go s.endPhase
  | atOnce {i : Nat} {awaited : Option Nat} (hpc : s.pc = .running i awaited)
      (hlimit : s.counter < s.total perf) :
      Step perf s (.post true) (count perf { s with posts := s.posts + 1 })
  | pending {i : Nat} {awaited : Option Nat} (hpc : s.pc = .running i awaited)
      (hlimit : s.counter < s.total perf) :
      Step perf s (.post false) { s with
        posts := s.posts + 1
        tasks := s.tasks.set i .waiting
        pc := back awaited }
  | complete {i j : Nat} (hpc : s.pc = .awaiting j) (hi : s.tasks[i]? = some .waiting) :
      Step perf s (.complete i) (count perf { s with
        tasks := s.tasks.set i .running
        pc := .running i (some j) })

theorem Side.step_cases {a : SideAct} (h : s.step perf a = some s') : s.Step perf a s' := by
  cases a with
  | go =>
    cases hpc : s.pc with
    | spawning =>
      simp only [Side.step, hpc] at h
      split at h
      · rename_i hlen
        exact Option.some.inj h ▸ .spawn hpc hlen
      · rename_i hlen
        exact Option.some.inj h ▸ .spawned hpc (Nat.le_of_not_lt hlen)
    | running i awaited =>
      simp only [Side.step, hpc] at h
      split at h
      · cases h
      · rename_i hlimit
        exact Option.some.inj h ▸ .ended hpc (Nat.le_of_not_lt hlimit)
    | awaiting i =>
      simp only [Side.step, hpc] at h
      split at h
      · rename_i hdone
        exact Option.some.inj h ▸ .awaited hpc hdone
      · cases h
      · cases h
      · rename_i hnone
        exact Option.some.inj h ▸ .endPhase hpc (List.getElem?_eq_none_iff.mp hnone)
    | finished =>
      simp only [Side.step, hpc] at h
      cases h
  | post atOnce =>
    cases hpc : s.pc with
    | running i awaited =>
      simp only [Side.step, hpc] at h
      rcases Option.ite_none_right_eq_some.mp h with ⟨hlimit, h⟩
      cases atOnce with
      | true =>
        rw [← hpc] at h
        exact Option.some.inj h ▸ .atOnce hpc hlimit
      | false => exact Option.some.inj h ▸ .pending hpc hlimit
    | spawning | awaiting | finished =>
      simp only [Side.step, hpc] at h
      cases h
  | complete i =>
    cases hpc : s.pc with
    | awaiting j =>
      simp only [Side.step, hpc] at h
      rcases Option.ite_none_right_eq_some.mp h with ⟨⟨hi, -⟩, h⟩
      exact Option.some.inj h ▸ .complete hpc hi
    | spawning | running | finished =>
      simp only [Side.step, hpc] at h
      cases h

/-! ## The coroutines -/

/-- The operations in flight after a coroutine has changed from `t` to `u`. -/
theorem inFlight_set {tasks : List Task} {i : Nat} {t : Task} (ht : tasks[i]? = some t)
    (u : Task) :
    (tasks.set i u).count .waiting + (if t = .waiting then 1 else 0) =
      tasks.count .waiting + (if u = .waiting then 1 else 0) := by
  rcases List.getElem?_eq_some_iff.mp ht with ⟨hi, rfl⟩
  rw [List.count_set hi]
  by_cases hw : tasks[i] = .waiting
  · have hpos : 0 < tasks.count .waiting := List.count_pos_iff.mpr (hw ▸ List.getElem_mem hi)
    simp only [hw, beq_self_eq_true, if_true, beq_iff_eq]
    omega
  · simp only [hw, beq_iff_eq, if_false]
    omega

/-- A coroutine whose operation has completed is no longer in flight. -/
theorem inFlight_resume {tasks : List Task} {i : Nat} (hi : tasks[i]? = some .waiting) :
    (tasks.set i .running).count .waiting + 1 = tasks.count .waiting := by
  have hset := inFlight_set hi .running
  simpa only [if_true, reduceCtorEq, if_false, Nat.add_zero] using hset

/-- A coroutine that does not wait is one that is not in flight. -/
theorem inFlight_lt {tasks : List Task} {i : Nat} {t : Task} (ht : tasks[i]? = some t)
    (hne : t ≠ .waiting) : tasks.count .waiting < tasks.length := by
  apply Nat.lt_of_le_of_ne List.count_le_length
  intro heq
  exact hne (List.count_eq_length.mp heq t (List.mem_of_getElem? ht)).symm

/-- The coroutine that the side is suspended at. -/
def Pc.awaited : Pc → Option Nat
  | .spawning | .finished => none
  | .running _ awaited => awaited
  | .awaiting i => some i

@[simp] theorem back_awaited (awaited : Option Nat) : (back awaited).awaited = awaited := by
  cases awaited <;> rfl

theorem back_ne_running (awaited : Option Nat) (i : Nat) (other : Option Nat) :
    back awaited ≠ .running i other := by
  cases awaited <;> nofun

theorem back_ne_finished (awaited : Option Nat) : back awaited ≠ .finished := by
  cases awaited <;> nofun

/-- Which coroutines there are and which of them have ended. -/
structure Side.Layout (perf : PerfContext) (pc : Pc) (tasks : List Task) : Prop where
  running : ∀ i, tasks[i]? = some .running ↔ ∃ awaited, pc = .running i awaited
  spawned : tasks.length ≤ perf.concurrency
  full : pc.awaited ≠ none → tasks.length = perf.concurrency
  awaited : ∀ j, pc.awaited = some j →
    j ≤ perf.concurrency ∧ ∀ k < j, tasks[k]? = some .done
  finished : pc = .finished → tasks = List.replicate perf.concurrency .done

/-- The operations of a side. The first two fields say how many there are, the next
two how far a phase goes beyond its limit, and the last ones what that is at most. -/
structure Side.Account (perf : PerfContext) (s : Side) : Prop where
  posts : s.posts = s.completed + s.inFlight
  completed : s.completed = (if s.warmup then 0 else perf.warmupIterations) + s.earlier + s.counter
  below : s.counter < s.total perf → s.atLimit = 0
  limit : s.total perf ≤ s.counter → s.counter + s.inFlight = s.total perf + s.atLimit
  done : .done ∈ s.tasks → s.total perf ≤ s.counter
  first : s.warmup = true → s.earlier = 0
  last : s.pc = .finished → s.warmup = false
  atLimit_lt : s.atLimit < perf.concurrency
  earlier_lt : s.earlier < perf.concurrency
  atLimit_zero : s.total perf = 0 → s.atLimit = 0
  earlier_zero : perf.warmupIterations = 0 → s.earlier = 0

namespace Side.Layout

variable {pc : Pc} {tasks : List Task}

theorem init : Layout perf .spawning [] where
  running _ := iff_of_false nofun fun ⟨_, h⟩ => by cases h
  spawned := Nat.zero_le _
  full h := absurd rfl h
  awaited _ h := by cases h
  finished h := by cases h

theorem spawn (h : Layout perf .spawning tasks) (hlen : tasks.length < perf.concurrency) :
    Layout perf (.running tasks.length none) (tasks ++ [.running]) where
  running i := by
    have hold : tasks[i]? ≠ some .running := fun hrunning => by
      rcases (h.running i).mp hrunning with ⟨_, hpc⟩
      cases hpc
    rw [Trace.getElem?_concat, or_iff_right hold]
    constructor
    · rintro ⟨rfl, -⟩
      exact ⟨none, rfl⟩
    · rintro ⟨awaited, hpc⟩
      exact ⟨(Pc.running.inj hpc).1.symm, rfl⟩
  spawned := by
    rw [List.length_append]
    exact hlen
  full hne := absurd rfl hne
  awaited _ hj := by cases hj
  finished hpc := by cases hpc

theorem allSpawned (h : Layout perf .spawning tasks) (hlen : perf.concurrency ≤ tasks.length) :
    Layout perf (.awaiting 0) tasks where
  running i := by
    rw [h.running]
    constructor <;> exact fun ⟨_, hpc⟩ => by cases hpc
  spawned := h.spawned
  full _ := Nat.le_antisymm h.spawned hlen
  awaited j hj := by
    obtain rfl := Option.some.inj hj
    exact ⟨Nat.zero_le _, fun k hk => absurd hk (Nat.not_lt_zero k)⟩
  finished hpc := by cases hpc

/-- A coroutine gives control back. -/
theorem giveBack {i : Nat} {awaited : Option Nat} {t : Task}
    (h : Layout perf (.running i awaited) tasks) (ht : t ≠ .running) :
    Layout perf (back awaited) (tasks.set i t) := by
  have hi : tasks[i]? = some .running := (h.running i).mpr ⟨awaited, rfl⟩
  have hlt : i < tasks.length := (List.getElem?_eq_some_iff.mp hi).1
  constructor
  · intro k
    refine iff_of_false (fun hk => ?_) fun ⟨_, hpc⟩ => back_ne_running _ _ _ hpc
    by_cases hki : k = i
    · subst hki
      rw [List.getElem?_set_self hlt] at hk
      exact ht (Option.some.inj hk)
    · rw [List.getElem?_set_ne (Ne.symm hki)] at hk
      rcases (h.running k).mp hk with ⟨_, hpc⟩
      exact hki (Pc.running.inj hpc).1.symm
  · rw [List.length_set]
    exact h.spawned
  · rw [back_awaited, List.length_set]
    exact h.full
  · intro j hj
    rw [back_awaited] at hj
    rcases h.awaited j hj with ⟨hjc, hdone⟩
    refine ⟨hjc, fun k hk => ?_⟩
    have hki : i ≠ k := by
      rintro rfl
      rw [hdone i hk] at hi
      cases hi
    rw [List.getElem?_set_ne hki]
    exact hdone k hk
  · exact fun hpc => absurd hpc (back_ne_finished awaited)

theorem next {i : Nat} (h : Layout perf (.awaiting i) tasks) (hdone : tasks[i]? = some .done) :
    Layout perf (.awaiting (i + 1)) tasks where
  running k := by
    rw [h.running]
    constructor <;> exact fun ⟨_, hpc⟩ => by cases hpc
  spawned := h.spawned
  full _ := h.full nofun
  awaited j hj := by
    obtain rfl := Option.some.inj hj
    have hlt : i < tasks.length := (List.getElem?_eq_some_iff.mp hdone).1
    refine ⟨Nat.lt_of_lt_of_le hlt h.spawned, fun k hk => ?_⟩
    rcases Nat.lt_succ_iff_lt_or_eq.mp hk with hlow | rfl
    · exact (h.awaited i rfl).2 k hlow
    · exact hdone
  finished hpc := by cases hpc

/-- When all have been awaited, all have ended. -/
theorem all_done {i : Nat} (h : Layout perf (.awaiting i) tasks) (hlen : tasks.length ≤ i) :
    tasks = List.replicate perf.concurrency .done := by
  apply List.eq_replicate_iff.mpr
  refine ⟨h.full nofun, fun t ht => ?_⟩
  rcases List.getElem_of_mem ht with ⟨k, hk, rfl⟩
  have hdone := (h.awaited i rfl).2 k (Nat.lt_of_lt_of_le hk hlen)
  rw [List.getElem?_eq_getElem hk] at hdone
  exact Option.some.inj hdone

theorem finish : Layout perf .finished (List.replicate perf.concurrency .done) where
  running i := by
    refine iff_of_false (fun hi => ?_) fun ⟨_, hpc⟩ => by cases hpc
    have hmem := List.mem_of_getElem? hi
    cases List.eq_of_mem_replicate hmem
  spawned := Nat.le_of_eq List.length_replicate
  full h := absurd rfl h
  awaited _ h := by cases h
  finished _ := rfl

theorem resume {i j : Nat} (h : Layout perf (.awaiting j) tasks)
    (hi : tasks[i]? = some .waiting) :
    Layout perf (.running i (some j)) (tasks.set i .running) := by
  have hlt : i < tasks.length := (List.getElem?_eq_some_iff.mp hi).1
  constructor
  · intro k
    by_cases hki : k = i
    · subst hki
      rw [List.getElem?_set_self hlt]
      exact iff_of_true rfl ⟨some j, rfl⟩
    · rw [List.getElem?_set_ne (Ne.symm hki), h.running]
      refine iff_of_false (fun ⟨_, hpc⟩ => by cases hpc) fun ⟨_, hpc⟩ => ?_
      exact hki (Pc.running.inj hpc).1.symm
  · rw [List.length_set]
    exact h.spawned
  · rw [List.length_set]
    exact fun _ => h.full nofun
  · intro j' hj'
    rcases h.awaited j' hj' with ⟨hjc, hdone⟩
    refine ⟨hjc, fun k hk => ?_⟩
    have hki : i ≠ k := by
      rintro rfl
      rw [hdone i hk] at hi
      cases hi
    rw [List.getElem?_set_ne hki]
    exact hdone k hk
  · exact fun hpc => by cases hpc

/-- While none has ended, all coroutines wait. -/
theorem all_waiting {j : Nat} (h : Layout perf (.awaiting j) tasks) (hdone : .done ∉ tasks) :
    tasks.count .waiting = perf.concurrency := by
  rw [← h.full nofun]
  apply List.count_eq_length.mpr
  intro t ht
  cases t with
  | waiting => rfl
  | running =>
    rcases List.getElem?_of_mem ht with ⟨k, hk⟩
    rcases (h.running k).mp hk with ⟨_, hpc⟩
    cases hpc
  | done => exact absurd ht hdone

end Side.Layout

/-! ## The operations -/

namespace Side.Account

theorem init (hc : 1 ≤ perf.concurrency) : Account perf .init where
  posts := rfl
  completed := rfl
  below _ := rfl
  limit hlimit := (Nat.le_zero.mp hlimit).symm
  done hmem := by cases hmem
  first _ := rfl
  last hpc := by cases hpc
  atLimit_lt := hc
  earlier_lt := hc
  atLimit_zero _ := rfl
  earlier_zero _ := rfl

/-- A step that completes and posts nothing. -/
theorem quiet (h : Account perf s) {pc : Pc} {tasks : List Task}
    (hflight : tasks.count .waiting = s.tasks.count .waiting)
    (hdone : .done ∈ tasks → .done ∈ s.tasks ∨ s.total perf ≤ s.counter) (hpc : pc ≠ .finished) :
    Account perf { s with tasks := tasks, pc := pc } where
  posts := by
    rw [h.posts, inFlight, inFlight, ← hflight]
  completed := h.completed
  below := h.below
  limit hlimit := by
    have hold := h.limit hlimit
    rw [inFlight, ← hflight] at hold
    exact hold
  done hmem := (hdone hmem).elim h.done id
  first := h.first
  last heq := absurd heq hpc
  atLimit_lt := h.atLimit_lt
  earlier_lt := h.earlier_lt
  atLimit_zero := h.atLimit_zero
  earlier_zero := h.earlier_zero

/-- A coroutine waits for the operation that it has posted. -/
theorem post (h : Account perf s) {pc : Pc} {tasks : List Task}
    (hlimit : s.counter < s.total perf)
    (hflight : tasks.count .waiting = s.tasks.count .waiting + 1)
    (hdone : .done ∈ tasks → .done ∈ s.tasks) (hpc : pc ≠ .finished) :
    Account perf { s with posts := s.posts + 1, tasks := tasks, pc := pc } where
  posts := by
    simp only [h.posts, inFlight, hflight, Nat.add_assoc]
  completed := h.completed
  below := h.below
  limit hle := absurd hlimit (Nat.not_lt_of_le hle)
  done hmem := h.done (hdone hmem)
  first := h.first
  last heq := absurd heq hpc
  atLimit_lt := h.atLimit_lt
  earlier_lt := h.earlier_lt
  atLimit_zero := h.atLimit_zero
  earlier_zero := h.earlier_zero

/-- An operation is counted. Behind the limit the coroutine that counts was one of
those in flight. -/
theorem counted (h : Account perf s) {pc : Pc} {tasks : List Task} {posts : Nat}
    (hposts : posts = s.completed + 1 + tasks.count .waiting)
    (hlimit : s.total perf ≤ s.counter →
      s.counter + 1 + tasks.count .waiting = s.total perf + s.atLimit)
    (htotal : 0 < s.total perf) (hfree : tasks.count .waiting < perf.concurrency)
    (hdone : .done ∈ tasks → .done ∈ s.tasks) (hpc : pc ≠ .finished) :
    Account perf (count perf { s with posts := posts, tasks := tasks, pc := pc }) := by
  have hcounted : (count perf { s with posts := posts, tasks := tasks, pc := pc }).atLimit =
      if s.counter + 1 = s.total perf then tasks.count .waiting else s.atLimit := rfl
  constructor
  · exact hposts
  · have hcompleted := h.completed
    simp only [Side.count] at hcompleted ⊢
    omega
  · intro hlt
    have hlow : s.counter + 1 < s.total perf := hlt
    rw [hcounted, if_neg (Nat.ne_of_lt hlow)]
    exact h.below (Nat.lt_of_succ_lt hlow)
  · intro hle
    rw [hcounted]
    by_cases heq : s.counter + 1 = s.total perf
    · -- the limit is reached now
      rw [if_pos heq]
      exact congrArg (· + tasks.count .waiting) heq
    · rw [if_neg heq]
      exact hlimit (Nat.le_of_lt_succ (Nat.lt_of_le_of_ne hle (Ne.symm heq)))
  · intro hmem
    exact Nat.le_succ_of_le (h.done (hdone hmem))
  · exact h.first
  · exact fun heq => absurd heq hpc
  · rw [hcounted]
    split
    · exact hfree
    · exact h.atLimit_lt
  · exact h.earlier_lt
  · exact fun hzero => absurd hzero (Nat.ne_of_gt htotal)
  · exact h.earlier_zero

/-- When all coroutines have ended, the phase went beyond its limit by what was in
flight there. -/
theorem counter_of_done (h : Account perf s) (hc : 1 ≤ perf.concurrency)
    (htasks : s.tasks = List.replicate perf.concurrency .done) :
    s.inFlight = 0 ∧ s.counter = s.total perf + s.atLimit := by
  have hflight : s.inFlight = 0 := by
    rw [inFlight, htasks]
    exact List.count_eq_zero_of_not_mem fun hmem => nomatch List.eq_of_mem_replicate hmem
  have hlimit := h.limit (h.done (by
    rw [htasks]
    exact List.mem_replicate.mpr ⟨Nat.ne_of_gt hc, rfl⟩))
  rw [hflight] at hlimit
  exact ⟨hflight, hlimit⟩

theorem endPhase (h : Account perf s) (hc : 1 ≤ perf.concurrency)
    (htasks : s.tasks = List.replicate perf.concurrency .done) : Account perf s.endPhase := by
  rcases h.counter_of_done hc htasks with ⟨hflight, hcounter⟩
  unfold Side.endPhase
  split
  · rename_i hwarmup
    have hearlier := h.first hwarmup
    have htotal : s.total perf = perf.warmupIterations := total_warmup hwarmup
    constructor
    · exact h.posts.trans (by rw [hflight]; rfl)
    · have hcompleted := h.completed
      simp only [hwarmup, if_true] at hcompleted
      simp only [Bool.false_eq_true, if_false]
      omega
    · exact fun _ => rfl
    · exact fun hle => (Nat.le_zero.mp hle).symm
    · exact fun hmem => by cases hmem
    · exact fun hfalse => by cases hfalse
    · exact fun hpc => by cases hpc
    · exact hc
    · rw [hearlier, Nat.zero_add]
      exact h.atLimit_lt
    · exact fun _ => rfl
    · intro hzero
      rw [hearlier, h.atLimit_zero (htotal.trans hzero)]
  · rename_i hwarmup
    exact ⟨h.posts, h.completed, h.below, h.limit, h.done, h.first,
      fun _ => eq_false_of_ne_true hwarmup, h.atLimit_lt, h.earlier_lt, h.atLimit_zero,
      h.earlier_zero⟩

end Side.Account

/-- What holds of a side in every run. -/
structure Side.Inv (perf : PerfContext) (s : Side) : Prop where
  layout : Layout perf s.pc s.tasks
  account : s.Account perf

theorem Side.Inv.init (hc : 1 ≤ perf.concurrency) : Inv perf .init :=
  ⟨.init, .init hc⟩

/-- UCX answers a post at once. -/
theorem Side.Inv.atOnce {i : Nat} {awaited : Option Nat} (h : s.Inv perf)
    (hpc : s.pc = .running i awaited) (hlimit : s.counter < s.total perf) :
    Inv perf (count perf { s with posts := s.posts + 1 }) := by
  have hrunning := (h.layout.running i).mpr ⟨awaited, hpc⟩
  refine ⟨h.layout, ?_⟩
  apply h.account.counted
  · rw [h.account.posts, inFlight, Nat.add_right_comm]
  · exact fun hle => absurd hlimit (Nat.not_lt_of_le hle)
  · exact Nat.lt_of_le_of_lt (Nat.zero_le _) hlimit
  · exact Nat.lt_of_lt_of_le (inFlight_lt hrunning nofun) h.layout.spawned
  · exact id
  · rw [hpc]
    nofun

/-- An operation completes while the side is suspended. -/
theorem Side.Inv.resume {i j : Nat} (h : s.Inv perf) (hpc : s.pc = .awaiting j)
    (hi : s.tasks[i]? = some .waiting) :
    Inv perf (count perf { s with
      tasks := s.tasks.set i .running
      pc := .running i (some j) }) := by
  have hposts := h.account.posts
  have hlimit := h.account.limit
  rw [inFlight, ← inFlight_resume hi] at hposts hlimit
  refine ⟨(hpc ▸ h.layout).resume hi, ?_⟩
  apply h.account.counted
  · omega
  · intro hle
    have hold := hlimit hle
    omega
  · -- without a limit there would be nothing to complete
    apply Nat.pos_of_ne_zero
    intro hzero
    have hold := hlimit (by rw [hzero]; exact Nat.zero_le _)
    have hnone := h.account.atLimit_zero hzero
    omega
  · -- the coroutine itself is not in flight
    have hlt := inFlight_resume hi
    have hle : s.tasks.count .waiting ≤ s.tasks.length := List.count_le_length
    have hspawned := h.layout.spawned
    omega
  · intro hmem
    exact (List.mem_or_eq_of_mem_set hmem).resolve_right nofun
  · nofun

theorem Side.Inv.step {a : SideAct} (hc : 1 ≤ perf.concurrency) (h : s.Inv perf)
    (hstep : s.step perf a = some s') : s'.Inv perf := by
  rcases h with ⟨hlayout, haccount⟩
  cases Side.step_cases hstep with
  | spawn hpc hlen =>
    rw [hpc] at hlayout
    refine ⟨hlayout.spawn hlen, haccount.quiet ?_ (fun hmem => .inl ?_) nofun⟩
    · rw [List.count_append]
      rfl
    · rcases List.mem_append.mp hmem with hold | hnew
      · exact hold
      · cases List.mem_singleton.mp hnew
  | spawned hpc hlen =>
    rw [hpc] at hlayout
    exact ⟨hlayout.allSpawned hlen, haccount.quiet rfl .inl nofun⟩
  | ended hpc hlimit =>
    rw [hpc] at hlayout
    have hset := inFlight_set ((hlayout.running _).mpr ⟨_, rfl⟩) .done
    exact ⟨hlayout.giveBack nofun,
      haccount.quiet hset (fun _ => .inr hlimit) (back_ne_finished _)⟩
  | awaited hpc hdone =>
    rw [hpc] at hlayout
    exact ⟨hlayout.next hdone, haccount.quiet rfl .inl nofun⟩
  | endPhase hpc hlen =>
    rw [hpc] at hlayout
    have htasks := hlayout.all_done hlen
    refine ⟨?_, haccount.endPhase hc htasks⟩
    unfold Side.endPhase
    split
    · exact .init
    · rw [htasks]
      exact .finish
  | atOnce hpc hlimit => exact Side.Inv.atOnce ⟨hlayout, haccount⟩ hpc hlimit
  | pending hpc hlimit =>
    rw [hpc] at hlayout
    have hrunning := (hlayout.running _).mpr ⟨_, rfl⟩
    refine ⟨hlayout.giveBack nofun, ?_⟩
    apply haccount.post hlimit
    · exact inFlight_set hrunning .waiting
    · intro hmem
      exact (List.mem_or_eq_of_mem_set hmem).resolve_right nofun
    · exact back_ne_finished _
  | complete hpc hi => exact Side.Inv.resume ⟨hlayout, haccount⟩ hpc hi

/-! ## The end of a run -/

/-- A side that has not finished can go on by itself, post an operation, or has an
operation to wait for. -/
theorem Side.Inv.progress (h : s.Inv perf) (hpc : s.pc ≠ .finished) :
    (s.step perf .go).isSome = true ∨
      (∀ atOnce, (s.step perf (.post atOnce)).isSome = true) ∨
      (0 < s.inFlight ∧ ∃ i, (s.step perf (.complete i)).isSome = true) := by
  cases hcase : s.pc with
  | spawning =>
    left
    by_cases hlen : s.tasks.length < perf.concurrency
    · simp only [Side.step, hcase, if_pos hlen, Option.isSome_some]
    · simp only [Side.step, hcase, if_neg hlen, Option.isSome_some]
  | running i awaited =>
    by_cases hlimit : s.counter < s.total perf
    · right; left
      intro atOnce
      cases atOnce <;> simp [Side.step, hcase, hlimit]
    · left
      simp only [Side.step, hcase, if_neg hlimit, Option.isSome_some]
  | awaiting j =>
    cases htask : s.tasks[j]? with
    | none =>
      left
      simp only [Side.step, hcase, htask, Option.isSome_some]
    | some t =>
      cases t with
      | done =>
        left
        simp only [Side.step, hcase, htask, Option.isSome_some]
      | running =>
        rcases (h.layout.running j).mp htask with ⟨_, hrunning⟩
        rw [hcase] at hrunning
        cases hrunning
      | waiting =>
        right; right
        refine ⟨List.count_pos_iff.mpr (List.mem_of_getElem? htask), j, ?_⟩
        simp only [Side.step, hcase, htask, and_self, if_true, Option.isSome_some]
  | finished => exact absurd hcase hpc

/-- A side that has finished made the operations of its limits and those beyond. -/
theorem Side.Inv.finished_posts (hc : 1 ≤ perf.concurrency) (h : s.Inv perf)
    (hpc : s.pc = .finished) :
    s.inFlight = 0 ∧ s.completed = s.posts ∧
      s.posts = perf.warmupIterations + perf.iterations + s.atLimits := by
  rcases h.account.counter_of_done hc (h.layout.finished hpc) with ⟨hflight, hcounter⟩
  have hposts := h.account.posts
  have hcompleted := h.account.completed
  have hwarmup := h.account.last hpc
  rw [total_timed hwarmup] at hcounter
  simp only [hwarmup, Bool.false_eq_true, if_false] at hcompleted
  refine ⟨hflight, ?_, ?_⟩
  · omega
  · rw [atLimits]
    omega

/-- A side that still waits after `extra` operations more than its limits went beyond
them by more than that. -/
theorem Side.Inv.extra_lt (h : s.Inv perf) {extra : Nat} (hflight : 0 < s.inFlight)
    (hextra : s.completed = perf.warmupIterations + perf.iterations + extra) :
    extra < s.atLimits := by
  have hcompleted := h.account.completed
  have hbelow := h.account.below
  have hlimit := h.account.limit
  rw [atLimits]
  cases hwarmup : s.warmup with
  | true =>
    have hfirst := h.account.first hwarmup
    rw [total_warmup hwarmup] at hbelow hlimit
    simp only [hwarmup, if_true] at hcompleted
    omega
  | false =>
    rw [total_timed hwarmup] at hbelow hlimit
    simp only [hwarmup, Bool.false_eq_true, if_false] at hcompleted
    omega

theorem Side.step_posts {a : SideAct} (h : s.step perf a = some s') : s.posts ≤ s'.posts := by
  cases Side.step_cases h with
  | spawn | spawned | ended | awaited | complete => exact Nat.le_refl _
  | atOnce | pending => exact Nat.le_succ _
  | endPhase =>
    unfold Side.endPhase
    split <;> exact Nat.le_refl _

theorem Side.step_completed {a : SideAct} (h : s.step perf a = some s') :
    s'.completed = s.completed + (if a.completes = true then 1 else 0) := by
  cases Side.step_cases h with
  | spawn | spawned | ended | awaited | complete | atOnce | pending => rfl
  | endPhase =>
    unfold Side.endPhase
    split <;> rfl

/-! ## Both sides -/

/-- The steps of both sides. -/
inductive Step (perf : PerfContext) (s : St) : Act → St → Prop where
  | client {a : SideAct} {client : Side} (hstep : s.client.step perf a = some client) :
      Step perf s (.client a) { s with client := client }
  | server {a : SideAct} {server : Side} (hstep : s.server.step perf a = some server)
      (hmessage : a.completes = true → s.server.completed < s.client.posts) :
      Step perf s (.server a) { s with server := server }

theorem step_cases {s s' : St} {a : Act} (h : step perf s a = some s') : Step perf s a s' := by
  cases a with
  | client a =>
    rcases Option.map_eq_some_iff.mp h with ⟨client, hstep, rfl⟩
    exact .client hstep
  | server a =>
    rcases Option.ite_none_right_eq_some.mp h with ⟨hmessage, h⟩
    rcases Option.map_eq_some_iff.mp h with ⟨server, hstep, rfl⟩
    exact .server hstep hmessage

structure Inv (perf : PerfContext) (s : St) : Prop where
  client : s.client.Inv perf
  server : s.server.Inv perf
  sent : s.server.completed ≤ s.client.posts

theorem Inv.init (hc : 1 ≤ perf.concurrency) : Inv perf .init :=
  ⟨.init hc, .init hc, Nat.le_refl _⟩

theorem Inv.step {s s' : St} {a : Act} (hc : 1 ≤ perf.concurrency) (h : Inv perf s)
    (hstep : step perf s a = some s') : Inv perf s' := by
  cases step_cases hstep with
  | client hside =>
    exact ⟨h.client.step hc hside, h.server, Nat.le_trans h.sent (Side.step_posts hside)⟩
  | server hside hmessage =>
    refine ⟨h.client, h.server.step hc hside, ?_⟩
    have hsent := h.sent
    have hcompleted := Side.step_completed hside
    split at hcompleted
    · rename_i hcompletes
      have hlt := hmessage hcompletes
      simp only
      omega
    · simp only
      omega

section

variable {s : St}

/-- Sends always complete, so the client finishes. -/
theorem terminal_client (h : Inv perf s) (hterm : Terminal perf s) :
    s.client.pc = .finished := by
  have hnone : ∀ a, ¬(s.client.step perf a).isSome = true := by
    intro a
    have hstep := Option.map_eq_none_iff.mp (hterm (.client a))
    rw [hstep]
    exact Bool.false_ne_true
  by_contra hpc
  rcases h.client.progress hpc with hgo | hpost | ⟨-, i, hcomplete⟩
  · exact hnone _ hgo
  · exact hnone _ (hpost true)
  · exact hnone _ hcomplete

/-- The server finishes, or it waits for messages that do not come. -/
theorem terminal_server (h : Inv perf s) (hterm : Terminal perf s) :
    s.server.pc = .finished ∨
      (0 < s.server.inFlight ∧ s.server.completed = s.client.posts) := by
  have hnone : ∀ a, (a.completes = true → s.server.completed < s.client.posts) →
      ¬(s.server.step perf a).isSome = true := by
    intro a hmessage
    have hstep := hterm (.server a)
    rw [step, if_pos hmessage] at hstep
    rw [Option.map_eq_none_iff.mp hstep]
    exact Bool.false_ne_true
  by_cases hpc : s.server.pc = .finished
  · exact .inl hpc
  · rcases h.server.progress hpc with hgo | hpost | ⟨hflight, i, hcomplete⟩
    · exact absurd hgo (hnone .go nofun)
    · exact absurd (hpost false) (hnone (.post false) nofun)
    · refine .inr ⟨hflight, Nat.le_antisymm h.sent (Nat.le_of_not_lt fun hlt => ?_)⟩
      exact hnone (.complete i) (fun _ => hlt) hcomplete

/-- At the end of a run, the sides agree iff as many operations were in flight at the
limits on one side as on the other. -/
theorem agree_iff (hc : 1 ≤ perf.concurrency) (h : Inv perf s) (hterm : Terminal perf s) :
    Agree s ↔ s.client.atLimits = s.server.atLimits := by
  rcases h.client.finished_posts hc (terminal_client h hterm) with ⟨-, -, hclient⟩
  rcases terminal_server h hterm with hpc | ⟨hflight, hcompleted⟩
  · rcases h.server.finished_posts hc hpc with ⟨hflight, hcompleted, hserver⟩
    constructor
    · intro hagree
      have hposts := hagree.posts
      omega
    · intro heq
      have hposts : s.client.posts = s.server.posts := by omega
      exact ⟨hposts, hflight, hcompleted.trans hposts.symm⟩
  · have hlt := h.server.extra_lt hflight (hcompleted.trans hclient)
    constructor
    · intro hagree
      exact absurd hagree.waiting (Nat.ne_of_gt hflight)
    · intro heq
      exact absurd heq (Nat.ne_of_lt hlt)

/-- What is in flight at a limit needs a second coroutine, and an operation. -/
theorem Side.Inv.atLimits_zero {s : Side} (h : s.Inv perf)
    (hperf : perf.concurrency = 1 ∨ (perf.warmupIterations = 0 ∧ perf.iterations = 0)) :
    s.atLimits = 0 := by
  rw [atLimits]
  rcases hperf with hc | ⟨hwarmup, hiterations⟩
  · have hatLimit := h.account.atLimit_lt
    have hearlier := h.account.earlier_lt
    omega
  · have htotal : s.total perf = 0 := by
      rw [total, PerfContext.totalIterations, hwarmup, hiterations, ite_self]
    rw [h.account.atLimit_zero htotal, h.account.earlier_zero hwarmup]

end

end Ucxpp.Perftest
