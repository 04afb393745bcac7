import Ucxpp.PerftestRun

/-!
# PerftestAgree — when the two sides agree

Every step lowers a rank, so every run ends. With one coroutine nothing is in flight
at a limit. With more of them there is a run in which every send completes at once and
every receive later (`Apart`): it leaves the client with as many messages as its
limits say and the server with more receives.
-/

namespace Ucxpp.Perftest

variable {perf : PerfContext} {s s' : Side}

/-! ## The rank -/

def Pc.rank (concurrency : Nat) : Pc → Nat
  | .spawning => concurrency + 2
  | .running _ none => concurrency + 3
  | .running _ (some j) => concurrency + 2 - j
  | .awaiting j => concurrency + 1 - j
  | .finished => 0

/-- The steps that are left of a phase: operations to count, coroutines to start. -/
def phaseRank (concurrency total counter spawned : Nat) : Nat :=
  2 * (total + concurrency - counter) + 2 * (concurrency - spawned)

/-- The steps of the phase that is still to come. -/
def laterRank (perf : PerfContext) : Bool → Nat
  | true => phaseRank perf.concurrency perf.iterations 0 0 + Pc.spawning.rank perf.concurrency
  | false => 0

def Side.rank (perf : PerfContext) (s : Side) : Nat :=
  phaseRank perf.concurrency (s.total perf) s.counter s.tasks.length +
    s.pc.rank perf.concurrency + laterRank perf s.warmup

theorem rank_back (perf : PerfContext) (i : Nat) (awaited : Option Nat)
    (h : ∀ j, (Pc.running i awaited).awaited = some j → j ≤ perf.concurrency) :
    (back awaited).rank perf.concurrency < (Pc.running i awaited).rank perf.concurrency := by
  cases awaited with
  | none => exact Nat.lt_succ_self _
  | some j =>
    have hj := h j rfl
    simp only [back, Pc.rank]
    omega

/-- A step that counts an operation is below the end of the phase. -/
theorem Side.Account.counter_lt (h : s.Account perf) (hflight : 0 < s.inFlight) :
    s.counter < s.total perf + perf.concurrency := by
  have hlimit := h.limit
  have hatLimit := h.atLimit_lt
  omega

theorem Side.rank_lt {a : SideAct} (hc : 1 ≤ perf.concurrency) (h : s.Inv perf)
    (hstep : s.step perf a = some s') : s'.rank perf < s.rank perf := by
  cases Side.step_cases hstep with
  | spawn hpc hlen =>
    simp only [Side.rank, hpc, Pc.rank, phaseRank, List.length_append, List.length_singleton,
      Side.total]
    omega
  | spawned hpc hlen =>
    simp only [Side.rank, hpc, Pc.rank, Side.total]
    omega
  | @ended i awaited hpc hlimit =>
    have hback := rank_back perf i awaited fun j hj =>
      (h.layout.awaited j (by rw [hpc]; exact hj)).1
    simp only [Side.rank, hpc, List.length_set, Side.total]
    omega
  | @awaited i hpc hdone =>
    have hi := (h.layout.awaited i (by rw [hpc]; rfl)).1
    simp only [Side.rank, hpc, Pc.rank, Side.total]
    omega
  | @endPhase i hpc hlen =>
    have hi := (h.layout.awaited i (by rw [hpc]; rfl)).1
    unfold Side.endPhase
    split
    · rename_i hwarmup
      simp only [Side.rank, hpc, hwarmup, Pc.rank, phaseRank, laterRank, Side.total,
        PerfContext.totalIterations, List.length_nil, if_true, Bool.false_eq_true, if_false]
      omega
    · simp only [Side.rank, hpc, Pc.rank, Side.total]
      omega
  | atOnce hpc hlimit =>
    simp only [Side.rank, Side.count, phaseRank, Side.total] at hlimit ⊢
    omega
  | @pending i awaited hpc hlimit =>
    have hback := rank_back perf i awaited fun j hj =>
      (h.layout.awaited j (by rw [hpc]; exact hj)).1
    simp only [Side.rank, hpc, List.length_set, Side.total]
    omega
  | @complete i j hpc hi =>
    have hj := (h.layout.awaited j (by rw [hpc]; rfl)).1
    have hlt := h.account.counter_lt (List.count_pos_iff.mpr (List.mem_of_getElem? hi))
    simp only [Side.rank, Side.count, hpc, Pc.rank, phaseRank, List.length_set, Side.total]
      at hlt ⊢
    omega

def St.rank (perf : PerfContext) (s : St) : Nat :=
  s.client.rank perf + s.server.rank perf

theorem rank_lt {s s' : St} {a : Act} (hc : 1 ≤ perf.concurrency) (h : Inv perf s)
    (hstep : step perf s a = some s') : s'.rank perf < s.rank perf := by
  cases step_cases hstep with
  | client hside => exact Nat.add_lt_add_right (Side.rank_lt hc h.client hside) _
  | server hside => exact Nat.add_lt_add_left (Side.rank_lt hc h.server hside) _

/-! ## Sends at once, receives later -/

/-- UCX answers each send at once and no receive. -/
def Apart (_ : St) (a : Act) : Prop :=
  a ≠ .client (.post false) ∧ a ≠ .server (.post true)

theorem apart_client {s : St} {a : SideAct} : Apart s (.client a) ↔ a ≠ .post false := by
  simp only [Apart, ne_eq, Act.client.injEq, reduceCtorEq, not_false_eq_true, and_true]

theorem apart_server {s : St} {a : SideAct} : Apart s (.server a) ↔ a ≠ .post true := by
  simp only [Apart, ne_eq, Act.server.injEq, reduceCtorEq, not_false_eq_true, true_and]

/-- A side on which each operation completes at once. -/
structure Side.AllAtOnce (s : Side) : Prop where
  flight : s.inFlight = 0
  limit : s.atLimit = 0
  past : s.earlier = 0

theorem Side.AllAtOnce.init : AllAtOnce .init :=
  ⟨rfl, rfl, rfl⟩

theorem Side.AllAtOnce.step {a : SideAct} (hinv : s.Inv perf) (h : s.AllAtOnce)
    (ha : a ≠ .post false) (hstep : s.step perf a = some s') : s'.AllAtOnce := by
  rcases h with ⟨hflight, hlimit, hpast⟩
  cases Side.step_cases hstep with
  | spawn hpc hlen =>
    refine ⟨?_, hlimit, hpast⟩
    rw [inFlight, List.count_append]
    exact hflight
  | spawned | awaited => exact ⟨hflight, hlimit, hpast⟩
  | ended hpc =>
    have hrunning := (hinv.layout.running _).mpr ⟨_, hpc⟩
    exact ⟨(inFlight_set hrunning .done).trans hflight, hlimit, hpast⟩
  | endPhase =>
    unfold Side.endPhase
    split
    · exact ⟨rfl, rfl, by rw [hpast, hlimit]⟩
    · exact ⟨hflight, hlimit, hpast⟩
  | atOnce =>
    refine ⟨hflight, ?_, hpast⟩
    simp only [Side.count]
    split
    · exact hflight
    · exact hlimit
  | pending => exact absurd rfl ha
  | complete hpc hi =>
    have hpos : 0 < s.inFlight := List.count_pos_iff.mpr (List.mem_of_getElem? hi)
    exact absurd hflight (Nat.ne_of_gt hpos)

/-- A side on which no operation completes at once goes beyond each limit. -/
structure Side.AllLater (perf : PerfContext) (s : Side) : Prop where
  limit : 0 < s.total perf → s.total perf ≤ s.counter → 0 < s.atLimit
  past : s.warmup = false → 0 < perf.warmupIterations → 0 < s.earlier

theorem Side.AllLater.init : AllLater perf .init where
  limit hpos hle := absurd hle (Nat.not_le_of_lt hpos)
  past hwarmup := by cases hwarmup

/-- While the limit is not reached, all coroutines wait. -/
theorem Side.Inv.all_waiting (h : s.Inv perf) {j : Nat} (hpc : s.pc = .awaiting j)
    (hlimit : s.counter < s.total perf) : s.inFlight = perf.concurrency := by
  have hlayout := h.layout
  rw [hpc] at hlayout
  exact hlayout.all_waiting fun hmem => Nat.not_le_of_lt hlimit (h.account.done hmem)

theorem Side.AllLater.step {a : SideAct} (hc : 2 ≤ perf.concurrency) (hinv : s.Inv perf)
    (h : s.AllLater perf) (ha : a ≠ .post true) (hstep : s.step perf a = some s') :
    s'.AllLater perf := by
  cases Side.step_cases hstep with
  | spawn | spawned | ended | awaited | pending => exact ⟨h.limit, h.past⟩
  | endPhase hpc hlen =>
    have htasks := (hpc ▸ hinv.layout).all_done hlen
    rcases hinv.account.counter_of_done (Nat.le_of_succ_le hc) htasks with ⟨-, hcounter⟩
    unfold Side.endPhase
    split
    · rename_i hwarmup
      refine ⟨fun hpos hle => absurd hle (Nat.not_le_of_lt hpos), fun _ hpos => ?_⟩
      have hlimit := h.limit (total_warmup hwarmup ▸ hpos) (hcounter ▸ Nat.le_add_right _ _)
      exact Nat.lt_of_lt_of_le hlimit (Nat.le_add_left _ _)
    · exact ⟨h.limit, h.past⟩
  | atOnce => exact absurd rfl ha
  | @complete i j hpc hi =>
    refine ⟨fun hpos hle => ?_, h.past⟩
    have hcounted : (count perf { s with
        tasks := s.tasks.set i .running
        pc := .running i (some j) }).atLimit =
        if s.counter + 1 = s.total perf then (s.tasks.set i .running).count .waiting
        else s.atLimit := rfl
    rw [hcounted]
    by_cases heq : s.counter + 1 = s.total perf
    · -- all coroutines but one are in flight
      have hwaiting := hinv.all_waiting hpc (heq ▸ Nat.lt_succ_self _)
      rw [inFlight, ← inFlight_resume hi] at hwaiting
      rw [if_pos heq]
      omega
    · rw [if_neg heq]
      exact h.limit hpos (Nat.le_of_lt_succ (Nat.lt_of_le_of_ne hle (Ne.symm heq)))

/-- Both answers to a post are possible, or none. -/
theorem Side.post_isSome (perf : PerfContext) (s : Side) (atOnce other : Bool) :
    (s.step perf (.post atOnce)).isSome = (s.step perf (.post other)).isSome := by
  cases hpc : s.pc with
  | running =>
    simp only [Side.step, hpc]
    split
    · cases atOnce <;> cases other <;> rfl
    · rfl
  | spawning | awaiting | finished => simp only [Side.step, hpc]

/-- A run that has come to its end through such steps cannot take another one. -/
theorem terminal_of_apart {s : St}
    (hend : ∀ a s', step perf s a = some s' → ¬Apart s a) : Terminal perf s := by
  intro a
  cases hs : step perf s a with
  | none => rfl
  | some s' =>
    exfalso
    have hnot := hend a s' hs
    cases step_cases hs with
    | client hside =>
      -- a send that waits could complete at once as well
      obtain rfl := of_not_not fun hne => hnot (apart_client.mpr hne)
      have hpost := Side.post_isSome perf s.client true false
      rw [hside] at hpost
      rcases Option.isSome_iff_exists.mp hpost with ⟨other, hother⟩
      have hstep : step perf s (.client (.post true)) = some { s with client := other } := by
        rw [step, hother]
        rfl
      exact hend _ _ hstep (apart_client.mpr (by decide))
    | server hside hmessage =>
      -- a receive that completes at once could wait as well
      obtain rfl := of_not_not fun hne => hnot (apart_server.mpr hne)
      have hpost := Side.post_isSome perf s.server false true
      rw [hside] at hpost
      rcases Option.isSome_iff_exists.mp hpost with ⟨other, hother⟩
      have hstep : step perf s (.server (.post false)) = some { s with server := other } := by
        rw [step, if_pos (fun hpost => by cases hpost), hother]
        rfl
      exact hend _ _ hstep (apart_server.mpr (by decide))

/-- What holds along such a run. -/
structure ApartInv (perf : PerfContext) (s : St) : Prop where
  inv : Inv perf s
  client : s.client.AllAtOnce
  server : s.server.AllLater perf

theorem ApartInv.step {s s' : St} {a : Act} (hc : 2 ≤ perf.concurrency) (h : ApartInv perf s)
    (hapart : Apart s a) (hstep : step perf s a = some s') : ApartInv perf s' := by
  have hinv := h.inv.step (Nat.le_of_succ_le hc) hstep
  cases step_cases hstep with
  | client hside =>
    exact ⟨hinv, h.client.step h.inv.client (apart_client.mp hapart) hside, h.server⟩
  | server hside =>
    exact ⟨hinv, h.client, h.server.step hc h.inv.server (apart_server.mp hapart) hside⟩

/-- With two coroutines or more and an operation, there is a run at whose end the
sides do not agree. -/
theorem exists_disagreement (hc : 2 ≤ perf.concurrency)
    (hpos : 0 < perf.warmupIterations ∨ 0 < perf.iterations) :
    ∃ acts s, Lts.run (step perf) .init acts = some s ∧ Terminal perf s ∧ ¬Agree s := by
  have hc' : 1 ≤ perf.concurrency := Nat.le_of_succ_le hc
  rcases Lts.exists_maximal (P := Apart) (Inv perf) (St.rank perf)
    (fun _ _ _ h hstep => h.step hc' hstep) (fun _ _ _ h hstep => rank_lt hc' h hstep)
    (Inv.init hc') with ⟨acts, s, hrun, hmeet, hend⟩
  have hterm : Terminal perf s := terminal_of_apart hend
  have hapart : ApartInv perf s :=
    Lts.run_invariant (ApartInv perf) (fun _ _ _ h hP hstep => h.step hc hP hstep)
      ⟨Inv.init hc', .init, .init⟩ hmeet hrun
  refine ⟨acts, s, hrun, hterm, fun hagree => ?_⟩
  have hinv := hapart.inv
  have heq := (agree_iff hc' hinv hterm).mp hagree
  -- the server has finished, as no receive waits
  have hpc : s.server.pc = .finished := by
    rcases terminal_server hinv hterm with hpc | ⟨hflight, -⟩
    · exact hpc
    · exact absurd hagree.waiting (Nat.ne_of_gt hflight)
  have hwarmup := hinv.server.account.last hpc
  rcases hinv.server.account.counter_of_done hc' (hinv.server.layout.finished hpc) with
    ⟨-, hcounter⟩
  rw [Side.atLimits, Side.atLimits, hapart.client.limit, hapart.client.past] at heq
  rcases hpos with hpos | hpos
  · have hpast := hapart.server.past hwarmup hpos
    omega
  · have hlimit := hapart.server.limit (Side.total_timed hwarmup ▸ hpos)
      (hcounter ▸ Nat.le_add_right _ _)
    omega

/-! ## The message count -/

/-- Every run ends, then the client has finished, and the sides agree iff as many
operations were in flight at the limits on one side as on the other. They agree at the
end of every run iff there is one coroutine, or nothing to count. -/
theorem sides_agree_iff (perf : PerfContext) (hc : 1 ≤ perf.concurrency) :
    (∀ acts s, Lts.run (step perf) .init acts = some s →
      acts.length + s.rank perf ≤ St.init.rank perf ∧
        (Terminal perf s → s.client.pc = .finished ∧
          (Agree s ↔ s.client.atLimits = s.server.atLimits))) ∧
      ((∀ acts s, Lts.run (step perf) .init acts = some s → Terminal perf s → Agree s) ↔
        perf.concurrency = 1 ∨ (perf.warmupIterations = 0 ∧ perf.iterations = 0)) := by
  have hinv : ∀ acts s, Lts.run (step perf) .init acts = some s → Inv perf s :=
    fun acts s hrun => Lts.run_invariant (Inv perf) (fun _ _ _ h _ hstep => h.step hc hstep)
      (Inv.init hc) (Lts.stepsMeet_true _ acts) hrun
  refine ⟨fun acts s hrun => ⟨?_, fun hterm => ?_⟩, ?_⟩
  · have hrank := Lts.run_rank (Inv perf) (St.rank perf) (fun _ => true)
      (fun _ _ _ h hstep => h.step hc hstep) (fun _ _ _ h hstep _ => rank_lt hc h hstep)
      (fun _ _ _ _ _ hfalse => by cases hfalse) (Inv.init hc) hrun
    rwa [List.countP_true] at hrank
  · have hs := hinv acts s hrun
    exact ⟨terminal_client hs hterm, agree_iff hc hs hterm⟩
  · constructor
    · intro hall
      by_contra hperf
      have htwo : 2 ≤ perf.concurrency := by omega
      have hpos : 0 < perf.warmupIterations ∨ 0 < perf.iterations := by omega
      rcases exists_disagreement htwo hpos with ⟨acts, s, hrun, hterm, hnot⟩
      exact hnot (hall acts s hrun hterm)
    · intro hperf acts s hrun hterm
      have hs := hinv acts s hrun
      rw [agree_iff hc hs hterm, hs.client.atLimits_zero hperf, hs.server.atLimits_zero hperf]

/-- One coroutine on each side, one operation in each phase. -/
def oneEach : List Act :=
  [.server .go, .server (.post false), .server .go,
    .client .go, .client (.post true), .client .go, .client .go, .client .go, .client .go,
    .client .go, .client (.post true), .client .go, .client .go, .client .go, .client .go,
    .server (.complete 0), .server .go, .server .go, .server .go,
    .server .go, .server (.post true), .server .go, .server .go, .server .go, .server .go]

theorem sides_agree_one :
    ∃ s, Lts.run (step ⟨1, 1, 1⟩) .init oneEach = some s ∧ Terminal ⟨1, 1, 1⟩ s ∧ Agree s := by
  have hrun : ∃ s, Lts.run (step ⟨1, 1, 1⟩) .init oneEach = some s := ⟨_, rfl⟩
  rcases hrun with ⟨s, hs⟩
  have hterm : Terminal ⟨1, 1, 1⟩ s := by
    obtain rfl := Option.some.inj hs
    intro a
    cases a with
    | client a => cases a <;> rfl
    | server a =>
      cases a with
      | go | complete => rfl
      | post atOnce => cases atOnce <;> rfl
  exact ⟨s, hs, hterm, (sides_agree_iff ⟨1, 1, 1⟩ (by decide)).2.mpr (.inl rfl) _ s hs hterm⟩

/-- Two coroutines on each side, no warm-up and one iteration: both receivers post a
receive before the message comes, and the first sender sends the only one. -/
def oneMessage : List Act :=
  List.replicate 8 (Act.server .go) ++
    [Act.server .go, .server (.post false), .server .go, .server (.post false), .server .go] ++
    List.replicate 8 (Act.client .go) ++ [Act.client .go, .client (.post true)] ++
    List.replicate 7 (Act.client .go) ++ [Act.server (.complete 0), .server .go, .server .go]

/-- The second receive waits for a message that is never sent. -/
theorem receive_left_waiting :
    ∃ s, Lts.run (step ⟨2, 0, 1⟩) .init oneMessage = some s ∧ Terminal ⟨2, 0, 1⟩ s ∧
      s.client.pc = .finished ∧ s.client.posts = 1 ∧ s.server.posts = 2 ∧
      s.server.inFlight = 1 ∧ ¬Agree s := by
  refine ⟨_, rfl, ?_, rfl, rfl, rfl, rfl, fun hagree => nomatch hagree.posts⟩
  intro a
  cases a with
  | client a => cases a <;> rfl
  | server a =>
    cases a with
    | go | complete => rfl
    | post atOnce => cases atOnce <;> rfl

end Ucxpp.Perftest
