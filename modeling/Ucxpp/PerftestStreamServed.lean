import Ucxpp.PerftestStreamRun

/-!
# PerftestStreamServed — when the stream test ends

The sender posts exactly the messages of both phases if there is one coroutine. Then
the server finishes in every run only if the last receive of the warm-up cannot take
more than the warm-up: messages of one byte, or no second phase. In all other cases a
run in which the server goes beyond a limit (`Beyond`) leaves it waiting for the bytes
that it has already counted.
-/

namespace Ucxpp.PerftestStream

open Perftest (Side SideAct PerfContext Pc Task back)

variable {perf : StreamContext}

/-! ## Where every run is served -/

/-- Where no phase has a limit, or one coroutine can only take what it needs. -/
def Exact (perf : StreamContext) : Prop :=
  perf.messageSize = 0 ∨ (perf.warmupIterations = 0 ∧ perf.iterations = 0) ∨
    (perf.concurrency = 1 ∧
      (perf.messageSize = 1 ∨ perf.warmupIterations = 0 ∨ perf.iterations = 0))

instance (perf : StreamContext) : Decidable (Exact perf) :=
  inferInstanceAs (Decidable (_ ∨ _ ∨ _))

section

variable {s : St}

/-- What a client that has finished has sent, where nothing was in flight at a limit. -/
theorem sent_of_finished (hc : 1 ≤ perf.concurrency) (h : Inv perf s)
    (hpc : s.client.pc = .finished) (hlimits : s.client.atLimits = 0) :
    s.sent perf =
      perf.messageSize * perf.warmupIterations + perf.messageSize * perf.iterations := by
  rcases h.client.finished_posts hc hpc with ⟨-, -, hposts⟩
  rw [St.sent, hposts, hlimits, Nat.add_zero, Nat.mul_add]

/-- A server that has finished has counted the bytes of both phases. -/
theorem Receiver.Inv.finished_received {s : Receiver} (hc : 1 ≤ perf.concurrency)
    (h : s.Inv perf) (hpc : s.pc = .finished) :
    perf.messageSize * perf.warmupIterations + perf.messageSize * perf.iterations ≤
      s.received := by
  have hwarmup := h.last hpc
  have hlimit := (h.counter_of_done hc (h.layout.finished hpc)).2
  rw [Receiver.total_timed h.fits hwarmup] at hlimit
  exact Nat.add_le_add (h.past hwarmup).1 hlimit

/-- Without anything to receive no receive is in flight. -/
theorem Receiver.Inv.idle {s : Receiver} (h : s.Inv perf)
    (hzero : perf.messageSize = 0 ∨ (perf.warmupIterations = 0 ∧ perf.iterations = 0)) :
    s.inFlight = 0 := by
  refine (h.empty ?_).2
  rw [Receiver.total, h.fits.totalBytes]
  rcases hzero with hsize | ⟨hwarmup, hiterations⟩
  · rw [hsize, Nat.zero_mul]
  · rw [PerfContext.totalIterations, hwarmup, hiterations, ite_self, Nat.mul_zero]

/-- One coroutine that waits has not counted the bytes of both phases, as long as the
warm-up took its own. -/
theorem Receiver.Inv.received_lt {s : Receiver} (hc : perf.concurrency = 1) (h : s.Inv perf)
    (hperf : perf.messageSize = 1 ∨ perf.warmupIterations = 0 ∨ perf.iterations = 0)
    (hflight : 0 < s.inFlight) :
    s.received <
      perf.messageSize * perf.warmupIterations + perf.messageSize * perf.iterations := by
  have hsize : 0 < perf.messageSize := by
    apply Nat.pos_of_ne_zero
    intro hzero
    exact absurd (h.idle (.inl hzero)) (Nat.ne_of_gt hflight)
  -- the receive that waits was posted below the limit
  have hlimit : s.counter < s.total perf := by
    have hbound := h.bound hsize
    have hone : perf.messageSize ≤ perf.messageSize * s.inFlight :=
      Nat.le_mul_of_pos_right _ hflight
    rw [hc, Nat.mul_one] at hbound
    omega
  rw [Receiver.received]
  cases hwarmup : s.warmup with
  | true =>
    have hfirst := h.first hwarmup
    rw [Receiver.total_warmup h.fits hwarmup] at hlimit
    omega
  | false =>
    rcases h.past hwarmup with ⟨-, htook, hnone⟩
    have htook := htook hsize
    rw [Receiver.total_timed h.fits hwarmup] at hlimit
    rcases hperf with hbyte | hzero | hzero
    · rw [hbyte, hc] at htook
      rw [hbyte] at hlimit ⊢
      omega
    · have hearlier := hnone (by rw [hzero, Nat.mul_zero])
      omega
    · rw [hzero, Nat.mul_zero] at hlimit
      exact absurd hlimit (Nat.not_lt_zero _)

/-- At the end of every run the server has finished. -/
theorem served_of_exact (hc : 1 ≤ perf.concurrency) (hexact : Exact perf) (h : Inv perf s)
    (hterm : Terminal perf s) : Served perf s := by
  have hclient := terminal_client h hterm
  rcases hexact with hsize | hzero | ⟨hone, hperf⟩
  · have hsent : s.sent perf = 0 := by rw [St.sent, hsize, Nat.zero_mul]
    refine ⟨?_, Nat.le_antisymm h.sent (hsent ▸ Nat.zero_le _)⟩
    exact (terminal_server h hterm).resolve_right fun hwait =>
      Nat.ne_of_gt hwait.1 (h.server.idle (.inl hsize))
  · have hsent := sent_of_finished hc h hclient (h.client.atLimits_zero (.inr hzero))
    have hfinished : s.server.pc = .finished :=
      (terminal_server h hterm).resolve_right fun hwait =>
        Nat.ne_of_gt hwait.1 (h.server.idle (.inr hzero))
    exact ⟨hfinished,
      Nat.le_antisymm h.sent (hsent ▸ h.server.finished_received hc hfinished)⟩
  · have hsent := sent_of_finished hc h hclient (h.client.atLimits_zero (.inl hone))
    have hfinished : s.server.pc = .finished := by
      rcases terminal_server h hterm with hpc | ⟨hflight, htaken⟩
      · exact hpc
      · have hlt := h.server.received_lt hone hperf hflight
        rw [htaken, hsent] at hlt
        exact absurd hlt (Nat.lt_irrefl _)
    exact ⟨hfinished,
      Nat.le_antisymm h.sent (hsent ▸ h.server.finished_received hc hfinished)⟩

end

/-! ## A run that is not served -/

/-- The phase goes beyond its limit: what is counted or in flight there is more. With
one coroutine this is about the warm-up only. -/
def Receiver.Beyond (perf : StreamContext) (s : Receiver) : Prop :=
  (s.warmup = true ∨ 2 ≤ perf.concurrency) → 0 < s.total perf → s.total perf ≤ s.counter →
    s.total perf < s.counter + s.inFlight

/-- Sends complete at once; receives do not, and they take the phase beyond its limit. -/
def Late (perf : StreamContext) (s : St) : Act → Prop
  | .client a => a ≠ .post false
  | .server a => (∀ n, a ≠ .post (some n)) ∧
      ∀ server, s.server.step perf a = some server → server.Beyond perf

namespace Receiver

variable {s s' : Receiver}

theorem Beyond.init : Beyond perf .init :=
  fun _ hpos hle => absurd hle (Nat.not_le_of_lt hpos)

/-- What a step does that takes no bytes. -/
theorem Beyond.quiet {a : ReceiverAct} (hinv : s.Inv perf) (h : s.Beyond perf)
    (ha : a.bytes = 0) (hstep : s.step perf a = some s') : s'.Beyond perf := by
  cases Receiver.step_cases hstep with
  | spawn hpc =>
    have hflight : (s.tasks ++ [Task.running]).count Task.waiting = s.inFlight := by
      rw [List.count_append]
      rfl
    intro hphase hpos hle
    exact Nat.lt_of_lt_of_eq (h hphase hpos hle) (congrArg (s.counter + ·) hflight.symm)
  | spawned | awaited => exact h
  | ended hpc =>
    have hflight := Perftest.inFlight_set ((hinv.layout.running _).mpr ⟨_, hpc⟩) .done
    intro hphase hpos hle
    exact Nat.lt_of_lt_of_eq (h hphase hpos hle) (congrArg (s.counter + ·) hflight.symm)
  | endPhase =>
    unfold Receiver.endPhase
    split
    · exact fun _ hpos hle => absurd hle (Nat.not_le_of_lt hpos)
    · exact h
  | pending hpc hlimit =>
    intro hphase hpos hle
    exact absurd hlimit (Nat.not_lt_of_le hle)
  | atOnce _ _ hn | complete _ _ _ hn => exact absurd ha (Nat.ne_of_gt hn)

/-- While the limit is not reached, all coroutines wait. -/
theorem Inv.all_waiting {j : Nat} (h : s.Inv perf) (hpc : s.pc = .awaiting j)
    (hlimit : s.counter < s.total perf) : s.inFlight = perf.concurrency := by
  have hlayout := h.layout
  rw [hpc] at hlayout
  exact hlayout.all_waiting fun hmem => Nat.not_le_of_lt hlimit (h.done hmem)

/-- A receive that takes the server beyond its limit, for a receive that completes. -/
theorem Beyond.exists_complete {i n room : Nat} (hinv : s.Inv perf) (h : s.Beyond perf)
    (hc : 1 ≤ perf.concurrency)
    (hshort : perf.concurrency = 1 → s.warmup = true →
      2 ≤ perf.messageSize ∧ s.total perf + 1 ≤ room)
    (hroom : s.received + n ≤ room) (hstep : s.step perf (.complete i n) = some s') :
    ∃ m server, s.step perf (.complete i m) = some server ∧ s.received + m ≤ room ∧
      server.Beyond perf := by
  cases Receiver.step_cases hstep with
  | @complete _ j _ hpc hi hj hn hsize =>
    have hflight := Perftest.inFlight_resume hi
    -- the state after a receive of `m` bytes
    have hcomplete : ∀ m, 1 ≤ m → m ≤ perf.messageSize →
        s.step perf (.complete i m) = some (count { s with
          tasks := s.tasks.set i .running
          pc := .running i (some j) } m) := by
      intro m hm hmsize
      simp only [Receiver.step, hpc, hi, hj, hm, hmsize, and_self, if_true]
    by_cases hlimit : s.counter < s.total perf
    · have hall := hinv.all_waiting hpc hlimit
      rw [inFlight] at hall
      by_cases htwo : 2 ≤ perf.concurrency
      · refine ⟨n, _, hcomplete n hn hsize, hroom, fun _ _ hle => ?_⟩
        simp only [count, inFlight, total] at hle ⊢
        omega
      · have hone : perf.concurrency = 1 := by omega
        cases hwarmup : s.warmup with
        | false =>
          refine ⟨n, _, hcomplete n hn hsize, hroom, fun hphase => ?_⟩
          rcases hphase with hphase | hphase
          · rw [show s.warmup = true from hphase] at hwarmup
            cases hwarmup
          · exact absurd hphase htwo
        | true =>
          rcases hshort hone hwarmup with ⟨hbytes, hmore⟩
          have hfirst := hinv.first hwarmup
          rw [received, hfirst] at hroom ⊢
          -- one byte, or two if one byte reaches the limit
          by_cases hlast : s.counter + 1 = s.total perf
          · refine ⟨2, _, hcomplete 2 (by omega) hbytes, by omega, fun _ _ hle => ?_⟩
            simp only [count, inFlight, total] at hle hlast ⊢
            omega
          · refine ⟨1, _, hcomplete 1 (Nat.le_refl 1) (by omega), by omega,
              fun _ _ hle => ?_⟩
            simp only [count, inFlight, total] at hle hlast hlimit ⊢
            omega
    · refine ⟨n, _, hcomplete n hn hsize, hroom, fun hphase hpos _ => ?_⟩
      have hbeyond := h hphase hpos (Nat.le_of_not_lt hlimit)
      simp only [count, inFlight, total] at hbeyond ⊢
      omega

end Receiver

/-- What holds along a run of such steps. -/
structure LateInv (perf : StreamContext) (s : St) : Prop where
  inv : Inv perf s
  client : s.client.AllAtOnce
  server : s.server.Beyond perf
  past : s.server.warmup = false → 0 < perf.messageSize * perf.warmupIterations →
    perf.messageSize * perf.warmupIterations < s.server.earlier

theorem LateInv.init (hc : 1 ≤ perf.concurrency) (hfits : perf.Fits) : LateInv perf .init :=
  ⟨.init hc hfits, .init, .init, fun hwarmup => by cases hwarmup⟩

/-- The bytes that the warm-up takes are settled at its end. -/
theorem LateInv.past_step {s : St} {a : ReceiverAct} {server : Receiver}
    (hc : 1 ≤ perf.concurrency) (h : LateInv perf s)
    (hstep : s.server.step perf a = some server) (hwarmup : server.warmup = false)
    (hpos : 0 < perf.messageSize * perf.warmupIterations) :
    perf.messageSize * perf.warmupIterations < server.earlier := by
  cases Receiver.step_cases hstep with
  | spawn | spawned | ended | awaited | pending | atOnce | complete => exact h.past hwarmup hpos
  | endPhase hpc hlen =>
    cases hphase : s.server.warmup with
    | false =>
      rw [Receiver.endPhase, hphase]
      exact h.past hphase hpos
    | true =>
      have hlayout := h.inv.server.layout
      rw [hpc] at hlayout
      rcases h.inv.server.counter_of_done hc (hlayout.all_done hlen) with ⟨hflight, hlimit⟩
      have hbeyond := h.server (.inl hphase)
      rw [Receiver.total_warmup h.inv.server.fits hphase] at hlimit hbeyond
      have hmore := hbeyond hpos hlimit
      rw [hflight, Nat.add_zero] at hmore
      rw [Receiver.endPhase, hphase]
      exact hmore

theorem LateInv.step {s s' : St} {a : Act} (hc : 1 ≤ perf.concurrency) (h : LateInv perf s)
    (hlate : Late perf s a) (hstep : step perf s a = some s') : LateInv perf s' := by
  have hinv := h.inv.step hc hstep
  cases step_cases hstep with
  | client hside =>
    exact ⟨hinv, h.client.step h.inv.client hlate hside, h.server, h.past⟩
  | server hside =>
    exact ⟨hinv, h.client, hlate.2 _ hside, h.past_step hc hside⟩

section

variable {s : St}

/-- Where such a run cannot go on, the client can do nothing. -/
theorem client_none_of_late (hend : ∀ a s', step perf s a = some s' → ¬Late perf s a)
    (a : SideAct) : s.client.step perf.toPerfContext a = none := by
  have hstep : ∀ {b other}, s.client.step perf.toPerfContext b = some other → b = .post false :=
    fun hb => of_not_not (hend (.client _) _ (Option.map_eq_some_iff.mpr ⟨_, hb, rfl⟩))
  cases hs : s.client.step perf.toPerfContext a with
  | none => rfl
  | some client =>
    -- a send that waits could complete at once as well
    obtain rfl := hstep hs
    have hpost := Side.post_isSome perf.toPerfContext s.client true false
    rw [hs] at hpost
    rcases Option.isSome_iff_exists.mp hpost with ⟨other, hother⟩
    exact absurd (hstep hother) (by decide)

/-- Where the server can take a step, it can take one of such a run, once the client
has finished. -/
theorem exists_late {a : ReceiverAct} {server : Receiver} (hc : 1 ≤ perf.concurrency)
    (h : LateInv perf s) (hperf : perf.concurrency = 1 → 2 ≤ perf.messageSize ∧ 0 < perf.iterations)
    (hfinished : s.client.pc = .finished) (hsent : s.server.received + a.bytes ≤ s.sent perf)
    (hs : s.server.step perf a = some server) :
    ∃ b next, s.server.step perf b = some next ∧ s.server.received + b.bytes ≤ s.sent perf ∧
      Late perf s (.server b) := by
  have hquiet : ∀ {b next}, b.bytes = 0 → (∀ n, b ≠ .post (some n)) →
      s.server.step perf b = some next →
      ∃ b next, s.server.step perf b = some next ∧ s.server.received + b.bytes ≤ s.sent perf ∧
        Late perf s (.server b) := by
    intro b next hb hpost hstep
    refine ⟨b, next, hstep, hb ▸ h.inv.sent, hpost, fun other hother => ?_⟩
    exact h.server.quiet h.inv.server hb hother
  cases a with
  | go => exact hquiet rfl (fun _ hgo => by cases hgo) hs
  | post answer =>
    cases Receiver.step_cases hs with
    | pending => exact hquiet rfl (fun _ hpost => by cases hpost) hs
    | @atOnce i n awaited hpc hlimit =>
      -- the receive could be left waiting as well
      have hpending : s.server.step perf (.post none) = some { s.server with
          tasks := s.server.tasks.set i .waiting
          pc := back awaited } := by
        simp only [Receiver.step, hpc, if_pos hlimit]
      exact hquiet rfl (fun _ hpost => by cases hpost) hpending
  | complete i n =>
    have hlimits : s.client.atLimits = 0 := by
      rw [Side.atLimits, h.client.past, h.client.limit]
    have hall := sent_of_finished hc h.inv hfinished hlimits
    have hshort : perf.concurrency = 1 → s.server.warmup = true →
        2 ≤ perf.messageSize ∧ s.server.total perf + 1 ≤ s.sent perf := by
      intro hone hwarmup
      rcases hperf hone with ⟨hsize, hiterations⟩
      have hmore := Nat.mul_pos (Nat.lt_of_lt_of_le Nat.zero_lt_two hsize) hiterations
      rw [Receiver.total_warmup h.inv.server.fits hwarmup, hall]
      exact ⟨hsize, Nat.add_le_add_left hmore _⟩
    rcases h.server.exists_complete h.inv.server hc hshort hsent hs with
      ⟨m, next, hnext, hm, hbeyond⟩
    refine ⟨.complete i m, next, hnext, hm, ?_⟩
    refine ⟨(fun _ hpost => by cases hpost), fun other hother => ?_⟩
    rw [hnext] at hother
    exact Option.some.inj hother ▸ hbeyond

/-- Where such a run cannot go on, no run can. -/
theorem terminal_of_late (hc : 1 ≤ perf.concurrency) (h : LateInv perf s)
    (hperf : perf.concurrency = 1 → 2 ≤ perf.messageSize ∧ 0 < perf.iterations)
    (hend : ∀ a s', step perf s a = some s' → ¬Late perf s a) : Terminal perf s := by
  have hclient := client_none_of_late hend
  intro a
  cases a with
  | client a => exact Option.map_eq_none_iff.mpr (hclient a)
  | server a =>
    by_contra hsome
    rcases Option.ne_none_iff_exists'.mp hsome with ⟨s', hs'⟩
    cases step_cases hs' with
    | server hside hsent =>
      rcases exists_late hc h hperf (client_finished h.inv hclient) hsent hside with
        ⟨b, next, hnext, hroom, hlate⟩
      refine hend (.server b) { s with server := next } ?_ hlate
      rw [step, if_pos hroom, hnext]
      rfl

end

/-- Otherwise there is a run at whose end the server waits for ever. -/
theorem exists_unserved (hc : 1 ≤ perf.concurrency) (hfits : perf.Fits) (hexact : ¬Exact perf) :
    ∃ acts s, Lts.run (step perf) .init acts = some s ∧ Terminal perf s ∧ ¬Served perf s := by
  simp only [Exact, not_or, not_and] at hexact
  rcases hexact with ⟨hsize, hwork, hone⟩
  have hperf : perf.concurrency = 1 → 2 ≤ perf.messageSize ∧ 0 < perf.warmupIterations ∧
      0 < perf.iterations := by
    intro heq
    rcases hone heq with ⟨hbyte, hwarmup, hiterations⟩
    omega
  rcases Lts.exists_maximal (P := Late perf) (Inv perf) (St.rank perf)
    (fun _ _ _ h hstep => h.step hc hstep) (fun _ _ _ h hstep => rank_lt hc h hstep)
    (Inv.init hc hfits) with ⟨acts, s, hrun, hmeet, hend⟩
  have hlate : LateInv perf s :=
    Lts.run_invariant (LateInv perf) (fun _ _ _ h hP hstep => h.step hc hP hstep)
      (.init hc hfits) hmeet hrun
  have hterm : Terminal perf s :=
    terminal_of_late hc hlate (fun heq => ⟨(hperf heq).1, (hperf heq).2.2⟩) hend
  refine ⟨acts, s, hrun, hterm, fun hserved => ?_⟩
  have hinv := hlate.inv
  have hsent := sent_of_finished hc hinv (terminal_client hinv hterm) (by
    rw [Side.atLimits, hlate.client.past, hlate.client.limit])
  have htaken := hserved.taken
  have hwarmup := hinv.server.last hserved.finished
  rcases hinv.server.counter_of_done hc (hinv.server.layout.finished hserved.finished) with
    ⟨hflight, hlimit⟩
  have hbeyond := hlate.server
  rw [Receiver.Beyond, hflight, Receiver.total_timed hfits hwarmup] at hbeyond
  rw [Receiver.total_timed hfits hwarmup] at hlimit
  rw [hsent, Receiver.received] at htaken
  have hpos := Nat.pos_of_ne_zero hsize
  have hearlier := (hinv.server.past hwarmup).1
  by_cases hzero : perf.warmupIterations = 0
  · -- the timed phase goes beyond its limit
    have htwo : 2 ≤ perf.concurrency := by
      have hone := hperf
      omega
    have hmore := hbeyond (.inr htwo)
      (Nat.mul_pos hpos (Nat.pos_of_ne_zero (hwork hzero))) hlimit
    omega
  · have hmore := hlate.past hwarmup (Nat.mul_pos hpos (Nat.pos_of_ne_zero hzero))
    omega

/-! ## The stream test -/

/-- Every run ends, the server takes no byte that was not sent, no counter wraps, and at the
end the client has finished and all that it sent is taken or the server has finished. The
server finishes with all bytes taken at the end of every run iff there is nothing to
receive, or one coroutine and messages of one byte or a single phase. -/
theorem stream_served_iff (perf : StreamContext) (hc : 1 ≤ perf.concurrency)
    (hfits : perf.Fits) :
    (∀ acts s, Lts.run (step perf) .init acts = some s →
      acts.length + s.rank perf ≤ St.init.rank perf ∧ s.server.received ≤ s.sent perf ∧
        s.client.counter < UInt64.size ∧ s.server.counter < UInt64.size ∧
        (Terminal perf s → s.client.pc = .finished ∧
          (s.server.pc = .finished ∨
            (0 < s.server.inFlight ∧ s.server.received = s.sent perf)))) ∧
      ((∀ acts s, Lts.run (step perf) .init acts = some s → Terminal perf s → Served perf s) ↔
        Exact perf) := by
  have hinv : ∀ acts s, Lts.run (step perf) .init acts = some s → Inv perf s :=
    fun acts s hrun => Lts.run_invariant (Inv perf) (fun _ _ _ h _ hstep => h.step hc hstep)
      (Inv.init hc hfits) (Lts.stepsMeet_true _ acts) hrun
  refine ⟨fun acts s hrun => ⟨?_, (hinv acts s hrun).sent, ?_, ?_, fun hterm => ?_⟩, ?_⟩
  · have hrank := Lts.run_rank (Inv perf) (St.rank perf) (fun _ => true)
      (fun _ _ _ h hstep => h.step hc hstep) (fun _ _ _ h hstep _ => rank_lt hc h hstep)
      (fun _ _ _ _ _ hfalse => by cases hfalse) (Inv.init hc hfits) hrun
    rwa [List.countP_true] at hrank
  · exact Side.counter_lt hfits (hinv acts s hrun).client
  · exact (hinv acts s hrun).server.counter_lt
  · exact ⟨terminal_client (hinv acts s hrun) hterm, terminal_server (hinv acts s hrun) hterm⟩
  · constructor
    · intro hall
      by_contra hexact
      rcases exists_unserved hc hfits hexact with ⟨acts, s, hrun, hterm, hnot⟩
      exact hnot (hall acts s hrun hterm)
    · intro hexact acts s hrun hterm
      exact served_of_exact hc hexact (hinv acts s hrun) hterm

/-- One coroutine on each side sends and receives two messages of one byte. -/
def oneByteEach : List Act :=
  [.server .go, .server (.post none), .server .go,
    .client .go, .client (.post true), .client .go, .client .go, .client .go, .client .go,
    .client .go, .client (.post true), .client .go, .client .go, .client .go, .client .go,
    .server (.complete 0 1), .server .go, .server .go, .server .go,
    .server .go, .server (.post (some 1)), .server .go, .server .go, .server .go, .server .go]

/-- Where it ends. -/
def oneByteEnd : St where
  client := ⟨1, false, .finished, [.done], 2, 2, 0, 0⟩
  server := ⟨1, false, .finished, [.done], 1⟩

theorem stream_served_one_byte :
    Lts.run (step ⟨⟨1, 1, 1⟩, 1⟩) .init oneByteEach = some oneByteEnd ∧
      Terminal ⟨⟨1, 1, 1⟩, 1⟩ oneByteEnd ∧ Served ⟨⟨1, 1, 1⟩, 1⟩ oneByteEnd := by
  have hrun : Lts.run (step ⟨⟨1, 1, 1⟩, 1⟩) .init oneByteEach = some oneByteEnd := rfl
  have hterm : Terminal ⟨⟨1, 1, 1⟩, 1⟩ oneByteEnd := by
    intro a
    cases a with
    | client a => cases a <;> rfl
    | server a =>
      have hserver : oneByteEnd.server.step ⟨⟨1, 1, 1⟩, 1⟩ a = none := by
        cases a <;> rfl
      simp only [step, hserver, Option.map_none, ite_self]
  have hfits : StreamContext.Fits ⟨⟨1, 1, 1⟩, 1⟩ := by
    constructor
    · decide
    · decide
  refine ⟨hrun, hterm, ?_⟩
  exact (stream_served_iff ⟨⟨1, 1, 1⟩, 1⟩ (by decide) hfits).2.mpr (by decide) _ _ hrun hterm

/-- Messages of two bytes: the warm-up receives one byte, then two, and the timed phase
waits for the byte that is missing. -/
example : (Lts.run (step ⟨⟨1, 1, 1⟩, 2⟩) .init
    [.client .go, .client (.post true), .client .go, .client .go, .client .go, .client .go,
      .client .go, .client (.post true), .client .go, .client .go, .client .go, .client .go,
      .server .go, .server (.post (some 1)), .server (.post (some 2)), .server .go, .server .go,
      .server .go, .server .go, .server .go, .server (.post (some 1)), .server (.post none),
      .server .go]).map (fun s => (s.client.pc, s.server.pc, s.server.counter, s.server.earlier)) =
    some (.finished, .awaiting 0, 1, 3) := rfl

end Ucxpp.PerftestStream
