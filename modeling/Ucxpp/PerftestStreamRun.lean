import Ucxpp.PerftestAgree
import Ucxpp.PerftestStream

/-!
# PerftestStreamRun — the runs of the stream test

A receive that is posted below the limit takes at most `message_size` bytes, so a phase
goes beyond its limit by less than `concurrency` messages (`Receiver.Inv.bound`). What
the warm-up takes beyond its limit is missing in the timed phase. Every run ends
(`Receiver.rank`); then the client has finished, and the server has, or it waits for
bytes that nobody sends.
-/

namespace Ucxpp.PerftestStream

open Perftest (Side SideAct PerfContext Pc Task back)

variable {perf : StreamContext} {s s' : Receiver}

/-- The product does not wrap. -/
theorem StreamContext.Fits.totalBytes (h : perf.Fits) (warmup : Bool) :
    perf.totalBytes warmup = perf.messageSize * perf.totalIterations warmup := by
  have hroom := h.bytes warmup
  rw [Nat.mul_add] at hroom
  exact Nat.mod_eq_of_lt (Nat.lt_of_le_of_lt (Nat.le_add_right _ _) hroom)

theorem Receiver.total_warmup (hfits : perf.Fits) (h : s.warmup = true) :
    s.total perf = perf.messageSize * perf.warmupIterations := by
  rw [total, hfits.totalBytes, PerfContext.totalIterations, if_pos h]

theorem Receiver.total_timed (hfits : perf.Fits) (h : s.warmup = false) :
    s.total perf = perf.messageSize * perf.iterations := by
  rw [total, hfits.totalBytes, PerfContext.totalIterations, if_neg (ne_true_of_eq_false h)]

/-! ## The steps -/

/-- The steps of the server, one constructor for each way to take one. -/
inductive Receiver.Step (perf : StreamContext) (s : Receiver) : ReceiverAct → Receiver → Prop where
  | spawn (hpc : s.pc = .spawning) (hlen : s.tasks.length < perf.concurrency) :
      Step perf s .go { s with
        tasks := s.tasks ++ [.running]
        pc := .running s.tasks.length none }
  | spawned (hpc : s.pc = .spawning) (hlen : perf.concurrency ≤ s.tasks.length) :
      Step perf s .go { s with pc := .awaiting 0 }
  | ended {i : Nat} {awaited : Option Nat} (hpc : s.pc = .running i awaited)
      (hlimit : s.total perf ≤ s.counter) :
      Step perf s .go { s with tasks := s.tasks.set i .done, pc := back awaited }
  | awaited {i : Nat} (hpc : s.pc = .awaiting i) (hdone : s.tasks[i]? = some .done) :
      Step perf s .go { s with pc := .awaiting (i + 1) }
  | endPhase {i : Nat} (hpc : s.pc = .awaiting i) (hlen : s.tasks.length ≤ i) :
      Step perf s .go s.endPhase
  | atOnce {i n : Nat} {awaited : Option Nat} (hpc : s.pc = .running i awaited)
      (hlimit : s.counter < s.total perf) (hn : 1 ≤ n) (hsize : n ≤ perf.messageSize) :
      Step perf s (.post (some n)) (s.count n)
  | pending {i : Nat} {awaited : Option Nat} (hpc : s.pc = .running i awaited)
      (hlimit : s.counter < s.total perf) :
      Step perf s (.post none) { s with tasks := s.tasks.set i .waiting, pc := back awaited }
  | complete {i j n : Nat} (hpc : s.pc = .awaiting j) (hi : s.tasks[i]? = some .waiting)
      (hj : s.tasks[j]? = some .waiting) (hn : 1 ≤ n) (hsize : n ≤ perf.messageSize) :
      Step perf s (.complete i n) (count { s with
        tasks := s.tasks.set i .running
        pc := .running i (some j) } n)

theorem Receiver.step_cases {a : ReceiverAct} (h : s.step perf a = some s') :
    s.Step perf a s' := by
  cases a with
  | go =>
    cases hpc : s.pc with
    | spawning =>
      simp only [Receiver.step, hpc] at h
      split at h
      · rename_i hlen
        exact Option.some.inj h ▸ .spawn hpc hlen
      · rename_i hlen
        exact Option.some.inj h ▸ .spawned hpc (Nat.le_of_not_lt hlen)
    | running i awaited =>
      simp only [Receiver.step, hpc] at h
      split at h
      · cases h
      · rename_i hlimit
        exact Option.some.inj h ▸ .ended hpc (Nat.le_of_not_lt hlimit)
    | awaiting i =>
      simp only [Receiver.step, hpc] at h
      split at h
      · rename_i hdone
        exact Option.some.inj h ▸ .awaited hpc hdone
      · cases h
      · cases h
      · rename_i hnone
        exact Option.some.inj h ▸ .endPhase hpc (List.getElem?_eq_none_iff.mp hnone)
    | finished =>
      simp only [Receiver.step, hpc] at h
      cases h
  | post answer =>
    cases hpc : s.pc with
    | running i awaited =>
      simp only [Receiver.step, hpc] at h
      rcases Option.ite_none_right_eq_some.mp h with ⟨hlimit, h⟩
      cases answer with
      | some n =>
        rcases Option.ite_none_right_eq_some.mp h with ⟨⟨hn, hsize⟩, h⟩
        exact Option.some.inj h ▸ .atOnce hpc hlimit hn hsize
      | none => exact Option.some.inj h ▸ .pending hpc hlimit
    | spawning | awaiting | finished =>
      simp only [Receiver.step, hpc] at h
      cases h
  | complete i n =>
    cases hpc : s.pc with
    | awaiting j =>
      simp only [Receiver.step, hpc] at h
      rcases Option.ite_none_right_eq_some.mp h with ⟨⟨hi, hj, hn, hsize⟩, h⟩
      exact Option.some.inj h ▸ .complete hpc hi hj hn hsize
    | spawning | running | finished =>
      simp only [Receiver.step, hpc] at h
      cases h

/-! ## The bytes -/

/-- What holds of the server in every run. `bound` counts what the receives in flight
may still bring; `empty` and `past` say what a phase without a limit and the warm-up
have taken. -/
structure Receiver.Inv (perf : StreamContext) (s : Receiver) : Prop where
  fits : perf.Fits
  layout : Side.Layout perf.toPerfContext s.pc s.tasks
  done : .done ∈ s.tasks → s.total perf ≤ s.counter
  bound : 0 < perf.messageSize →
    s.counter + perf.messageSize * s.inFlight < s.total perf + perf.messageSize * perf.concurrency
  empty : s.total perf = 0 → s.counter = 0 ∧ s.inFlight = 0
  first : s.warmup = true → s.earlier = 0
  past : s.warmup = false → perf.messageSize * perf.warmupIterations ≤ s.earlier ∧
    (0 < perf.messageSize →
      s.earlier < perf.messageSize * perf.warmupIterations +
        perf.messageSize * perf.concurrency) ∧
    (perf.messageSize * perf.warmupIterations = 0 → s.earlier = 0)
  last : s.pc = .finished → s.warmup = false

namespace Receiver.Inv

theorem init (hc : 1 ≤ perf.concurrency) (hfits : perf.Fits) : Inv perf .init where
  fits := hfits
  layout := .init
  done hmem := by cases hmem
  bound hsize := by
    have hroom : 0 < perf.messageSize * perf.concurrency := Nat.mul_pos hsize hc
    simp only [Receiver.init, inFlight, List.count_nil, Nat.mul_zero, Nat.add_zero]
    omega
  empty _ := ⟨rfl, rfl⟩
  first _ := rfl
  past hwarmup := by cases hwarmup
  last hpc := by cases hpc

/-- A step that takes and posts nothing. -/
theorem quiet (h : s.Inv perf) {pc : Pc} {tasks : List Task}
    (hlayout : Side.Layout perf.toPerfContext pc tasks)
    (hflight : tasks.count .waiting = s.inFlight)
    (hdone : .done ∈ tasks → .done ∈ s.tasks ∨ s.total perf ≤ s.counter) (hpc : pc ≠ .finished) :
    Inv perf { s with tasks := tasks, pc := pc } where
  fits := h.fits
  layout := hlayout
  done hmem := (hdone hmem).elim h.done id
  bound hsize := by
    have hbound := h.bound hsize
    rw [← hflight] at hbound
    exact hbound
  empty htotal := by
    have hempty := h.empty htotal
    rw [← hflight] at hempty
    exact hempty
  first := h.first
  past := h.past
  last heq := absurd heq hpc

/-- A coroutine waits for the receive that it has posted. -/
theorem pending {i : Nat} {awaited : Option Nat} (h : s.Inv perf)
    (hpc : s.pc = .running i awaited) (hlimit : s.counter < s.total perf) :
    Inv perf { s with tasks := s.tasks.set i .waiting, pc := back awaited } := by
  have hlayout := h.layout
  rw [hpc] at hlayout
  have hrunning := (hlayout.running i).mpr ⟨awaited, rfl⟩
  have hnew := hlayout.giveBack (t := .waiting) nofun
  constructor
  · exact h.fits
  · exact hnew
  · intro hmem
    exact h.done ((List.mem_or_eq_of_mem_set hmem).resolve_right nofun)
  · intro hsize
    have hroom : perf.messageSize * (s.tasks.set i .waiting).count .waiting ≤
        perf.messageSize * perf.concurrency :=
      Nat.mul_le_mul_left _ (Nat.le_trans List.count_le_length hnew.spawned)
    exact Nat.add_lt_add_of_lt_of_le hlimit hroom
  · intro htotal
    exact absurd hlimit (htotal ▸ Nat.not_lt_zero _)
  · exact h.first
  · exact h.past
  · exact fun heq => absurd heq (Perftest.back_ne_finished awaited)

/-- Bytes are counted, of one receive less in flight than `inFlight` says. -/
theorem counted (h : s.Inv perf) {pc : Pc} {tasks : List Task} {n : Nat}
    (hlayout : Side.Layout perf.toPerfContext pc tasks)
    (hn : n ≤ perf.messageSize)
    (hbound : s.counter + perf.messageSize * (tasks.count .waiting + 1) <
      s.total perf + perf.messageSize * perf.concurrency)
    (htotal : s.total perf ≠ 0) (hdone : .done ∈ tasks → .done ∈ s.tasks)
    (hpc : pc ≠ .finished) :
    Inv perf (count { s with tasks := tasks, pc := pc } n) where
  fits := h.fits
  layout := hlayout
  done hmem := Nat.le_add_right_of_le (h.done (hdone hmem))
  bound _ := by
    rw [Nat.mul_succ] at hbound
    simp only [count, inFlight, total] at hbound ⊢
    omega
  empty hzero := absurd hzero htotal
  first := h.first
  past := h.past
  last heq := absurd heq hpc

/-- UCX answers a post at once. -/
theorem atOnce {i n : Nat} {awaited : Option Nat} (h : s.Inv perf)
    (hpc : s.pc = .running i awaited) (hlimit : s.counter < s.total perf)
    (hn : n ≤ perf.messageSize) : Inv perf (s.count n) := by
  have hrunning := (h.layout.running i).mpr ⟨awaited, hpc⟩
  -- the coroutine that runs is not in flight
  have hfree : s.tasks.count .waiting + 1 ≤ perf.concurrency :=
    Nat.le_trans (Perftest.inFlight_lt hrunning nofun) h.layout.spawned
  apply h.counted h.layout hn
  · exact Nat.add_lt_add_of_lt_of_le hlimit (Nat.mul_le_mul_left _ hfree)
  · exact Nat.ne_of_gt (Nat.lt_of_le_of_lt (Nat.zero_le _) hlimit)
  · exact id
  · rw [hpc]
    nofun

/-- A receive completes while the server is suspended. -/
theorem resume {i j n : Nat} (h : s.Inv perf) (hpc : s.pc = .awaiting j)
    (hi : s.tasks[i]? = some .waiting) (hpos : 1 ≤ n) (hn : n ≤ perf.messageSize) :
    Inv perf (count { s with
      tasks := s.tasks.set i .running
      pc := .running i (some j) } n) := by
  have hlayout := h.layout
  rw [hpc] at hlayout
  have hflight := Perftest.inFlight_resume hi
  apply h.counted (hlayout.resume hi) hn
  · rw [hflight]
    exact h.bound (Nat.le_trans hpos hn)
  · intro hzero
    have hempty := (h.empty hzero).2
    rw [inFlight] at hempty
    omega
  · intro hmem
    exact (List.mem_or_eq_of_mem_set hmem).resolve_right nofun
  · nofun

/-- When all coroutines have ended, none waits and the limit is reached. -/
theorem counter_of_done (h : s.Inv perf) (hc : 1 ≤ perf.concurrency)
    (htasks : s.tasks = List.replicate perf.concurrency .done) :
    s.inFlight = 0 ∧ s.total perf ≤ s.counter := by
  constructor
  · rw [inFlight, htasks]
    exact List.count_eq_zero_of_not_mem fun hmem => by cases List.eq_of_mem_replicate hmem
  · apply h.done
    rw [htasks]
    exact List.mem_replicate.mpr ⟨Nat.ne_of_gt hc, rfl⟩

theorem endPhase {i : Nat} (h : s.Inv perf) (hc : 1 ≤ perf.concurrency)
    (hpc : s.pc = .awaiting i) (hlen : s.tasks.length ≤ i) : s.endPhase.Inv perf := by
  have hlayout := h.layout
  rw [hpc] at hlayout
  have htasks := hlayout.all_done hlen
  rcases h.counter_of_done hc htasks with ⟨hflight, hcounter⟩
  unfold Receiver.endPhase
  split
  · rename_i hwarmup
    have hbound := h.bound
    have hempty := h.empty
    rw [total_warmup h.fits hwarmup] at hcounter hbound hempty
    constructor
    · exact h.fits
    · exact .init
    · exact fun hmem => by cases hmem
    · intro hsize
      have hroom : 0 < perf.messageSize * perf.concurrency := Nat.mul_pos hsize hc
      simp only [inFlight, List.count_nil, Nat.mul_zero, Nat.add_zero]
      omega
    · exact fun _ => ⟨rfl, rfl⟩
    · exact fun hfalse => by cases hfalse
    · intro _
      refine ⟨hcounter, fun hsize => ?_, fun hzero => (hempty hzero).1⟩
      exact Nat.lt_of_le_of_lt (Nat.le_add_right _ _) (hbound hsize)
    · exact fun heq => by cases heq
  · rename_i hwarmup
    refine ⟨h.fits, ?_, h.done, h.bound, h.empty, h.first, h.past,
      fun _ => eq_false_of_ne_true hwarmup⟩
    rw [htasks]
    exact .finish

/-- `g_counter` of the server does not wrap. -/
theorem counter_lt (h : s.Inv perf) : s.counter < UInt64.size := by
  by_cases hsize : perf.messageSize = 0
  · have htotal : s.total perf = 0 := by
      rw [Receiver.total, h.fits.totalBytes, hsize, Nat.zero_mul]
    rw [(h.empty htotal).1]
    decide
  · have hbound := h.bound (Nat.pos_of_ne_zero hsize)
    have hroom := h.fits.bytes s.warmup
    rw [Nat.mul_add, ← h.fits.totalBytes] at hroom
    exact Nat.lt_of_le_of_lt (Nat.le_add_right _ _) (Nat.lt_trans hbound hroom)

theorem step {a : ReceiverAct} (hc : 1 ≤ perf.concurrency) (h : s.Inv perf)
    (hstep : s.step perf a = some s') : s'.Inv perf := by
  have hlayout := h.layout
  cases Receiver.step_cases hstep with
  | spawn hpc hlen =>
    rw [hpc] at hlayout
    refine h.quiet (hlayout.spawn hlen) ?_ (fun hmem => .inl ?_) nofun
    · rw [List.count_append]
      rfl
    · rcases List.mem_append.mp hmem with hold | hnew
      · exact hold
      · cases List.mem_singleton.mp hnew
  | spawned hpc hlen =>
    rw [hpc] at hlayout
    exact h.quiet (hlayout.allSpawned hlen) rfl .inl nofun
  | ended hpc hlimit =>
    rw [hpc] at hlayout
    have hset := Perftest.inFlight_set ((hlayout.running _).mpr ⟨_, rfl⟩) .done
    exact h.quiet (hlayout.giveBack nofun) hset (fun _ => .inr hlimit)
      (Perftest.back_ne_finished _)
  | awaited hpc hdone =>
    rw [hpc] at hlayout
    exact h.quiet (hlayout.next hdone) rfl .inl nofun
  | endPhase hpc hlen => exact h.endPhase hc hpc hlen
  | atOnce hpc hlimit _ hsize => exact h.atOnce hpc hlimit hsize
  | pending hpc hlimit => exact h.pending hpc hlimit
  | complete hpc hi _ hn hsize => exact h.resume hpc hi hn hsize

end Receiver.Inv

/-! ## The rank -/

/-- The steps that are left of a phase: bytes to count, coroutines to start. -/
def phaseRank (perf : StreamContext) (total counter spawned : Nat) : Nat :=
  2 * (total + perf.messageSize * perf.concurrency - counter) + 2 * (perf.concurrency - spawned)

/-- The steps of the phase that is still to come. -/
def laterRank (perf : StreamContext) : Bool → Nat
  | true => phaseRank perf (perf.totalBytes false) 0 0 + Pc.spawning.rank perf.concurrency
  | false => 0

def Receiver.rank (perf : StreamContext) (s : Receiver) : Nat :=
  phaseRank perf (s.total perf) s.counter s.tasks.length +
    s.pc.rank perf.concurrency + laterRank perf s.warmup

theorem Receiver.rank_lt {a : ReceiverAct} (h : s.Inv perf) (hstep : s.step perf a = some s') :
    s'.rank perf < s.rank perf := by
  cases Receiver.step_cases hstep with
  | spawn hpc hlen =>
    simp only [Receiver.rank, hpc, Pc.rank, phaseRank, List.length_append, List.length_singleton,
      Receiver.total]
    omega
  | spawned hpc hlen =>
    simp only [Receiver.rank, hpc, Pc.rank, Receiver.total]
    omega
  | @ended i awaited hpc hlimit =>
    have hback := Perftest.rank_back perf.toPerfContext i awaited fun j hj =>
      (h.layout.awaited j (by rw [hpc]; exact hj)).1
    simp only [Receiver.rank, hpc, List.length_set, Receiver.total]
    omega
  | @awaited i hpc hdone =>
    have hi := (h.layout.awaited i (by rw [hpc]; rfl)).1
    simp only [Receiver.rank, hpc, Pc.rank, Receiver.total]
    omega
  | @endPhase i hpc hlen =>
    have hi := (h.layout.awaited i (by rw [hpc]; rfl)).1
    unfold Receiver.endPhase
    split
    · rename_i hwarmup
      simp only [Receiver.rank, hpc, hwarmup, Pc.rank, phaseRank, laterRank, Receiver.total,
        List.length_nil]
      omega
    · simp only [Receiver.rank, hpc, Pc.rank, Receiver.total]
      omega
  | @atOnce i n awaited hpc hlimit hn hsize =>
    simp only [Receiver.rank, Receiver.count, phaseRank, Receiver.total] at hlimit ⊢
    omega
  | @pending i awaited hpc hlimit =>
    have hback := Perftest.rank_back perf.toPerfContext i awaited fun j hj =>
      (h.layout.awaited j (by rw [hpc]; exact hj)).1
    simp only [Receiver.rank, hpc, List.length_set, Receiver.total]
    omega
  | @complete i j n hpc hi hwaiting hn hsize =>
    have hj := (h.layout.awaited j (by rw [hpc]; rfl)).1
    have hbound := h.bound (Nat.le_trans hn hsize)
    simp only [Receiver.rank, Receiver.count, hpc, Pc.rank, phaseRank, List.length_set,
      Receiver.total] at hbound ⊢
    omega

/-! ## Both sides -/

/-- The steps of both sides. -/
inductive Step (perf : StreamContext) (s : St) : Act → St → Prop where
  | client {a : SideAct} {client : Side}
      (hstep : s.client.step perf.toPerfContext a = some client) :
      Step perf s (.client a) { s with client := client }
  | server {a : ReceiverAct} {server : Receiver} (hstep : s.server.step perf a = some server)
      (hsent : s.server.received + a.bytes ≤ s.sent perf) :
      Step perf s (.server a) { s with server := server }

theorem step_cases {s s' : St} {a : Act} (h : step perf s a = some s') : Step perf s a s' := by
  cases a with
  | client a =>
    rcases Option.map_eq_some_iff.mp h with ⟨client, hstep, rfl⟩
    exact .client hstep
  | server a =>
    rcases Option.ite_none_right_eq_some.mp h with ⟨hsent, h⟩
    rcases Option.map_eq_some_iff.mp h with ⟨server, hstep, rfl⟩
    exact .server hstep hsent

theorem Receiver.step_received {a : ReceiverAct} (h : s.Inv perf)
    (hstep : s.step perf a = some s') : s'.received = s.received + a.bytes := by
  cases Receiver.step_cases hstep with
  | spawn | spawned | ended | awaited | pending => rfl
  | atOnce | complete => exact (Nat.add_assoc ..).symm
  | endPhase =>
    unfold Receiver.endPhase
    split
    · rename_i hwarmup
      have hfirst := h.first hwarmup
      simp only [received, ReceiverAct.bytes, hfirst]
      omega
    · rfl

/-- No byte is taken that was not sent. -/
structure Inv (perf : StreamContext) (s : St) : Prop where
  client : s.client.Inv perf.toPerfContext
  server : s.server.Inv perf
  sent : s.server.received ≤ s.sent perf

theorem Inv.init (hc : 1 ≤ perf.concurrency) (hfits : perf.Fits) : Inv perf .init :=
  ⟨.init hc, .init hc hfits, Nat.zero_le _⟩

theorem Inv.step {s s' : St} {a : Act} (hc : 1 ≤ perf.concurrency) (h : Inv perf s)
    (hstep : step perf s a = some s') : Inv perf s' := by
  cases step_cases hstep with
  | client hside =>
    refine ⟨h.client.step hc hside, h.server, Nat.le_trans h.sent ?_⟩
    exact Nat.mul_le_mul_left _ (Side.step_posts hside)
  | server hside hsent =>
    refine ⟨h.client, h.server.step hc hside, ?_⟩
    have hreceived := Receiver.step_received h.server hside
    exact Nat.le_trans (Nat.le_of_eq hreceived) hsent

def St.rank (perf : StreamContext) (s : St) : Nat :=
  s.client.rank perf.toPerfContext + s.server.rank perf

theorem rank_lt {s s' : St} {a : Act} (hc : 1 ≤ perf.concurrency) (h : Inv perf s)
    (hstep : step perf s a = some s') : s'.rank perf < s.rank perf := by
  cases step_cases hstep with
  | client hside => exact Nat.add_lt_add_right (Side.rank_lt hc h.client hside) _
  | server hside => exact Nat.add_lt_add_left (Receiver.rank_lt h.server hside) _

/-! ## The end of a run -/

/-- A server that has not finished can go on by itself, post a receive, or has a
receive to wait for, which may complete with any number of bytes that was asked for. -/
theorem Receiver.Inv.progress (h : s.Inv perf) (hpc : s.pc ≠ .finished) :
    (s.step perf .go).isSome = true ∨ (s.step perf (.post none)).isSome = true ∨
      (0 < s.inFlight ∧ 0 < perf.messageSize ∧ ∃ i, ∀ n, 1 ≤ n → n ≤ perf.messageSize →
        (s.step perf (.complete i n)).isSome = true) := by
  cases hcase : s.pc with
  | spawning =>
    left
    by_cases hlen : s.tasks.length < perf.concurrency
    · simp only [Receiver.step, hcase, if_pos hlen, Option.isSome_some]
    · simp only [Receiver.step, hcase, if_neg hlen, Option.isSome_some]
  | running i awaited =>
    by_cases hlimit : s.counter < s.total perf
    · right; left
      simp only [Receiver.step, hcase, if_pos hlimit, Option.isSome_some]
    · left
      simp only [Receiver.step, hcase, if_neg hlimit, Option.isSome_some]
  | awaiting j =>
    cases htask : s.tasks[j]? with
    | none =>
      left
      simp only [Receiver.step, hcase, htask, Option.isSome_some]
    | some t =>
      cases t with
      | done =>
        left
        simp only [Receiver.step, hcase, htask, Option.isSome_some]
      | running =>
        rcases (h.layout.running j).mp htask with ⟨_, hrunning⟩
        rw [hcase] at hrunning
        cases hrunning
      | waiting =>
        right; right
        have hflight : 0 < s.inFlight := List.count_pos_iff.mpr (List.mem_of_getElem? htask)
        refine ⟨hflight, Nat.pos_of_ne_zero fun hzero => ?_, j, fun n hn hsize => ?_⟩
        · -- no receive is posted for messages of no bytes
          have htotal : s.total perf = 0 := by
            rw [Receiver.total, h.fits.totalBytes, hzero, Nat.zero_mul]
          exact absurd (h.empty htotal).2 (Nat.ne_of_gt hflight)
        · simp only [Receiver.step, hcase, htask, hn, hsize, and_self, if_true,
            Option.isSome_some]
  | finished => exact absurd hcase hpc

/-- Nor does `g_counter` of the client. -/
theorem Side.counter_lt {s : Side} (hfits : perf.Fits) (h : s.Inv perf.toPerfContext) :
    s.counter < UInt64.size := by
  refine Nat.lt_trans (m := s.total perf.toPerfContext + perf.concurrency) ?_
    (hfits.messages s.warmup)
  have hpast := h.account.atLimit_lt
  by_cases hlimit : s.total perf.toPerfContext ≤ s.counter
  · have hcount := h.account.limit hlimit
    omega
  · omega

section

variable {s : St}

/-- Sends always complete, so a client that can do nothing has finished. -/
theorem client_finished (h : Inv perf s)
    (hnone : ∀ a, s.client.step perf.toPerfContext a = none) : s.client.pc = .finished := by
  have hnot : ∀ a, ¬(s.client.step perf.toPerfContext a).isSome = true := by
    intro a
    rw [hnone a]
    exact Bool.false_ne_true
  by_contra hpc
  rcases h.client.progress hpc with hgo | hpost | ⟨-, i, hcomplete⟩
  · exact hnot _ hgo
  · exact hnot _ (hpost true)
  · exact hnot _ hcomplete

theorem terminal_client (h : Inv perf s) (hterm : Terminal perf s) :
    s.client.pc = .finished :=
  client_finished h fun a => Option.map_eq_none_iff.mp (hterm (.client a))

/-- The server finishes, or it waits for bytes that do not come. -/
theorem terminal_server (h : Inv perf s) (hterm : Terminal perf s) :
    s.server.pc = .finished ∨ (0 < s.server.inFlight ∧ s.server.received = s.sent perf) := by
  have hnone : ∀ a : ReceiverAct, s.server.received + a.bytes ≤ s.sent perf →
      ¬(s.server.step perf a).isSome = true := by
    intro a hsent
    have hstep := hterm (.server a)
    rw [step, if_pos hsent] at hstep
    rw [Option.map_eq_none_iff.mp hstep]
    exact Bool.false_ne_true
  by_cases hpc : s.server.pc = .finished
  · exact .inl hpc
  · rcases h.server.progress hpc with hgo | hpost | ⟨hflight, hsize, i, hcomplete⟩
    · exact absurd hgo (hnone .go h.sent)
    · exact absurd hpost (hnone (.post none) h.sent)
    · refine .inr ⟨hflight, Nat.le_antisymm h.sent (Nat.le_of_not_lt fun hlt => ?_)⟩
      exact hnone (.complete i 1) hlt (hcomplete 1 (Nat.le_refl 1) hsize)

end

end Ucxpp.PerftestStream
