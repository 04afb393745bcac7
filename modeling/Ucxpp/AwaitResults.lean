import Ucxpp.AwaitRun

/-!
# AwaitResults — every co_await continues once, with its own result

The invariant `Inv` ties each live request to one suspended coroutine and one
awaitable object, and says of every operation that it is either pending behind
such a request or settled: delivered once, its request freed once. One
inversion lemma says what a step does (`step_cases`); from it `step_inv`, and
from that the theorem about whole runs, `await_exactly_once`.
-/

namespace Ucxpp.AwaitRun

open Function (update update_self update_of_ne)

variable (statusString : UcsStatus → String)

/-! ## The invariant -/

/-- The live request `r` is awaited by one suspended coroutine, whose
awaitable object is the one the callback will be run on. -/
structure AwaitedBy (s : St) (r : Request) (q : LiveRequest) (rec : OpRecord)
    (aw : Awaitable) : Prop where
  record : s.record q.op = some rec
  object : s.object q.op = some aw
  waiting : s.waiting rec.caller = some q.op
  answer : rec.answer = .request r
  final : rec.final = none
  delivered : rec.delivered = []
  frees : rec.frees = 0
  notCompleted : q.completed = false
  param : q.param = rec.op.param q.op
  op : aw.op = rec.op
  handle : aw.h = some rec.caller

/-- An operation that is over: it delivered its outcome once, and its request
was freed once if there was one. -/
structure Settled (rec : OpRecord) (fin : Completion) : Prop where
  final : rec.final = some fin
  status : fin.status ≠ .inProgress
  delivered : rec.delivered = [rec.op.outcome statusString fin]
  frees : rec.frees = if rec.answer.isPtr then 1 else 0

structure Inv (s : St) : Prop where
  unused : ∀ n, s.issued ≤ n → s.record n = none
  live : ∀ r q, s.live r = some q → ∃ rec aw, AwaitedBy s r q rec aw
  waiting : ∀ c n, s.waiting c = some n →
    ∃ r q rec aw, s.live r = some q ∧ q.op = n ∧ AwaitedBy s r q rec aw ∧ rec.caller = c
  record : ∀ n rec, s.record n = some rec →
    (∃ fin, Settled statusString rec fin) ∨
      ∃ r q aw, s.live r = some q ∧ q.op = n ∧ AwaitedBy s r q rec aw
  freed : ∀ p ∈ s.freed, ∃ n rec r, s.record n = some rec ∧ rec.answer = p ∧ p = .request r

/-- A request is determined by the operation behind it. -/
theorem AwaitedBy.request_eq {s : St} {r r' : Request} {q q' : LiveRequest}
    {rec rec' : OpRecord} {aw aw' : Awaitable} (h : AwaitedBy s r q rec aw)
    (h' : AwaitedBy s r' q' rec' aw') (hop : q.op = q'.op) : r = r' := by
  have hrec : rec = rec' := by
    have := h.record
    rw [hop, h'.record] at this
    exact (Option.some.inj this).symm
  have hans := h.answer
  rw [hrec, h'.answer] at hans
  exact (StatusPtr.request.inj hans).symm

/-- A live request is still awaited after a step that leaves its operation
and its coroutine alone. -/
theorem AwaitedBy.frame {s t : St} {r : Request} {q : LiveRequest} {rec : OpRecord}
    {aw : Awaitable} (h : AwaitedBy s r q rec aw)
    (hrec : t.record q.op = s.record q.op) (hobj : t.object q.op = s.object q.op)
    (hwait : t.waiting rec.caller = s.waiting rec.caller) : AwaitedBy t r q rec aw :=
  { h with
    record := hrec.trans h.record
    object := hobj.trans h.object
    waiting := hwait.trans h.waiting }

/-! ## What a step does -/

/-- The state after a `co_await` that was answered at once. -/
def St.addSettled (s : St) (c : CoroutineHandle) (op : Operation) (ptr : StatusPtr)
    (fin : Completion) : St :=
  { s with
    issued := s.issued + 1
    record := update s.record s.issued
      (some ⟨c, op, ptr, some fin, [op.outcome statusString fin], 0⟩) }

/-- The state after a `co_await` that was answered with a request. -/
def St.addPending (s : St) (c : CoroutineHandle) (op : Operation) (r : Request)
    (aw : Awaitable) : St :=
  { s with
    issued := s.issued + 1
    record := update s.record s.issued (some ⟨c, op, .request r, none, [], 0⟩)
    object := update s.object s.issued (some aw)
    waiting := update s.waiting c (some s.issued)
    live := update s.live r (some ⟨s.issued, op.param s.issued, false⟩) }

/-- The state after the completion of an awaited request. -/
def St.settle (s : St) (r : Request) (q : LiveRequest) (rec : OpRecord) (fin : Completion) : St :=
  { s with
    record := update s.record q.op (some { rec with
      final := some fin, delivered := [rec.op.outcome statusString fin], frees := 1 })
    object := update s.object q.op none
    waiting := update s.waiting rec.caller none
    live := update s.live r none
    freed := s.freed ++ [.request r] }

/-- A `co_await` that UCX answers at once. -/
theorem coAwait_final {s : St} {c : CoroutineHandle} {op : Operation} {mem : Storage}
    {ans : Answer} {fin : Completion} (h : ans.final = some fin) :
    coAwait statusString s c op mem ans =
      s.addSettled statusString c op ans.ptr fin := by
  rcases awaitReady_final statusString (op.construct mem) h with ⟨hready, hres⟩
  have hreg : ∀ t : St, t.register s.issued (op.param s.issued) ans.ptr = t := by
    intro t
    unfold Answer.final at h
    split at h <;> rename_i hp
    · rw [hp]; rfl
    · rw [hp]; rfl
    · cases h
  unfold coAwait
  simp only [hreg]
  split
  · rename_i self hself
    rw [hself] at hres
    rw [construct_op] at hres
    simp only [St.deliver, update_self, Option.map_some, List.nil_append, hres, h]
    congr 1
    exact Function.update_idem ..
  · rename_i self hself
    rw [hself] at hready
    cases hready

/-- A `co_await` that UCX answers with a request suspends its coroutine. -/
theorem coAwait_request (s : St) (c : CoroutineHandle) (op : Operation) (mem : Storage)
    {ans : Answer} {r : Request} (h : ans.ptr = .request r) :
    ∃ self : Awaitable, self.op = op ∧ self.h = some c ∧
      coAwait statusString s c op mem ans =
        s.addPending c op r self := by
  rcases awaitReady_request (op.construct mem) h c with ⟨hready, hsusp, hh, hop⟩
  have hfin : ans.final = none := by
    unfold Answer.final
    rw [h]
  rw [construct_op] at hop
  refine ⟨_, hop, hh, ?_⟩
  unfold coAwait
  split
  · rename_i self hself
    rw [hself] at hready
    cases hready
  · rename_i self hself
    rw [hself] at hsusp ⊢
    split
    · rename_i self' hself'
      rw [hself', hfin, h]
      rfl
    · rename_i self' hself'
      rw [hself'] at hsusp
      cases hsusp

/-- UCX completes a request: the callback frees it, and the coroutine behind
it continues with the outcome of its own operation. -/
theorem complete_awaited {s : St} {r : Request} {q : LiveRequest} {rec : OpRecord}
    {aw : Awaitable} (h : AwaitedBy s r q rec aw) (fin : Completion) :
    complete statusString s r q fin = .ok (s.settle statusString r q rec fin) := by
  have hdata : (rec.op.param q.op).userData = q.op := by
    cases rec.op <;> rfl
  have hres := awaitResume_store statusString aw q.op fin
  rw [h.op] at hres
  simp [complete, requestFree, resume, St.deliver, St.settle, Except.bind, h.param, hdata, h.object,
    h.record, h.handle, h.waiting, h.delivered, h.frees, hres]

/-- Everything a step can do. -/
theorem step_cases {s s' : St} {a : Act} (hinv : Inv statusString s)
    (h : next statusString s a = some s') :
    (∃ c op ptr fin, fin.status ≠ .inProgress ∧ (∀ r, ptr ≠ .request r) ∧
      s' = s.addSettled statusString c op ptr fin) ∨
    (∃ c op r self, s.waiting c = none ∧ s.live r = none ∧ self.op = op ∧ self.h = some c ∧
      s' = s.addPending c op r self) ∨
    (∃ r q rec aw fin, s.live r = some q ∧ AwaitedBy s r q rec aw ∧
      fin.status ≠ .inProgress ∧
      s' = s.settle statusString r q rec fin) := by
  rcases Lts.guarded_eq_some_iff.mp h with ⟨hen, hs⟩
  cases a with
  | coAwait c op mem ans =>
    rcases hen with ⟨hc, -, hfresh⟩
    have hs' : coAwait statusString s c op mem ans = s' := Except.ok.inj hs
    cases hp : ans.ptr with
    | request r =>
      rw [hp] at hfresh
      rcases coAwait_request statusString s c op mem hp with ⟨self, hop, hh, heq⟩
      exact .inr (.inl ⟨c, op, r, self, hc, hfresh, hop, hh, hs'.symm.trans heq⟩)
    | null =>
      have hfin : ans.final = some ⟨.ok, ans.length, ans.senderTag⟩ := by
        simp [Answer.final, hp]
      refine .inl ⟨c, op, ans.ptr, ⟨.ok, ans.length, ans.senderTag⟩, by simp, by simp [hp], ?_⟩
      exact hs'.symm.trans (coAwait_final statusString hfin)
    | err e =>
      have hfin : ans.final = some ⟨.err e, ans.length, ans.senderTag⟩ := by
        simp [Answer.final, hp]
      refine .inl ⟨c, op, ans.ptr, ⟨.err e, ans.length, ans.senderTag⟩, by simp, by simp [hp], ?_⟩
      exact hs'.symm.trans (coAwait_final statusString hfin)
  | complete r fin =>
    rcases hen with ⟨⟨q, hq, -⟩, hfinal⟩
    rcases hinv.live r q hq with ⟨rec, aw, haw⟩
    refine .inr (.inr ⟨r, q, rec, aw, fin, hq, haw, hfinal, ?_⟩)
    have hq' : s.live r = some q := hq
    simp only [step, hq', complete_awaited statusString haw] at hs
    exact (Except.ok.inj hs).symm

/-! ## The invariant holds along every run -/

theorem init_inv : Inv statusString St.init where
  unused := fun _ _ => rfl
  live := fun _ _ h => nomatch h
  waiting := fun _ _ h => nomatch h
  record := fun _ _ h => nomatch h
  freed := fun _ h => nomatch h

/-- What has a record has been issued. -/
theorem Inv.recorded_lt {s : St} (hinv : Inv statusString s) {n : Nat} {rec : OpRecord}
    (hrec : s.record n = some rec) : n < s.issued := by
  by_contra hge
  have hnone := hinv.unused n (Nat.le_of_not_lt hge)
  rw [hrec] at hnone
  cases hnone

/-- The operation that is about to be issued is behind no live request. -/
theorem AwaitedBy.op_lt {s : St} {r : Request} {q : LiveRequest} {rec : OpRecord}
    {aw : Awaitable} (hinv : Inv statusString s) (h : AwaitedBy s r q rec aw) :
    q.op < s.issued :=
  hinv.recorded_lt statusString h.record

/-- A `co_await` answered at once adds a settled operation. -/
theorem inv_immediate {s : St} (hinv : Inv statusString s) (c : CoroutineHandle)
    (op : Operation) {ptr : StatusPtr} {fin : Completion} (hfinal : fin.status ≠ .inProgress)
    (hptr : ∀ r, ptr ≠ .request r) :
    Inv statusString (s.addSettled statusString c op ptr fin) := by
  have hold : ∀ {r q rec aw}, AwaitedBy s r q rec aw →
      AwaitedBy (s.addSettled statusString c op ptr fin) r q rec aw := by
    intro r q rec aw h
    exact h.frame (update_of_ne (Nat.ne_of_lt (h.op_lt statusString hinv)) _ _) rfl rfl
  constructor
  · intro n hn
    show update s.record s.issued _ n = none
    rw [update_of_ne (by simp only [St.addSettled] at hn; omega)]
    exact hinv.unused n (by simp only [St.addSettled] at hn; omega)
  · intro r q hq
    rcases hinv.live r q hq with ⟨rec, aw, h⟩
    exact ⟨rec, aw, hold h⟩
  · intro c' n hn
    rcases hinv.waiting c' n hn with ⟨r, q, rec, aw, hq, hop, h, hc⟩
    exact ⟨r, q, rec, aw, hq, hop, hold h, hc⟩
  · intro n rec hrec
    by_cases hn : n = s.issued
    · subst hn
      have : rec = ⟨c, op, ptr, some fin, [op.outcome statusString fin], 0⟩ := by
        simpa [St.addSettled] using hrec.symm
      subst this
      refine .inl ⟨fin, rfl, hfinal, rfl, ?_⟩
      cases ptr with
      | request r => exact absurd rfl (hptr r)
      | null => rfl
      | err e => rfl
    · have hrec' : s.record n = some rec := by simpa [St.addSettled, update_of_ne hn] using hrec
      rcases hinv.record n rec hrec' with hset | ⟨r, q, aw, hq, hop, h⟩
      · exact .inl hset
      · exact .inr ⟨r, q, aw, hq, hop, hold h⟩
  · intro p hp
    rcases hinv.freed p hp with ⟨n, rec, r, hrec, hans, hr⟩
    have hn : n ≠ s.issued := Nat.ne_of_lt (hinv.recorded_lt statusString hrec)
    exact ⟨n, rec, r, by simpa [St.addSettled, update_of_ne hn] using hrec, hans, hr⟩

/-- A pending operation that is added is behind no other live request. -/
theorem AwaitedBy.addPending {s : St} {r r' : Request} {q : LiveRequest} {rec : OpRecord}
    {aw aw' : Awaitable} {c : CoroutineHandle} (hinv : Inv statusString s)
    (hc : s.waiting c = none) (op : Operation) (h : AwaitedBy s r' q rec aw') :
    AwaitedBy (s.addPending c op r aw) r' q rec aw' := by
  have hlt := Nat.ne_of_lt (h.op_lt statusString hinv)
  have hcaller : rec.caller ≠ c := by
    intro heq
    have hwaiting := h.waiting
    rw [heq, hc] at hwaiting
    cases hwaiting
  exact h.frame (update_of_ne hlt _ _) (update_of_ne hlt _ _) (update_of_ne hcaller _ _)

/-- A `co_await` answered with a request adds a pending operation. -/
theorem inv_pending {s : St} (hinv : Inv statusString s) {c : CoroutineHandle}
    (op : Operation) {r : Request} {aw : Awaitable} (hc : s.waiting c = none)
    (hr : s.live r = none) (hop : aw.op = op) (hh : aw.h = some c) :
    Inv statusString (s.addPending c op r aw) := by
  have hold : ∀ {r' q rec aw'}, AwaitedBy s r' q rec aw' →
      AwaitedBy (s.addPending c op r aw) r' q rec aw' :=
    fun h => h.addPending statusString hinv hc op
  have hlive : ∀ {r' q}, s.live r' = some q → (s.addPending c op r aw).live r' = some q := by
    intro r' q hq
    have hne : r' ≠ r := by
      rintro rfl
      rw [hr] at hq
      cases hq
    exact (update_of_ne hne ..).trans hq
  have hnew : AwaitedBy (s.addPending c op r aw)
      r ⟨s.issued, op.param s.issued, false⟩ ⟨c, op, .request r, none, [], 0⟩ aw :=
    { record := update_self .., object := update_self .., waiting := update_self ..
      answer := rfl, final := rfl, delivered := rfl, frees := rfl, notCompleted := rfl
      param := rfl, op := hop, handle := hh }
  constructor
  case unused =>
    intro n hn
    show update s.record s.issued _ n = none
    rw [update_of_ne (by simp only [St.addPending] at hn; omega)]
    exact hinv.unused n (by simp only [St.addPending] at hn; omega)
  case live =>
    intro r' q hq
    by_cases hrr : r' = r
    · subst hrr
      have : q = ⟨s.issued, op.param s.issued, false⟩ := by simpa [St.addPending] using hq.symm
      subst this
      exact ⟨_, _, hnew⟩
    · rcases hinv.live r' q (by simpa [St.addPending, update_of_ne hrr] using hq) with ⟨rec, aw', h⟩
      exact ⟨rec, aw', hold h⟩
  case waiting =>
    intro c' n hn
    by_cases hcc : c' = c
    · subst hcc
      have hn' : n = s.issued := by simpa [St.addPending] using hn.symm
      exact ⟨r, _, _, aw, update_self .., hn'.symm, hnew, rfl⟩
    · obtain ⟨r', q, rec, aw', hq, hopn, h, hcaller⟩ :=
        hinv.waiting c' n (by simpa [St.addPending, update_of_ne hcc] using hn)
      exact ⟨r', q, rec, aw', hlive hq, hopn, hold h, hcaller⟩
  case record =>
    intro n rec hrec
    by_cases hn : n = s.issued
    · subst hn
      have : rec = ⟨c, op, .request r, none, [], 0⟩ := by simpa [St.addPending] using hrec.symm
      subst this
      exact .inr ⟨r, _, aw, update_self .., rfl, hnew⟩
    · have hrec' : s.record n = some rec := by simpa [St.addPending, update_of_ne hn] using hrec
      rcases hinv.record n rec hrec' with hset | ⟨r', q, aw', hq, hopn, h⟩
      · exact .inl hset
      · exact .inr ⟨r', q, aw', hlive hq, hopn, hold h⟩
  case freed =>
    intro p hp
    rcases hinv.freed p hp with ⟨n, rec, r', hrec, hans, hr'⟩
    have hn : n ≠ s.issued := Nat.ne_of_lt (hinv.recorded_lt statusString hrec)
    exact ⟨n, rec, r', by simpa [St.addPending, update_of_ne hn] using hrec, hans, hr'⟩

/-- Another live request is behind another operation. -/
theorem AwaitedBy.op_ne {s : St} {r r' : Request} {q q' : LiveRequest} {rec rec' : OpRecord}
    {aw aw' : Awaitable} (h : AwaitedBy s r' q' rec' aw') (haw : AwaitedBy s r q rec aw)
    (hne : r' ≠ r) : q'.op ≠ q.op :=
  fun heq => hne (h.request_eq haw heq)

/-- And behind another coroutine, so that a completion leaves it alone. -/
theorem AwaitedBy.settle {s : St} {r r' : Request} {q q' : LiveRequest} {rec rec' : OpRecord}
    {aw aw' : Awaitable} (fin : Completion) (h : AwaitedBy s r' q' rec' aw')
    (haw : AwaitedBy s r q rec aw) (hne : r' ≠ r) :
    AwaitedBy (s.settle statusString r q rec fin) r' q' rec' aw' := by
  have hop := h.op_ne haw hne
  have hcaller : rec'.caller ≠ rec.caller := by
    intro heq
    have hwaiting := h.waiting
    rw [heq, haw.waiting] at hwaiting
    exact hop (Option.some.inj hwaiting).symm
  exact h.frame (update_of_ne hop _ _) (update_of_ne hop _ _) (update_of_ne hcaller _ _)

/-- A completion settles the operation behind its request and no other. -/
theorem inv_complete {s : St} (hinv : Inv statusString s) {r : Request} {q : LiveRequest}
    {rec : OpRecord} {aw : Awaitable} {fin : Completion} (hq : s.live r = some q)
    (haw : AwaitedBy s r q rec aw) (hfinal : fin.status ≠ .inProgress) :
    Inv statusString (s.settle statusString r q rec fin) := by
  have hold : ∀ {r' q' rec' aw'}, r' ≠ r → AwaitedBy s r' q' rec' aw' →
      AwaitedBy (s.settle statusString r q rec fin) r' q' rec' aw' :=
    fun hne h => h.settle statusString fin haw hne
  have hlive : ∀ {r' q'}, r' ≠ r → s.live r' = some q' →
      (s.settle statusString r q rec fin).live r' = some q' :=
    fun hne hq' => (update_of_ne hne ..).trans hq'
  constructor
  case unused =>
    intro n hn
    have hn' : n ≠ q.op := Nat.ne_of_gt (Nat.lt_of_lt_of_le (haw.op_lt statusString hinv) hn)
    show update s.record q.op _ n = none
    rw [update_of_ne hn']
    exact hinv.unused n hn
  case live =>
    intro r' q' hq'
    by_cases hrr : r' = r
    · subst hrr
      simp [St.settle] at hq'
    · rcases hinv.live r' q' (by simpa [St.settle, update_of_ne hrr] using hq') with ⟨rec', aw', h⟩
      exact ⟨rec', aw', hold hrr h⟩
  case waiting =>
    intro c n hn
    by_cases hc : c = rec.caller
    · subst hc
      simp [St.settle] at hn
    · obtain ⟨r', q', rec', aw', hq', hopn, h, hcaller⟩ :=
        hinv.waiting c n (by simpa [St.settle, update_of_ne hc] using hn)
      have hrr : r' ≠ r := by
        intro heq
        subst heq
        have hqq : q' = q := Option.some.inj (hq'.symm.trans hq)
        have : rec' = rec := Option.some.inj (h.record.symm.trans (hqq ▸ haw.record))
        exact hc (this ▸ hcaller.symm)
      exact ⟨r', q', rec', aw', hlive hrr hq', hopn, hold hrr h, hcaller⟩
  case record =>
    intro n rec' hrec'
    by_cases hn : n = q.op
    · subst hn
      have : rec' = { rec with
          final := some fin, delivered := [rec.op.outcome statusString fin], frees := 1 } := by
        simpa [St.settle] using hrec'.symm
      subst this
      refine .inl ⟨fin, rfl, hfinal, rfl, ?_⟩
      simp [haw.answer, StatusPtr.isPtr]
    · have hrec : s.record n = some rec' := by simpa [St.settle, update_of_ne hn] using hrec'
      rcases hinv.record n rec' hrec with hset | ⟨r', q', aw', hq', hopn, h⟩
      · exact .inl hset
      · have hrr : r' ≠ r := by
          intro heq
          subst heq
          exact hn (hopn.symm.trans (congrArg LiveRequest.op (Option.some.inj (hq'.symm.trans hq))))
        exact .inr ⟨r', q', aw', hlive hrr hq', hopn, hold hrr h⟩
  case freed =>
    intro p hp
    rcases List.mem_append.mp hp with hp | hp
    · rcases hinv.freed p hp with ⟨n, rec', r', hrec, hans, hr'⟩
      by_cases hn : n = q.op
      · subst hn
        have : rec' = rec := Option.some.inj (hrec.symm.trans haw.record)
        exact ⟨q.op, _, r', update_self .., by simpa [this] using hans, hr'⟩
      · exact ⟨n, rec', r', by simpa [St.settle, update_of_ne hn] using hrec, hans, hr'⟩
    · rw [List.mem_singleton] at hp
      exact ⟨q.op, _, r, update_self .., haw.answer.trans hp.symm, hp⟩

theorem step_inv {s s' : St} {a : Act} (hinv : Inv statusString s)
    (h : next statusString s a = some s') : Inv statusString s' := by
  rcases step_cases statusString hinv h with
    ⟨c, op, ptr, fin, hfinal, hptr, rfl⟩ | ⟨c, op, r, aw, hc, hr, hop, hh, rfl⟩ |
    ⟨r, q, rec, aw, fin, hq, haw, hfinal, rfl⟩
  · exact inv_immediate statusString hinv c op hfinal hptr
  · exact inv_pending statusString hinv op hc hr hop hh
  · exact inv_complete statusString hinv hq haw hfinal

/-- Every state of every run satisfies the invariant. -/
theorem safety {as : List Act} {s : St}
    (h : Lts.run (next statusString) St.init as = some s) : Inv statusString s := by
  refine Lts.run_invariant (P := fun _ _ => True) _ ?_ (init_inv statusString) ?_ h
  · intro t a t' ht _ hs
    exact step_inv statusString ht hs
  · exact Lts.stepsMeet_true _ _

/-! ## The theorem about whole runs -/

/-- No enabled action faults. -/
theorem enabled_steps {s : St} {a : Act} (hinv : Inv statusString s) (hen : Enabled s a) :
    ∃ s', step statusString s a = .ok s' := by
  cases a with
  | coAwait c op mem ans => exact ⟨_, rfl⟩
  | complete r fin =>
    rcases hen with ⟨⟨q, hq, -⟩, -⟩
    have hq' : s.live r = some q := hq
    rcases hinv.live r q hq with ⟨rec, aw, haw⟩
    refine ⟨s.settle statusString r q rec fin, ?_⟩
    simp only [step, hq', complete_awaited statusString haw]

/-- What the history of one operation says, at any moment of a run. Until UCX
has reported the end of the operation its `co_await` has not continued and its
request is live and unfreed. From then on the `co_await` has continued exactly
once, normally iff the final status is `UCS_OK`, with the byte count and the
sender tag of this operation, and its request, if UCX returned one, has been
freed exactly once. -/
structure OneResult (s : St) (n : Nat) (rec : OpRecord) : Prop where
  pending : rec.final = none ↔
    ∃ r q, rec.answer = .request r ∧ s.live r = some q ∧ q.op = n
  delivered : rec.delivered = (rec.final.map (rec.op.outcome statusString)).toList
  returns : ∀ fin, rec.final = some fin →
    ((∃ v, rec.delivered = [.ok v]) ↔ fin.status = .ok)
  value : ∀ fin v, rec.final = some fin → rec.delivered = [.ok v] → v = rec.op.payload fin
  frees : rec.frees = if rec.answer.isPtr ∧ rec.final.isSome then 1 else 0

theorem Settled.oneResult {s : St} {n : Nat} {rec : OpRecord} {fin : Completion}
    (hinv : Inv statusString s) (hrec : s.record n = some rec)
    (h : Settled statusString rec fin) : OneResult statusString s n rec where
  pending := by
    constructor
    · intro hnone
      rw [h.final] at hnone
      cases hnone
    · rintro ⟨r, q, -, hq, hop⟩
      rcases hinv.live r q hq with ⟨rec', aw, haw⟩
      have hsame : rec' = rec := Option.some.inj (haw.record.symm.trans (hop ▸ hrec))
      exact hsame ▸ haw.final
  delivered := by rw [h.delivered, h.final]; rfl
  returns := by
    intro fin' hfin'
    have hsame : fin = fin' := Option.some.inj (h.final.symm.trans hfin')
    subst hsame
    rw [← outcome_returns_iff statusString rec.op h.status, h.delivered]
    simp
  value := by
    intro fin' v hfin' hv
    have hsame : fin = fin' := Option.some.inj (h.final.symm.trans hfin')
    subst hsame
    rw [h.delivered] at hv
    exact outcome_value statusString (List.singleton_inj.mp hv)
  frees := by simp [h.frees, h.final]

theorem AwaitedBy.oneResult {s : St} {r : Request} {q : LiveRequest} {rec : OpRecord}
    {aw : Awaitable} (hq : s.live r = some q) (h : AwaitedBy s r q rec aw) :
    OneResult statusString s q.op rec where
  pending := iff_of_true h.final ⟨r, q, h.answer, hq, rfl⟩
  delivered := by rw [h.delivered, h.final]; rfl
  returns := by
    intro fin hfin
    rw [h.final] at hfin
    cases hfin
  value := by
    intro fin v hfin
    rw [h.final] at hfin
    cases hfin
  frees := by simp [h.frees, h.final]

/-- UCX ends a pending operation: in this step its `co_await` continues with the outcome of
the completion and its request is freed, and no other operation is touched. -/
theorem complete_step {s : St} {r : Request} {fin : Completion} (hinv : Inv statusString s)
    (hen : Enabled s (.complete r fin)) :
    ∃ n rec s', s.record n = some rec ∧ rec.answer = .request r ∧ rec.final = none ∧
      step statusString s (.complete r fin) = .ok s' ∧
      s'.record = update s.record n (some { rec with
        final := some fin, delivered := [rec.op.outcome statusString fin], frees := 1 }) := by
  rcases hen with ⟨⟨q, hq, -⟩, -⟩
  have hq' : s.live r = some q := hq
  rcases hinv.live r q hq with ⟨rec, aw, haw⟩
  refine ⟨q.op, rec, s.settle statusString r q rec fin, haw.record, haw.answer, haw.final, ?_, rfl⟩
  simp only [step, hq', complete_awaited statusString haw]

/-- In every run of any number of coroutines: nothing the thread or UCX can do
next is undefined behaviour; every operation has one result, its own: that of the step in
which UCX answers it at once or completes its request; and `ucp_request_free` is only ever
called on requests that UCX returned. -/
theorem await_exactly_once {as : List Act} {s : St}
    (h : Lts.run (next statusString) St.init as = some s) :
    (∀ a, Enabled s a → ∃ s', step statusString s a = .ok s') ∧
      (∀ n rec, s.record n = some rec → OneResult statusString s n rec) ∧
      (∀ r fin, Enabled s (.complete r fin) → ∃ n rec s', s.record n = some rec ∧
        rec.answer = .request r ∧ rec.final = none ∧
        step statusString s (.complete r fin) = .ok s' ∧
        s'.record = update s.record n (some { rec with
          final := some fin, delivered := [rec.op.outcome statusString fin], frees := 1 })) ∧
      (∀ c op mem ans fin, ans.final = some fin →
        (coAwait statusString s c op mem ans).record = update s.record s.issued
          (some ⟨c, op, ans.ptr, some fin, [op.outcome statusString fin], 0⟩)) ∧
      (∀ p ∈ s.freed, ∃ n rec r, s.record n = some rec ∧ rec.answer = p ∧ p = .request r) := by
  have hinv := safety statusString h
  refine ⟨fun a => enabled_steps statusString hinv, ?_,
    fun r fin => complete_step statusString hinv, ?_, hinv.freed⟩
  · intro n rec hrec
    rcases hinv.record n rec hrec with ⟨fin, hset⟩ | ⟨r, q, aw, hq, hop, haw⟩
    · exact hset.oneResult statusString hinv hrec
    · subst hop
      exact haw.oneResult statusString hq
  · intro c op mem ans fin hfin
    rw [coAwait_final statusString hfin]
    rfl

/-- Two coroutines: a tag receive that stays pending while a stream send fails
at once, and is completed by the callback afterwards. -/
theorem await_exactly_once_two :
    ∃ s, Lts.run (next fun _ => "error") St.init
        [.coAwait 0 (.tagRecv 0 64 8 7 7) ⟨none, ⟨0, 0⟩⟩ ⟨.request 5, 0, 0⟩,
          .coAwait 1 (.streamSend (some 1) 64 8) ⟨none, ⟨0, 0⟩⟩ ⟨.err 3, 0, 0⟩,
          .complete 5 ⟨.ok, 8, 7⟩] = some s ∧
      (∀ n rec, s.record n = some rec → OneResult (fun _ => "error") s n rec) := by
  obtain ⟨s, h⟩ : ∃ s, Lts.run (next fun _ => "error") St.init
      [.coAwait 0 (.tagRecv 0 64 8 7 7) ⟨none, ⟨0, 0⟩⟩ ⟨.request 5, 0, 0⟩,
        .coAwait 1 (.streamSend (some 1) 64 8) ⟨none, ⟨0, 0⟩⟩ ⟨.err 3, 0, 0⟩,
        .complete 5 ⟨.ok, 8, 7⟩] = some s := ⟨_, rfl⟩
  exact ⟨s, h, (await_exactly_once _ h).2.1⟩

end Ucxpp.AwaitRun
