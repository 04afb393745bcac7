import Ucxpp.Atomics
import Ucxpp.Lib.Trace

/-!
# AtomicsRun — the remote words as atomic registers

`Passed` is the bottom of the argument: what each of the ten members passes to UCX
makes UCX do the update of that member and return the old value to the variable
that should get it. The rest is an invariant of the runs (`Inv`): the remote
memories are those after the effects one by one, and a result that UCX has not
written yet is the value that the word had before the effect.
-/

namespace Ucxpp.Atomics

open Bytes (Endian)

variable {host : Endian} {target : UcpEp → UcpRkey → Nat} {ucp : UcpAtomic}
variable {remote locals : Nat → Memory} {s s' : St}

/-! ## The members -/

theorem two_pow_eight_mul (n : Nat) : 2 ^ (8 * n) = 256 ^ n := by
  rw [Nat.pow_mul]

theorem modulus_eq (width : AtomicWidth) : modulus width = 2 ^ (8 * width.bytes) := by
  cases width <;> rfl

/-- The opcode and the operand of a member. -/
def Member.opcode : Member → AtomicOp
  | .add _ | .fetchAdd .. => .add
  | .and _ | .fetchAnd .. => .and
  | .or _ | .fetchOr .. => .or
  | .xor _ | .fetchXor .. => .xor
  | .swap .. => .swap
  | .compareSwap .. => .cswap

def Member.operand : Member → Address
  | .add delta | .fetchAdd delta _ => delta
  | .and bits | .fetchAnd bits _ | .or bits | .fetchOr bits _ | .xor bits | .fetchXor bits _ =>
    bits
  | .swap newValue _ => newValue
  | .compareSwap expected _ => expected

/-- All members build the same awaitable, with an opcode, an operand and a reply
buffer of their own. -/
theorem call_memoryCall (handle : RemoteMemoryHandle) (c : AtomicCall) :
    handle.call c.memoryCall =
      handle.atomic c.width c.member.opcode c.raddr c.member.operand c.member.oldValue := by
  rcases c with ⟨width, raddr, member⟩
  cases member <;> rfl

/-- With these, UCX does the update of the member. -/
theorem execute_word (width : AtomicWidth) (m : Member) {value : Address → Nat} {word : Nat}
    (hvalue : ∀ var, value var < 2 ^ (8 * width.bytes)) (hword : word < 2 ^ (8 * width.bytes)) :
    (ucp.execute m.opcode width.bytes word (value m.operand) (m.oldValue.map value)).1 =
      (m.update value).apply width word := by
  cases m with
  | add delta | fetchAdd delta =>
    rw [Member.update, Update.apply, modulus_eq]
    exact ucp.add_word hword (hvalue delta)
  | and bits | fetchAnd bits => exact ucp.and_word hword (hvalue bits)
  | or bits | fetchOr bits => exact ucp.or_word hword (hvalue bits)
  | xor bits | fetchXor bits => exact ucp.xor_word hword (hvalue bits)
  | swap newValue => exact ucp.swap_word hword (hvalue newValue)
  | compareSwap expected => exact ucp.cswap_word hword (hvalue expected)

/-- What is passed for a call is what UCX needs to do the update of the call. -/
structure Passed (target : UcpEp → UcpRkey → Nat) (ucp : UcpAtomic) (host : Endian)
    (handle : RemoteMemoryHandle) (c : AtomicCall) (r : AtomicRequest) : Prop where
  size : r.size = c.width.bytes
  word : r.word target = ⟨target handle.ep handle.rkey, c.raddr.toNat, c.width.bytes⟩
  reply : r.param.replyBuffer = c.member.oldValue
  execute : ∀ mem word, word < 256 ^ c.width.bytes → r.execute ucp host mem word =
    ((c.update host mem).apply c.width word, c.member.oldValue.map fun _ => word)

theorem passed {handle : RemoteMemoryHandle} {c : AtomicCall} {self : Nat} {r : AtomicRequest}
    (h : atomicRequest self (handle.call c.memoryCall) = some r) :
    Passed target ucp host handle c r := by
  rw [call_memoryCall] at h
  obtain rfl := Option.some.inj h
  refine ⟨rfl, rfl, rfl, fun mem word hword => ?_⟩
  rw [← two_pow_eight_mul] at hword
  have hvalue : ∀ var, Memory.load host mem var c.width.bytes < 2 ^ (8 * c.width.bytes) := by
    intro var
    rw [two_pow_eight_mul]
    exact Memory.load_lt host mem var c.width.bytes
  apply Prod.ext
  · exact execute_word c.width c.member hvalue hword
  · refine (ucp.result hword (hvalue c.member.operand)).trans ?_
    exact Option.map_map ..

/-- An update leaves a word of its width. -/
theorem apply_lt (host : Endian) (c : AtomicCall) (mem : Memory) {word : Nat}
    (hword : word < 256 ^ c.width.bytes) :
    (c.update host mem).apply c.width word < 256 ^ c.width.bytes := by
  have hvalue : ∀ var, Memory.load host mem var c.width.bytes < 256 ^ c.width.bytes :=
    fun var => Memory.load_lt host mem var c.width.bytes
  rcases c with ⟨width, raddr, member⟩
  rw [← two_pow_eight_mul] at hword hvalue ⊢
  cases member with
  | add delta | fetchAdd delta =>
    simp only [AtomicCall.update, Member.update, Update.apply, modulus_eq]
    exact Nat.mod_lt _ (Nat.two_pow_pos _)
  | and bits | fetchAnd bits => exact Nat.and_lt_two_pow _ (hvalue bits)
  | or bits | fetchOr bits => exact Nat.or_lt_two_pow hword (hvalue bits)
  | xor bits | fetchXor bits => exact Nat.xor_lt_two_pow hword (hvalue bits)
  | swap newValue => exact hvalue newValue
  | compareSwap expected desiredAndOld =>
    simp only [AtomicCall.update, Member.update, Update.apply]
    split
    · exact hvalue desiredAndOld
    · exact hword

/-! ## The words of a history -/

theorem replay_append (remote : Nat → Memory) (history : List Effect) (e : Effect) :
    replay host target remote (history ++ [e]) =
      e.apply host target (replay host target remote history) := by
  rw [replay, List.foldl_append]
  rfl

theorem foldWord_cons (w : Word) (v : Nat) (e : Effect) (history : List Effect) :
    foldWord host target w v (e :: history) =
      foldWord host target w
        (if e.word target = w then (e.update host).apply e.call.width v else v) history := by
  by_cases hw : e.word target = w
  · simp only [foldWord, List.filter_cons, hw, decide_true, if_true, List.foldl_cons]
  · simp only [foldWord, List.filter_cons, hw, decide_false, Bool.false_eq_true, if_false]

/-- The value of a word after effects on it and on words disjoint from it. -/
theorem value_replay {w : Word} {history : List Effect}
    (h : ∀ e ∈ history, e.word target = w ∨ (e.word target).Disjoint w) :
    w.value host (replay host target remote history) =
      foldWord host target w (w.value host remote) history := by
  induction history generalizing remote with
  | nil => rfl
  | cons e history ih =>
    have hrest : w.value host (replay host target (e.apply host target remote) history) =
        foldWord host target w (w.value host (e.apply host target remote)) history :=
      ih fun e' he' => h e' (List.mem_cons_of_mem e he')
    have hunfold : replay host target remote (e :: history) =
        replay host target (e.apply host target remote) history := rfl
    rw [hunfold, hrest]
    by_cases hw : e.word target = w
    · -- the effect is the first one on the word
      subst hw
      have hlt := apply_lt host e.call e.seen (Word.value_lt host (e.word target) remote)
      rw [Effect.apply, Word.value_assign host _ remote hlt, foldWord_cons, if_pos rfl]
    · have hdisjoint := (h e List.mem_cons_self).resolve_left hw
      rw [Effect.apply, Word.value_assign_disjoint host _ remote hdisjoint, foldWord_cons,
        if_neg hw]

/-! ## The steps -/

/-- The steps, one constructor for each way to take one. -/
inductive Step (host : Endian) (target : UcpEp → UcpRkey → Nat) (ucp : UcpAtomic) (s : St) :
    Act → St → Prop where
  | issue {client : Nat} {handle : RemoteMemoryHandle} {call : AtomicCall} {r : AtomicRequest}
      (hrequest : atomicRequest s.ops.length (handle.call call.memoryCall) = some r) :
      Step host target ucp s (.issue client handle call) { s with
        ops := s.ops ++ [⟨⟨client, handle, call, s.locals client⟩, r, .issued⟩] }
  | read {i : Nat} {o : Op} (ho : s.ops[i]? = some o) (hphase : o.phase = .issued) :
      Step host target ucp s (.read i) (s.setPhase i o (.read (s.locals o.client)))
  | execute {i : Nat} {o : Op} {seen : Memory} {word : Nat} {result : Option Nat}
      (ho : s.ops[i]? = some o) (hphase : o.phase = .read seen)
      (hexecute : o.request.execute ucp host seen ((o.request.word target).value host s.remote) =
        (word, result)) :
      Step host target ucp s (.execute i) { s.setPhase i o (.executed result) with
        remote := (o.request.word target).assign host word s.remote
        history := s.history ++ [⟨o.toIssue, i, seen⟩] }
  | complete {i : Nat} {o : Op} {result : Option Nat} (ho : s.ops[i]? = some o)
      (hphase : o.phase = .executed result) :
      Step host target ucp s (.complete i) { s.setPhase i o .completed with
        locals := Function.update s.locals o.client
          (o.request.writeReply host result (s.locals o.client)) }
  | assign {client : Nat} {addr : Address} {byte : UInt8} :
      Step host target ucp s (.assign client addr byte) { s with
        locals := Function.update s.locals client
          (Function.update (s.locals client) addr byte) }

theorem step_cases {a : Act} (h : step host target ucp s a = some s') :
    Step host target ucp s a s' := by
  cases a with
  | issue client handle call =>
    rcases Option.bind_eq_some_iff.mp h with ⟨r, hrequest, hs⟩
    exact Option.some.inj hs ▸ .issue hrequest
  | read i =>
    rcases Option.bind_eq_some_iff.mp h with ⟨o, ho, hs⟩
    cases hphase : o.phase with
    | issued =>
      rw [hphase] at hs
      exact Option.some.inj hs ▸ .read ho hphase
    | read | executed | completed =>
      rw [hphase] at hs
      cases hs
  | execute i =>
    rcases Option.bind_eq_some_iff.mp h with ⟨o, ho, hs⟩
    cases hphase : o.phase with
    | read seen =>
      rw [hphase] at hs
      exact Option.some.inj hs ▸ .execute ho hphase rfl
    | issued | executed | completed =>
      rw [hphase] at hs
      cases hs
  | complete i =>
    rcases Option.bind_eq_some_iff.mp h with ⟨o, ho, hs⟩
    cases hphase : o.phase with
    | executed result =>
      rw [hphase] at hs
      exact Option.some.inj hs ▸ .complete ho hphase
    | issued | read | completed =>
      rw [hphase] at hs
      cases hs
  | assign client addr byte => exact Option.some.inj h ▸ .assign

/-! ## The invariant -/

/-- UCX has executed the operation. -/
def Phase.TookEffect : Phase → Prop
  | .executed _ | .completed => True
  | .issued | .read _ => False

/-- The result is the value that the word of the operation had just before. -/
def Fetched (host : Endian) (target : UcpEp → UcpRkey → Nat) (remote : Nat → Memory)
    (history : List Effect) (i : Nat) (o : Op) (result : Option Nat) : Prop :=
  ∃ before e after, history = before ++ e :: after ∧ e.op = i ∧ e.toIssue = o.toIssue ∧
    result = o.call.member.oldValue.map fun _ =>
      (o.word target).value host (replay host target remote before)

theorem Fetched.append {history : List Effect} {i : Nat} {o : Op} {result : Option Nat}
    (h : Fetched host target remote history i o result) (e : Effect) :
    Fetched host target remote (history ++ [e]) i o result := by
  rcases h with ⟨before, e', after, rfl, hi, hissue, hresult⟩
  exact ⟨before, e', after ++ [e], by rw [List.append_assoc, List.cons_append], hi, hissue, hresult⟩

/-- What holds of an operation and the history, whatever the other operations do. -/
structure OpInv (host : Endian) (target : UcpEp → UcpRkey → Nat) (remote : Nat → Memory)
    (history : List Effect) (i : Nat) (o : Op) : Prop where
  request : atomicRequest i (o.handle.call o.call.memoryCall) = some o.request
  effect : o.phase.TookEffect ↔ i ∈ history.map Effect.op
  issue : ∀ e ∈ history, e.op = i → e.toIssue = o.toIssue
  result : ∀ result, o.phase = .executed result →
    Fetched host target remote history i o result

structure Inv (host : Endian) (target : UcpEp → UcpRkey → Nat) (remote : Nat → Memory)
    (s : St) : Prop where
  ops : ∀ i o, s.ops[i]? = some o → OpInv host target remote s.history i o
  memory : s.remote = replay host target remote s.history
  nodup : (s.history.map Effect.op).Nodup
  known : ∀ e ∈ s.history, e.op < s.ops.length

theorem Inv.init : Inv host target remote (.init remote locals) where
  ops _ _ ho := by cases ho
  memory := rfl
  nodup := List.nodup_nil
  known _ he := by cases he

/-- An operation behind the step: the one that the step is about, or an old one. -/
theorem setPhase_ops {i j : Nat} {o o' : Op} {phase : Phase} (ho : s.ops[i]? = some o)
    (h : (s.setPhase i o phase).ops[j]? = some o') :
    (j = i ∧ o' = { o with phase := phase }) ∨ (j ≠ i ∧ s.ops[j]? = some o') := by
  have hlt : i < s.ops.length := (List.getElem?_eq_some_iff.mp ho).1
  by_cases hj : j = i
  · subst hj
    rw [St.setPhase, List.getElem?_set_self hlt] at h
    exact .inl ⟨rfl, (Option.some.inj h).symm⟩
  · rw [St.setPhase, List.getElem?_set_ne (Ne.symm hj)] at h
    exact .inr ⟨hj, h⟩

@[simp] theorem setPhase_length (i : Nat) (o : Op) (phase : Phase) :
    (s.setPhase i o phase).ops.length = s.ops.length :=
  List.length_set

/-- A phase may change where it does not say that UCX executed the operation, or
when it goes on saying so. -/
theorem OpInv.withPhase {history : List Effect} {i : Nat} {o : Op} {phase : Phase}
    (h : OpInv host target remote history i o)
    (heffect : phase.TookEffect ↔ o.phase.TookEffect)
    (hresult : ∀ result, phase ≠ .executed result) :
    OpInv host target remote history i { o with phase := phase } where
  request := h.request
  effect := heffect.trans h.effect
  issue := h.issue
  result result hphase := absurd hphase (hresult result)

/-- An effect of another operation changes nothing. -/
theorem OpInv.append {history : List Effect} {i : Nat} {o : Op}
    (h : OpInv host target remote history i o) {e : Effect} (he : e.op ≠ i) :
    OpInv host target remote (history ++ [e]) i o where
  request := h.request
  effect := by
    rw [List.map_append, List.mem_append, List.map_singleton, List.mem_singleton,
      or_iff_left (Ne.symm he)]
    exact h.effect
  issue e' he' hop := by
    rcases List.mem_append.mp he' with hold | hnew
    · exact h.issue e' hold hop
    · rw [List.mem_singleton.mp hnew] at hop
      exact absurd hop he
  result result hphase := (h.result result hphase).append e

/-- The operation itself takes effect. -/
theorem OpInv.executed {history : List Effect} {i : Nat} {o : Op} {result : Option Nat}
    (h : OpInv host target remote history i o) (seen : Memory)
    (hresult : result = o.call.member.oldValue.map fun _ =>
      (o.word target).value host (replay host target remote history)) :
    OpInv host target remote (history ++ [⟨o.toIssue, i, seen⟩]) i
      { o with phase := .executed result } where
  request := h.request
  effect := by
    refine iff_of_true trivial ?_
    rw [List.map_append]
    exact List.mem_append_right _ (List.mem_singleton.mpr rfl)
  issue e he hop := by
    rcases List.mem_append.mp he with hold | hnew
    · exact h.issue e hold hop
    · rw [List.mem_singleton.mp hnew]
  result r hr := by
    rw [← Phase.executed.inj hr]
    exact ⟨history, ⟨o.toIssue, i, seen⟩, [], rfl, rfl, rfl, hresult⟩

theorem Inv.setPhase {i : Nat} {o : Op} (phase : Phase) (h : Inv host target remote s)
    (ho : s.ops[i]? = some o) (heffect : phase.TookEffect ↔ o.phase.TookEffect)
    (hresult : ∀ result, phase ≠ .executed result) :
    Inv host target remote (s.setPhase i o phase) where
  ops j o' ho' := by
    rcases setPhase_ops ho ho' with ⟨rfl, rfl⟩ | ⟨-, hold⟩
    · exact (h.ops j o ho).withPhase heffect hresult
    · exact h.ops j o' hold
  memory := h.memory
  nodup := h.nodup
  known e he := by
    rw [setPhase_length]
    exact h.known e he

theorem Inv.execute {i : Nat} {o : Op} {seen : Memory} {word : Nat} {result : Option Nat}
    (h : Inv host target remote s) (ho : s.ops[i]? = some o) (hphase : o.phase = .read seen)
    (hexecute : o.request.execute ucp host seen ((o.request.word target).value host s.remote) =
      (word, result)) :
    Inv host target remote { s.setPhase i o (.executed result) with
      remote := (o.request.word target).assign host word s.remote
      history := s.history ++ [⟨o.toIssue, i, seen⟩] } := by
  have hop := h.ops i o ho
  have hpassed : Passed target ucp host o.handle o.call o.request := passed hop.request
  have hword : o.request.word target = o.word target := hpassed.word
  -- the answer of UCX, in terms of the call
  have hlt := Word.value_lt host (o.word target) s.remote
  rw [hword, hpassed.execute seen _ hlt] at hexecute
  rcases Prod.mk.inj hexecute with ⟨hnew, hold⟩
  -- the operation has no effect before this one
  have hfresh : i ∉ s.history.map Effect.op := by
    rw [← hop.effect, hphase]
    exact id
  constructor
  · intro j o' ho'
    rcases setPhase_ops ho ho' with ⟨rfl, rfl⟩ | ⟨hj, hother⟩
    · exact hop.executed seen (by rw [← hold, ← h.memory])
    · exact (h.ops j o' hother).append (Ne.symm hj)
  · rw [replay_append, ← h.memory, hword, ← hnew]
    rfl
  · rw [List.map_append, List.nodup_append]
    refine ⟨h.nodup, List.pairwise_singleton _ _, ?_⟩
    intro a ha b hb hab
    rw [List.map_singleton, List.mem_singleton] at hb
    rw [hab, hb] at ha
    exact hfresh ha
  · intro e he
    have hlen : i < s.ops.length := (List.getElem?_eq_some_iff.mp ho).1
    rw [setPhase_length]
    rcases List.mem_append.mp he with hmem | hmem
    · exact h.known e hmem
    · rw [List.mem_singleton.mp hmem]
      exact hlen

theorem Inv.issue {client : Nat} {handle : RemoteMemoryHandle} {call : AtomicCall}
    {r : AtomicRequest} (h : Inv host target remote s)
    (hrequest : atomicRequest s.ops.length (handle.call call.memoryCall) = some r) :
    Inv host target remote { s with
      ops := s.ops ++ [⟨⟨client, handle, call, s.locals client⟩, r, .issued⟩] } where
  ops j o ho := by
    rcases Trace.getElem?_concat.mp ho with hold | ⟨rfl, rfl⟩
    · exact h.ops j o hold
    · -- no effect has the number of the new operation
      have hfresh : ∀ e ∈ s.history, e.op ≠ s.ops.length := fun e he =>
        Nat.ne_of_lt (h.known e he)
      constructor
      · exact hrequest
      · refine iff_of_false id fun hmem => ?_
        rcases List.mem_map.mp hmem with ⟨e, he, hop⟩
        exact hfresh e he hop
      · intro e he hop
        exact absurd hop (hfresh e he)
      · intro result hphase
        cases hphase
  memory := h.memory
  nodup := h.nodup
  known e he := by
    rw [List.length_append]
    exact Nat.lt_add_right 1 (h.known e he)

theorem Inv.step {a : Act} (h : Inv host target remote s)
    (hstep : step host target ucp s a = some s') : Inv host target remote s' := by
  cases step_cases hstep with
  | issue hrequest => exact h.issue hrequest
  | read ho hphase =>
    refine h.setPhase _ ho ?_ nofun
    rw [hphase]
    exact Iff.rfl
  | execute ho hphase hexecute => exact h.execute ho hphase hexecute
  | complete ho hphase =>
    have hset := h.setPhase .completed ho (by rw [hphase]; exact Iff.rfl) nofun
    exact ⟨hset.ops, hset.memory, hset.nodup, hset.known⟩
  | assign => exact ⟨h.ops, h.memory, h.nodup, h.known⟩

/-! ## The local variables -/

theorem leaves_writeReply {r : AtomicRequest} {old : Option Address} {n v client : Nat}
    (hsize : r.size = n) (hreply : r.param.replyBuffer = old) (hv : v < 256 ^ n) :
    Leaves host client n v locals
      (Function.update locals client
        (r.writeReply host (old.map fun _ => v) (locals client))) old := by
  subst hsize
  unfold AtomicRequest.writeReply
  rw [hreply]
  cases old with
  | none => exact Function.update_eq_self client locals
  | some var =>
    refine ⟨?_, fun c a hout => ?_⟩
    · rw [Function.update_self]
      exact Memory.load_store hv
    · by_cases hc : c = client
      · subst hc
        rw [Function.update_self]
        rcases hout with hne | hrange
        · exact absurd rfl hne
        · exact Memory.store_outside hrange
      · rw [Function.update_of_ne hc]

/-- The result is written to the variable that should get it. -/
theorem leaves_of_complete {i : Nat} (h : Inv host target remote s)
    (hstep : step host target ucp s (.complete i) = some s') :
    ∃ o before e after, s.ops[i]? = some o ∧ s.history = before ++ e :: after ∧ e.op = i ∧
      Leaves host o.client o.call.width.bytes
        ((o.word target).value host (replay host target remote before)) s.locals s'.locals
        o.call.member.oldValue := by
  cases step_cases hstep with
  | @complete _ o result ho hphase =>
    have hop := h.ops i o ho
    have hpassed : Passed target ucp host o.handle o.call o.request := passed hop.request
    rcases hop.result result hphase with ⟨before, e, after, hhistory, hi, -, rfl⟩
    refine ⟨o, before, e, after, ho, hhistory, hi, ?_⟩
    exact leaves_writeReply hpassed.size hpassed.reply
      (Word.value_lt host (o.word target) (replay host target remote before))

/-- Other steps of an operation write no local variable. -/
theorem step_quiet {a : Act} (hstep : step host target ucp s a = some s')
    (hcomplete : ∀ i, a ≠ .complete i) (hassign : ∀ c addr byte, a ≠ .assign c addr byte) :
    s'.locals = s.locals := by
  cases step_cases hstep with
  | issue | read | execute => rfl
  | complete => exact absurd rfl (hcomplete _)
  | assign => exact absurd rfl (hassign _ _ _)

/-- A step changes no byte but those that it writes. -/
theorem locals_of_not_writes {a : Act} {client : Nat} {addr : Address}
    (h : Inv host target remote s) (hstep : step host target ucp s a = some s')
    (hwrites : ¬Writes s client addr a) : s'.locals client addr = s.locals client addr := by
  cases a with
  | issue | read | execute =>
    rw [step_quiet hstep (fun _ => nofun) fun _ _ _ => nofun]
  | assign c b byte =>
    cases step_cases hstep with
    | assign =>
      by_cases hc : client = c
      · subst hc
        have hb : addr ≠ b := fun hb => hwrites ⟨rfl, hb.symm⟩
        simp only
        rw [Function.update_self, Function.update_of_ne hb]
      · simp only
        rw [Function.update_of_ne hc]
  | complete i =>
    rcases leaves_of_complete h hstep with ⟨o, before, e, after, ho, -, -, hleaves⟩
    cases hold : o.call.member.oldValue with
    | none =>
      rw [hold] at hleaves
      exact congrFun (congrFun hleaves client) addr
    | some var =>
      rw [hold] at hleaves
      apply hleaves.2
      by_cases hc : client = o.client
      · right
        -- inside the variable it would be written
        by_cases hlow : addr < var
        · exact .inl hlow
        · refine .inr (Nat.le_of_not_lt fun hhigh => hwrites ?_)
          exact ⟨o, ho, hc.symm, var, hold, Nat.le_of_not_lt hlow, hhigh⟩
      · exact .inl hc

/-! ## The values at the call -/

theorem Member.update_congr (m : Member) {value value' : Address → Nat}
    (h : ∀ var ∈ m.reads, value var = value' var) : m.update value = m.update value' := by
  cases m with
  | add delta | fetchAdd delta => exact congrArg Update.add (h delta List.mem_cons_self)
  | and bits | fetchAnd bits => exact congrArg Update.and (h bits List.mem_cons_self)
  | or bits | fetchOr bits => exact congrArg Update.or (h bits List.mem_cons_self)
  | xor bits | fetchXor bits => exact congrArg Update.xor (h bits List.mem_cons_self)
  | swap newValue => exact congrArg Update.swap (h newValue List.mem_cons_self)
  | compareSwap expected desiredAndOld =>
    exact congrArg₂ Update.compareSwap (h expected List.mem_cons_self)
      (h desiredAndOld (List.mem_cons_of_mem _ List.mem_cons_self))

/-- The update of a call depends on the variables that it reads only. -/
theorem AtomicCall.update_congr (c : AtomicCall) {m m' : Memory}
    (h : ∀ var ∈ c.member.reads, ∀ k < c.width.bytes, m (var + k) = m' (var + k)) :
    c.update host m = c.update host m' :=
  c.member.update_congr fun var hvar => Memory.load_congr (h var hvar)

/-- UCX sees the values that the variables had at the call. -/
structure AsCalled (host : Endian) (s : St) : Prop where
  issued : ∀ o ∈ s.ops, o.phase = .issued →
    o.call.update host (s.locals o.client) = o.call.update host o.called
  read : ∀ o ∈ s.ops, ∀ seen, o.phase = .read seen →
    o.call.update host seen = o.call.update host o.called
  effects : ∀ e ∈ s.history, e.update host = e.call.update host e.called

theorem AsCalled.init : AsCalled host (.init remote locals) where
  issued _ ho := by cases ho
  read _ ho := by cases ho
  effects _ he := by cases he

theorem AsCalled.setPhase {i : Nat} {o : Op} (phase : Phase) (h : AsCalled host s)
    (hissued : phase ≠ .issued)
    (hread : ∀ seen, phase = .read seen → o.call.update host seen = o.call.update host o.called) :
    AsCalled host (s.setPhase i o phase) where
  issued o' ho' hphase := by
    rcases List.mem_or_eq_of_mem_set ho' with hold | rfl
    · exact h.issued o' hold hphase
    · exact absurd hphase hissued
  read o' ho' seen hphase := by
    rcases List.mem_or_eq_of_mem_set ho' with hold | rfl
    · exact h.read o' hold seen hphase
    · exact hread seen hphase
  effects := h.effects

/-- The memories of the clients may change where no buffer is still to be read. -/
theorem AsCalled.withLocals {locals' : Nat → Memory} (h : AsCalled host s)
    (hlocals : ∀ o ∈ s.ops, o.phase = .issued → ∀ var ∈ o.call.member.reads,
      ∀ k < o.call.width.bytes, locals' o.client (var + k) = s.locals o.client (var + k)) :
    AsCalled host { s with locals := locals' } where
  issued o ho hphase := by
    rw [← h.issued o ho hphase]
    exact o.call.update_congr (hlocals o ho hphase)
  read := h.read
  effects := h.effects

theorem AsCalled.step {a : Act} (hinv : Inv host target remote s) (h : AsCalled host s)
    (hundisturbed : Undisturbed s a) (hstep : step host target ucp s a = some s') :
    AsCalled host s' := by
  have hkept : ∀ o ∈ s.ops, o.phase = .issued → ∀ var ∈ o.call.member.reads,
      ∀ k < o.call.width.bytes, s'.locals o.client (var + k) = s.locals o.client (var + k) :=
    fun o ho hphase var hvar k hk =>
      locals_of_not_writes hinv hstep (hundisturbed o ho hphase var hvar k hk)
  cases step_cases hstep with
  | issue hrequest =>
    constructor
    · intro o ho hphase
      rcases List.mem_append.mp ho with hold | hnew
      · exact h.issued o hold hphase
      · rw [List.mem_singleton.mp hnew]
    · intro o ho seen hphase
      rcases List.mem_append.mp ho with hold | hnew
      · exact h.read o hold seen hphase
      · rw [List.mem_singleton.mp hnew] at hphase
        cases hphase
    · exact h.effects
  | @read i o ho hphase =>
    refine h.setPhase _ nofun fun seen hseen => ?_
    rw [← Phase.read.inj hseen]
    exact h.issued o (List.mem_of_getElem? ho) hphase
  | @execute i o seen word result ho hphase hexecute =>
    have hset : AsCalled host (s.setPhase i o (.executed result)) :=
      h.setPhase _ nofun nofun
    refine ⟨hset.issued, hset.read, fun e he => ?_⟩
    rcases List.mem_append.mp he with hold | hnew
    · exact h.effects e hold
    · rw [List.mem_singleton.mp hnew]
      exact h.read o (List.mem_of_getElem? ho) seen hphase
  | complete ho hphase => exact (h.withLocals hkept).setPhase .completed nofun nofun
  | assign => exact h.withLocals hkept

/-! ## Atomic registers -/

/-- The remote words behave like atomic registers in every state that holds this. -/
structure ActAsRegisters (host : Endian) (target : UcpEp → UcpRkey → Nat) (ucp : UcpAtomic)
    (remote : Nat → Memory) (s : St) : Prop where
  /-- The remote memories are those after the effects, one after the other. -/
  memory : s.remote = replay host target remote s.history
  /-- After any part of the history, a word that no operation overlaps in part has
  the value of the fold of the operations on it. -/
  words : ∀ before, before <+: s.history → ∀ w : Word,
    (∀ e ∈ before, e.word target = w ∨ (e.word target).Disjoint w) →
      w.value host (replay host target remote before) =
        foldWord host target w (w.value host remote) before
  /-- An operation takes effect once. -/
  once : (s.history.map Effect.op).Nodup
  /-- The effects are those of the calls that UCX has executed. -/
  effects : ∀ i o, s.ops[i]? = some o →
    (o.phase.TookEffect ↔ i ∈ s.history.map Effect.op) ∧
      ∀ e ∈ s.history, e.op = i → e.toIssue = o.toIssue
  /-- A completion leaves in the variable of a fetching operation the value that the
  word had just before the operation took effect, and nothing elsewhere. -/
  fetched : ∀ i s', step host target ucp s (.complete i) = some s' →
    ∃ o before e after, s.ops[i]? = some o ∧ s.history = before ++ e :: after ∧ e.op = i ∧
      Leaves host o.client o.call.width.bytes
        ((o.word target).value host (replay host target remote before)) s.locals s'.locals
        o.call.member.oldValue
  /-- Otherwise only the clients themselves write their variables. -/
  quiet : ∀ a s', step host target ucp s a = some s' → (∀ i, a ≠ .complete i) →
    (∀ c addr byte, a ≠ .assign c addr byte) → s'.locals = s.locals

/-- A client can call any of the ten atomics at any time: the assertion of the awaitable's
constructor holds, and the call reaches UCX. -/
theorem issue_step (s : St) (client : Nat) (handle : RemoteMemoryHandle) (call : AtomicCall) :
    (handle.call call.memoryCall).Asserts ∧
      ∃ request, step host target ucp s (.issue client handle call) = some { s with
        ops := s.ops ++ [⟨⟨client, handle, call, s.locals client⟩, request, .issued⟩] } := by
  refine ⟨handle.call_asserts call.memoryCall, ?_⟩
  have hsome := (atomicRequest_call_iff handle s.ops.length call.memoryCall).mpr ⟨call, rfl⟩
  rcases Option.isSome_iff_exists.mp hsome with ⟨request, hrequest⟩
  refine ⟨request, ?_⟩
  simp only [step, hrequest, Option.bind_eq_bind, Option.bind_some]

/-- The remote words are atomic registers in every run, in which each of the ten atomics can
be called at any time. If no step writes a variable that UCX has yet to read, the operations
are those with the values at their calls. -/
theorem act_as_registers {acts : List Act}
    (hrun : Lts.run (step host target ucp) (.init remote locals) acts = some s) :
    ActAsRegisters host target ucp remote s ∧
      (∀ client handle call, (handle.call call.memoryCall).Asserts ∧
        ∃ request, step host target ucp s (.issue client handle call) = some { s with
          ops := s.ops ++ [⟨⟨client, handle, call, s.locals client⟩, request, .issued⟩] }) ∧
      (Lts.StepsMeet (step host target ucp) Undisturbed (.init remote locals) acts →
        ∀ e ∈ s.history, e.update host = e.call.update host e.called) := by
  refine ⟨?_, fun client handle call => issue_step s client handle call, ?_⟩
  · have hinv : Inv host target remote s :=
      Lts.run_invariant (Inv host target remote) (fun _ _ _ h _ hstep => h.step hstep) Inv.init
        (Lts.stepsMeet_true _ acts) hrun
    constructor
    · exact hinv.memory
    · exact fun before _ w hwords => value_replay hwords
    · exact hinv.nodup
    · exact fun i o ho => ⟨(hinv.ops i o ho).effect, (hinv.ops i o ho).issue⟩
    · exact fun i s' hstep => leaves_of_complete hinv hstep
    · exact fun a s' hstep => step_quiet hstep
  · intro hmeet
    have hinv := Lts.run_invariant (fun s => Inv host target remote s ∧ AsCalled host s)
      (fun _ _ _ h hundisturbed hstep =>
        ⟨h.1.step hstep, h.2.step h.1 hundisturbed hstep⟩) ⟨Inv.init, AsCalled.init⟩ hmeet hrun
    exact hinv.2.effects

/-! ## Two clients -/

/-- A UCX that does what is documented. -/
def UcpAtomic.documented : UcpAtomic where
  execute opcode size word operand reply :=
    (match opcode, reply with
      | .add, _ => (word + operand) % 2 ^ (8 * size)
      | .and, _ => word &&& operand
      | .or, _ => word ||| operand
      | .xor, _ => word ^^^ operand
      | .swap, _ => operand
      | .cswap, some desired => if word = operand then desired else word
      | .cswap, none => word,
    reply.map fun _ => word)
  add_word _ _ := rfl
  and_word _ _ := rfl
  or_word _ _ := rfl
  xor_word _ _ := rfl
  swap_word _ _ := rfl
  cswap_word _ _ := rfl
  result _ _ := rfl

/-- One client adds `5` to a word that is `0`, another one compares it with `5` and
swaps it for `9`. Both keep the operand at address `0` and the second variable at
address `8`. -/
def twoClients : List Act :=
  [.issue 0 ⟨true, some 1, some 2⟩ ⟨.four, 16, .fetchAdd 0 8⟩,
    .issue 1 ⟨true, some 3, some 4⟩ ⟨.four, 16, .compareSwap 0 8⟩,
    .read 1, .read 0, .execute 0, .execute 1, .complete 1, .complete 0]

/-- The variables of the clients before the calls. -/
def twoLocals : Nat → Memory := fun client addr =>
  if addr = 0 then 5 else if client = 1 ∧ addr = 8 then 9 else 0

theorem act_as_registers_two :
    ∃ s, Lts.run (step .little (fun _ _ => 0) .documented) (.init (fun _ _ => 0) twoLocals)
        twoClients = some s ∧
      ActAsRegisters .little (fun _ _ => 0) .documented (fun _ _ => 0) s ∧
      Word.value .little ⟨0, 16, 4⟩ s.remote = 9 ∧
      Memory.load .little (s.locals 0) 8 4 = 0 ∧ Memory.load .little (s.locals 1) 8 4 = 5 := by
  have hrun : ∃ s, Lts.run (step .little (fun _ _ => 0) .documented)
      (.init (fun _ _ => 0) twoLocals) twoClients = some s := ⟨_, rfl⟩
  rcases hrun with ⟨s, hs⟩
  refine ⟨s, hs, (act_as_registers hs).1, ?_⟩
  obtain rfl := Option.some.inj hs
  decide

end Ucxpp.Atomics
