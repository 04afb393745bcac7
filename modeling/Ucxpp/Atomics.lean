import Ucxpp.Endpoint
import Ucxpp.Lib.Lts
import Ucxpp.Lib.Memory

/-!
# Atomics — the remote atomics of remote_memory_handle

The ten atomics build an `rma_atomic_awaitable`, whose `await_ready` passes one
operation to `ucp_atomic_op_nbx`: opcode, operand, datatype and reply buffer. UCX
reads the local buffers, executes the operation on the remote word, and writes the
result to the reply buffer, each at a moment of its own. What an atomic should do
is `Update`: what becomes of the word, in terms of the values of the variables that
the member was given.
-/

namespace Ucxpp.Atomics

open Bytes (Endian)

/-! ## The members -/

/-- The ten atomics, with the variables that they are given. -/
inductive Member where
  | add (delta : Address)
  | and (bits : Address)
  | or (bits : Address)
  | xor (bits : Address)
  | fetchAdd (delta oldValue : Address)
  | fetchAnd (bits oldValue : Address)
  | fetchOr (bits oldValue : Address)
  | fetchXor (bits oldValue : Address)
  | swap (newValue oldValue : Address)
  | compareSwap (expected desiredAndOld : Address)
deriving DecidableEq, Repr

/-- A call of one of them; `width` is the size of its `T`. -/
structure AtomicCall where
  width : AtomicWidth
  raddr : UInt64
  member : Member
deriving DecidableEq, Repr

def AtomicCall.memoryCall (c : AtomicCall) : MemoryCall :=
  match c.member with
  | .add delta => .atomicAdd c.width c.raddr delta
  | .and bits => .atomicAnd c.width c.raddr bits
  | .or bits => .atomicOr c.width c.raddr bits
  | .xor bits => .atomicXor c.width c.raddr bits
  | .fetchAdd delta oldValue => .atomicFetchAdd c.width c.raddr delta oldValue
  | .fetchAnd bits oldValue => .atomicFetchAnd c.width c.raddr bits oldValue
  | .fetchOr bits oldValue => .atomicFetchOr c.width c.raddr bits oldValue
  | .fetchXor bits oldValue => .atomicFetchXor c.width c.raddr bits oldValue
  | .swap newValue oldValue => .atomicSwap c.width c.raddr newValue oldValue
  | .compareSwap expected desiredAndOld =>
    .atomicCompareSwap c.width c.raddr expected desiredAndOld

/-! ## What UCX is given -/

/-- The arguments of `ucp_atomic_op_nbx`. -/
structure AtomicRequest where
  ep : UcpEp
  opcode : AtomicOp
  buffer : Address
  remoteAddr : UInt64
  rkey : UcpRkey
  param : RequestParam
deriving DecidableEq, Repr

/-- `rma_atomic_awaitable::await_ready` up to the call that it makes. -/
def atomicRequest (self : Nat) (op : Operation) : Option AtomicRequest :=
  match op with
  | .rmaAtomic _ ep opcode buffer remoteAddr rkey _ =>
    some ⟨ep, opcode, buffer, remoteAddr, rkey, op.param self⟩
  | _ => none

/-- The atomics are the members whose awaitable makes this call. -/
theorem atomicRequest_call_iff (handle : RemoteMemoryHandle) (self : Nat) (c : MemoryCall) :
    (atomicRequest self (handle.call c)).isSome = true ↔ ∃ a : AtomicCall, a.memoryCall = c := by
  constructor
  · intro h
    cases c with
    | put | get | write | read => cases h
    | atomicFetchAdd width raddr delta old => exact ⟨⟨width, raddr, .fetchAdd delta old⟩, rfl⟩
    | atomicFetchAnd width raddr bits old => exact ⟨⟨width, raddr, .fetchAnd bits old⟩, rfl⟩
    | atomicFetchOr width raddr bits old => exact ⟨⟨width, raddr, .fetchOr bits old⟩, rfl⟩
    | atomicFetchXor width raddr bits old => exact ⟨⟨width, raddr, .fetchXor bits old⟩, rfl⟩
    | atomicAdd width raddr delta => exact ⟨⟨width, raddr, .add delta⟩, rfl⟩
    | atomicAnd width raddr bits => exact ⟨⟨width, raddr, .and bits⟩, rfl⟩
    | atomicOr width raddr bits => exact ⟨⟨width, raddr, .or bits⟩, rfl⟩
    | atomicXor width raddr bits => exact ⟨⟨width, raddr, .xor bits⟩, rfl⟩
    | atomicSwap width raddr new old => exact ⟨⟨width, raddr, .swap new old⟩, rfl⟩
    | atomicCompareSwap width raddr expected desired =>
      exact ⟨⟨width, raddr, .compareSwap expected desired⟩, rfl⟩
  · rintro ⟨⟨width, raddr, member⟩, rfl⟩
    cases member <;> rfl

/-- The size of the word: that of the datatype, which is one byte by default. -/
def AtomicRequest.size (r : AtomicRequest) : Nat :=
  r.param.datatype.getD 1

/-- How UCX executes an operation on a word of `size` bytes: the new word and the
result, given the old word, the operand, and what the reply buffer held if there is
one. The laws are what UCX documents, for words of four and eight bytes. -/
structure UcpAtomic where
  execute (opcode : AtomicOp) (size word operand : Nat) (reply : Option Nat) : Nat × Option Nat
  add_word {width : AtomicWidth} {word operand : Nat} {reply : Option Nat}
      (hword : word < 2 ^ (8 * width.bytes)) (hoperand : operand < 2 ^ (8 * width.bytes)) :
    (execute .add width.bytes word operand reply).1 = (word + operand) % 2 ^ (8 * width.bytes)
  and_word {width : AtomicWidth} {word operand : Nat} {reply : Option Nat}
      (hword : word < 2 ^ (8 * width.bytes)) (hoperand : operand < 2 ^ (8 * width.bytes)) :
    (execute .and width.bytes word operand reply).1 = word &&& operand
  or_word {width : AtomicWidth} {word operand : Nat} {reply : Option Nat}
      (hword : word < 2 ^ (8 * width.bytes)) (hoperand : operand < 2 ^ (8 * width.bytes)) :
    (execute .or width.bytes word operand reply).1 = word ||| operand
  xor_word {width : AtomicWidth} {word operand : Nat} {reply : Option Nat}
      (hword : word < 2 ^ (8 * width.bytes)) (hoperand : operand < 2 ^ (8 * width.bytes)) :
    (execute .xor width.bytes word operand reply).1 = word ^^^ operand
  swap_word {width : AtomicWidth} {word operand reply : Nat}
      (hword : word < 2 ^ (8 * width.bytes)) (hoperand : operand < 2 ^ (8 * width.bytes)) :
    (execute .swap width.bytes word operand (some reply)).1 = operand
  cswap_word {width : AtomicWidth} {word operand reply : Nat}
      (hword : word < 2 ^ (8 * width.bytes)) (hoperand : operand < 2 ^ (8 * width.bytes)) :
    (execute .cswap width.bytes word operand (some reply)).1 =
      if word = operand then reply else word
  result {opcode : AtomicOp} {width : AtomicWidth} {word operand : Nat} {reply : Option Nat}
      (hword : word < 2 ^ (8 * width.bytes)) (hoperand : operand < 2 ^ (8 * width.bytes)) :
    (execute opcode width.bytes word operand reply).2 = reply.map fun _ => word

section

variable (ucp : UcpAtomic) (host : Endian)

/-- What UCX makes of a word, where `mem` is the memory of the client when it read
the buffers. -/
def AtomicRequest.execute (r : AtomicRequest) (mem : Memory) (word : Nat) : Nat × Option Nat :=
  ucp.execute r.opcode r.size word (Memory.load host mem r.buffer r.size)
    (r.param.replyBuffer.map fun reply => Memory.load host mem reply r.size)

end

/-! ## Words of remote memories -/

/-- A word in the memory of a process. -/
structure Word where
  node : Nat
  addr : Nat
  size : Nat
deriving DecidableEq, Repr

namespace Word

variable (host : Endian)

def value (w : Word) (remote : Nat → Memory) : Nat :=
  Memory.load host (remote w.node) w.addr w.size

def assign (w : Word) (v : Nat) (remote : Nat → Memory) : Nat → Memory :=
  Function.update remote w.node (Memory.store host (remote w.node) w.addr w.size v)

/-- The words have no byte in common. -/
def Disjoint (w w' : Word) : Prop :=
  w.node ≠ w'.node ∨ w.addr + w.size ≤ w'.addr ∨ w'.addr + w'.size ≤ w.addr

instance (w w' : Word) : Decidable (w.Disjoint w') :=
  inferInstanceAs (Decidable (_ ∨ _ ∨ _))

theorem value_lt (w : Word) (remote : Nat → Memory) : w.value host remote < 256 ^ w.size :=
  Memory.load_lt host (remote w.node) w.addr w.size

theorem value_assign (w : Word) {v : Nat} (remote : Nat → Memory) (h : v < 256 ^ w.size) :
    w.value host (w.assign host v remote) = v := by
  rw [value, assign, Function.update_self]
  exact Memory.load_store h

theorem value_assign_disjoint {w w' : Word} (v : Nat) (remote : Nat → Memory)
    (h : w'.Disjoint w) : w.value host (w'.assign host v remote) = w.value host remote := by
  rw [value, value, assign]
  by_cases hnode : w.node = w'.node
  · rcases h with hne | hrange
    · exact absurd hnode.symm hne
    · rw [hnode, Function.update_self]
      apply Memory.load_store_disjoint
      omega
  · rw [Function.update_of_ne hnode]

end Word

/-- The word that a request is about. `target` says whose memory a remote key is
for. -/
def AtomicRequest.word (target : UcpEp → UcpRkey → Nat) (r : AtomicRequest) : Word :=
  ⟨target r.ep r.rkey, r.remoteAddr.toNat, r.size⟩

/-! ## What an atomic should do -/

/-- What an atomic does to the word, with the values of its variables. -/
inductive Update where
  | add (delta : Nat)
  | and (bits : Nat)
  | or (bits : Nat)
  | xor (bits : Nat)
  | swap (newValue : Nat)
  | compareSwap (expected desired : Nat)
deriving DecidableEq, Repr

/-- Addition is modulo `2 ^ 32` or `2 ^ 64`. -/
def modulus : AtomicWidth → Nat
  | .four => 2 ^ 32
  | .eight => 2 ^ 64

def Update.apply (width : AtomicWidth) (word : Nat) : Update → Nat
  | .add delta => (word + delta) % modulus width
  | .and bits => word &&& bits
  | .or bits => word ||| bits
  | .xor bits => word ^^^ bits
  | .swap newValue => newValue
  | .compareSwap expected desired => if word = expected then desired else word

/-- The update of a member, where `value` is what the variables hold. -/
def Member.update (value : Address → Nat) : Member → Update
  | .add delta | .fetchAdd delta _ => .add (value delta)
  | .and bits | .fetchAnd bits _ => .and (value bits)
  | .or bits | .fetchOr bits _ => .or (value bits)
  | .xor bits | .fetchXor bits _ => .xor (value bits)
  | .swap newValue _ => .swap (value newValue)
  | .compareSwap expected desiredAndOld => .compareSwap (value expected) (value desiredAndOld)

/-- The variable that gets the old value of the word. -/
def Member.oldValue : Member → Option Address
  | .add _ | .and _ | .or _ | .xor _ => none
  | .fetchAdd _ oldValue | .fetchAnd _ oldValue | .fetchOr _ oldValue | .fetchXor _ oldValue
  | .swap _ oldValue => some oldValue
  | .compareSwap _ desiredAndOld => some desiredAndOld

/-- The variables that it reads. -/
def Member.reads : Member → List Address
  | .add delta | .fetchAdd delta _ => [delta]
  | .and bits | .fetchAnd bits _ | .or bits | .fetchOr bits _ | .xor bits | .fetchXor bits _ =>
    [bits]
  | .swap newValue _ => [newValue]
  | .compareSwap expected desiredAndOld => [expected, desiredAndOld]

def AtomicCall.update (host : Endian) (mem : Memory) (c : AtomicCall) : Update :=
  c.member.update fun var => Memory.load host mem var c.width.bytes

/-! ## The machine -/

/-- A call that a client made; `called` is its memory at the call. -/
structure Issue where
  client : Nat
  handle : RemoteMemoryHandle
  call : AtomicCall
  called : Memory

/-- How far UCX is: `seen` is the memory of the client when UCX read the buffers. -/
inductive Phase where
  | issued
  | read (seen : Memory)
  | executed (result : Option Nat)
  | completed

/-- An operation, with what was passed to UCX for it. -/
structure Op extends Issue where
  request : AtomicRequest
  phase : Phase

/-- An operation takes effect. -/
structure Effect extends Issue where
  op : Nat
  seen : Memory

/-- `remote`: the memories of the processes whose words are operated on. `locals`:
those of the clients, whose variables are not such words themselves. `history`: the
effects so far, in their order. -/
structure St where
  remote : Nat → Memory
  locals : Nat → Memory
  ops : List Op
  history : List Effect

def St.init (remote locals : Nat → Memory) : St :=
  ⟨remote, locals, [], []⟩

/-- A client calls an atomic; UCX reads its buffers, executes it, and writes the
result; a client writes a byte of its own memory. -/
inductive Act where
  | issue (client : Nat) (handle : RemoteMemoryHandle) (call : AtomicCall)
  | read (i : Nat)
  | execute (i : Nat)
  | complete (i : Nat)
  | assign (client : Nat) (addr : Address) (byte : UInt8)
deriving DecidableEq, Repr

/-- The memory of a client after UCX has written a result. -/
def AtomicRequest.writeReply (host : Endian) (r : AtomicRequest) (result : Option Nat)
    (mem : Memory) : Memory :=
  match r.param.replyBuffer, result with
  | some reply, some v => Memory.store host mem reply r.size v
  | _, _ => mem

def St.setPhase (s : St) (i : Nat) (o : Op) (phase : Phase) : St :=
  { s with ops := s.ops.set i { o with phase := phase } }

section

variable (host : Endian) (target : UcpEp → UcpRkey → Nat) (ucp : UcpAtomic)

/-- One step, if it is possible. -/
def step (s : St) : Act → Option St
  | .issue client handle call => do
    let request ← atomicRequest s.ops.length (handle.call call.memoryCall)
    some { s with
      ops := s.ops ++ [⟨⟨client, handle, call, s.locals client⟩, request, .issued⟩] }
  | .read i => do
    let o ← s.ops[i]?
    match o.phase with
    | .issued => some (s.setPhase i o (.read (s.locals o.client)))
    | .read _ | .executed _ | .completed => none
  | .execute i => do
    let o ← s.ops[i]?
    match o.phase with
    | .read seen =>
      let w := o.request.word target
      let (word, result) := o.request.execute ucp host seen (w.value host s.remote)
      some { s.setPhase i o (.executed result) with
        remote := w.assign host word s.remote
        history := s.history ++ [⟨o.toIssue, i, seen⟩] }
    | .issued | .executed _ | .completed => none
  | .complete i => do
    let o ← s.ops[i]?
    match o.phase with
    | .executed result =>
      some { s.setPhase i o .completed with
        locals := Function.update s.locals o.client
          (o.request.writeReply host result (s.locals o.client)) }
    | .issued | .read _ | .completed => none
  | .assign client addr byte =>
    some { s with
      locals := Function.update s.locals client
        (Function.update (s.locals client) addr byte) }

end

/-! ## The operations one after the other -/

section

variable (host : Endian) (target : UcpEp → UcpRkey → Nat)

def Issue.word (e : Issue) : Word :=
  ⟨target e.handle.ep e.handle.rkey, e.call.raddr.toNat, e.call.width.bytes⟩

/-- The update of an effect, with the values that UCX saw. -/
def Effect.update (e : Effect) : Update :=
  e.call.update host e.seen

/-- The memories after an effect. -/
def Effect.apply (remote : Nat → Memory) (e : Effect) : Nat → Memory :=
  let w := e.word target
  w.assign host ((e.update host).apply e.call.width (w.value host remote)) remote

/-- The memories after the effects of a history, one after the other. -/
def replay (remote : Nat → Memory) (history : List Effect) : Nat → Memory :=
  history.foldl (Effect.apply host target) remote

/-- The value of a word after the operations of a history on it, in their order. -/
def foldWord (w : Word) (v : Nat) (history : List Effect) : Nat :=
  (history.filter fun e => e.word target = w).foldl
    (fun v e => (e.update host).apply e.call.width v) v

end

/-! ## The local variables -/

/-- A step writes a byte of a client's memory. -/
def Writes (s : St) (client : Nat) (addr : Address) : Act → Prop
  | .assign c b _ => c = client ∧ b = addr
  | .complete i => ∃ o, s.ops[i]? = some o ∧ o.client = client ∧
      ∃ var ∈ o.call.member.oldValue, var ≤ addr ∧ addr < var + o.call.width.bytes
  | .issue .. | .read _ | .execute _ => False

/-- A step leaves the variables of the operations whose buffers UCX has yet to read. -/
def Undisturbed (s : St) (a : Act) : Prop :=
  ∀ o ∈ s.ops, o.phase = .issued → ∀ var ∈ o.call.member.reads, ∀ k < o.call.width.bytes,
    ¬Writes s o.client (var + k) a

/-- All that changes in the memories of the clients is the variable of `client`, if
there is one: it holds `v`. -/
def Leaves (host : Endian) (client size v : Nat) (locals locals' : Nat → Memory) :
    Option Address → Prop
  | none => locals' = locals
  | some var => Memory.load host (locals' client) var size = v ∧
      ∀ c a, c ≠ client ∨ a < var ∨ var + size ≤ a → locals' c a = locals c a

end Ucxpp.Atomics
