import Mathlib.Logic.Function.Basic
import Ucxpp.Lib.Lts
import Ucxpp.Serdes
import Ucxpp.Status

/-!
# AddressExchange — connector::connect and acceptor::accept over TCP

Two hosts exchange the addresses of their workers over one TCP connection. The
connector sends its address and then receives, the acceptor receives and then
sends; both run the same `send_address` and `from_tcp_connection`.

Each `co_await` of an I/O is one or two steps of the machine: the attempt in
`await_ready` moves some bytes or would block (`Act.wait`), and the attempt in
`await_resume`, after the event loop has reported the descriptor ready, moves
some bytes. How many bytes move is the choice of the kernel. A stream has the
bytes in the order in which they were written, may lag behind (the reader then
gets only a part), and may end at any time.
-/

namespace Ucxpp.AddressExchange

open Bytes (Endian)
open Function (update update_self update_of_ne)

/-- The two ends of the connection. -/
inductive Role where
  | connector
  | acceptor
deriving DecidableEq, Repr

def Role.peer : Role → Role
  | .connector => .acceptor
  | .acceptor => .connector

/-- A host: its byte order and the bytes of its worker's address. -/
structure Host where
  endian : Endian
  address : List UInt8
deriving DecidableEq, Repr

/-- `buffer` of `send_address`. -/
def Host.message (host : Host) : List UInt8 :=
  serializeAddress host.endian host.address

/-- The exceptions that end a side. -/
inductive Thrown where
  | errno (message : String) (errno : Nat)
  | runtimeError (what : String)
  | ucsError (message : String) (e : UcsError)
  | lengthError
deriving DecidableEq, Repr

/-- Where a side is: in the `co_await` of `tcp_connection::connect` or
`tcp_listener::accept`, in one of the three loops, or over. The buffers hold
the bytes that have been received so far. -/
inductive Pc where
  | connecting
  | sending (sent : Nat)
  | readingLength (addressLengthBuffer : List UInt8)
  | readingAddress (addressLength : Nat) (addressBuffer : List UInt8)
  | returned
  | thrown (e : Thrown)
deriving DecidableEq, Repr

/-- A side. `waiting`: it is suspended in an I/O until the event loop reports
its descriptor ready. `endpoint`: the remote address of the endpoint that it
has created. -/
structure Side where
  pc : Pc
  waiting : Bool
  endpoint : Option (List UInt8)
deriving DecidableEq, Repr

/-- The bytes that one side has written, how many of them the other side has
read, and whether the stream ends behind them. -/
structure Stream where
  written : List UInt8
  read : Nat
  ended : Bool
deriving DecidableEq, Repr

/-- The bytes that can still be read. -/
def Stream.inFlight (st : Stream) : List UInt8 :=
  st.written.drop st.read

/-- `stream r` is the one that `r` writes. -/
structure St where
  side : Role → Side
  stream : Role → Stream

def St.init : St where
  side := fun _ => ⟨.connecting, false, none⟩
  stream := fun _ => ⟨[], 0, false⟩

/-! ## The coroutines -/

/-- The first statement behind the connection. -/
def afterConnect : Role → Pc
  | .connector => .sending 0
  | .acceptor => .readingLength []

def afterSendAddress : Role → Pc
  | .connector => .readingLength []
  | .acceptor => .returned

def afterFromTcpConnection : Role → Pc
  | .connector => .returned
  | .acceptor => .sending 0

section

variable (host : Host) (r : Role)

/-- The loop of `send_address`, from its test. -/
def sendLoop (side : Side) (sent : Nat) : Side :=
  if sent < host.message.length then
    { side with pc := .sending sent }
  else
    { side with pc := afterSendAddress r }

/-- The second loop of `from_tcp_connection`, from its test, and the creation
of the endpoint behind it, to which `ucp_ep_create` answers `status`. -/
def addressLoop (side : Side) (addressLength : Nat) (addressBuffer : List UInt8)
    (status : UcsStatus) : Side :=
  if addressBuffer.length < addressLength then
    { side with pc := .readingAddress addressLength addressBuffer }
  else
    match status with
    -- the constructor of `endpoint` throws
    | .err e => { side with pc := .thrown (.ucsError "failed to create ep" e) }
    | .ok | .inProgress =>
      { side with pc := afterFromTcpConnection r, endpoint := some addressBuffer }

/-- What `deserialize` stores in `address_length`. -/
def Host.decodeLength (host : Host) (addressLengthBuffer : List UInt8) : Nat :=
  (deserialize host.endian sizeofSize addressLengthBuffer).1

/-- The first loop of `from_tcp_connection`, from its test, and the allocation
of `address_buffer` behind it. -/
def lengthLoop (side : Side) (addressLengthBuffer : List UInt8) (status : UcsStatus) : Side :=
  if addressLengthBuffer.length < sizeofSize then
    { side with pc := .readingLength addressLengthBuffer }
  else if vectorMax < host.decodeLength addressLengthBuffer then
    -- the constructor of `address_buffer` refuses the size
    { side with pc := .thrown .lengthError }
  else
    addressLoop r side (host.decodeLength addressLengthBuffer) [] status

/-- How many bytes a `recv` asks for, at a `recv`. -/
def Pc.wanted : Pc → Option Nat
  | .readingLength buffer => some (sizeofSize - buffer.length)
  | .readingAddress addressLength buffer => some (addressLength - buffer.length)
  | .connecting | .sending _ | .returned | .thrown _ => none

/-- A `recv` has returned `bytes`. -/
def received (side : Side) (bytes : List UInt8) (status : UcsStatus) : Side :=
  match side.pc with
  | .readingLength buffer =>
    -- `n == 0`: the stream has ended
    if bytes.length = 0 then
      { side with pc := .thrown (.runtimeError "failed to read address length") }
    else
      lengthLoop host r side (buffer ++ bytes) status
  | .readingAddress addressLength buffer =>
    if bytes.length = 0 then
      { side with pc := .thrown (.runtimeError "failed to read address") }
    else
      addressLoop r side addressLength (buffer ++ bytes) status
  | .connecting | .sending _ | .returned | .thrown _ => side

/-- The side is at an I/O of the connection. -/
def Pc.atIo : Pc → Bool
  | .sending _ | .readingLength _ | .readingAddress .. => true
  | .connecting | .returned | .thrown _ => false

/-- The text with which `check_errno` throws where the side is. -/
def errnoMessage (side : Side) : String :=
  if side.pc.atIo then
    if side.waiting then "failed to io after readable or writable" else "failed to read write"
  else
    match r with
    | .connector => "failed to connect"
    | .acceptor => "failed to accept"

end

/-! ## The machine -/

/-- `INT_MAX`; `do_io` returns an `int`. -/
def intMax : Nat := 2 ^ 31 - 1

/-- What happens next: a connection is made, an I/O would block, moves bytes
or fails, somebody writes behind the message of `r`, or the stream that `r`
writes ends. With a read comes the answer of `ucp_ep_create`, for the case that it
completes the address. -/
inductive Act where
  | connected (r : Role)
  | wait (r : Role)
  | write (r : Role) (n : Nat)
  | read (r : Role) (n : Nat) (status : UcsStatus)
  | fail (r : Role) (errno : Nat)
  | append (r : Role) (bytes : List UInt8)
  | cut (r : Role)
deriving DecidableEq, Repr

/-- The kernel can move `n` bytes for a read: at least one while there is one,
none at the end of the stream. -/
def Readable (st : Stream) (wanted n : Nat) : Prop :=
  n ≤ wanted ∧ n ≤ st.inFlight.length ∧ n ≤ intMax ∧
    (0 < n ∨ st.inFlight = [] ∧ st.ended = true)

instance (st : Stream) (wanted n : Nat) : Decidable (Readable st wanted n) :=
  inferInstanceAs (Decidable (_ ∧ _ ∧ _ ∧ (_ ∨ _)))

/-- The kernel can move `n` bytes for a write. -/
def Writable (st : Stream) (length n : Nat) : Prop :=
  0 < n ∧ n ≤ length ∧ n ≤ intMax ∧ st.ended = false

instance (st : Stream) (length n : Nat) : Decidable (Writable st length n) :=
  inferInstanceAs (Decidable (_ ∧ _ ∧ _ ∧ _))

def St.setSide (s : St) (r : Role) (side : Side) : St :=
  { s with side := update s.side r side }

def St.setStream (s : St) (r : Role) (st : Stream) : St :=
  { s with stream := update s.stream r st }

@[simp] theorem setSide_side_self (s : St) (r : Role) (side : Side) :
    (s.setSide r side).side r = side :=
  update_self ..

@[simp] theorem setSide_side_of_ne (s : St) {r r' : Role} (side : Side) (h : r' ≠ r) :
    (s.setSide r side).side r' = s.side r' :=
  update_of_ne h ..

@[simp] theorem setSide_stream (s : St) (r : Role) (side : Side) :
    (s.setSide r side).stream = s.stream := rfl

@[simp] theorem setStream_stream_self (s : St) (r : Role) (st : Stream) :
    (s.setStream r st).stream r = st :=
  update_self ..

@[simp] theorem setStream_stream_of_ne (s : St) {r r' : Role} (st : Stream) (h : r' ≠ r) :
    (s.setStream r st).stream r' = s.stream r' :=
  update_of_ne h ..

@[simp] theorem setStream_side (s : St) (r : Role) (st : Stream) :
    (s.setStream r st).side = s.side := rfl

variable (hosts : Role → Host)

/-- `n` bytes of the message go out. -/
def write (s : St) (r : Role) (sent n : Nat) : St :=
  let bytes := ((hosts r).message.drop sent).take n
  let side := sendLoop (hosts r) r { s.side r with waiting := false } (sent + n)
  (s.setStream r { s.stream r with written := (s.stream r).written ++ bytes }).setSide r side

/-- `n` bytes come in. -/
def read (s : St) (r : Role) (n : Nat) (status : UcsStatus) : St :=
  let st := s.stream r.peer
  let side := received (hosts r) r { s.side r with waiting := false } (st.inFlight.take n) status
  (s.setStream r.peer { st with read := st.read + n }).setSide r side

/-- One step, if it is possible. An I/O that was retried does not block. -/
def next (s : St) : Act → Option St
  | .connected r =>
    if (s.side r).pc = .connecting then
      some (s.setSide r { s.side r with pc := afterConnect r })
    else
      none
  | .wait r =>
    -- `EAGAIN`: the coroutine waits for the channel and tries again
    if (s.side r).pc.atIo = true ∧ (s.side r).waiting = false then
      some (s.setSide r { s.side r with waiting := true })
    else
      none
  | .write r n =>
    match (s.side r).pc with
    | .sending sent =>
      if Writable (s.stream r) ((hosts r).message.length - sent) n then
        some (write hosts s r sent n)
      else
        none
    | _ => none
  | .read r n status =>
    match (s.side r).pc.wanted with
    | some wanted =>
      if Readable (s.stream r.peer) wanted n then some (read hosts s r n status) else none
    | none => none
  | .fail r errno =>
    if (s.side r).pc.atIo = true ∨ (s.side r).pc = .connecting then
      some (s.setSide r { s.side r with
        pc := .thrown (.errno (errnoMessage r (s.side r)) errno)
        waiting := false })
    else
      none
  | .append r bytes =>
    -- what the connection carries after the exchange
    if (hosts r).message.length ≤ (s.stream r).written.length ∧ (s.stream r).ended = false then
      some (s.setStream r { s.stream r with written := (s.stream r).written ++ bytes })
    else
      none
  | .cut r =>
    if (s.stream r).ended = false then
      some (s.setStream r { s.stream r with ended := true })
    else
      none

/-! ## What a step can do -/

inductive Step (s : St) : Act → St → Prop where
  | connected {r : Role} (hpc : (s.side r).pc = .connecting) :
    Step s (.connected r) (s.setSide r { s.side r with pc := afterConnect r })
  | wait {r : Role} (hio : (s.side r).pc.atIo = true) (hwaiting : (s.side r).waiting = false) :
    Step s (.wait r) (s.setSide r { s.side r with waiting := true })
  | write {r : Role} {sent n : Nat} (hpc : (s.side r).pc = .sending sent)
      (hn : Writable (s.stream r) ((hosts r).message.length - sent) n) :
    Step s (.write r n) (write hosts s r sent n)
  | read {r : Role} {wanted n : Nat} {status : UcsStatus}
      (hwanted : (s.side r).pc.wanted = some wanted)
      (hn : Readable (s.stream r.peer) wanted n) :
    Step s (.read r n status) (read hosts s r n status)
  | fail {r : Role} {errno : Nat}
      (hio : (s.side r).pc.atIo = true ∨ (s.side r).pc = .connecting) :
    Step s (.fail r errno) (s.setSide r { s.side r with
      pc := .thrown (.errno (errnoMessage r (s.side r)) errno)
      waiting := false })
  | append {r : Role} {bytes : List UInt8}
      (hlen : (hosts r).message.length ≤ (s.stream r).written.length)
      (hended : (s.stream r).ended = false) :
    Step s (.append r bytes)
      (s.setStream r { s.stream r with written := (s.stream r).written ++ bytes })
  | cut {r : Role} (hended : (s.stream r).ended = false) :
    Step s (.cut r) (s.setStream r { s.stream r with ended := true })

variable {hosts} in
theorem next_cases {s s' : St} {a : Act} (h : next hosts s a = some s') : Step hosts s a s' := by
  unfold next at h
  split at h
  · split at h
    · rename_i hpc
      exact Option.some.inj h ▸ .connected hpc
    · exact nomatch h
  · split at h
    · rename_i hio
      exact Option.some.inj h ▸ .wait hio.1 hio.2
    · exact nomatch h
  · split at h
    · rename_i hpc
      split at h
      · rename_i hn
        exact Option.some.inj h ▸ .write hpc hn
      · exact nomatch h
    · exact nomatch h
  · split at h
    · rename_i hwanted
      split at h
      · rename_i hn
        exact Option.some.inj h ▸ .read hwanted hn
      · exact nomatch h
    · exact nomatch h
  · split at h
    · rename_i hio
      exact Option.some.inj h ▸ .fail hio
    · exact nomatch h
  · split at h
    · rename_i hlen
      exact Option.some.inj h ▸ .append hlen.1 hlen.2
    · exact nomatch h
  · split at h
    · rename_i hended
      exact Option.some.inj h ▸ .cut hended
    · exact nomatch h

end Ucxpp.AddressExchange
