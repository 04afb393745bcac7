import Ucxpp.Lib.Resource
import Ucxpp.Status

/-!
# Sockets — the descriptors of the examples

The constructor of `event_loop`, the constructor of `tcp_listener`,
`co_await tcp_connection::connect(..)` and `co_await tcp_listener::accept()`: which
descriptors they open, and who closes them. `answers` and `resolve` say what the system
answers; the event loop that is handed to them is not null, and a channel that goes away
is not registered in it.

* `connectLoop`, `bindLoop` — the loops over the addresses that `getaddrinfo` has found.
  A loop goes on with the next address where a call fails;
* `Entry.Closed` — what must not happen for nothing to be lost. `event_loop` and
  `tcp_listener` own their first descriptor only when the constructor is through, and
  the destructor of `event_loop` takes descriptor 0 for none.
-/

namespace Ucxpp.Sockets

open Resource (World Owning)

/-- What the system gives out: descriptors, and the list of `getaddrinfo`. -/
inductive Kind where
  | epoll
  | event
  | socket
  | servinfo
deriving DecidableEq, Repr

abbrev Handle := Resource.Handle Kind

abbrev Code := Resource.Code Kind String

abbrev Errno := Nat

/-- `EAGAIN`, which is `EWOULDBLOCK`. -/
def eagain : Errno := 11

def einprogress : Errno := 115

/-- The sockets that are opened; `ι` are the nodes of the list of `getaddrinfo`. -/
inductive Sock (ι : Type) where
  | listener
  | candidate (p : ι)
  | accepted

/-- The system calls that can fail. -/
inductive SysCall (ι : Type) where
  | epollCreate
  | eventfd
  | epollAddClose
  | socket (s : Sock ι)
  | setReuseAddr
  | bind (p : ι)
  | listen
  | getFlags (s : Sock ι)
  | setFlags (s : Sock ι)
  | connect (p : ι)
  | epollAdd (s : Sock ι)
  | getSoError (s : Sock ι)
  | accept (again : Bool)

/-! ## error.h -/

section

-- `strerror` is a function of the system; nothing depends on its texts.
variable (strerror : Int → String)

/-- `check_errno` of a call: a number that is not negative, or -1 and `errno`. -/
def checkErrno (rc : Except Errno Nat) (message : String) : Except String Unit :=
  match rc with
  | .ok _ => .ok ()
  | .error errno =>
    throwWith (message ++ ": " ++ strerror errno ++ " (errno=" ++ toString errno ++ ")")

/-- `check_rc`. -/
def checkRc (rc : Int) (message : String) : Except String Unit :=
  if rc ≠ 0 then throwWith (message ++ ": " ++ strerror rc ++ " (rc=" ++ toString rc ++ ")")
  else .ok ()

/-- `check_ptr`. -/
def checkPtr {α : Type} (ptr : Option α) (errno : Errno) (message : String) :
    Except String Unit :=
  match ptr with
  | some _ => .ok ()
  | none => throwWith (message ++ ": " ++ strerror errno ++ " (errno=" ++ toString errno ++ ")")

theorem checkRc_zero (message : String) : checkRc strerror 0 message = .ok () := rfl

/-- A code that is not 0 is always thrown. -/
theorem checkRc_error {rc : Int} (h : rc ≠ 0) (message : String) :
    ∃ text, checkRc strerror rc message = .error text :=
  ⟨_, if_pos h⟩

theorem checkPtr_some {α : Type} (a : α) (errno : Errno) (message : String) :
    checkPtr strerror (some a) errno message = .ok () := rfl

end

/-! ## Objects -/

/-- An open descriptor and its number. -/
structure Fd where
  number : Nat
  handle : Handle

/-- `event_loop`. -/
structure EventLoop where
  epollFd : Fd
  closeEventFd : Fd

/-- `channel`, with the event loop that it was given. -/
structure Channel (ι : Type) where
  sock : Sock ι
  fd : Fd

/-- `connect_awaitable`. -/
structure ConnectAwaitable (ι : Type) where
  rc : Int
  channel : Channel ι

/-- `~event_loop`. -/
def EventLoop.destroy (self : EventLoop) : Code Unit := do
  if 0 < self.closeEventFd.number then
    Resource.release self.closeEventFd.handle
  if 0 < self.epollFd.number then
    Resource.release self.epollFd.handle

section

variable {ι : Type} (strerror : Int → String) (gaiStrerror : Int → String)
  (answers : SysCall ι → Except Errno Nat) (resolve : Except Int (List ι))

/-- `~channel`. Its `assert(fd_ > 0)` is compiled out: the default build type,
`RelWithDebInfo`, defines `NDEBUG`. -/
def Channel.destroy (self : Channel ι) : Code Unit :=
  Resource.release self.fd.handle

/-- A call that opens a descriptor, in a `check_errno`. -/
def opened (call : SysCall ι) (kind : Kind) (message : String) : Code Fd :=
  match answers call with
  | .ok number => do
    let handle ← Resource.acquire kind
    return ⟨number, handle⟩
  | .error errno => do
    liftExcept (checkErrno strerror (.error errno) message)
    -- not reached
    return ⟨0, (← get).fresh kind⟩

/-- A call in a `check_errno`. -/
def called (call : SysCall ι) (message : String) : Code Unit :=
  liftExcept (checkErrno strerror (answers call) message)

/-- `event_loop::event_loop`. -/
def newEventLoop : Code EventLoop := do
  let epollFd ← opened strerror answers .epollCreate .epoll "failed to create epoll fd"
  let closeEventFd ← opened strerror answers .eventfd .event "failed to create close event fd"
  called strerror answers .epollAddClose "failed to add close event fd to epoll"
  return ⟨epollFd, closeEventFd⟩

/-- `channel::set_nonblocking`. -/
def setNonblocking (self : Channel ι) : Code Unit := do
  called strerror answers (.getFlags self.sock) "failed to get fcntl flags"
  called strerror answers (.setFlags self.sock) "failed to set fcntl flags"

/-- A scope that holds the last pointer to a channel, and hands it on unless it throws. -/
def holding {α : Type} (channel : Channel ι) (body : Code α) : Code α :=
  tryCatch body fun e => do
    channel.destroy
    throw e

/-! ### The listener -/

/-- The loop of the constructor of `tcp_listener`: the address that the socket is bound to. -/
def bindLoop : List ι → Code (Option ι)
  | [] => return none
  | p :: rest =>
    tryCatch
      (do
        called strerror answers (.bind p) "failed to bind"
        return some p)
      fun _ => bindLoop rest

/-- `tcp_listener::tcp_listener`; `errno` is what is left there when no address would do. -/
def newTcpListener (errno : Errno) : Code (Channel ι) := do
  let fd ← opened strerror answers (.socket .listener) .socket "failed to create socket"
  let rc : Int := match answers .setReuseAddr with
    | .ok _ => 0
    | .error _ => -1
  liftExcept (checkRc strerror rc "failed to set reuse address")
  match resolve with
  | .error rc => liftExcept (throwWith ("getaddrinfo: " ++ gaiStrerror rc))
  | .ok addresses =>
    let servinfo ← Resource.acquire .servinfo
    let p ← bindLoop strerror answers addresses
    Resource.release servinfo
    liftExcept (checkPtr strerror p errno "failed to bind")
    called strerror answers .listen "failed to listen"
    let channel : Channel ι := ⟨.listener, fd⟩
    holding channel do
      setNonblocking strerror answers channel
      return channel

/-! ### A connection that is made -/

/-- The loop of the constructor of `connect_awaitable`. The socket of an address that
does not do is closed at the end of its iteration. -/
def connectLoop : List ι → Code (Option (ConnectAwaitable ι))
  | [] => return none
  | p :: rest =>
    match answers (.socket (.candidate p)) with
    | .error _ => connectLoop rest
    | .ok number => do
      let handle ← Resource.acquire .socket
      let channel : Channel ι := ⟨.candidate p, ⟨number, handle⟩⟩
      let nonblocking ← tryCatch
        (do
          setNonblocking strerror answers channel
          return true)
        fun _ => return false
      if nonblocking then
        match answers (.connect p) with
        | .ok _ => return some ⟨0, channel⟩
        | .error errno =>
          if errno = einprogress then
            return some ⟨-1, channel⟩
          else
            channel.destroy
            connectLoop rest
      else
        channel.destroy
        connectLoop rest

/-- `connect_awaitable::connect_awaitable`. -/
def newConnectAwaitable : Code (ConnectAwaitable ι) :=
  match resolve with
  | .error rc => liftExcept (throwWith ("failed to getaddrinfo: " ++ gaiStrerror rc))
  | .ok addresses => do
    let servinfo ← Resource.acquire .servinfo
    let found ← connectLoop strerror answers addresses
    Resource.release servinfo
    match found with
    | some self => return self
    | none => throw "failed to connect"

/-- `await_ready`, `await_suspend` and `await_resume` of a `connect_awaitable`. The
writable callback has deregistered the socket before the coroutine goes on. -/
def ConnectAwaitable.await (self : ConnectAwaitable ι) : Code (Channel ι) := do
  if self.rc ≠ 0 then
    called strerror answers (.epollAdd self.channel.sock) "failed to add fd to epoll"
  match answers (.getSoError self.channel.sock) with
  | .error errno =>
    liftExcept (checkErrno strerror (.error errno) "failed to get socket error")
  | .ok err => liftExcept (checkRc strerror err "failed to connect")
  return self.channel

/-- `co_await tcp_connection::connect(..)`: the channel of the connection. -/
def connect : Code (Channel ι) := do
  let self ← newConnectAwaitable strerror gaiStrerror answers resolve
  holding self.channel (self.await strerror answers)

/-! ### A connection that is accepted -/

/-- `accept_awaitable::do_io`; `none` is -1 with `EAGAIN`. -/
def doIo (again : Bool) : Code (Option (Channel ι)) :=
  match answers (.accept again) with
  | .ok number => do
    let handle ← Resource.acquire .socket
    return some ⟨.accepted, ⟨number, handle⟩⟩
  | .error errno => do
    unless errno = eagain do
      liftExcept (checkErrno strerror (.error errno) "failed to accept")
    return none

/-- `await_ready` of an `accept_awaitable`: `client_fd_ > 0`. -/
def awaitReady : Option (Channel ι) → Bool
  | some client => 0 < client.fd.number
  | none => false

/-- `await_resume` of an `accept_awaitable`. -/
def awaitResume (clientFd : Option (Channel ι)) : Code (Channel ι) := do
  let clientFd ← match clientFd with
    | some client => pure (some client)
    | none => doIo strerror answers true
  match clientFd with
  | none =>
    liftExcept (throwWith ("could not accept after readable: " ++ strerror eagain ++
      " (errno=" ++ toString eagain ++ ")"))
  | some client =>
    holding client do
      setNonblocking strerror answers client
      return client

/-- `co_await tcp_listener::accept()`. -/
def accept : Code (Channel ι) := do
  let clientFd ← doIo strerror answers false
  if awaitReady clientFd then
    awaitResume strerror answers clientFd
  else
    called strerror answers (.epollAdd .listener) "failed to add fd to epoll"
    awaitResume strerror answers clientFd

/-! ## What is opened is owned -/

inductive Entry where
  | eventLoop
  | tcpListener
  | connect
  | accept

/-- If the entry throws, everything that it opened has been closed. If it returns, the
object has exactly what was opened and not closed, and its destructor closes that. -/
def Entry.LosesNothing (errno : Errno) (w : World Kind) : Entry → Prop
  | .eventLoop =>
    Owning (fun l => [l.epollFd.handle, l.closeEventFd.handle]) EventLoop.destroy
      (newEventLoop strerror answers) w
  | .tcpListener =>
    Owning (fun c => [c.fd.handle]) Channel.destroy
      (newTcpListener strerror gaiStrerror answers resolve errno) w
  | .connect =>
    Owning (fun c => [c.fd.handle]) Channel.destroy
      (Sockets.connect strerror gaiStrerror answers resolve) w
  | .accept =>
    Owning (fun c => [c.fd.handle]) Channel.destroy (Sockets.accept strerror answers) w

/-- The call succeeds. -/
def Succeeds (call : SysCall ι) : Prop :=
  ∃ n, answers call = .ok n

/-- What the system must answer once the first descriptor is open. -/
def Entry.Closed : Entry → Prop
  | .eventLoop => ∀ epoll, answers .epollCreate = .ok epoll →
      epoll ≠ 0 ∧ (∃ event, answers .eventfd = .ok event ∧ event ≠ 0) ∧
        Succeeds answers .epollAddClose
  | .tcpListener => Succeeds answers (.socket .listener) →
      Succeeds answers .setReuseAddr ∧
        (∃ addresses, resolve = .ok addresses ∧ ∃ p ∈ addresses, Succeeds answers (.bind p)) ∧
        Succeeds answers .listen
  | .connect => True
  | .accept => answers (.accept false) = .ok 0 → Succeeds answers (.epollAdd .listener)

end

end Ucxpp.Sockets
