import Ucxpp.Lib.Lts
import Ucxpp.Serdes

/-!
# RkeyExchange — send_mr and receive_mr over a stream

`send_mr` sends an address, a length and the packed remote key, each with one
`stream_send`; `receive_mr` reads the same three fields. A `stream_recv` completes
with some of the bytes that have been sent, at least one and at most as many as
it asked for: UCX chooses. `receive_mr` reads the key in a loop until it has all
bytes of it, but the two numbers before it with a single `stream_recv` each, whose
byte count it ignores. What such a `stream_recv` does not fill in keeps what the
memory of the local variable held.
-/

namespace Ucxpp.RkeyExchange

open Bytes (Endian store length_store)

/-- `sizeof(uint64_t)`. -/
def sizeofUint64 : Nat := 8

/-- An address with the packed remote key of its memory. -/
structure Pair where
  remoteAddr : Nat
  rkey : List UInt8
  remoteAddr_lt : remoteAddr < 256 ^ sizeofUint64
  rkey_fits : rkey.length ≤ vectorMax

/-! ## The coroutines -/

/-- The three `stream_send` of `send_mr`. -/
def sendMr (host : Endian) (pair : Pair) : List (List UInt8) :=
  [store host sizeofUint64 (hton host sizeofUint64 pair.remoteAddr),
    store host sizeofSize (hton host sizeofSize pair.rkey.length), pair.rkey]

/-- What a call of `receive_mr` returns, with the positions in the stream where
the call began and ended. -/
structure Received where
  remoteAddr : Nat
  rkey : List UInt8
  first : Nat
  last : Nat
deriving DecidableEq, Repr

/-- Where the receiver is: between two calls, or at one of the three `stream_recv`
of `receive_mr`. `mem` is what the variable behind the pointer holds. -/
inductive Pc where
  | idle
  | readingAddr (mem : List UInt8)
  | readingLength (remoteAddr : Nat) (mem : List UInt8)
  | readingRkey (remoteAddr rkeyLength : Nat) (rkeyBuffer : List UInt8)
  | lengthError
deriving DecidableEq, Repr

/-- `sending`: the `stream_send` that are still to come. `first`: where the call
that runs began. -/
structure St where
  sending : List (List UInt8)
  sent : List UInt8
  read : Nat
  pc : Pc
  first : Nat
  received : List Received
deriving DecidableEq, Repr

def St.init (sender : Endian) (pairs : List Pair) : St where
  sending := pairs.flatMap (sendMr sender)
  sent := []
  read := 0
  pc := .idle
  first := 0
  received := []

/-- The bytes that can be received. -/
def St.inFlight (s : St) : List UInt8 :=
  s.sent.drop s.read

/-- The bytes of a variable after some of them have been written. -/
def overwrite (mem bytes : List UInt8) : List UInt8 :=
  bytes ++ mem.drop bytes.length

/-- The number in a variable, by `be64toh`. -/
def decode (host : Endian) (size : Nat) (mem : List UInt8) : Nat :=
  ntoh host size (Bytes.load host mem)

/-- The loop of `receive_mr`, from its test. -/
def rkeyLoop (s : St) (remoteAddr rkeyLength : Nat) (rkeyBuffer : List UInt8) : St :=
  if rkeyBuffer.length < rkeyLength then
    { s with pc := .readingRkey remoteAddr rkeyLength rkeyBuffer }
  else
    { s with
      pc := .idle
      received := s.received ++ [⟨remoteAddr, rkeyBuffer, s.first, s.read⟩] }

/-- `receive_mr` behind the length: `rkey_buffer`, whose constructor refuses some
sizes, and the loop. -/
def afterLength (s : St) (remoteAddr rkeyLength : Nat) : St :=
  if vectorMax < rkeyLength then { s with pc := .lengthError }
  else rkeyLoop s remoteAddr rkeyLength []

/-- How many bytes the `stream_recv` asks for. -/
def Pc.wanted : Pc → Option Nat
  | .readingAddr _ => some sizeofUint64
  | .readingLength .. => some sizeofSize
  | .readingRkey _ rkeyLength rkeyBuffer => some (rkeyLength - rkeyBuffer.length)
  | .idle | .lengthError => none

/-- A `stream_recv` has written `bytes`; `lengthMem` is what the memory of
`rkey_length` held. -/
def continueWith (host : Endian) (s : St) (lengthMem bytes : List UInt8) : St :=
  match s.pc with
  | .readingAddr mem =>
    { s with pc := .readingLength (decode host sizeofUint64 (overwrite mem bytes)) lengthMem }
  | .readingLength remoteAddr mem =>
    afterLength s remoteAddr (decode host sizeofSize (overwrite mem bytes))
  | .readingRkey remoteAddr rkeyLength rkeyBuffer =>
    rkeyLoop s remoteAddr rkeyLength (rkeyBuffer ++ bytes)
  | .idle | .lengthError => s

/-! ## The machine -/

/-- The next `stream_send`, a call of `receive_mr` with what the memory of
`remote_addr` holds, or the completion of the pending `stream_recv` with `n` bytes. -/
inductive Act where
  | send
  | call (addrMem : List UInt8)
  | recv (n : Nat) (lengthMem : List UInt8)
deriving DecidableEq, Repr

section

variable (host : Endian) (pairs : List Pair)

/-- One step, if it is possible. There are as many calls as pairs. -/
def step (s : St) : Act → Option St
  | .send =>
    match s.sending with
    | bytes :: rest => some { s with sending := rest, sent := s.sent ++ bytes }
    | [] => none
  | .call addrMem =>
    if s.pc = .idle ∧ s.received.length < pairs.length ∧ addrMem.length = sizeofUint64 then
      some { s with pc := .readingAddr addrMem, first := s.read }
    else none
  | .recv n lengthMem =>
    match s.pc.wanted with
    | some wanted =>
      if 0 < n ∧ n ≤ wanted ∧ n ≤ s.inFlight.length ∧ lengthMem.length = sizeofSize then
        some (continueWith host { s with read := s.read + n } lengthMem (s.inFlight.take n))
      else none
    | none => none

end

/-- The steps, one constructor for each way to take one. -/
inductive Step (host : Endian) (pairs : List Pair) (s : St) : Act → St → Prop where
  | send {bytes : List UInt8} {rest : List (List UInt8)} (hsending : s.sending = bytes :: rest) :
      Step host pairs s .send { s with sending := rest, sent := s.sent ++ bytes }
  | call {addrMem : List UInt8} (hpc : s.pc = .idle) (hcalls : s.received.length < pairs.length)
      (hmem : addrMem.length = sizeofUint64) :
      Step host pairs s (.call addrMem) { s with pc := .readingAddr addrMem, first := s.read }
  | recvAddr {n : Nat} {mem lengthMem : List UInt8} (hpc : s.pc = .readingAddr mem)
      (hn : n ≤ sizeofUint64) (hflight : n ≤ s.inFlight.length)
      (hmem : lengthMem.length = sizeofSize) :
      Step host pairs s (.recv n lengthMem) { s with
        read := s.read + n
        pc := .readingLength
          (decode host sizeofUint64 (overwrite mem (s.inFlight.take n))) lengthMem }
  | recvLength {n remoteAddr : Nat} {mem lengthMem : List UInt8}
      (hpc : s.pc = .readingLength remoteAddr mem) (hn : n ≤ sizeofSize)
      (hflight : n ≤ s.inFlight.length) :
      Step host pairs s (.recv n lengthMem) (afterLength { s with read := s.read + n } remoteAddr
        (decode host sizeofSize (overwrite mem (s.inFlight.take n))))
  | recvRkey {n remoteAddr rkeyLength : Nat} {rkeyBuffer lengthMem : List UInt8}
      (hpc : s.pc = .readingRkey remoteAddr rkeyLength rkeyBuffer)
      (hn : n ≤ rkeyLength - rkeyBuffer.length) (hflight : n ≤ s.inFlight.length) :
      Step host pairs s (.recv n lengthMem) (rkeyLoop { s with read := s.read + n } remoteAddr
        rkeyLength (rkeyBuffer ++ s.inFlight.take n))

theorem step_cases {host : Endian} {pairs : List Pair} {s s' : St} {a : Act}
    (h : step host pairs s a = some s') : Step host pairs s a s' := by
  cases a with
  | send =>
    simp only [step] at h
    split at h
    · rename_i hsending
      exact Option.some.inj h ▸ .send hsending
    · cases h
  | call addrMem =>
    rcases Option.ite_none_right_eq_some.mp h with ⟨⟨hpc, hcalls, hmem⟩, hs⟩
    exact Option.some.inj hs ▸ .call hpc hcalls hmem
  | recv n lengthMem =>
    simp only [step] at h
    split at h
    · rename_i wanted hwanted
      rcases Option.ite_none_right_eq_some.mp h with ⟨⟨hpos, hn, hflight, hmem⟩, hs⟩
      obtain rfl := Option.some.inj hs
      cases hpc : s.pc with
      | readingAddr mem =>
        rw [hpc] at hwanted
        obtain rfl := Option.some.inj hwanted
        simp only [continueWith]
        exact .recvAddr hpc hn hflight hmem
      | readingLength remoteAddr mem =>
        rw [hpc] at hwanted
        obtain rfl := Option.some.inj hwanted
        simp only [continueWith]
        exact .recvLength hpc hn hflight
      | readingRkey remoteAddr rkeyLength rkeyBuffer =>
        rw [hpc] at hwanted
        obtain rfl := Option.some.inj hwanted
        simp only [continueWith]
        exact .recvRkey hpc hn hflight
      | idle | lengthError =>
        rw [hpc] at hwanted
        cases hwanted
    · cases h

/-! ## What the calls should return -/

/-- The bytes of a pair on the stream, whatever the byte order of the sender. -/
def Pair.message (pair : Pair) : List UInt8 :=
  store .big sizeofUint64 pair.remoteAddr ++ store .big sizeofSize pair.rkey.length ++ pair.rkey

/-- The stream of a list of pairs. -/
def stream (pairs : List Pair) : List UInt8 :=
  pairs.flatMap Pair.message

/-- The pairs, each read from exactly its own bytes, where the first one begins at
`position`. -/
def expected (position : Nat) : List Pair → List Received
  | [] => []
  | pair :: pairs =>
    ⟨pair.remoteAddr, pair.rkey, position, position + pair.message.length⟩ ::
      expected (position + pair.message.length) pairs

/-- What the calls have returned is right: the pairs in their order, each read from
exactly its own bytes. -/
def Right (pairs : List Pair) (s : St) : Prop :=
  s.received <+: expected 0 pairs

/-- The two numbers before a key are each read in one piece. -/
def WholeHeader (s : St) : Act → Prop
  | .recv n _ =>
    match s.pc with
    | .readingAddr _ => n = sizeofUint64
    | .readingLength .. => n = sizeofSize
    | .readingRkey .. | .idle | .lengthError => True
  | .send | .call _ => True

end Ucxpp.RkeyExchange
