import Ucxpp.AddressExchangeRun

/-!
# AddressExchangeShort — when a stream ends too early

A side whose peer's stream ends inside the message can never complete the
address (`Inv.created` would put the whole message on the stream), so it
creates no endpoint and does not return. It does not wait for ever either:
`left` bounds the steps that it can still take, each of its steps lowers the
bound (`left_lt`) and no other step touches it (`left_eq`), and as long as it
has not thrown it can take one (`can_step`). `exchange` puts both halves
together.
-/

namespace Ucxpp.AddressExchange

variable {hosts : Role → Host}

/-! ## The steps that are left -/

/-- Whose coroutine takes the step. -/
def Act.role : Act → Option Role
  | .connected r | .wait r | .write r _ | .read r _ _ | .fail r _ => some r
  | .append .. | .cut _ => none

/-- The bytes that a side sends after it has received. -/
def toSendBehind (host : Host) : Role → Nat
  | .connector => 0
  | .acceptor => host.message.length

/-- The steps of connecting and sending that are still to come, at most. -/
def Pc.toSend (host : Host) (r : Role) : Pc → Nat
  | .connecting => host.message.length + 1
  | .sending sent => host.message.length - sent
  | .readingLength _ | .readingAddress .. => toSendBehind host r
  | .returned | .thrown _ => 0

/-- The coroutine is over. -/
def Pc.finished : Pc → Bool
  | .returned | .thrown _ => true
  | .connecting | .sending _ | .readingLength _ | .readingAddress .. => false

/-- The steps that are left for a side: an I/O moves a byte at least or ends
the coroutine, and before each there may be one wait. -/
def leftOf (host : Host) (r : Role) (side : Side) (inFlight : Nat) : Nat :=
  if side.pc.finished = true then
    0
  else
    2 * (side.pc.toSend host r + inFlight + 1) + (if side.waiting = true then 0 else 1)

variable (hosts) in
def left (s : St) (r : Role) : Nat :=
  leftOf (hosts r) r (s.side r) (s.stream r.peer).inFlight.length

theorem leftOf_le {host : Host} {r : Role} {side : Side} {n toSend : Nat}
    (h : side.pc.toSend host r ≤ toSend) : leftOf host r side n ≤ 2 * (toSend + n + 1) + 1 := by
  unfold leftOf
  split
  · exact Nat.zero_le _
  · split <;> omega

theorem le_leftOf {host : Host} {r : Role} {side : Side} {n : Nat}
    (h : side.pc.finished = false) :
    2 * (side.pc.toSend host r + n + 1) ≤ leftOf host r side n := by
  unfold leftOf
  rw [if_neg (Bool.eq_false_iff.mp h)]
  exact Nat.le_add_right ..

theorem afterConnect_toSend (host : Host) (r : Role) :
    (afterConnect r).toSend host r ≤ host.message.length := by
  cases r with
  | connector => exact Nat.sub_le ..
  | acceptor => exact Nat.le_refl _

theorem sendLoop_toSend {host : Host} {r : Role} {side : Side} {sent n : Nat} (h : 0 < n) :
    (sendLoop host r side (sent + n)).pc.toSend host r ≤ host.message.length - sent - 1 := by
  unfold sendLoop
  split
  · simp only [Pc.toSend]
    omega
  · cases r with
    | connector | acceptor => exact Nat.zero_le _

theorem addressLoop_toSend {host : Host} {r : Role} {side : Side} {addressLength : Nat}
    {addressBuffer : List UInt8} {status : UcsStatus} :
    (addressLoop r side addressLength addressBuffer status).pc.toSend host r ≤
      toSendBehind host r := by
  unfold addressLoop
  split
  · exact Nat.le_refl _
  · cases status with
    | err => exact Nat.zero_le _
    | ok | inProgress =>
      cases r with
      | connector => exact Nat.le_refl _
      | acceptor => exact Nat.sub_le ..

theorem lengthLoop_toSend {host : Host} {r : Role} {side : Side} {buffer : List UInt8}
    {status : UcsStatus} :
    (lengthLoop host r side buffer status).pc.toSend host r ≤ toSendBehind host r := by
  unfold lengthLoop
  split
  · exact Nat.le_refl _
  · split
    · exact Nat.zero_le _
    · exact addressLoop_toSend

/-- At a `recv`. -/
theorem Pc.wanted_reading (host : Host) (r : Role) {pc : Pc} {wanted : Nat}
    (h : pc.wanted = some wanted) :
    pc.finished = false ∧ pc.toSend host r = toSendBehind host r := by
  cases pc with
  | readingLength | readingAddress => exact ⟨rfl, rfl⟩
  | connecting | sending | returned | thrown => exact nomatch h

theorem received_toSend {host : Host} {r : Role} {side : Side} {bytes : List UInt8} {wanted : Nat}
    {status : UcsStatus} (h : side.pc.wanted = some wanted) :
    (received host r side bytes status).pc.toSend host r ≤ toSendBehind host r := by
  cases hpc : side.pc with
  | readingLength buffer =>
    simp only [received, hpc]
    split
    · exact Nat.zero_le _
    · exact lengthLoop_toSend
  | readingAddress addressLength buffer =>
    simp only [received, hpc]
    split
    · exact Nat.zero_le _
    · exact addressLoop_toSend
  | connecting | sending | returned | thrown =>
    rw [hpc] at h
    cases h

/-- The end of the stream is an exception. -/
theorem received_nil (host : Host) (r : Role) {side : Side} {wanted : Nat}
    (h : side.pc.wanted = some wanted) (status : UcsStatus) :
    ∃ what, (received host r side [] status).pc = .thrown (.runtimeError what) := by
  cases hpc : side.pc with
  | readingLength buffer =>
    simp only [received, hpc]
    exact ⟨_, rfl⟩
  | readingAddress addressLength buffer =>
    simp only [received, hpc]
    exact ⟨_, rfl⟩
  | connecting | sending | returned | thrown =>
    rw [hpc] at h
    cases h

theorem leftOf_finished {host : Host} {r : Role} {side : Side} {n : Nat}
    (h : side.pc.finished = true) : leftOf host r side n = 0 :=
  if_pos h

theorem leftOf_pos {host : Host} {r : Role} {side : Side} {n : Nat}
    (h : side.pc.finished = false) : 0 < leftOf host r side n :=
  Nat.lt_of_lt_of_le (by omega) (le_leftOf h)

theorem atIo_live {pc : Pc} (h : pc.atIo = true) : pc.finished = false := by
  cases pc with
  | sending | readingLength | readingAddress => rfl
  | connecting | returned | thrown => exact nomatch h

theorem connecting_live {pc : Pc} (h : pc = .connecting) : pc.finished = false := by
  rw [h]
  rfl

theorem inFlight_read (st : Stream) (n : Nat) :
    (Stream.inFlight { st with read := st.read + n }).length = st.inFlight.length - n := by
  simp only [Stream.inFlight, List.length_drop]
  omega

/-- A read lowers the bound: by the bytes that it takes, or to zero. -/
theorem read_left_lt {s : St} {r : Role} {wanted n : Nat} {status : UcsStatus}
    (hwanted : (s.side r).pc.wanted = some wanted) (hn : n ≤ (s.stream r.peer).inFlight.length) :
    left hosts (read hosts s r n status) r < left hosts s r := by
  rcases Pc.wanted_reading (hosts r) r hwanted with ⟨hlive, htoSend⟩
  simp only [left, read, setSide_side_self, setSide_stream, setStream_stream_self, inFlight_read]
  have hwanted' : ({ s.side r with waiting := false } : Side).pc.wanted = some wanted := hwanted
  rcases Nat.eq_zero_or_pos n with rfl | hpos
  · -- the end of the stream: the side throws
    have hnil : ∃ what, (received (hosts r) r { s.side r with waiting := false } [] status).pc =
        .thrown (.runtimeError what) :=
      received_nil (hosts r) r hwanted' status
    rcases hnil with ⟨what, hthrown⟩
    rw [List.take_zero, leftOf_finished (by rw [hthrown]; rfl)]
    exact leftOf_pos hlive
  · -- `n` bytes fewer in flight, and nothing more to send than before
    refine Nat.lt_of_le_of_lt (leftOf_le (received_toSend hwanted')) ?_
    have hold : 2 * ((s.side r).pc.toSend (hosts r) r + (s.stream r.peer).inFlight.length + 1) ≤
        leftOf (hosts r) r (s.side r) (s.stream r.peer).inFlight.length :=
      le_leftOf hlive
    rw [htoSend] at hold
    omega

/-- Each step of a side lowers its bound. -/
theorem left_lt {s s' : St} {a : Act} {r : Role} (h : next hosts s a = some s')
    (hrole : a.role = some r) : left hosts s' r < left hosts s r := by
  cases next_cases h with
  | @connected r' hpc =>
    obtain rfl : r' = r := Option.some.inj hrole
    have hold : 2 * ((s.side r').pc.toSend (hosts r') r' + _ + 1) ≤ left hosts s r' :=
      le_leftOf (connecting_live hpc)
    simp only [left, hpc, Pc.toSend] at hold
    simp only [left, setSide_side_self, setSide_stream]
    refine Nat.lt_of_le_of_lt (leftOf_le (afterConnect_toSend (hosts r') r')) ?_
    omega
  | @wait r' hio hwaiting =>
    obtain rfl : r' = r := Option.some.inj hrole
    simp only [left, leftOf, setSide_side_self, setSide_stream, atIo_live hio, hwaiting,
      Bool.false_eq_true, if_false, if_true]
    omega
  | @write r' sent n hpc hn =>
    obtain rfl : r' = r := Option.some.inj hrole
    have hold : 2 * ((s.side r').pc.toSend (hosts r') r' + _ + 1) ≤ left hosts s r' :=
      le_leftOf (by rw [hpc]; rfl)
    simp only [left, hpc, Pc.toSend] at hold
    simp only [left, write, setSide_side_self, setSide_stream,
      setStream_stream_of_ne _ _ (peer_ne r')]
    refine Nat.lt_of_le_of_lt (leftOf_le (sendLoop_toSend hn.1)) ?_
    have hle := hn.2.1
    have hpos := hn.1
    omega
  | @read r' wanted n status hwanted hn =>
    obtain rfl : r' = r := Option.some.inj hrole
    exact read_left_lt hwanted hn.2.1
  | @fail r' errno hio =>
    obtain rfl : r' = r := Option.some.inj hrole
    simp only [left, setSide_side_self, setSide_stream]
    rw [leftOf_finished rfl]
    rcases hio with hio | hpc
    · exact leftOf_pos (atIo_live hio)
    · exact leftOf_pos (connecting_live hpc)
  | append | cut => cases hrole

/-- A stream that has ended stays as it is, but for the bytes that are read. -/
theorem ended_step {s s' : St} {a : Act} {r : Role} (h : next hosts s a = some s')
    (hended : (s.stream r).ended = true) :
    (s'.stream r).ended = true ∧ (s'.stream r).written = (s.stream r).written := by
  cases next_cases h with
  | connected | wait | fail => exact ⟨hended, rfl⟩
  | @write r' sent n hpc hn =>
    by_cases hr : r = r'
    · -- nobody writes to a stream that has ended
      subst hr
      exact absurd (hn.2.2.2.symm.trans hended) Bool.false_ne_true
    · have hstream : (write hosts s r' sent n).stream r = s.stream r :=
        setStream_stream_of_ne _ _ hr
      rw [hstream]
      exact ⟨hended, rfl⟩
  | @read r' wanted n status hwanted hn =>
    by_cases hr : r = r'.peer
    · subst hr
      have hstream : (read hosts s r' n status).stream r'.peer =
          { s.stream r'.peer with read := (s.stream r'.peer).read + n } :=
        setStream_stream_self ..
      rw [hstream]
      exact ⟨hended, rfl⟩
    · have hstream : (read hosts s r' n status).stream r = s.stream r :=
        setStream_stream_of_ne _ _ hr
      rw [hstream]
      exact ⟨hended, rfl⟩
  | @append r' bytes hlen hopen =>
    by_cases hr : r = r'
    · subst hr
      exact absurd (hopen.symm.trans hended) Bool.false_ne_true
    · rw [setStream_stream_of_ne _ _ hr]
      exact ⟨hended, rfl⟩
  | @cut r' hopen =>
    by_cases hr : r = r'
    · subst hr
      exact absurd (hopen.symm.trans hended) Bool.false_ne_true
    · rw [setStream_stream_of_ne _ _ hr]
      exact ⟨hended, rfl⟩

/-- The steps that are not its own do not touch a side, nor what it can read of
a stream that has ended. -/
theorem other_step {s s' : St} {a : Act} {r : Role} (h : next hosts s a = some s')
    (hrole : a.role ≠ some r) (hended : (s.stream r.peer).ended = true) :
    s'.side r = s.side r ∧ (s'.stream r.peer).inFlight = (s.stream r.peer).inFlight := by
  have hstay := ended_step h hended
  cases next_cases h with
  | @connected r' | @wait r' | @fail r' =>
    have hr : r ≠ r' := fun heq => hrole (congrArg some heq.symm)
    exact ⟨setSide_side_of_ne _ _ hr, rfl⟩
  | @write r' sent n hpc hn =>
    have hr : r ≠ r' := fun heq => hrole (congrArg some heq.symm)
    -- the peer cannot write any more
    obtain rfl : r' = r.peer := (eq_or_eq_peer r r').resolve_left (Ne.symm hr)
    exact absurd (hn.2.2.2.symm.trans hended) Bool.false_ne_true
  | @read r' wanted n status hwanted hn =>
    have hr : r ≠ r' := fun heq => hrole (congrArg some heq.symm)
    obtain rfl : r' = r.peer := (eq_or_eq_peer r r').resolve_left (Ne.symm hr)
    refine ⟨setSide_side_of_ne _ _ hr, ?_⟩
    simp only [read, setSide_stream, setStream_stream_of_ne _ _ (peer_ne r.peer).symm]
  | @append r' bytes hlen hopen | @cut r' hopen =>
    have hr : r.peer ≠ r' := by
      rintro rfl
      exact absurd (hopen.symm.trans hended) Bool.false_ne_true
    refine ⟨rfl, ?_⟩
    rw [setStream_stream_of_ne _ _ hr]

theorem left_eq {s s' : St} {a : Act} {r : Role} (h : next hosts s a = some s')
    (hrole : a.role ≠ some r) (hended : (s.stream r.peer).ended = true) :
    left hosts s' r = left hosts s r := by
  rcases other_step h hrole hended with ⟨hside, hflight⟩
  rw [left, left, hside, hflight]

/-! ## A stream that ends too early -/

variable (hosts) in
/-- The stream that `r` reads has ended inside the message. -/
def CutShort (s : St) (r : Role) : Prop :=
  (s.stream r.peer).ended = true ∧
    (s.stream r.peer).written.length < sizeofSize + (hosts r.peer).address.length

theorem CutShort.step {s s' : St} {a : Act} {r : Role} (h : CutShort hosts s r)
    (hstep : next hosts s a = some s') : CutShort hosts s' r := by
  rcases ended_step hstep h.1 with ⟨hended, hwritten⟩
  exact ⟨hended, hwritten ▸ h.2⟩

/-- The bytes that have come are not enough for an endpoint. -/
theorem CutShort.not_decoded {s : St} {r : Role} (h : CutShort hosts s r) (hinv : Inv hosts s)
    (hfit : sizeofSize + (hosts r.peer).address.length ≤ vectorMax) :
    ¬ Decoded (hosts r) (s.side r).endpoint (s.stream r.peer).consumed := by
  intro hdecoded
  rcases hinv.created hfit hdecoded with ⟨-, -, hmessage⟩
  have hle := hmessage.length_le
  rw [Host.message, length_serializeAddress] at hle
  exact absurd h.2 (Nat.not_lt_of_le hle)

/-- An endpoint only comes from a decoded message. -/
theorem Took.endpoint {host : Host} {r : Role} {side : Side} {consumed : List UInt8}
    (h : Took host r side consumed) :
    side.endpoint = none ∨ Decoded host side.endpoint consumed := by
  cases hpc : side.pc with
  | connecting =>
    simp only [Took, hpc] at h
    exact .inl h.2
  | sending sent =>
    simp only [Took, hpc] at h
    cases r with
    | connector => exact .inl h.2
    | acceptor => exact .inr h
  | readingLength | readingAddress =>
    simp only [Took, hpc] at h
    exact .inl h.2.2
  | returned =>
    simp only [Took, hpc] at h
    exact .inr h
  | thrown =>
    simp only [Took, hpc] at h
    exact h

theorem Took.returned {host : Host} {r : Role} {side : Side} {consumed : List UInt8}
    (h : Took host r side consumed) (hpc : side.pc = .returned) :
    Decoded host side.endpoint consumed := by
  simp only [Took, hpc] at h
  exact h

/-- A `recv` asks for at least one byte. -/
theorem Took.wanted_pos {host : Host} {r : Role} {side : Side} {consumed : List UInt8}
    (h : Took host r side consumed) {wanted : Nat} (hwanted : side.pc.wanted = some wanted) :
    0 < wanted := by
  cases hpc : side.pc with
  | readingLength | readingAddress =>
    rw [hpc] at hwanted
    obtain rfl := Option.some.inj hwanted
    simp only [Took, hpc] at h
    exact Nat.sub_pos_of_lt h.2.1
  | connecting | sending | returned | thrown =>
    rw [hpc] at hwanted
    cases hwanted

/-- A `recv` gets a byte, or the end of the stream. -/
theorem can_read {st : Stream} {wanted : Nat} (hpos : 0 < wanted) (hended : st.ended = true) :
    ∃ n, Readable st wanted n := by
  cases hflight : st.inFlight with
  | nil => exact ⟨0, Nat.zero_le _, Nat.zero_le _, Nat.zero_le _, .inr ⟨hflight, hended⟩⟩
  | cons b bytes =>
    refine ⟨1, hpos, ?_, by decide, .inl Nat.one_pos⟩
    rw [hflight]
    exact Nat.succ_le_succ (Nat.zero_le _)

/-- A step that is there for `r`: not an error of UCX, nor one of the kernel unless the
stream that `r` writes has ended and it sends. -/
def CanStep (hosts : Role → Host) (s : St) (r : Role) : Prop :=
  ∃ a s', a.role = some r ∧ next hosts s a = some s' ∧ (∀ n e, a ≠ .read r n (.err e)) ∧
    ∀ errno, a = .fail r errno → (s.stream r).ended = true

theorem can_recv {s : St} {r : Role} {wanted : Nat} (hinv : Inv hosts s)
    (hwanted : (s.side r).pc.wanted = some wanted) (hended : (s.stream r.peer).ended = true) :
    CanStep hosts s r := by
  rcases can_read ((hinv.took r).wanted_pos hwanted) hended with ⟨n, hn⟩
  refine ⟨.read r n .ok, read hosts s r n .ok, rfl, ?_, fun _ _ heq => (by cases heq),
    fun _ heq => (by cases heq)⟩
  simp only [next, hwanted, if_pos hn]

theorem can_step {s : St} {r : Role} (hinv : Inv hosts s)
    (hended : (s.stream r.peer).ended = true) (hlive : (s.side r).pc.finished = false) :
    CanStep hosts s r := by
  cases hpc : (s.side r).pc with
  | connecting =>
    -- `connect` and `accept` can always succeed
    exact ⟨.connected r, _, rfl, if_pos hpc, fun _ _ heq => (by cases heq),
      fun _ heq => (by cases heq)⟩
  | sending sent =>
    by_cases hopen : (s.stream r).ended = true
    · -- nobody is there to send to
      have hio : (s.side r).pc.atIo = true ∨ (s.side r).pc = .connecting := by
        rw [hpc]
        exact .inl rfl
      exact ⟨.fail r 0, _, rfl, if_pos hio, fun _ _ heq => (by cases heq), fun _ _ => hopen⟩
    · -- something is left to send, and the kernel can take a byte of it
      have hwrote := hinv.wrote r
      simp only [Wrote, hpc] at hwrote
      have hn : Writable (s.stream r) ((hosts r).message.length - sent) 1 :=
        ⟨Nat.one_pos, Nat.sub_pos_of_lt hwrote.2, by decide, Bool.eq_false_of_not_eq_true hopen⟩
      refine ⟨.write r 1, write hosts s r sent 1, rfl, ?_, fun _ _ heq => (by cases heq),
        fun _ heq => (by cases heq)⟩
      simp only [next, hpc, if_pos hn]
  | readingLength | readingAddress => exact can_recv hinv (congrArg Pc.wanted hpc) hended
  | returned | thrown =>
    rw [hpc] at hlive
    cases hlive

/-- The steps of `r` in a run. -/
def stepsOf (r : Role) (acts : List Act) : Nat :=
  acts.countP fun a => a.role = some r

/-- A side whose peer's stream has ended takes no more steps than are left. -/
theorem steps_le {s s' : St} {r : Role} {acts : List Act}
    (hended : (s.stream r.peer).ended = true)
    (hrun : Lts.run (next hosts) s acts = some s') :
    stepsOf r acts + left hosts s' r ≤ left hosts s r := by
  refine Lts.run_rank (fun s => (s.stream r.peer).ended = true) (fun s => left hosts s r)
    (fun a => a.role = some r) ?_ ?_ ?_ hended hrun
  · intro s a s' hs h
    exact (ended_step h hs).1
  · intro s a s' hs h hrole
    exact left_lt h (of_decide_eq_true hrole)
  · intro s a s' hs h hrole
    exact left_eq h (of_decide_eq_false hrole) hs

/-- What is true of the reader of a stream that ends too early: it has no
endpoint, it has not returned, and it has thrown or can go on. -/
structure FailsToReceive (hosts : Role → Host) (s : St) (r : Role) : Prop where
  endpoint : (s.side r).endpoint = none
  not_returned : (s.side r).pc ≠ .returned
  goes_on : (∃ e, (s.side r).pc = .thrown e) ∨ CanStep hosts s r

theorem CutShort.fails {s : St} {r : Role} (h : CutShort hosts s r) (hinv : Inv hosts s)
    (hfit : sizeofSize + (hosts r.peer).address.length ≤ vectorMax) :
    FailsToReceive hosts s r where
  endpoint := (hinv.took r).endpoint.resolve_right (h.not_decoded hinv hfit)
  not_returned := fun hpc => h.not_decoded hinv hfit ((hinv.took r).returned hpc)
  goes_on := by
    cases hlive : (s.side r).pc.finished with
    | false => exact .inr (can_step hinv h.1 hlive)
    | true =>
      cases hpc : (s.side r).pc with
      | returned => exact absurd ((hinv.took r).returned hpc) (h.not_decoded hinv hfit)
      | thrown e => exact .inl ⟨e, rfl⟩
      | connecting | sending | readingLength | readingAddress =>
        rw [hpc] at hlive
        cases hlive

/-! ## The exchange -/

/-- Whatever the byte orders, the partial reads and writes, the waits and the
interleaving: a side that returns has created its endpoint with the address of
the other, from exactly the bytes of the other's message; and when the stream
that it reads ends inside the message, then in every continuation it has no
endpoint and does not return, it takes at most `left` more steps, and until it
has thrown there is one for it. -/
theorem exchange (hosts : Role → Host)
    (hfit : ∀ r, sizeofSize + (hosts r).address.length ≤ vectorMax) {acts : List Act} {s : St}
    (hrun : Lts.run (next hosts) .init acts = some s) (r : Role) :
    ((s.side r).pc = .returned →
      (s.side r).endpoint = some (hosts r.peer).address ∧
        (s.stream r.peer).read = sizeofSize + (hosts r.peer).address.length) ∧
    (CutShort hosts s r → ∀ more s', Lts.run (next hosts) s more = some s' →
      FailsToReceive hosts s' r ∧ stepsOf r more + left hosts s' r ≤ left hosts s r) := by
  have hinv : Inv hosts s := run_inv (init_inv hosts) hrun
  constructor
  · intro hpc
    rcases hinv.created (hfit r.peer) ((hinv.took r).returned hpc) with ⟨hendpoint, hread, -⟩
    exact ⟨hendpoint, hread⟩
  · intro hshort more s' hmore
    have hinv' : Inv hosts s' := run_inv hinv hmore
    have hshort' : CutShort hosts s' r :=
      Lts.run_invariant (CutShort hosts · r) (fun _ _ _ hs _ h => hs.step h) hshort
        (Lts.stepsMeet_true _ _) hmore
    exact ⟨hshort'.fails hinv' (hfit r.peer), steps_le hshort.1 hmore⟩

/-- A little-endian connector and a big-endian acceptor without an address. -/
def smallHosts : Role → Host
  | .connector => ⟨.little, [1, 2, 3]⟩
  | .acceptor => ⟨.big, []⟩

theorem smallHosts_fit (r : Role) : sizeofSize + (smallHosts r).address.length ≤ vectorMax := by
  cases r with
  | connector | acceptor => decide

/-- The header split between three reads, waits, and bytes behind a message. -/
def exchangeActs : List Act :=
  [.connected .connector, .connected .acceptor, .wait .acceptor, .write .connector 5,
    .read .acceptor 3 .ok, .write .connector 6, .read .acceptor 4 .ok, .read .acceptor 1 .ok,
    .append .connector [9, 9], .wait .acceptor, .read .acceptor 2 .ok, .read .acceptor 1 .ok,
    .write .acceptor 8, .read .connector 8 .ok]

/-- The connector's stream ends after four bytes. -/
def cutActs : List Act :=
  [.connected .connector, .connected .acceptor, .write .connector 4, .cut .connector,
    .read .acceptor 4 .ok]

theorem exchange_small :
    (∃ s, Lts.run (next smallHosts) .init exchangeActs = some s ∧ ∀ r,
      (s.side r).pc = .returned ∧ (s.side r).endpoint = some (smallHosts r.peer).address ∧
        (s.stream r.peer).read = sizeofSize + (smallHosts r.peer).address.length) ∧
    ∃ s, Lts.run (next smallHosts) .init cutActs = some s ∧ CutShort smallHosts s .acceptor ∧
      FailsToReceive smallHosts s .acceptor := by
  have hreturned : ∃ s, Lts.run (next smallHosts) .init exchangeActs = some s ∧
      ∀ r, (s.side r).pc = .returned := by
    refine ⟨_, rfl, fun r => ?_⟩
    cases r with
    | connector | acceptor => rfl
  have hcut : ∃ s, Lts.run (next smallHosts) .init cutActs = some s ∧
      CutShort smallHosts s .acceptor :=
    ⟨_, rfl, rfl, by decide⟩
  rcases hreturned with ⟨s, hrun, hpc⟩
  rcases hcut with ⟨t, htrun, hshort⟩
  refine ⟨⟨s, hrun, fun r => ⟨hpc r, (exchange smallHosts smallHosts_fit hrun r).1 (hpc r)⟩⟩,
    t, htrun, hshort, ?_⟩
  exact ((exchange smallHosts smallHosts_fit htrun .acceptor).2 hshort [] t rfl).1

end Ucxpp.AddressExchange
