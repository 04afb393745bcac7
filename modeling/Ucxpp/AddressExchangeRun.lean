import Ucxpp.AddressExchange

/-!
# AddressExchangeRun — what the two sides end up with

`Wrote` says what a side has put on its stream and `Took` what it has made of
the bytes that it has consumed, at each point of its coroutine; the loops keep
both (`sendLoop_*`, `lengthLoop_*`, `addressLoop_*`), and so does every step
(`step_inv`). Since a side consumes a prefix of what the other has written, and
the length that it decodes is the one that was encoded, an endpoint can only be
created with the address of the peer (`Inv.created`).
-/

namespace Ucxpp.AddressExchange

open Bytes (store length_store)

variable {hosts : Role → Host}

theorem peer_peer (r : Role) : r.peer.peer = r := by
  cases r <;> rfl

theorem peer_ne (r : Role) : r.peer ≠ r := by
  cases r <;> exact fun h => nomatch h

theorem eq_or_eq_peer (r r' : Role) : r' = r ∨ r' = r.peer := by
  cases r <;> cases r' <;> simp [Role.peer]

theorem message_pos (host : Host) : 0 < host.message.length := by
  rw [Host.message, length_serializeAddress]
  exact Nat.lt_of_lt_of_le (by decide) (Nat.le_add_right sizeofSize _)

/-! ## Streams -/

/-- The bytes that have been read. -/
def Stream.consumed (st : Stream) : List UInt8 :=
  st.written.take st.read

theorem consumed_append {st : Stream} (h : st.read ≤ st.written.length) (bytes : List UInt8) :
    Stream.consumed { st with written := st.written ++ bytes } = st.consumed :=
  List.take_append_of_le_length h

theorem consumed_read (st : Stream) (n : Nat) :
    Stream.consumed { st with read := st.read + n } = st.consumed ++ st.inFlight.take n :=
  List.take_add

/-! ## What a side has written -/

/-- What a side has written when it receives: the connector everything, the
acceptor nothing. -/
def WroteBefore (host : Host) (r : Role) (written : List UInt8) : Prop :=
  match r with
  | .connector => host.message <+: written
  | .acceptor => written = []

/-- What a side has written, by the place where it is. -/
def Wrote (host : Host) (r : Role) (pc : Pc) (written : List UInt8) : Prop :=
  match pc with
  | .connecting => written = []
  | .sending sent => written = host.message.take sent ∧ sent < host.message.length
  | .readingLength _ | .readingAddress .. => WroteBefore host r written
  | .returned => host.message <+: written
  | .thrown _ => written <+: host.message ∨ host.message <+: written

theorem WroteBefore.thrown {host : Host} {r : Role} {written : List UInt8}
    (h : WroteBefore host r written) : written <+: host.message ∨ host.message <+: written := by
  cases r with
  | connector => exact .inr h
  | acceptor =>
    obtain rfl : written = [] := h
    exact .inl List.nil_prefix

/-- In any case a prefix of the message, or the message and more. -/
theorem Wrote.comparable {host : Host} {r : Role} {pc : Pc} {written : List UInt8}
    (h : Wrote host r pc written) : written <+: host.message ∨ host.message <+: written := by
  cases pc with
  | connecting =>
    obtain rfl : written = [] := h
    exact .inl List.nil_prefix
  | sending sent =>
    rw [h.1]
    exact .inl (List.take_prefix ..)
  | readingLength | readingAddress => exact h.thrown
  | returned => exact .inr h
  | thrown => exact h

/-- Bytes behind the message change nothing. -/
theorem Wrote.append {host : Host} {r : Role} {pc : Pc} {written : List UInt8}
    (h : Wrote host r pc written) (hlen : host.message.length ≤ written.length)
    (bytes : List UInt8) : Wrote host r pc (written ++ bytes) := by
  have hpos := message_pos host
  cases pc with
  | connecting =>
    obtain rfl : written = [] := h
    exact absurd hlen (Nat.not_le_of_lt hpos)
  | sending sent =>
    rcases h with ⟨rfl, hlt⟩
    rw [List.length_take] at hlen
    omega
  | readingLength | readingAddress =>
    cases r with
    | connector => exact List.IsPrefix.trans h (List.prefix_append ..)
    | acceptor =>
      obtain rfl : written = [] := h
      exact absurd hlen (Nat.not_le_of_lt hpos)
  | returned => exact List.IsPrefix.trans h (List.prefix_append ..)
  | thrown =>
    rcases h with hle | hge
    · have heq := hle.eq_of_length_le hlen
      rw [heq]
      exact .inr (List.prefix_append ..)
    · exact .inr (hge.trans (List.prefix_append ..))

/-! ## What a side has read -/

/-- The endpoint was created from what has been consumed. -/
def Decoded (host : Host) (endpoint : Option (List UInt8)) (consumed : List UInt8) : Prop :=
  ∃ header address, endpoint = some address ∧ header.length = sizeofSize ∧
    consumed = header ++ address ∧
    address.length = host.decodeLength header

/-- What a side has consumed, by the place where it is. -/
def Took (host : Host) (r : Role) (side : Side) (consumed : List UInt8) : Prop :=
  match side.pc with
  | .connecting => consumed = [] ∧ side.endpoint = none
  | .sending _ =>
    match r with
    | .connector => consumed = [] ∧ side.endpoint = none
    | .acceptor => Decoded host side.endpoint consumed
  | .readingLength buffer =>
    consumed = buffer ∧ buffer.length < sizeofSize ∧ side.endpoint = none
  | .readingAddress addressLength buffer =>
    (∃ header, header.length = sizeofSize ∧ consumed = header ++ buffer ∧
      addressLength = host.decodeLength header) ∧
      buffer.length < addressLength ∧ side.endpoint = none
  | .returned => Decoded host side.endpoint consumed
  | .thrown _ => side.endpoint = none ∨ Decoded host side.endpoint consumed

/-! ## The loops -/

theorem sendLoop_wrote {host : Host} {r : Role} {side : Side} {sent : Nat}
    (h : sent ≤ host.message.length) :
    Wrote host r (sendLoop host r side sent).pc (host.message.take sent) := by
  unfold sendLoop
  split
  · rename_i hlt
    exact ⟨rfl, hlt⟩
  · rename_i hdone
    have hall : host.message.take sent = host.message := List.take_of_length_le (by omega)
    rw [hall]
    cases r with
    | connector | acceptor => exact List.prefix_refl _

theorem sendLoop_took {host : Host} {r : Role} {side : Side} {sent sent' : Nat}
    {consumed : List UInt8} (hpc : side.pc = .sending sent) (h : Took host r side consumed) :
    Took host r (sendLoop host r side sent') consumed := by
  simp only [Took, hpc] at h
  unfold sendLoop
  split
  · exact h
  · cases r with
    | connector => exact ⟨h.1, by decide, h.2⟩
    | acceptor => exact h

theorem addressLoop_wrote {host : Host} {r : Role} {side : Side} {addressLength : Nat}
    {addressBuffer written : List UInt8} {status : UcsStatus} (h : WroteBefore host r written) :
    Wrote host r (addressLoop r side addressLength addressBuffer status).pc written := by
  unfold addressLoop
  split
  · exact h
  · cases status with
    | err => exact h.thrown
    | ok | inProgress =>
      cases r with
      | connector => exact h
      | acceptor => exact ⟨h, message_pos host⟩

theorem addressLoop_took {host : Host} {r : Role} {side : Side}
    {header addressBuffer : List UInt8} {addressLength : Nat} {status : UcsStatus}
    (hheader : header.length = sizeofSize) (hlen : addressLength = host.decodeLength header)
    (hle : addressBuffer.length ≤ addressLength) (hnone : side.endpoint = none) :
    Took host r (addressLoop r side addressLength addressBuffer status)
      (header ++ addressBuffer) := by
  unfold addressLoop
  split
  · rename_i hlt
    exact ⟨⟨header, hheader, rfl, hlen⟩, hlt, hnone⟩
  · -- the buffer is full: the endpoint is created from it
    rename_i hfull
    have hdecoded : Decoded host (some addressBuffer) (header ++ addressBuffer) :=
      ⟨header, addressBuffer, rfl, hheader, rfl, by omega⟩
    cases status with
    | err => exact .inl hnone
    | ok | inProgress =>
      cases r with
      | connector | acceptor => exact hdecoded

theorem lengthLoop_wrote {host : Host} {r : Role} {side : Side}
    {buffer written : List UInt8} {status : UcsStatus} (h : WroteBefore host r written) :
    Wrote host r (lengthLoop host r side buffer status).pc written := by
  unfold lengthLoop
  split
  · exact h
  · split
    · exact h.thrown
    · exact addressLoop_wrote h

theorem lengthLoop_took {host : Host} {r : Role} {side : Side} {buffer : List UInt8}
    {status : UcsStatus} (hle : buffer.length ≤ sizeofSize) (hnone : side.endpoint = none) :
    Took host r (lengthLoop host r side buffer status) buffer := by
  unfold lengthLoop
  split
  · rename_i hlt
    exact ⟨rfl, hlt, hnone⟩
  · rename_i hfull
    have hheader : buffer.length = sizeofSize := by omega
    split
    · exact .inl hnone
    · have htook : Took host r (addressLoop r side (host.decodeLength buffer) [] status)
          (buffer ++ []) :=
        addressLoop_took hheader rfl (Nat.zero_le _) hnone
      rwa [List.append_nil] at htook

/-! ## The invariant -/

variable (hosts) in
/-- Every side has written and taken what belongs to its place. -/
structure Inv (s : St) : Prop where
  wrote : ∀ r, Wrote (hosts r) r (s.side r).pc (s.stream r).written
  took : ∀ r, Took (hosts r) r (s.side r) (s.stream r.peer).consumed
  bound : ∀ r, (s.stream r).read ≤ (s.stream r).written.length

theorem init_inv (hosts : Role → Host) : Inv hosts .init where
  wrote := fun _ => rfl
  took := fun _ => ⟨rfl, rfl⟩
  bound := fun _ => Nat.le_refl 0

/-- A step of side `r` that leaves the streams alone. -/
theorem setSide_inv {s : St} (hinv : Inv hosts s) {r : Role} {side : Side}
    (hwrote : Wrote (hosts r) r side.pc (s.stream r).written)
    (htook : Took (hosts r) r side (s.stream r.peer).consumed) : Inv hosts (s.setSide r side) := by
  refine ⟨fun r' => ?_, fun r' => ?_, hinv.bound⟩
  · -- wrote
    by_cases hr : r' = r
    · subst hr
      rw [setSide_side_self]
      exact hwrote
    · rw [setSide_side_of_ne s side hr]
      exact hinv.wrote r'
  · -- took
    by_cases hr : r' = r
    · subst hr
      rw [setSide_side_self]
      exact htook
    · rw [setSide_side_of_ne s side hr]
      exact hinv.took r'

/-- A step that leaves the sides alone and changes the stream of `r` such that
what has been consumed of it stays. -/
theorem setStream_inv {s : St} (hinv : Inv hosts s) {r : Role} {st : Stream}
    (hwrote : Wrote (hosts r) r (s.side r).pc st.written)
    (hconsumed : st.consumed = (s.stream r).consumed) (hbound : st.read ≤ st.written.length) :
    Inv hosts (s.setStream r st) := by
  refine ⟨fun r' => ?_, fun r' => ?_, fun r' => ?_⟩
  · by_cases hr : r' = r
    · subst hr
      rw [setStream_stream_self]
      exact hwrote
    · rw [setStream_stream_of_ne s st hr]
      exact hinv.wrote r'
  · -- the stream is the one that the peer of `r` reads
    have htook := hinv.took r'
    by_cases hr : r'.peer = r
    · rw [hr] at htook ⊢
      rw [setStream_stream_self, hconsumed]
      exact htook
    · rw [setStream_stream_of_ne s st hr]
      exact htook
  · by_cases hr : r' = r
    · subst hr
      rw [setStream_stream_self]
      exact hbound
    · rw [setStream_stream_of_ne s st hr]
      exact hinv.bound r'

theorem connected_inv {s : St} (hinv : Inv hosts s) {r : Role}
    (hpc : (s.side r).pc = .connecting) :
    Inv hosts (s.setSide r { s.side r with pc := afterConnect r }) := by
  have hwrote := hinv.wrote r
  have htook := hinv.took r
  simp only [Wrote, hpc] at hwrote
  simp only [Took, hpc] at htook
  refine setSide_inv hinv ?_ ?_
  · cases r with
    | connector => exact ⟨hwrote, message_pos _⟩
    | acceptor => exact hwrote
  · cases r with
    | connector => exact htook
    | acceptor => exact ⟨htook.1, by decide, htook.2⟩

/-- Only the I/O state of the side changes. -/
theorem waiting_inv {s : St} (hinv : Inv hosts s) (r : Role) (waiting : Bool) :
    Inv hosts (s.setSide r { s.side r with waiting := waiting }) :=
  setSide_inv hinv (hinv.wrote r) (hinv.took r)

theorem fail_inv {s : St} (hinv : Inv hosts s) (r : Role) (e : Thrown) :
    Inv hosts (s.setSide r { s.side r with pc := .thrown e, waiting := false }) := by
  refine setSide_inv hinv (hinv.wrote r).comparable ?_
  have htook := hinv.took r
  cases hpc : (s.side r).pc with
  | connecting =>
    simp only [Took, hpc] at htook
    exact .inl htook.2
  | sending sent =>
    simp only [Took, hpc] at htook
    cases r with
    | connector => exact .inl htook.2
    | acceptor => exact .inr htook
  | readingLength | readingAddress =>
    simp only [Took, hpc] at htook
    exact .inl htook.2.2
  | returned =>
    simp only [Took, hpc] at htook
    exact .inr htook
  | thrown =>
    simp only [Took, hpc] at htook
    exact htook

theorem write_inv {s : St} (hinv : Inv hosts s) {r : Role} {sent n : Nat}
    (hpc : (s.side r).pc = .sending sent) (hn : n ≤ (hosts r).message.length - sent) :
    Inv hosts (write hosts s r sent n) := by
  have hwrote := hinv.wrote r
  have htook := hinv.took r
  simp only [Wrote, hpc] at hwrote
  rcases hwrote with ⟨hwritten, hlt⟩
  -- what is on the stream afterwards is a longer prefix of the message
  have hbytes : (s.stream r).written ++ ((hosts r).message.drop sent).take n =
      (hosts r).message.take (sent + n) := by
    rw [hwritten, List.take_add]
  refine ⟨fun r' => ?_, fun r' => ?_, fun r' => ?_⟩
  · by_cases hr : r' = r
    · subst hr
      simp only [write, setSide_side_self, setSide_stream, setStream_stream_self, hbytes]
      exact sendLoop_wrote (by omega)
    · simp only [write, setSide_side_of_ne _ _ hr, setSide_stream, setStream_side,
        setStream_stream_of_ne _ _ hr]
      exact hinv.wrote r'
  · by_cases hr : r' = r
    · -- the side itself: it still has to take what it had to take
      subst hr
      simp only [write, setSide_side_self, setSide_stream,
        setStream_stream_of_ne _ _ (peer_ne r')]
      have hside : Took (hosts r') r' { s.side r' with waiting := false }
          (s.stream r'.peer).consumed := htook
      exact sendLoop_took hpc hside
    · -- the peer: it has consumed the same bytes of a longer stream
      obtain rfl : r' = r.peer := (eq_or_eq_peer r r').resolve_left hr
      have htook' := hinv.took r.peer
      rw [peer_peer] at htook'
      simp only [write, setSide_side_of_ne _ _ hr, setSide_stream, setStream_side, peer_peer,
        setStream_stream_self]
      rw [consumed_append (hinv.bound r)]
      exact htook'
  · by_cases hr : r' = r
    · subst hr
      simp only [write, setSide_stream, setStream_stream_self, List.length_append]
      exact Nat.le_trans (hinv.bound r') (Nat.le_add_right ..)
    · simp only [write, setSide_stream, setStream_stream_of_ne _ _ hr]
      exact hinv.bound r'

/-- A `recv` has written nothing, and has taken the bytes behind the consumed
ones. -/
theorem received_wrote {host : Host} {r : Role} {side : Side} {bytes written : List UInt8}
    {status : UcsStatus} (h : Wrote host r side.pc written) :
    Wrote host r (received host r side bytes status).pc written := by
  unfold received
  split
  · rename_i hpc
    rw [hpc] at h
    split
    · exact WroteBefore.thrown h
    · exact lengthLoop_wrote h
  · rename_i hpc
    rw [hpc] at h
    split
    · exact WroteBefore.thrown h
    · exact addressLoop_wrote h
  all_goals exact h

theorem received_took {host : Host} {r : Role} {side : Side} {bytes consumed : List UInt8}
    {wanted : Nat} {status : UcsStatus} (hwanted : side.pc.wanted = some wanted)
    (hle : bytes.length ≤ wanted) (h : Took host r side consumed) :
    Took host r (received host r side bytes status) (consumed ++ bytes) := by
  cases hpc : side.pc with
  | readingLength buffer =>
    simp only [Took, hpc] at h
    rcases h with ⟨rfl, hlt, hnone⟩
    simp only [hpc, Pc.wanted, Option.some.injEq] at hwanted
    simp only [received, hpc]
    split
    · exact .inl hnone
    · exact lengthLoop_took (by rw [List.length_append]; omega) hnone
  | readingAddress addressLength buffer =>
    simp only [Took, hpc] at h
    rcases h with ⟨⟨header, hheader, rfl, hlen⟩, hlt, hnone⟩
    simp only [hpc, Pc.wanted, Option.some.injEq] at hwanted
    simp only [received, hpc]
    split
    · exact .inl hnone
    · rw [List.append_assoc]
      exact addressLoop_took hheader hlen (by rw [List.length_append]; omega) hnone
  | connecting | sending | returned | thrown =>
    rw [hpc] at hwanted
    exact nomatch hwanted

theorem read_inv {s : St} (hinv : Inv hosts s) {r : Role} {wanted n : Nat} {status : UcsStatus}
    (hwanted : (s.side r).pc.wanted = some wanted)
    (hn : Readable (s.stream r.peer) wanted n) : Inv hosts (read hosts s r n status) := by
  rcases hn with ⟨hle, hflight, -, -⟩
  have hlen : ((s.stream r.peer).inFlight.take n).length ≤ wanted := by
    rw [List.length_take]
    omega
  refine ⟨fun r' => ?_, fun r' => ?_, fun r' => ?_⟩
  · -- a read writes nothing, to either stream
    have hwritten : ((read hosts s r n status).stream r').written = (s.stream r').written := by
      rcases eq_or_eq_peer r r' with rfl | rfl
      · simp only [read, setSide_stream, setStream_stream_of_ne _ _ (peer_ne r').symm]
      · simp only [read, setSide_stream, setStream_stream_self]
    rw [hwritten]
    by_cases hr : r' = r
    · subst hr
      simp only [read, setSide_side_self]
      exact received_wrote (hinv.wrote r')
    · simp only [read, setSide_side_of_ne _ _ hr, setStream_side]
      exact hinv.wrote r'
  · by_cases hr : r' = r
    · -- the side takes exactly the bytes by which the cursor moves
      subst hr
      simp only [read, setSide_side_self, setSide_stream, setStream_stream_self, consumed_read]
      exact received_took hwanted hlen (hinv.took r')
    · obtain rfl : r' = r.peer := (eq_or_eq_peer r r').resolve_left hr
      simp only [read, setSide_side_of_ne _ _ hr, setSide_stream, setStream_side, peer_peer,
        setStream_stream_of_ne _ _ (peer_ne r).symm]
      have htook := hinv.took r.peer
      rwa [peer_peer] at htook
  · rcases eq_or_eq_peer r r' with rfl | rfl
    · simp only [read, setSide_stream, setStream_stream_of_ne _ _ (peer_ne r').symm]
      exact hinv.bound r'
    · have hbound := hinv.bound r.peer
      simp only [Stream.inFlight, List.length_drop] at hflight
      simp only [read, setSide_stream, setStream_stream_self]
      omega

/-- Somebody else writes behind the message. -/
theorem append_inv {s : St} (hinv : Inv hosts s) {r : Role} (bytes : List UInt8)
    (hlen : (hosts r).message.length ≤ (s.stream r).written.length) :
    Inv hosts (s.setStream r { s.stream r with written := (s.stream r).written ++ bytes }) := by
  refine setStream_inv hinv ((hinv.wrote r).append hlen bytes)
    (consumed_append (hinv.bound r) bytes) ?_
  rw [List.length_append]
  exact Nat.le_trans (hinv.bound r) (Nat.le_add_right ..)

theorem cut_inv {s : St} (hinv : Inv hosts s) (r : Role) :
    Inv hosts (s.setStream r { s.stream r with ended := true }) :=
  setStream_inv hinv (hinv.wrote r) rfl (hinv.bound r)

theorem step_inv {s s' : St} {a : Act} (hinv : Inv hosts s) (h : next hosts s a = some s') :
    Inv hosts s' := by
  cases next_cases h with
  | connected hpc => exact connected_inv hinv hpc
  | wait => exact waiting_inv hinv _ true
  | write hpc hn => exact write_inv hinv hpc hn.2.1
  | read hwanted hn => exact read_inv hinv hwanted hn
  | fail => exact fail_inv hinv _ _
  | append hlen => exact append_inv hinv _ hlen
  | cut => exact cut_inv hinv _

theorem run_inv {acts : List Act} {s s' : St} (hinv : Inv hosts s)
    (hrun : Lts.run (next hosts) s acts = some s') : Inv hosts s' :=
  Lts.run_invariant (Inv hosts) (fun _ _ _ hs _ h => step_inv hs h) hinv
    (Lts.stepsMeet_true _ _) hrun

/-! ## The format -/

/-- Any host decodes the length that was encoded. -/
theorem decodeLength_store (host : Host) {length : Nat}
    (hfit : sizeofSize + length ≤ vectorMax) :
    host.decodeLength (store .big sizeofSize length) = length := by
  have hmax : vectorMax < 256 ^ sizeofSize := by decide
  have hlt : length < 256 ^ sizeofSize := by omega
  have hread := deserialize_store host.endian hlt []
  rw [List.append_nil] at hread
  rw [Host.decodeLength, hread]

/-- Only the bytes of a message decode like one, and none behind them. -/
theorem Decoded.unique {host sender : Host} {endpoint : Option (List UInt8)}
    {consumed written : List UInt8} (hfit : sizeofSize + sender.address.length ≤ vectorMax)
    (hdecoded : Decoded host endpoint consumed) (hconsumed : consumed <+: written)
    (hwritten : written <+: sender.message ∨ sender.message <+: written) :
    endpoint = some sender.address ∧ consumed = sender.message := by
  rcases hdecoded with ⟨header, address, rfl, hheader, rfl, hlen⟩
  have hmessage : sender.message =
      store .big sizeofSize sender.address.length ++ sender.address :=
    serializeAddress_eq ..
  have hstore : (store .big sizeofSize sender.address.length).length = sizeofSize :=
    length_store ..
  -- one of the two is a prefix of the other
  have hcomparable : header ++ address <+: sender.message ∨
      sender.message <+: header ++ address := by
    rcases hwritten with hle | hge
    · exact .inl (hconsumed.trans hle)
    · exact List.prefix_or_prefix_of_prefix hconsumed hge
  rw [hmessage] at hcomparable ⊢
  -- hence the headers are the same, and the lengths that they announce
  have hsame : header = store .big sizeofSize sender.address.length ∧
      (address <+: sender.address ∨ sender.address <+: address) := by
    rcases hcomparable with ⟨rest, hrest⟩ | ⟨rest, hrest⟩
    · rw [List.append_assoc] at hrest
      rcases List.append_inj hrest (hheader.trans hstore.symm) with ⟨heq, htail⟩
      exact ⟨heq, .inl ⟨rest, htail⟩⟩
    · rw [List.append_assoc] at hrest
      rcases List.append_inj hrest (hstore.trans hheader.symm) with ⟨heq, htail⟩
      exact ⟨heq.symm, .inr ⟨rest, htail⟩⟩
  rcases hsame with ⟨rfl, haddress⟩
  rw [decodeLength_store host hfit] at hlen
  have heq : address = sender.address := by
    rcases haddress with hle | hge
    · exact hle.eq_of_length hlen
    · exact (hge.eq_of_length hlen.symm).symm
  rw [heq]
  exact ⟨rfl, rfl⟩

/-- An endpoint is created from the message of the peer. -/
theorem Inv.created {s : St} (hinv : Inv hosts s) {r : Role}
    (hfit : sizeofSize + (hosts r.peer).address.length ≤ vectorMax)
    (hdecoded : Decoded (hosts r) (s.side r).endpoint (s.stream r.peer).consumed) :
    (s.side r).endpoint = some (hosts r.peer).address ∧
      (s.stream r.peer).read = sizeofSize + (hosts r.peer).address.length ∧
      (hosts r.peer).message <+: (s.stream r.peer).written := by
  have hprefix : (s.stream r.peer).consumed <+: (s.stream r.peer).written :=
    List.take_prefix ..
  obtain ⟨hendpoint, hconsumed⟩ :=
    hdecoded.unique hfit hprefix (hinv.wrote r.peer).comparable
  refine ⟨hendpoint, ?_, hconsumed ▸ hprefix⟩
  calc (s.stream r.peer).read
      = (s.stream r.peer).consumed.length := by
        rw [Stream.consumed, List.length_take, Nat.min_eq_left (hinv.bound r.peer)]
    _ = sizeofSize + (hosts r.peer).address.length := by
        rw [hconsumed, Host.message, length_serializeAddress]

end Ucxpp.AddressExchange
