import Ucxpp.RkeyExchange

/-!
# RkeyExchangeRun — what the calls of receive_mr return

Two arguments. How many bytes a call reads says whether it has read its header in
two whole pieces (`whole_iff`): it ends `16` bytes and the length of its key behind
its begin exactly then, and a call that is right ends there. And if every header is
read in two whole pieces, each call starts at its own pair (`Aligned`), so that what
it decodes is the pair.
-/

namespace Ucxpp.RkeyExchange

open Bytes (Endian store length_store)

variable {host : Endian} {pairs : List Pair} {s s' : St}

/-! ## Bytes of a call -/

/-- The call read the bytes of two numbers and of its key. -/
def Received.Whole (r : Received) : Prop :=
  r.last = r.first + sizeofUint64 + sizeofSize + r.rkey.length

/-- The part of a call that has run read whole numbers. -/
def Pc.Whole (first read : Nat) : Pc → Prop
  | .idle => True
  | .readingAddr _ => read = first
  | .readingLength .. => read = first + sizeofUint64
  | .readingRkey _ _ rkeyBuffer => read = first + sizeofUint64 + sizeofSize + rkeyBuffer.length
  | .lengthError => read = first + sizeofUint64 + sizeofSize

def Whole (s : St) : Prop :=
  (∀ r ∈ s.received, r.Whole) ∧ s.pc.Whole s.first s.read

/-- A call never reads more than that. -/
def Pc.Bounded (first read : Nat) : Pc → Prop
  | .idle => True
  | .readingAddr _ => read = first
  | .readingLength .. => read ≤ first + sizeofUint64
  | .readingRkey _ rkeyLength rkeyBuffer =>
    read ≤ first + sizeofUint64 + sizeofSize + rkeyBuffer.length ∧ rkeyBuffer.length < rkeyLength
  | .lengthError => True

def Bounded (s : St) : Prop :=
  s.pc.Bounded s.first s.read

theorem whole_rkeyLoop {remoteAddr rkeyLength : Nat} {rkeyBuffer : List UInt8} :
    Whole (rkeyLoop s remoteAddr rkeyLength rkeyBuffer) ↔ (∀ r ∈ s.received, r.Whole) ∧
      s.read = s.first + sizeofUint64 + sizeofSize + rkeyBuffer.length := by
  unfold rkeyLoop
  split
  · exact Iff.rfl
  · simp only [Whole, Pc.Whole, and_true, List.forall_mem_append, List.forall_mem_singleton,
      Received.Whole]

theorem bounded_rkeyLoop {remoteAddr rkeyLength : Nat} {rkeyBuffer : List UInt8}
    (h : s.read ≤ s.first + sizeofUint64 + sizeofSize + rkeyBuffer.length) :
    Bounded (rkeyLoop s remoteAddr rkeyLength rkeyBuffer) := by
  unfold rkeyLoop
  split
  · rename_i hlt
    exact ⟨h, hlt⟩
  · trivial

theorem whole_afterLength {remoteAddr rkeyLength : Nat} :
    Whole (afterLength s remoteAddr rkeyLength) ↔ (∀ r ∈ s.received, r.Whole) ∧
      s.read = s.first + sizeofUint64 + sizeofSize := by
  unfold afterLength
  split
  · exact Iff.rfl
  · exact whole_rkeyLoop

theorem bounded_afterLength {remoteAddr rkeyLength : Nat}
    (h : s.read ≤ s.first + sizeofUint64 + sizeofSize) :
    Bounded (afterLength s remoteAddr rkeyLength) := by
  unfold afterLength
  split
  · trivial
  · exact bounded_rkeyLoop h

theorem Bounded.step {a : Act} (hinv : Bounded s) (hstep : step host pairs s a = some s') :
    Bounded s' := by
  cases step_cases hstep with
  | send _ => exact hinv
  | call _ _ _ => exact rfl
  | recvAddr hpc hn _ _ =>
    simp only [Bounded, hpc, Pc.Bounded] at hinv
    simp only [Bounded, Pc.Bounded]
    omega
  | recvLength hpc hn _ =>
    simp only [Bounded, hpc, Pc.Bounded] at hinv
    apply bounded_afterLength
    simp only
    omega
  | @recvRkey n _ _ _ _ hpc _ hflight =>
    simp only [Bounded, hpc, Pc.Bounded] at hinv
    have hlen : (s.inFlight.take n).length = n := List.length_take_of_le hflight
    apply bounded_rkeyLoop
    simp only [List.length_append, hlen]
    omega

/-- A step reads whole numbers exactly if it reads a number in one piece. -/
theorem whole_step {a : Act} (hwhole : Whole s)
    (hstep : step host pairs s a = some s') : Whole s' ↔ WholeHeader s a := by
  rcases hwhole with ⟨hreceived, hpart⟩
  cases step_cases hstep with
  | send _ => exact iff_of_true ⟨hreceived, hpart⟩ trivial
  | call _ _ _ => exact iff_of_true ⟨hreceived, rfl⟩ trivial
  | recvAddr hpc hn _ _ =>
    simp only [hpc, Pc.Whole] at hpart
    simp only [Whole, Pc.Whole, WholeHeader, hpc, and_iff_right hreceived]
    omega
  | recvLength hpc hn _ =>
    simp only [hpc, Pc.Whole] at hpart
    simp only [whole_afterLength, WholeHeader, hpc, and_iff_right hreceived]
    omega
  | @recvRkey n _ _ _ _ hpc _ hflight =>
    simp only [hpc, Pc.Whole] at hpart
    have hlen : (s.inFlight.take n).length = n := List.length_take_of_le hflight
    refine iff_of_true (whole_rkeyLoop.mpr ⟨hreceived, ?_⟩) (by simp only [WholeHeader, hpc])
    simp only [List.length_append, hlen]
    omega

/-- A call that has read too few bytes of its header ends too early. -/
theorem whole_lost {a : Act} (hinv : Bounded s) (hlost : ¬Whole s)
    (hstep : step host pairs s a = some s') : ¬Whole s' := by
  rintro ⟨hreceived, hpart⟩
  cases step_cases hstep with
  | send _ => exact hlost ⟨hreceived, hpart⟩
  | call hpc _ _ => exact hlost ⟨hreceived, by rw [hpc]; trivial⟩
  | recvAddr hpc hn _ _ =>
    simp only [Bounded, hpc, Pc.Bounded] at hinv
    exact hlost ⟨hreceived, by rw [hpc]; exact hinv⟩
  | recvLength hpc hn _ =>
    simp only [Bounded, hpc, Pc.Bounded] at hinv
    rcases whole_afterLength.mp ⟨hreceived, hpart⟩ with ⟨hold, hread⟩
    refine hlost ⟨hold, ?_⟩
    simp only [hpc, Pc.Whole]
    simp only at hread
    omega
  | @recvRkey n _ _ _ _ hpc _ hflight =>
    simp only [Bounded, hpc, Pc.Bounded] at hinv
    have hlen : (s.inFlight.take n).length = n := List.length_take_of_le hflight
    rcases whole_rkeyLoop.mp ⟨hreceived, hpart⟩ with ⟨hold, hread⟩
    refine hlost ⟨hold, ?_⟩
    simp only [hpc, Pc.Whole]
    simp only [List.length_append, hlen] at hread
    omega

theorem whole_iff {sender : Endian} {as : List Act}
    (hrun : Lts.run (step host pairs) (.init sender pairs) as = some s) :
    Whole s ↔ Lts.StepsMeet (step host pairs) WholeHeader (.init sender pairs) as := by
  refine Lts.run_good_iff (D := fun _ _ => True) Bounded Whole
    (fun _ _ _ hinv _ hstep => hinv.step hstep)
    (fun _ _ _ _ hwhole _ hstep => whole_step hwhole hstep)
    (fun _ _ _ hinv hlost hstep => whole_lost hinv hlost hstep) trivial ⟨?_, trivial⟩
    (Lts.stepsMeet_true _ _) hrun
  intro r hr
  cases hr

/-! ## The stream -/

theorem sendMr_flatten (host : Endian) (pair : Pair) :
    (sendMr host pair).flatten = pair.message := by
  simp only [sendMr, Pair.message, store_hton, List.flatten_cons, List.flatten_nil, List.append_nil,
    List.append_assoc]

theorem stream_append (xs ys : List Pair) : stream (xs ++ ys) = stream xs ++ stream ys :=
  List.flatMap_append

theorem stream_cons (pair : Pair) (rest : List Pair) :
    stream (pair :: rest) = pair.message ++ stream rest :=
  List.flatMap_cons

theorem sendMrs_flatten (sender : Endian) (pairs : List Pair) :
    (pairs.flatMap (sendMr sender)).flatten = stream pairs := by
  induction pairs with
  | nil => rfl
  | cons pair pairs ih =>
    rw [List.flatMap_cons, List.flatten_append, sendMr_flatten, ih, stream_cons]

theorem length_message (pair : Pair) :
    pair.message.length = sizeofUint64 + sizeofSize + pair.rkey.length := by
  rw [Pair.message, List.length_append, List.length_append, length_store, length_store]

@[simp] theorem length_expected (position : Nat) (pairs : List Pair) :
    (expected position pairs).length = pairs.length := by
  induction pairs generalizing position with
  | nil => rfl
  | cons pair pairs ih => rw [expected, List.length_cons, List.length_cons, ih]

theorem expected_append (position : Nat) (xs ys : List Pair) :
    expected position (xs ++ ys) = expected position xs ++
      expected (position + (stream xs).length) ys := by
  induction xs generalizing position with
  | nil => rfl
  | cons pair xs ih =>
    rw [List.cons_append, expected, ih, expected, List.cons_append, stream_cons, List.length_append,
      Nat.add_assoc]

/-- What should be returned was read in whole numbers. -/
theorem whole_expected {r : Received} {position : Nat} {pairs : List Pair}
    (h : r ∈ expected position pairs) : r.Whole := by
  induction pairs generalizing position with
  | nil => cases h
  | cons pair pairs ih =>
    rcases List.mem_cons.mp h with rfl | h
    · have hlen := length_message pair
      simp only [Received.Whole]
      omega
    · exact ih h

/-- What has been sent and what is still to come. -/
def Streamed (pairs : List Pair) (s : St) : Prop :=
  s.sent ++ s.sending.flatten = stream pairs

theorem streamed_init (sender : Endian) (pairs : List Pair) : Streamed pairs (.init sender pairs) :=
  sendMrs_flatten sender pairs

/-- The bytes that a `stream_recv` writes are the next ones of the stream. -/
theorem Streamed.take (h : Streamed pairs s) {n : Nat} (hn : n ≤ s.inFlight.length) :
    s.inFlight.take n = ((stream pairs).drop s.read).take n := by
  rw [← h, List.drop_append]
  exact (List.take_append_of_le_length hn).symm

/-- Behind the numbers of a pair, in whatever sum the position comes. -/
theorem drop_stream {done rest : List Pair} {pair : Pair} {n k : Nat}
    (hn : n = (stream done).length + k) :
    (stream (done ++ pair :: rest)).drop n = (pair.message ++ stream rest).drop k := by
  rw [stream_append, stream_cons, hn, List.drop_append,
    List.drop_of_length_le (Nat.le_add_right ..), List.nil_append, Nat.add_sub_cancel_left]

/-! ## Reading one pair -/

theorem overwrite_of_length {mem bytes : List UInt8} (h : bytes.length = mem.length) :
    overwrite mem bytes = bytes := by
  rw [overwrite, h, List.drop_length, List.append_nil]

theorem decode_store (host : Endian) {size v : Nat} (hv : v < 256 ^ size) :
    decode host size (store .big size v) = v := by
  rw [decode, ntoh_load host (length_store ..), Bytes.load_store .big hv]

/-- The first number is the address. -/
theorem take_addr (pair : Pair) (bytes : List UInt8) :
    (pair.message ++ bytes).take sizeofUint64 = store .big sizeofUint64 pair.remoteAddr := by
  rw [Pair.message, List.append_assoc, List.append_assoc]
  exact List.take_left' (length_store ..)

/-- The second one is the length. -/
theorem take_length (pair : Pair) (bytes : List UInt8) :
    ((pair.message ++ bytes).drop sizeofUint64).take sizeofSize =
      store .big sizeofSize pair.rkey.length := by
  rw [Pair.message, List.append_assoc, List.append_assoc,
    List.drop_left' (length_store ..)]
  exact List.take_left' (length_store ..)

/-- Then come the bytes of the key. -/
theorem take_rkey (pair : Pair) (bytes : List UInt8) {k n : Nat} (hn : k + n ≤ pair.rkey.length) :
    ((pair.message ++ bytes).drop (sizeofUint64 + sizeofSize + k)).take n =
      (pair.rkey.drop k).take n := by
  have hheader : (store .big sizeofUint64 pair.remoteAddr ++
      store .big sizeofSize pair.rkey.length).length = sizeofUint64 + sizeofSize := by
    rw [List.length_append, length_store, length_store]
  rw [Pair.message, List.append_assoc, ← List.drop_drop, List.drop_left' hheader,
    List.drop_append, List.take_append_of_le_length]
  rw [List.length_drop]
  omega

theorem rkey_length_lt (pair : Pair) : pair.rkey.length < 256 ^ sizeofSize := by
  have hmax : vectorMax < 256 ^ sizeofSize := by decide
  exact Nat.lt_of_le_of_lt pair.rkey_fits hmax

/-! ## Alignment -/

/-- A call runs that began at `pair`, behind the pairs of `done`. -/
structure InCall (pairs : List Pair) (received : List Received) (first : Nat) (done : List Pair)
    (pair : Pair) (rest : List Pair) : Prop where
  pairs_eq : pairs = done ++ pair :: rest
  received_eq : received = expected 0 done
  first_eq : first = (stream done).length

/-- The next bytes of a call that has read `k` bytes. -/
theorem InCall.take_inFlight {done rest : List Pair} {pair : Pair} {n k : Nat}
    (hcall : InCall pairs s.received s.first done pair rest) (hstream : Streamed pairs s)
    (hread : s.read = s.first + k) (hn : n ≤ s.inFlight.length) :
    s.inFlight.take n = ((pair.message ++ stream rest).drop k).take n := by
  have hpos : s.read = (stream done).length + k := by rw [hread, hcall.first_eq]
  rw [hstream.take hn, hcall.pairs_eq, drop_stream hpos]

/-- The calls that have returned are right, the call that runs has begun at its own
pair, and it has read the fields that it is behind. -/
def Aligned (pairs : List Pair) (s : St) : Prop :=
  match s.pc with
  | .idle => ∃ done rest, pairs = done ++ rest ∧ s.received = expected 0 done ∧
      s.read = (stream done).length
  | .readingAddr mem => ∃ done pair rest, InCall pairs s.received s.first done pair rest ∧
      s.read = s.first ∧ mem.length = sizeofUint64
  | .readingLength remoteAddr mem => ∃ done pair rest,
      InCall pairs s.received s.first done pair rest ∧
      s.read = s.first + sizeofUint64 ∧ remoteAddr = pair.remoteAddr ∧ mem.length = sizeofSize
  | .readingRkey remoteAddr rkeyLength rkeyBuffer => ∃ done pair rest,
      InCall pairs s.received s.first done pair rest ∧
      s.read = s.first + sizeofUint64 + sizeofSize + rkeyBuffer.length ∧
      remoteAddr = pair.remoteAddr ∧ rkeyLength = pair.rkey.length ∧
      rkeyBuffer = pair.rkey.take rkeyBuffer.length ∧ rkeyBuffer.length < rkeyLength
  | .lengthError => False

/-- The loop goes on with a part of the key, or returns the pair. -/
theorem aligned_rkeyLoop {done rest : List Pair} {pair : Pair} {rkeyBuffer : List UInt8}
    (hcall : InCall pairs s.received s.first done pair rest)
    (hread : s.read = s.first + sizeofUint64 + sizeofSize + rkeyBuffer.length)
    (hbuffer : rkeyBuffer = pair.rkey.take rkeyBuffer.length)
    (hle : rkeyBuffer.length ≤ pair.rkey.length) :
    Aligned pairs (rkeyLoop s pair.remoteAddr pair.rkey.length rkeyBuffer) := by
  unfold rkeyLoop
  split
  · rename_i hlt
    exact ⟨done, pair, rest, hcall, hread, rfl, rfl,
      hbuffer, hlt⟩
  · -- the buffer holds the key
    rename_i hfull
    have hkey : rkeyBuffer = pair.rkey := by
      rw [hbuffer]
      exact List.take_of_length_le (by omega)
    have hlen := length_message pair
    have hfirst := hcall.first_eq
    refine ⟨done ++ [pair], rest, ?_, ?_, ?_⟩
    · rw [hcall.pairs_eq, List.append_assoc]
      rfl
    · have hlast : s.read = 0 + (stream done).length + pair.message.length := by
        rw [hread, hkey]
        omega
      simp only [hcall.received_eq, expected_append, expected, hkey, hlast, hfirst, Nat.zero_add]
    · have hsingle : (stream [pair]).length = pair.message.length := by
        rw [stream_cons, List.length_append]
        rfl
      simp only [stream_append, List.length_append, hread, hkey]
      omega

theorem Aligned.recvAddr {n : Nat} {mem lengthMem : List UInt8} (hstream : Streamed pairs s)
    (halign : Aligned pairs s) (hpc : s.pc = .readingAddr mem) (hn : n = sizeofUint64)
    (hflight : n ≤ s.inFlight.length) (hmem : lengthMem.length = sizeofSize) :
    Aligned pairs { s with
      read := s.read + n
      pc := .readingLength
        (decode host sizeofUint64 (overwrite mem (s.inFlight.take n))) lengthMem } := by
  subst hn
  simp only [Aligned, hpc] at halign
  rcases halign with ⟨done, pair, rest, hcall, hread, hlen⟩
  have hbytes : s.inFlight.take sizeofUint64 = store .big sizeofUint64 pair.remoteAddr := by
    rw [hcall.take_inFlight hstream (hread.trans (Nat.add_zero _).symm) hflight]
    exact take_addr pair _
  refine ⟨done, pair, rest, hcall, ?_, ?_, hmem⟩
  · simp only [hread]
  · rw [hbytes, overwrite_of_length ((length_store ..).trans hlen.symm)]
    exact decode_store host pair.remoteAddr_lt

theorem Aligned.recvLength {n remoteAddr : Nat} {mem : List UInt8} (hstream : Streamed pairs s)
    (halign : Aligned pairs s) (hpc : s.pc = .readingLength remoteAddr mem) (hn : n = sizeofSize)
    (hflight : n ≤ s.inFlight.length) :
    Aligned pairs (afterLength { s with read := s.read + n } remoteAddr
      (decode host sizeofSize (overwrite mem (s.inFlight.take n)))) := by
  subst hn
  simp only [Aligned, hpc] at halign
  rcases halign with ⟨done, pair, rest, hcall, hread, rfl, hlen⟩
  have hbytes : s.inFlight.take sizeofSize = store .big sizeofSize pair.rkey.length := by
    rw [hcall.take_inFlight hstream hread hflight]
    exact take_length pair _
  rw [hbytes, overwrite_of_length ((length_store ..).trans hlen.symm),
    decode_store host (rkey_length_lt pair), afterLength, if_neg (Nat.not_lt_of_le pair.rkey_fits)]
  refine aligned_rkeyLoop (s := { s with read := s.read + sizeofSize }) hcall ?_ rfl (Nat.zero_le _)
  simp only [hread, List.length_nil]
  omega

theorem Aligned.recvRkey {n remoteAddr rkeyLength : Nat} {rkeyBuffer : List UInt8}
    (hstream : Streamed pairs s) (halign : Aligned pairs s)
    (hpc : s.pc = .readingRkey remoteAddr rkeyLength rkeyBuffer)
    (hn : n ≤ rkeyLength - rkeyBuffer.length) (hflight : n ≤ s.inFlight.length) :
    Aligned pairs (rkeyLoop { s with read := s.read + n } remoteAddr rkeyLength
      (rkeyBuffer ++ s.inFlight.take n)) := by
  simp only [Aligned, hpc] at halign
  rcases halign with ⟨done, pair, rest, hcall, hread, rfl, rfl, hbuffer, hlt⟩
  have hbytes : s.inFlight.take n = (pair.rkey.drop rkeyBuffer.length).take n := by
    have hpos : s.read = s.first + (sizeofUint64 + sizeofSize + rkeyBuffer.length) := by
      rw [hread, Nat.add_assoc, Nat.add_assoc, Nat.add_assoc]
    rw [hcall.take_inFlight hstream hpos hflight]
    exact take_rkey pair _ (by omega)
  have hlen : (s.inFlight.take n).length = n := List.length_take_of_le hflight
  refine aligned_rkeyLoop (s := { s with read := s.read + n }) hcall ?_ ?_ ?_
  · simp only [hread, List.length_append, hlen]
    omega
  · rw [List.length_append, hlen, List.take_add, ← hbuffer, hbytes]
  · rw [List.length_append, hlen]
    omega

theorem Aligned.call {addrMem : List UInt8} (halign : Aligned pairs s) (hpc : s.pc = .idle)
    (hcalls : s.received.length < pairs.length) (hmem : addrMem.length = sizeofUint64) :
    Aligned pairs { s with pc := .readingAddr addrMem, first := s.read } := by
  simp only [Aligned, hpc] at halign
  rcases halign with ⟨done, rest, hpairs, hreceived, hread⟩
  cases rest with
  | nil =>
    rw [hreceived, hpairs, length_expected, List.append_nil] at hcalls
    exact absurd hcalls (Nat.lt_irrefl _)
  | cons pair rest => exact ⟨done, pair, rest, ⟨hpairs, hreceived, hread⟩, rfl, hmem⟩

/-- The invariant of the runs that read whole numbers. -/
def Inv (pairs : List Pair) (s : St) : Prop :=
  Streamed pairs s ∧ Aligned pairs s

theorem Aligned.of_received (h : Aligned pairs s) : Right pairs s := by
  have hprefix : ∀ done rest, pairs = done ++ rest → s.received = expected 0 done →
      Right pairs s := by
    intro done rest hpairs hreceived
    rw [Right, hpairs, hreceived, expected_append]
    exact List.prefix_append ..
  unfold Aligned at h
  split at h
  · rcases h with ⟨done, rest, hpairs, hreceived, -⟩
    exact hprefix done rest hpairs hreceived
  · rcases h with ⟨done, pair, rest, hcall, -⟩
    exact hprefix done _ hcall.pairs_eq hcall.received_eq
  · rcases h with ⟨done, pair, rest, hcall, -⟩
    exact hprefix done _ hcall.pairs_eq hcall.received_eq
  · rcases h with ⟨done, pair, rest, hcall, -⟩
    exact hprefix done _ hcall.pairs_eq hcall.received_eq
  · exact h.elim

theorem inv_init (sender : Endian) (pairs : List Pair) : Inv pairs (.init sender pairs) :=
  ⟨streamed_init sender pairs, [], pairs, rfl, rfl, rfl⟩

theorem streamed_rkeyLoop {remoteAddr rkeyLength : Nat} {rkeyBuffer : List UInt8}
    (h : Streamed pairs s) : Streamed pairs (rkeyLoop s remoteAddr rkeyLength rkeyBuffer) := by
  unfold rkeyLoop
  split <;> exact h

theorem streamed_afterLength {remoteAddr rkeyLength : Nat} (h : Streamed pairs s) :
    Streamed pairs (afterLength s remoteAddr rkeyLength) := by
  unfold afterLength
  split
  · exact h
  · exact streamed_rkeyLoop h

theorem Streamed.step {a : Act} (h : Streamed pairs s) (hstep : step host pairs s a = some s') :
    Streamed pairs s' := by
  cases step_cases hstep with
  | send hsending =>
    rw [Streamed, hsending, List.flatten_cons, ← List.append_assoc] at h
    exact h
  | call _ _ _ => exact h
  | recvAddr _ _ _ _ => exact h
  | recvLength _ _ _ => exact streamed_afterLength (s := { s with read := _ }) h
  | recvRkey _ _ _ => exact streamed_rkeyLoop (s := { s with read := _ }) h

theorem Inv.step {a : Act} (hinv : Inv pairs s) (hwhole : WholeHeader s a)
    (hstep : step host pairs s a = some s') : Inv pairs s' := by
  refine ⟨hinv.1.step hstep, ?_⟩
  rcases hinv with ⟨hstream, halign⟩
  cases step_cases hstep with
  | send _ => exact halign
  | call hpc hcalls hmem => exact halign.call hpc hcalls hmem
  | recvAddr hpc _ hflight hmem =>
    simp only [WholeHeader, hpc] at hwhole
    exact halign.recvAddr hstream hpc hwhole hflight hmem
  | recvLength hpc _ hflight =>
    simp only [WholeHeader, hpc] at hwhole
    exact halign.recvLength hstream hpc hwhole hflight
  | recvRkey hpc hn hflight => exact halign.recvRkey hstream hpc hn hflight

/-! ## The calls return -/

/-- From `s` to `s'`, with the numbers in one piece each. -/
abbrev Goes (host : Endian) (pairs : List Pair) (s s' : St) : Prop :=
  Lts.Reachable (step host pairs) (· = s) WholeHeader s'

theorem Goes.one {a : Act} (hstep : step host pairs s a = some s') (hwhole : WholeHeader s a) :
    Goes host pairs s s' :=
  .step (.init rfl) hwhole hstep

/-- Everything that is still to be sent is sent. -/
theorem send_all (host : Endian) (hinv : Inv pairs s) :
    ∃ s', Goes host pairs s s' ∧ Inv pairs s' ∧ s'.sending = [] := by
  obtain ⟨n, hn⟩ : ∃ n, s.sending.length = n := ⟨_, rfl⟩
  induction n generalizing s with
  | zero => exact ⟨s, .init rfl, hinv, List.length_eq_zero_iff.mp hn⟩
  | succ n ih =>
    cases hsending : s.sending with
    | nil =>
      rw [hsending] at hn
      cases hn
    | cons bytes rest =>
      have hstep : step host pairs s .send =
          some { s with sending := rest, sent := s.sent ++ bytes } := by
        simp only [step, hsending]
      have hrest : rest.length = n := by
        rw [hsending, List.length_cons] at hn
        omega
      rcases ih (hinv.step (a := .send) trivial hstep) hrest with ⟨s', hgoes, hinv', hdone⟩
      exact ⟨s', (Goes.one hstep trivial).trans hgoes, hinv', hdone⟩

/-- A `stream_recv` can complete with what it asks for, once it has been sent. -/
theorem recv_all (host : Endian) (hstream : Streamed pairs s) (hsent : s.sending = []) {n : Nat}
    (hwanted : s.pc.wanted = some n) (hpos : 0 < n) (hle : s.read + n ≤ (stream pairs).length) :
    ∃ s', step host pairs s (.recv n (List.replicate sizeofSize 0)) = some s' ∧
      s'.sending = [] := by
  have hall : s.sent = stream pairs := by
    rw [← hstream, hsent, List.flatten_nil, List.append_nil]
  have hflight : n ≤ s.inFlight.length := by
    rw [St.inFlight, hall, List.length_drop]
    omega
  have hguard : 0 < n ∧ n ≤ n ∧ n ≤ s.inFlight.length ∧
      (List.replicate sizeofSize (0 : UInt8)).length = sizeofSize :=
    ⟨hpos, Nat.le_refl n, hflight, List.length_replicate⟩
  refine ⟨continueWith host { s with read := s.read + n } (List.replicate sizeofSize 0)
    (s.inFlight.take n), ?_, ?_⟩
  · simp only [step, hwanted, if_pos hguard]
  · unfold continueWith afterLength rkeyLoop
    split
    · exact hsent
    · split
      · exact hsent
      · split <;> exact hsent
    · split <;> exact hsent
    · exact hsent
    · exact hsent

/-- The call that runs returns. -/
structure Returns (host : Endian) (pairs : List Pair) (s s' : St) : Prop where
  goes : Goes host pairs s s'
  inv : Inv pairs s'
  sent : s'.sending = []
  idle : s'.pc = .idle
  received : s'.received.length = s.received.length + 1

/-- What returns from a later state of the call returns from an earlier one. -/
theorem Returns.after {s₁ t : St} (h : Returns host pairs s₁ t) (hgoes : Goes host pairs s s₁)
    (hreceived : s₁.received.length = s.received.length) : Returns host pairs s t where
  goes := hgoes.trans h.goes
  inv := h.inv
  sent := h.sent
  idle := h.idle
  received := by rw [h.received, hreceived]

theorem InCall.bound {received : List Received} {first : Nat} {done rest : List Pair} {pair : Pair}
    (h : InCall pairs received first done pair rest) :
    first + sizeofUint64 + sizeofSize + pair.rkey.length ≤ (stream pairs).length := by
  have hlen := length_message pair
  have hfirst := h.first_eq
  rw [h.pairs_eq, stream_append, stream_cons, List.length_append, List.length_append]
  omega

/-- The rest of the key comes in one piece. -/
theorem returns_of_rkey (host : Endian) {remoteAddr rkeyLength : Nat} {rkeyBuffer : List UInt8}
    (hinv : Inv pairs s) (hsent : s.sending = [])
    (hpc : s.pc = .readingRkey remoteAddr rkeyLength rkeyBuffer) :
    ∃ s', Returns host pairs s s' := by
  have halign := hinv.2
  simp only [Aligned, hpc] at halign
  rcases halign with ⟨done, pair, rest, hcall, hread, -, rfl, -, hlt⟩
  have hbound := hcall.bound
  have hwanted : s.pc.wanted = some (pair.rkey.length - rkeyBuffer.length) := by rw [hpc]; rfl
  obtain ⟨s', hstep, hsent'⟩ := recv_all host hinv.1 hsent hwanted (by omega) (by omega)
  have hwhole : WholeHeader s (.recv (pair.rkey.length - rkeyBuffer.length)
      (List.replicate sizeofSize 0)) := by
    simp only [WholeHeader, hpc]
  have hinv' := hinv.step hwhole hstep
  -- the loop ends, and the call returns
  have hidle : s'.pc = .idle ∧ s'.received.length = s.received.length + 1 := by
    cases step_cases hstep with
    | recvAddr hpc' | recvLength hpc' => cases hpc.symm.trans hpc'
    | recvRkey hpc' hn hflight =>
      obtain ⟨-, rfl, rfl⟩ := Pc.readingRkey.inj (hpc.symm.trans hpc')
      have hlen := List.length_take_of_le hflight
      rw [rkeyLoop, if_neg (by rw [List.length_append, hlen]; omega)]
      exact ⟨rfl, List.length_append⟩
  exact ⟨s', Goes.one hstep hwhole, hinv', hsent', hidle.1, hidle.2⟩

/-- From the length on. -/
theorem returns_of_length (host : Endian) {remoteAddr : Nat} {mem : List UInt8} (hinv : Inv pairs s)
    (hsent : s.sending = []) (hpc : s.pc = .readingLength remoteAddr mem) :
    ∃ s', Returns host pairs s s' := by
  have halign := hinv.2
  simp only [Aligned, hpc] at halign
  rcases halign with ⟨done, pair, rest, hcall, hread, -, -⟩
  have hbound := hcall.bound
  have hwanted : s.pc.wanted = some sizeofSize := by rw [hpc]; rfl
  obtain ⟨s', hstep, hsent'⟩ := recv_all host hinv.1 hsent hwanted (by decide) (by omega)
  have hwhole : WholeHeader s (.recv sizeofSize (List.replicate sizeofSize 0)) := by
    simp only [WholeHeader, hpc]
  have hinv' := hinv.step hwhole hstep
  have hgoes := Goes.one hstep hwhole
  cases step_cases hstep with
  | recvAddr hpc' | recvRkey hpc' => cases hpc.symm.trans hpc'
  | recvLength hpc' hn hflight =>
    unfold afterLength at hinv' hsent' hgoes
    split at hinv'
    · exact hinv'.2.elim
    · rename_i hfits
      rw [if_neg hfits] at hsent' hgoes
      unfold rkeyLoop at hinv' hsent' hgoes
      split at hinv'
      · -- there is a key to read
        rename_i hlt
        rw [if_pos hlt] at hsent' hgoes
        rcases returns_of_rkey host hinv' hsent' rfl with ⟨t, ht⟩
        exact ⟨t, ht.after hgoes rfl⟩
      · rename_i hempty
        rw [if_neg hempty] at hsent' hgoes
        exact ⟨_, hgoes, hinv', hsent', rfl, List.length_append⟩

/-- From the address on. -/
theorem returns_of_addr (host : Endian) {mem : List UInt8} (hinv : Inv pairs s)
    (hsent : s.sending = []) (hpc : s.pc = .readingAddr mem) :
    ∃ s', Returns host pairs s s' := by
  have halign := hinv.2
  simp only [Aligned, hpc] at halign
  rcases halign with ⟨done, pair, rest, hcall, hread, -⟩
  have hbound := hcall.bound
  have hwanted : s.pc.wanted = some sizeofUint64 := by rw [hpc]; rfl
  obtain ⟨s', hstep, hsent'⟩ := recv_all host hinv.1 hsent hwanted (by decide) (by omega)
  have hwhole : WholeHeader s (.recv sizeofUint64 (List.replicate sizeofSize 0)) := by
    simp only [WholeHeader, hpc]
  have hinv' := hinv.step hwhole hstep
  have hgoes := Goes.one hstep hwhole
  cases step_cases hstep with
  | recvLength hpc' | recvRkey hpc' => cases hpc.symm.trans hpc'
  | recvAddr hpc' hn hflight hmem =>
    rcases returns_of_length host hinv' hsent' rfl with ⟨t, ht⟩
    exact ⟨t, ht.after hgoes rfl⟩

/-- Between two calls: all calls that are still to come return. -/
theorem return_all (host : Endian) (hinv : Inv pairs s) (hsent : s.sending = [])
    (hpc : s.pc = .idle) :
    ∃ s', Goes host pairs s s' ∧ s'.pc = .idle ∧ s'.received = expected 0 pairs := by
  obtain ⟨n, hn⟩ : ∃ n, pairs.length - s.received.length = n := ⟨_, rfl⟩
  induction n generalizing s with
  | zero =>
    -- a prefix of the same length
    have hright : Right pairs s := hinv.2.of_received
    refine ⟨s, .init rfl, hpc, hright.eq_of_length_le ?_⟩
    rw [length_expected]
    omega
  | succ n ih =>
    have hguard : s.pc = .idle ∧ s.received.length < pairs.length ∧
        (List.replicate sizeofUint64 (0 : UInt8)).length = sizeofUint64 :=
      ⟨hpc, by omega, List.length_replicate⟩
    have hstep : step host pairs s (.call (List.replicate sizeofUint64 0)) =
        some { s with pc := .readingAddr (List.replicate sizeofUint64 0), first := s.read } :=
      if_pos hguard
    rcases returns_of_addr host (hinv.step (a := .call _) trivial hstep) hsent rfl with
      ⟨t, ht⟩
    have hcount := ht.received
    simp only at hcount
    rcases ih ht.inv ht.sent ht.idle (by omega) with ⟨s', hgoes, hidle, hall⟩
    exact ⟨s', ((Goes.one hstep trivial).trans ht.goes).trans hgoes, hidle, hall⟩

/-- From every state of such a run all calls can still return, with all pairs. -/
theorem Inv.completes (hinv : Inv pairs s) :
    ∃ s', Goes host pairs s s' ∧ s'.pc = .idle ∧ s'.received = expected 0 pairs := by
  rcases send_all host hinv with ⟨t, hgoes, ht, hsent⟩
  have hrest : ∀ {u}, Returns host pairs t u →
      ∃ s', Goes host pairs s s' ∧ s'.pc = .idle ∧ s'.received = expected 0 pairs := by
    intro u hu
    rcases return_all host hu.inv hu.sent hu.idle with ⟨s', hs', hidle, hall⟩
    exact ⟨s', (hgoes.trans hu.goes).trans hs', hidle, hall⟩
  cases hpc : t.pc with
  | idle =>
    rcases return_all host ht hsent hpc with ⟨s', hs', hidle, hall⟩
    exact ⟨s', hgoes.trans hs', hidle, hall⟩
  | readingAddr mem =>
    rcases returns_of_addr host ht hsent hpc with ⟨u, hu⟩
    exact hrest hu
  | readingLength remoteAddr mem =>
    rcases returns_of_length host ht hsent hpc with ⟨u, hu⟩
    exact hrest hu
  | readingRkey remoteAddr rkeyLength rkeyBuffer =>
    rcases returns_of_rkey host ht hsent hpc with ⟨u, hu⟩
    exact hrest hu
  | lengthError =>
    have halign := ht.2
    simp only [Aligned, hpc] at halign

/-! ## The exchange -/

/-- Between two calls, the calls that have returned are right iff every number before a
key was read in one piece. If they were, then at any time what has been returned is right,
and all calls can still return, with all pairs. -/
theorem keys_exchanged_iff {sender : Endian} {as : List Act}
    (hrun : Lts.run (step host pairs) (.init sender pairs) as = some s) :
    (s.pc = .idle →
      (Right pairs s ↔
        Lts.StepsMeet (step host pairs) WholeHeader (.init sender pairs) as)) ∧
    (Lts.StepsMeet (step host pairs) WholeHeader (.init sender pairs) as →
      Right pairs s ∧
        ∃ s', Goes host pairs s s' ∧ s'.pc = .idle ∧ s'.received = expected 0 pairs) := by
  have hinv : Lts.StepsMeet (step host pairs) WholeHeader (.init sender pairs) as →
      Inv pairs s := by
    intro hmeet
    exact Lts.run_invariant (Inv pairs) (fun _ _ _ hs hwhole hstep => hs.step hwhole hstep)
      (inv_init sender pairs) hmeet hrun
  constructor
  · intro hidle
    constructor
    · -- what is right was read in whole numbers
      intro hright
      refine (whole_iff hrun).mp ⟨fun r hr => whole_expected (hright.subset hr), ?_⟩
      rw [hidle]
      trivial
    · intro hmeet
      exact (hinv hmeet).2.of_received
  · intro hmeet
    exact ⟨(hinv hmeet).2.of_received, (hinv hmeet).completes⟩

/-! ### Two exchanges -/

def zeros : List UInt8 :=
  List.replicate 8 0

/-- A key of three bytes and an empty one. -/
def twoPairs : List Pair :=
  [⟨1, [7, 8, 9], by decide, by decide⟩, ⟨2, [], by decide, by decide⟩]

/-- The first key comes in two pieces. -/
def twoCalls : List Act :=
  [.send, .send, .send, .call zeros, .recv 8 zeros, .send, .recv 8 zeros, .recv 1 zeros,
    .recv 2 zeros, .send, .send, .call zeros, .recv 8 zeros, .recv 8 zeros]

theorem keys_exchanged_two :
    ∃ s, Lts.run (step .little twoPairs) (.init .big twoPairs) twoCalls = some s ∧
      s.received = [⟨1, [7, 8, 9], 0, 19⟩, ⟨2, [], 19, 35⟩] ∧ Right twoPairs s := by
  obtain ⟨s, hrun, hreceived, hidle⟩ : ∃ s,
      Lts.run (step .little twoPairs) (.init .big twoPairs) twoCalls = some s ∧
        s.received = [⟨1, [7, 8, 9], 0, 19⟩, ⟨2, [], 19, 35⟩] ∧ s.pc = .idle :=
    ⟨_, rfl, rfl, rfl⟩
  have hwhole : Whole s := by
    constructor
    · rw [hreceived]
      intro r hr
      rcases List.mem_cons.mp hr with rfl | hr
      · rfl
      · rcases List.mem_singleton.mp hr with rfl
        rfl
    · rw [hidle]
      trivial
  exact ⟨s, hrun, hreceived, ((keys_exchanged_iff hrun).2 ((whole_iff hrun).mp hwhole)).1⟩

/-- A key of one byte. -/
def onePair : List Pair :=
  [⟨1, [7], by decide, by decide⟩]

/-- The length comes without its last byte. -/
def shortLength : List Act :=
  [.send, .send, .send, .call zeros, .recv 8 zeros, .recv 7 zeros]

/-- The length that is decoded is the zero that the memory held: the call returns an empty
key, and the next call would begin inside the pair. -/
theorem short_length_read :
    ∃ s, Lts.run (step .little onePair) (.init .little onePair) shortLength = some s ∧
      s.pc = .idle ∧ s.received = [⟨1, [], 0, 15⟩] ∧ ¬Right onePair s := by
  refine ⟨_, rfl, rfl, rfl, fun hright => ?_⟩
  exact absurd (hright.eq_of_length rfl) (by decide)

end Ucxpp.RkeyExchange
