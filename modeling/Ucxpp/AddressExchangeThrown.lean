import Ucxpp.AddressExchangeShort

/-!
# AddressExchangeThrown — why a side throws

A step of one side leaves the other as it is. If no call of the kernel fails, nor
`ucp_ep_create`, a side throws for one reason only: the stream that it reads has ended
inside the message. The length of the address, once it is there, is the one that was sent
(`header_eq`).
-/

namespace Ucxpp.AddressExchange

open Bytes (store length_store)

variable {hosts : Role → Host} {s s' : St} {a : Act} {r : Role}

/-! ## A step of one side -/

/-- The steps that are not its own leave a side as it is. -/
theorem side_eq (h : next hosts s a = some s') (hrole : a.role ≠ some r) :
    s'.side r = s.side r := by
  cases next_cases h with
  | connected | wait | write | read | fail =>
    exact setSide_side_of_ne _ _ fun heq => hrole (congrArg some heq.symm)
  | append | cut => rfl

theorem sendLoop_pc (host : Host) (r : Role) (side : Side) (sent : Nat) :
    (sendLoop host r side sent).pc ≠ .connecting ∧
      ∀ e, (sendLoop host r side sent).pc ≠ .thrown e := by
  unfold sendLoop
  split
  · exact ⟨nofun, nofun⟩
  · cases r with
    | connector | acceptor => exact ⟨nofun, nofun⟩

theorem addressLoop_pc (r : Role) (side : Side) (addressLength : Nat) (buffer : List UInt8)
    (status : UcsStatus) : (addressLoop r side addressLength buffer status).pc ≠ .connecting ∧
      ∀ e, (addressLoop r side addressLength buffer status).pc = .thrown e →
        ∃ error, status = .err error := by
  unfold addressLoop
  split
  · exact ⟨nofun, nofun⟩
  · cases status with
    | err error => exact ⟨nofun, fun _ _ => ⟨error, rfl⟩⟩
    | ok | inProgress =>
      cases r with
      | connector | acceptor => exact ⟨nofun, nofun⟩

theorem lengthLoop_pc (host : Host) (r : Role) (side : Side) (buffer : List UInt8)
    (status : UcsStatus) : (lengthLoop host r side buffer status).pc ≠ .connecting ∧
      ∀ e, (lengthLoop host r side buffer status).pc = .thrown e →
        (∃ error, status = .err error) ∨
          sizeofSize ≤ buffer.length ∧ vectorMax < host.decodeLength buffer := by
  unfold lengthLoop
  split
  · exact ⟨nofun, nofun⟩
  · rename_i hfull
    split
    · rename_i hbig
      exact ⟨nofun, fun _ _ => .inr ⟨Nat.le_of_not_lt hfull, hbig⟩⟩
    · have hloop := addressLoop_pc r side (host.decodeLength buffer) [] status
      exact ⟨hloop.1, fun e he => .inl (hloop.2 e he)⟩

/-- What `recv` makes of a side: it throws at the end of the stream, because UCX creates no
endpoint, or because of the length that it has read. -/
theorem received_pc (host : Host) (r : Role) (side : Side) (bytes : List UInt8)
    (status : UcsStatus) {wanted : Nat} (hwanted : side.pc.wanted = some wanted) :
    (received host r side bytes status).pc ≠ .connecting ∧
      ∀ e, (received host r side bytes status).pc = .thrown e → bytes.length = 0 ∨
        (∃ error, status = .err error) ∨
        ∃ buffer, side.pc = .readingLength buffer ∧ sizeofSize ≤ (buffer ++ bytes).length ∧
          vectorMax < host.decodeLength (buffer ++ bytes) := by
  cases hpc : side.pc with
  | readingLength buffer =>
    simp only [received, hpc]
    split
    · rename_i hzero
      constructor
      · intro heq
        cases heq
      · intro _ _
        exact .inl hzero
    · have hloop := lengthLoop_pc host r side (buffer ++ bytes) status
      refine ⟨hloop.1, fun e he => .inr ?_⟩
      exact (hloop.2 e he).imp_right fun hbig => ⟨buffer, rfl, hbig⟩
  | readingAddress addressLength buffer =>
    simp only [received, hpc]
    split
    · rename_i hzero
      constructor
      · intro heq
        cases heq
      · intro _ _
        exact .inl hzero
    · have hloop := addressLoop_pc r side addressLength (buffer ++ bytes) status
      exact ⟨hloop.1, fun e he => .inr (.inl (hloop.2 e he))⟩
  | connecting | sending | returned | thrown =>
    rw [hpc] at hwanted
    cases hwanted

/-- A side that has taken a step is connected. -/
theorem not_connecting (h : next hosts s a = some s') (hrole : a.role = some r) :
    (s'.side r).pc ≠ .connecting := by
  cases next_cases h with
  | connected hpc =>
    cases hrole
    rw [setSide_side_self]
    cases r with
    | connector | acceptor =>
      intro heq
      cases heq
  | wait hio =>
    cases hrole
    rw [setSide_side_self]
    intro hpc
    rw [show (s.side r).pc = .connecting from hpc] at hio
    cases hio
  | write =>
    cases hrole
    rw [write, setSide_side_self]
    exact (sendLoop_pc _ _ _ _).1
  | read hwanted =>
    cases hrole
    rw [read, setSide_side_self]
    exact (received_pc _ _ { s.side r with waiting := false } _ _ hwanted).1
  | fail =>
    cases hrole
    rw [setSide_side_self]
    intro heq
    cases heq
  | append | cut => cases hrole

/-! ## Why a side throws -/

/-- The first bytes of a stream are the length of the address. -/
theorem header_eq {sender : Host} {header rest written : List UInt8}
    (hheader : header.length = sizeofSize) (hpre : header ++ rest <+: written)
    (hwritten : written <+: sender.message ∨ sender.message <+: written) :
    header = store .big sizeofSize sender.address.length := by
  have hmessage : sender.message =
      store .big sizeofSize sender.address.length ++ sender.address :=
    serializeAddress_eq ..
  have hlength : header.length = (store .big sizeofSize sender.address.length).length :=
    hheader.trans (length_store ..).symm
  have hcomparable : header ++ rest <+: sender.message ∨ sender.message <+: header ++ rest := by
    rcases hwritten with hle | hge
    · exact .inl (hpre.trans hle)
    · exact List.prefix_or_prefix_of_prefix hpre hge
  rw [hmessage] at hcomparable
  rcases hcomparable with ⟨tail, htail⟩ | ⟨tail, htail⟩
  · rw [List.append_assoc] at htail
    exact (List.append_inj htail hlength).1
  · rw [List.append_assoc] at htail
    exact (List.append_inj htail hlength.symm).1.symm

/-- At the end of the stream, what has been consumed is all that was written. -/
theorem Inv.consumed_eq (hinv : Inv hosts s) {st : Role} (hflight : (s.stream st).inFlight = []) :
    (s.stream st).consumed = (s.stream st).written := by
  have hbound := hinv.bound st
  have hread : (s.stream st).written.length ≤ (s.stream st).read :=
    List.drop_eq_nil_iff.mp hflight
  exact List.take_of_length_le hread

/-- A `recv` at the end of the stream finds it too short. -/
theorem Inv.short_of_ended (hinv : Inv hosts s)
    (hfit : sizeofSize + (hosts r.peer).address.length ≤ vectorMax) {wanted : Nat}
    (hwanted : (s.side r).pc.wanted = some wanted)
    (hflight : (s.stream r.peer).inFlight = []) :
    (s.stream r.peer).written.length < sizeofSize + (hosts r.peer).address.length := by
  have htook := hinv.took r
  have hall := hinv.consumed_eq hflight
  cases hpc : (s.side r).pc with
  | readingLength buffer =>
    simp only [Took, hpc] at htook
    rcases htook with ⟨hconsumed, hlt, -⟩
    rw [← hall, hconsumed]
    exact Nat.lt_of_lt_of_le hlt (Nat.le_add_right _ _)
  | readingAddress addressLength buffer =>
    simp only [Took, hpc] at htook
    rcases htook with ⟨⟨header, hheader, hconsumed, hlength⟩, hlt, -⟩
    have hpre : header ++ buffer <+: (s.stream r.peer).written := by
      rw [← hconsumed]
      exact List.take_prefix ..
    have hsame := header_eq hheader hpre (hinv.wrote r.peer).comparable
    rw [hsame, decodeLength_store _ hfit] at hlength
    rw [← hall, hconsumed, List.length_append, hheader]
    omega
  | connecting | sending | returned | thrown =>
    rw [hpc] at hwanted
    cases hwanted

/-- The length that a side has read is the one that its peer has sent, which fits a vector. -/
theorem Inv.length_fits (hinv : Inv hosts s)
    (hfit : sizeofSize + (hosts r.peer).address.length ≤ vectorMax) {buffer : List UInt8} {n : Nat}
    (hpc : (s.side r).pc = .readingLength buffer) (hn : n ≤ sizeofSize - buffer.length)
    (hfull : sizeofSize ≤ (buffer ++ (s.stream r.peer).inFlight.take n).length) :
    (hosts r).decodeLength (buffer ++ (s.stream r.peer).inFlight.take n) ≤ vectorMax := by
  have htook := hinv.took r
  simp only [Took, hpc] at htook
  have hexact : (buffer ++ (s.stream r.peer).inFlight.take n).length = sizeofSize := by
    rw [List.length_append, List.length_take] at hfull ⊢
    omega
  have hpre : (buffer ++ (s.stream r.peer).inFlight.take n) ++ [] <+:
      (s.stream r.peer).written := by
    rw [List.append_nil, ← htook.1, ← consumed_read]
    exact List.take_prefix ..
  have hsame := header_eq hexact hpre (hinv.wrote r.peer).comparable
  rw [hsame, decodeLength_store _ hfit]
  omega

/-- A side that throws although no call failed has found the stream too short. -/
theorem cutShort_of_thrown (hinv : Inv hosts s)
    (hfit : sizeofSize + (hosts r.peer).address.length ≤ vectorMax)
    (h : next hosts s a = some s') (hrole : a.role = some r) (hfail : ∀ errno, a ≠ .fail r errno)
    (hcreate : ∀ n e, a ≠ .read r n (.err e))
    (hlive : (s.side r).pc.finished = false) {e : Thrown} (hthrown : (s'.side r).pc = .thrown e) :
    CutShort hosts s' r := by
  cases next_cases h with
  | connected =>
    cases hrole
    rw [setSide_side_self] at hthrown
    cases r with
    | connector | acceptor => cases hthrown
  | wait =>
    cases hrole
    rw [setSide_side_self] at hthrown
    rw [show (s.side r).pc = .thrown e from hthrown] at hlive
    cases hlive
  | write =>
    cases hrole
    rw [write, setSide_side_self] at hthrown
    exact absurd hthrown ((sendLoop_pc _ _ _ _).2 e)
  | @read _ wanted n status hwanted hn =>
    cases hrole
    rcases hn with ⟨hle, hlen, -, hmore⟩
    rw [read, setSide_side_self] at hthrown
    rcases (received_pc _ _ { s.side r with waiting := false } _ _ hwanted).2 e hthrown
      with hzero | ⟨error, rfl⟩ | ⟨buffer, hpc, hfull, hbig⟩
    · -- no byte has come: the stream has ended
      rw [List.length_take, Nat.min_eq_left hlen] at hzero
      rcases hmore with hpos | ⟨hflight, hended⟩
      · exact absurd hpos (hzero ▸ Nat.lt_irrefl 0)
      · have hshort := hinv.short_of_ended hfit hwanted hflight
        have hstay := ended_step h hended
        exact ⟨hstay.1, hstay.2 ▸ hshort⟩
    · exact absurd rfl (hcreate n error)
    · have hreading : (s.side r).pc = .readingLength buffer := hpc
      rw [hreading] at hwanted
      obtain rfl := Option.some.inj hwanted
      exact absurd hbig (Nat.not_lt_of_le (hinv.length_fits hfit hreading hle hfull))
  | fail =>
    cases hrole
    exact absurd rfl (hfail _)
  | append | cut => cases hrole

end Ucxpp.AddressExchange
