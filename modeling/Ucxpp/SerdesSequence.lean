import Ucxpp.Serdes

/-!
# SerdesSequence — several values through one iterator

`serialize` and `deserialize` of serdes.h called on the values of a list one
after another, with one iterator variable: a `back_insert_iterator`, or a
pointer or vector iterator into a buffer.
-/

namespace Ucxpp

open Bytes

/-! ## Values -/

/-- The types that `hton` and `ntoh` are overloaded for. -/
inductive Width where
  | uint16
  | uint32
  | uint64
deriving DecidableEq, Repr

/-- `sizeof(T)`. -/
def Width.size : Width → Nat
  | .uint16 => 2
  | .uint32 => 4
  | .uint64 => 8

structure Field where
  width : Width
  value : Nat
  value_lt : value < 256 ^ width.size

/-- The big-endian bytes of the values, concatenated. -/
def encode (fields : List Field) : List UInt8 :=
  fields.flatMap fun f => store .big f.width.size f.value

/-! ## Output iterators -/

/-- An output iterator: a pointer and a vector iterator are the index they point to. -/
inductive OutIt where
  | backInsert
  | pointer (pos : Nat)
deriving DecidableEq, Repr

namespace OutIt

/-- `*it++ = byte`. -/
def put (it : OutIt) (byte : UInt8) (buffer : List UInt8) : OutIt × List UInt8 :=
  match it with
  | .backInsert => (.backInsert, buffer ++ [byte])
  | .pointer pos => (.pointer (pos + 1), buffer.set pos byte)

/-- The index in the buffer of the next byte written. -/
def start (it : OutIt) (buffer : List UInt8) : Nat :=
  match it with
  | .backInsert => buffer.length
  | .pointer pos => pos

/-- The buffer is large enough for `n` more bytes. -/
def Room (it : OutIt) (n : Nat) (buffer : List UInt8) : Prop :=
  match it with
  | .backInsert => True
  | .pointer pos => pos + n ≤ buffer.length

end OutIt

/-- `std::copy_n`, which takes the iterator by value and returns it advanced. -/
def copyN : List UInt8 → OutIt → List UInt8 → OutIt × List UInt8
  | [], it, buffer => (it, buffer)
  | byte :: bytes, it, buffer => copyN bytes (it.put byte buffer).1 (it.put byte buffer).2

/-- `serialize` through any iterator: the iterator variable afterwards, and the
buffer. -/
def serializeTo (host : Endian) (size value : Nat) (it : OutIt) (buffer : List UInt8) :
    OutIt × List UInt8 :=
  -- what `copy_n` returns is not assigned to `it`
  (it, (copyN (store host size (hton host size value)) it buffer).2)

/-- `serialize` on one value after another. -/
def serializeAll (host : Endian) : List Field → OutIt → List UInt8 → OutIt × List UInt8
  | [], it, buffer => (it, buffer)
  | f :: fields, it, buffer =>
    let r := serializeTo host f.width.size f.value it buffer
    serializeAll host fields r.1 r.2

/-- `deserialize` into one variable after another. -/
def deserializeAll (host : Endian) : List Width → List UInt8 → List Nat × List UInt8
  | [], it => ([], it)
  | w :: widths, it =>
    let r := deserialize host w.size it
    let s := deserializeAll host widths r.2
    (r.1 :: s.1, s.2)

/-! ## What is written -/

/-- The buffer with `bytes` at index `start` and behind it. -/
def overwrite (start : Nat) (bytes buffer : List UInt8) : List UInt8 :=
  buffer.take start ++ bytes ++ buffer.drop (start + bytes.length)

theorem overwrite_nil (start : Nat) (buffer : List UInt8) : overwrite start [] buffer = buffer := by
  rw [overwrite, List.append_nil, List.length_nil, Nat.add_zero, List.take_append_drop]

theorem overwrite_length (bytes buffer : List UInt8) :
    overwrite buffer.length bytes buffer = buffer ++ bytes := by
  rw [overwrite, List.take_length, List.drop_of_length_le (Nat.le_add_right ..), List.append_nil]

theorem overwrite_set {start : Nat} {buffer : List UInt8} (byte : UInt8) (bytes : List UInt8)
    (h : start < buffer.length) :
    overwrite (start + 1) bytes (buffer.set start byte) =
      overwrite start (byte :: bytes) buffer := by
  have htake : (buffer.set start byte).take (start + 1) = buffer.take start ++ [byte] := by
    rw [List.take_add_one, List.take_set_of_le (Nat.le_refl _), List.getElem?_set_self h]
    rfl
  have hdrop : (buffer.set start byte).drop (start + 1 + bytes.length) =
      buffer.drop (start + (byte :: bytes).length) := by
    rw [List.drop_set_of_lt (by omega), List.length_cons, Nat.add_assoc, Nat.add_comm 1]
  rw [overwrite, htake, hdrop, overwrite, List.append_assoc, List.append_assoc, List.append_assoc]
  rfl

theorem drop_overwrite {start : Nat} {bytes buffer : List UInt8} (h : start ≤ buffer.length) :
    (overwrite start bytes buffer).drop start =
      bytes ++ (overwrite start bytes buffer).drop (start + bytes.length) := by
  have htake : (buffer.take start).length = start := List.length_take_of_le h
  have hbytes : (buffer.take start ++ bytes).length = start + bytes.length := by
    rw [List.length_append, htake]
  rw [overwrite, List.drop_left' hbytes, List.append_assoc, List.drop_left' htake]

theorem overwrite_getElem? {start i : Nat} {bytes buffer : List UInt8}
    (hstart : start ≤ buffer.length) (hi : i < bytes.length) :
    (overwrite start bytes buffer)[start + i]? = bytes[i]? := by
  have htake : (buffer.take start).length = start := List.length_take_of_le hstart
  rw [overwrite, List.append_assoc, List.getElem?_append_right (by omega), htake,
    Nat.add_sub_cancel_left, List.getElem?_append_left hi]

theorem copyN_backInsert (bytes buffer : List UInt8) :
    (copyN bytes .backInsert buffer).2 = buffer ++ bytes := by
  induction bytes generalizing buffer with
  | nil => exact (List.append_nil buffer).symm
  | cons byte bytes ih =>
    rw [copyN, OutIt.put, ih, List.append_assoc]
    rfl

theorem copyN_pointer {pos : Nat} {bytes buffer : List UInt8}
    (h : pos + bytes.length ≤ buffer.length) :
    (copyN bytes (.pointer pos) buffer).2 = overwrite pos bytes buffer := by
  induction bytes generalizing pos buffer with
  | nil => exact (overwrite_nil pos buffer).symm
  | cons byte bytes ih =>
    rw [List.length_cons] at h
    have hroom : pos + 1 + bytes.length ≤ (buffer.set pos byte).length := by
      rw [List.length_set]
      omega
    rw [copyN, OutIt.put, ih hroom]
    apply overwrite_set
    omega

theorem copyN_eq {it : OutIt} {bytes buffer : List UInt8} (h : it.Room bytes.length buffer) :
    (copyN bytes it buffer).2 = overwrite (it.start buffer) bytes buffer := by
  cases it with
  | backInsert => rw [copyN_backInsert, OutIt.start, overwrite_length]
  | pointer pos => exact copyN_pointer h

/-- `copy_n` to a pointer leaves what is behind the bytes alone. -/
theorem copyN_getElem? {pos i : Nat} {bytes : List UInt8} (buffer : List UInt8)
    (h : pos + bytes.length ≤ i) :
    (copyN bytes (.pointer pos) buffer).2[i]? = buffer[i]? := by
  induction bytes generalizing pos buffer with
  | nil => rfl
  | cons byte bytes ih =>
    rw [List.length_cons] at h
    rw [copyN, OutIt.put, ih _ (by omega)]
    apply List.getElem?_set_ne
    omega

@[simp] theorem serializeTo_it (host : Endian) (size value : Nat) (it : OutIt)
    (buffer : List UInt8) : (serializeTo host size value it buffer).1 = it := rfl

theorem serializeTo_eq (host : Endian) {size value : Nat} {it : OutIt} {buffer : List UInt8}
    (h : it.Room size buffer) :
    (serializeTo host size value it buffer).2 =
      overwrite (it.start buffer) (store .big size value) buffer := by
  rw [serializeTo, store_hton]
  apply copyN_eq
  rwa [length_store]

/-- A `back_insert_iterator` writes behind what is there, however often it is
copied. -/
theorem serializeAll_backInsert (host : Endian) (fields : List Field) (buffer : List UInt8) :
    (serializeAll host fields .backInsert buffer).2 = buffer ++ encode fields := by
  induction fields generalizing buffer with
  | nil => exact (List.append_nil buffer).symm
  | cons f fields ih =>
    have hroom : OutIt.backInsert.Room f.width.size buffer := trivial
    have hone : (serializeTo host f.width.size f.value .backInsert buffer).2 =
        buffer ++ store .big f.width.size f.value := by
      rw [serializeTo_eq host hroom, OutIt.start, overwrite_length]
    rw [serializeAll, serializeTo_it, ih, hone, List.append_assoc]
    rfl

/-- Through a pointer every value is written at the same place: what is behind
the widest of them is never touched. -/
theorem serializeAll_getElem? (host : Endian) {fields : List Field} {pos i : Nat}
    (buffer : List UInt8) (h : ∀ f ∈ fields, pos + f.width.size ≤ i) :
    (serializeAll host fields (.pointer pos) buffer).2[i]? = buffer[i]? := by
  induction fields generalizing buffer with
  | nil => rfl
  | cons f fields ih =>
    have hlen : pos + (store host f.width.size (hton host f.width.size f.value)).length ≤ i := by
      rw [length_store]
      exact h f List.mem_cons_self
    rw [serializeAll, serializeTo_it, ih _ fun g hg => h g (List.mem_cons_of_mem f hg)]
    exact copyN_getElem? buffer hlen

/-! ## What is read back -/

theorem deserializeAll_encode (host : Endian) (fields : List Field) (rest : List UInt8) :
    deserializeAll host (fields.map Field.width) (encode fields ++ rest) =
      (fields.map Field.value, rest) := by
  induction fields with
  | nil => rfl
  | cons f fields ih =>
    have hbytes : encode (f :: fields) ++ rest =
        store .big f.width.size f.value ++ (encode fields ++ rest) := List.append_assoc ..
    rw [hbytes, List.map_cons, deserializeAll, deserialize_store host f.value_lt]
    simp only [ih, List.map_cons]

/-! ## The round trip -/

/-- What is to be in the buffer after `serialize` on one value after another, and
what `deserialize` from the start of it is to give. -/
structure RoundTrips (writer reader : Endian) (it : OutIt) (fields : List Field)
    (buffer : List UInt8) : Prop where
  bytes : (serializeAll writer fields it buffer).2 =
    overwrite (it.start buffer) (encode fields) buffer
  /-- The values, and the iterator exactly behind them. -/
  values : deserializeAll reader (fields.map Field.width)
      ((serializeAll writer fields it buffer).2.drop (it.start buffer)) =
    (fields.map Field.value,
      (serializeAll writer fields it buffer).2.drop (it.start buffer + (encode fields).length))

theorem OutIt.Room.start_le {it : OutIt} {n : Nat} {buffer : List UInt8} (h : it.Room n buffer) :
    it.start buffer ≤ buffer.length := by
  cases it with
  | backInsert => exact Nat.le_refl _
  | pointer pos => exact Nat.le_of_add_right_le h

/-- Once the bytes are right, reading them is. -/
theorem RoundTrips.of_bytes {writer reader : Endian} {it : OutIt} {fields : List Field}
    {buffer : List UInt8} (hroom : it.Room (encode fields).length buffer)
    (hbytes : (serializeAll writer fields it buffer).2 =
      overwrite (it.start buffer) (encode fields) buffer) :
    RoundTrips writer reader it fields buffer := by
  constructor
  · exact hbytes
  · rw [hbytes, drop_overwrite hroom.start_le, deserializeAll_encode]

theorem two_le_size (w : Width) : 2 ≤ w.size := by
  cases w <;> decide

theorem length_encode_cons (f : Field) (fields : List Field) :
    (encode (f :: fields)).length = f.width.size + (encode fields).length := by
  rw [encode, List.flatMap_cons, List.length_append, length_store]
  rfl

theorem size_le_length_encode {f : Field} {fields : List Field} (h : f ∈ fields) :
    f.width.size ≤ (encode fields).length := by
  induction fields with
  | nil => cases h
  | cons g fields ih =>
    rw [length_encode_cons]
    cases h with
    | head => omega
    | tail _ h =>
      have := ih h
      omega

/-- With a second value behind it or before it, no value reaches the last byte. -/
theorem size_lt_length_encode {f : Field} {fields : List Field} (h : f ∈ fields)
    (htwo : 2 ≤ fields.length) : f.width.size < (encode fields).length := by
  rcases fields with _ | ⟨g, _ | ⟨g', fields⟩⟩
  · cases h
  · rw [List.length_singleton] at htwo
    omega
  · rw [length_encode_cons]
    have hg := two_le_size g.width
    cases h with
    | head =>
      have hg' := two_le_size g'.width
      have : g'.width.size ≤ (encode (g' :: fields)).length :=
        size_le_length_encode List.mem_cons_self
      omega
    | tail _ h =>
      have := size_le_length_encode h
      omega

theorem ne_add_one (b : UInt8) : b ≠ b + 1 := by
  intro heq
  have hnat : b.toNat = (b.toNat + 1) % 256 := congrArg UInt8.toNat heq
  omega

/-- The byte where the last one belongs stays whatever it was. -/
theorem not_roundTrips_pointer (writer reader : Endian) (pos : Nat) {fields : List Field}
    (htwo : 2 ≤ fields.length) :
    ∃ buffer : List UInt8, (OutIt.pointer pos).Room (encode fields).length buffer ∧
      ¬RoundTrips writer reader (.pointer pos) fields buffer := by
  have hne : encode fields ≠ [] := by
    intro hnil
    rcases fields with _ | ⟨f, fields⟩
    · cases htwo
    · have hlt := size_lt_length_encode List.mem_cons_self htwo
      rw [hnil] at hlt
      cases hlt
  have hpos := List.length_pos_iff.mpr hne
  let last := (encode fields).getLast hne
  let buffer := List.replicate (pos + (encode fields).length) (last + 1)
  have hroom : pos + (encode fields).length = buffer.length := (List.length_replicate ..).symm
  refine ⟨buffer, Nat.le_of_eq hroom, ?_⟩
  intro h
  -- the last byte as `serialize` leaves it, and as it is to be
  have hkept : (serializeAll writer fields (.pointer pos) buffer).2[
      pos + ((encode fields).length - 1)]? = some (last + 1) := by
    rw [serializeAll_getElem?]
    · apply List.getElem?_replicate_of_lt
      omega
    · intro f hf
      have := size_lt_length_encode hf htwo
      omega
  have hwritten : (overwrite pos (encode fields) buffer)[
      pos + ((encode fields).length - 1)]? = some last := by
    rw [overwrite_getElem? (by omega) (by omega), ← List.getLast?_eq_getElem?,
      List.getLast?_eq_some_getLast hne]
  rw [h.bytes, OutIt.start, hwritten] at hkept
  exact ne_add_one last (Option.some.inj hkept)

/-- A list comes back from every large enough buffer exactly when the iterator
appends or there is nothing to write behind the first value. -/
theorem serialize_sequence (writer reader : Endian) (it : OutIt) (fields : List Field) :
    (∀ buffer, it.Room (encode fields).length buffer →
        RoundTrips writer reader it fields buffer) ↔
      it = .backInsert ∨ fields.length ≤ 1 := by
  constructor
  · intro h
    by_cases hle : fields.length ≤ 1
    · exact .inr hle
    · cases it with
      | backInsert => exact .inl rfl
      | pointer pos =>
        have htwo : 2 ≤ fields.length := by omega
        rcases not_roundTrips_pointer writer reader pos htwo with ⟨buffer, hroom, hnot⟩
        exact absurd (h buffer hroom) hnot
  · rintro (rfl | hle) buffer hroom
    · apply RoundTrips.of_bytes hroom
      rw [serializeAll_backInsert, OutIt.start, overwrite_length]
    · apply RoundTrips.of_bytes hroom
      rcases fields with _ | ⟨f, _ | ⟨g, fields⟩⟩
      · exact (overwrite_nil _ buffer).symm
      · have hroom' : it.Room f.width.size buffer := by
          rwa [length_encode_cons] at hroom
        have henc : encode [f] = store .big f.width.size f.value := List.append_nil _
        rw [henc]
        exact serializeTo_eq writer hroom'
      · rw [List.length_cons, List.length_cons] at hle
        omega

/-- Two 16-bit values through a pointer to four bytes: the second is written onto
the first. -/
theorem pointer_overwrites :
    serializeAll .little [⟨.uint16, 1, by decide⟩, ⟨.uint16, 2, by decide⟩] (.pointer 0)
        [0, 0, 0, 0] = (.pointer 0, [0, 2, 0, 0]) ∧
      ¬RoundTrips .little .little (.pointer 0)
        [⟨.uint16, 1, by decide⟩, ⟨.uint16, 2, by decide⟩] [0, 0, 0, 0] := by
  refine ⟨by decide, ?_⟩
  rintro ⟨hbytes, -⟩
  revert hbytes
  decide

end Ucxpp
