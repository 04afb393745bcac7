import Ucxpp.Lib.Bytes

/-!
# Serdes — serdes.h and the messages made with it

`hton`, `ntoh`, `serialize` and `deserialize` of serdes.h for a host of either
byte order, and `local_address::serialize`: the length of the address in
network byte order, then the address. Values are natural numbers below
`256 ^ size`, where `size` is `sizeof(T)`.
-/

namespace Ucxpp

open Bytes

/-- `hton`: `htobe16`, `htobe32` and `htobe64`, which swap the bytes on a
little-endian host. -/
def hton (host : Endian) (size value : Nat) : Nat :=
  match host with
  | .little => swap size value
  | .big => value

/-- `ntoh`: `be16toh`, `be32toh` and `be64toh`. -/
def ntoh (host : Endian) (size value : Nat) : Nat :=
  match host with
  | .little => swap size value
  | .big => value

/-- `serialize` through a `back_inserter` of `buffer`. -/
def serialize (host : Endian) (size value : Nat) (buffer : List UInt8) : List UInt8 :=
  buffer ++ store host size (hton host size value)

/-- `deserialize`: the value, and what the iterator points to afterwards. -/
def deserialize (host : Endian) (size : Nat) (it : List UInt8) : Nat × List UInt8 :=
  (ntoh host size (load host (it.take size)), it.drop size)

/-- Whatever the host, network byte order is big-endian. -/
theorem store_hton (host : Endian) (size value : Nat) :
    store host size (hton host size value) = store .big size value := by
  cases host with
  | little => exact store_little_swap size value
  | big => rfl

theorem ntoh_load (host : Endian) {size : Nat} {bs : List UInt8} (h : bs.length = size) :
    ntoh host size (load host bs) = load .big bs := by
  cases host with
  | little =>
    rw [ntoh, ← h]
    exact swap_load_little bs
  | big => rfl

/-- What one host serialises, any other host reads, and nothing behind it. -/
theorem deserialize_store (host : Endian) {size value : Nat} (h : value < 256 ^ size)
    (rest : List UInt8) :
    deserialize host size (store .big size value ++ rest) = (value, rest) := by
  have htake : (store .big size value ++ rest).take size = store .big size value := by
    apply List.take_left'
    exact length_store ..
  have hdrop : (store .big size value ++ rest).drop size = rest := by
    apply List.drop_left'
    exact length_store ..
  rw [deserialize, htake, hdrop, ntoh_load host (length_store ..), load_store .big h]

/-! ## Addresses -/

/-- `sizeof(size_t)`. -/
def sizeofSize : Nat := 8

/-- The largest `std::vector<char>`, `PTRDIFF_MAX` bytes. -/
def vectorMax : Nat := 2 ^ 63 - 1

/-- `local_address::serialize` of an address with the bytes `address`. -/
def serializeAddress (host : Endian) (address : List UInt8) : List UInt8 :=
  serialize host sizeofSize address.length [] ++ address

theorem serializeAddress_eq (host : Endian) (address : List UInt8) :
    serializeAddress host address = store .big sizeofSize address.length ++ address := by
  rw [serializeAddress, serialize, store_hton, List.nil_append]

@[simp] theorem length_serializeAddress (host : Endian) (address : List UInt8) :
    (serializeAddress host address).length = sizeofSize + address.length := by
  rw [serializeAddress_eq, List.length_append, length_store]

end Ucxpp
