import Mathlib.Algebra.Order.Ring.Nat
import Mathlib.Tactic.Ring

/-!
# Bytes — fixed-width numbers in memory

A number of `w` bytes as a list of bytes, in either byte order:

* `ofNat`, `toNat` — least significant byte first;
* `store`, `load` — in the byte order of a host;
* `swap` — the number with its bytes reversed.
-/

namespace Bytes

/-- The `w` low bytes of `v`, least significant first. -/
def ofNat : Nat → Nat → List UInt8
  | 0, _ => []
  | w + 1, v => UInt8.ofNat v :: ofNat w (v / 256)

def toNat : List UInt8 → Nat
  | [] => 0
  | b :: bs => b.toNat + 256 * toNat bs

@[simp] theorem length_ofNat (w v : Nat) : (ofNat w v).length = w := by
  induction w generalizing v with
  | zero => rfl
  | succ w ih => rw [ofNat, List.length_cons, ih]

theorem toNat_ofNat {w v : Nat} (h : v < 256 ^ w) : toNat (ofNat w v) = v := by
  induction w generalizing v with
  | zero =>
    rw [Nat.pow_zero, Nat.lt_one_iff] at h
    rw [h]
    rfl
  | succ w ih =>
    have hdiv : v / 256 < 256 ^ w := by
      apply Nat.div_lt_of_lt_mul
      rwa [← Nat.pow_succ']
    rw [ofNat, toNat, ih hdiv, UInt8.toNat_ofNat']
    exact Nat.mod_add_div v 256

theorem ofNat_toNat (bs : List UInt8) : ofNat bs.length (toNat bs) = bs := by
  induction bs with
  | nil => rfl
  | cons b bs ih =>
    have hlt := b.toNat_lt
    have hdiv : (b.toNat + 256 * toNat bs) / 256 = toNat bs := by omega
    have hlow : UInt8.ofNat (b.toNat + 256 * toNat bs) = b := by
      apply UInt8.toNat_inj.mp
      rw [UInt8.toNat_ofNat']
      omega
    rw [List.length_cons, toNat, ofNat, hdiv, hlow, ih]

theorem toNat_lt (bs : List UInt8) : toNat bs < 256 ^ bs.length := by
  induction bs with
  | nil => exact Nat.one_pos
  | cons b bs ih =>
    have hlt := b.toNat_lt
    rw [toNat, List.length_cons, Nat.pow_succ]
    omega

/-! ## Byte orders -/

/-- The byte order of a host. -/
inductive Endian where
  | little
  | big
deriving DecidableEq, Repr

/-- The `w` bytes that a host has in memory for `v`. -/
def store (host : Endian) (w v : Nat) : List UInt8 :=
  match host with
  | .little => ofNat w v
  | .big => (ofNat w v).reverse

/-- The number that a host reads from memory. -/
def load (host : Endian) (bs : List UInt8) : Nat :=
  match host with
  | .little => toNat bs
  | .big => toNat bs.reverse

@[simp] theorem length_store (host : Endian) (w v : Nat) : (store host w v).length = w := by
  cases host with
  | little => exact length_ofNat w v
  | big => exact (List.length_reverse ..).trans (length_ofNat w v)

theorem load_store (host : Endian) {w v : Nat} (h : v < 256 ^ w) :
    load host (store host w v) = v := by
  cases host with
  | little => exact toNat_ofNat h
  | big =>
    rw [load, store, List.reverse_reverse]
    exact toNat_ofNat h

theorem load_lt (host : Endian) (bs : List UInt8) : load host bs < 256 ^ bs.length := by
  cases host with
  | little => exact toNat_lt bs
  | big =>
    have h := toNat_lt bs.reverse
    rwa [List.length_reverse] at h

/-- The number whose bytes are those of `v` in reverse. -/
def swap (w v : Nat) : Nat :=
  toNat (ofNat w v).reverse

/-- What a little-endian host has in memory for the swapped number is what a
big-endian host has for the number. -/
theorem store_little_swap (w v : Nat) : store .little w (swap w v) = store .big w v := by
  have hlen : (ofNat w v).reverse.length = w := (List.length_reverse ..).trans (length_ofNat w v)
  have hround := ofNat_toNat (ofNat w v).reverse
  rw [hlen] at hround
  exact hround

theorem swap_load_little (bs : List UInt8) : swap bs.length (load .little bs) = load .big bs := by
  rw [swap, load, ofNat_toNat]
  rfl

end Bytes
