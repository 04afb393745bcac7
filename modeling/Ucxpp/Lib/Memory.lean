import Ucxpp.Lib.Bytes
import Mathlib.Logic.Function.Basic

/-!
# Memory — fixed-width numbers in a byte memory

A memory is a byte for each address. A number of `n` bytes is loaded from a
range of addresses and stored to one, in the byte order of the host:

* `load_store` — what has been stored is loaded again;
* `load_store_disjoint` — a store leaves the numbers of the other ranges;
* `load_congr` — a load depends on its own range only.
-/

/-- A byte for each address. -/
abbrev Memory := Nat → UInt8

namespace Memory

open Bytes (Endian)

variable {host : Endian} {m m' : Memory} {addr addr' n n' v a : Nat}

/-- The bytes of a range. -/
def range (m : Memory) (addr n : Nat) : List UInt8 :=
  (List.range n).map fun k => m (addr + k)

/-- The number in a range. -/
def load (host : Endian) (m : Memory) (addr n : Nat) : Nat :=
  Bytes.load host (m.range addr n)

/-- Store the number `v` in a range of `n` bytes. -/
def store (host : Endian) (m : Memory) (addr n v : Nat) : Memory := fun a =>
  if addr ≤ a ∧ a < addr + n then (Bytes.store host n v).getD (a - addr) 0 else m a

@[simp] theorem length_range : (m.range addr n).length = n := by
  rw [range, List.length_map, List.length_range]

theorem range_congr (h : ∀ k < n, m (addr + k) = m' (addr + k)) :
    m.range addr n = m'.range addr n := by
  apply List.map_congr_left
  intro k hk
  exact h k (List.mem_range.mp hk)

theorem load_congr (h : ∀ k < n, m (addr + k) = m' (addr + k)) :
    load host m addr n = load host m' addr n := by
  rw [load, load, range_congr h]

/-- A number of `n` bytes is below `256 ^ n`. -/
theorem load_lt (host : Endian) (m : Memory) (addr n : Nat) : load host m addr n < 256 ^ n := by
  have h := Bytes.load_lt host (m.range addr n)
  rwa [length_range] at h

theorem store_outside (h : a < addr ∨ addr + n ≤ a) : store host m addr n v a = m a := by
  apply if_neg
  omega

theorem range_store : (store host m addr n v).range addr n = Bytes.store host n v := by
  apply List.ext_getElem
  · rw [length_range, Bytes.length_store]
  · intro k hk hk'
    have hlt : k < n := by rwa [length_range] at hk
    have hin : addr ≤ addr + k ∧ addr + k < addr + n := by omega
    simp only [range, List.getElem_map, List.getElem_range, store, if_pos hin,
      Nat.add_sub_cancel_left]
    rw [List.getD_eq_getElem?_getD, List.getElem?_eq_getElem hk', Option.getD_some]

theorem load_store (h : v < 256 ^ n) : load host (store host m addr n v) addr n = v := by
  rw [load, range_store, Bytes.load_store host h]

theorem load_store_disjoint (h : addr' + n' ≤ addr ∨ addr + n ≤ addr') :
    load host (store host m addr n v) addr' n' = load host m addr' n' := by
  apply load_congr
  intro k hk
  apply store_outside
  omega

end Memory
