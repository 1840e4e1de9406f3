import LinuxZero.Lib.ByteMemory
import Mathlib.Order.Nat

/-! # Numbers in network order

A little-endian machine loads a field of a packet with its bytes in the other order, and swaps them: the result is
the number that the packet has.
-/

namespace LinuxZero

/-- The number in two bytes, the higher one first. -/
def Memory.be16 (m : Memory) (off : ℕ) : ℕ := 256 * (m off).toNat + (m (off + 1)).toNat

/-- What `*(uint16_t *)` loads. -/
def Memory.load16 (m : Memory) (off : ℕ) : UInt16 := UInt16.ofNat (m.le16 off)

def swap16 (x : UInt16) : UInt16 := ((x &&& 0xFF00) >>> 8) ||| ((x &&& 0x00FF) <<< 8)

def swap32 (x : UInt32) : UInt32 :=
  ((x &&& 0xFF000000) >>> 24) ||| ((x &&& 0x00FF0000) >>> 8) ||| ((x &&& 0x0000FF00) <<< 8) |||
    ((x &&& 0x000000FF) <<< 24)

theorem toNat_swap16 (x : UInt16) : (swap16 x).toNat = x.toNat / 256 + 256 * (x.toNat % 256) := by
  have bound := x.toNat_lt
  have high : ((x &&& 0xFF00) >>> 8).toNat = x.toNat / 256 := by
    rw [UInt16.toNat_shiftRight, UInt16.toNat_and]
    change (x.toNat &&& (255 <<< 8)) >>> 8 = x.toNat / 256
    rw [Nat.shiftRight_and_distrib, Nat.shiftLeft_shiftRight, Nat.and_two_pow_sub_one_eq_mod _ 8,
      Nat.shiftRight_eq_div_pow]
    omega
  have low : ((x &&& 0x00FF) <<< 8).toNat = 2 ^ 8 * (x.toNat % 256) := by
    rw [UInt16.toNat_shiftLeft, UInt16.toNat_and]
    change ((x.toNat &&& (2 ^ 8 - 1)) <<< 8) % 2 ^ 16 = 2 ^ 8 * (x.toNat % 256)
    rw [Nat.and_two_pow_sub_one_eq_mod, Nat.shiftLeft_eq]
    omega
  rw [swap16, UInt16.toNat_or, high, low, Nat.or_comm, ← Nat.two_pow_add_eq_or_of_lt (by omega)]
  omega

/-- A swapped load is the number in network order. -/
theorem toNat_swap16_load16 (m : Memory) (off : ℕ) : (swap16 (m.load16 off)).toNat = m.be16 off := by
  have first := (m off).toNat_lt
  have second := (m (off + 1)).toNat_lt
  rw [toNat_swap16, Memory.load16, UInt16.toNat_ofNat', Memory.le16, Memory.be16]
  omega

end LinuxZero
