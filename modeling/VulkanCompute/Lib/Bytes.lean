import Mathlib.Algebra.BigOperators.Group.Finset.Basic
import Mathlib.Data.Nat.ModEq

/-!
# Words in a byte memory

Little-endian 64-bit words in a memory of bytes.  `loadWord_storeWord` is the
round trip, `storeWord_of_outside` says what a store leaves alone, and
`loadWord_congr` what a load depends on.
-/

namespace VulkanCompute.Lib

open Finset

/-- A byte memory. -/
abbrev Bytes := Nat → UInt8

/-- The bytes of `v`, the least significant one at `a`. -/
def storeWord (m : Bytes) (a : Nat) (v : UInt64) : Bytes :=
  fun x =>
    if a ≤ x ∧ x < a + 8 then UInt8.ofNat (v.toNat / 256 ^ (x - a)) else m x

def loadWord (m : Bytes) (a : Nat) : UInt64 :=
  UInt64.ofNat (∑ k ∈ range 8, (m (a + k)).toNat * 256 ^ k)

theorem storeWord_of_outside {m : Bytes} {a x : Nat} {v : UInt64}
    (h : x < a ∨ a + 8 ≤ x) : storeWord m a v x = m x := by
  unfold storeWord
  rw [if_neg]
  omega

theorem loadWord_congr {m m' : Bytes} {a : Nat}
    (h : ∀ x, a ≤ x → x < a + 8 → m x = m' x) :
    loadWord m a = loadWord m' a := by
  unfold loadWord
  apply congrArg
  apply sum_congr rfl
  intro k hk
  have hk8 := mem_range.mp hk
  rw [h (a + k) (by omega) (by omega)]

/-- The low digits of a number make up its remainder. -/
theorem sum_digits (n count : Nat) :
    ∑ k ∈ range count, n / 256 ^ k % 256 * 256 ^ k = n % 256 ^ count := by
  induction count with
  | zero => rw [sum_range_zero, Nat.pow_zero, Nat.mod_one]
  | succ count ih =>
    rw [sum_range_succ, ih, Nat.mod_pow_succ, Nat.mul_comm (256 ^ count)]

theorem loadWord_storeWord (m : Bytes) (a : Nat) (v : UInt64) :
    loadWord (storeWord m a v) a = v := by
  have hbytes : ∀ k ∈ range 8,
      (storeWord m a v (a + k)).toNat * 256 ^ k =
        v.toNat / 256 ^ k % 256 * 256 ^ k := by
    intro k hk
    have hk8 := mem_range.mp hk
    unfold storeWord
    rw [if_pos (by omega), Nat.add_sub_cancel_left, UInt8.toNat_ofNat']
  have hlt : v.toNat < 256 ^ 8 := v.toNat_lt
  unfold loadWord
  rw [sum_congr rfl hbytes, sum_digits, Nat.mod_eq_of_lt hlt,
    UInt64.ofNat_toNat]

end VulkanCompute.Lib
