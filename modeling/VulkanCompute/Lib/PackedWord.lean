import Mathlib.Data.BitVec

/-!
# Two fields in a word

A word `high ++ low` carries a field above `k` bits of another one.  The low
field is read by truncation (`setWidth_append_low`), the high field by a shift,
logical (`append_ushiftRight`) or arithmetic (`append_sshiftRight`), and stays
when the low field is written (`setWidth_ushiftRight`,
`signExtend_ushiftRight`).  The two parts make up the word
(`append_setWidth`).  A number that was truncated to its `n` low bits comes
back when it fits (`setWidth_setWidth_of_lt`, `signExtend_setWidth_of_mem`).
-/

namespace VulkanCompute.Lib

variable {n k : Nat}

theorem setWidth_append_low (high : BitVec n) (low : BitVec k) :
    (high ++ low).setWidth k = low := by
  apply BitVec.eq_of_getLsbD_eq
  intro i hi
  simp [BitVec.getLsbD_append, hi]

theorem append_ushiftRight (high : BitVec n) (low : BitVec k) :
    (high ++ low) >>> k = high.setWidth (n + k) := by
  apply BitVec.eq_of_getLsbD_eq
  intro i hi
  simp [BitVec.getLsbD_append, hi]

theorem append_sshiftRight (hn : 0 < n) (high : BitVec n) (low : BitVec k) :
    (high ++ low).sshiftRight k = high.signExtend (n + k) := by
  apply BitVec.eq_of_getLsbD_eq
  intro i hi
  rw [BitVec.getLsbD_sshiftRight, BitVec.getLsbD_signExtend, BitVec.msb_append,
    if_neg (Nat.pos_iff_ne_zero.mp hn)]
  by_cases hlt : i < n
  · have hnot : ¬k + i < k := by omega
    have hwithin : k + i < n + k := by omega
    simp only [BitVec.getLsbD_append, hi, hlt, hnot, hwithin, decide_true,
      if_true, Nat.add_sub_cancel_left]
    simp [hi]
  · have hge : ¬k + i < n + k := by omega
    simp [hi, hlt, hge]

/-- Writing the low field leaves the high one alone. -/
theorem setWidth_ushiftRight (x : BitVec (n + k)) :
    ((x >>> k).setWidth n).setWidth (n + k) = x >>> k := by
  apply BitVec.eq_of_getLsbD_eq
  intro i hi
  rw [BitVec.getLsbD_setWidth, BitVec.getLsbD_setWidth,
    BitVec.getLsbD_ushiftRight]
  by_cases hlt : i < n
  · simp [hi, hlt]
  · have hge : n + k ≤ k + i := by omega
    simp [BitVec.getLsbD_of_ge x _ hge]

theorem signExtend_ushiftRight (hn : 0 < n) (x : BitVec (n + k)) :
    ((x >>> k).setWidth n).signExtend (n + k) = x.sshiftRight k := by
  apply BitVec.eq_of_getLsbD_eq
  intro i hi
  have hmsb : ((x >>> k).setWidth n).msb = x.msb := by
    rw [BitVec.msb_eq_getLsbD_last, BitVec.msb_eq_getLsbD_last,
      BitVec.getLsbD_setWidth, BitVec.getLsbD_ushiftRight]
    have hlast : n - 1 < n := by omega
    have hindex : k + (n - 1) = n + k - 1 := by omega
    simp [hlast, hindex]
  rw [BitVec.getLsbD_signExtend, BitVec.getLsbD_sshiftRight, hmsb,
    BitVec.getLsbD_setWidth, BitVec.getLsbD_ushiftRight]
  have hin : ¬n + k ≤ i := by omega
  by_cases hlt : i < n
  · have hwithin : k + i < n + k := by omega
    simp [hi, hin, hlt, hwithin]
  · have hge : ¬k + i < n + k := by omega
    simp [hi, hin, hlt, hge]

/-- A word is its two parts. -/
theorem append_setWidth (x : BitVec (n + k)) :
    (x >>> k).setWidth n ++ x.setWidth k = x := by
  apply BitVec.eq_of_getLsbD_eq
  intro i hi
  rw [BitVec.getLsbD_append, BitVec.getLsbD_setWidth, BitVec.getLsbD_setWidth,
    BitVec.getLsbD_ushiftRight]
  by_cases hlow : i < k
  · simp [hlow]
  · have hwithin : i - k < n := by omega
    have hindex : k + (i - k) = i := by omega
    simp [hlow, hwithin, hindex]

/-- A number that needs at most `k` bits. -/
theorem setWidth_setWidth_of_lt {x : BitVec n} (h : x.toNat < 2 ^ k) :
    (x.setWidth k).setWidth n = x := by
  apply BitVec.eq_of_toNat_eq
  rw [BitVec.toNat_setWidth, BitVec.toNat_setWidth, Nat.mod_eq_of_lt h,
    Nat.mod_eq_of_lt x.isLt]

/-- A signed number that needs at most `k` bits. -/
theorem signExtend_setWidth_of_mem {x : BitVec n} (hkn : k ≤ n)
    (hlow : -2 ^ k ≤ x.toInt * 2) (hhigh : x.toInt * 2 < 2 ^ k) :
    (x.setWidth k).signExtend n = x := by
  apply BitVec.eq_of_toInt_eq
  have hdvd : (2 ^ k : Nat) ∣ 2 ^ n := Nat.pow_dvd_pow 2 hkn
  have hbmod : Int.bmod x.toNat (2 ^ k) = Int.bmod x.toInt (2 ^ k) := by
    rw [BitVec.toInt_eq_toNat_bmod, Int.bmod_bmod_of_dvd hdvd]
  rw [BitVec.toInt_signExtend_of_le hkn, BitVec.toInt_setWidth, hbmod]
  apply Int.bmod_eq_of_le_mul_two
  · exact_mod_cast hlow
  · exact_mod_cast hhigh

end VulkanCompute.Lib
