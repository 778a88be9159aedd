import Mathlib.Algebra.Order.BigOperators.Group.List
import Mathlib.Algebra.Order.Field.Rat
import Mathlib.Algebra.Order.Field.Basic
import Mathlib.Tactic.NormNum
import VulkanCompute.Lib.FixedWidth
import VulkanCompute.Profiler.Value

/-!
# The statistics of the window

`WindowedAverage`, `WindowedMin` and `WindowedMax` of `Profiler/Value.h`, for
a `TPerfValue` of fixed-width integers.  The average adds the samples up in
the type itself, which wraps; the quotient is taken as the exact rational
number, before it becomes an `f32`.

The extremes are those of the window whatever it holds (`windowedMin_isLeast`,
`windowedMax_isGreatest`).  The sum is that of the window, and the average
lies between the extremes, exactly when the sum fits the type
(`consistent_iff`).
-/

namespace VulkanCompute.Profiler.TPerfValue

open Lib

variable {T : IntType}

/-- `T sum = 0.f; for (auto value : Values) sum += value;`. -/
def windowedSum (p : TPerfValue T.Word) : T.Word :=
  p.values.foldl (fun sum value => sum + value) 0

/-- `WindowedAverage`, before the conversion to `f32`. -/
def windowedAverage (p : TPerfValue T.Word) : ℚ :=
  T.value p.windowedSum / p.values.length

/-- `WindowedMin`. -/
def windowedMin (p : TPerfValue T.Word) : T.Word :=
  p.values.foldl (fun min value => T.min value min) (T.ofInt T.maxValue)

/-- `WindowedMax`. -/
def windowedMax (p : TPerfValue T.Word) : T.Word :=
  p.values.foldl (fun max value => T.max value max) (T.ofInt T.minValue)

/-- The integers in the window. -/
def samples (p : TPerfValue T.Word) : List Int := p.values.map T.value

/-! ## The extremes -/

theorem windowedMin_isLeast {p : TPerfValue T.Word} (hne : p.values ≠ []) :
    IsLeast {n | n ∈ p.samples} (T.value p.windowedMin) :=
  T.isLeast_foldl_min hne

theorem windowedMax_isGreatest {p : TPerfValue T.Word}
    (hne : p.values ≠ []) :
    IsGreatest {n | n ∈ p.samples} (T.value p.windowedMax) :=
  T.isGreatest_foldl_max hne

/-! ## The average -/

/-- The mean of a list lies between its bounds. -/
theorem mean_mem_range {l : List Int} (hne : l ≠ []) {low high : Int}
    (hlow : ∀ n ∈ l, low ≤ n) (hhigh : ∀ n ∈ l, n ≤ high) :
    (low : ℚ) ≤ (l.sum : ℚ) / l.length ∧ (l.sum : ℚ) / l.length ≤ high := by
  have hlength : (0 : ℚ) < l.length := by
    exact_mod_cast List.length_pos_iff.mpr hne
  have hle := List.card_nsmul_le_sum l low hlow
  have hge := List.sum_le_card_nsmul l high hhigh
  rw [nsmul_eq_mul] at hle hge
  constructor
  · rw [le_div_iff₀ hlength, mul_comm]
    exact_mod_cast hle
  · rw [div_le_iff₀ hlength, mul_comm]
    exact_mod_cast hge

/-- The sum is exact when it fits the type. -/
theorem windowedSum_eq_iff (p : TPerfValue T.Word) :
    T.value p.windowedSum = p.samples.sum ↔
      T.minValue ≤ p.samples.sum ∧ p.samples.sum ≤ T.maxValue :=
  T.value_sum_eq_iff p.values

/-- What the three statistics of a window promise together. -/
structure Consistent (p : TPerfValue T.Word) : Prop where
  sum : T.value p.windowedSum = p.samples.sum
  min_le : (T.value p.windowedMin : ℚ) ≤ p.windowedAverage
  le_max : p.windowedAverage ≤ (T.value p.windowedMax : ℚ)
  least : IsLeast {n | n ∈ p.samples} (T.value p.windowedMin)
  greatest : IsGreatest {n | n ∈ p.samples} (T.value p.windowedMax)

/-- The statistics of a window are consistent exactly when its sum fits the
element type. -/
theorem consistent_iff {p : TPerfValue T.Word} (hne : p.values ≠ []) :
    p.Consistent ↔
      T.minValue ≤ p.samples.sum ∧ p.samples.sum ≤ T.maxValue := by
  rw [← windowedSum_eq_iff]
  refine ⟨fun h => h.sum, fun hsum => ?_⟩
  have hleast := windowedMin_isLeast hne
  have hgreatest := windowedMax_isGreatest hne
  have hsamples : p.samples ≠ [] := by
    simpa [samples] using hne
  have hmean := mean_mem_range hsamples (fun n hn => hleast.2 hn)
    (fun n hn => hgreatest.2 hn)
  have haverage : p.windowedAverage = (p.samples.sum : ℚ) / p.samples.length := by
    rw [windowedAverage, hsum, samples, List.length_map]
  rw [← haverage] at hmean
  exact ⟨hsum, hmean.1, hmean.2, hleast, hgreatest⟩

/-- `int8_t`. -/
def i8 : IntType := ⟨true, 8, by decide⟩

/-- Two samples that fit. -/
theorem consistent_hundred_twenty :
    ∃ p : TPerfValue i8.Word, run [.push 100, .push 20] {} = some p ∧
      p.Consistent :=
  ⟨{ values := [100, 20] }, by decide,
    (consistent_iff (by decide)).mpr (by decide)⟩

/-- The sum of 100 and 100 wraps to -56, below both samples. -/
theorem average_below_min :
    ∃ p : TPerfValue i8.Word, run [.push 100, .push 100] {} = some p ∧
      i8.value p.windowedSum = -56 ∧
      p.windowedAverage < i8.value p.windowedMin ∧ ¬p.Consistent := by
  let p : TPerfValue i8.Word := { values := [100, 100] }
  have hsum : i8.value p.windowedSum = -56 := by decide
  have hmin : i8.value p.windowedMin = 100 := by decide
  have hlength : p.values.length = 2 := rfl
  refine ⟨p, by decide, hsum, ?_, fun h => ?_⟩
  · rw [windowedAverage, hsum, hmin, hlength]
    norm_num
  · have hexact := h.sum
    rw [hsum] at hexact
    exact absurd hexact (by decide)

end VulkanCompute.Profiler.TPerfValue
