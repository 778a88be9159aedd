import Mathlib.Algebra.BigOperators.Group.List.Basic
import Mathlib.Data.BitVec
import Mathlib.Order.Bounds.Basic
import Mathlib.Tactic.Linarith

/-!
# Fixed-width integers

An `IntType` is an integer type of a given width, signed or unsigned.  Its
values are words, `value` reads a word as an integer and `ofInt` wraps an
integer to a word.

* Every word has its value between `minValue` and `maxValue`
  (`value_mem_range`), and an integer survives the wrapping exactly when it
  lies there (`value_ofInt_eq_iff`).
* A sum in words is the wrapped sum of the values (`sum_words`).  It is the
  exact sum when that fits the type, whatever the partial sums did
  (`value_sum_eq_iff`).
* A minimum that starts from the greatest value, and a maximum that starts
  from the least, are those of the list (`isLeast_foldl_min`,
  `isGreatest_foldl_max`).
-/

namespace VulkanCompute.Lib

structure IntType where
  signed : Bool
  width : Nat
  width_pos : 0 < width

namespace IntType

/-- The words of the type. -/
abbrev Word (T : IntType) := BitVec T.width

/-- The integer that a word stands for. -/
def value (T : IntType) (x : T.Word) : Int :=
  if T.signed then x.toInt else x.toNat

def minValue (T : IntType) : Int :=
  if T.signed then -2 ^ (T.width - 1) else 0

def maxValue (T : IntType) : Int :=
  if T.signed then 2 ^ (T.width - 1) - 1 else 2 ^ T.width - 1

/-- The word of an integer, modulo `2 ^ width`. -/
def ofInt (T : IntType) (n : Int) : T.Word := BitVec.ofInt T.width n

variable (T : IntType)

/-! ## Words and integers -/

/-- The two halves of a signed type. -/
theorem two_pow_width : (2 : Int) ^ T.width = 2 * 2 ^ (T.width - 1) := by
  have hwidth : T.width = T.width - 1 + 1 := by
    have := T.width_pos
    omega
  rw [hwidth, Int.pow_succ, Nat.add_sub_cancel, Int.mul_comm]

theorem value_mem_range (x : T.Word) :
    T.minValue ≤ T.value x ∧ T.value x ≤ T.maxValue := by
  unfold minValue maxValue value
  split
  · exact ⟨BitVec.le_toInt x, Int.le_sub_one_of_lt BitVec.toInt_lt⟩
  · have hlt : (x.toNat : Int) < 2 ^ T.width := by exact_mod_cast x.isLt
    exact ⟨Int.natCast_nonneg _, Int.le_sub_one_of_lt hlt⟩

theorem ofInt_value (x : T.Word) : T.ofInt (T.value x) = x := by
  unfold ofInt value
  split
  · exact BitVec.ofInt_toInt
  · rw [BitVec.ofInt_natCast, BitVec.ofNat_toNat, BitVec.setWidth_eq]

theorem ofInt_add (m n : Int) : T.ofInt (m + n) = T.ofInt m + T.ofInt n :=
  BitVec.ofInt_add m n

/-- An integer in the range of the type is read back. -/
theorem value_ofInt {n : Int} (hmin : T.minValue ≤ n) (hmax : n ≤ T.maxValue) :
    T.value (T.ofInt n) = n := by
  unfold minValue at hmin
  unfold maxValue at hmax
  unfold value ofInt
  have hpow := T.two_pow_width
  by_cases hsigned : T.signed
  · rw [if_pos hsigned] at hmin hmax ⊢
    rw [BitVec.toInt_ofInt]
    apply Int.bmod_eq_of_le_mul_two <;> push_cast <;> linarith
  · rw [if_neg hsigned] at hmin hmax ⊢
    rw [BitVec.toNat_ofInt, Int.toNat_of_nonneg]
    · push_cast
      exact Int.emod_eq_of_lt hmin (by omega)
    · exact Int.emod_nonneg _ (by positivity)

/-- No other integer is. -/
theorem value_ofInt_eq_iff {n : Int} :
    T.value (T.ofInt n) = n ↔ T.minValue ≤ n ∧ n ≤ T.maxValue := by
  constructor
  · intro h
    have hrange := T.value_mem_range (T.ofInt n)
    rw [h] at hrange
    exact hrange
  · intro h
    obtain ⟨hmin, hmax⟩ := h
    exact T.value_ofInt hmin hmax

theorem minValue_le_maxValue : T.minValue ≤ T.maxValue := by
  have h := T.value_mem_range 0
  exact h.1.trans h.2

/-! ## Sums -/

/-- A sum in words wraps the sum of the values. -/
theorem sum_words (values : List T.Word) :
    values.foldl (fun sum v => sum + v) 0 =
      T.ofInt (values.map T.value).sum := by
  have hfold : ∀ (values : List T.Word) (n : Int),
      values.foldl (fun sum v => sum + v) (T.ofInt n) =
        T.ofInt (n + (values.map T.value).sum) := by
    intro values
    induction values with
    | nil => intro n; simp
    | cons v values ih =>
      intro n
      have hv : T.ofInt n + v = T.ofInt (n + T.value v) := by
        rw [ofInt_add, ofInt_value]
      rw [List.foldl_cons, hv, ih, List.map_cons, List.sum_cons,
        Int.add_assoc]
  have hzero : (0 : T.Word) = T.ofInt 0 := by
    unfold ofInt
    simp
  rw [hzero, hfold, Int.zero_add]

/-- The sum is exact when it fits, whatever the partial sums did. -/
theorem value_sum_eq_iff (values : List T.Word) :
    T.value (values.foldl (fun sum v => sum + v) 0) =
        (values.map T.value).sum ↔
      T.minValue ≤ (values.map T.value).sum ∧
        (values.map T.value).sum ≤ T.maxValue := by
  rw [sum_words]
  exact T.value_ofInt_eq_iff

/-! ## Minimum and maximum -/

/-- The smaller word, and the first one when they are equal. -/
def min (a b : T.Word) : T.Word := if T.value b < T.value a then b else a

/-- The greater word, and the first one when they are equal. -/
def max (a b : T.Word) : T.Word := if T.value a < T.value b then b else a

theorem value_min (a b : T.Word) :
    T.value (T.min a b) = Min.min (T.value a) (T.value b) := by
  unfold min
  split
  · rw [min_eq_right]
    omega
  · rw [min_eq_left]
    omega

theorem value_max (a b : T.Word) :
    T.value (T.max a b) = Max.max (T.value a) (T.value b) := by
  unfold max
  split
  · rw [max_eq_right]
    omega
  · rw [max_eq_left]
    omega

/-- A running minimum is taken over the values. -/
theorem value_foldl_min (values : List T.Word) (start : T.Word) :
    T.value (values.foldl (fun min v => T.min v min) start) =
      (values.map T.value).foldl Min.min (T.value start) := by
  induction values generalizing start with
  | nil => rfl
  | cons v values ih =>
    rw [List.foldl_cons, ih, value_min, min_comm, List.map_cons,
      List.foldl_cons]

theorem value_foldl_max (values : List T.Word) (start : T.Word) :
    T.value (values.foldl (fun max v => T.max v max) start) =
      (values.map T.value).foldl Max.max (T.value start) := by
  induction values generalizing start with
  | nil => rfl
  | cons v values ih =>
    rw [List.foldl_cons, ih, value_max, max_comm, List.map_cons,
      List.foldl_cons]

/-- The greatest value is neutral for a minimum. -/
theorem isLeast_foldl_min {values : List T.Word} (hne : values ≠ []) :
    IsLeast {n | n ∈ values.map T.value}
      (T.value (values.foldl (fun min v => T.min v min)
        (T.ofInt T.maxValue))) := by
  obtain ⟨v, rest, rfl⟩ := List.exists_cons_of_ne_nil hne
  have hv : Min.min T.maxValue (T.value v) = T.value v :=
    min_eq_right (T.value_mem_range v).2
  rw [value_foldl_min, T.value_ofInt T.minValue_le_maxValue le_rfl,
    List.map_cons, List.foldl_cons, hv]
  have hmin : (T.value v :: rest.map T.value).min? =
      some ((rest.map T.value).foldl Min.min (T.value v)) :=
    List.min?_cons'
  exact List.min?_eq_some_iff.mp hmin

/-- The least value is neutral for a maximum. -/
theorem isGreatest_foldl_max {values : List T.Word} (hne : values ≠ []) :
    IsGreatest {n | n ∈ values.map T.value}
      (T.value (values.foldl (fun max v => T.max v max)
        (T.ofInt T.minValue))) := by
  obtain ⟨v, rest, rfl⟩ := List.exists_cons_of_ne_nil hne
  have hv : Max.max T.minValue (T.value v) = T.value v :=
    max_eq_right (T.value_mem_range v).1
  rw [value_foldl_max, T.value_ofInt le_rfl T.minValue_le_maxValue,
    List.map_cons, List.foldl_cons, hv]
  have hmax : (T.value v :: rest.map T.value).max? =
      some ((rest.map T.value).foldl Max.max (T.value v)) :=
    List.max?_cons'
  exact List.max?_eq_some_iff.mp hmax

end IntType

end VulkanCompute.Lib
