import Mathlib.Order.Interval.Finset.Nat

/-!
# Slots in turn

The numbers 0, 1, 2, … use `n` slots in turn, number `i` the slot `i % n`.
While only the numbers of a window `[lo, lo + n)` are in use, a slot stands
for one of them.

* `eq_of_mod_eq`: two numbers of the window do not share a slot.
* `Shows`: the table has, slot by slot, the entries of the numbers in the
  window.
* `Shows.set` changes one entry, and `Shows.retire` clears the slots of the
  first numbers and moves the window past them.
-/

namespace VulkanCompute.Lib

variable {n lo i j : Nat}

/-- Two numbers of a window do not share a slot. -/
theorem eq_of_mod_eq (hi : lo ≤ i) (hi' : i < lo + n) (hj : lo ≤ j)
    (hj' : j < lo + n) (h : i % n = j % n) : i = j :=
  Nat.mod_injOn_Ico lo n (Finset.mem_coe.mpr (Finset.mem_Ico.mpr ⟨hi, hi'⟩))
    (Finset.mem_coe.mpr (Finset.mem_Ico.mpr ⟨hj, hj'⟩)) h

/-- The slots of numbers in a row are in a row, up to the end of the table. -/
theorem add_mod_of_lt {d : Nat} (h : lo % n + d < n) :
    (lo + d) % n = lo % n + d := by
  have hd : d < n := Nat.lt_of_le_of_lt (Nat.le_add_left _ _) h
  rw [Nat.add_mod, Nat.mod_eq_of_lt hd, Nat.mod_eq_of_lt h]

variable {α : Type*}

/-- The entries of the numbers in `[lo, lo + n)` are in their slots. -/
def Shows (n lo : Nat) (table entry : Nat → Option α) : Prop :=
  ∀ i, lo ≤ i → i < lo + n → table (i % n) = entry i

variable {table table' entry entry' : Nat → Option α}

/-- One number of the window gets another entry. -/
theorem Shows.set (h : Shows n lo table entry) (hi : lo ≤ i)
    (hi' : i < lo + n) (a : Option α)
    (htable : ∀ k < n, table' k = if k = i % n then a else table k)
    (hself : entry' i = a) (hothers : ∀ j, j ≠ i → entry' j = entry j) :
    Shows n lo table' entry' := by
  intro j hj hj'
  have hn : 0 < n := by omega
  rw [htable _ (Nat.mod_lt _ hn)]
  by_cases heq : j = i
  · rw [heq, if_pos rfl, hself]
  · have hslot : ¬j % n = i % n :=
      fun hmod => heq (eq_of_mod_eq hj hj' hi hi' hmod)
    rw [if_neg hslot, hothers j heq, h j hj hj']

/-- The first `d` numbers give their slots to those behind the window, which
have no entries yet. -/
theorem Shows.retire (h : Shows n lo table entry) {d : Nat}
    (hfit : lo % n + d ≤ n)
    (htable : ∀ k < n,
      table' k = if lo % n ≤ k ∧ k < lo % n + d then none else table k)
    (hnew : ∀ i, lo + n ≤ i → i < lo + d + n → entry i = none) :
    Shows n (lo + d) table' entry := by
  intro i hi hi'
  have hn : 0 < n := by omega
  rw [htable _ (Nat.mod_lt _ hn)]
  by_cases hold : i < lo + n
  · have hslot : ¬(lo % n ≤ i % n ∧ i % n < lo % n + d) := by
      intro ⟨hlow, hhigh⟩
      have hmod : (lo + (i % n - lo % n)) % n = i % n := by
        rw [add_mod_of_lt (by omega)]
        omega
      have heq := eq_of_mod_eq (by omega) (by omega) (by omega) hold hmod
      omega
    rw [if_neg hslot, h i (by omega) hold]
  · obtain ⟨e, rfl⟩ : ∃ e, i = lo + e + n := ⟨i - (lo + n), by omega⟩
    have hslot : (lo + e + n) % n = lo % n + e := by
      rw [Nat.add_mod_right, add_mod_of_lt (by omega)]
    rw [if_pos (by omega), hnew _ (by omega) (by omega)]

end VulkanCompute.Lib
