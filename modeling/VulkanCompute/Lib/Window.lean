import Mathlib.Data.List.DropRight

/-!
# The last elements of a list

A window of size `n` over a growing list shows its last `n` elements, which
is `List.rtake n`.  `rtake_append_rtake` says that a window can be moved
without the elements it no longer shows, and `rtake_append_of_le` that a full
window does not depend on what lies before it.
-/

namespace VulkanCompute.Lib

variable {α : Type*}

theorem length_rtake (l : List α) (n : Nat) :
    (l.rtake n).length = min n l.length := by
  rw [List.rtake, List.length_drop]
  omega

theorem rtake_suffix (l : List α) (n : Nat) : l.rtake n <:+ l :=
  List.drop_suffix _ _

theorem rtake_of_length_le {l : List α} {n : Nat} (h : l.length ≤ n) :
    l.rtake n = l := by
  rw [List.rtake, Nat.sub_eq_zero_of_le h, List.drop_zero]

/-- A full window shows nothing of what lies before it. -/
theorem rtake_append_of_le (front : List α) {l : List α} {n : Nat}
    (h : n ≤ l.length) : (front ++ l).rtake n = l.rtake n := by
  have hstart : (front ++ l).length - n = front.length + (l.length - n) := by
    rw [List.length_append]
    omega
  rw [List.rtake, hstart, List.drop_length_add_append, List.rtake]

/-- A window over two lists shows the end of the first one and the second. -/
theorem rtake_append (l l' : List α) (n : Nat) :
    (l ++ l').rtake n = l.rtake (n - l'.length) ++ l'.rtake n := by
  rcases Nat.le_total n l'.length with h | h
  · rw [rtake_append_of_le l h, Nat.sub_eq_zero_of_le h, List.rtake_zero,
      List.nil_append]
  · have hstart : (l ++ l').length - n = l.length - (n - l'.length) := by
      rw [List.length_append]
      omega
    rw [rtake_of_length_le h, List.rtake, hstart,
      List.drop_append_of_le_length (Nat.sub_le _ _), List.rtake]

/-- A smaller window shows the end of what a larger one shows. -/
theorem rtake_rtake_of_le (l : List α) {n k : Nat} (h : n ≤ k) :
    (l.rtake k).rtake n = l.rtake n := by
  rw [List.rtake, length_rtake, List.rtake, List.drop_drop, List.rtake]
  congr 1
  omega

theorem map_rtake {β : Type*} (f : α → β) (l : List α) (n : Nat) :
    (l.rtake n).map f = (l.map f).rtake n := by
  rw [List.rtake, List.rtake, List.map_drop, List.length_map]

theorem rtake_cons_of_le {l : List α} {n : Nat} (x : α)
    (h : n ≤ l.length) : (x :: l).rtake n = l.rtake n :=
  rtake_append_of_le [x] h

theorem rtake_min_length (l : List α) (n : Nat) :
    l.rtake (min l.length n) = l.rtake n := by
  rcases Nat.le_total l.length n with h | h
  · rw [Nat.min_eq_left h, rtake_of_length_le (Nat.le_refl _),
      rtake_of_length_le h]
  · rw [Nat.min_eq_right h]

/-- The window moves on by one element. -/
theorem rtake_append_rtake (l : List α) (x : α) (n : Nat) :
    (l.rtake n ++ [x]).rtake n = (l ++ [x]).rtake n := by
  rcases Nat.le_total l.length n with h | h
  · rw [rtake_of_length_le h]
  · obtain ⟨front, hfront⟩ := rtake_suffix l n
    have hlength : n ≤ (l.rtake n ++ [x]).length := by
      rw [List.length_append, length_rtake]
      omega
    have hsplit : l ++ [x] = front ++ (l.rtake n ++ [x]) := by
      rw [← List.append_assoc, hfront]
    rw [hsplit, rtake_append_of_le front hlength]

end VulkanCompute.Lib
