import VulkanCompute.Lib.StableRank

/-!
# Radix sort, least significant digit first

A table is a function on a set `S` of places, numbered in their order by
`pos`.  `StablePass f pos S a a'` says that `a'` is the table `a` after every
key has moved to the place of its stable rank by the digit `f`.

A stable pass keeps the keys with their multiplicities
(`StablePass.map_eq`) and refines an order that the table is already in
(`StablePass.ordered`).  When the digit is the next one of a number, the
table is then in order up to one digit more (`StablePass.sortedBelow`), which
is the step of a radix sort.  `lex_digits_iff` says which order of the keys
that is: the one of the numbers that the digits make up.
-/

namespace VulkanCompute.Lib

open Finset

variable {ι κ δ : Type*} [LinearOrder ι] [LinearOrder δ]

/-- Every key of `a` has moved to the place of its stable rank. -/
def StablePass (f : κ → δ) (pos : ι → ℕ) (S : Finset ι) (a a' : ι → κ) :
    Prop :=
  ∀ t ∈ S, ∀ j ∈ S, stableRank (f ∘ a) S t = pos j → a' j = a t

namespace StablePass

variable {f : κ → δ} {pos : ι → ℕ} {S : Finset ι} {a a' : ι → κ}
  (hpos : Set.BijOn pos S (Set.Iio #S))

include hpos

/-- The key in a place comes from the place of that rank. -/
theorem exists_source (h : StablePass f pos S a a') {j : ι} (hj : j ∈ S) :
    ∃ t ∈ S, stableRank (f ∘ a) S t = pos j ∧ a' j = a t := by
  obtain ⟨t, ht, hrank⟩ :=
    (stableRank_bijOn (f ∘ a) S).surjOn (hpos.mapsTo hj)
  exact ⟨t, ht, hrank, h t ht j hj hrank⟩

/-- A pass keeps the keys and how often they occur. -/
theorem map_eq (h : StablePass f pos S a a') :
    S.val.map a = S.val.map a' := by
  have hplace : ∀ t ∈ S, ∃ j ∈ S, stableRank (f ∘ a) S t = pos j := by
    intro t ht
    obtain ⟨j, hj, heq⟩ :=
      hpos.surjOn ((stableRank_bijOn (f ∘ a) S).mapsTo ht)
    exact ⟨j, hj, heq.symm⟩
  choose place hmem hrank using hplace
  apply Multiset.map_eq_map_of_bij_of_nodup _ _ S.nodup S.nodup place
  · exact hmem
  · intro t ht u hu heq
    apply stableRank_injOn (f ∘ a) S ht hu
    rw [hrank t ht, hrank u hu, heq]
  · intro j hj
    obtain ⟨t, ht, heq, _⟩ := h.exists_source hpos hj
    refine ⟨t, ht, hpos.injOn (hmem t ht) hj ?_⟩
    rw [← hrank t ht, heq]
  · intro t ht
    exact (h t ht _ (hmem t ht) (hrank t ht)).symm

/-- Keys with equal digits stay in the order they are in. -/
theorem ordered (hmono : Monotone pos) (h : StablePass f pos S a a')
    {r : κ → κ → Prop}
    (hr : ∀ t ∈ S, ∀ u ∈ S, t ≤ u → r (a t) (a u)) {i j : ι} (hi : i ∈ S)
    (hj : j ∈ S) (hij : i ≤ j) :
    f (a' i) < f (a' j) ∨ f (a' i) = f (a' j) ∧ r (a' i) (a' j) := by
  obtain ⟨t, ht, hti, hkey⟩ := h.exists_source hpos hi
  obtain ⟨u, hu, huj, hkey'⟩ := h.exists_source hpos hj
  rw [hkey, hkey']
  have hle : stableRank (f ∘ a) S t ≤ stableRank (f ∘ a) S u := by
    rw [hti, huj]
    exact hmono hij
  rcases hle.lt_or_eq with hlt | heq
  · rcases (stableRank_lt_iff ht hu).mp hlt with hdigit | ⟨hdigit, htu⟩
    · exact Or.inl hdigit
    · exact Or.inr ⟨hdigit, hr t ht u hu htu.le⟩
  · have htu := stableRank_injOn (f ∘ a) S ht hu heq
    subst htu
    exact Or.inr ⟨rfl, hr t ht t ht le_rfl⟩

end StablePass

/-! ## Numbers, digit by digit -/

/-- The table is in order as far as the numbers are seen modulo `m`. -/
def SortedBelow (number : κ → ℕ) (m : ℕ) (S : Finset ι) (a : ι → κ) : Prop :=
  ∀ t ∈ S, ∀ u ∈ S, t ≤ u → number (a t) % m ≤ number (a u) % m

omit [LinearOrder δ] in
theorem sortedBelow_one (number : κ → ℕ) (S : Finset ι) (a : ι → κ) :
    SortedBelow number 1 S a := by
  intro t _ u _ _
  rw [Nat.mod_one, Nat.mod_one]

/-- A pass by the digit above `m` extends the order to that digit. -/
theorem StablePass.sortedBelow {number : κ → ℕ} {m base : ℕ}
    {f : κ → Fin base} {pos : ι → ℕ} {S : Finset ι} {a a' : ι → κ}
    (hf : ∀ x, (f x).val = number x / m % base)
    (hpos : Set.BijOn pos S (Set.Iio #S)) (hmono : Monotone pos)
    (h : StablePass f pos S a a') (hsorted : SortedBelow number m S a) :
    SortedBelow number (m * base) S a' := by
  intro i hi j hj hij
  have hordered := h.ordered hpos hmono
    (r := fun x y => number x % m ≤ number y % m) hsorted hi hj hij
  rw [Nat.mod_mul, Nat.mod_mul, ← hf, ← hf]
  rcases hordered with hlt | ⟨heq, hle⟩
  · have hdigit : (f (a' i)).val + 1 ≤ f (a' j) := hlt
    rcases Nat.eq_zero_or_pos m with rfl | hm
    · have hzero : ∀ x, (f x).val = 0 := by
        intro x
        rw [hf, Nat.div_zero, Nat.zero_mod]
      rw [hzero, hzero] at hdigit
      omega
    · calc number (a' i) % m + m * f (a' i)
        _ ≤ m + m * f (a' i) :=
          Nat.add_le_add_right (Nat.mod_lt _ hm).le _
        _ = m * ((f (a' i)).val + 1) := by rw [Nat.mul_succ, Nat.add_comm]
        _ ≤ m * f (a' j) := Nat.mul_le_mul_left m hdigit
        _ ≤ number (a' j) % m + m * f (a' j) := Nat.le_add_left _ _
  · rw [heq]
    exact Nat.add_le_add_right hle _

/-! ## The order of the digits -/

/-- Two numbers in the base `m` with one digit above: the upper digit decides,
and the rest when it is equal. -/
theorem add_mul_lt_iff {m r s d e : ℕ} (hr : r < m) (hs : s < m) :
    r + m * d < s + m * e ↔ d < e ∨ d = e ∧ r < s := by
  rcases lt_trichotomy d e with hlt | rfl | hgt
  · have hmul : m * (d + 1) ≤ m * e := Nat.mul_le_mul_left m hlt
    rw [Nat.mul_succ] at hmul
    constructor
    · exact fun _ => Or.inl hlt
    · intro _
      omega
  · simp
  · have hmul : m * (e + 1) ≤ m * d := Nat.mul_le_mul_left m hgt
    rw [Nat.mul_succ] at hmul
    constructor
    · intro h
      omega
    · intro h
      rcases h with h | ⟨h, _⟩
      · exact absurd h hgt.not_gt
      · exact absurd h hgt.ne'

/-- The digits of two numbers, from the most significant one down, are in
lexicographic order as the numbers are. -/
theorem lex_digits_iff {κ : Type*} {number : κ → ℕ} {base n : ℕ}
    (digit : ℕ → κ → Fin base)
    (hdigit : ∀ i < n, ∀ x, (digit i x).val = number x / base ^ i % base)
    (x y : κ) :
    ((List.range n).reverse.map fun i => digit i x) <
        ((List.range n).reverse.map fun i => digit i y) ↔
      number x % base ^ n < number y % base ^ n := by
  induction n with
  | zero => simp [Nat.mod_one]
  | succ n ih =>
    have hpos : 0 < base ^ n := Nat.pow_pos (digit n x).pos
    have hx := hdigit n (Nat.lt_succ_self n) x
    have hy := hdigit n (Nat.lt_succ_self n) y
    have hlower := ih fun i hi => hdigit i (Nat.lt_succ_of_lt hi)
    simp only [List.range_succ, List.reverse_append, List.reverse_singleton,
      List.singleton_append, List.map_cons, List.cons_lt_cons_iff]
    rw [hlower, Nat.pow_succ, Nat.mod_mul, Nat.mod_mul,
      add_mul_lt_iff (Nat.mod_lt _ hpos) (Nat.mod_lt _ hpos), Fin.lt_def,
      Fin.ext_iff, hx, hy]

end VulkanCompute.Lib
