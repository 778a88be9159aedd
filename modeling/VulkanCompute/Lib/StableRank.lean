import Mathlib.Algebra.BigOperators.Group.Finset.Basic
import Mathlib.Algebra.Order.BigOperators.Group.Finset
import Mathlib.Data.Set.Card

/-!
# Stable ranks

A counting sort sends every index to the number of indices that come before
it, where `u` comes before `t` when its digit is smaller, or the digits are
equal and `u < t`.  `StableLT` is that order and `stableRank` is that number.

`stableRank_bijOn` says that the ranks of a set `S` are the numbers below
`#S`, each exactly once, and `stableRank_lt_iff` that they are in the stable
order.  `eq_stableRank_of_bijOn` is the converse: nothing else is such a
numbering.  `stableRank_eq_add` splits the rank into the start of the bucket
and the rank inside the bucket, and `card_earlier_eq_sum_blocks` splits the
latter once more when the indices come in consecutive blocks.  That is the
form in which a parallel counting sort computes it.

The last section is about maps that cover the numbers below `#S`.  They are
the bijections (`bijOn_of_covers`), and so they all have the same sum
(`sum_eq_of_covers`).
-/

namespace VulkanCompute.Lib

open Finset

variable {ι δ : Type*} [LinearOrder ι] [LinearOrder δ]

/-! ## The stable order -/

/-- `u` comes before `t`: its digit is smaller, or the digits are equal and
its index is smaller. -/
def StableLT (f : ι → δ) (u t : ι) : Prop :=
  f u < f t ∨ f u = f t ∧ u < t

instance (f : ι → δ) (u t : ι) : Decidable (StableLT f u t) :=
  inferInstanceAs (Decidable (f u < f t ∨ f u = f t ∧ u < t))

theorem StableLT.irrefl (f : ι → δ) (t : ι) : ¬StableLT f t t := by
  intro h
  rcases h with h | ⟨_, h⟩
  · exact lt_irrefl _ h
  · exact lt_irrefl _ h

theorem StableLT.trans {f : ι → δ} {r u t : ι} (hru : StableLT f r u)
    (hut : StableLT f u t) : StableLT f r t := by
  rcases hru with hru | ⟨hru, hlt⟩
  · rcases hut with hut | ⟨hut, _⟩
    · exact Or.inl (hru.trans hut)
    · exact Or.inl (hut ▸ hru)
  · rcases hut with hut | ⟨hut, hlt'⟩
    · exact Or.inl (hru ▸ hut)
    · exact Or.inr ⟨hru.trans hut, hlt.trans hlt'⟩

theorem StableLT.total (f : ι → δ) (u t : ι) :
    StableLT f u t ∨ u = t ∨ StableLT f t u := by
  rcases lt_trichotomy (f u) (f t) with h | h | h
  · exact Or.inl (Or.inl h)
  · rcases lt_trichotomy u t with h' | h' | h'
    · exact Or.inl (Or.inr ⟨h, h'⟩)
    · exact Or.inr (Or.inl h')
    · exact Or.inr (Or.inr (Or.inr ⟨h.symm, h'⟩))
  · exact Or.inr (Or.inr (Or.inl h))

/-! ## The rank -/

/-- The number of indices of `S` that come before `t`. -/
def stableRank (f : ι → δ) (S : Finset ι) (t : ι) : ℕ :=
  #{u ∈ S | StableLT f u t}

theorem stableRank_lt_card (f : ι → δ) {S : Finset ι} {t : ι} (ht : t ∈ S) :
    stableRank f S t < #S := by
  refine card_lt_card ⟨filter_subset _ _, ?_⟩
  intro hsub
  exact StableLT.irrefl f t (mem_filter.mp (hsub ht)).2

theorem stableRank_lt_of_stableLT {f : ι → δ} {S : Finset ι} {t u : ι}
    (ht : t ∈ S) (h : StableLT f t u) : stableRank f S t < stableRank f S u := by
  refine card_lt_card ⟨?_, ?_⟩
  · intro r hr
    obtain ⟨hrS, hrt⟩ := mem_filter.mp hr
    exact mem_filter.mpr ⟨hrS, hrt.trans h⟩
  · intro hsub
    exact StableLT.irrefl f t (mem_filter.mp (hsub (mem_filter.mpr ⟨ht, h⟩))).2

/-- The ranks are in the stable order. -/
theorem stableRank_lt_iff {f : ι → δ} {S : Finset ι} {t u : ι} (ht : t ∈ S)
    (hu : u ∈ S) : stableRank f S t < stableRank f S u ↔ StableLT f t u := by
  refine ⟨fun h => ?_, stableRank_lt_of_stableLT ht⟩
  rcases StableLT.total f t u with htu | rfl | hut
  · exact htu
  · exact absurd h (lt_irrefl _)
  · exact absurd h (stableRank_lt_of_stableLT hu hut).not_gt

theorem stableRank_injOn (f : ι → δ) (S : Finset ι) :
    Set.InjOn (stableRank f S) S := by
  intro t ht u hu h
  rcases StableLT.total f t u with htu | heq | hut
  · exact absurd h (stableRank_lt_of_stableLT ht htu).ne
  · exact heq
  · exact absurd h.symm (stableRank_lt_of_stableLT hu hut).ne

/-- The rank is the start of the bucket and the rank inside the bucket. -/
theorem stableRank_eq_add (f : ι → δ) (S : Finset ι) (t : ι) :
    stableRank f S t =
      #{u ∈ S | f u < f t} + #{u ∈ S | f u = f t ∧ u < t} := by
  rw [stableRank, ← card_union_of_disjoint, ← filter_or]
  · rfl
  · refine disjoint_filter.mpr fun u _ hlt heq => ?_
    exact hlt.ne heq.1

/-- The rank inside the bucket, block by block: the bucket's share of the
earlier blocks, and the rank inside the block of `t`. -/
theorem card_earlier_eq_sum_blocks {κ : Type*} [Fintype κ] [LinearOrder κ]
    {block : ι → κ} (hblock : Monotone block) (f : ι → δ) (S : Finset ι)
    (t : ι) :
    #{u ∈ S | f u = f t ∧ u < t} =
      ∑ v with v < block t, #{u ∈ S | block u = v ∧ f u = f t} +
        #{u ∈ S | block u = block t ∧ f u = f t ∧ u < t} := by
  have hfiber : ∀ v, #{u ∈ S.filter fun u => f u = f t ∧ u < t | block u = v} =
      (if v < block t then #{u ∈ S | block u = v ∧ f u = f t} else 0) +
        if v = block t then #{u ∈ S | block u = block t ∧ f u = f t ∧ u < t}
        else 0 := by
    intro v
    rw [filter_filter]
    rcases lt_trichotomy v (block t) with hv | rfl | hv
    · rw [if_pos hv, if_neg hv.ne, add_zero]
      congr 1
      refine filter_congr fun u _ => ⟨?_, ?_⟩
      · intro h
        obtain ⟨⟨hf, _⟩, hu⟩ := h
        exact ⟨hu, hf⟩
      · intro h
        obtain ⟨rfl, hf⟩ := h
        exact ⟨⟨hf, lt_of_not_ge fun htu => hv.not_ge (hblock htu)⟩, rfl⟩
    · rw [if_neg (lt_irrefl _), if_pos rfl, zero_add]
      congr 1
      refine filter_congr fun u _ => ?_
      tauto
    · rw [if_neg hv.not_gt, if_neg hv.ne', add_zero, card_eq_zero,
        filter_eq_empty_iff]
      intro u _ h
      obtain ⟨⟨_, hut⟩, rfl⟩ := h
      exact hv.not_ge (hblock hut.le)
  rw [card_eq_sum_card_fiberwise (t := univ) (f := block) (by simp)]
  simp only [hfiber, sum_add_distrib, sum_filter]
  simp

/-! ## Maps that cover the numbers below the size of a set -/

section Covers

omit [LinearOrder ι]

/-- A map of `S` that reaches every number below `#S` is a bijection. -/
theorem bijOn_of_covers [DecidableEq ι] {g : ι → ℕ} {S : Finset ι}
    (hcovers : ∀ j < #S, ∃ t ∈ S, g t = j) :
    Set.BijOn g S (Set.Iio #S) := by
  have hsub : range #S ⊆ S.image g := by
    intro j hj
    obtain ⟨t, ht, hgt⟩ := hcovers j (mem_range.mp hj)
    exact mem_image.mpr ⟨t, ht, hgt⟩
  have himage : range #S = S.image g :=
    eq_of_subset_of_card_le hsub (by rw [card_range]; exact card_image_le)
  refine ⟨?_, ?_, ?_⟩
  · intro t ht
    have hmem : g t ∈ range #S := himage ▸ mem_image_of_mem g ht
    exact mem_range.mp hmem
  · rw [← card_image_iff, ← himage, card_range]
  · intro j hj
    obtain ⟨t, ht, hgt⟩ := hcovers j hj
    exact ⟨t, ht, hgt⟩

/-- Two maps of `S` that reach every number below `#S` have the same sum. -/
theorem sum_eq_of_covers [DecidableEq ι] {g : ι → ℕ} {S : Finset ι}
    (hcovers : ∀ j < #S, ∃ t ∈ S, g t = j) :
    ∑ t ∈ S, g t = ∑ j ∈ range #S, j := by
  obtain ⟨hmaps, hinj, _⟩ := bijOn_of_covers hcovers
  refine sum_bij (fun t _ => g t) ?_ ?_ ?_ ?_
  · intro t ht
    exact mem_range.mpr (hmaps ht)
  · intro t ht u hu h
    exact hinj ht hu h
  · intro j hj
    obtain ⟨t, ht, hgt⟩ := hcovers j (mem_range.mp hj)
    exact ⟨t, ht, hgt⟩
  · intro t _
    rfl

end Covers

/-- The ranks of `S` are the numbers below `#S`, each exactly once. -/
theorem stableRank_bijOn (f : ι → δ) (S : Finset ι) :
    Set.BijOn (stableRank f S) S (Set.Iio #S) := by
  have himage : S.image (stableRank f S) = range #S := by
    refine eq_of_subset_of_card_le ?_ ?_
    · intro j hj
      obtain ⟨t, ht, rfl⟩ := mem_image.mp hj
      exact mem_range.mpr (stableRank_lt_card f ht)
    · rw [card_image_of_injOn (stableRank_injOn f S), card_range]
  refine bijOn_of_covers fun j hj => ?_
  exact mem_image.mp (himage ▸ mem_range.mpr hj)

/-- A numbering of `S` by the numbers below `#S` that is in the stable order
is the rank. -/
theorem eq_stableRank_of_bijOn {f : ι → δ} {g : ι → ℕ} {S : Finset ι}
    (hbij : Set.BijOn g S (Set.Iio #S))
    (horder : ∀ t ∈ S, ∀ u ∈ S, g t < g u ↔ StableLT f t u) {t : ι}
    (ht : t ∈ S) : g t = stableRank f S t := by
  have hsub : ↑(S.filter fun u => g u < g t) ⊆ (S : Set ι) :=
    coe_subset.mpr (filter_subset _ _)
  have hcard : stableRank f S t = #((S.filter fun u => g u < g t).image g) := by
    rw [card_image_of_injOn (hbij.injOn.mono hsub), stableRank]
    congr 1
    refine filter_congr fun u hu => (horder u hu t ht).symm
  have himage : (S.filter fun u => g u < g t).image g = range (g t) := by
    ext j
    simp only [mem_image, mem_filter, mem_range]
    constructor
    · intro h
      obtain ⟨u, ⟨_, hlt⟩, rfl⟩ := h
      exact hlt
    · intro hj
      have hjS : j ∈ Set.Iio #S := lt_trans hj (hbij.mapsTo ht)
      obtain ⟨u, hu, rfl⟩ := hbij.surjOn hjS
      exact ⟨u, ⟨hu, hj⟩, rfl⟩
  rw [hcard, himage, card_range]

end VulkanCompute.Lib
