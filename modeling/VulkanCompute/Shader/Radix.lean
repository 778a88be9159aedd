import Mathlib.Algebra.Order.Ring.Nat
import VulkanCompute.Lib.RadixSort
import VulkanCompute.Shader.Dispatch
import VulkanCompute.Shader.Scatter

/-!
# Radix sort

What the passes are for.  A pass whose threads aim at the stable ranks of
their keys (`StableTargets`) is a stable pass over `KeysA` (`pass_stable`).
The digits of the passes are the digits of the word to the base 16
(`digit_val`), so after `n` such passes the words are in order up to the digit
`n` (`beforePass_radix`), and after eight they are sorted (`main_sorted`,
`main_keys`).  The order is that of the words; the keys are `int`s on both
sides of the kernel, and `digitOrder_iff_intOrder` says when the two orders
agree.
-/

namespace VulkanCompute.Shader

open Lib Finset

/-! ## The state before the passes -/

theorem loadPhase_keysA (L : Launch) (r : GroupRun L.waveSize)
    (tid : Thread) :
    (loadPhase L r).keysA tid =
      if L.active tid then (L.inputKeys tid).toUInt32
      else r.initial.keysA tid := by
  rw [loadPhase, run_loadInput]
  rfl

theorem loadPhase_keysB (L : Launch) (r : GroupRun L.waveSize) :
    (loadPhase L r).keysB = r.initial.keysB := by
  rw [loadPhase, run_loadInput]
  rfl

/-- The group after the first `n` passes, before the pass `n`. -/
def beforePass (L : Launch) (r : GroupRun L.waveSize) (n : Nat) : Group :=
  runSteps (fun i => pass L (4 * i.val) (r.passes i))
    ((List.finRange 8).take n) (loadPhase L r)

theorem beforePass_succ (L : Launch) (r : GroupRun L.waveSize) (i : Fin 8) :
    beforePass L r (i + 1) =
      pass L (4 * i) (r.passes i) (beforePass L r i) :=
  runSteps_take_succ _ i _

theorem beforePass_eight (L : Launch) (r : GroupRun L.waveSize) :
    beforePass L r 8 = main L r := rfl

/-- The invariant rule for the passes. -/
theorem beforePass_induction {L : Launch} {r : GroupRun L.waveSize}
    (Inv : Nat → Group → Prop) (hload : Inv 0 (loadPhase L r))
    (hpass : ∀ i : Fin 8, Inv i (beforePass L r i) →
      Inv (i + 1) (pass L (4 * i) (r.passes i) (beforePass L r i))) :
    ∀ n ≤ 8, Inv n (beforePass L r n) := by
  intro n
  induction n with
  | zero => exact fun _ => hload
  | succ n ih =>
    intro hn
    have hi := hpass ⟨n, hn⟩ (ih (by omega))
    rw [← beforePass_succ] at hi
    exact hi

/-! ## Stable passes -/

/-- The digit of the pass `i`. -/
theorem digit_val (x : UInt32) (i : Fin 8) :
    (digit x (4 * i)).val = x.toNat / 16 ^ i.val % 16 := by
  have hi := i.isLt
  have hshift : (UInt32.ofNat (4 * i)).toNat % 32 = 4 * i := by
    rw [UInt32.toNat_ofNat']
    omega
  show ((x >>> UInt32.ofNat (4 * i)) &&& 15).toNat = _
  rw [UInt32.toNat_and, UInt32.toNat_shiftRight, hshift,
    Nat.shiftRight_eq_div_pow, Nat.pow_mul]
  exact Nat.and_two_pow_sub_one_eq_mod _ 4

/-- The active threads are numbered by their ids. -/
theorem active_places {L : Launch} (hcount : L.count ≤ 256) :
    Set.BijOn (Fin.val : Thread → Nat) (activeSet L)
      (Set.Iio #(activeSet L)) := by
  rw [card_activeSet hcount]
  refine ⟨fun t ht => mem_activeSet.mp ht, Fin.val_injective.injOn, ?_⟩
  intro j hj
  have hlt : j < 256 := lt_of_lt_of_le hj hcount
  exact ⟨⟨j, hlt⟩, mem_activeSet.mpr hj, rfl⟩

/-- The threads aim at the stable ranks of the keys `a`. -/
def StableTargets (L : Launch) (i : Fin 8) (previousWave : Thread → UInt32)
    (a : Thread → UInt32) : Prop :=
  ∀ tid, L.active tid →
    target L previousWave (digits (4 * i) a) tid =
      stableRank (digits (4 * i) a) (activeSet L) tid

/-- Every pass of the run aims at stable ranks. -/
def StablePasses (L : Launch) (r : GroupRun L.waveSize) : Prop :=
  ∀ i, StableTargets L i (r.passes i).previousWave (beforePass L r i).keysA

section Sorted

variable {L : Launch} (hW : 32 ≤ L.waveSize.lanes) (hcount : L.count ≤ 256)

include hW hcount

/-- A pass that aims at stable ranks is a stable pass. -/
theorem pass_stable {i : Fin 8} {r : PassRun L.waveSize} {g : Group}
    (htargets : StableTargets L i r.previousWave g.keysA) :
    StablePass (fun x => digit x (4 * i)) Fin.val (activeSet L) g.keysA
      (pass L (4 * i) r g).keysA := by
  have hinside : L.oob = id ∨ ∀ tid, L.active tid →
      target L r.previousWave (digits (4 * i) g.keysA) tid < 256 := by
    refine Or.inr fun tid htid => ?_
    have hlt := stableRank_lt_card (digits (4 * i) g.keysA)
      (mem_activeSet.mpr htid)
    rw [card_activeSet hcount] at hlt
    rw [htargets tid htid]
    omega
  intro t ht j hj hrank
  have hactive := mem_activeSet.mp ht
  have htarget : target L r.previousWave (digits (4 * i) g.keysA) t = j :=
    (htargets t hactive).trans hrank
  rw [pass_keysA L hW (4 * i) r g hinside, if_pos (mem_activeSet.mp hj)]
  rcases pass_keysB_cases L hW (4 * i) r g hinside j with
    ⟨u, hu, hcell, hkey⟩ | ⟨hnone, _⟩
  · have hut : u = t := by
      apply stableRank_injOn (digits (4 * i) g.keysA) (activeSet L)
        (mem_activeSet.mpr hu) ht
      rw [← htargets u hu, hcell, ← htarget, htargets t hactive]
    rw [hkey, hut]
  · exact absurd htarget (hnone t hactive)

/-- After `n` passes the active threads hold the keys of the input, in order
up to the digit `n`. -/
theorem beforePass_radix {r : GroupRun L.waveSize}
    (hstable : StablePasses L r) :
    ∀ n ≤ 8,
      SortedBelow UInt32.toNat (16 ^ n) (activeSet L)
          (beforePass L r n).keysA ∧
        (activeSet L).val.map (loadPhase L r).keysA =
          (activeSet L).val.map (beforePass L r n).keysA := by
  apply beforePass_induction fun n g =>
    SortedBelow UInt32.toNat (16 ^ n) (activeSet L) g.keysA ∧
      (activeSet L).val.map (loadPhase L r).keysA =
        (activeSet L).val.map g.keysA
  · exact ⟨sortedBelow_one _ _ _, rfl⟩
  · intro i hinv
    obtain ⟨hsorted, hkeys⟩ := hinv
    have hplaces := active_places hcount
    have hpass := pass_stable hW hcount (hstable i)
    constructor
    · rw [Nat.pow_succ]
      exact hpass.sortedBelow (fun x => digit_val x i) hplaces
        (fun _ _ h => h) hsorted
    · exact hkeys.trans (hpass.map_eq hplaces)

/-- The words of the active threads end in order. -/
theorem main_sorted {r : GroupRun L.waveSize} (hstable : StablePasses L r)
    {t u : Thread} (ht : L.active t) (hu : L.active u) (htu : t ≤ u) :
    (main L r).keysA t ≤ (main L r).keysA u := by
  have hsorted := (beforePass_radix hW hcount hstable 8 le_rfl).1 t (mem_activeSet.mpr ht) u
    (mem_activeSet.mpr hu) htu
  have hword : ∀ x : UInt32, x.toNat % 16 ^ 8 = x.toNat :=
    fun x => Nat.mod_eq_of_lt x.toNat_lt
  rw [hword, hword] at hsorted
  exact UInt32.le_iff_toNat_le.mpr hsorted

/-- They are the words of the input. -/
theorem main_keys {r : GroupRun L.waveSize} (hstable : StablePasses L r) :
    (activeSet L).val.map (main L r).keysA =
      (activeSet L).val.map fun tid : Thread =>
        (L.inputKeys tid).toUInt32 := by
  rw [← beforePass_eight, ← (beforePass_radix hW hcount hstable 8 le_rfl).2]
  apply Multiset.map_congr rfl
  intro tid htid
  rw [loadPhase_keysA, if_pos (mem_activeSet.mp htid)]

end Sorted

/-! ## Words and integers -/

/-- The digits that the passes extract from a word, from the last pass
(`shift = 28`) to the first. -/
def digitSequence (x : UInt32) : List (Fin 16) :=
  (List.range 8).reverse.map fun i => digit x (4 * i)

/-- The order of the digits is that of the words. -/
theorem digitSequence_lt_iff (x y : UInt32) :
    digitSequence x < digitSequence y ↔ x < y := by
  have hdigits := lex_digits_iff (fun i x => digit x (4 * i))
    (fun i hi x => digit_val x ⟨i, hi⟩) x y
  have hword : ∀ x : UInt32, x.toNat % 16 ^ 8 = x.toNat :=
    fun x => Nat.mod_eq_of_lt x.toNat_lt
  rw [hword, hword] at hdigits
  exact hdigits.trans UInt32.lt_iff_toNat_lt.symm

/-- An `int` and the word that the load phase makes of it. -/
theorem toInt_cases (x : Int32) :
    x.toInt = x.toUInt32.toNat ∧ x.toUInt32.toNat < 2 ^ 31 ∨
      x.toInt = x.toUInt32.toNat - 2 ^ 32 ∧ 2 ^ 31 ≤ x.toUInt32.toNat := by
  have hcond : x.toInt = if 2 * x.toUInt32.toNat < 2 ^ 32
      then (x.toUInt32.toNat : Int) else x.toUInt32.toNat - (2 ^ 32 : Nat) :=
    BitVec.toInt_eq_toNat_cond x.toBitVec
  split at hcond
  · exact Or.inl ⟨hcond, by omega⟩
  · exact Or.inr ⟨hcond, by omega⟩

/-- The digits order two keys as the `int`s that they are exactly when both
are negative or none is. -/
theorem digitOrder_iff_intOrder (x y : Int32) :
    (digitSequence x.toUInt32 < digitSequence y.toUInt32 ↔ x < y) ↔
      (x < 0 ↔ y < 0) := by
  rw [digitSequence_lt_iff, UInt32.lt_iff_toNat_lt, Int32.lt_iff_toInt_lt,
    Int32.lt_iff_toInt_lt, Int32.lt_iff_toInt_lt, Int32.toInt_zero]
  have hy' := y.toUInt32.toNat_lt
  have hx' := x.toUInt32.toNat_lt
  rcases toInt_cases x with ⟨hx, _⟩ | ⟨hx, _⟩
  · rcases toInt_cases y with ⟨hy, _⟩ | ⟨hy, _⟩ <;> omega
  · rcases toInt_cases y with ⟨hy, _⟩ | ⟨hy, _⟩ <;> omega

/-- The passes put -1 after 0. -/
theorem digitOrder_neg_one :
    digitSequence (0 : Int32).toUInt32 < digitSequence (-1 : Int32).toUInt32 ∧
      ¬(digitSequence (-1 : Int32).toUInt32 <
        digitSequence (0 : Int32).toUInt32 ↔ (-1 : Int32) < 0) := by
  decide

end VulkanCompute.Shader
