import Mathlib.Algebra.Group.Nat.Defs
import Mathlib.Data.List.Chain
import VulkanCompute.Lib.Transducer

/-!
# The clock of the GPU

The counter behind the timestamps may have fewer than 64 bits, and start again
from 0.  `ProcessGpuTime` takes a time that is far behind the last one for
this, and adds a lap to it and to all later ones.  How long a lap is it
guesses at the first time, from the highest bit of the last value.

`unwraps`: the guess is right, and the server counts on where the counter
starts again, when the times do not go back and are less than half a lap
apart.
-/

namespace VulkanCompute.Profiler

open Lib

/-- `TracyLzcnt`. -/
def lzcnt (x : UInt64) : Nat :=
  if x = 0 then 64 else 63 - x.toNat.log2

/-- `lastGpuTime`, `overflow` and `overflowMul` of `GpuCtxData`. -/
structure GpuClock where
  lastGpuTime : Int64
  overflow : UInt64
  overflowMul : UInt32
deriving DecidableEq

namespace GpuClock

def start : GpuClock := ⟨0, 0, 0⟩

/-- A time that is far behind the last one. -/
def lap (c : GpuClock) : GpuClock :=
  { c with
    overflow :=
      if c.overflow = 0 then
        (1 : UInt64) <<< UInt64.ofNat (64 - lzcnt c.lastGpuTime.toUInt64)
      else c.overflow
    overflowMul := c.overflowMul + 1 }

/-- What `ProcessGpuTime` makes of a time. -/
def tick (c : GpuClock) (tgpu : Int64) : GpuClock × Int64 :=
  let c := if tgpu < c.lastGpuTime - 2 ^ 31 then c.lap else c
  let c := { c with lastGpuTime := tgpu }
  (c,
    if c.overflow ≠ 0 then
      tgpu + (c.overflow * c.overflowMul.toUInt64).toInt64
    else tgpu)

/-! ## A counter of `n` bits -/

/-- What the counter shows at time `t`. -/
def counter (n t : Nat) : Int64 := .ofNat (t % 2 ^ n)

theorem lt_sub_iff {r r' : Nat} (hr : r < 2 ^ 62) (hr' : r' < 2 ^ 62) :
    Int64.ofNat r' < Int64.ofNat r - 2 ^ 31 ↔ r' + 2 ^ 31 < r := by
  have hsub : Int64.ofNat r - 2 ^ 31 = Int64.ofInt (r - 2 ^ 31) := by
    rw [Int64.ofInt_sub, ← Int64.ofInt_eq_ofNat]
    rfl
  have hmin : Int64.minValue.toInt = -2 ^ 63 := by decide
  have hmax : Int64.maxValue.toInt = 2 ^ 63 - 1 := by decide
  rw [hsub, ← Int64.ofInt_eq_ofNat, Int64.ofInt_lt_iff_lt] <;> omega

/-- In the upper half of a lap the highest bit says how long a lap is. -/
theorem shift_lzcnt {n r : Nat} (hn : 0 < n) (hn' : n ≤ 62)
    (hr : 2 ^ (n - 1) ≤ r) (hr' : r < 2 ^ n) :
    (1 : UInt64) <<< UInt64.ofNat (64 - lzcnt (Int64.ofNat r).toUInt64) =
      .ofNat (2 ^ n) := by
  have hpow : 2 ^ n ≤ 2 ^ 62 := Nat.pow_le_pow_right (by decide) hn'
  have hpos : 0 < 2 ^ (n - 1) := Nat.two_pow_pos _
  have hword : (UInt64.ofNat r).toNat = r :=
    UInt64.toNat_ofNat_of_lt' (by rw [UInt64.size]; omega)
  have hlog : r.log2 = n - 1 := by
    rw [Nat.log2_eq_iff (by omega), Nat.sub_add_cancel hn]
    exact ⟨hr, hr'⟩
  have hne : UInt64.ofNat r ≠ 0 := by
    intro hzero
    rw [hzero] at hword
    have hzero' : (0 : UInt64).toNat = 0 := rfl
    omega
  have hlzcnt : 64 - lzcnt (Int64.ofNat r).toUInt64 = n := by
    rw [Int64.toUInt64_ofNat', lzcnt, if_neg hne, hword, hlog]
    omega
  have hshift : (UInt64.ofNat n).toNat = n :=
    UInt64.toNat_ofNat_of_lt' (by rw [UInt64.size]; omega)
  rw [hlzcnt]
  apply UInt64.toNat_inj.mp
  rw [UInt64.toNat_shiftLeft, hshift, Nat.mod_eq_of_lt (a := n) (by omega),
    UInt64.toNat_ofNat_of_lt' (by rw [UInt64.size]; omega)]
  show 1 <<< n % 2 ^ 64 = 2 ^ n
  rw [Nat.one_shiftLeft, Nat.mod_eq_of_lt (by omega)]

/-- The clock when the counter has been read at time `t`, and at `t₀` for the
first time. -/
structure Shown (n t₀ t : Nat) (c : GpuClock) : Prop where
  last : c.lastGpuTime = counter n t
  overflow : c.overflow = if t / 2 ^ n = t₀ / 2 ^ n then 0 else .ofNat (2 ^ n)
  laps : c.overflowMul = .ofNat (t / 2 ^ n - t₀ / 2 ^ n)

/-- The time since the beginning of the first lap. -/
def sinceLap (n t₀ t : Nat) : Int64 := .ofNat (t - 2 ^ n * (t₀ / 2 ^ n))

variable {n t₀ t t' : Nat} {c : GpuClock}

theorem tick_first (hn : n ≤ 62) (t : Nat) :
    (start.tick (counter n t)).1.Shown n t t ∧
      (start.tick (counter n t)).2 = sinceLap n t t := by
  have hpow : 2 ^ n ≤ 2 ^ 62 := Nat.pow_le_pow_right (by decide) hn
  have hmod := Nat.mod_lt t (Nat.two_pow_pos n)
  have hdiv := Nat.div_add_mod t (2 ^ n)
  have hnot : ¬counter n t < start.lastGpuTime - 2 ^ 31 := by
    show ¬Int64.ofNat _ < Int64.ofNat 0 - 2 ^ 31
    rw [lt_sub_iff (by decide) (by omega)]
    omega
  unfold tick
  rw [if_neg hnot]
  refine ⟨⟨rfl, (if_pos rfl).symm, ?_⟩, ?_⟩
  · rw [Nat.sub_self]
    rfl
  · show counter n t = _
    rw [counter, sinceLap]
    congr 1
    omega

/-- The time that the server computes, when its clock is right. -/
theorem Shown.output (h : c.Shown n t₀ t) (hn : 32 ≤ n) (hn' : n ≤ 62)
    (hfirst : t₀ ≤ t) (hbound : t < 2 ^ 63) :
    (if c.overflow ≠ 0 then
        counter n t + (c.overflow * c.overflowMul.toUInt64).toInt64
      else counter n t) = sinceLap n t₀ t := by
  have hdiv := Nat.div_add_mod t (2 ^ n)
  have hpow : 2 ^ n ≤ 2 ^ 62 := Nat.pow_le_pow_right (by decide) hn'
  have hpow' : 2 ^ 32 ≤ 2 ^ n := Nat.pow_le_pow_right (by decide) hn
  have hquot : t₀ / 2 ^ n ≤ t / 2 ^ n := Nat.div_le_div_right hfirst
  by_cases heq : t / 2 ^ n = t₀ / 2 ^ n
  · have hzero : c.overflow = 0 := by rw [h.overflow, if_pos heq]
    rw [hzero, if_neg (not_not_intro rfl), counter, sinceLap, ← heq]
    congr 1
    omega
  · have hoverflow : c.overflow = .ofNat (2 ^ n) := by
      rw [h.overflow, if_neg heq]
    have hne : UInt64.ofNat (2 ^ n) ≠ 0 := by
      intro hzero
      have hword : (UInt64.ofNat (2 ^ n)).toNat = 2 ^ n :=
        UInt64.toNat_ofNat_of_lt' (by rw [UInt64.size]; omega)
      rw [hzero] at hword
      have hzero' : (0 : UInt64).toNat = 0 := rfl
      omega
    have hlaps : t / 2 ^ n < 2 ^ 31 :=
      Nat.div_lt_of_lt_mul
        (Nat.lt_of_lt_of_le hbound (Nat.mul_le_mul_right (2 ^ 31) hpow'))
    have hmul := Nat.mul_sub (2 ^ n) (t / 2 ^ n) (t₀ / 2 ^ n)
    have hmono : 2 ^ n * (t₀ / 2 ^ n) ≤ 2 ^ n * (t / 2 ^ n) :=
      Nat.mul_le_mul_left _ hquot
    have hword : t / 2 ^ n - t₀ / 2 ^ n < UInt32.size :=
      Nat.lt_of_le_of_lt (Nat.sub_le _ _) (Nat.lt_trans hlaps (by decide))
    rw [hoverflow, if_pos hne, h.laps, UInt32.toUInt64_ofNat' hword,
      ← UInt64.ofNat_mul, UInt64.toInt64_ofNat', counter, ← Int64.ofNat_add,
      sinceLap]
    congr 1
    omega

/-- The server goes on counting. -/
theorem Shown.tick (h : c.Shown n t₀ t) (hn : 32 ≤ n) (hn' : n ≤ 62)
    (hfirst : t₀ ≤ t) (hle : t ≤ t') (hlt : t' < t + 2 ^ (n - 1))
    (hbound : t' < 2 ^ 63) :
    (c.tick (counter n t')).1.Shown n t₀ t' ∧
      (c.tick (counter n t')).2 = sinceLap n t₀ t' := by
  have hshown : (c.tick (counter n t')).1.Shown n t₀ t' := by
    have hhalf : 2 ^ (n - 1) * 2 = 2 ^ n :=
      Nat.two_pow_pred_mul_two (by omega)
    have hpow : 2 ^ n ≤ 2 ^ 62 := Nat.pow_le_pow_right (by decide) hn'
    have hpow' : 2 ^ 31 ≤ 2 ^ (n - 1) :=
      Nat.pow_le_pow_right (by decide) (by omega)
    have hdiv := Nat.div_add_mod t (2 ^ n)
    have hdiv' := Nat.div_add_mod t' (2 ^ n)
    have hmod := Nat.mod_lt t (Nat.two_pow_pos n)
    have hmod' := Nat.mod_lt t' (Nat.two_pow_pos n)
    have hquot : t₀ / 2 ^ n ≤ t / 2 ^ n := Nat.div_le_div_right hfirst
    have hlap : counter n t' < c.lastGpuTime - 2 ^ 31 ↔
        t' % 2 ^ n + 2 ^ 31 < t % 2 ^ n := by
      rw [h.last]
      exact lt_sub_iff (by omega) (by omega)
    have hquot' : t / 2 ^ n ≤ t' / 2 ^ n := Nat.div_le_div_right hle
    have hnext : t' / 2 ^ n ≤ t / 2 ^ n + 1 := by
      rw [← Nat.add_div_right t (Nat.two_pow_pos n)]
      exact Nat.div_le_div_right (by omega)
    unfold GpuClock.tick
    dsimp only
    rcases Nat.eq_or_lt_of_le hquot' with hsame | hmore
    · -- the counter has not started again
      have hnot : ¬counter n t' < c.lastGpuTime - 2 ^ 31 := by
        rw [hlap]
        rw [hsame] at hdiv
        omega
      rw [if_neg hnot]
      refine ⟨rfl, ?_, ?_⟩
      · rw [← hsame]
        exact h.overflow
      · rw [← hsame]
        exact h.laps
    · have hsucc : t' / 2 ^ n = t / 2 ^ n + 1 := by omega
      have hmul : 2 ^ n * (t' / 2 ^ n) = 2 ^ n * (t / 2 ^ n) + 2 ^ n := by
        rw [hsucc, Nat.mul_succ]
      rw [if_pos (hlap.mpr (by omega))]
      refine ⟨rfl, ?_, ?_⟩
      · rw [if_neg (by omega)]
        show (if c.overflow = 0 then _ else c.overflow) = _
        split
        case isTrue =>
          rw [h.last]
          exact shift_lzcnt (by omega) hn' (by omega) hmod
        case isFalse hlapped =>
          rw [h.overflow] at hlapped ⊢
          exact if_neg fun heq => hlapped (if_pos heq)
      · show c.overflowMul + 1 = _
        rw [h.laps, hsucc, Nat.sub_add_comm hquot, UInt32.ofNat_add]
        rfl
  exact ⟨hshown, hshown.output hn hn' (hfirst.trans hle) hbound⟩

/-- Two times that are read one after the other. -/
def Next (n t t' : Nat) : Prop := t ≤ t' ∧ t' < t + 2 ^ (n - 1)

theorem Shown.feed (h : c.Shown n t₀ t) (hn : 32 ≤ n) (hn' : n ≤ 62)
    (hfirst : t₀ ≤ t) {ts : List Nat} (hnext : (t :: ts).IsChain (Next n))
    (hbound : ∀ t ∈ ts, t < 2 ^ 63) :
    (Lib.feed GpuClock.tick c (ts.map (counter n))).2 =
      ts.map (sinceLap n t₀) := by
  induction ts generalizing t c with
  | nil => rfl
  | cons t' ts ih =>
    obtain ⟨⟨hle, hlt⟩, hrest⟩ := List.isChain_cons_cons.mp hnext
    obtain ⟨hshown, hout⟩ :=
      h.tick hn hn' hfirst hle hlt (hbound t' List.mem_cons_self)
    rw [List.map_cons, feed_cons, hout,
      ih hshown (hfirst.trans hle) hrest
        fun t ht => hbound t (List.mem_cons_of_mem _ ht)]
    rfl

/-- From the values of a counter of `n` bits the server computes the times
since the beginning of the first lap, if the times do not go back and are less
than half a lap apart. -/
theorem unwraps (hn : 32 ≤ n) (hn' : n ≤ 62) (t₀ : Nat) {ts : List Nat}
    (hnext : (t₀ :: ts).IsChain (Next n)) (hbound : ∀ t ∈ ts, t < 2 ^ 63) :
    (feed tick start ((t₀ :: ts).map (counter n))).2 =
      (t₀ :: ts).map (sinceLap n t₀) := by
  obtain ⟨hshown, hout⟩ := tick_first hn' t₀
  rw [List.map_cons, feed_cons, hout,
    hshown.feed hn hn' le_rfl hnext hbound]
  rfl

/-- A counter of 32 bits that starts again twice. -/
theorem unwraps_two_laps :
    (feed tick start
        [Int64.ofNat 4294967000, 2000000000, 4000000000, 5]).2 =
      [Int64.ofNat 4294967000, 6294967296, 8294967296, 8589934597] := by
  have hnext : [4294967000, 6294967296, 8294967296, 8589934597].IsChain
      (Next 32) := by simp [Next]
  have hback := unwraps (by decide) (by decide) 4294967000 hnext (by decide)
  exact hback

end GpuClock

end VulkanCompute.Profiler
