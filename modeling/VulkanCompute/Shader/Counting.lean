import Mathlib.Algebra.BigOperators.Fin
import VulkanCompute.Lib.StableRank
import VulkanCompute.Shader.Phases

/-!
# What the counting phases compute

The tables of a pass are counts of keys.  For digits `f` of the threads,

* `waveCount` counts the active keys of one wave in one bucket,
* `bucketCount` those of all waves in one bucket,
* `bucketStart` those in all lower buckets,
* `waveOffset` those of a range of waves in one bucket,
* `waveRank` those of the same wave and bucket in lower lanes.

`countingPhases_eq` says that the phases before the scatter store exactly
these numbers, whatever the tables held before and in whatever order the
threads ran.  `stableRank_eq_waves` adds them up to the stable rank of a key
among all active keys.
-/

namespace VulkanCompute.Shader

open Lib Finset

/-! ## Counts of keys -/

def activeSet (L : Launch) : Finset Thread := {u | L.active u}

def waveCount (L : Launch) (f : Thread → Fin 16) (v : Nat) (b : Fin 16) :
    Nat :=
  #{u ∈ activeSet L | waveIndex L.waveSize u = v ∧ f u = b}

def bucketCount (L : Launch) (f : Thread → Fin 16) (b : Fin 16) : Nat :=
  #{u ∈ activeSet L | f u = b}

def bucketStart (L : Launch) (f : Thread → Fin 16) (b : Fin 16) : Nat :=
  #{u ∈ activeSet L | f u < b}

/-- The keys of the bucket `b` in the waves that a loop from `first` up to
`w` visits. -/
def waveOffset (L : Launch) (f : Thread → Fin 16) (first : UInt32)
    (w : Fin 8) (b : Fin 16) : Nat :=
  ∑ v : Fin 8 with first.toNat ≤ v.val ∧ v < w, waveCount L f v b

def waveRank (L : Launch) (f : Thread → Fin 16) (tid : Thread) : Nat :=
  #{u ∈ activeSet L | waveIndex L.waveSize u = waveIndex L.waveSize tid ∧
    f u = f tid ∧ u < tid}

/-- The digits that a pass reads off the keys `a`. -/
def digits (shift : Nat) (a : Thread → UInt32) (u : Thread) : Fin 16 :=
  digit (a u) shift

@[simp] theorem mem_activeSet {L : Launch} {u : Thread} :
    u ∈ activeSet L ↔ L.active u := by
  simp [activeSet]

theorem card_activeSet {L : Launch} (hcount : L.count ≤ 256) :
    #(activeSet L) = L.count := by
  rw [activeSet, Fin.card_filter_val_lt]
  omega

section Counts

variable (L : Launch) (f : Thread → Fin 16)

/-- The wave of a thread, as a row of the tables. -/
def waveRow (hW : 32 ≤ L.waveSize.lanes) (tid : Thread) : Fin 8 :=
  ⟨waveIndex L.waveSize tid, waveIndex_lt_eight hW tid⟩

theorem waveRow_mono (hW : 32 ≤ L.waveSize.lanes) :
    Monotone (waveRow L hW) := by
  intro u t hut
  exact Nat.div_le_div_right hut

theorem waveIndex_eq_iff (hW : 32 ≤ L.waveSize.lanes) {u : Thread}
    {v : Fin 8} : waveIndex L.waveSize u = v ↔ waveRow L hW u = v := by
  rw [Fin.ext_iff]
  rfl

/-- Every active key lies in one wave. -/
theorem sum_waveCount (hW : 32 ≤ L.waveSize.lanes) (b : Fin 16) :
    ∑ v : Fin 8, waveCount L f v b = bucketCount L f b := by
  rw [bucketCount, card_eq_sum_card_fiberwise (t := univ)
    (f := waveRow L hW) (by simp)]
  refine sum_congr rfl fun v _ => ?_
  rw [waveCount, filter_filter]
  congr 1
  refine filter_congr fun u _ => ?_
  rw [waveIndex_eq_iff L hW, and_comm]

/-- Every active key of a lower bucket lies in one of them. -/
theorem sum_bucketCount (b : Fin 16) :
    ∑ d with d < b, bucketCount L f d = bucketStart L f b := by
  rw [bucketStart, card_eq_sum_card_fiberwise (t := univ.filter (· < b))
    (f := f) (fun u hu => by simpa using (mem_filter.mp hu).2)]
  refine sum_congr rfl fun d hd => ?_
  rw [bucketCount, filter_filter]
  congr 1
  refine filter_congr fun u _ => ?_
  have hdb := (mem_filter.mp hd).2
  constructor
  · intro hu
    exact ⟨hu ▸ hdb, hu⟩
  · exact fun hu => hu.2

/-- The stable rank from the numbers that the phases compute. -/
theorem stableRank_eq_waves (hW : 32 ≤ L.waveSize.lanes) (tid : Thread) :
    stableRank f (activeSet L) tid =
      bucketStart L f (f tid) +
        ∑ v with v < waveRow L hW tid, waveCount L f v (f tid) +
        waveRank L f tid := by
  rw [stableRank_eq_add,
    card_earlier_eq_sum_blocks (waveRow_mono L hW) f (activeSet L) tid,
    ← add_assoc]
  have hrank : waveRank L f tid = #{u ∈ activeSet L |
      waveRow L hW u = waveRow L hW tid ∧ f u = f tid ∧ u < tid} := by
    simp only [waveRank, waveRow, Fin.mk.injEq]
  have hcount : ∀ v : Fin 8, waveCount L f v (f tid) =
      #{u ∈ activeSet L | waveRow L hW u = v ∧ f u = f tid} := by
    intro v
    simp only [waveCount, waveIndex_eq_iff L hW]
  simp only [hrank, hcount, bucketStart]

/-! ### Bounds -/

theorem bucketCount_le (b : Fin 16) : bucketCount L f b ≤ 256 :=
  (card_le_univ _).trans (by simp)

theorem bucketStart_le (b : Fin 16) : bucketStart L f b ≤ 256 :=
  (card_le_univ _).trans (by simp)

theorem waveRank_le (tid : Thread) : waveRank L f tid ≤ 256 :=
  (card_le_univ _).trans (by simp)

theorem waveOffset_le (hW : 32 ≤ L.waveSize.lanes) (first : UInt32)
    (w : Fin 8) (b : Fin 16) : waveOffset L f first w b ≤ 256 := by
  have hsub : waveOffset L f first w b ≤ ∑ v : Fin 8, waveCount L f v b :=
    sum_le_sum_of_subset (filter_subset _ _)
  rw [sum_waveCount L f hW] at hsub
  exact hsub.trans (bucketCount_le L f b)

theorem waveCount_le (hW : 32 ≤ L.waveSize.lanes) (v : Fin 8) (b : Fin 16) :
    waveCount L f v b ≤ 256 := by
  have hle : waveCount L f v b ≤ ∑ v : Fin 8, waveCount L f v b :=
    single_le_sum (f := fun v : Fin 8 => waveCount L f v b)
      (fun _ _ => Nat.zero_le _) (mem_univ v)
  rw [sum_waveCount L f hW] at hle
  exact hle.trans (bucketCount_le L f b)

end Counts

/-! ## The tables -/

/-- A sum of counts in machine words. -/
theorem sumWords_ofNat {α : Type*} [DecidableEq α] (values : List α)
    (hnodup : values.Nodup) (n : α → Nat) :
    sumWords values (fun i => UInt32.ofNat (n i)) =
      UInt32.ofNat (∑ i ∈ values.toFinset, n i) := by
  have hfold : ∀ (values : List α) (start : Nat),
      values.foldl (fun sum i => sum + UInt32.ofNat (n i))
          (UInt32.ofNat start) =
        UInt32.ofNat (start + (values.map n).sum) := by
    intro values
    induction values with
    | nil => intro start; simp
    | cons i values ih =>
      intro start
      rw [List.foldl_cons, ← UInt32.ofNat_add, ih, List.map_cons,
        List.sum_cons, Nat.add_assoc]
  rw [List.sum_toFinset n hnodup, ← Nat.zero_add (List.sum _), ← hfold]
  rfl

/-- The loop over the buckets leaves the rank of the own bucket. -/
theorem foldl_select {α : Type*} (buckets : List (Fin 16)) (b : Fin 16)
    (r : Fin 16 → α) (start : α) (hb : b ∈ buckets) :
    buckets.foldl (fun rank d => if b = d then r d else rank) start = r b := by
  have hfold : ∀ (buckets : List (Fin 16)) (start : α),
      buckets.foldl (fun rank d => if b = d then r d else rank) start =
        if b ∈ buckets then r b else start := by
    intro buckets
    induction buckets with
    | nil => intro start; simp
    | cons d buckets ih =>
      intro start
      rw [List.foldl_cons, ih]
      by_cases hd : b = d
      · subst hd
        simp
      · simp [hd]
  rw [hfold, if_pos hb]

/-- In one wave the lanes are in the order of the thread ids. -/
theorem lane_lt_iff {W : WaveSize} {u t : Thread}
    (hwave : waveIndex W u = waveIndex W t) :
    lane W u < lane W t ↔ u < t := by
  unfold waveIndex at hwave
  unfold lane
  have hu := Nat.div_add_mod u.val W.lanes
  have ht := Nat.div_add_mod t.val W.lanes
  rw [hwave] at hu
  rw [Fin.lt_def]
  omega

section Tables

variable (L : Launch) (shift : Nat) (a : Thread → UInt32)

theorem loadedRegs_bucket {u : Thread} (hu : L.active u) :
    (loadedRegs L shift a u).bucket = digits shift a u := by
  rw [loadedRegs, if_pos hu]
  rfl

theorem inBucket_loadedRegs (b : Fin 16) (u : Thread) :
    inBucket L (loadedRegs L shift a) b u ↔
      u ∈ activeSet L ∧ digits shift a u = b := by
  rw [mem_activeSet]
  refine and_congr_right fun hu => ?_
  rw [loadedRegs_bucket L shift a hu]

theorem countOf_loadedRegs (v : Nat) (b : Fin 16) :
    countOf L (loadedRegs L shift a) v b =
      UInt32.ofNat (waveCount L (digits shift a) v b) := by
  unfold countOf waveActiveCountBits waveCount
  congr 2
  ext u
  simp only [mem_filter, mem_univ, true_and, inBucket_loadedRegs]
  tauto

/-- A wave without a lane 0 has no lane at all. -/
theorem waveCount_eq_zero (f : Thread → Fin 16) {v : Nat} (b : Fin 16)
    (hv : ¬∃ tid, lane L.waveSize tid = 0 ∧ waveIndex L.waveSize tid = v) :
    waveCount L f v b = 0 := by
  rw [waveCount, card_eq_zero, filter_eq_empty_iff]
  intro u _ h
  obtain ⟨hu, _⟩ := h
  have hlanes := L.waveSize.four_le
  have hle : v * L.waveSize.lanes ≤ u.val := by
    rw [← hu]
    exact Nat.div_mul_le_self _ _
  refine hv ⟨⟨v * L.waveSize.lanes, by omega⟩, ?_, ?_⟩
  · exact Nat.mul_mod_left _ _
  · exact Nat.mul_div_cancel _ (by omega)

/-- What the histogram phase leaves in `WaveBucketCounts`, which was clear. -/
theorem histogram_counts (k : Fin (8 * 16)) :
    (if ∃ tid, lane L.waveSize tid = 0 ∧
          waveIndex L.waveSize tid = cellWave k then
        countOf L (loadedRegs L shift a) (cellWave k) (cellBucket k)
      else 0) =
      UInt32.ofNat (waveCount L (digits shift a) (cellWave k)
        (cellBucket k)) := by
  split
  · exact countOf_loadedRegs L shift a _ _
  · rename_i hwave
    rw [waveCount_eq_zero L _ _ hwave]
    rfl

/-- The sum over the waves is the size of the bucket. -/
theorem sumWords_waveCount (hW : 32 ≤ L.waveSize.lanes) (f : Thread → Fin 16)
    (b : Fin 16) :
    (sumWords (List.finRange waveNb) fun w : Fin 8 =>
        UInt32.ofNat (waveCount L f w b)) =
      UInt32.ofNat (bucketCount L f b) := by
  rw [sumWords_ofNat _ (List.nodup_finRange _), ← sum_waveCount L _ hW]
  simp [waveNb]

/-- The sum over the lower buckets is the start of the bucket. -/
theorem sumWords_bucketCount (f : Thread → Fin 16) (b : Fin 16) :
    (sumWords ((List.finRange 16).filter (· < b)) fun d =>
        UInt32.ofNat (bucketCount L f d)) =
      UInt32.ofNat (bucketStart L f b) := by
  rw [sumWords_ofNat _ ((List.nodup_finRange _).filter _),
    ← sum_bucketCount L]
  simp [List.toFinset_filter]

/-- The sum over the loop is the offset of the wave. -/
theorem sumWords_previousWaves (f : Thread → Fin 16) (first : UInt32)
    (w : Fin 8) (b : Fin 16) :
    (sumWords (previousWaves first w) fun v =>
        UInt32.ofNat (waveCount L f v b)) =
      UInt32.ofNat (waveOffset L f first w b) := by
  rw [previousWaves, sumWords_ofNat _ ((List.nodup_finRange _).filter _),
    waveOffset]
  simp [List.toFinset_filter]

/-- The group before the scatter phase. -/
theorem countingPhases_eq (hW : 32 ≤ L.waveSize.lanes)
    (r : PassRun L.waveSize) (g : Group) :
    countingPhases L shift r g =
      { g with
        regs := loadedRegs L shift g.keysA
        hist := fun b =>
          UInt32.ofNat (bucketCount L (digits shift g.keysA) b)
        bucketOffset := fun b =>
          UInt32.ofNat (bucketStart L (digits shift g.keysA) b)
        waveBucketCounts := fun k =>
          UInt32.ofNat (waveCount L (digits shift g.keysA) (cellWave k)
            (cellBucket k))
        waveBucketOffsets := fun k =>
          UInt32.ofNat (waveOffset L (digits shift g.keysA)
            (r.previousWave (cellThread k)) (cellWave k)
            (cellBucket k)) } := by
  unfold countingPhases
  simp only [run_clearTables, run_histogram L hW, run_sumHist,
    run_sumBucketOffset, run_sumWaveOffset, histogram_counts, cellWave_cell,
    cellBucket_cell, sumWords_waveCount L hW, sumWords_bucketCount,
    sumWords_previousWaves]

/-- The loop of `WavePrefixCountBits` finds the rank in the wave. -/
theorem rankInSameBucket_eq (g : Group)
    (hregs : g.regs = loadedRegs L shift a) {tid : Thread}
    (htid : L.active tid) :
    rankInSameBucket L g tid =
      UInt32.ofNat (waveRank L (digits shift a) tid) := by
  unfold rankInSameBucket
  simp only
  rw [foldl_select _ (g.regs tid).bucket _ _ (List.mem_finRange _), hregs,
    loadedRegs_bucket L shift a htid]
  unfold wavePrefixCountBits waveRank
  congr 2
  ext u
  simp only [mem_filter, mem_univ, true_and, inBucket_loadedRegs]
  constructor
  · intro h
    obtain ⟨hwave, hlane, hu, hdigit⟩ := h
    exact ⟨hu, hwave, hdigit, (lane_lt_iff hwave).mp hlane⟩
  · intro h
    obtain ⟨hu, hwave, hdigit, hlt⟩ := h
    exact ⟨hwave, (lane_lt_iff hwave).mpr hlt, hu, hdigit⟩

end Tables

theorem toNat_ofNat_of_le {n : Nat} (hn : n ≤ 256) :
    (UInt32.ofNat n).toNat = n := by
  rw [UInt32.toNat_ofNat']
  exact Nat.mod_eq_of_lt (by omega)

/-- The counting phases compute the stable rank.  After the histogram and
bucket-offset phases and the rank loop of a pass, `Hist` and `BucketOffset`
hold the number of active keys in a bucket and below it, and the start of the
bucket, the earlier waves and the rank in the wave add up to the number of
active keys that come before.  The tables may hold anything before the pass,
and the threads run in any order. -/
theorem countingPhases_stableRank (L : Launch)
    (hW : 32 ≤ L.waveSize.lanes) (i : Fin 8) (r : PassRun L.waveSize)
    (g : Group) :
    let s := countingPhases L (4 * i) r g
    let digitOf := fun u => digit (g.keysA u) (4 * i)
    (∀ b, (s.hist b).toNat = #{u | L.active u ∧ digitOf u = b}) ∧
    (∀ b, (s.bucketOffset b).toNat = #{u | L.active u ∧ digitOf u < b}) ∧
    ∀ tid, L.active tid →
      (s.bucketOffset (digitOf tid)).toNat +
          ∑ v : Fin 8 with v.val < waveIndex L.waveSize tid,
            (s.waveBucketCounts (cell v (digitOf tid))).toNat +
          (rankInSameBucket L s tid).toNat =
        #{u | L.active u ∧ (digitOf u < digitOf tid ∨
          digitOf u = digitOf tid ∧ u < tid)} := by
  intro s digitOf
  have hs := countingPhases_eq L (4 * i) hW r g
  have hactive : ∀ p : Thread → Prop, [DecidablePred p] →
      (univ.filter fun u => L.active u ∧ p u) =
        (activeSet L).filter p := by
    intro p _
    rw [activeSet, filter_filter]
  refine ⟨fun b => ?_, fun b => ?_, fun tid htid => ?_⟩
  · simp only [s, hs]
    rw [toNat_ofNat_of_le (bucketCount_le ..), hactive]
    rfl
  · simp only [s, hs]
    rw [toNat_ofNat_of_le (bucketStart_le ..), hactive]
    rfl
  · have hrank : rankInSameBucket L s tid =
        UInt32.ofNat (waveRank L digitOf tid) :=
      rankInSameBucket_eq L (4 * i) g.keysA s (by simp only [s, hs]) htid
    have hsum : ∀ v : Fin 8,
        (s.waveBucketCounts (cell v (digitOf tid))).toNat =
          waveCount L digitOf v (digitOf tid) := by
      intro v
      simp only [s, hs, cellWave_cell, cellBucket_cell]
      exact toNat_ofNat_of_le (waveCount_le L digitOf hW v _)
    have hstart : (s.bucketOffset (digitOf tid)).toNat =
        bucketStart L digitOf (digitOf tid) := by
      simp only [s, hs]
      exact toNat_ofNat_of_le (bucketStart_le ..)
    have hstable := stableRank_eq_waves L digitOf hW tid
    rw [hactive, hrank, toNat_ofNat_of_le (waveRank_le ..), hstart,
      sum_congr rfl fun v _ => hsum v]
    exact hstable.symm

/-- The second pass over forty keys with the digits 0, 1 and 2 in turns, in
waves of 32 lanes, on tables full of sevens, with the threads in descending
order: 13 keys have the digit 1 and 27 a lower digit than 2, and the key of the
thread 37, in the second wave, comes behind 14 keys with the digit 0 and 12
with its own. -/
theorem countingPhases_three_digits :
    let L : Launch := ⟨⟨32, by decide⟩, 40, fun _ => 0, id⟩
    let g : Group :=
      { Group.start (Shared.fill 7) with
        keysA := fun u => UInt32.ofNat (16 * (u.val % 3) + 5) }
    let s := countingPhases L 4 (PassRun.reversed L.waveSize fun _ => 7) g
    (s.hist 1).toNat = 13 ∧ (s.bucketOffset 2).toNat = 27 ∧
      (s.bucketOffset 1).toNat +
          ∑ v : Fin 8 with v.val < waveIndex L.waveSize 37,
            (s.waveBucketCounts (cell v 1)).toNat +
          (rankInSameBucket L s 37).toNat = 26 := by
  intro L g s
  have hdigit : digit (g.keysA 37) 4 = 1 := by decide
  have hstable := countingPhases_stableRank L (by decide) 1
    (PassRun.reversed L.waveSize fun _ => 7) g
  obtain ⟨hhist, hstart, hrank⟩ := hstable
  have hrank37 := hrank 37 (by decide)
  rw [show 4 * (1 : Fin 8).val = 4 from rfl] at hhist hstart hrank37
  simp only [hdigit] at hrank37
  refine ⟨(hhist 1).trans ?_, (hstart 2).trans ?_, hrank37.trans ?_⟩
  · decide +kernel
  · decide +kernel
  · decide +kernel

end VulkanCompute.Shader
