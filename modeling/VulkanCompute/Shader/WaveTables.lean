import Mathlib.Data.Nat.ModEq
import VulkanCompute.Lib.Loop
import VulkanCompute.Shader.Counting

/-!
# The wave tables

`WaveBucketCounts` and `WaveBucketOffsets` have eight rows, one for each wave,
where `waveIndex` is computed from the lane count of the device.

* `Watched` is a group with a record of the indices at which its threads have
  accessed the two tables.  The phases are written out once more on it, with
  every index as the shader computes it; `Watched.pass_group` says that the
  record changes nothing about the group.
* `tablesFit_iff`: the indices stay inside the tables, and the histogram counts
  every active key once, exactly for waves of at least 32 lanes.
* `prefixSums_iff`: the wave-offset phase leaves the prefix sums of the counts
  exactly when the uninitialised `previousWave` skips nothing that counts.
-/

namespace VulkanCompute.Shader

open Lib Finset

/-- A group, and the indices at which its threads have accessed the wave
tables. -/
structure Watched where
  group : Group
  accesses : List Nat

namespace Watched

/-! ## Accesses -/

/-- The group at its start, before any access. -/
def ofGroup (g : Group) : Watched := ⟨g, []⟩

/-- Code that leaves the wave tables alone. -/
def quiet (f : Group → Group) (s : Watched) : Watched :=
  { s with group := f s.group }

/-- `WaveBucketCounts[i]`.  A load outside the table gives 0; no thread makes
one. -/
def loadCount (i : Nat) (s : Watched) : UInt32 × Watched :=
  (if h : i < 8 * 16 then s.group.waveBucketCounts ⟨i, h⟩ else 0,
    { s with accesses := s.accesses ++ [i] })

/-- `WaveBucketOffsets[i]`. -/
def loadOffset (i : Nat) (s : Watched) : UInt32 × Watched :=
  (if h : i < 8 * 16 then s.group.waveBucketOffsets ⟨i, h⟩ else 0,
    { s with accesses := s.accesses ++ [i] })

/-- `WaveBucketCounts[i] = v`. -/
def storeCount (L : Launch) (i : Nat) (v : UInt32) (s : Watched) : Watched where
  group := storeWaveBucketCount L i v s.group
  accesses := s.accesses ++ [i]

/-- `WaveBucketOffsets[i] = v`. -/
def storeOffset (L : Launch) (i : Nat) (v : UInt32) (s : Watched) : Watched where
  group :=
    if h : i < 8 * 16 then
      { s.group with
        waveBucketOffsets :=
          Function.update s.group.waveBucketOffsets ⟨i, h⟩ v }
    else { s.group with toShared := L.oob s.group.toShared }
  accesses := s.accesses ++ [i]

/-! ## The phases -/

def clearTables (L : Launch) (tid : Thread) (s : Watched) : Watched :=
  let s := s.quiet (clearHist tid)
  if tid.val < 8 * 16 then
    storeOffset L tid 0 (storeCount L tid 0 s)
  else s

/-- The loop over the buckets. -/
def countWave (L : Launch) (tid : Thread) (s : Watched) : Watched :=
  (List.finRange 16).foldl
    (fun s b =>
      let countInWave := waveActiveCountBits L.waveSize
        (waveIndex L.waveSize tid) (inBucket L s.group.regs b)
      if lane L.waveSize tid = 0 then
        storeCount L (waveIndex L.waveSize tid * 16 + b) countInWave s
      else s)
    s

def histogramStep (L : Launch) (shift : Nat) : HistogramStep → Watched → Watched
  | .load tid => quiet (loadKey L shift tid)
  | .count tid => countWave L tid

/-- `sum += WaveBucketCounts[w * 16 + b]` over `w` from `first` on and below
`bound`. -/
def sumRows (first bound : UInt32) (b : Nat) (s : Watched) : UInt32 × Watched :=
  countUp
    (fun w r =>
      let count := r.2.loadCount (w.toNat * 16 + b)
      (r.1 + count.1, count.2))
    bound first (0, s)

def sumHist (tid : Thread) (s : Watched) : Watched :=
  if h : tid.val < 16 then
    let sum := s.sumRows 0 (UInt32.ofNat waveNb) tid
    sum.2.quiet fun g =>
      { g with hist := Function.update g.hist ⟨tid, h⟩ sum.1 }
  else s

def sumWaveOffset (L : Launch) (previousWave : Thread → UInt32) (tid : Thread)
    (s : Watched) : Watched :=
  if tid.val < 8 * 16 then
    let w := tid.val / 16
    let b := tid.val % 16
    let sum := s.sumRows (previousWave tid) (UInt32.ofNat w) b
    storeOffset L (w * 16 + b) sum.1 sum.2
  else s

/-- `KeysB[dst] = key`. -/
def scatter (L : Launch) (tid : Thread) (s : Watched) : Watched :=
  if L.active tid then
    let bucket := (s.group.regs tid).bucket
    let offset := s.loadOffset (waveIndex L.waveSize tid + 16 + bucket)
    let dst := s.group.bucketOffset bucket + offset.1 +
      rankInSameBucket L s.group tid
    offset.2.quiet fun g =>
      if h : dst.toNat < 256 then
        { g with
          keysB := Function.update g.keysB ⟨dst.toNat, h⟩ (g.regs tid).key }
      else { g with toShared := L.oob g.toShared }
  else s

/-- The body of the `shift` loop. -/
def pass (L : Launch) (shift : Nat) (r : PassRun L.waveSize) (s : Watched) :
    Watched :=
  let s := runSteps (clearTables L) r.clear.order s
  let s := runSteps (histogramStep L shift) r.histogram.order s
  let s := runSteps sumHist r.hist.order s
  let s := runSteps (fun tid => quiet (sumBucketOffset tid))
    r.bucketOffset.order s
  let s := runSteps (sumWaveOffset L r.previousWave) r.waveOffset.order s
  let s := runSteps (scatter L) r.scatter.order s
  runSteps (fun tid => quiet (copyBack L tid)) r.copyBack.order s

/-! ## What a thread accesses -/

/-- The rows that a loop from `first` up to `bound` visits. -/
def rows (first : UInt32) (bound : Nat) : List (Fin 8) :=
  (List.finRange 8).filter fun v => first.toNat ≤ v.val ∧ v.val < bound

/-- A load inside the table. -/
theorem loadCount_row (v : Fin 8) (b : Fin 16) (s : Watched) :
    s.loadCount (v.val * 16 + b) =
      (s.group.waveBucketCounts (cell v b),
        { s with accesses := s.accesses ++ [v.val * 16 + b.val] }) := by
  have hlt : v.val * 16 + b.val < 8 * 16 := (cell v b).isLt
  rw [loadCount, dif_pos hlt]
  rfl

/-- A sum over rows loads the cells of the bucket in these rows. -/
theorem sumRows_eq (first : UInt32) {bound : Nat} (hbound : bound ≤ 8)
    (b : Fin 16) (s : Watched) :
    s.sumRows first (UInt32.ofNat bound) b =
      (sumWords (rows first bound) fun v =>
          s.group.waveBucketCounts (cell v b),
        { s with
          accesses := s.accesses ++
            (rows first bound).map fun v => v.val * 16 + b.val }) := by
  have hrun : ∀ (order : List (Fin 8)) (sum : UInt32) (s : Watched),
      runSteps
          (fun (v : Fin 8) (r : UInt32 × Watched) =>
            (r.1 + r.2.group.waveBucketCounts (cell v b),
              { r.2 with accesses := r.2.accesses ++ [v.val * 16 + b.val] }))
          order (sum, s) =
        (order.foldl (fun sum v => sum + s.group.waveBucketCounts (cell v b))
            sum,
          { s with
            accesses := s.accesses ++
              order.map fun v => v.val * 16 + b.val }) := by
    intro order
    induction order with
    | nil =>
      intro sum s
      simp
    | cons v order ih =>
      intro sum s
      rw [runSteps_cons, ih, List.append_assoc]
      rfl
  have hword : (UInt32.ofNat bound).toNat = bound :=
    toNat_ofNat_of_le (hbound.trans (by decide))
  have hrow : ∀ v : Fin 8, (UInt32.ofNat v).toNat = v :=
    fun v => toNat_ofNat_of_le (v.isLt.le.trans (by decide))
  rw [sumRows, countUp_eq_rows _ (hword.trans_le hbound), hword]
  simp only [hrow, loadCount_row]
  exact hrun _ 0 s

/-- The step does what the code does to the group, and accesses the given
cells. -/
def Watches (step : Watched → Watched) (code : Group → Group)
    (cells : Group → List Nat) : Prop :=
  ∀ s, step s = ⟨code s.group, s.accesses ++ cells s.group⟩

theorem watches_quiet (f : Group → Group) : Watches (quiet f) f fun _ => [] := by
  intro s
  rw [List.append_nil]
  rfl

theorem watches_clearTables (L : Launch) (tid : Thread) :
    Watches (clearTables L tid) (Shader.clearTables tid) fun _ =>
      if tid.val < 8 * 16 then [tid.val, tid.val] else [] := by
  intro s
  unfold clearTables Shader.clearTables clearWaveTables
  by_cases htid : tid.val < 8 * 16
  · simp only [if_pos htid, dif_pos htid, storeOffset, storeCount,
      storeWaveBucketCount, List.append_assoc]
    rfl
  · simp only [if_neg htid, dif_neg htid, List.append_nil]
    rfl

theorem watches_countWave (L : Launch) (tid : Thread) :
    Watches (countWave L tid) (Shader.countWave L tid) fun _ =>
      if lane L.waveSize tid = 0 then
        (List.finRange 16).map fun b => waveIndex L.waveSize tid * 16 + b.val
      else [] := by
  intro s
  unfold countWave Shader.countWave
  generalize List.finRange 16 = buckets
  induction buckets generalizing s with
  | nil =>
    simp only [List.foldl_nil, List.map_nil, ite_self, List.append_nil]
  | cons b buckets ih =>
    rw [List.foldl_cons, List.foldl_cons, ih]
    by_cases hlane : lane L.waveSize tid = 0
    · simp only [if_pos hlane, storeCount, List.append_assoc]
      rfl
    · simp only [if_neg hlane]

theorem watches_histogramStep (L : Launch) (shift : Nat) (i : HistogramStep) :
    Watches (histogramStep L shift i) (Shader.histogramStep L shift i) fun _ =>
      match i with
      | .load _ => []
      | .count tid =>
        if lane L.waveSize tid = 0 then
          (List.finRange 16).map fun b => waveIndex L.waveSize tid * 16 + b.val
        else [] := by
  cases i with
  | load tid => exact watches_quiet _
  | count tid => exact watches_countWave L tid

theorem watches_sumHist (tid : Thread) :
    Watches (sumHist tid) (Shader.sumHist tid) fun _ =>
      if tid.val < 16 then
        (rows 0 8).map fun v => v.val * 16 + tid.val
      else [] := by
  intro s
  unfold sumHist Shader.sumHist
  by_cases htid : tid.val < 16
  · have hsum := sumRows_eq 0 le_rfl ⟨tid, htid⟩ s
    simp only [if_pos htid, dif_pos htid]
    simp only at hsum
    rw [hsum]
    rfl
  · simp only [if_neg htid, dif_neg htid, List.append_nil]

theorem watches_sumWaveOffset (L : Launch) (previousWave : Thread → UInt32)
    (tid : Thread) :
    Watches (sumWaveOffset L previousWave tid)
      (Shader.sumWaveOffset previousWave tid) fun _ =>
        if tid.val < 8 * 16 then
          ((rows (previousWave tid) (tid.val / 16)).map fun v =>
            v.val * 16 + tid.val % 16) ++ [tid.val]
        else [] := by
  intro s
  unfold sumWaveOffset Shader.sumWaveOffset
  by_cases htid : tid.val < 8 * 16
  · have hrow : tid.val / 16 ≤ 8 := by omega
    have hindex : tid.val / 16 * 16 + tid.val % 16 = tid.val :=
      Nat.div_add_mod' _ _
    have hsum := sumRows_eq (previousWave tid) hrow (cellBucket ⟨tid, htid⟩) s
    simp only [cellBucket] at hsum
    simp only [if_pos htid, dif_pos htid, hsum, hindex, storeOffset,
      List.append_assoc, cell_cellWave]
    rfl
  · simp only [if_neg htid, dif_neg htid, List.append_nil]

theorem watches_scatter (L : Launch) (tid : Thread) :
    Watches (scatter L tid) (Shader.scatter L tid) fun g =>
      if L.active tid then
        [waveIndex L.waveSize tid + 16 + (g.regs tid).bucket.val]
      else [] := by
  intro s
  unfold scatter Shader.scatter
  by_cases hactive : L.active tid
  · have hlt := (offsetCell L.waveSize tid (s.group.regs tid).bucket).isLt
    simp only [offsetCell] at hlt
    simp only [if_pos hactive, loadOffset, dif_pos hlt]
    rfl
  · simp only [if_neg hactive, List.append_nil]

/-! ## What a phase accesses -/

section Phase

variable {ι : Type*} {step : ι → Watched → Watched} {code : ι → Group → Group}
  {cells : ι → Group → List Nat}
  (hstep : ∀ i, Watches (step i) (code i) (cells i)) (order : List ι)
  (s : Watched)

include hstep

/-- The record changes nothing about the group. -/
theorem run_group :
    (runSteps step order s).group = runSteps code order s.group := by
  refine (runSteps_hom Watched.group (fun i x => ?_) order s).symm
  rw [hstep i x]

/-- The record grows by cells of the phase only. -/
theorem run_accesses {P : Nat → Prop} (hcells : ∀ i g, ∀ k ∈ cells i g, P k)
    (hs : ∀ k ∈ s.accesses, P k) :
    ∀ k ∈ (runSteps step order s).accesses, P k := by
  refine runSteps_induction step order (fun _ s => ∀ k ∈ s.accesses, P k) s hs ?_
  intro _ i _ _ s hinv k hk
  rw [hstep i s] at hk
  rcases List.mem_append.mp hk with hk | hk
  · exact hinv k hk
  · exact hcells i _ k hk

/-- The record never shrinks. -/
theorem subset_run_accesses :
    s.accesses ⊆ (runSteps step order s).accesses := by
  refine runSteps_induction step order
    (fun _ s' => s.accesses ⊆ s'.accesses) s (List.Subset.refl _) ?_
  intro _ i _ _ s' hinv
  rw [hstep i s']
  exact List.Subset.trans hinv (List.subset_append_left _ _)

/-- A cell of a step is on record when the step has run. -/
theorem mem_run_accesses {i : ι} (hi : i ∈ order) {k : Nat}
    (hk : ∀ g, k ∈ cells i g) : k ∈ (runSteps step order s).accesses := by
  obtain ⟨pre, post, rfl⟩ := List.append_of_mem hi
  rw [runSteps_append, runSteps_cons]
  apply subset_run_accesses hstep
  rw [hstep i]
  exact List.mem_append_right _ (hk _)

end Phase

/-! ## A pass -/

/-- The record changes nothing about a pass. -/
theorem pass_group (L : Launch) (shift : Nat) (r : PassRun L.waveSize)
    (s : Watched) :
    (pass L shift r s).group = Shader.pass L shift r s.group := by
  unfold pass Shader.pass countingPhases
  simp only [run_group fun tid => watches_quiet (copyBack L tid),
    run_group (watches_scatter L),
    run_group (watches_sumWaveOffset L r.previousWave),
    run_group fun tid => watches_quiet (sumBucketOffset tid),
    run_group watches_sumHist, run_group (watches_histogramStep L shift),
    run_group (watches_clearTables L)]

/-- The cells that the offsets of the waves are computed from and stored to. -/
theorem waveOffset_cells (previousWave : Thread → UInt32) (tid : Thread) :
    ∀ k ∈ (if tid.val < 8 * 16 then
        ((rows (previousWave tid) (tid.val / 16)).map fun v =>
          v.val * 16 + tid.val % 16) ++ [tid.val]
      else []), k < 8 * 16 := by
  intro k hk
  split at hk
  · rcases List.mem_append.mp hk with hk | hk
    · obtain ⟨v, _, rfl⟩ := List.mem_map.mp hk
      have hv := v.isLt
      omega
    · rw [List.mem_singleton.mp hk]
      assumption
  · exact absurd hk List.not_mem_nil

/-- With waves of at least 32 lanes a pass stays inside the wave tables. -/
theorem pass_inside {L : Launch} (hW : 32 ≤ L.waveSize.lanes) (shift : Nat)
    (r : PassRun L.waveSize) (g : Group) :
    ∀ k ∈ (pass L shift r (ofGroup g)).accesses, k < 8 * 16 := by
  unfold pass
  refine run_accesses (fun tid => watches_quiet (copyBack L tid)) _ _
    (fun _ _ k hk => absurd hk List.not_mem_nil) ?_
  refine run_accesses (watches_scatter L) _ _ (fun tid g k hk => ?_) ?_
  · split at hk
    · rw [List.mem_singleton.mp hk]
      exact (offsetCell L.waveSize tid (g.regs tid).bucket).isLt
    · exact absurd hk List.not_mem_nil
  refine run_accesses (watches_sumWaveOffset L r.previousWave) _ _
    (fun tid _ => waveOffset_cells r.previousWave tid) ?_
  refine run_accesses (fun tid => watches_quiet (sumBucketOffset tid)) _ _
    (fun _ _ k hk => absurd hk List.not_mem_nil) ?_
  refine run_accesses watches_sumHist _ _ (fun tid _ k hk => ?_) ?_
  · split at hk
    · obtain ⟨v, _, rfl⟩ := List.mem_map.mp hk
      have hv := v.isLt
      omega
    · exact absurd hk List.not_mem_nil
  refine run_accesses (watches_histogramStep L shift) _ _ (fun i _ k hk => ?_) ?_
  · cases i with
    | load tid => exact absurd hk List.not_mem_nil
    | count tid =>
      simp only at hk
      split at hk
      · obtain ⟨b, _, rfl⟩ := List.mem_map.mp hk
        have hwave := waveIndex_lt_eight hW tid
        have hb := b.isLt
        omega
      · exact absurd hk List.not_mem_nil
  refine run_accesses (watches_clearTables L) _ _ (fun tid _ k hk => ?_) ?_
  · split at hk
    · simp only [List.mem_cons, List.not_mem_nil, or_false, or_self] at hk
      rw [hk]
      assumption
    · exact absurd hk List.not_mem_nil
  · exact fun k hk => absurd hk List.not_mem_nil

/-- The thread 128 is lane 0 of a wave that has no row. -/
theorem lane_zero_of_small {W : WaveSize} (hW : W.lanes < 32) :
    lane W 128 = 0 ∧ 8 ≤ waveIndex W 128 := by
  have hadmitted := W.admitted
  simp only [List.mem_cons, List.not_mem_nil, or_false] at hadmitted
  unfold lane waveIndex
  have h128 : (128 : Thread).val = 128 := rfl
  rw [h128]
  rcases hadmitted with h | h | h | h | h | h <;> rw [h] at hW ⊢ <;> omega

/-- With smaller waves it stores behind `WaveBucketCounts`. -/
theorem pass_outside {L : Launch} (hW : L.waveSize.lanes < 32) (shift : Nat)
    (r : PassRun L.waveSize) (s : Watched) :
    waveIndex L.waveSize 128 * 16 ∈ (pass L shift r s).accesses := by
  unfold pass
  apply subset_run_accesses fun tid => watches_quiet (copyBack L tid)
  apply subset_run_accesses (watches_scatter L)
  apply subset_run_accesses (watches_sumWaveOffset L r.previousWave)
  apply subset_run_accesses fun tid => watches_quiet (sumBucketOffset tid)
  apply subset_run_accesses watches_sumHist
  refine mem_run_accesses (watches_histogramStep L shift) _ _
    (i := .count 128) (r.histogram.mem_iff.mpr (mem_histogramSteps _)) ?_
  intro _
  simp only [if_pos (lane_zero_of_small hW).1]
  exact List.mem_map.mpr ⟨0, List.mem_finRange 0, rfl⟩

end Watched

/-! ## The tables fit -/

/-- What a pass promises about the wave tables: every access stays inside,
and the histogram, summed up over `waveNb` rows, counts every active key
once. -/
structure TablesFit (L : Launch) (shift : Nat) (r : PassRun L.waveSize)
    (g : Group) : Prop where
  inside : ∀ k ∈ (Watched.pass L shift r (.ofGroup g)).accesses, k < 8 * 16
  counted : ∀ b, ((countingPhases L shift r g).hist b).toNat =
    #{u | L.active u ∧ digit (g.keysA u) shift = b}
  total : ∑ b, ((countingPhases L shift r g).hist b).toNat = min L.count 256

/-- Every active key lies in one bucket. -/
theorem sum_bucketCount_univ (L : Launch) (f : Thread → Fin 16) :
    ∑ b, bucketCount L f b = min L.count 256 := by
  have hcard : #(activeSet L) = min L.count 256 := by
    rw [activeSet, Fin.card_filter_val_lt, Nat.min_comm]
  rw [← hcard, card_eq_sum_card_fiberwise (t := univ) (f := f) (by simp)]
  rfl

/-- The wave tables fit a pass exactly when the waves have at least 32
lanes. -/
theorem tablesFit_iff (L : Launch) (shift : Nat) (r : PassRun L.waveSize)
    (g : Group) : TablesFit L shift r g ↔ 32 ≤ L.waveSize.lanes := by
  constructor
  · intro h
    by_contra hW
    have hsmall : L.waveSize.lanes < 32 := Nat.lt_of_not_le hW
    have hin := h.inside _ (Watched.pass_outside hsmall shift r _)
    have hrow := (Watched.lane_zero_of_small hsmall).2
    omega
  · intro hW
    have hhist : ∀ b, ((countingPhases L shift r g).hist b).toNat =
        bucketCount L (digits shift g.keysA) b := by
      intro b
      rw [countingPhases_eq L shift hW]
      exact toNat_ofNat_of_le (bucketCount_le ..)
    refine ⟨Watched.pass_inside hW shift r g, fun b => ?_, ?_⟩
    · rw [hhist, bucketCount, activeSet, filter_filter]
      rfl
    · simp only [hhist]
      exact sum_bucketCount_univ L _

/-- With waves of 16 lanes the thread 128 stores `WaveBucketCounts[128]`. -/
theorem tables_overrun_sixteen_lanes :
    let L : Launch := ⟨⟨16, by decide⟩, 1, fun _ => 0, id⟩
    let r := PassRun.listed L.waveSize fun _ => 0
    let g := Group.start (Shared.fill 0)
    128 ∈ (Watched.pass L 0 r (.ofGroup g)).accesses ∧
      ¬TablesFit L 0 r g := by
  intro L r g
  have hrow : waveIndex ⟨16, by decide⟩ 128 * 16 = 128 := by decide
  have hmem : waveIndex ⟨16, by decide⟩ 128 * 16 ∈
      (Watched.pass L 0 r (.ofGroup g)).accesses :=
    Watched.pass_outside (by decide) 0 r _
  rw [hrow] at hmem
  exact ⟨hmem, fun h => absurd (h.inside 128 hmem) (by decide)⟩

/-! ## The prefix sums -/

section PrefixSums

variable (L : Launch) (previousWave : Thread → UInt32) (o : ThreadOrder)
  (g : Group)

/-- The sum of the rows before `w` in the column of the bucket. -/
def columnSum (w : Fin 8) (b : Fin 16) : Nat :=
  ∑ v with v < w, (g.waveBucketCounts (cell v b)).toNat

/-- The part of that sum that the loop of the thread `w * 16 + b` skips. -/
def skippedSum (w : Fin 8) (b : Fin 16) : Nat :=
  ∑ v : Fin 8 with v < w ∧
      v.val < (previousWave (cellThread (cell w b))).toNat,
    (g.waveBucketCounts (cell v b)).toNat

/-- The part that it visits. -/
def visitedSum (w : Fin 8) (b : Fin 16) : Nat :=
  ∑ v : Fin 8 with
      (previousWave (cellThread (cell w b))).toNat ≤ v.val ∧ v < w,
    (g.waveBucketCounts (cell v b)).toNat

theorem skippedSum_add_visitedSum (w : Fin 8) (b : Fin 16) :
    skippedSum previousWave g w b + visitedSum previousWave g w b =
      columnSum g w b := by
  unfold skippedSum visitedSum columnSum
  rw [← sum_filter_add_sum_filter_not (univ.filter fun v => v < w)
    (fun v => v.val < (previousWave (cellThread (cell w b))).toNat),
    filter_filter, filter_filter]
  congr 2
  refine filter_congr fun v _ => ?_
  rw [Nat.not_lt, and_comm]

/-- What a pass promises about the offsets of the waves, with the given
notion of equality: they are the prefix sums of the counts, which stay as they
are, and every access stays inside the tables. -/
structure PrefixSums (equal : Nat → Nat → Prop) : Prop where
  offsets : ∀ w b, equal
    ((runSteps (Watched.sumWaveOffset L previousWave) o.order
      (.ofGroup g)).group.waveBucketOffsets (cell w b)).toNat (columnSum g w b)
  inside : ∀ k ∈ (runSteps (Watched.sumWaveOffset L previousWave) o.order
    (.ofGroup g)).accesses, k < 8 * 16
  counts : (runSteps (Watched.sumWaveOffset L previousWave) o.order
    (.ofGroup g)).group.waveBucketCounts = g.waveBucketCounts

theorem run_watched_sumWaveOffset :
    (runSteps (Watched.sumWaveOffset L previousWave) o.order
      (.ofGroup g)).group = runSteps (sumWaveOffset previousWave) o.order g :=
  Watched.run_group (Watched.watches_sumWaveOffset L previousWave) _ _

/-- The offsets are the sums of the visited rows, in 32 bits. -/
theorem waveOffset_toNat (w : Fin 8) (b : Fin 16) :
    ((runSteps (Watched.sumWaveOffset L previousWave) o.order
      (.ofGroup g)).group.waveBucketOffsets (cell w b)).toNat =
      visitedSum previousWave g w b % 2 ^ 32 := by
  have hwords : ∀ x : UInt32, x = UInt32.ofNat x.toNat :=
    fun x => UInt32.ofNat_toNat.symm
  rw [run_watched_sumWaveOffset, run_sumWaveOffset]
  simp only [cellWave_cell, cellBucket_cell]
  rw [funext fun v => hwords (g.waveBucketCounts (cell v b)), previousWaves,
    sumWords_ofNat _ ((List.nodup_finRange _).filter _), UInt32.toNat_ofNat']
  congr 1
  unfold visitedSum
  simp [List.toFinset_filter]

/-- All but the offsets holds whatever `previousWave` is. -/
theorem prefixSums_iff_offsets {equal : Nat → Nat → Prop} :
    PrefixSums L previousWave o g equal ↔
      ∀ w b, equal (visitedSum previousWave g w b % 2 ^ 32)
        (columnSum g w b) := by
  simp only [← waveOffset_toNat L previousWave o g]
  refine ⟨fun h => h.offsets, fun h => ⟨h, ?_, ?_⟩⟩
  · exact Watched.run_accesses (Watched.watches_sumWaveOffset L previousWave)
      _ _ (fun tid _ => Watched.waveOffset_cells previousWave tid)
      fun k hk => absurd hk List.not_mem_nil
  · rw [run_watched_sumWaveOffset, run_sumWaveOffset]

/-- The wave-offset phase leaves the prefix sums in 32-bit arithmetic exactly
when what the loops skip is 0 there, and it leaves them as numbers exactly
when, besides, they fit a word. -/
theorem prefixSums_iff :
    (PrefixSums L previousWave o g (· ≡ · [MOD 2 ^ 32]) ↔
      ∀ w b, skippedSum previousWave g w b ≡ 0 [MOD 2 ^ 32]) ∧
    (PrefixSums L previousWave o g (· = ·) ↔
      ∀ w b, skippedSum previousWave g w b = 0 ∧ columnSum g w b < 2 ^ 32) := by
  have hsplit := skippedSum_add_visitedSum previousWave g
  constructor
  · rw [prefixSums_iff_offsets]
    refine forall_congr' fun w => forall_congr' fun b => ?_
    rw [← hsplit w b]
    unfold Nat.ModEq
    omega
  · rw [prefixSums_iff_offsets]
    refine forall_congr' fun w => forall_congr' fun b => ?_
    rw [← hsplit w b]
    omega

end PrefixSums

/-- When `previousWave` holds 8, the loops visit no row, and a count in the
first row is lost. -/
theorem offsets_lose_first_row :
    let L : Launch := ⟨⟨32, by decide⟩, 256, fun _ => 0, id⟩
    let g := Group.start (Shared.fill 1)
    columnSum g 1 0 = 1 ∧
      ((runSteps (Watched.sumWaveOffset L fun _ => 8) ThreadOrder.listed.order
        (.ofGroup g)).group.waveBucketOffsets (cell 1 0)).toNat = 0 ∧
      ¬PrefixSums L (fun _ => 8) ThreadOrder.listed g (· ≡ · [MOD 2 ^ 32]) := by
  intro L g
  have hcolumn : columnSum g 1 0 = 1 := by decide
  have hvisited : visitedSum (fun _ => 8) g 1 0 = 0 := by decide
  have hoffset := waveOffset_toNat L (fun _ => 8) ThreadOrder.listed g 1 0
  rw [hvisited] at hoffset
  refine ⟨hcolumn, hoffset, fun h => ?_⟩
  have hequal := h.offsets 1 0
  rw [hoffset, hcolumn] at hequal
  exact absurd hequal (by decide)

end VulkanCompute.Shader
