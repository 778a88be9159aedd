import VulkanCompute.Host.Buffers
import VulkanCompute.Shader.Phases

/-!
# Global memory

What a dispatch reads from `InputKeys` and stores to `OutputKeys`.

* `main_inputReads`: a group reads `InputKeys` in its load phase only, at the
  ids of its active threads.
* `mem_outputStores`: a store to `OutputKeys` comes from an active thread and
  carries its word of `KeysA`.
* `dispatch_cases`: a cell of `OutputKeys` below `Count` ends up with the
  word of one of the groups.

The shader indexes both buffers by the thread id inside the group, so a
dispatch never reaches an element from 256 on, however many groups there are
(`dispatch_covers_iff`).
-/

namespace VulkanCompute.Shader

open Lib Finset

/-! ## Reads -/

theorem storeWaveBucketCount_inputReads (L : Launch) (i : Nat) (v : UInt32)
    (g : Group) : (storeWaveBucketCount L i v g).inputReads = g.inputReads := by
  unfold storeWaveBucketCount
  split <;> rfl

theorem countWave_inputReads (L : Launch) (tid : Thread) (g : Group) :
    (countWave L tid g).inputReads = g.inputReads := by
  have hframe := runSteps_frame
    (fun (b : Fin 16) (g : Group) =>
      if lane L.waveSize tid = 0 then
        storeWaveBucketCount L (waveIndex L.waveSize tid * 16 + b)
          (waveActiveCountBits L.waveSize (waveIndex L.waveSize tid)
            (inBucket L g.regs b)) g
      else g)
    (fun g => g.inputReads)
    (fun b g => by
      by_cases hlane : lane L.waveSize tid = 0
      · simp only [if_pos hlane]
        exact storeWaveBucketCount_inputReads ..
      · simp only [if_neg hlane])
    (List.finRange 16) g
  exact hframe

theorem histogramStep_inputReads (L : Launch) (shift : Nat)
    (i : HistogramStep) (g : Group) :
    (histogramStep L shift i g).inputReads = g.inputReads := by
  cases i with
  | load tid => rfl
  | count tid => exact countWave_inputReads L tid g

/-- A pass reads no global memory. -/
theorem pass_inputReads (L : Launch) (shift : Nat) (r : PassRun L.waveSize)
    (g : Group) : (pass L shift r g).inputReads = g.inputReads := by
  have hscatter := runSteps_frame (scatter L) (fun g => g.inputReads)
    (fun tid g => by
      unfold scatter
      split
      · split <;> rfl
      · rfl) r.scatter.order
  have hhistogram := runSteps_frame (histogramStep L shift)
    (fun g => g.inputReads) (histogramStep_inputReads L shift)
    r.histogram.order
  unfold pass countingPhases
  simp only [run_copyBack, hscatter, run_sumWaveOffset, run_sumBucketOffset,
    run_sumHist, hhistogram, run_clearTables]

/-- A group reads `InputKeys` at the ids of its active threads. -/
theorem main_inputReads (L : Launch) (r : GroupRun L.waveSize) :
    (main L r).inputReads =
      (r.load.order.filter fun tid => L.active tid).map Fin.val := by
  have hpasses := runSteps_frame
    (fun i : Fin 8 => pass L (4 * i.val) (r.passes i)) (fun g => g.inputReads)
    (fun i g => pass_inputReads L (4 * i.val) (r.passes i) g)
    (List.finRange 8) (loadPhase L r)
  unfold main
  rw [hpasses]
  unfold loadPhase
  rw [run_loadInput]
  rfl

theorem mem_inputReads {L : Launch} {G : Nat} {D : DispatchRun L.waveSize G}
    {i : Nat} :
    i ∈ inputReads L D ↔ 0 < G ∧ i < 256 ∧ i < L.count := by
  unfold inputReads
  simp only [List.mem_flatMap, List.mem_finRange, true_and, main_inputReads,
    List.mem_map, List.mem_filter, decide_eq_true_eq]
  constructor
  · intro h
    obtain ⟨group, tid, ⟨_, hactive⟩, rfl⟩ := h
    exact ⟨group.pos, tid.isLt, hactive⟩
  · intro h
    obtain ⟨hG, hi, hactive⟩ := h
    refine ⟨⟨0, hG⟩, ⟨i, hi⟩, ⟨?_, hactive⟩, rfl⟩
    exact (D.group ⟨0, hG⟩).load.mem_iff.mpr (List.mem_finRange _)

/-! ## Stores -/

theorem mem_landing {W : WaveSize} {G : Nat} (D : DispatchRun W G)
    (group : Fin G) (tid : Thread) : (group, tid) ∈ D.landing.order :=
  D.landing.mem_iff.mpr
    (List.pair_mem_product.mpr ⟨List.mem_finRange _, List.mem_finRange _⟩)

theorem mem_outputStores {L : Launch} {G : Nat}
    {D : DispatchRun L.waveSize G} {i : Nat} {v : Int32} :
    (i, v) ∈ outputStores L D ↔
      ∃ group tid, L.active tid ∧ tid.val = i ∧
        ((main L (D.group group)).keysA tid).toInt32 = v := by
  unfold outputStores
  rw [List.mem_filterMap]
  constructor
  · intro h
    obtain ⟨⟨group, tid⟩, _, hstore⟩ := h
    unfold storeOutput at hstore
    split at hstore
    · rename_i hactive
      rw [Option.some.injEq, Prod.mk.injEq] at hstore
      exact ⟨group, tid, hactive, hstore⟩
    · exact absurd hstore (by simp)
  · intro h
    obtain ⟨group, tid, hactive, hi, hv⟩ := h
    refine ⟨(group, tid), mem_landing D group tid, ?_⟩
    unfold storeOutput
    rw [if_pos hactive, hi, hv]

/-- `OutputKeys` after a dispatch, as a phase of stores. -/
theorem dispatch_eq_runSteps (L : Launch) {G : Nat}
    (D : DispatchRun L.waveSize G) (outputKeys : Nat → Int32) :
    dispatch L D outputKeys =
      runSteps
        (storeStep
          (fun p : Fin G × Thread =>
            if L.active p.2 then some p.2.val else none)
          fun p => ((main L (D.group p.1)).keysA p.2).toInt32)
        D.landing.order outputKeys := by
  unfold dispatch outputStores runSteps
  rw [List.foldl_filterMap]
  congr 1
  funext out p
  unfold storeOutput storeStep
  by_cases hactive : L.active p.2
  · simp only [if_pos hactive]
  · simp only [if_neg hactive]

/-- A cell below `Count` holds the word of one of the groups. -/
theorem dispatch_cases (L : Launch) {G : Nat} (hG : 0 < G)
    (D : DispatchRun L.waveSize G) (outputKeys : Nat → Int32) {tid : Thread}
    (htid : L.active tid) :
    ∃ group, dispatch L D outputKeys tid =
      ((main L (D.group group)).keysA tid).toInt32 := by
  rw [dispatch_eq_runSteps]
  rcases runSteps_storeStep_cases
      (fun p : Fin G × Thread => if L.active p.2 then some p.2.val else none)
      (fun p => ((main L (D.group p.1)).keysA p.2).toInt32) D.landing.order
      outputKeys tid.val
    with ⟨⟨group, t⟩, _, hcell, hval⟩ | ⟨hnone, _⟩
  · split at hcell
    · have ht : t = tid := Fin.ext (Option.some.inj hcell)
      exact ⟨group, ht ▸ hval⟩
    · exact absurd hcell (by simp)
  · exact absurd (if_pos htid) (hnone _ (mem_landing D ⟨0, hG⟩ tid))

/-! ## The array of the host -/

/-- The dispatch stores exactly the elements below `n` and reads exactly the
elements below `n`. -/
def Covers (L : Launch) {G : Nat} (D : DispatchRun L.waveSize G) (n : Nat) :
    Prop :=
  {i | ∃ v, (i, v) ∈ outputStores L D} = Set.Iio n ∧
    {i | i ∈ inputReads L D} = Set.Iio n

theorem exists_mem_outputStores {L : Launch} {G : Nat}
    {D : DispatchRun L.waveSize G} {i : Nat} :
    (∃ v, (i, v) ∈ outputStores L D) ↔ 0 < G ∧ i < 256 ∧ i < L.count := by
  simp only [mem_outputStores]
  constructor
  · intro h
    obtain ⟨v, group, tid, hactive, rfl, _⟩ := h
    exact ⟨group.pos, tid.isLt, hactive⟩
  · intro h
    obtain ⟨hG, hi, hactive⟩ := h
    exact ⟨_, ⟨0, hG⟩, ⟨i, hi⟩, hactive, rfl, rfl⟩

/-- With at least one group, a dispatch reaches the elements below both
`Count` and 256. -/
theorem covers_iff {L : Launch} {G : Nat} (D : DispatchRun L.waveSize G)
    (hG : 0 < G) {n : Nat} : Covers L D n ↔ n = min 256 L.count := by
  have hstored : {i | ∃ v, (i, v) ∈ outputStores L D} =
      Set.Iio (min 256 L.count) := by
    ext i
    rw [Set.mem_ofPred_eq, exists_mem_outputStores, Set.mem_Iio, lt_min_iff]
    exact and_iff_right hG
  have hread : {i | i ∈ inputReads L D} = Set.Iio (min 256 L.count) := by
    ext i
    rw [Set.mem_ofPred_eq, mem_inputReads, Set.mem_Iio, lt_min_iff]
    exact and_iff_right hG
  unfold Covers
  rw [hstored, hread, and_self]
  constructor
  · intro h
    have hn := Set.ext_iff.mp h n
    have hmin := Set.ext_iff.mp h (min 256 L.count)
    simp only [Set.mem_Iio, lt_self_iff_false, false_iff, iff_false,
      not_lt] at hn hmin
    exact le_antisymm hmin hn
  · intro h
    rw [h]

/-- The dispatch of the host covers its array exactly when the array fits one
thread group. -/
theorem dispatch_covers_iff (ctx : Host.TContext) (hn : 1 ≤ ctx.numElements)
    (W : WaveSize) (oob : Shared → Shared) (memory : Nat → Int32)
    (D : DispatchRun W (Host.groupCount ctx)) :
    Covers (Host.submitWork W oob (Host.createBuffers ctx memory).2) D
        ctx.numElements.toNat ↔
      ctx.numElements.toNat ≤ 256 := by
  have hG : 0 < Host.groupCount ctx := UInt32.le_iff_toNat_le.mp hn
  have hcount : (Host.submitWork W oob
      (Host.createBuffers ctx memory).2).count = ctx.numElements.toNat := rfl
  refine (covers_iff (L := Host.submitWork W oob
    (Host.createBuffers ctx memory).2) D hG).trans ?_
  rw [hcount]
  omega

/-- The group whose threads run in the order of their ids. -/
def GroupRun.listed (W : WaveSize) (initial : Shared) : GroupRun W where
  initial := initial
  load := ThreadOrder.listed
  passes := fun _ => PassRun.listed W fun _ => 0

/-- The dispatch whose groups run and land in the order of their ids. -/
def DispatchRun.listed (W : WaveSize) (G : Nat) (initial : Shared) :
    DispatchRun W G where
  group := fun _ => GroupRun.listed W initial
  landing := Schedule.listed _

/-- The group whose threads run in the opposite order. -/
def GroupRun.reversed (W : WaveSize) (initial : Shared) : GroupRun W where
  initial := initial
  load := ThreadOrder.reversed
  passes := fun _ => PassRun.reversed W fun _ => 0

def DispatchRun.reversed (W : WaveSize) (G : Nat) (initial : Shared) :
    DispatchRun W G where
  group := fun _ => GroupRun.reversed W initial
  landing := Schedule.reversed _

/-- The shipped size is covered. -/
theorem dispatch_covers_ten :
    let W : WaveSize := ⟨32, by decide⟩
    let D : DispatchRun W (Host.groupCount {}) :=
      DispatchRun.listed W _ (Shared.fill 0)
    Covers (Host.submitWork W id (Host.createBuffers {} fun _ => 0).2) D 10 :=
  (dispatch_covers_iff {} (by decide) ⟨32, by decide⟩ id _ _).mpr (by decide)

/-- Of 257 elements the last one is never stored. -/
theorem dispatch_misses_element_256 :
    let W : WaveSize := ⟨32, by decide⟩
    let ctx : Host.TContext := { numElements := 257 }
    let D : DispatchRun W (Host.groupCount ctx) :=
      DispatchRun.listed W _ (Shared.fill 0)
    let L := Host.submitWork W id (Host.createBuffers ctx fun _ => 0).2
    (∀ v, (256, v) ∉ outputStores L D) ∧ ¬Covers L D 257 := by
  intro W ctx D L
  have hmissed : ∀ v, (256, v) ∉ outputStores L D := by
    intro v hmem
    have hlt := (exists_mem_outputStores.mp ⟨v, hmem⟩).2.1
    exact absurd hlt (by decide)
  refine ⟨hmissed, fun hcovers => ?_⟩
  have hmem : 256 ∈ {i | ∃ v, (i, v) ∈ outputStores L D} := by
    rw [hcovers.1]
    exact Set.mem_Iio.mpr (by decide)
  obtain ⟨v, hv⟩ := hmem
  exact hmissed v hv

end VulkanCompute.Shader
