import VulkanCompute.Shader.Kernel

/-!
# The effect of every phase

Each lemma `run_…` says what one phase does to the whole group, for every
order of its threads.  All phases but `scatter` write every cell at most
once, so their result is a function of the group before the phase:

* `run_clearTables`, `run_sumHist`, `run_sumBucketOffset`,
  `run_sumWaveOffset`, `run_copyBack`: thread `k` alone writes the cell `k`;
* `run_histogram`: lane 0 of a wave writes the row of the wave.  This is the
  one phase whose threads wait for each other, and the invariant of the proof
  is the state after any prefix of the order;
* `run_scatter`: several threads may want the same cell of `KeysB`, so the
  result is a run of `Lib.storeStep`.

`run_histogram` and everything that rests on it asks for waves of at least 32
lanes.  With smaller waves the group has more than eight waves, and lane 0 of
the ninth stores outside `WaveBucketCounts`.
-/

namespace VulkanCompute.Shader

open Lib Finset

/-! ## Phases in which thread `k` writes cell `k` -/

/-- The cell of a table of `n` cells that the thread owns. -/
def ownCell (n : Nat) (tid : Thread) : Option (Fin n) :=
  if h : tid.val < n then some ⟨tid, h⟩ else none

theorem ownCell_eq_some {n : Nat} {tid : Thread} {k : Fin n} :
    ownCell n tid = some k ↔ tid.val = k.val := by
  rw [ownCell]
  split
  · rw [Option.some.injEq, Fin.ext_iff]
  · have := k.isLt
    simp
    omega

/-- A phase in which every thread writes the cell it owns fills the table. -/
theorem runSteps_ownCell {β : Type*} {n : Nat} (hn : n ≤ 256)
    (o : ThreadOrder) (val : Thread → β) (table : Fin n → β) :
    runSteps (storeStep (ownCell n) val) o.order table =
      fun k => val (k.castLE hn) := by
  funext k
  refine runSteps_storeStep_of_mem (i := k.castLE hn) ?_ ?_ ?_ table
  · exact o.mem_iff.mpr (List.mem_finRange _)
  · exact ownCell_eq_some.mpr rfl
  · intro j _ hj
    have hval : j.val = k.val := ownCell_eq_some.mp hj
    have hjk : j = k.castLE hn := Fin.ext hval
    rw [hjk]

@[simp] theorem cell_cellWave (k : Fin (8 * 16)) :
    cell (cellWave k) (cellBucket k) = k := by
  apply Fin.ext
  simp only [cell, cellWave, cellBucket]
  omega

theorem cell_eq_iff {w : Fin 8} {b : Fin 16} {k : Fin (8 * 16)} :
    cell w b = k ↔ w = cellWave k ∧ b = cellBucket k := by
  rw [Fin.ext_iff, Fin.ext_iff, Fin.ext_iff]
  simp only [cell, cellWave, cellBucket]
  omega

@[simp] theorem cellWave_cell (w : Fin 8) (b : Fin 16) :
    cellWave (cell w b) = w :=
  (cell_eq_iff.mp rfl).1.symm

@[simp] theorem cellBucket_cell (w : Fin 8) (b : Fin 16) :
    cellBucket (cell w b) = b :=
  (cell_eq_iff.mp rfl).2.symm

/-- Clearing by one thread, table by table. -/
theorem clearTables_eq (tid : Thread) (g : Group) :
    clearTables tid g =
      { g with
        hist := storeStep (ownCell 16) (fun _ => 0) tid g.hist
        waveBucketCounts :=
          storeStep (ownCell _) (fun _ => 0) tid g.waveBucketCounts
        waveBucketOffsets :=
          storeStep (ownCell _) (fun _ => 0) tid g.waveBucketOffsets } := by
  by_cases h16 : tid.val < 16
  · have h128 : tid.val < 8 * 16 := by omega
    simp [clearTables, clearHist, clearWaveTables, storeStep, ownCell, h16,
      h128]
  · by_cases h128 : tid.val < 8 * 16 <;>
      simp [clearTables, clearHist, clearWaveTables, storeStep, ownCell, h16,
        h128]

/-- The clearing phase leaves zeros in the three tables. -/
theorem run_clearTables (o : ThreadOrder) (g : Group) :
    runSteps clearTables o.order g =
      { g with
        hist := fun _ => 0
        waveBucketCounts := fun _ => 0
        waveBucketOffsets := fun _ => 0 } := by
  have hrun : ∀ (order : List Thread) (g : Group),
      runSteps clearTables order g =
        { g with
          hist := runSteps (storeStep (ownCell 16) fun _ => 0) order g.hist
          waveBucketCounts := runSteps (storeStep (ownCell _) fun _ => 0)
            order g.waveBucketCounts
          waveBucketOffsets := runSteps (storeStep (ownCell _) fun _ => 0)
            order g.waveBucketOffsets } := by
    intro order
    induction order with
    | nil => intro g; rfl
    | cons tid order ih =>
      intro g
      rw [runSteps_cons, ih, clearTables_eq]
      rfl
  rw [hrun, runSteps_ownCell (by omega), runSteps_ownCell (by omega),
    runSteps_ownCell (by omega)]

/-- The bucket totals. -/
theorem run_sumHist (o : ThreadOrder) (g : Group) :
    runSteps sumHist o.order g =
      { g with
        hist := fun b => sumWords (List.finRange waveNb) fun w =>
          g.waveBucketCounts (cell w b) } := by
  have hstep : ∀ tid (h : Fin 16 → UInt32),
      sumHist tid { g with hist := h } =
        { g with
          hist := storeStep (ownCell 16)
            (fun t => sumWords (List.finRange waveNb) fun w =>
              g.waveBucketCounts (cell w (Fin.ofNat 16 t))) tid h } := by
    intro tid h
    by_cases h16 : tid.val < 16
    · simp [sumHist, storeStep, ownCell, h16, Fin.ofNat, Nat.mod_eq_of_lt]
    · simp [sumHist, storeStep, ownCell, h16]
  have hrun := runSteps_hom (fun h => { g with hist := h }) hstep o.order
    g.hist
  rw [runSteps_ownCell (by omega)] at hrun
  rw [hrun]
  simp

/-- The bucket starts. -/
theorem run_sumBucketOffset (o : ThreadOrder) (g : Group) :
    runSteps sumBucketOffset o.order g =
      { g with
        bucketOffset := fun b =>
          sumWords ((List.finRange 16).filter (· < b)) g.hist } := by
  have hstep : ∀ tid (h : Fin 16 → UInt32),
      sumBucketOffset tid { g with bucketOffset := h } =
        { g with
          bucketOffset := storeStep (ownCell 16)
            (fun t => sumWords
              ((List.finRange 16).filter (·.val < t.val)) g.hist) tid h } := by
    intro tid h
    by_cases h16 : tid.val < 16
    · simp [sumBucketOffset, storeStep, ownCell, h16]
    · simp [sumBucketOffset, storeStep, ownCell, h16]
  have hrun := runSteps_hom (fun h => { g with bucketOffset := h }) hstep
    o.order g.bucketOffset
  rw [runSteps_ownCell (by omega)] at hrun
  exact hrun

/-- The offsets of the waves inside the buckets, for any first value of the
loop variable. -/
theorem run_sumWaveOffset (previousWave : Thread → UInt32) (o : ThreadOrder)
    (g : Group) :
    runSteps (sumWaveOffset previousWave) o.order g =
      { g with
        waveBucketOffsets := fun k =>
          sumWords (previousWaves (previousWave (cellThread k)) (cellWave k))
            fun v => g.waveBucketCounts (cell v (cellBucket k)) } := by
  have hstep : ∀ tid (h : Fin (8 * 16) → UInt32),
      sumWaveOffset previousWave tid { g with waveBucketOffsets := h } =
        { g with
          waveBucketOffsets := storeStep (ownCell (8 * 16))
            (fun t =>
              sumWords (previousWaves (previousWave t)
                (cellWave (Fin.ofNat (8 * 16) t)))
                fun v => g.waveBucketCounts
                  (cell v (cellBucket (Fin.ofNat (8 * 16) t)))) tid h } := by
    intro tid h
    by_cases h128 : tid.val < 8 * 16
    · have hk : Fin.ofNat (8 * 16) tid = ⟨tid, h128⟩ :=
        Fin.ext (Nat.mod_eq_of_lt h128)
      simp only [sumWaveOffset, storeStep, ownCell, h128, dif_pos, hk,
        cell_cellWave]
    · simp only [sumWaveOffset, storeStep, ownCell, h128, dif_neg,
        not_false_eq_true]
  have hrun := runSteps_hom (fun h => { g with waveBucketOffsets := h }) hstep
    o.order g.waveBucketOffsets
  have hk : ∀ k : Fin (8 * 16), Fin.ofNat (8 * 16) k = k :=
    fun k => Fin.ext (Nat.mod_eq_of_lt k.isLt)
  rw [runSteps_ownCell (by omega)] at hrun
  simp only [Fin.val_castLE, hk] at hrun
  exact hrun

/-! ## Phases of the active threads -/

/-- A phase in which the active threads write their own cell. -/
theorem runSteps_activeCell {β : Type*} (L : Launch) (o : ThreadOrder)
    (val : Thread → β) (table : Thread → β) :
    runSteps (storeStep (fun t => if L.active t then some t else none) val)
        o.order table =
      fun tid => if L.active tid then val tid else table tid := by
  have howner : ∀ {j tid : Thread},
      (if L.active j then some j else none) = some tid →
        j = tid ∧ L.active tid := by
    intro j tid hj
    split at hj
    · rename_i hactive
      exact ⟨Option.some.inj hj, Option.some.inj hj ▸ hactive⟩
    · exact absurd hj (by simp)
  funext tid
  by_cases hactive : L.active tid
  · rw [if_pos hactive]
    refine runSteps_storeStep_of_mem (i := tid) ?_ (if_pos hactive) ?_ _
    · exact o.mem_iff.mpr (List.mem_finRange _)
    · intro j _ hj
      rw [(howner hj).1]
  · rw [if_neg hactive]
    exact runSteps_storeStep_of_forall_ne
      (fun j _ hj => hactive (howner hj).2) _

/-- The active threads take their keys back from `KeysB`. -/
theorem run_copyBack (L : Launch) (o : ThreadOrder) (g : Group) :
    runSteps (copyBack L) o.order g =
      { g with
        keysA := fun tid =>
          if L.active tid then g.keysB tid else g.keysA tid } := by
  have hstep : ∀ tid (h : Fin 256 → UInt32),
      copyBack L tid { g with keysA := h } =
        { g with
          keysA := storeStep (fun t => if L.active t then some t else none)
            g.keysB tid h } := by
    intro tid h
    by_cases hactive : L.active tid <;>
      simp [copyBack, storeStep, hactive]
  have hrun := runSteps_hom (fun h => { g with keysA := h }) hstep o.order
    g.keysA
  rw [runSteps_activeCell] at hrun
  exact hrun

/-- The active threads load their keys, and nothing else is read. -/
theorem run_loadInput (L : Launch) (o : ThreadOrder) (g : Group) :
    runSteps (loadInput L) o.order g =
      { g with
        keysA := fun tid =>
          if L.active tid then (L.inputKeys tid).toUInt32 else g.keysA tid
        inputReads := g.inputReads ++
          (o.order.filter fun tid => L.active tid).map Fin.val } := by
  have hrun : ∀ (order : List Thread) (g : Group),
      runSteps (loadInput L) order g =
        { g with
          keysA := runSteps
            (storeStep (fun t => if L.active t then some t else none)
              fun t => (L.inputKeys t).toUInt32) order g.keysA
          inputReads := g.inputReads ++
            (order.filter fun tid => L.active tid).map Fin.val } := by
    intro order
    induction order with
    | nil =>
      intro g
      simp
    | cons tid order ih =>
      intro g
      rw [runSteps_cons, ih]
      by_cases hactive : L.active tid <;>
        simp [loadInput, storeStep, hactive]
  rw [hrun, runSteps_activeCell]

/-- The cell of `KeysB` that the thread stores to. -/
def scatterCell (L : Launch) (dstOf : Thread → Nat) (tid : Thread) :
    Option (Fin 256) :=
  if L.active tid then
    if h : dstOf tid < 256 then some ⟨dstOf tid, h⟩ else none
  else none

theorem scatterCell_eq_some {L : Launch} {dstOf : Thread → Nat}
    {tid : Thread} {j : Fin 256} :
    scatterCell L dstOf tid = some j ↔ L.active tid ∧ dstOf tid = j := by
  have hj := j.isLt
  unfold scatterCell
  split
  · rename_i hactive
    split
    · simp only [Option.some.injEq, Fin.ext_iff, hactive, true_and]
    · simp only [hactive, true_and, reduceCtorEq, false_iff]
      omega
  · rename_i hactive
    simp only [hactive, false_and, reduceCtorEq]

/-- The scatter phase, when no store misses the array or those that do are
dropped. -/
theorem run_scatter (L : Launch) (o : ThreadOrder) (g : Group)
    (hoob : L.oob = id ∨ ∀ tid, L.active tid → (dst L g tid).toNat < 256) :
    runSteps (scatter L) o.order g =
      { g with
        keysB := runSteps
          (storeStep (scatterCell L fun t => (dst L g t).toNat)
            fun t => (g.regs t).key)
          o.order g.keysB } := by
  have hstep : ∀ tid (h : Fin 256 → UInt32),
      scatter L tid { g with keysB := h } =
        { g with
          keysB := storeStep (scatterCell L fun t => (dst L g t).toNat)
            (fun t => (g.regs t).key) tid h } := by
    intro tid h
    have hsame : dst L { g with keysB := h } tid = dst L g tid := rfl
    by_cases hactive : L.active tid
    · by_cases hlt : (dst L g tid).toNat < 256
      · simp only [scatter, if_pos hactive, hsame, dif_pos hlt, storeStep,
          scatterCell]
      · have hid : L.oob = id := by
          rcases hoob with hid | hall
          · exact hid
          · exact absurd (hall tid hactive) hlt
        simp only [scatter, if_pos hactive, hsame, dif_neg hlt, storeStep,
          scatterCell, hid, id]
    · simp only [scatter, if_neg hactive, storeStep, scatterCell]
  exact runSteps_hom (fun h => { g with keysB := h }) hstep o.order g.keysB

/-! ## The histogram phase -/

theorem waveIndex_lt_eight {W : WaveSize} (hW : 32 ≤ W.lanes) (tid : Thread) :
    waveIndex W tid < 8 := by
  have htid := tid.isLt
  exact (Nat.div_lt_iff_lt_mul (by omega)).mpr (by omega)

/-- The registers of a thread once it has loaded them. -/
def loadedRegs (L : Launch) (shift : Nat) (a : Thread → UInt32)
    (tid : Thread) : Regs :=
  if L.active tid then ⟨a tid, digit (a tid) shift⟩ else .zero

/-- What lane 0 of the wave `v` counts in the bucket `b`. -/
def countOf (L : Launch) (regs : Thread → Regs) (v : Nat) (b : Fin 16) :
    UInt32 :=
  waveActiveCountBits L.waveSize v (inBucket L regs b)

/-- The loop over the buckets in lane 0, as a run of stores. -/
theorem countWave_of_lane_zero (L : Launch) {tid : Thread} {w : Fin 8}
    (hlane : lane L.waveSize tid = 0)
    (hw : waveIndex L.waveSize tid = w) (g : Group) :
    countWave L tid g =
      { g with
        waveBucketCounts := runSteps
          (storeStep (fun b => some (cell w b)) (countOf L g.regs w))
          (List.finRange 16) g.waveBucketCounts } := by
  let store : Fin 16 → Group → Group := fun b g =>
    storeWaveBucketCount L (w.val * 16 + b) (countOf L g.regs w b) g
  have hstep : ∀ (b : Fin 16) (h : Fin (8 * 16) → UInt32),
      store b { g with waveBucketCounts := h } =
        { g with
          waveBucketCounts := storeStep (fun b => some (cell w b))
            (countOf L g.regs w) b h } := by
    intro b h
    have hlt : w.val * 16 + b < 8 * 16 := (cell w b).isLt
    simp only [store, storeWaveBucketCount, dif_pos hlt]
    rfl
  have hfold : countWave L tid g = runSteps store (List.finRange 16) g := by
    simp only [countWave, if_pos hlane, hw, runSteps, store, countOf]
  have hrun := runSteps_hom (fun h => { g with waveBucketCounts := h }) hstep
    (List.finRange 16) g.waveBucketCounts
  rw [hfold]
  exact hrun

/-- A lane other than 0 stores nothing. -/
theorem countWave_of_lane_ne_zero (L : Launch) {tid : Thread}
    (hlane : lane L.waveSize tid ≠ 0) (g : Group) : countWave L tid g = g := by
  have hid : ∀ (buckets : List (Fin 16)) (g : Group),
      buckets.foldl (fun g _ => g) g = g := by
    intro buckets
    induction buckets with
    | nil => intro g; rfl
    | cons b buckets ih => intro g; exact ih g
  simp only [countWave, if_neg hlane, hid]

/-- Writing the sixteen cells of the row `w`. -/
theorem runSteps_row (w : Fin 8) (val : Fin 16 → UInt32)
    (table : Fin (8 * 16) → UInt32) (k : Fin (8 * 16)) :
    runSteps (storeStep (fun b => some (cell w b)) val) (List.finRange 16)
        table k =
      if w = cellWave k then val (cellBucket k) else table k := by
  have hcell : ∀ b : Fin 16, some (cell w b) = some k ↔
      w = cellWave k ∧ b = cellBucket k := by
    intro b
    rw [Option.some.injEq, cell_eq_iff]
  by_cases hk : w = cellWave k
  · rw [if_pos hk]
    have howner := (hcell (cellBucket k)).mpr ⟨hk, rfl⟩
    refine runSteps_storeStep_of_mem (List.mem_finRange (cellBucket k))
      howner ?_ table
    intro b _ hb
    rw [((hcell b).mp hb).2]
  · rw [if_neg hk]
    refine runSteps_storeStep_of_forall_ne ?_ table
    intro b _ hb
    exact hk ((hcell b).mp hb).1

/-- Counting by one thread: lane 0 writes the row of its wave. -/
theorem countWave_eq (L : Launch) (hW : 32 ≤ L.waveSize.lanes) (tid : Thread)
    (g : Group) :
    countWave L tid g =
      { g with
        waveBucketCounts := fun k =>
          if lane L.waveSize tid = 0 ∧ waveIndex L.waveSize tid = cellWave k then
            countOf L g.regs (waveIndex L.waveSize tid) (cellBucket k)
          else g.waveBucketCounts k } := by
  by_cases hlane : lane L.waveSize tid = 0
  · rw [countWave_of_lane_zero L hlane
      (w := ⟨_, waveIndex_lt_eight hW tid⟩) rfl]
    simp only [funext (runSteps_row _ _ _), hlane, true_and, Fin.ext_iff]
  · simp only [countWave_of_lane_ne_zero L hlane, hlane, false_and, if_false]

theorem mem_histogramSteps (i : HistogramStep) : i ∈ histogramSteps := by
  cases i with
  | load tid =>
    exact List.mem_append_left _
      (List.mem_map_of_mem (List.mem_finRange tid))
  | count tid =>
    exact List.mem_append_right _
      (List.mem_map_of_mem (List.mem_finRange tid))

/-- The registers after the steps `done` of the histogram phase. -/
def regsAfter (L : Launch) (shift : Nat) (g : Group)
    (done : List HistogramStep) (u : Thread) : Regs :=
  if .load u ∈ done then loadedRegs L shift g.keysA u else g.regs u

/-- The counts after the steps `done` of the histogram phase. -/
def countsAfter (L : Launch) (shift : Nat) (g : Group)
    (done : List HistogramStep) (k : Fin (8 * 16)) : UInt32 :=
  if ∃ tid, .count tid ∈ done ∧ lane L.waveSize tid = 0 ∧
      waveIndex L.waveSize tid = cellWave k then
    countOf L (loadedRegs L shift g.keysA) (cellWave k) (cellBucket k)
  else g.waveBucketCounts k

theorem regsAfter_load (L : Launch) (shift : Nat) (g : Group)
    (done : List HistogramStep) (tid : Thread) :
    regsAfter L shift g (done ++ [.load tid]) =
      Function.update (regsAfter L shift g done) tid
        (loadedRegs L shift g.keysA tid) := by
  funext u
  by_cases hu : u = tid
  · subst hu
    simp [regsAfter]
  · simp [regsAfter, hu]

theorem regsAfter_count (L : Launch) (shift : Nat) (g : Group)
    (done : List HistogramStep) (tid : Thread) :
    regsAfter L shift g (done ++ [.count tid]) = regsAfter L shift g done := by
  funext u
  simp [regsAfter]

theorem countsAfter_load (L : Launch) (shift : Nat) (g : Group)
    (done : List HistogramStep) (tid : Thread) :
    countsAfter L shift g (done ++ [.load tid]) =
      countsAfter L shift g done := by
  funext k
  simp [countsAfter]

theorem countsAfter_count (L : Launch) (shift : Nat) (g : Group)
    (done : List HistogramStep) (tid : Thread) :
    countsAfter L shift g (done ++ [.count tid]) = fun k : Fin (8 * 16) =>
      if lane L.waveSize tid = 0 ∧ waveIndex L.waveSize tid = cellWave k then
        countOf L (loadedRegs L shift g.keysA) (waveIndex L.waveSize tid)
          (cellBucket k)
      else countsAfter L shift g done k := by
  funext k
  by_cases hk : lane L.waveSize tid = 0 ∧ waveIndex L.waveSize tid = cellWave k
  · rw [if_pos hk, countsAfter, if_pos ⟨tid, by simp, hk⟩, hk.2]
  · have hrow : (∃ u, .count u ∈ done ++ [.count tid] ∧
        lane L.waveSize u = 0 ∧ waveIndex L.waveSize u = cellWave k) ↔
        ∃ u, .count u ∈ done ∧
          lane L.waveSize u = 0 ∧ waveIndex L.waveSize u = cellWave k := by
      refine exists_congr fun u => ?_
      simp only [List.mem_append, List.mem_singleton,
        HistogramStep.count.injEq]
      constructor
      · intro h
        obtain ⟨hu | rfl, hrow⟩ := h
        · exact ⟨hu, hrow⟩
        · exact absurd hrow hk
      · intro h
        obtain ⟨hu, hrow⟩ := h
        exact ⟨Or.inl hu, hrow⟩
    simp only [countsAfter, hrow, if_neg hk]

/-- What lane 0 counts once the lanes of its wave have loaded. -/
theorem countOf_regsAfter (L : Launch) (shift : Nat) (g : Group)
    {done : List HistogramStep} {v : Nat}
    (hloaded : ∀ u, waveIndex L.waveSize u = v → .load u ∈ done)
    (b : Fin 16) :
    countOf L (regsAfter L shift g done) v b =
      countOf L (loadedRegs L shift g.keysA) v b := by
  unfold countOf waveActiveCountBits
  congr 2
  ext u
  simp only [mem_filter, mem_univ, true_and]
  refine and_congr_right fun hu => ?_
  simp only [inBucket]
  rw [regsAfter, if_pos (hloaded u hu)]

/-- The histogram phase, for every order that the wave intrinsics allow: all
registers are loaded, and the row of every wave that has a lane 0 holds its
counts. -/
theorem run_histogram (L : Launch) (hW : 32 ≤ L.waveSize.lanes) (shift : Nat)
    (o : Schedule histogramSteps (waitsFor L.waveSize)) (g : Group) :
    runSteps (histogramStep L shift) o.order g =
      { g with
        regs := loadedRegs L shift g.keysA
        waveBucketCounts := fun k =>
          if ∃ tid, lane L.waveSize tid = 0 ∧
              waveIndex L.waveSize tid = cellWave k then
            countOf L (loadedRegs L shift g.keysA) (cellWave k)
              (cellBucket k)
          else g.waveBucketCounts k } := by
  have hrun := runSteps_induction (histogramStep L shift) o.order
    (fun done s => s = { g with
      regs := regsAfter L shift g done
      waveBucketCounts := countsAfter L shift g done }) g ?_ ?_
  · have hregs : regsAfter L shift g o.order =
        loadedRegs L shift g.keysA := by
      funext u
      rw [regsAfter, if_pos (o.mem_iff.mpr (mem_histogramSteps _))]
    have hcounts : countsAfter L shift g o.order = fun k : Fin (8 * 16) =>
        if ∃ tid, lane L.waveSize tid = 0 ∧
            waveIndex L.waveSize tid = cellWave k then
          countOf L (loadedRegs L shift g.keysA) (cellWave k) (cellBucket k)
        else g.waveBucketCounts k := by
      funext k
      simp only [countsAfter, o.mem_iff, mem_histogramSteps, true_and]
    rw [hrun, hregs, hcounts]
  · have hregs : regsAfter L shift g [] = g.regs := by
      funext u
      simp [regsAfter]
    have hcounts : countsAfter L shift g [] = g.waveBucketCounts := by
      funext k
      simp [countsAfter]
    rw [hregs, hcounts]
  · intro done i post hsplit s h
    subst h
    cases i with
    | load tid =>
      rw [regsAfter_load, countsAfter_load]
      rfl
    | count tid =>
      have hloaded : ∀ u, waveIndex L.waveSize u = waveIndex L.waveSize tid →
          .load u ∈ done := fun u hu =>
        o.mem_prefix hsplit (mem_histogramSteps _) (by simp) hu
      rw [regsAfter_count, countsAfter_count]
      simp only [histogramStep, countWave_eq L hW,
        countOf_regsAfter L shift g hloaded]

end VulkanCompute.Shader
