import Mathlib.Data.Fintype.Card
import VulkanCompute.Lib.Schedule

/-!
# The compute kernel

`main` of `shaders/shader.hlsl`: one thread group of 256 threads sorts the
first `Count` words of `InputKeys` by a radix sort of eight passes, four bits
a pass.  The file follows the shader from top to bottom.

* `Launch` holds what the threads of a launch share: the wave size, `Count`
  and `InputKeys`.
* `Group` is the memory of one thread group: the six groupshared arrays, and
  the registers `key` and `bucket` that a thread keeps across barriers.
* One definition per phase, that is, per stretch of code between two
  `GroupMemoryBarrierWithGroupSync` points.  A phase is what one thread does;
  `Lib.runSteps` runs it for all threads in the order of a `Lib.Schedule`.
* `pass` is the body of the `shift` loop, `main` the whole kernel up to the
  last store, and `dispatch` the run of all thread groups.

Every value is a 32-bit word.  Thread ids, wave numbers and table indices are
natural numbers; they stay far below `2 ^ 32`.

## What the language leaves open

* The order of the threads inside a phase.  In every phase but the histogram
  a thread first loads from arrays that nobody writes in this phase and then
  stores at most one word to each array, so the order of whole threads covers
  every interleaving.  In the histogram phase the wave intrinsics make a lane
  wait for the other lanes of its wave, which `waitsFor` states.
* The first value of `previousWave`.  The loop of the wave-offset phase
  declares it without an initialiser, so `PassRun.previousWave` is arbitrary
  in every thread and every pass.
* The first contents of the groupshared arrays, `GroupRun.initial`.
* A groupshared store outside its array.  `Launch.oob` is its effect, an
  arbitrary change of the groupshared memory.
-/

namespace VulkanCompute.Shader

open Lib Finset

/-! ## Threads and waves -/

/-- `SV_GroupThreadID.x` under `[numthreads(256, 1, 1)]`. -/
abbrev Thread := Fin 256

/-- The values of `WaveGetLaneCount()` in shader model 6. -/
structure WaveSize where
  lanes : Nat
  admitted : lanes ∈ [4, 8, 16, 32, 64, 128]

/-- The size for which the tables of the shader are made. -/
def WaveSize.thirtyTwo : WaveSize := ⟨32, by decide⟩

theorem WaveSize.four_le (W : WaveSize) : 4 ≤ W.lanes := by
  have h := W.admitted
  simp only [List.mem_cons, List.not_mem_nil, or_false] at h
  omega

theorem WaveSize.le_lanes (W : WaveSize) : W.lanes ≤ 128 := by
  have h := W.admitted
  simp only [List.mem_cons, List.not_mem_nil, or_false] at h
  omega

/-- `WaveGetLaneIndex()`. -/
def lane (W : WaveSize) (tid : Thread) : Nat := tid % W.lanes

/-- `tid / waveSize`. -/
def waveIndex (W : WaveSize) (tid : Thread) : Nat := tid / W.lanes

/-- The number of waves that the shader assumes. -/
abbrev waveNb : Nat := 8

theorem waveIndex_lt (W : WaveSize) (tid : Thread) : waveIndex W tid < 64 := by
  have h := W.four_le
  have htid := tid.isLt
  exact (Nat.div_lt_iff_lt_mul (by omega)).mpr (by omega)

/-- `WaveActiveCountBits(expr)` in the given wave. -/
def waveActiveCountBits (W : WaveSize) (wave : Nat) (expr : Thread → Prop)
    [DecidablePred expr] : UInt32 :=
  UInt32.ofNat #{u | waveIndex W u = wave ∧ expr u}

/-- `WavePrefixCountBits(expr)` in the lane of `tid`. -/
def wavePrefixCountBits (W : WaveSize) (tid : Thread) (expr : Thread → Prop)
    [DecidablePred expr] : UInt32 :=
  UInt32.ofNat
    #{u | waveIndex W u = waveIndex W tid ∧ lane W u < lane W tid ∧ expr u}

/-! ## Memory -/

/-- The groupshared arrays. -/
structure Shared where
  keysA : Fin 256 → UInt32
  keysB : Fin 256 → UInt32
  hist : Fin 16 → UInt32
  bucketOffset : Fin 16 → UInt32
  waveBucketCounts : Fin (8 * 16) → UInt32
  waveBucketOffsets : Fin (8 * 16) → UInt32

/-- Groupshared memory with one word in every cell. -/
def Shared.fill (v : UInt32) : Shared where
  keysA := fun _ => v
  keysB := fun _ => v
  hist := fun _ => v
  bucketOffset := fun _ => v
  waveBucketCounts := fun _ => v
  waveBucketOffsets := fun _ => v

/-- The registers of one thread that live across a barrier. -/
structure Regs where
  key : UInt32
  bucket : Fin 16

def Regs.zero : Regs := ⟨0, 0⟩

/-- The memory of a thread group.  `inputReads` records the indices of
`InputKeys` that its threads have read. -/
structure Group extends Shared where
  regs : Thread → Regs
  inputReads : List Nat

/-- A group at its start. -/
def Group.start (initial : Shared) : Group where
  toShared := initial
  regs := fun _ => .zero
  inputReads := []

/-- What all threads of a launch share.  `oob` is the effect of a groupshared
store outside its array. -/
structure Launch where
  waveSize : WaveSize
  count : Nat
  inputKeys : Nat → Int32
  oob : Shared → Shared

/-- `active` of the thread `tid`. -/
abbrev Launch.active (L : Launch) (tid : Thread) : Prop := tid.val < L.count

/-- The index `w * 16 + b` of the two wave tables. -/
def cell (w : Fin 8) (b : Fin 16) : Fin (8 * 16) := ⟨w * 16 + b, by omega⟩

/-- The wave `k / 16` that the cell `k` is about. -/
def cellWave (k : Fin (8 * 16)) : Fin 8 := ⟨k / 16, by omega⟩

/-- The bucket `k % 16` that the cell `k` is about. -/
def cellBucket (k : Fin (8 * 16)) : Fin 16 := ⟨k % 16, by omega⟩

/-- The thread `k`, which owns the cell `k`. -/
def cellThread (k : Fin (8 * 16)) : Thread := k.castLE (by omega)

/-- `(key >> shift) & 15`. -/
def digit (key : UInt32) (shift : Nat) : Fin 16 :=
  ⟨((key >>> UInt32.ofNat shift) &&& 15).toNat, by
    rw [UInt32.toNat_and]
    exact Nat.lt_succ_of_le Nat.and_le_right⟩

/-- `sum += f(i)` for the values `i` of a loop. -/
def sumWords {α : Type*} (values : List α) (f : α → UInt32) : UInt32 :=
  values.foldl (fun sum i => sum + f i) 0

/-! ## The phases of a pass -/

/-- `KeysA[tid] = InputKeys[tid]`. -/
def loadInput (L : Launch) (tid : Thread) (g : Group) : Group :=
  if L.active tid then
    { g with
      keysA := Function.update g.keysA tid (L.inputKeys tid).toUInt32
      inputReads := g.inputReads ++ [tid.val] }
  else g

/-- Clear `Hist[tid]`. -/
def clearHist (tid : Thread) (g : Group) : Group :=
  if h : tid.val < 16 then
    { g with hist := Function.update g.hist ⟨tid, h⟩ 0 }
  else g

/-- Clear `WaveBucketCounts[tid]` and `WaveBucketOffsets[tid]`. -/
def clearWaveTables (tid : Thread) (g : Group) : Group :=
  if h : tid.val < 8 * 16 then
    { g with
      waveBucketCounts := Function.update g.waveBucketCounts ⟨tid, h⟩ 0
      waveBucketOffsets := Function.update g.waveBucketOffsets ⟨tid, h⟩ 0 }
  else g

def clearTables (tid : Thread) (g : Group) : Group :=
  clearWaveTables tid (clearHist tid g)

/-- The two halves of the histogram phase of a thread: it loads its registers
and then counts with its wave. -/
inductive HistogramStep where
  | load (tid : Thread)
  | count (tid : Thread)
deriving DecidableEq

/-- Load `key` and `bucket`. -/
def loadKey (L : Launch) (shift : Nat) (tid : Thread) (g : Group) : Group :=
  { g with
    regs := Function.update g.regs tid
      (if L.active tid then ⟨g.keysA tid, digit (g.keysA tid) shift⟩
      else .zero) }

/-- The condition `active && bucket == b` of the lane `u`. -/
abbrev inBucket (L : Launch) (regs : Thread → Regs) (b : Fin 16)
    (u : Thread) : Prop :=
  L.active u ∧ (regs u).bucket = b

/-- `WaveBucketCounts[i] = v`. -/
def storeWaveBucketCount (L : Launch) (i : Nat) (v : UInt32) (g : Group) :
    Group :=
  if h : i < 8 * 16 then
    { g with
      waveBucketCounts := Function.update g.waveBucketCounts ⟨i, h⟩ v }
  else { g with toShared := L.oob g.toShared }

/-- The loop over the buckets: lane 0 stores the count of its wave. -/
def countWave (L : Launch) (tid : Thread) (g : Group) : Group :=
  (List.finRange 16).foldl
    (fun g b =>
      let countInWave := waveActiveCountBits L.waveSize
        (waveIndex L.waveSize tid) (inBucket L g.regs b)
      if lane L.waveSize tid = 0 then
        storeWaveBucketCount L (waveIndex L.waveSize tid * 16 + b)
          countInWave g
      else g)
    g

def histogramStep (L : Launch) (shift : Nat) : HistogramStep → Group → Group
  | .load tid => loadKey L shift tid
  | .count tid => countWave L tid

/-- A lane counts after every lane of its wave has loaded. -/
def waitsFor (W : WaveSize) : HistogramStep → HistogramStep → Prop
  | .load u, .count tid => waveIndex W u = waveIndex W tid
  | _, _ => False

/-- The steps of the histogram phase. -/
def histogramSteps : List HistogramStep :=
  (List.finRange 256).map .load ++ (List.finRange 256).map .count

/-- `Hist[b]` is the sum of `WaveBucketCounts[w * 16 + b]` over the waves. -/
def sumHist (tid : Thread) (g : Group) : Group :=
  if h : tid.val < 16 then
    let b : Fin 16 := ⟨tid, h⟩
    let sum := sumWords (List.finRange waveNb) fun w =>
      g.waveBucketCounts (cell w b)
    { g with hist := Function.update g.hist b sum }
  else g

/-- `BucketOffset[tid]` is the sum of `Hist[b]` for `b < tid`. -/
def sumBucketOffset (tid : Thread) (g : Group) : Group :=
  if h : tid.val < 16 then
    let sum := sumWords ((List.finRange 16).filter (·.val < tid.val)) g.hist
    { g with bucketOffset := Function.update g.bucketOffset ⟨tid, h⟩ sum }
  else g

/-- The values that the loop variable `previousWave` takes in a loop up to
`w` when it holds `first` at the start. -/
def previousWaves (first : UInt32) (w : Fin 8) : List (Fin 8) :=
  (List.finRange 8).filter fun v => first.toNat ≤ v.val ∧ v < w

/-- `WaveBucketOffsets[w * 16 + b]` is the sum of
`WaveBucketCounts[previousWave * 16 + b]` over the loop. -/
def sumWaveOffset (previousWave : Thread → UInt32) (tid : Thread)
    (g : Group) : Group :=
  if h : tid.val < 8 * 16 then
    let w := cellWave ⟨tid, h⟩
    let b := cellBucket ⟨tid, h⟩
    let sum := sumWords (previousWaves (previousWave tid) w) fun v =>
      g.waveBucketCounts (cell v b)
    { g with
      waveBucketOffsets := Function.update g.waveBucketOffsets (cell w b) sum }
  else g

/-- `rankInSameBucket` after its loop over the buckets. -/
def rankInSameBucket (L : Launch) (g : Group) (tid : Thread) : UInt32 :=
  (List.finRange 16).foldl
    (fun rank b =>
      let r := wavePrefixCountBits L.waveSize tid (inBucket L g.regs b)
      if (g.regs tid).bucket = b then r else rank)
    0

/-- The index `waveIndex + 16 + bucket` at which the scatter phase reads
`WaveBucketOffsets`. -/
def offsetCell (W : WaveSize) (tid : Thread) (bucket : Fin 16) :
    Fin (8 * 16) :=
  ⟨waveIndex W tid + 16 + bucket, by
    have h := waveIndex_lt W tid
    omega⟩

/-- The index `dst` at which the thread stores its key. -/
def dst (L : Launch) (g : Group) (tid : Thread) : UInt32 :=
  let bucket := (g.regs tid).bucket
  g.bucketOffset bucket +
    g.waveBucketOffsets (offsetCell L.waveSize tid bucket) +
    rankInSameBucket L g tid

/-- `KeysB[dst] = key`. -/
def scatter (L : Launch) (tid : Thread) (g : Group) : Group :=
  if L.active tid then
    if h : (dst L g tid).toNat < 256 then
      { g with
        keysB := Function.update g.keysB ⟨(dst L g tid).toNat, h⟩
          (g.regs tid).key }
    else { g with toShared := L.oob g.toShared }
  else g

/-- `KeysA[tid] = KeysB[tid]`. -/
def copyBack (L : Launch) (tid : Thread) (g : Group) : Group :=
  if L.active tid then
    { g with keysA := Function.update g.keysA tid (g.keysB tid) }
  else g

/-! ## Passes -/

/-- An order of the 256 threads in a phase. -/
abbrev ThreadOrder := Schedule (List.finRange 256) fun _ _ => False

/-- What one pass leaves open: the uninitialised `previousWave` of every
thread and the order of the threads in every phase. -/
structure PassRun (W : WaveSize) where
  previousWave : Thread → UInt32
  clear : ThreadOrder
  histogram : Schedule histogramSteps (waitsFor W)
  hist : ThreadOrder
  bucketOffset : ThreadOrder
  waveOffset : ThreadOrder
  scatter : ThreadOrder
  copyBack : ThreadOrder

/-- All lanes load, then all count. -/
theorem pairwise_rounds (W : WaveSize) (load count : List Thread) :
    (load.map HistogramStep.load ++ count.map HistogramStep.count).Pairwise
      fun i j => ¬waitsFor W j i := by
  rw [List.pairwise_append, List.pairwise_map, List.pairwise_map]
  refine ⟨?_, ?_, ?_⟩
  · exact List.pairwise_of_forall fun _ _ h => h
  · exact List.pairwise_of_forall fun _ _ h => h
  · intro i hi j hj
    obtain ⟨u, _, rfl⟩ := List.mem_map.mp hi
    obtain ⟨tid, _, rfl⟩ := List.mem_map.mp hj
    exact fun h => h

/-- The histogram phase in two rounds, in the order of the ids. -/
def histogramListed (W : WaveSize) : Schedule histogramSteps (waitsFor W) where
  order := histogramSteps
  perm := List.Perm.refl _
  respects := pairwise_rounds W _ _

/-- The same rounds in the opposite order. -/
def histogramReversed (W : WaveSize) :
    Schedule histogramSteps (waitsFor W) where
  order := (List.finRange 256).reverse.map .load ++
    (List.finRange 256).reverse.map .count
  perm := ((List.reverse_perm _).map _).append ((List.reverse_perm _).map _)
  respects := pairwise_rounds W _ _

/-- The threads in the order of their ids. -/
def ThreadOrder.listed : ThreadOrder := Schedule.listed _

/-- The threads in the opposite order. -/
def ThreadOrder.reversed : ThreadOrder := Schedule.reversed _

/-- The pass in which the threads run in the order of their ids. -/
def PassRun.listed (W : WaveSize) (previousWave : Thread → UInt32) :
    PassRun W where
  previousWave := previousWave
  clear := ThreadOrder.listed
  histogram := histogramListed W
  hist := ThreadOrder.listed
  bucketOffset := ThreadOrder.listed
  waveOffset := ThreadOrder.listed
  scatter := ThreadOrder.listed
  copyBack := ThreadOrder.listed

/-- The pass in which the threads run in the opposite order. -/
def PassRun.reversed (W : WaveSize) (previousWave : Thread → UInt32) :
    PassRun W where
  previousWave := previousWave
  clear := ThreadOrder.reversed
  histogram := histogramReversed W
  hist := ThreadOrder.reversed
  bucketOffset := ThreadOrder.reversed
  waveOffset := ThreadOrder.reversed
  scatter := ThreadOrder.reversed
  copyBack := ThreadOrder.reversed

/-- A pass up to the barrier before the scatter phase. -/
def countingPhases (L : Launch) (shift : Nat) (r : PassRun L.waveSize)
    (g : Group) : Group :=
  let g := runSteps clearTables r.clear.order g
  let g := runSteps (histogramStep L shift) r.histogram.order g
  let g := runSteps sumHist r.hist.order g
  let g := runSteps sumBucketOffset r.bucketOffset.order g
  runSteps (sumWaveOffset r.previousWave) r.waveOffset.order g

/-- The body of the `shift` loop. -/
def pass (L : Launch) (shift : Nat) (r : PassRun L.waveSize) (g : Group) :
    Group :=
  let g := countingPhases L shift r g
  let g := runSteps (scatter L) r.scatter.order g
  runSteps (copyBack L) r.copyBack.order g

/-- What a thread group leaves open. -/
structure GroupRun (W : WaveSize) where
  initial : Shared
  load : ThreadOrder
  passes : Fin 8 → PassRun W

/-- The group after the load phase. -/
def loadPhase (L : Launch) (r : GroupRun L.waveSize) : Group :=
  runSteps (loadInput L) r.load.order (Group.start r.initial)

/-- The kernel up to its last barrier: the passes `shift = 0, 4, ..., 28`. -/
def main (L : Launch) (r : GroupRun L.waveSize) : Group :=
  runSteps (fun i => pass L (4 * i.val) (r.passes i)) (List.finRange 8)
    (loadPhase L r)

/-- `OutputKeys[tid] = KeysA[tid]`: the store of a thread, if it is active. -/
def storeOutput (L : Launch) (g : Group) (tid : Thread) :
    Option (Nat × Int32) :=
  if L.active tid then some (tid.val, (g.keysA tid).toInt32) else none

/-! ## The dispatch of all thread groups -/

/-- The run of `G` thread groups, and the order in which their stores to
`OutputKeys` land. -/
structure DispatchRun (W : WaveSize) (G : Nat) where
  group : Fin G → GroupRun W
  landing : Schedule (List.product (List.finRange G) (List.finRange 256))
    fun _ _ => False

/-- The stores to `OutputKeys` in the order in which they land. -/
def outputStores (L : Launch) {G : Nat} (D : DispatchRun L.waveSize G) :
    List (Nat × Int32) :=
  D.landing.order.filterMap fun p => storeOutput L (main L (D.group p.1)) p.2

/-- The indices of `InputKeys` that a dispatch reads. -/
def inputReads (L : Launch) {G : Nat} (D : DispatchRun L.waveSize G) :
    List Nat :=
  (List.finRange G).flatMap fun i => (main L (D.group i)).inputReads

/-- `OutputKeys` after the dispatch. -/
def dispatch (L : Launch) {G : Nat} (D : DispatchRun L.waveSize G)
    (outputKeys : Nat → Int32) : Nat → Int32 :=
  (outputStores L D).foldl (fun out s => Function.update out s.1 s.2)
    outputKeys

end VulkanCompute.Shader
