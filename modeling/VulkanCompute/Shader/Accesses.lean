import VulkanCompute.Lib.Interleave
import VulkanCompute.Shader.Phases

/-!
# The kernel at the grain of single accesses

`Kernel.lean` runs whole threads between two barriers.  The hardware runs
single loads and stores, and interleaves those of different threads.  Here
every phase is a code of `Lib.Instr` per thread.

* The codes, from the shader.  Apart from the registers `key` and `bucket`,
  which live across barriers, a thread needs one word in every phase: the
  word it copies, the sum it builds, or the index `dst`.
* One theorem per phase: an interleaving ends as some order of whole threads,
  and every order of whole threads is an interleaving
  (`Implements.exists_accesses`).  The scatter phase needs that no thread
  aims outside `KeysB`, since a store outside the array may change what
  another thread has yet to load.
* The scatter phase is the one whose order shows: `scatter_order_iff` says
  when.
* The histogram phase has wave intrinsics, which make the lanes of a wave wait
  for each other.  Its steps are counts of one bucket by one lane.
-/

namespace VulkanCompute.Shader

open Lib Finset

/-- The instructions of one thread in one phase.  The local is a word. -/
abbrev Code := Thread → List (Instr Group UInt32)

/-- The accesses of all threads in some order. -/
abbrev AccessOrder (code : Code) := Interleaving code (List.finRange 256)

/-- A phase in an order of its accesses.  Every code sets its local before it
uses it. -/
def runAccesses (code : Code) (o : AccessOrder code) (g : Group) : Group :=
  (runSteps (execAt code) o.order ⟨g, fun _ => 0⟩).shared

/-! ## The codes -/

/-- `KeysA[tid] = InputKeys[tid]`.  The load of `InputKeys` leaves its mark in
`inputReads`. -/
def loadInputCode (L : Launch) : Code := fun tid =>
  if L.active tid then
    [.write fun _ g => { g with inputReads := g.inputReads ++ [tid.val] },
      .read fun _ _ => (L.inputKeys tid).toUInt32,
      .write fun word g =>
        { g with keysA := Function.update g.keysA tid word }]
  else []

/-- The three stores of zero. -/
def clearTablesCode : Code := fun tid =>
  (if h : tid.val < 16 then
    [.write fun _ g =>
      { g with hist := Function.update g.hist ⟨tid, h⟩ 0 }]
  else []) ++
  (if h : tid.val < 8 * 16 then
    [.write fun _ g =>
      { g with
        waveBucketCounts := Function.update g.waveBucketCounts ⟨tid, h⟩ 0 },
    .write fun _ g =>
      { g with
        waveBucketOffsets := Function.update g.waveBucketOffsets ⟨tid, h⟩ 0 }]
  else [])

/-- The loads of `sum = 0; sum += f(i)` for the values `i` of a loop. -/
def sumReads {α : Type*} (values : List α) (f : α → Group → UInt32) :
    List (Group → UInt32 → UInt32) :=
  (fun _ _ => 0) :: values.map fun i g sum => sum + f i g

/-- The threads below `n` store a sum of cells. -/
def sumCode {α : Type*} (n : Nat) (values : Thread → List α)
    (load : Thread → α → Group → UInt32)
    (store : Thread → UInt32 → Group → Group) : Code := fun tid =>
  if tid.val < n then
    loadStore (sumReads (values tid) (load tid)) (store tid)
  else []

/-- The bucket whose cells a thread below 16 stores. -/
def ownBucket (tid : Thread) : Fin 16 :=
  ⟨tid.val % 16, Nat.mod_lt _ (by decide)⟩

theorem ownBucket_of_lt {tid : Thread} (htid : tid.val < 16) :
    ownBucket tid = ⟨tid, htid⟩ :=
  Fin.ext (Nat.mod_eq_of_lt htid)

/-- `Hist[b]` from the rows of `WaveBucketCounts`. -/
def sumHistCode : Code :=
  sumCode 16 (fun _ => List.finRange waveNb)
    (fun tid w g => g.waveBucketCounts (cell w (ownBucket tid)))
    (fun tid sum g =>
      { g with hist := Function.update g.hist (ownBucket tid) sum })

/-- `BucketOffset[tid]` from the cells of `Hist` below it. -/
def sumBucketOffsetCode : Code :=
  sumCode 16 (fun tid => (List.finRange 16).filter (·.val < tid.val))
    (fun _ b g => g.hist b)
    (fun tid sum g =>
      { g with
        bucketOffset := Function.update g.bucketOffset (ownBucket tid) sum })

/-- `WaveBucketOffsets[w * 16 + b]` from the rows that the loop visits. -/
def sumWaveOffsetCode (previousWave : Thread → UInt32) : Code :=
  sumCode (8 * 16)
    (fun tid =>
      previousWaves (previousWave tid) (cellWave (Fin.ofNat (8 * 16) tid)))
    (fun tid v g =>
      g.waveBucketCounts (cell v (cellBucket (Fin.ofNat (8 * 16) tid))))
    (fun tid sum g =>
      { g with
        waveBucketOffsets :=
          Function.update g.waveBucketOffsets (Fin.ofNat (8 * 16) tid) sum })

/-- The loop over the buckets that leaves `rankInSameBucket`, and then the
loads of `BucketOffset` and `WaveBucketOffsets`. -/
def scatterReads (L : Launch) (tid : Thread) :
    List (Group → UInt32 → UInt32) :=
  (fun _ _ => 0) ::
    ((List.finRange 16).map fun b g rank =>
      let r := wavePrefixCountBits L.waveSize tid (inBucket L g.regs b)
      if (g.regs tid).bucket = b then r else rank) ++
    [fun g rank => g.bucketOffset (g.regs tid).bucket + rank,
      fun g sum =>
        g.waveBucketOffsets
          (offsetCell L.waveSize tid (g.regs tid).bucket) + sum]

/-- `KeysB[dst] = key`. -/
def scatterStore (L : Launch) (tid : Thread) (dst : UInt32) (g : Group) :
    Group :=
  if h : dst.toNat < 256 then
    { g with
      keysB := Function.update g.keysB ⟨dst.toNat, h⟩ (g.regs tid).key }
  else { g with toShared := L.oob g.toShared }

def scatterCode (L : Launch) : Code := fun tid =>
  if L.active tid then loadStore (scatterReads L tid) (scatterStore L tid)
  else []

/-- `KeysA[tid] = KeysB[tid]`. -/
def copyBackReads (tid : Thread) : List (Group → UInt32 → UInt32) :=
  [fun g _ => g.keysB tid]

def copyBackStore (tid : Thread) (word : UInt32) (g : Group) : Group :=
  { g with keysA := Function.update g.keysA tid word }

def copyBackCode (L : Launch) : Code := fun tid =>
  if L.active tid then loadStore (copyBackReads tid) (copyBackStore tid)
  else []

/-! ## The phases, one by one -/

theorem afterReads_sumReads {α : Type*} (values : List α)
    (f : α → Group → UInt32) (g : Group) (word : UInt32) :
    afterReads (sumReads values f) g word =
      sumWords values fun i => f i g := by
  unfold afterReads sumReads sumWords
  rw [List.foldl_cons, List.foldl_map]

theorem mem_sumReads {α : Type*} {values : List α}
    {f : α → Group → UInt32} {read : Group → UInt32 → UInt32}
    (hread : read ∈ sumReads values f) :
    read = (fun _ _ => 0) ∨ ∃ i ∈ values, read = fun g sum => sum + f i g := by
  rcases List.mem_cons.mp hread with rfl | hmem
  · exact Or.inl rfl
  · obtain ⟨i, hi, rfl⟩ := List.mem_map.mp hmem
    exact Or.inr ⟨i, hi, rfl⟩

/-- What a thread with this code does when it runs alone. -/
def Implements (code : Code) (phase : Thread → Group → Group) : Prop :=
  ∀ tid t, (execThread code tid t).shared = phase tid t.shared

/-- Whole threads are one way to order the accesses. -/
theorem Implements.exists_accesses {code : Code}
    {phase : Thread → Group → Group} (hcode : Implements code phase)
    (order : ThreadOrder) (g : Group) :
    ∃ o : AccessOrder code,
      runAccesses code o g = runSteps phase order.order g := by
  refine ⟨.serial (List.nodup_finRange 256) order.perm, ?_⟩
  unfold runAccesses
  rw [Interleaving.run_serial]
  exact (runSteps_hom Threads.shared (fun tid t => (hcode tid t).symm) _
    _).symm

theorem implements_sumCode {α : Type*} {n : Nat} {values : Thread → List α}
    {load : Thread → α → Group → UInt32}
    {store : Thread → UInt32 → Group → Group}
    {phase : Thread → Group → Group}
    (hin : ∀ tid g, tid.val < n →
      phase tid g = store tid (sumWords (values tid) fun i => load tid i g) g)
    (hout : ∀ tid g, ¬tid.val < n → phase tid g = g) :
    Implements (sumCode n values load store) phase := by
  intro tid t
  by_cases htid : tid.val < n
  · have hcode : sumCode n values load store tid =
        loadStore (sumReads (values tid) (load tid)) (store tid) :=
      if_pos htid
    rw [execThread_loadStore hcode, afterReads_sumReads, hin tid _ htid]
  · have hcode : sumCode n values load store tid = [] := if_neg htid
    rw [hout tid _ htid, execThread, hcode]
    rfl

/-- A phase of sums over cells that nobody stores to in it. -/
theorem run_sumCode {α : Type*} {n : Nat} {values : Thread → List α}
    {load : Thread → α → Group → UInt32}
    {store : Thread → UInt32 → Group → Group}
    {phase : Thread → Group → Group}
    (hphase : Implements (sumCode n values load store) phase)
    (hload : ∀ tid i u word g, load tid i (store u word g) = load tid i g)
    (o : AccessOrder (sumCode n values load store)) (g : Group) :
    ∃ order : ThreadOrder,
      runAccesses _ o g = runSteps phase order.order g := by
  refine exists_thread_order_of_loadStore (List.nodup_finRange 256)
    (fun tid => sumReads (values tid) (load tid)) store ?_ ?_ hphase o
  · intro tid
    unfold sumCode
    split
    · exact Or.inr rfl
    · exact Or.inl rfl
  · intro tid read hread u _ h
    rcases mem_sumReads hread with rfl | ⟨i, _, rfl⟩
    · rfl
    · funext sum
      show sum + load tid i _ = sum + load tid i h
      rw [hload]

theorem implements_sumHist : Implements sumHistCode sumHist := by
  refine implements_sumCode ?_ ?_
  · intro tid g htid
    rw [sumHist, dif_pos htid]
    simp only [ownBucket_of_lt htid]
  · intro tid g htid
    rw [sumHist, dif_neg htid]

theorem run_sumHistCode (o : AccessOrder sumHistCode) (g : Group) :
    ∃ order : ThreadOrder,
      runAccesses sumHistCode o g = runSteps sumHist order.order g :=
  run_sumCode implements_sumHist (fun _ _ _ _ _ => rfl) o g

theorem implements_sumBucketOffset :
    Implements sumBucketOffsetCode sumBucketOffset := by
  refine implements_sumCode ?_ ?_
  · intro tid g htid
    rw [sumBucketOffset, dif_pos htid]
    simp only [ownBucket_of_lt htid]
  · intro tid g htid
    rw [sumBucketOffset, dif_neg htid]

theorem run_sumBucketOffsetCode (o : AccessOrder sumBucketOffsetCode)
    (g : Group) :
    ∃ order : ThreadOrder,
      runAccesses sumBucketOffsetCode o g =
        runSteps sumBucketOffset order.order g :=
  run_sumCode implements_sumBucketOffset (fun _ _ _ _ _ => rfl) o g

theorem implements_sumWaveOffset (previousWave : Thread → UInt32) :
    Implements (sumWaveOffsetCode previousWave)
      (sumWaveOffset previousWave) := by
  refine implements_sumCode ?_ ?_
  · intro tid g htid
    have hk : Fin.ofNat (8 * 16) tid = ⟨tid, htid⟩ :=
      Fin.ext (Nat.mod_eq_of_lt htid)
    rw [sumWaveOffset, dif_pos htid]
    simp only [hk, cell_cellWave]
  · intro tid g htid
    rw [sumWaveOffset, dif_neg htid]

theorem run_sumWaveOffsetCode (previousWave : Thread → UInt32)
    (o : AccessOrder (sumWaveOffsetCode previousWave)) (g : Group) :
    ∃ order : ThreadOrder,
      runAccesses (sumWaveOffsetCode previousWave) o g =
        runSteps (sumWaveOffset previousWave) order.order g :=
  run_sumCode (implements_sumWaveOffset previousWave)
    (fun _ _ _ _ _ => rfl) o g

theorem implements_copyBack (L : Launch) :
    Implements (copyBackCode L) (copyBack L) := by
  intro tid t
  by_cases hactive : L.active tid
  · have hcode : copyBackCode L tid =
        loadStore (copyBackReads tid) (copyBackStore tid) := if_pos hactive
    rw [execThread_loadStore hcode, copyBack, if_pos hactive]
    rfl
  · have hcode : copyBackCode L tid = [] := if_neg hactive
    rw [copyBack, if_neg hactive, execThread, hcode]
    rfl

theorem run_copyBackCode (L : Launch) (o : AccessOrder (copyBackCode L))
    (g : Group) :
    ∃ order : ThreadOrder,
      runAccesses (copyBackCode L) o g =
        runSteps (copyBack L) order.order g := by
  refine exists_thread_order_of_loadStore (List.nodup_finRange 256)
    copyBackReads copyBackStore ?_ ?_ (implements_copyBack L) o
  · intro tid
    unfold copyBackCode
    split
    · exact Or.inr rfl
    · exact Or.inl rfl
  · intro tid read hread u _ h
    rw [List.mem_singleton.mp hread]
    rfl

/-- The local of a thread before its store to `KeysB` is the index `dst`. -/
theorem afterReads_scatterReads (L : Launch) (tid : Thread) (g : Group)
    (word : UInt32) :
    afterReads (scatterReads L tid) g word = dst L g tid := by
  unfold afterReads scatterReads dst rankInSameBucket
  rw [List.foldl_append]
  simp only [List.foldl_cons, List.foldl_nil, List.foldl_map]
  rw [← UInt32.add_assoc]
  exact congrArg (· + _) (UInt32.add_comm _ _)

theorem implements_scatter (L : Launch) :
    Implements (scatterCode L) (scatter L) := by
  intro tid t
  by_cases hactive : L.active tid
  · have hcode : scatterCode L tid =
        loadStore (scatterReads L tid) (scatterStore L tid) := if_pos hactive
    rw [execThread_loadStore hcode, afterReads_scatterReads, scatter,
      if_pos hactive]
    rfl
  · have hcode : scatterCode L tid = [] := if_neg hactive
    rw [scatter, if_neg hactive, execThread, hcode]
    rfl

/-- No active thread aims outside `KeysB`. -/
def Contained (L : Launch) (g : Group) : Prop :=
  ∀ tid, L.active tid → (dst L g tid).toNat < 256

theorem run_scatterCode (L : Launch) (o : AccessOrder (scatterCode L))
    (g : Group) (hinside : Contained L g) :
    ∃ order : ThreadOrder,
      runAccesses (scatterCode L) o g =
        runSteps (scatter L) order.order g := by
  refine exists_thread_order_of_loadStore (List.nodup_finRange 256)
    (scatterReads L) (scatterStore L) ?_ ?_ (implements_scatter L) o
  · intro tid
    unfold scatterCode
    split
    · exact Or.inr rfl
    · exact Or.inl rfl
  · intro tid read hread u hu h
    have hactive : L.active u := by
      by_contra hnot
      exact hu (if_neg hnot)
    -- the store lands in `KeysB`, which no thread loads from in this phase
    rw [afterReads_scatterReads, scatterStore, dif_pos (hinside u hactive)]
    simp only [scatterReads, List.cons_append, List.mem_cons,
      List.mem_append, List.mem_map, List.not_mem_nil, or_false] at hread
    rcases hread with rfl | ⟨b, _, rfl⟩ | rfl | rfl <;> rfl

/-- The order of the accesses shows in the scatter phase exactly when two
active threads aim different keys at one cell of `KeysB`. -/
theorem scatter_order_iff (L : Launch) (g : Group) (hinside : Contained L g) :
    (∀ o o' : AccessOrder (scatterCode L),
        runAccesses (scatterCode L) o g = runAccesses (scatterCode L) o' g) ↔
      ∀ t u, L.active t → L.active u → dst L g t = dst L g u →
        (g.regs t).key = (g.regs u).key := by
  have hthreads : (∀ o o' : AccessOrder (scatterCode L),
      runAccesses (scatterCode L) o g = runAccesses (scatterCode L) o' g) ↔
      ∀ o o' : ThreadOrder,
        runSteps (scatter L) o.order g = runSteps (scatter L) o'.order g := by
    constructor
    · intro h o o'
      obtain ⟨p, hp⟩ := (implements_scatter L).exists_accesses o g
      obtain ⟨p', hp'⟩ := (implements_scatter L).exists_accesses o' g
      rw [← hp, ← hp']
      exact h p p'
    · intro h o o'
      obtain ⟨p, hp⟩ := run_scatterCode L o g hinside
      obtain ⟨p', hp'⟩ := run_scatterCode L o' g hinside
      rw [hp, hp']
      exact h p p'
  have hkeysB : ∀ a b : Fin 256 → UInt32,
      { g with keysB := a } = { g with keysB := b } ↔ a = b :=
    fun a b => ⟨fun h => congrArg (fun g : Group => g.keysB) h,
      fun h => h ▸ rfl⟩
  rw [hthreads]
  simp only [run_scatter L _ g (Or.inr hinside), hkeysB]
  rw [storeStep_order_iff]
  simp only [List.mem_finRange, forall_const, scatterCell_eq_some]
  constructor
  · intro h t u ht hu hdst
    exact h t u ⟨_, hinside t ht⟩ ⟨ht, rfl⟩
      ⟨hu, (congrArg UInt32.toNat hdst).symm⟩
  · intro h t u k ht hu
    exact h t u ht.1 hu.1 (UInt32.toNat_inj.mp (ht.2.trans hu.2.symm))

theorem implements_loadInput (L : Launch) :
    Implements (loadInputCode L) (loadInput L) := by
  intro tid t
  by_cases hactive : L.active tid
  · simp [execThread, loadInputCode, hactive, Instr.exec, loadInput]
  · simp [execThread, loadInputCode, hactive, loadInput]

/-- The threads load their keys.  The loads may overtake the stores of other
threads, and so the pivot of a thread is its load. -/
theorem run_loadInputCode (L : Launch) (o : AccessOrder (loadInputCode L))
    (g : Group) :
    ∃ order : ThreadOrder,
      runAccesses (loadInputCode L) o g =
        runSteps (loadInput L) order.order g := by
  have hcommit : ∀ (x : Thread × Nat) (h : Group),
      commit (loadInputCode L) ⟨g, fun _ => 0⟩ x h =
        { h with
          inputReads :=
            if L.active x.1 ∧ x.2 = 0 then h.inputReads ++ [x.1.val]
            else h.inputReads
          keysA :=
            if L.active x.1 ∧ x.2 = 2 then
              Function.update h.keysA x.1 (L.inputKeys x.1).toUInt32
            else h.keysA } := by
    intro x h
    obtain ⟨tid, k⟩ := x
    unfold commit
    by_cases hactive : L.active tid
    · match k with
      | 0 | 1 | 2 | k + 3 => simp [loadInputCode, hactive, localsAt]
    · simp [loadInputCode, hactive]
  refine exists_thread_order (List.nodup_finRange 256) ?_ (fun _ => 0) ?_
    (implements_loadInput L) o
  · intro tid read hread x h
    have hconst : ∃ v, read = fun _ _ => v := by
      unfold loadInputCode at hread
      split at hread
      · simp only [List.mem_cons, Instr.read.injEq, reduceCtorEq, false_or,
          List.not_mem_nil, or_false] at hread
        exact ⟨_, hread⟩
      · exact absurd hread List.not_mem_nil
    obtain ⟨v, rfl⟩ := hconst
    rfl
  · intro x y hne hpivot h
    have hloads : ¬((L.active x.1 ∧ x.2 = 0) ∧ L.active y.1 ∧ y.2 = 0) :=
      fun hboth => hpivot ⟨hboth.1.2, hboth.2.2⟩
    simp only [hcommit]
    congr 1
    · -- the stores go to different cells
      congr 1
      split_ifs
      · exact Function.update_comm hne.symm _ _ _
      all_goals rfl
    · -- at most one of the two is a load of `InputKeys`
      split_ifs with hx hy
      · exact absurd ⟨hx, hy⟩ hloads
      all_goals rfl

theorem ownCell_comm {β : Type*} {n : Nat} (val : Thread → β)
    {tid u : Thread} (hne : tid ≠ u) (table : Fin n → β) :
    storeStep (ownCell n) val tid (storeStep (ownCell n) val u table) =
      storeStep (ownCell n) val u (storeStep (ownCell n) val tid table) := by
  refine storeStep_comm val (fun k htid hu => ?_) table
  have h1 := ownCell_eq_some.mp htid
  have h2 := ownCell_eq_some.mp hu
  exact hne (Fin.ext (h1.trans h2.symm))

theorem implements_clearTables : Implements clearTablesCode clearTables := by
  intro tid t
  by_cases h16 : tid.val < 16
  · have h128 : tid.val < 8 * 16 := by omega
    simp [execThread, clearTablesCode, h16, h128, Instr.exec, clearTables,
      clearHist, clearWaveTables]
  · by_cases h128 : tid.val < 8 * 16 <;>
      simp [execThread, clearTablesCode, h16, h128, Instr.exec, clearTables,
        clearHist, clearWaveTables]

/-- The threads store zeros in cells of their own. -/
theorem run_clearTablesCode (o : AccessOrder clearTablesCode) (g : Group) :
    ∃ order : ThreadOrder,
      runAccesses clearTablesCode o g =
        runSteps clearTables order.order g := by
  have hcommit : ∀ (x : Thread × Nat) (h : Group),
      commit clearTablesCode ⟨g, fun _ => 0⟩ x h =
        { h with
          hist :=
            if x.2 = 0 then storeStep (ownCell 16) (fun _ => 0) x.1 h.hist
            else h.hist
          waveBucketCounts :=
            if x.2 = (if x.1.val < 16 then 1 else 0) then
              storeStep (ownCell _) (fun _ => 0) x.1 h.waveBucketCounts
            else h.waveBucketCounts
          waveBucketOffsets :=
            if x.2 = (if x.1.val < 16 then 2 else 1) then
              storeStep (ownCell _) (fun _ => 0) x.1 h.waveBucketOffsets
            else h.waveBucketOffsets } := by
    intro x h
    obtain ⟨tid, k⟩ := x
    unfold commit
    by_cases h16 : tid.val < 16
    · have h128 : tid.val < 8 * 16 := by omega
      rcases k with _ | _ | _ | k <;>
        simp [clearTablesCode, h16, h128, storeStep, ownCell]
    · by_cases h128 : tid.val < 8 * 16
      · rcases k with _ | _ | k <;>
          simp [clearTablesCode, h16, h128, storeStep, ownCell]
      · simp [clearTablesCode, h16, h128, storeStep, ownCell]
  refine exists_thread_order (List.nodup_finRange 256) ?_ (fun _ => 0) ?_
    implements_clearTables o
  · intro tid read hread
    unfold clearTablesCode at hread
    split_ifs at hread <;> simp at hread
  · intro x y hne _ h
    simp only [hcommit]
    congr 2
    · split_ifs
      · exact ownCell_comm _ hne _
      all_goals rfl
    · split_ifs
      all_goals first | rfl | exact ownCell_comm _ hne _
    · split_ifs
      all_goals first | rfl | exact ownCell_comm _ hne _

/-! ## The histogram phase -/

/-- The histogram phase bucket by bucket: a thread loads its registers, and
then takes part in one count after the other. -/
inductive BucketStep where
  | load (tid : Thread)
  | count (tid : Thread) (b : Fin 16)

/-- The body of the loop over the buckets. -/
def countBucket (L : Launch) (tid : Thread) (b : Fin 16) (g : Group) :
    Group :=
  let countInWave := waveActiveCountBits L.waveSize
    (waveIndex L.waveSize tid) (inBucket L g.regs b)
  if lane L.waveSize tid = 0 then
    storeWaveBucketCount L (waveIndex L.waveSize tid * 16 + b) countInWave g
  else g

def bucketStep (L : Launch) (shift : Nat) : BucketStep → Group → Group
  | .load tid => loadKey L shift tid
  | .count tid b => countBucket L tid b

/-- A count waits for the registers of its wave and for the counts of the
lower buckets. -/
def bucketOrder (W : WaveSize) : BucketStep → BucketStep → Prop
  | .load u, .count tid _ => waveIndex W u = waveIndex W tid
  | .count u c, .count tid b => u = tid ∧ c < b
  | _, _ => False

def bucketSteps : List BucketStep :=
  (List.finRange 256).map .load ++
    (List.finRange 256).flatMap fun tid => (List.finRange 16).map (.count tid)

/-- The order of the steps of the histogram phase. -/
abbrev BucketOrder (W : WaveSize) := Schedule bucketSteps (bucketOrder W)

/-- All threads load, and then one thread after the other counts. -/
def BucketOrder.listed (W : WaveSize) : BucketOrder W where
  order := bucketSteps
  perm := List.Perm.refl _
  respects := by
    unfold bucketSteps
    refine List.pairwise_append.mpr ⟨?_, ?_, ?_⟩
    · exact List.pairwise_map.mpr (List.pairwise_of_forall fun _ _ h => h)
    · refine List.pairwise_flatMap.mpr ⟨fun tid _ => ?_, ?_⟩
      · refine List.pairwise_map.mpr ((List.pairwise_lt_finRange 16).imp ?_)
        intro b c hlt h
        exact absurd h.2 (not_lt.mpr hlt.le)
      · refine (List.nodup_finRange 256).imp ?_
        intro t u hne x hx y hy h
        obtain ⟨b, _, rfl⟩ := List.mem_map.mp hx
        obtain ⟨c, _, rfl⟩ := List.mem_map.mp hy
        exact hne h.1.symm
    · intro x hx y hy h
      obtain ⟨t, _, rfl⟩ := List.mem_map.mp hx
      obtain ⟨u, _, hy⟩ := List.mem_flatMap.mp hy
      obtain ⟨b, _, rfl⟩ := List.mem_map.mp hy
      exact h

/-- The loads come first, and then one bucket after the other. -/
def BucketStep.round : BucketStep → Nat
  | .load _ => 0
  | .count _ b => b + 1

/-- Every thread counts a bucket before any thread counts the next one. -/
def BucketOrder.inTurns (W : WaveSize) : BucketOrder W :=
  .byRound _ BucketStep.round fun x y h => by
    cases x with
    | load u =>
      cases y with
      | load t => exact absurd h id
      | count t b => exact Nat.succ_pos _
    | count u c =>
      cases y with
      | load t => exact absurd h id
      | count t b => exact Nat.succ_lt_succ h.2

theorem countBucket_eq (L : Launch) (hW : 32 ≤ L.waveSize.lanes)
    (tid : Thread) (b : Fin 16) (g : Group) :
    countBucket L tid b g =
      if lane L.waveSize tid = 0 then
        { g with
          waveBucketCounts := Function.update g.waveBucketCounts
            (cell ⟨_, waveIndex_lt_eight hW tid⟩ b)
            (countOf L g.regs (waveIndex L.waveSize tid) b) }
      else g := by
  have hlt : waveIndex L.waveSize tid * 16 + b < 8 * 16 :=
    (cell ⟨_, waveIndex_lt_eight hW tid⟩ b).isLt
  unfold countBucket
  split
  · rw [storeWaveBucketCount, dif_pos hlt]
    rfl
  · rfl

/-- A count does not see the registers of the other waves. -/
theorem countOf_update (L : Launch) {regs : Thread → Regs} {u : Thread}
    {v : Nat} (hu : waveIndex L.waveSize u ≠ v) (r : Regs) (b : Fin 16) :
    countOf L (Function.update regs u r) v b = countOf L regs v b := by
  unfold countOf waveActiveCountBits
  congr 2
  ext t
  simp only [mem_filter, mem_univ, true_and]
  refine and_congr_right fun ht => ?_
  have hne : t ≠ u := fun heq => hu (heq ▸ ht)
  simp only [inBucket]
  rw [Function.update_of_ne hne]

/-- Two lanes 0 of one wave are the same thread. -/
theorem eq_of_lane_zero {W : WaveSize} {t u : Thread} (ht : lane W t = 0)
    (hu : lane W u = 0) (hwave : waveIndex W t = waveIndex W u) : t = u := by
  apply Fin.ext
  rw [← Nat.div_add_mod t W.lanes, ← Nat.div_add_mod u W.lanes]
  unfold lane at ht hu
  unfold waveIndex at hwave
  rw [ht, hu, hwave]

section Commute

variable (L : Launch) (hW : 32 ≤ L.waveSize.lanes) (shift : Nat)

theorem loadKey_comm {t u : Thread} (hne : t ≠ u) (g : Group) :
    loadKey L shift t (loadKey L shift u g) =
      loadKey L shift u (loadKey L shift t g) := by
  unfold loadKey
  simp only [Function.update_comm hne]

include hW in
theorem loadKey_countBucket_comm {u t : Thread}
    (hwave : waveIndex L.waveSize u ≠ waveIndex L.waveSize t) (b : Fin 16)
    (g : Group) :
    loadKey L shift u (countBucket L t b g) =
      countBucket L t b (loadKey L shift u g) := by
  simp only [countBucket_eq L hW]
  split
  · simp only [loadKey, countOf_update L hwave]
  · rfl

include hW in
theorem countBucket_comm {t u : Thread} {b c : Fin 16}
    (hne : t = u → b ≠ c) (g : Group) :
    countBucket L t b (countBucket L u c g) =
      countBucket L u c (countBucket L t b g) := by
  simp only [countBucket_eq L hW]
  by_cases ht : lane L.waveSize t = 0
  · by_cases hu : lane L.waveSize u = 0
    · have hcell : cell ⟨_, waveIndex_lt_eight hW t⟩ b ≠
          cell ⟨_, waveIndex_lt_eight hW u⟩ c := by
        intro heq
        obtain ⟨hwave, hb⟩ := cell_eq_iff.mp heq
        rw [cellWave_cell] at hwave
        rw [cellBucket_cell] at hb
        exact hne (eq_of_lane_zero ht hu (Fin.mk.inj hwave)) hb
      simp only [if_pos ht, if_pos hu, Function.update_comm hcell]
    · simp only [if_pos ht, if_neg hu]
  · simp only [if_neg ht]

end Commute

/-- In the histogram phase too the order of the accesses does not show. -/
theorem run_bucketSteps (L : Launch) (hW : 32 ≤ L.waveSize.lanes)
    (shift : Nat) (o : BucketOrder L.waveSize) (g : Group) :
    runSteps (bucketStep L shift) o.order g =
      runSteps (histogramStep L shift) histogramSteps g := by
  have hcoarse : runSteps (bucketStep L shift) bucketSteps g =
      runSteps (histogramStep L shift) histogramSteps g := by
    unfold bucketSteps histogramSteps
    rw [runSteps_append, runSteps_append, runSteps_map, runSteps_map,
      runSteps_map, runSteps_flatMap]
    refine runSteps_congr (fun tid _ => funext fun g => ?_) _
    rw [runSteps_map]
    rfl
  rw [← hcoarse]
  refine runSteps_eq_of_pairwise _ ?_ o.perm o.respects
    (BucketOrder.listed L.waveSize).respects g
  intro x y hne hxy hyx g
  cases x with
  | load t =>
    cases y with
    | load u =>
      exact loadKey_comm L shift (fun heq => hne (by rw [heq])) g
    | count u b => exact loadKey_countBucket_comm L hW shift hyx b g
  | count t b =>
    cases y with
    | load u => exact (loadKey_countBucket_comm L hW shift hxy b g).symm
    | count u c =>
      refine countBucket_comm L hW ?_ g
      intro htu hbc
      exact hne (by rw [htu, hbc])

end VulkanCompute.Shader
