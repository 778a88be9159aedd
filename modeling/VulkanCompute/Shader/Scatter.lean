import VulkanCompute.Shader.Counting

/-!
# The scatter phase

A key goes to the start of its bucket, plus the offset of its wave inside the
bucket, plus its rank in the wave.  The scatter phase looks the second number
up at `waveIndex + 16 + bucket`, where the wave tables are laid out at
`waveIndex * 16 + bucket`.  `target` is the index that results, and `dst_eq`
says that `dst` is `target`.

In wave 0 the lookup lands in the row of wave 1, so with `previousWave`
starting at 0 the key of thread 0 is aimed past its place by at least one.
This is why the scatter is the stable one for no input at all
(`scatter_stable_iff`).

`pass_keysA` and `pass_keysB_eq` say what a pass leaves in the two key arrays.
-/

namespace VulkanCompute.Shader

open Lib Finset

/-! ## The index of a key -/

/-- The index at which the thread stores its key, from the digits `f`. -/
def target (L : Launch) (previousWave : Thread → UInt32)
    (f : Thread → Fin 16) (tid : Thread) : Nat :=
  let k := offsetCell L.waveSize tid (f tid)
  bucketStart L f (f tid) +
    waveOffset L f (previousWave (cellThread k)) (cellWave k) (cellBucket k) +
    waveRank L f tid

theorem dst_eq (L : Launch) (hW : 32 ≤ L.waveSize.lanes) (shift : Nat)
    (r : PassRun L.waveSize) (g : Group) {tid : Thread}
    (htid : L.active tid) :
    (dst L (countingPhases L shift r g) tid).toNat =
      target L r.previousWave (digits shift g.keysA) tid := by
  have hs := countingPhases_eq L shift hW r g
  have hrank := rankInSameBucket_eq L shift g.keysA
    (countingPhases L shift r g) (by rw [hs]) htid
  unfold dst
  simp only [hrank]
  simp only [hs, loadedRegs_bucket L shift g.keysA htid]
  rw [← UInt32.ofNat_add, ← UInt32.ofNat_add, UInt32.toNat_ofNat']
  have hstart := bucketStart_le L (digits shift g.keysA)
    (digits shift g.keysA tid)
  have hrank' := waveRank_le L (digits shift g.keysA) tid
  unfold target
  simp only
  refine Nat.mod_eq_of_lt ?_
  have hoffset := waveOffset_le L (digits shift g.keysA) hW
    (r.previousWave (cellThread (offsetCell L.waveSize tid
      (digits shift g.keysA tid))))
    (cellWave (offsetCell L.waveSize tid (digits shift g.keysA tid)))
    (cellBucket (offsetCell L.waveSize tid (digits shift g.keysA tid)))
  omega

/-! ## The lookup of wave 0 -/

section WaveZero

variable (L : Launch) (f : Thread → Fin 16)

/-- An active thread counts itself. -/
theorem waveCount_pos {tid : Thread} (htid : L.active tid) :
    0 < waveCount L f (waveIndex L.waveSize tid) (f tid) := by
  rw [waveCount, card_pos]
  exact ⟨tid, mem_filter.mpr ⟨mem_activeSet.mpr htid, rfl, rfl⟩⟩

/-- The loop up to wave 1 visits wave 0 alone. -/
theorem waveOffset_row_one (b : Fin 16) :
    waveOffset L f 0 1 b = waveCount L f 0 b := by
  have hwaves : univ.filter (fun v : Fin 8 =>
      (0 : UInt32).toNat ≤ v.val ∧ v < 1) = {0} := by decide
  rw [waveOffset, hwaves, sum_singleton]
  rfl

/-- In wave 0 the lookup hits the row of wave 1. -/
theorem target_of_wave_zero {previousWave : Thread → UInt32} {tid : Thread}
    (hprevious : ∀ t, previousWave t = 0)
    (hwave : waveIndex L.waveSize tid = 0) :
    target L previousWave f tid =
      bucketStart L f (f tid) + waveCount L f 0 (f tid) +
        waveRank L f tid := by
  have hk : offsetCell L.waveSize tid (f tid) = cell 1 (f tid) := by
    apply Fin.ext
    show waveIndex L.waveSize tid + 16 + (f tid).val = 1 * 16 + (f tid).val
    omega
  unfold target
  simp only [hprevious, hk, cellWave_cell, cellBucket_cell]
  rw [waveOffset_row_one]

/-- The first active key of the launch is aimed past its place. -/
theorem bucketStart_lt_target {previousWave : Thread → UInt32}
    {tid : Thread} (hprevious : ∀ t, previousWave t = 0)
    (hwave : waveIndex L.waveSize tid = 0) (htid : L.active tid) :
    bucketStart L f (f tid) < target L previousWave f tid := by
  have hpos := waveCount_pos L f htid
  rw [hwave] at hpos
  rw [target_of_wave_zero L f hprevious hwave]
  omega

end WaveZero

theorem waveIndex_zero (W : WaveSize) : waveIndex W 0 = 0 := Nat.zero_div _

/-- No wave comes before wave 0. -/
theorem earlier_waves_eq_empty {L : Launch} (hW : 32 ≤ L.waveSize.lanes)
    {tid : Thread} (hwave : waveIndex L.waveSize tid = 0) :
    univ.filter (fun v : Fin 8 => v < waveRow L hW tid) = ∅ := by
  refine filter_eq_empty_iff.mpr fun v _ hv => ?_
  rw [Fin.lt_def] at hv
  simp only [waveRow, hwave] at hv
  omega

/-- The stable rank of the key of thread 0 is the start of its bucket. -/
theorem stableRank_zero (L : Launch) (hW : 32 ≤ L.waveSize.lanes)
    (f : Thread → Fin 16) :
    stableRank f (activeSet L) 0 = bucketStart L f (f 0) := by
  have hwaves := earlier_waves_eq_empty hW (waveIndex_zero L.waveSize)
  have hrank : waveRank L f 0 = 0 := by
    rw [waveRank, card_eq_zero, filter_eq_empty_iff]
    intro u _ h
    obtain ⟨_, _, hu⟩ := h
    exact absurd hu (Fin.not_lt_zero u)
  rw [stableRank_eq_waves L f hW, hwaves, hrank, sum_empty, Nat.add_zero,
    Nat.add_zero]

/-- The map `dstOf` from the active threads to indices is a bijection onto
the indices below `Count` and follows the stable order of the digits. -/
def StableScatter (L : Launch) (digitOf : Thread → Fin 16)
    (dstOf : Thread → Nat) : Prop :=
  Set.BijOn dstOf {tid | L.active tid} (Set.Iio L.count) ∧
    ∀ t u, L.active t → L.active u →
      (dstOf t < dstOf u ↔
        digitOf t < digitOf u ∨ digitOf t = digitOf u ∧ t < u)

/-- The scatter of a pass is the stable one exactly when no thread is
active. -/
theorem scatter_stable_iff (L : Launch) (hcount : L.count ≤ 256)
    (hW : 32 ≤ L.waveSize.lanes) (i : Fin 8) (r : PassRun L.waveSize)
    (hprevious : ∀ tid, r.previousWave tid = 0) (g : Group) :
    StableScatter L (fun u => digit (g.keysA u) (4 * i))
        (fun tid => (dst L (countingPhases L (4 * i) r g) tid).toNat) ↔
      L.count = 0 := by
  have hset : {tid | L.active tid} = (activeSet L : Set Thread) := by
    ext tid
    simp
  constructor
  · intro h
    obtain ⟨hbij, horder⟩ := h
    by_contra hne
    have hactive : L.active 0 := Nat.pos_of_ne_zero hne
    rw [hset, ← card_activeSet hcount] at hbij
    have hrank := eq_stableRank_of_bijOn hbij
      (fun t ht u hu => horder t u (mem_activeSet.mp ht) (mem_activeSet.mp hu))
      (mem_activeSet.mpr hactive)
    rw [dst_eq L hW (4 * i) r g hactive] at hrank
    have hlt := bucketStart_lt_target L (digits (4 * i) g.keysA) hprevious
      (waveIndex_zero L.waveSize) hactive
    have hstable := stableRank_zero L hW (digits (4 * i) g.keysA)
    exact absurd (hrank.trans hstable) hlt.ne'
  · intro hzero
    have hnone : ∀ tid : Thread, ¬L.active tid := by
      intro tid
      unfold Launch.active
      omega
    refine ⟨?_, fun t _ ht => absurd ht (hnone t)⟩
    have hempty : {tid | L.active tid} = (∅ : Set Thread) :=
      Set.eq_empty_of_forall_notMem hnone
    have hIio : Set.Iio L.count = ∅ := by
      rw [hzero]
      exact Set.Iio_bot
    rw [hempty, hIio]
    exact Set.bijOn_empty _

/-- With forty zero keys the scatter is not the stable one. -/
theorem scatter_forty_zeros :
    let L : Launch := ⟨⟨32, by decide⟩, 40, fun _ => 0, id⟩
    let r := PassRun.listed L.waveSize fun _ => 0
    let g := Group.start (Shared.fill 0)
    ¬StableScatter L (fun u => digit (g.keysA u) (4 * (0 : Fin 8)))
      fun tid => (dst L (countingPhases L (4 * (0 : Fin 8)) r g) tid).toNat := by
  intro L r g hstable
  have hcount := (scatter_stable_iff L (by decide) (by decide) 0 r
    (fun _ => rfl) g).mp hstable
  exact absurd hcount (by decide)

/-- A single key is stored at index 1, and no key at index 0. -/
theorem scatter_single_key :
    let L : Launch := ⟨⟨32, by decide⟩, 1, fun _ => 0, id⟩
    let r := PassRun.listed L.waveSize fun _ => 0
    let g := Group.start (Shared.fill 0)
    (dst L (countingPhases L 0 r g) 0).toNat = 1 ∧
      ¬StableScatter L (fun u => digit (g.keysA u) 0)
        fun tid => (dst L (countingPhases L 0 r g) tid).toNat := by
  intro L r g
  have hactive : L.active 0 := by decide
  have htarget : target L (fun _ => 0) (digits 0 g.keysA) 0 = 1 := by
    decide +kernel
  have hdst : (dst L (countingPhases L 0 r g) 0).toNat = 1 :=
    (dst_eq L (by decide) 0 r g hactive).trans htarget
  refine ⟨hdst, fun hstable => ?_⟩
  have hlt := hstable.1.mapsTo hactive
  simp only [hdst, Set.mem_Iio] at hlt
  exact absurd hlt (by decide)

/-! ## What a pass leaves in the key arrays -/

section Pass

variable (L : Launch) (hW : 32 ≤ L.waveSize.lanes) (shift : Nat)
  (r : PassRun L.waveSize) (g : Group)
  (hoob : L.oob = id ∨ ∀ tid, L.active tid →
    target L r.previousWave (digits shift g.keysA) tid < 256)

include hW hoob

/-- The group between the scatter phase and the copy back. -/
theorem run_scatter_countingPhases :
    runSteps (scatter L) r.scatter.order (countingPhases L shift r g) =
      { countingPhases L shift r g with
        keysB := runSteps
          (storeStep
            (scatterCell L (target L r.previousWave (digits shift g.keysA)))
            fun t => (loadedRegs L shift g.keysA t).key)
          r.scatter.order g.keysB } := by
  have hs := countingPhases_eq L shift hW r g
  have hcell : scatterCell L
      (fun t => (dst L (countingPhases L shift r g) t).toNat) =
        scatterCell L (target L r.previousWave (digits shift g.keysA)) := by
    funext tid
    unfold scatterCell
    by_cases hactive : L.active tid
    · simp only [if_pos hactive, dst_eq L hW shift r g hactive]
    · simp only [if_neg hactive]
  have hlt : L.oob = id ∨ ∀ tid, L.active tid →
      (dst L (countingPhases L shift r g) tid).toNat < 256 := by
    rcases hoob with hid | hall
    · exact Or.inl hid
    · refine Or.inr fun tid hactive => ?_
      rw [dst_eq L hW shift r g hactive]
      exact hall tid hactive
  rw [run_scatter L _ _ hlt, hcell]
  simp only [hs]

theorem pass_keysB_eq :
    (pass L shift r g).keysB =
      runSteps
        (storeStep
          (scatterCell L (target L r.previousWave (digits shift g.keysA)))
          fun t => (loadedRegs L shift g.keysA t).key)
        r.scatter.order g.keysB := by
  unfold pass
  simp only [run_scatter_countingPhases L hW shift r g hoob, run_copyBack]

/-- Every active thread takes its cell of `KeysB`. -/
theorem pass_keysA (tid : Thread) :
    (pass L shift r g).keysA tid =
      if L.active tid then (pass L shift r g).keysB tid else g.keysA tid := by
  have hs := countingPhases_eq L shift hW r g
  unfold pass
  simp only [run_scatter_countingPhases L hW shift r g hoob, run_copyBack]
  simp only [hs]

/-- A cell of `KeysB` holds the key of a thread that aims at it, or is left
alone when there is none. -/
theorem pass_keysB_cases (j : Thread) :
    (∃ tid, L.active tid ∧
        target L r.previousWave (digits shift g.keysA) tid = j ∧
        (pass L shift r g).keysB j = g.keysA tid) ∨
      (∀ tid, L.active tid →
        target L r.previousWave (digits shift g.keysA) tid ≠ j) ∧
        (pass L shift r g).keysB j = g.keysB j := by
  rw [pass_keysB_eq L hW shift r g hoob]
  rcases runSteps_storeStep_cases
      (scatterCell L (target L r.previousWave (digits shift g.keysA)))
      (fun t => (loadedRegs L shift g.keysA t).key) r.scatter.order g.keysB j
    with ⟨tid, _, hcell, hval⟩ | ⟨hnone, hval⟩
  · obtain ⟨hactive, htarget⟩ := scatterCell_eq_some.mp hcell
    refine Or.inl ⟨tid, hactive, htarget, hval.trans ?_⟩
    rw [loadedRegs, if_pos hactive]
  · refine Or.inr ⟨fun tid hactive htarget => ?_, hval⟩
    exact hnone tid (r.scatter.mem_iff.mpr (List.mem_finRange tid))
      (scatterCell_eq_some.mpr ⟨hactive, htarget⟩)

/-- The thread that runs last in the scatter phase gets its key through. -/
theorem pass_keysB_last {earlier : List Thread} {tid j : Thread}
    (horder : r.scatter.order = earlier ++ [tid]) (hactive : L.active tid)
    (htarget : target L r.previousWave (digits shift g.keysA) tid = j) :
    (pass L shift r g).keysB j = g.keysA tid := by
  rw [pass_keysB_eq L hW shift r g hoob, horder,
    runSteps_storeStep_append_singleton
      (scatterCell_eq_some.mpr ⟨hactive, htarget⟩)]
  rw [loadedRegs, if_pos hactive]

end Pass

end VulkanCompute.Shader
