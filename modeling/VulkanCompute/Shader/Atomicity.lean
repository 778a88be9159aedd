import VulkanCompute.Shader.Accesses
import VulkanCompute.Shader.Sort

/-!
# Whole threads are enough

The kernel with an arbitrary interleaving of single accesses in every phase,
`fineMain`, against the kernel of `Kernel.lean`, which runs whole threads.

* `fineCountingPhases_eq`: before the scatter phase the schedule of the
  accesses does not show.
* `scatter_order_two_waves`: in the scatter phase it shows when two waves aim
  different keys at the same places.
* `fineMain_refines` and `exists_fineMain` carry the phases through the
  passes, in both directions.
* `fineDispatch_outcomes`: what single accesses can leave in `OutputKeys` is
  what whole threads can leave there.  It needs that no scatter misses
  `KeysB`, which `FineRun.contained` gives for up to 128 keys.
-/

namespace VulkanCompute.Shader

open Lib Finset

/-! ## The kernel of single accesses -/

/-- What one pass leaves open: the uninitialised `previousWave` of every
thread and the order of the accesses in every phase. -/
structure FinePass (L : Launch) where
  previousWave : Thread → UInt32
  clear : AccessOrder clearTablesCode
  histogram : BucketOrder L.waveSize
  hist : AccessOrder sumHistCode
  bucketOffset : AccessOrder sumBucketOffsetCode
  waveOffset : AccessOrder (sumWaveOffsetCode previousWave)
  scatter : AccessOrder (scatterCode L)
  copyBack : AccessOrder (copyBackCode L)

/-- A pass up to the barrier before the scatter phase. -/
def fineCountingPhases (L : Launch) (shift : Nat) (p : FinePass L)
    (g : Group) : Group :=
  let g := runAccesses clearTablesCode p.clear g
  let g := runSteps (bucketStep L shift) p.histogram.order g
  let g := runAccesses sumHistCode p.hist g
  let g := runAccesses sumBucketOffsetCode p.bucketOffset g
  runAccesses (sumWaveOffsetCode p.previousWave) p.waveOffset g

/-- The body of the `shift` loop. -/
def finePass (L : Launch) (shift : Nat) (p : FinePass L) (g : Group) : Group :=
  let g := fineCountingPhases L shift p g
  let g := runAccesses (scatterCode L) p.scatter g
  runAccesses (copyBackCode L) p.copyBack g

/-- A pass in which whole threads run in the order `o` in every phase but the
histogram. -/
def FinePass.serial (L : Launch) (previousWave : Thread → UInt32)
    (o : ThreadOrder) : FinePass L where
  previousWave := previousWave
  clear := .serial (List.nodup_finRange 256) o.perm
  histogram := .listed L.waveSize
  hist := .serial (List.nodup_finRange 256) o.perm
  bucketOffset := .serial (List.nodup_finRange 256) o.perm
  waveOffset := .serial (List.nodup_finRange 256) o.perm
  scatter := .serial (List.nodup_finRange 256) o.perm
  copyBack := .serial (List.nodup_finRange 256) o.perm

/-- A pass in which the threads run in turns in every phase, one instruction
each. -/
def FinePass.inTurns (L : Launch) (previousWave : Thread → UInt32) :
    FinePass L where
  previousWave := previousWave
  clear := .inTurns
  histogram := .inTurns L.waveSize
  hist := .inTurns
  bucketOffset := .inTurns
  waveOffset := .inTurns
  scatter := .inTurns
  copyBack := .inTurns

/-- What a thread group leaves open. -/
structure FineRun (L : Launch) where
  initial : Shared
  load : AccessOrder (loadInputCode L)
  passes : Fin 8 → FinePass L

/-- The group after its first `n` passes. -/
def FineRun.before {L : Launch} (F : FineRun L) (n : Nat) : Group :=
  runSteps (fun i => finePass L (4 * i.val) (F.passes i))
    ((List.finRange 8).take n)
    (runAccesses (loadInputCode L) F.load (Group.start F.initial))

/-- The kernel up to its last barrier. -/
def fineMain (L : Launch) (F : FineRun L) : Group := F.before 8

/-- Every scatter phase of the run stays inside `KeysB`. -/
def FineRun.Contained {L : Launch} (F : FineRun L) : Prop :=
  ∀ i : Fin 8, Shader.Contained L
    (fineCountingPhases L (4 * i.val) (F.passes i) (F.before i))

section Refinement

variable {L : Launch} (hW : 32 ≤ L.waveSize.lanes)

include hW

theorem exists_countingPhases (shift : Nat) (p : FinePass L) (g : Group) :
    ∃ r : PassRun L.waveSize, r.previousWave = p.previousWave ∧
      fineCountingPhases L shift p g = countingPhases L shift r g := by
  obtain ⟨clear, hclear⟩ := run_clearTablesCode p.clear g
  let g₁ := runSteps clearTables clear.order g
  let g₂ := runSteps (histogramStep L shift) histogramSteps g₁
  obtain ⟨hist, hhist⟩ := run_sumHistCode p.hist g₂
  let g₃ := runSteps sumHist hist.order g₂
  obtain ⟨bucketOffset, hbucket⟩ := run_sumBucketOffsetCode p.bucketOffset g₃
  let g₄ := runSteps sumBucketOffset bucketOffset.order g₃
  obtain ⟨waveOffset, hwave⟩ :=
    run_sumWaveOffsetCode p.previousWave p.waveOffset g₄
  refine ⟨⟨p.previousWave, clear, histogramListed _, hist, bucketOffset,
    waveOffset, .listed, .listed⟩, rfl, ?_⟩
  simp only [fineCountingPhases, hclear, run_bucketSteps L hW]
  exact (congrArg _ (congrArg _ hhist)).trans
    ((congrArg _ hbucket).trans hwave)

/-- The schedule of the accesses does not show before the scatter phase. -/
theorem fineCountingPhases_eq (shift : Nat) (p q : FinePass L)
    (hprevious : p.previousWave = q.previousWave) (g : Group) :
    fineCountingPhases L shift p g = fineCountingPhases L shift q g := by
  obtain ⟨r, hr, hp⟩ := exists_countingPhases hW shift p g
  obtain ⟨r', hr', hq⟩ := exists_countingPhases hW shift q g
  rw [hp, hq]
  simp only [countingPhases, run_clearTables, run_histogram L hW, run_sumHist,
    run_sumBucketOffset, run_sumWaveOffset, hr, hr', hprevious]

omit hW in
/-- The counting phases of a hundred keys do not see whether the threads run
one after the other or in turns. -/
theorem fineCountingPhases_hundred_keys :
    let L : Launch := ⟨⟨32, by decide⟩, 100, fun i => .ofNat (37 * i), id⟩
    let g := runAccesses (loadInputCode L) .inTurns (Group.start (Shared.fill 0))
    let first := FinePass.serial L (fun t => .ofNat t.val) .listed
    let second := FinePass.inTurns L fun t => .ofNat t.val
    fineCountingPhases L 4 first g = fineCountingPhases L 4 second g := by
  intro L g first second
  exact fineCountingPhases_eq (by decide) 4 first second rfl g

theorem exists_pass (shift : Nat) (p : FinePass L) (g : Group)
    (hinside : Contained L (fineCountingPhases L shift p g)) :
    ∃ r : PassRun L.waveSize, r.previousWave = p.previousWave ∧
      finePass L shift p g = pass L shift r g := by
  obtain ⟨r, hprevious, hcounting⟩ := exists_countingPhases hW shift p g
  obtain ⟨scatterOrder, hscatter⟩ := run_scatterCode L p.scatter _ hinside
  obtain ⟨copyOrder, hcopy⟩ := run_copyBackCode L p.copyBack
    (runSteps (scatter L) scatterOrder.order
      (fineCountingPhases L shift p g))
  refine ⟨{ r with scatter := scatterOrder, copyBack := copyOrder },
    hprevious, ?_⟩
  calc finePass L shift p g
      = runAccesses (copyBackCode L) p.copyBack
          (runSteps (scatter L) scatterOrder.order
            (fineCountingPhases L shift p g)) :=
        congrArg (runAccesses (copyBackCode L) p.copyBack) hscatter
    _ = runSteps (copyBack L) copyOrder.order
          (runSteps (scatter L) scatterOrder.order
            (countingPhases L shift r g)) := by rw [hcopy, hcounting]
    _ = _ := rfl

/-- Every run of the single accesses whose scatters stay inside `KeysB` is a
run of whole threads: it ends in the same memory, from the same start and with
the same uninitialised variables. -/
theorem fineMain_refines (F : FineRun L) (hinside : F.Contained) :
    ∃ r : GroupRun L.waveSize, r.initial = F.initial ∧
      (∀ i, (r.passes i).previousWave = (F.passes i).previousWave) ∧
      fineMain L F = main L r := by
  obtain ⟨load, hload⟩ := run_loadInputCode L F.load (Group.start F.initial)
  choose passes hprevious hpass using fun i : Fin 8 =>
    exists_pass hW (4 * i.val) (F.passes i) (F.before i) (hinside i)
  refine ⟨⟨F.initial, load, passes⟩, rfl, hprevious, ?_⟩
  have hbefore : ∀ n, n ≤ 8 → F.before n =
      runSteps (fun i => pass L (4 * i.val) (passes i))
        ((List.finRange 8).take n)
        (loadPhase L ⟨F.initial, load, passes⟩) := by
    intro n
    induction n with
    | zero => exact fun _ => hload
    | succ n ih =>
      intro hn
      have hfine := runSteps_take_succ
        (fun i => finePass L (4 * i.val) (F.passes i)) ⟨n, hn⟩
        (runAccesses (loadInputCode L) F.load (Group.start F.initial))
      have hcoarse := runSteps_take_succ
        (fun i => pass L (4 * i.val) (passes i)) ⟨n, hn⟩
        (loadPhase L ⟨F.initial, load, passes⟩)
      calc F.before (n + 1)
          = finePass L (4 * n) (F.passes ⟨n, hn⟩) (F.before n) := hfine
        _ = pass L (4 * n) (passes ⟨n, hn⟩) (F.before n) := hpass ⟨n, hn⟩
        _ = pass L (4 * n) (passes ⟨n, hn⟩) _ := by rw [ih (by omega)]
        _ = _ := hcoarse.symm
  exact hbefore 8 le_rfl

theorem exists_finePass (shift : Nat) (r : PassRun L.waveSize) (g : Group) :
    ∃ p : FinePass L, p.previousWave = r.previousWave ∧
      finePass L shift p g = pass L shift r g := by
  obtain ⟨clear, hclear⟩ := implements_clearTables.exists_accesses r.clear g
  let g₁ := runSteps clearTables r.clear.order g
  let g₂ := runSteps (histogramStep L shift) r.histogram.order g₁
  have hhistogram : runSteps (bucketStep L shift)
      (BucketOrder.listed L.waveSize).order g₁ = g₂ := by
    rw [run_bucketSteps L hW shift (BucketOrder.listed L.waveSize)]
    exact (run_histogram L hW shift (histogramListed L.waveSize) g₁).trans
      (run_histogram L hW shift r.histogram g₁).symm
  obtain ⟨hist, hhist⟩ := implements_sumHist.exists_accesses r.hist g₂
  let g₃ := runSteps sumHist r.hist.order g₂
  obtain ⟨bucketOffset, hbucket⟩ :=
    implements_sumBucketOffset.exists_accesses r.bucketOffset g₃
  let g₄ := runSteps sumBucketOffset r.bucketOffset.order g₃
  obtain ⟨waveOffset, hwave⟩ :=
    (implements_sumWaveOffset r.previousWave).exists_accesses r.waveOffset g₄
  let g₅ := runSteps (sumWaveOffset r.previousWave) r.waveOffset.order g₄
  obtain ⟨scatterOrder, hscatter⟩ :=
    (implements_scatter L).exists_accesses r.scatter g₅
  obtain ⟨copyOrder, hcopy⟩ := (implements_copyBack L).exists_accesses
    r.copyBack (runSteps (scatter L) r.scatter.order g₅)
  refine ⟨⟨r.previousWave, clear, .listed _, hist, bucketOffset, waveOffset,
    scatterOrder, copyOrder⟩, rfl, ?_⟩
  unfold finePass fineCountingPhases
  simp only [hclear]
  rw [hhistogram, hhist, hbucket, hwave, hscatter, hcopy]
  rfl

/-- Every run of whole threads is a run of single accesses. -/
theorem exists_fineMain (r : GroupRun L.waveSize) :
    ∃ F : FineRun L, F.initial = r.initial ∧
      (∀ i, (F.passes i).previousWave = (r.passes i).previousWave) ∧
      fineMain L F = main L r := by
  obtain ⟨load, hload⟩ := (implements_loadInput L).exists_accesses r.load
    (Group.start r.initial)
  let before := fun n => runSteps (fun i => pass L (4 * i.val) (r.passes i))
    ((List.finRange 8).take n) (loadPhase L r)
  choose passes hprevious hpass using fun i : Fin 8 =>
    exists_finePass hW (4 * i.val) (r.passes i) (before i)
  refine ⟨⟨r.initial, load, passes⟩, rfl, hprevious, ?_⟩
  have hbefore : ∀ n, n ≤ 8 →
      FineRun.before ⟨r.initial, load, passes⟩ n = before n := by
    intro n
    induction n with
    | zero => exact fun _ => hload
    | succ n ih =>
      intro hn
      have hfine := runSteps_take_succ
        (fun i => finePass L (4 * i.val) (passes i)) ⟨n, hn⟩
        (runAccesses (loadInputCode L) load (Group.start r.initial))
      have hcoarse := runSteps_take_succ
        (fun i => pass L (4 * i.val) (r.passes i)) ⟨n, hn⟩ (loadPhase L r)
      calc FineRun.before ⟨r.initial, load, passes⟩ (n + 1)
          = finePass L (4 * n) (passes ⟨n, hn⟩)
              (FineRun.before ⟨r.initial, load, passes⟩ n) := hfine
        _ = finePass L (4 * n) (passes ⟨n, hn⟩) (before n) := by
            rw [ih (by omega)]
        _ = pass L (4 * n) (r.passes ⟨n, hn⟩) (before n) := hpass ⟨n, hn⟩
        _ = before (n + 1) := hcoarse.symm
  exact hbefore 8 le_rfl

end Refinement

/-! ## The dispatch -/

/-- The run of `G` thread groups at the grain of accesses. -/
structure FineDispatch (L : Launch) (G : Nat) where
  group : Fin G → FineRun L
  landing : Schedule (List.product (List.finRange G) (List.finRange 256))
    fun _ _ => False

/-- `OutputKeys` after the dispatch. -/
def fineDispatch (L : Launch) {G : Nat} (D : FineDispatch L G)
    (outputKeys : Nat → Int32) : Nat → Int32 :=
  (D.landing.order.filterMap fun p =>
      storeOutput L (fineMain L (D.group p.1)) p.2).foldl
    (fun out s => Function.update out s.1 s.2) outputKeys

/-- What a dispatch of single accesses leaves in `OutputKeys`, a dispatch of
whole threads leaves there too. -/
theorem fineDispatch_refines {L : Launch} (hW : 32 ≤ L.waveSize.lanes)
    {G : Nat} (D : FineDispatch L G)
    (hinside : ∀ i, (D.group i).Contained) :
    ∃ D' : DispatchRun L.waveSize G,
      (∀ i, (D'.group i).initial = (D.group i).initial ∧
        ∀ j, ((D'.group i).passes j).previousWave =
          ((D.group i).passes j).previousWave) ∧
      ∀ outputKeys, fineDispatch L D outputKeys = dispatch L D' outputKeys := by
  choose group hinitial hprevious hmain using fun i =>
    fineMain_refines hW (D.group i) (hinside i)
  refine ⟨⟨group, D.landing⟩, fun i => ⟨hinitial i, hprevious i⟩, ?_⟩
  intro outputKeys
  unfold fineDispatch dispatch outputStores
  simp only [hmain]

/-! ## Runs that stay inside `KeysB` -/

/-- With at most 128 keys every scatter stays inside `KeysB`, whatever the
loop variable holds at first. -/
theorem target_lt_of_count_le {L : Launch} (hW : 32 ≤ L.waveSize.lanes)
    (hcount : L.count ≤ 128) (previousWave : Thread → UInt32)
    (f : Thread → Fin 16) {tid : Thread} (htid : L.active tid) :
    target L previousWave f tid < 256 := by
  have hplace := target_skipped_lt L f skipsWaves_eight (by omega) hW htid
  rw [target_skipped L f skipsWaves_eight] at hplace
  have hoffset : ∀ first w b, waveOffset L f first w b ≤ L.count := by
    intro first w b
    calc waveOffset L f first w b
        ≤ ∑ v : Fin 8, waveCount L f v b :=
          Finset.sum_le_sum_of_subset (filter_subset _ _)
      _ = bucketCount L f b := sum_waveCount L f hW b
      _ ≤ #(activeSet L) := card_le_card (filter_subset _ _)
      _ = L.count := card_activeSet (by omega)
  unfold target
  simp only
  have h := hoffset (previousWave (cellThread
      (offsetCell L.waveSize tid (f tid))))
    (cellWave (offsetCell L.waveSize tid (f tid)))
    (cellBucket (offsetCell L.waveSize tid (f tid)))
  omega

theorem contained_of_count_le {L : Launch} (hW : 32 ≤ L.waveSize.lanes)
    (hcount : L.count ≤ 128) (shift : Nat) (p : FinePass L) (g : Group) :
    Contained L (fineCountingPhases L shift p g) := by
  intro tid htid
  obtain ⟨r, _, hcounting⟩ := exists_countingPhases hW shift p g
  rw [hcounting, dst_eq L hW _ r _ htid]
  exact target_lt_of_count_le hW hcount r.previousWave _ htid

/-! ### The order of the scatter phase -/

/-- Forty keys whose lowest digit is 0, in two waves. -/
def fortyKeys (key : Nat → Nat) : Launch :=
  ⟨.thirtyTwo, 40, fun i => .ofNat (16 * key i), id⟩

/-- They have been loaded and counted, and the loops over the lower waves were
skipped. -/
def fortyKeysCounted (key : Nat → Nat) : Group :=
  fineCountingPhases (fortyKeys key) 0 (.inTurns _ fun _ => 8)
    (runAccesses (loadInputCode (fortyKeys key)) .inTurns
      (Group.start (Shared.fill 0)))

theorem digit_zero_of_mul (n : Nat) : digit (.ofNat (16 * n)) 0 = 0 := by
  apply Fin.ext
  show (UInt32.ofNat (16 * n) >>> UInt32.ofNat 0 &&& 15).toNat = 0
  rw [UInt32.toNat_and, UInt32.toNat_shiftRight, UInt32.toNat_ofNat']
  show (16 * n % 2 ^ 32) >>> 0 &&& (2 ^ 4 - 1) = 0
  rw [Nat.and_two_pow_sub_one_eq_mod, Nat.shiftRight_zero]
  omega

theorem waveRank_fortyKeys (key : Nat → Nat) {tid : Thread}
    (htid : (fortyKeys key).active tid) :
    waveRank (fortyKeys key) (fun _ => 0) tid = tid % 32 := by
  have hranks : ∀ tid : Thread, tid.val < 40 →
      #{u ∈ (univ : Finset Thread).filter (·.val < 40) |
        u.val / 32 = tid.val / 32 ∧ (0 : Fin 16) = 0 ∧ u < tid} = tid % 32 := by
    decide +kernel
  exact hranks tid htid

/-- The keys of the second wave are aimed at the places of the first one. -/
theorem fortyKeysCounted_spec (key : Nat → Nat) {tid : Thread}
    (htid : (fortyKeys key).active tid) :
    (dst (fortyKeys key) (fortyKeysCounted key) tid).toNat = tid % 32 ∧
      ((fortyKeysCounted key).regs tid).key = .ofNat (16 * key tid) := by
  have hW : 32 ≤ (fortyKeys key).waveSize.lanes := Nat.le_refl _
  obtain ⟨o, ho⟩ := run_loadInputCode (fortyKeys key) .inTurns
    (Group.start (Shared.fill 0))
  obtain ⟨r, hr, hcounted⟩ := exists_countingPhases hW 0
    (.inTurns (fortyKeys key) fun _ => 8) (runSteps (loadInput (fortyKeys key))
      o.order (Group.start (Shared.fill 0)))
  have hkeys : ∀ u, (runSteps (loadInput (fortyKeys key)) o.order
      (Group.start (Shared.fill 0))).keysA u =
        if (fortyKeys key).active u then .ofNat (16 * key u) else 0 := by
    intro u
    rw [run_loadInput]
    rfl
  have hdigits : digits 0 (runSteps (loadInput (fortyKeys key)) o.order
      (Group.start (Shared.fill 0))).keysA = fun _ => 0 := by
    funext u
    rw [digits, hkeys]
    split
    · exact digit_zero_of_mul _
    · rfl
  unfold fortyKeysCounted
  rw [ho, hcounted]
  constructor
  · rw [dst_eq _ hW _ _ _ htid, hr, hdigits]
    show target _ (fun _ => 8) _ _ = _
    rw [target_skipped _ _ skipsWaves_eight, waveRank_fortyKeys key htid]
    have hstart : bucketStart (fortyKeys key) (fun _ => 0) 0 = 0 :=
      card_eq_zero.mpr (filter_false _)
    rw [hstart, Nat.zero_add]
  · rw [countingPhases_eq _ 0 hW r]
    show (loadedRegs (fortyKeys key) 0 _ tid).key = _
    rw [loadedRegs, if_pos htid, hkeys, if_pos htid]

/-- The order of the accesses shows when the two waves have different keys,
and does not show when they have the same ones. -/
theorem scatter_order_two_waves :
    (∀ o o' : AccessOrder (scatterCode (fortyKeys (· % 32))),
      runAccesses _ o (fortyKeysCounted (· % 32)) =
        runAccesses _ o' (fortyKeysCounted (· % 32))) ∧
    ¬∀ o o' : AccessOrder (scatterCode (fortyKeys id)),
      runAccesses _ o (fortyKeysCounted id) =
        runAccesses _ o' (fortyKeysCounted id) := by
  have hiff := fun key => scatter_order_iff (fortyKeys key)
    (fortyKeysCounted key) (contained_of_count_le (Nat.le_refl _)
      (show 40 ≤ 128 by decide) 0 _ _)
  constructor
  · refine (hiff _).mpr fun t u ht hu hdst => ?_
    obtain ⟨hplace, hkey⟩ := fortyKeysCounted_spec (· % 32) ht
    obtain ⟨hplace', hkey'⟩ := fortyKeysCounted_spec (· % 32) hu
    rw [hdst, hplace'] at hplace
    rw [hkey, hkey', hplace]
  · intro hsame
    have ht : (fortyKeys id).active 0 := by decide
    have hu : (fortyKeys id).active 32 := by decide
    obtain ⟨hplace, hkey⟩ := fortyKeysCounted_spec id ht
    obtain ⟨hplace', hkey'⟩ := fortyKeysCounted_spec id hu
    have heq := (hiff id).mp hsame 0 32 ht hu
      (UInt32.toNat_inj.mp (hplace.trans hplace'.symm))
    rw [hkey, hkey'] at heq
    exact absurd heq (by decide)

/-! ### Outcomes -/

/-- No store of a run misses `KeysB` when there are at most 128 keys. -/
theorem FineRun.contained {L : Launch} (hW : 32 ≤ L.waveSize.lanes)
    (hcount : L.count ≤ 128) (F : FineRun L) : F.Contained :=
  fun i => contained_of_count_le hW hcount _ (F.passes i) (F.before i)

/-- The two grains have the same outcomes.  With at most 128 keys, what a
dispatch of single accesses can leave in `OutputKeys` is what a dispatch of
whole threads can leave there, for the same first contents of the groupshared
arrays and of `previousWave`. -/
theorem fineDispatch_outcomes {L : Launch} (hW : 32 ≤ L.waveSize.lanes)
    (hcount : L.count ≤ 128) {G : Nat} (initial : Fin G → Shared)
    (previousWave : Fin G → Fin 8 → Thread → UInt32)
    (outputKeys result : Nat → Int32) :
    (∃ D : FineDispatch L G,
        (∀ i, (D.group i).initial = initial i ∧
          ∀ j, ((D.group i).passes j).previousWave = previousWave i j) ∧
        fineDispatch L D outputKeys = result) ↔
      ∃ D : DispatchRun L.waveSize G,
        (∀ i, (D.group i).initial = initial i ∧
          ∀ j, ((D.group i).passes j).previousWave = previousWave i j) ∧
        dispatch L D outputKeys = result := by
  constructor
  · intro h
    obtain ⟨D, hstart, hresult⟩ := h
    obtain ⟨D', hsame, hout⟩ := fineDispatch_refines hW D
      fun i => (D.group i).contained hW hcount
    refine ⟨D', fun i => ?_, (hout outputKeys).symm.trans hresult⟩
    refine ⟨(hsame i).1.trans (hstart i).1, fun j => ?_⟩
    exact ((hsame i).2 j).trans ((hstart i).2 j)
  · intro h
    obtain ⟨D, hstart, hresult⟩ := h
    choose group hinitial hprevious hmain using fun i =>
      exists_fineMain hW (D.group i)
    refine ⟨⟨group, D.landing⟩, fun i => ?_, ?_⟩
    · refine ⟨(hinitial i).trans (hstart i).1, fun j => ?_⟩
      exact (hprevious i j).trans ((hstart i).2 j)
    · rw [← hresult]
      unfold fineDispatch dispatch outputStores
      simp only [hmain]

/-- A hundred keys in two groups.  In the first run the threads of the first
group run in turns and those of the second one after the other, and in the
second run whole threads run, in opposite orders. -/
theorem fineDispatch_outcomes_hundred_keys :
    let L : Launch := ⟨⟨32, by decide⟩, 100, fun i => .ofNat (37 * i), id⟩
    let initial : Fin 2 → Shared := fun i => Shared.fill (.ofNat i.val)
    let previousWave : Fin 2 → Fin 8 → Thread → UInt32 :=
      fun i j t => .ofNat (i + j + t)
    let fine : FineDispatch L 2 :=
      ⟨fun i => ⟨initial i, .inTurns, fun j =>
        if i = 0 then .inTurns L (previousWave i j)
        else .serial L (previousWave i j) .reversed⟩, .reversed _⟩
    let whole : DispatchRun L.waveSize 2 :=
      ⟨fun i => ⟨initial i, if i = 0 then .listed else .reversed,
        fun j => if i = 0 then .listed _ (previousWave i j)
          else .reversed _ (previousWave i j)⟩, .listed _⟩
    (∃ D : DispatchRun L.waveSize 2,
      (∀ i, (D.group i).initial = initial i ∧
        ∀ j, ((D.group i).passes j).previousWave = previousWave i j) ∧
      dispatch L D (fun _ => 1) = fineDispatch L fine fun _ => 1) ∧
    ∃ D : FineDispatch L 2,
      (∀ i, (D.group i).initial = initial i ∧
        ∀ j, ((D.group i).passes j).previousWave = previousWave i j) ∧
      fineDispatch L D (fun _ => 1) = dispatch L whole fun _ => 1 := by
  intro L initial previousWave fine whole
  have houtcomes := fun result => fineDispatch_outcomes (L := L) (by decide)
    (by decide) initial previousWave (fun _ => 1) result
  have hfine : ∀ i j, ((fine.group i).passes j).previousWave =
      previousWave i j := by
    intro i j
    show (if i = 0 then FinePass.inTurns L (previousWave i j)
      else .serial L (previousWave i j) .reversed).previousWave = _
    split <;> rfl
  have hwhole : ∀ i j, ((whole.group i).passes j).previousWave =
      previousWave i j := by
    intro i j
    show (if i = 0 then PassRun.listed L.waveSize (previousWave i j)
      else .reversed _ (previousWave i j)).previousWave = _
    split <;> rfl
  exact ⟨(houtcomes _).mp ⟨fine, fun i => ⟨rfl, hfine i⟩, rfl⟩,
    (houtcomes _).mpr ⟨whole, fun i => ⟨rfl, hwhole i⟩, rfl⟩⟩

end VulkanCompute.Shader
