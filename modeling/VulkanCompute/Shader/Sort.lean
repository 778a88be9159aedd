import Mathlib.Data.Finset.Card
import VulkanCompute.Shader.Radix

/-!
# Sorting

`SortsInput` is what the kernel is written for.  A dispatch meets it when all
of its passes aim at stable ranks (`dispatch_sorts`).  With a single active
wave that is so when `previousWave` happens to start behind the last wave in
every thread (`dispatch_sorts_one_wave`).

But there is no input on which every run meets it (`never_sorts_input`):
whatever the keys are, the uninitialised memory can put a word into
`OutputKeys` that no key has.

* The initial groupshared memory is filled with a word `v` that is not among
  the keys.
* In the first pass some cell of `KeysB` below `Count` stays unwritten, with
  `previousWave` starting at 0 or with it starting at 8
  (`exists_cell_missed`).  The thread of that cell takes `v` for its key.
* In a later pass with `previousWave` starting at 8 every key is aimed below
  `Count`, and when the thread that holds `v` scatters last, `v` gets through
  (`exists_pass_holds`).

With `previousWave` starting at 0 and a single active wave no run is needed
to see it: cell 0 of `KeysB` is never written at all (`main_keysA_zero`).
-/

namespace VulkanCompute.Shader

open Lib Finset

/-- The first `Count` words of `OutputKeys` are a permutation of those of
`InputKeys`, and as unsigned words they do not decrease. -/
def SortsInput (L : Launch) (out : Nat → Int32) : Prop :=
  ((List.range L.count).map out).Perm
      ((List.range L.count).map L.inputKeys) ∧
    ∀ i j, i ≤ j → j < L.count → (out i).toUInt32 ≤ (out j).toUInt32

/-- Every word of a sorted output is one of the keys. -/
theorem SortsInput.exists_key {L : Launch} {out : Nat → Int32}
    (h : SortsInput L out) {i : Nat} (hi : i < L.count) :
    ∃ j < L.count, L.inputKeys j = out i := by
  have hmem : out i ∈ (List.range L.count).map L.inputKeys :=
    h.1.mem_iff.mp (List.mem_map_of_mem (List.mem_range.mpr hi))
  obtain ⟨j, hj, heq⟩ := List.mem_map.mp hmem
  exact ⟨j, List.mem_range.mp hj, heq⟩

/-- The output is sorted when it is what `main` leaves in `KeysA` after
stable passes. -/
theorem SortsInput.of_stablePasses {L : Launch}
    (hW : 32 ≤ L.waveSize.lanes) (hcount : L.count ≤ 256)
    {r : GroupRun L.waveSize} (hstable : StablePasses L r) {out : Nat → Int32}
    (hout : ∀ tid, L.active tid → out tid = ((main L r).keysA tid).toInt32) :
    SortsInput L out := by
  constructor
  · have hrange : (activeSet L).val.map Fin.val =
        (List.range L.count : Multiset Nat) := by
      have hplaces := active_places hcount
      rw [card_activeSet hcount] at hplaces
      have himage : (activeSet L).image Fin.val = range L.count := by
        ext j
        rw [mem_image, mem_range]
        constructor
        · intro h
          obtain ⟨t, ht, rfl⟩ := h
          exact mem_activeSet.mp ht
        · intro hj
          exact hplaces.surjOn hj
      rw [← image_val_of_injOn hplaces.injOn, himage]
      rfl
    rw [← Multiset.coe_eq_coe, ← Multiset.map_coe, ← Multiset.map_coe,
      ← hrange, Multiset.map_map, Multiset.map_map]
    have hwords := congrArg (Multiset.map UInt32.toInt32)
      (main_keys hW hcount hstable)
    rw [Multiset.map_map, Multiset.map_map] at hwords
    refine Eq.trans (Multiset.map_congr rfl fun tid htid => ?_)
      (hwords.trans (Multiset.map_congr rfl fun tid _ => ?_))
    · exact hout tid (mem_activeSet.mp htid)
    · exact Int32.toInt32_toUInt32 _
  · intro i j hij hj
    have hlt := lt_of_lt_of_le hj hcount
    have hi : i < L.count := lt_of_le_of_lt hij hj
    let t : Thread := ⟨i, lt_of_le_of_lt hij hlt⟩
    let u : Thread := ⟨j, hlt⟩
    have hsorted := main_sorted hW hcount hstable (t := t) (u := u) hi hj hij
    have ht : out i = _ := hout t hi
    have hu : out j = _ := hout u hj
    rw [ht, hu]
    exact hsorted

/-! ## Targets with a skipped loop -/

/-- In every thread `previousWave` starts behind the last wave. -/
def SkipsWaves (previousWave : Thread → UInt32) : Prop :=
  ∀ tid, 8 ≤ (previousWave tid).toNat

theorem skipsWaves_eight : SkipsWaves fun _ => 8 := fun _ => Nat.le_refl 8

section Skipped

variable (L : Launch) (f : Thread → Fin 16)

/-- A loop that starts at 8 or more visits no wave. -/
theorem waveOffset_skipped {first : UInt32} (hfirst : 8 ≤ first.toNat)
    (w : Fin 8) (b : Fin 16) : waveOffset L f first w b = 0 := by
  have hwaves : univ.filter (fun v : Fin 8 =>
      first.toNat ≤ v.val ∧ v < w) = ∅ := by
    refine filter_eq_empty_iff.mpr fun v _ hv => ?_
    have hv8 : 8 ≤ v.val := hfirst.trans hv.1
    omega
  rw [waveOffset, hwaves, sum_empty]

theorem target_skipped {previousWave : Thread → UInt32}
    (hskip : SkipsWaves previousWave) (tid : Thread) :
    target L previousWave f tid =
      bucketStart L f (f tid) + waveRank L f tid := by
  unfold target
  simp only [waveOffset_skipped L f (hskip _), Nat.add_zero]

/-- With the loop skipped no key is aimed past its place. -/
theorem target_skipped_lt {previousWave : Thread → UInt32}
    (hskip : SkipsWaves previousWave) (hcount : L.count ≤ 256)
    (hW : 32 ≤ L.waveSize.lanes) {tid : Thread} (htid : L.active tid) :
    target L previousWave f tid < L.count := by
  have hrank := stableRank_lt_card f (mem_activeSet.mpr htid)
  rw [stableRank_eq_waves L f hW, card_activeSet hcount] at hrank
  rw [target_skipped L f hskip]
  omega

theorem target_skipped_le (previousWave : Thread → UInt32) (tid : Thread) :
    target L (fun _ => 8) f tid ≤ target L previousWave f tid := by
  rw [target_skipped L f skipsWaves_eight]
  unfold target
  simp only
  omega

/-- Thread 0 is aimed further when the loop runs. -/
theorem target_skipped_lt_target (hcount : 0 < L.count) :
    target L (fun _ => 8) f 0 < target L (fun _ => 0) f 0 := by
  have hactive : L.active 0 := hcount
  have hwave := waveIndex_zero L.waveSize
  have hpos := waveCount_pos L f hactive
  rw [hwave] at hpos
  rw [target_skipped L f skipsWaves_eight,
    target_of_wave_zero L f (fun _ => rfl) hwave]
  omega

/-- Some first value of `previousWave` leaves a cell below `Count`
unwritten.  If both values covered the cells below `Count`, their targets
would have the same sum. -/
theorem exists_cell_missed (hpos : 0 < L.count) (hcount : L.count ≤ 256) :
    ∃ first : UInt32, ∃ j < L.count, ∀ tid, L.active tid →
      target L (fun _ => first) f tid ≠ j := by
  by_contra hnot
  have hcovers : ∀ first : UInt32, ∀ j < #(activeSet L),
      ∃ tid ∈ activeSet L, target L (fun _ => first) f tid = j := by
    intro first j hj
    rw [card_activeSet hcount] at hj
    by_contra hmiss
    refine hnot ⟨first, j, hj, fun tid hactive htarget => ?_⟩
    exact hmiss ⟨tid, mem_activeSet.mpr hactive, htarget⟩
  have hsum : ∑ tid ∈ activeSet L, target L (fun _ => 8) f tid <
      ∑ tid ∈ activeSet L, target L (fun _ => 0) f tid := by
    refine sum_lt_sum (fun tid _ => target_skipped_le L f _ tid) ?_
    exact ⟨0, mem_activeSet.mpr hpos, target_skipped_lt_target L f hpos⟩
  rw [sum_eq_of_covers (hcovers 8), sum_eq_of_covers (hcovers 0)] at hsum
  exact lt_irrefl _ hsum

end Skipped

/-! ## Runs that sort -/

/-- There is only one sorted output. -/
theorem SortsInput.unique {L : Launch} {out out' : Nat → Int32}
    (h : SortsInput L out) (h' : SortsInput L out') {j : Nat}
    (hj : j < L.count) : out j = out' j := by
  have hpairwise : ∀ {out : Nat → Int32}, SortsInput L out →
      ((List.range L.count).map out).Pairwise
        fun x y => x.toUInt32 ≤ y.toUInt32 := by
    intro out h
    rw [List.pairwise_map]
    refine List.pairwise_lt_range.imp_of_mem fun _ hy hxy => ?_
    exact h.2 _ _ hxy.le (List.mem_range.mp hy)
  have hlist := (h.1.trans h'.1.symm).eq_of_pairwise
    (fun _ _ _ _ hxy hyx =>
      congrArg UInt32.toInt32 (UInt32.le_antisymm hxy hyx))
    (hpairwise h) (hpairwise h')
  exact List.map_inj_left.mp hlist j (List.mem_range.mpr hj)

/-- A dispatch whose groups all make stable passes sorts. -/
theorem dispatch_sorts {L : Launch} (hW : 32 ≤ L.waveSize.lanes)
    (hcount : L.count ≤ 256) {G : Nat} (hG : 0 < G)
    (D : DispatchRun L.waveSize G)
    (hstable : ∀ group, StablePasses L (D.group group))
    (outputKeys : Nat → Int32) : SortsInput L (dispatch L D outputKeys) := by
  let out : Fin G → Nat → Int32 := fun group j =>
    ((main L (D.group group)).keysA (Fin.ofNat 256 j)).toInt32
  have hword : ∀ group (tid : Thread),
      out group tid = ((main L (D.group group)).keysA tid).toInt32 := by
    intro group tid
    have htid : Fin.ofNat 256 tid = tid := Fin.ext (Nat.mod_eq_of_lt tid.isLt)
    show ((main L (D.group group)).keysA (Fin.ofNat 256 tid)).toInt32 = _
    rw [htid]
  have hsorts : ∀ group, SortsInput L (out group) := fun group =>
    .of_stablePasses hW hcount (hstable group) fun tid _ => hword group tid
  apply SortsInput.of_stablePasses hW hcount (hstable ⟨0, hG⟩)
  intro tid htid
  obtain ⟨group, hout⟩ := dispatch_cases L hG D outputKeys htid
  rw [hout, ← hword, ← hword]
  exact (hsorts group).unique (hsorts ⟨0, hG⟩) htid

/-- With a single active wave and the loop skipped, every pass is stable. -/
theorem stablePasses_of_one_wave {L : Launch} (hW : 32 ≤ L.waveSize.lanes)
    (hcount : L.count ≤ L.waveSize.lanes) {r : GroupRun L.waveSize}
    (hskip : ∀ i, SkipsWaves (r.passes i).previousWave) :
    StablePasses L r := by
  intro i tid htid
  have hwave : waveIndex L.waveSize tid = 0 :=
    Nat.div_eq_of_lt (lt_of_lt_of_le htid hcount)
  rw [target_skipped L _ (hskip i), stableRank_eq_waves L _ hW,
    earlier_waves_eq_empty hW hwave, sum_empty, Nat.add_zero]

/-- Such a launch is sorted. -/
theorem dispatch_sorts_one_wave {L : Launch} (hW : 32 ≤ L.waveSize.lanes)
    (hcount : L.count ≤ L.waveSize.lanes) {G : Nat} (hG : 0 < G)
    (D : DispatchRun L.waveSize G)
    (hskip : ∀ group i, SkipsWaves ((D.group group).passes i).previousWave)
    (outputKeys : Nat → Int32) : SortsInput L (dispatch L D outputKeys) := by
  have hlanes := L.waveSize.le_lanes
  apply dispatch_sorts hW (by omega) hG
  intro group
  exact stablePasses_of_one_wave hW hcount (hskip group)

/-! ## Cell 0 of a single wave -/

section OneWave

variable (L : Launch) (hW : 32 ≤ L.waveSize.lanes)
  (hcount : L.count ≤ L.waveSize.lanes)

include hW hcount

/-- In a single wave no key is aimed at cell 0, nor out of `KeysB`. -/
theorem target_one_wave (f : Thread → Fin 16) {previousWave : Thread → UInt32}
    (hprevious : ∀ t, previousWave t = 0) {tid : Thread}
    (htid : L.active tid) :
    0 < target L previousWave f tid ∧ target L previousWave f tid < 256 := by
  have hlanes := L.waveSize.le_lanes
  have hwave : waveIndex L.waveSize tid = 0 :=
    Nat.div_eq_of_lt (lt_of_lt_of_le htid hcount)
  have hpast := bucketStart_lt_target L f hprevious hwave htid
  have hplace := target_skipped_lt L f skipsWaves_eight (by omega) hW htid
  have hwaveCount : waveCount L f 0 (f tid) ≤ #(activeSet L) :=
    card_le_card (filter_subset _ _)
  rw [card_activeSet (by omega)] at hwaveCount
  rw [target_skipped L f skipsWaves_eight] at hplace
  rw [target_of_wave_zero L f hprevious hwave] at hpast ⊢
  omega

/-- Cell 0 of `KeysB` keeps its first content through the whole run, and
thread 0 ends with it. -/
theorem main_keysA_zero (hpos : 0 < L.count) (r : GroupRun L.waveSize)
    (hprevious : ∀ i t, (r.passes i).previousWave t = 0) :
    (main L r).keysA 0 = r.initial.keysB 0 := by
  have hactive : L.active 0 := hpos
  have hrun : ∀ n ≤ 8, (beforePass L r n).keysB 0 = r.initial.keysB 0 ∧
      (n ≠ 0 → (beforePass L r n).keysA 0 = r.initial.keysB 0) := by
    apply beforePass_induction fun n g => g.keysB 0 = r.initial.keysB 0 ∧
      (n ≠ 0 → g.keysA 0 = r.initial.keysB 0)
    · exact ⟨congrFun (loadPhase_keysB L r) 0, fun hne => absurd rfl hne⟩
    · intro i hinv
      have htarget : ∀ tid, L.active tid →
          0 < target L (r.passes i).previousWave
              (digits (4 * i) (beforePass L r i).keysA) tid ∧
            target L (r.passes i).previousWave
              (digits (4 * i) (beforePass L r i).keysA) tid < 256 :=
        fun tid htid => target_one_wave L hW hcount _ (hprevious i) htid
      have hinside := Or.inr (a := L.oob = id)
        fun tid htid => (htarget tid htid).2
      have hkept : (pass L (4 * i) (r.passes i) (beforePass L r i)).keysB 0 =
          r.initial.keysB 0 := by
        rcases pass_keysB_cases L hW _ _ _ hinside 0 with
          ⟨tid, htid, hzero, _⟩ | ⟨_, hkept⟩
        · exact absurd hzero (htarget tid htid).1.ne'
        · rw [hkept]
          exact hinv.1
      refine ⟨hkept, fun _ => ?_⟩
      rw [pass_keysA L hW _ _ _ hinside, if_pos hactive]
      exact hkept
  exact (hrun 8 le_rfl).2 (by decide)

/-- The first word of the output is then a word of the initial memory. -/
theorem dispatch_zero (hpos : 0 < L.count) {G : Nat} (hG : 0 < G)
    (D : DispatchRun L.waveSize G)
    (hprevious : ∀ group i t, ((D.group group).passes i).previousWave t = 0)
    {v : UInt32} (hinitial : ∀ group, (D.group group).initial.keysB 0 = v)
    (outputKeys : Nat → Int32) :
    dispatch L D outputKeys 0 = v.toInt32 := by
  have hactive : L.active 0 := hpos
  obtain ⟨group, hout⟩ := dispatch_cases L hG D outputKeys hactive
  rw [main_keysA_zero L hW hcount hpos (D.group group) (hprevious group),
    hinitial group] at hout
  exact hout

end OneWave

/-! ## A word that survives -/

/-- Some active thread holds the word `v` for its key. -/
def Holds (L : Launch) (v : UInt32) (g : Group) : Prop :=
  ∃ tid, L.active tid ∧ g.keysA tid = v

section Survival

variable {L : Launch} (hW : 32 ≤ L.waveSize.lanes) (hoob : L.oob = id)
  (hcount : L.count ≤ 256) (shift : Nat) {v : UInt32} {g : Group}

include hW hoob hcount

/-- A pass over a `KeysB` full of `v` can leave `v` in `KeysA`. -/
theorem exists_first_pass_holds (hpos : 0 < L.count)
    (hkeysB : ∀ j, g.keysB j = v) :
    ∃ r : PassRun L.waveSize, Holds L v (pass L shift r g) := by
  obtain ⟨first, j, hj, hmissed⟩ :=
    exists_cell_missed L (digits shift g.keysA) hpos hcount
  let r := PassRun.listed L.waveSize fun _ => first
  let tid : Thread := ⟨j, by omega⟩
  have hactive : L.active tid := hj
  refine ⟨r, tid, hactive, ?_⟩
  rw [pass_keysA L hW shift r g (Or.inl hoob), if_pos hactive]
  rcases pass_keysB_cases L hW shift r g (Or.inl hoob) tid with
    ⟨u, hu, htarget, _⟩ | ⟨_, hkept⟩
  · exact absurd htarget (hmissed u hu)
  · rw [hkept]
    exact hkeysB tid

/-- A pass can keep `v` in `KeysA`. -/
theorem exists_pass_holds (hholds : Holds L v g) :
    ∃ r : PassRun L.waveSize, Holds L v (pass L shift r g) := by
  obtain ⟨tid, hactive, hkey⟩ := hholds
  let r : PassRun L.waveSize :=
    { PassRun.listed L.waveSize fun _ => 8 with
      scatter := Schedule.last _ tid (List.mem_finRange tid) }
  have hlt := target_skipped_lt L (digits shift g.keysA)
    skipsWaves_eight hcount hW hactive
  let j : Thread := ⟨target L (fun _ => 8) (digits shift g.keysA) tid, by omega⟩
  have hj : L.active j := hlt
  refine ⟨r, j, hj, ?_⟩
  rw [pass_keysA L hW shift r g (Or.inl hoob), if_pos hj,
    pass_keysB_last L hW shift r g (Or.inl hoob) rfl hactive rfl, hkey]

/-- A whole run can bring a word of the initial memory to `KeysA`. -/
theorem exists_main_holds (hpos : 0 < L.count) (v : UInt32) :
    ∃ r : GroupRun L.waveSize, Holds L v (main L r) := by
  let start : GroupRun L.waveSize :=
    ⟨Shared.fill v, ThreadOrder.listed, fun _ => PassRun.listed _ fun _ => 0⟩
  have : Nonempty (PassRun L.waveSize) := ⟨PassRun.listed _ fun _ => 0⟩
  obtain ⟨choice, hchoice⟩ := exists_runSteps
    (fun (r : PassRun L.waveSize) (i : Fin 8) => pass L (4 * i.val) r)
    (List.finRange 8) (List.nodup_finRange 8)
    (fun pre g => (pre = [] → ∀ j, g.keysB j = v) ∧
      (pre ≠ [] → Holds L v g))
    (loadPhase L start)
    ⟨fun _ j => congrFun (loadPhase_keysB L start) j,
      fun hne => absurd rfl hne⟩
    (fun pre i _ _ g hinv => by
      have hnext : ∃ r, Holds L v (pass L (4 * i.val) r g) := by
        by_cases hpre : pre = []
        · exact exists_first_pass_holds hW hoob hcount _ hpos (hinv.1 hpre)
        · exact exists_pass_holds hW hoob hcount _ (hinv.2 hpre)
      obtain ⟨r, hr⟩ := hnext
      exact ⟨r, fun hnil => absurd hnil (by simp), fun _ => hr⟩)
  exact ⟨⟨Shared.fill v, ThreadOrder.listed, choice⟩,
    hchoice.2 (by decide)⟩

end Survival

/-! ## No input is sorted -/

/-- At most 256 words do not exhaust the 32-bit words. -/
theorem exists_word_not_key (key : Thread → UInt32) :
    ∃ v, ∀ tid, key tid ≠ v := by
  have hinj : Set.InjOn UInt32.ofNat (range 257 : Finset Nat) := by
    intro m hm n hn h
    have hm' := mem_range.mp hm
    have hn' := mem_range.mp hn
    have h' := congrArg UInt32.toNat h
    rw [toNat_ofNat_of_le (by omega), toNat_ofNat_of_le (by omega)] at h'
    exact h'
  have hcard : #(univ.image key) < #((range 257).image UInt32.ofNat) := by
    rw [card_image_of_injOn hinj, card_range]
    have hle : #(univ.image key) ≤ #(univ : Finset Thread) := card_image_le
    rw [card_univ, Fintype.card_fin] at hle
    omega
  obtain ⟨v, _, hv⟩ := exists_mem_notMem_of_card_lt_card hcard
  exact ⟨v, fun tid h => hv (mem_image.mpr ⟨tid, mem_univ tid, h⟩)⟩

/-- One group sorts no input: some initial memory, uninitialised
`previousWave` and order of the threads break it, even when the stores
outside the groupshared arrays are dropped. -/
theorem never_sorts_input (W : WaveSize) (hW : 32 ≤ W.lanes) (count : Nat)
    (hpos : 1 ≤ count) (hcount : count ≤ 256) (inputKeys : Nat → Int32)
    (outputKeys : Nat → Int32) :
    ¬∀ D : DispatchRun W 1,
      SortsInput ⟨W, count, inputKeys, id⟩
        (dispatch ⟨W, count, inputKeys, id⟩ D outputKeys) := by
  intro hsorts
  let L : Launch := ⟨W, count, inputKeys, id⟩
  obtain ⟨v, hv⟩ := exists_word_not_key fun tid =>
    (inputKeys tid).toUInt32
  obtain ⟨r, tid, hactive, hkey⟩ :=
    exists_main_holds (L := L) hW rfl hcount hpos v
  let D : DispatchRun W 1 := ⟨fun _ => r, Schedule.listed _⟩
  obtain ⟨group, hout⟩ := dispatch_cases L (by decide) D outputKeys hactive
  have hsorted : SortsInput L (dispatch L D outputKeys) := hsorts D
  obtain ⟨j, hj, hinput⟩ := hsorted.exists_key hactive
  have hword : (inputKeys j).toUInt32 = v := by
    have hj' : inputKeys j = dispatch L D outputKeys tid := hinput
    rw [hj', hout]
    show ((main L r).keysA tid).toInt32.toUInt32 = v
    rw [hkey]
    rfl
  exact hv ⟨j, lt_of_lt_of_le hj hcount⟩ hword

/-- Forty keys in descending order are not sorted. -/
theorem never_sorts_forty_keys :
    ¬∀ D : DispatchRun ⟨32, by decide⟩ 1,
      SortsInput ⟨⟨32, by decide⟩, 40, fun i => 40 - Int32.ofNat i, id⟩
        (dispatch ⟨⟨32, by decide⟩, 40, fun i => 40 - Int32.ofNat i, id⟩ D
          fun _ => 0) :=
  never_sorts_input ⟨32, by decide⟩ (by decide) 40 (by decide) (by decide) _ _

/-- A single key 5 is lost: with zeroed groupshared memory and
`previousWave` starting at 0 the output is 0. -/
theorem dispatch_single_key :
    let L : Launch := ⟨⟨32, by decide⟩, 1, fun _ => 5, id⟩
    let D := DispatchRun.listed L.waveSize 1 (Shared.fill 0)
    dispatch L D (fun _ => 0) 0 = 0 ∧
      ¬SortsInput L (dispatch L D fun _ => 0) := by
  intro L D
  have hout : dispatch L D (fun _ => 0) 0 = 0 :=
    dispatch_zero L (by decide) (by decide) Nat.one_pos Nat.one_pos D
      (fun _ _ _ => rfl) (v := 0) (fun _ => rfl) _
  refine ⟨hout, fun hsorted => ?_⟩
  obtain ⟨j, _, hkey⟩ := hsorted.exists_key (i := 0) Nat.one_pos
  have hfive : (5 : Int32) = 0 := hkey.trans hout
  exact absurd hfive (by decide)

end VulkanCompute.Shader
