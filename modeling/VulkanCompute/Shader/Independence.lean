import VulkanCompute.Shader.Sort

/-!
# Independence of the schedule

When do two runs of the kernel agree, that differ in the order of the threads
and in what the memory holds at the start?  `previousWave` starts at 0
throughout.

A pass hands on what depends on neither as long as its scatter is `Settled`:
it stays inside `KeysB`, threads that aim at one cell below `Count` hold one
key, and the first pass reaches every cell below `Count`.  `pass_scattered`
and `pass_keys` are the step, `main_agree` is the run of a group and
`dispatch_independent` the run of all groups.

With a single active wave the scatter of the first pass never reaches cell 0,
and there the runs agree only when `Count` is 0 (`independent_iff_of_one_wave`).
-/

namespace VulkanCompute.Shader

open Lib Finset

/-! ## Targets depend on the active threads alone -/

section Congr

variable {L : Launch} {f f' : Thread → Fin 16}
  (hf : ∀ u, L.active u → f u = f' u)

include hf

/-- A count over the active threads does not see the digits of the others. -/
theorem card_active_congr (p : Thread → Fin 16 → Prop)
    [∀ u b, Decidable (p u b)] :
    #{u ∈ activeSet L | p u (f u)} = #{u ∈ activeSet L | p u (f' u)} := by
  apply congrArg
  apply filter_congr
  intro u hu
  rw [hf u (mem_activeSet.mp hu)]

theorem waveCount_congr (v : Nat) (b : Fin 16) :
    waveCount L f v b = waveCount L f' v b :=
  card_active_congr hf fun u d => waveIndex L.waveSize u = v ∧ d = b

theorem target_congr (previousWave : Thread → UInt32) {tid : Thread}
    (htid : L.active tid) :
    target L previousWave f tid = target L previousWave f' tid := by
  have hstart : ∀ b, bucketStart L f b = bucketStart L f' b :=
    fun b => card_active_congr hf fun _ d => d < b
  have hoffset : ∀ first w b,
      waveOffset L f first w b = waveOffset L f' first w b := by
    intro first w b
    unfold waveOffset
    simp only [waveCount_congr hf]
  have hrank : waveRank L f tid = waveRank L f' tid := by
    unfold waveRank
    rw [hf tid htid]
    exact card_active_congr hf fun u d =>
      waveIndex L.waveSize u = waveIndex L.waveSize tid ∧ d = f' tid ∧ u < tid
  unfold target
  simp only [hstart, hoffset, hrank, hf tid htid]

end Congr

/-! ## Settled passes -/

/-- The cell that a thread aims at in the pass `i`, from the keys `a`, when
`previousWave` starts at 0. -/
def aim (L : Launch) (i : Fin 8) (a : Thread → UInt32) (tid : Thread) : Nat :=
  target L (fun _ => 0) (digits (4 * i) a) tid

/-- The scatter of the pass `i` on the keys `a` stays inside `KeysB`, threads
that aim at one cell below `Count` hold one key, and in the first pass every
cell below `Count` is some thread's. -/
structure Settled (L : Launch) (i : Fin 8) (a : Thread → UInt32) : Prop where
  inside : ∀ tid, L.active tid → aim L i a tid < 256
  agree : ∀ t u, L.active t → L.active u → aim L i a t = aim L i a u →
    aim L i a t < L.count → a t = a u
  covers : i = 0 → ∀ j < L.count, ∃ tid, L.active tid ∧ aim L i a tid = j

/-- The active threads of two groups hold the same keys. -/
def SameKeys (L : Launch) (g g' : Group) : Prop :=
  ∀ tid, L.active tid → g.keysA tid = g'.keysA tid

/-- Two groups hold the same words in `KeysB` below `Count`. -/
def SameScattered (L : Launch) (g g' : Group) : Prop :=
  ∀ tid, L.active tid → g.keysB tid = g'.keysB tid

theorem aim_congr {L : Launch} {a a' : Thread → UInt32}
    (hkeys : ∀ tid, L.active tid → a tid = a' tid) (i : Fin 8) {tid : Thread}
    (htid : L.active tid) : aim L i a tid = aim L i a' tid := by
  apply target_congr
  · intro u hu
    unfold digits
    rw [hkeys u hu]
  · exact htid

theorem target_eq_aim {L : Launch} {i : Fin 8} {r : PassRun L.waveSize}
    (hr : ∀ t, r.previousWave t = 0) (a : Thread → UInt32) (tid : Thread) :
    target L r.previousWave (digits (4 * i) a) tid = aim L i a tid := by
  have hprevious : r.previousWave = fun _ => 0 := funext hr
  rw [hprevious]
  rfl

/-- The words that the other threads hold do not matter. -/
theorem Settled.congr {L : Launch} {i : Fin 8} {a a' : Thread → UInt32}
    (h : Settled L i a) (hkeys : ∀ tid, L.active tid → a' tid = a tid) :
    Settled L i a' where
  inside := fun tid htid => aim_congr hkeys i htid ▸ h.inside tid htid
  agree := by
    intro t u ht hu hsame hlt
    rw [aim_congr hkeys i ht] at hsame hlt
    rw [aim_congr hkeys i hu] at hsame
    rw [hkeys t ht, hkeys u hu]
    exact h.agree t u ht hu hsame hlt
  covers := by
    intro hi j hj
    obtain ⟨tid, htid, haim⟩ := h.covers hi j hj
    exact ⟨tid, htid, (aim_congr hkeys i htid).trans haim⟩

/-- Whoever holds the keys of a settled pass stays inside `KeysB`. -/
theorem Settled.inside_of_sameKeys {L : Launch} {i : Fin 8} {g g' : Group}
    (h : Settled L i g.keysA) (hkeys : SameKeys L g g')
    {r : PassRun L.waveSize} (hr : ∀ t, r.previousWave t = 0) :
    L.oob = id ∨ ∀ tid, L.active tid →
      target L r.previousWave (digits (4 * i) g'.keysA) tid < 256 := by
  refine Or.inr fun tid htid => ?_
  rw [target_eq_aim hr, ← aim_congr hkeys i htid]
  exact h.inside tid htid

section Agreement

variable {L : Launch} (hW : 32 ≤ L.waveSize.lanes)

include hW

/-- A settled pass hands on the same words, whatever the order of its threads
and the words elsewhere. -/
theorem pass_scattered {i : Fin 8} {r r' : PassRun L.waveSize}
    (hr : ∀ t, r.previousWave t = 0) (hr' : ∀ t, r'.previousWave t = 0)
    {g g' : Group} (hkeys : SameKeys L g g')
    (hscattered : i ≠ 0 → SameScattered L g g')
    (hsettled : Settled L i g.keysA) :
    SameScattered L (pass L (4 * i) r g) (pass L (4 * i) r' g') := by
  intro j hj
  have hinside := hsettled.inside_of_sameKeys (fun _ _ => rfl) hr
  have hinside' := hsettled.inside_of_sameKeys hkeys hr'
  have haim : ∀ tid, L.active tid →
      target L r'.previousWave (digits (4 * i) g'.keysA) tid =
        target L r.previousWave (digits (4 * i) g.keysA) tid := by
    intro tid htid
    rw [target_eq_aim hr', target_eq_aim hr, aim_congr hkeys i htid]
  rcases pass_keysB_cases L hW (4 * i) r g hinside j with
    ⟨t, ht, hcell, hkey⟩ | ⟨hnone, hkept⟩
  · rcases pass_keysB_cases L hW (4 * i) r' g' hinside' j with
      ⟨u, hu, hcell', hkey'⟩ | ⟨hnone', _⟩
    · rw [haim u hu, target_eq_aim hr] at hcell'
      rw [target_eq_aim hr] at hcell
      rw [hkey, hkey', ← hkeys u hu]
      apply hsettled.agree t u ht hu
      · rw [hcell, hcell']
      · rw [hcell]
        exact hj
    · exact absurd ((haim t ht).trans hcell) (hnone' t ht)
  · rcases pass_keysB_cases L hW (4 * i) r' g' hinside' j with
      ⟨u, hu, hcell', _⟩ | ⟨_, hkept'⟩
    · exact absurd ((haim u hu).symm.trans hcell') (hnone u hu)
    · by_cases hi : i = 0
      · obtain ⟨t, ht, hcell⟩ := hsettled.covers hi j hj
        exact absurd ((target_eq_aim hr _ t).trans hcell) (hnone t ht)
      · rw [hkept, hkept']
        exact hscattered hi j hj

/-- The active threads then copy the same words back. -/
theorem pass_keys {i : Fin 8} {r r' : PassRun L.waveSize}
    (hr : ∀ t, r.previousWave t = 0) (hr' : ∀ t, r'.previousWave t = 0)
    {g g' : Group} (hkeys : SameKeys L g g')
    (hscattered : i ≠ 0 → SameScattered L g g')
    (hsettled : Settled L i g.keysA) :
    SameKeys L (pass L (4 * i) r g) (pass L (4 * i) r' g') := by
  intro tid htid
  have hsame := pass_scattered hW hr hr' hkeys hscattered hsettled tid htid
  rw [pass_keysA L hW (4 * i) r g, pass_keysA L hW (4 * i) r' g',
    if_pos htid, if_pos htid, hsame]
  · exact hsettled.inside_of_sameKeys hkeys hr'
  · exact hsettled.inside_of_sameKeys (fun _ _ => rfl) hr

/-- A group whose passes are all settled ends with the same keys as any other
group on the same input. -/
theorem main_agree {r r' : GroupRun L.waveSize}
    (hr : ∀ i t, (r.passes i).previousWave t = 0)
    (hr' : ∀ i t, (r'.passes i).previousWave t = 0)
    (hsettled : ∀ i, Settled L i (beforePass L r i).keysA) :
    SameKeys L (main L r) (main L r') := by
  have hrun : ∀ n ≤ 8,
      SameKeys L (beforePass L r n) (beforePass L r' n) ∧
        (n ≠ 0 → SameScattered L (beforePass L r n) (beforePass L r' n)) := by
    apply beforePass_induction fun n g =>
      SameKeys L g (beforePass L r' n) ∧
        (n ≠ 0 → SameScattered L g (beforePass L r' n))
    · refine ⟨fun tid htid => ?_, fun hne => absurd rfl hne⟩
      show (loadPhase L r).keysA tid = (loadPhase L r').keysA tid
      rw [loadPhase_keysA, loadPhase_keysA, if_pos htid, if_pos htid]
    · intro i hinv
      obtain ⟨hkeys, hscattered⟩ := hinv
      have hfirst : i ≠ 0 →
          SameScattered L (beforePass L r i) (beforePass L r' i) :=
        fun hi => hscattered fun hzero => hi (Fin.ext hzero)
      rw [beforePass_succ]
      constructor
      · exact pass_keys hW (hr i) (hr' i) hkeys hfirst (hsettled i)
      · exact fun _ =>
          pass_scattered hW (hr i) (hr' i) hkeys hfirst (hsettled i)
  exact (hrun 8 le_rfl).1

/-- Two dispatches agree on `OutputKeys` below `Count` when the passes of one
of them are all settled. -/
theorem dispatch_independent {G : Nat} (hG : 1 ≤ G) (hcount : L.count ≤ 256)
    (D D' : DispatchRun L.waveSize G)
    (hD : ∀ k i t, ((D.group k).passes i).previousWave t = 0)
    (hD' : ∀ k i t, ((D'.group k).passes i).previousWave t = 0)
    (hsettled : ∀ k i, Settled L i (beforePass L (D.group k) i).keysA)
    (outputKeys outputKeys' : Nat → Int32) :
    ∀ j < L.count, dispatch L D outputKeys j = dispatch L D' outputKeys' j := by
  intro j hj
  let tid : Thread := ⟨j, lt_of_lt_of_le hj hcount⟩
  have hactive : L.active tid := hj
  obtain ⟨k, hout⟩ := dispatch_cases L hG D outputKeys hactive
  obtain ⟨k', hout'⟩ := dispatch_cases L hG D' outputKeys' hactive
  have hkeys := main_agree hW (hD k) (hD' k') (hsettled k) tid hactive
  show dispatch L D outputKeys tid = dispatch L D' outputKeys' tid
  rw [hout, hout', hkeys]

/-- With a single active wave, all runs agree only when there is nothing to
sort. -/
theorem independent_iff_of_one_wave {G : Nat} (hG : 1 ≤ G)
    (hcount : L.count ≤ L.waveSize.lanes) (outputKeys : Nat → Int32) :
    (∀ D D' : DispatchRun L.waveSize G,
      (∀ k i t, ((D.group k).passes i).previousWave t = 0) →
      (∀ k i t, ((D'.group k).passes i).previousWave t = 0) →
      ∀ j < L.count, dispatch L D outputKeys j = dispatch L D' outputKeys j) ↔
      L.count = 0 := by
  constructor
  · intro hagree
    by_contra hne
    have hpos := Nat.pos_of_ne_zero hne
    have hfill : ∀ v : UInt32, dispatch L
        (DispatchRun.listed L.waveSize G (Shared.fill v)) outputKeys 0 =
          v.toInt32 := by
      intro v
      apply dispatch_zero L hW hcount hpos hG
      · exact fun _ _ _ => rfl
      · exact fun _ => rfl
    have hsame := hagree (DispatchRun.listed L.waveSize G (Shared.fill 0))
      (DispatchRun.listed L.waveSize G (Shared.fill 1)) (fun _ _ _ => rfl)
      (fun _ _ _ => rfl) 0 hpos
    rw [hfill, hfill] at hsame
    exact absurd hsame (by decide)
  · intro hzero D D' _ _ j hj
    omega

end Agreement

/-! ## Two keys in turns

Two waves that hold 5 and 7 in turns.  The first pass sorts them.  Every later
pass finds the digit 0 everywhere and swaps the two waves. -/

/-- In a settled pass a thread hands its key on to the cell that it aims at. -/
theorem pass_keysA_of_settled {L : Launch} (hW : 32 ≤ L.waveSize.lanes)
    {i : Fin 8} {r : PassRun L.waveSize} (hr : ∀ t, r.previousWave t = 0)
    {g : Group} (hsettled : Settled L i g.keysA) {tid j : Thread}
    (htid : L.active tid) (hj : L.active j)
    (haim : aim L i g.keysA tid = j) :
    (pass L (4 * i) r g).keysA j = g.keysA tid := by
  have hinside := hsettled.inside_of_sameKeys (fun _ _ => rfl) hr
  rw [pass_keysA L hW (4 * i) r g hinside, if_pos hj]
  rcases pass_keysB_cases L hW (4 * i) r g hinside j with
    ⟨t, ht, hcell, hkey⟩ | ⟨hnone, _⟩
  · rw [target_eq_aim hr] at hcell
    rw [hkey]
    exact hsettled.agree t tid ht htid (hcell.trans haim.symm) (hcell ▸ hj)
  · exact absurd ((target_eq_aim hr _ tid).trans haim) (hnone tid htid)

def inTurns : Launch :=
  ⟨.thirtyTwo, 64, fun j => if j % 2 = 0 then 5 else 7, id⟩

/-- What the active threads hold before the pass `n`. -/
def keysInTurns (n : Nat) (tid : Nat) : UInt32 :=
  if n = 0 then if tid % 2 = 0 then 5 else 7
  else if (tid / 32 + n) % 2 = 1 then 5 else 7

/-- Where the pass `n` moves the key of a thread. -/
def moveInTurns (n : Nat) (tid : Nat) : Nat :=
  if n = 0 then 32 * (tid % 2) + 16 * (1 - tid / 32) + tid % 32 / 2
  else (tid + 32) % 64

theorem digits_keysInTurns_zero :
    digits 0 (fun tid => keysInTurns 0 tid) =
      fun tid : Thread => if tid.val % 2 = 0 then 5 else 7 := by
  funext tid
  show digit (keysInTurns 0 tid) 0 = _
  unfold keysInTurns
  rw [if_pos rfl]
  split
  · decide
  · decide

theorem digits_keysInTurns {i : Fin 8} (hi : i ≠ 0) :
    digits (4 * i) (fun tid => keysInTurns i tid) = fun _ : Thread => 0 := by
  have hkeys : ∀ i : Fin 8, i ≠ 0 → digit 5 (4 * i) = 0 ∧ digit 7 (4 * i) = 0 := by
    decide
  have hne : i.val ≠ 0 := fun h => hi (Fin.ext h)
  funext tid
  show digit (keysInTurns i tid) (4 * i) = 0
  unfold keysInTurns
  rw [if_neg hne]
  split
  · exact (hkeys i hi).1
  · exact (hkeys i hi).2

theorem aim_keysInTurns (i : Fin 8) :
    ∀ tid, inTurns.active tid →
      aim inTurns i (fun tid => keysInTurns i tid) tid = moveInTurns i tid := by
  unfold aim
  by_cases hi : i = 0
  · subst hi
    show ∀ tid, _ → target _ _ (digits 0 fun tid => keysInTurns 0 tid) tid = _
    rw [digits_keysInTurns_zero]
    decide +kernel
  · rw [digits_keysInTurns hi]
    unfold moveInTurns
    simp only [if_neg fun h : i.val = 0 => hi (Fin.ext h)]
    decide +kernel

theorem moveInTurns_lt (n : Nat) {tid : Nat} (htid : tid < 64) :
    moveInTurns n tid < 64 := by
  unfold moveInTurns
  split
  · omega
  · omega

theorem moveInTurns_inj (n : Nat) {t u : Nat} (ht : t < 64) (hu : u < 64)
    (h : moveInTurns n t = moveInTurns n u) : t = u := by
  unfold moveInTurns at h
  split at h
  · have hhalf : t % 32 / 2 < 16 ∧ u % 32 / 2 < 16 := by omega
    have hparity : t % 2 = u % 2 := by omega
    have hwave : t / 32 = u / 32 := by omega
    omega
  · omega

theorem exists_moveInTurns (n : Nat) {j : Nat} (hj : j < 64) :
    ∃ tid < 64, moveInTurns n tid = j := by
  unfold moveInTurns
  split
  · have hall : ∀ j : Fin 64, ∃ tid : Fin 64,
        32 * (tid.val % 2) + 16 * (1 - tid.val / 32) + tid.val % 32 / 2 =
          j.val := by decide +kernel
    obtain ⟨tid, hmove⟩ := hall ⟨j, hj⟩
    exact ⟨tid, tid.isLt, hmove⟩
  · exact ⟨(j + 32) % 64, by omega, by omega⟩

/-- The keys go with the moves. -/
theorem keysInTurns_succ (n : Nat) {tid : Nat} (htid : tid < 64) :
    keysInTurns (n + 1) (moveInTurns n tid) = keysInTurns n tid := by
  unfold keysInTurns moveInTurns
  rw [if_neg (Nat.succ_ne_zero n)]
  by_cases hn : n = 0
  · subst hn
    rw [if_pos rfl, if_pos rfl]
    exact if_congr (by omega) rfl rfl
  · rw [if_neg hn, if_neg hn]
    exact if_congr (by omega) rfl rfl

theorem settled_inTurns (i : Fin 8) :
    Settled inTurns i fun tid => keysInTurns i tid where
  inside := by
    intro tid htid
    rw [aim_keysInTurns i tid htid]
    exact (moveInTurns_lt i htid).trans (by decide)
  agree := by
    intro t u ht hu hsame _
    rw [aim_keysInTurns i t ht, aim_keysInTurns i u hu] at hsame
    rw [moveInTurns_inj i ht hu hsame]
  covers := by
    intro _ j hj
    obtain ⟨tid, htid, hmove⟩ := exists_moveInTurns i hj
    exact ⟨⟨tid, htid.trans (by decide)⟩, htid,
      (aim_keysInTurns i _ htid).trans hmove⟩

theorem beforePass_inTurns (r : GroupRun inTurns.waveSize)
    (hr : ∀ i t, (r.passes i).previousWave t = 0) :
    ∀ n ≤ 8, ∀ tid, inTurns.active tid →
      (beforePass inTurns r n).keysA tid = keysInTurns n tid := by
  apply beforePass_induction fun n g =>
    ∀ tid, inTurns.active tid → g.keysA tid = keysInTurns n tid
  · intro tid htid
    rw [loadPhase_keysA, if_pos htid]
    exact apply_ite Int32.toUInt32 _ _ _
  · intro i hkeys j hj
    have hsettled := (settled_inTurns i).congr hkeys
    obtain ⟨tid, htid, hmove⟩ := exists_moveInTurns i hj
    let source : Thread := ⟨tid, htid.trans (by decide)⟩
    have haim : aim inTurns i (beforePass inTurns r i).keysA source = j :=
      ((aim_congr hkeys i htid).trans (aim_keysInTurns i source htid)).trans
        hmove
    rw [pass_keysA_of_settled (by decide) (hr i) hsettled htid hj haim,
      hkeys source htid, ← hmove, keysInTurns_succ i htid]

/-- Two dispatches of two groups agree on these keys: one on zeroed memory
with the threads and the stores in ascending order, one on memory full of ones
in descending order. -/
theorem dispatch_independent_in_turns :
    let D := DispatchRun.listed inTurns.waveSize 2 (Shared.fill 0)
    let D' := DispatchRun.reversed inTurns.waveSize 2 (Shared.fill 1)
    ∀ j < 64, dispatch inTurns D (fun _ => 0) j =
      dispatch inTurns D' (fun _ => 0) j := by
  intro D D'
  have hsettled : ∀ k i,
      Settled inTurns i (beforePass inTurns (D.group k) i).keysA := by
    intro k i
    have hkeys := beforePass_inTurns (D.group k) (fun _ _ => rfl) i i.isLt.le
    exact (settled_inTurns i).congr hkeys
  exact dispatch_independent (by decide) (by decide) (by decide) D D'
    (fun _ _ _ => rfl) (fun _ _ _ => rfl) hsettled _ _

/-- One element is not enough: the output is the word that cell 0 of `KeysB`
held at the start. -/
theorem dispatch_depends_on_memory :
    let L : Launch := ⟨⟨32, by decide⟩, 1, fun _ => 5, id⟩
    let D := DispatchRun.listed L.waveSize 1 (Shared.fill 0)
    let D' := DispatchRun.listed L.waveSize 1 (Shared.fill 1)
    dispatch L D (fun _ => 0) 0 = 0 ∧ dispatch L D' (fun _ => 0) 0 = 1 := by
  intro L D D'
  apply And.intro
  · exact dispatch_zero L (by decide) (by decide) Nat.one_pos Nat.one_pos D
      (fun _ _ _ => rfl) (v := 0) (fun _ => rfl) _
  · exact dispatch_zero L (by decide) (by decide) Nat.one_pos Nat.one_pos D'
      (fun _ _ _ => rfl) (v := 1) (fun _ => rfl) _

end VulkanCompute.Shader
