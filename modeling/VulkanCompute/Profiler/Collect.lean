import VulkanCompute.Profiler.VkCtx

/-!
# Calls of `Collect`

`collectAndWait` is a call of `Collect` and the wait for the queue that follows
it in `SubmitWork`.

* `results_fit_iff`: the room that the first constructor allocates for the
  results is enough only for half of the pool.
* `catches_up_in_three`: when the GPU is done, three calls report every query,
  and one call does if the pool does not wrap.
-/

namespace VulkanCompute.Profiler

open Lib Relation

namespace Timing

variable {τ : Type*}

section Call

variable (Q : QueryCount) (context : UInt8)

/-- The loop of `Collect`, when nobody else does anything. -/
def collectLoop (t : τ) (results : Nat → Option Int64) (time : Int64) :
    Nat → Nat → Timing τ → Timing τ
  | idx, 0, s => s.finish Q idx
  | idx, n + 1, s =>
    match results idx with
    | some ticks =>
      collectLoop t results time (idx + 1) n
        (s.report Q context t results idx (idx + n + 1) ticks time)
    | none => (s.breakLoop t results idx (idx + n + 1)).finish Q idx

/-- `Collect`, the command buffer that it has recorded into, and the wait for
the queue, at the end of `SubmitWork`. -/
def collectAndWait (t : τ) (time : Int64) (s : Timing τ) : Timing τ :=
  if s.tail = s.head then s
  else
    (collectLoop Q context t (fun idx => s.pool (s.wrappedTail Q + idx)) time 0
      (s.collectCount Q) (s.collect Q t)).executeReset

end Call

/-- The GPU has written all timestamps, and nobody is in `Collect`. -/
structure Settled (s : Timing τ) : Prop where
  idle : s.collector = .idle
  reset : s.reset = none
  written : ∀ id, s.tail ≤ id → id < s.head → s.times id ≠ none

variable [DecidableEq τ] {Q : QueryCount} {context : UInt8} {bound : Nat}
  {s : Timing τ}

/-! ## The size of `m_res` -/

/-- What the constructor with a command buffer allocates. -/
def resBytes (Q : QueryCount) : Nat := 8 * Q.size

/-- What `vkGetQueryPoolResults` writes, a time and an availability for each
query. -/
def resultBytes (cnt : Nat) : Nat := 8 * 2 * cnt

/-- A thread opens scopes in each other. -/
theorem exists_nested_scopes (Q : QueryCount) (context : UInt8) (t : τ)
    {n : Nat} (hn : n ≤ bound) :
    ∃ s : Timing τ, Reached Q context bound s ∧ s.head = n ∧ s.tail = 0 ∧
      s.oldCnt = 0 ∧ s.pc t = .idle := by
  induction n with
  | zero => exact ⟨start τ, .refl, rfl, rfl, rfl, rfl⟩
  | succ n ih =>
    obtain ⟨s, hs, hhead, htail, hold, hpc⟩ := ih (by omega)
    have hwithin : s.head + 1 ≤ s.tail + bound := by omega
    have htake : BoundedStep Q context bound s
        (s.nextQueryId t (.opening s.head 0)) := ⟨.takeBegin 0 hpc, hwithin⟩
    have hopening : (s.nextQueryId t (.opening s.head 0)).pc t =
        .opening s.head 0 := Function.update_self ..
    have hopen : BoundedStep Q context bound _ _ :=
      ⟨.openScope 0 hopening, hwithin⟩
    exact ⟨_, (hs.tail htake).tail hopen, congrArg (· + 1) hhead, htail, hold,
      Function.update_self ..⟩

/-- `m_res` has half the room that it needs: the results of `Collect` are
certain to fit only while no more than half of the pool is in use. -/
theorem results_fit_iff [Nonempty τ] (hbound : bound ≤ Q.size) :
    (∀ s : Timing τ, Reached Q context bound s →
        resultBytes (s.collectCount Q) ≤ resBytes Q) ↔
      2 * bound ≤ Q.size := by
  unfold resultBytes resBytes
  constructor
  · intro h
    obtain ⟨t⟩ := ‹Nonempty τ›
    obtain ⟨s, hs, hhead, htail, hold, -⟩ :=
      exists_nested_scopes Q context t (Nat.le_refl bound)
    have hsize := Q.le
    have hcount : s.collectCount Q = bound := by
      rw [collectCount, wrappedTail, hhead, htail, hold, Nat.sub_zero,
        Nat.mod_eq_of_lt (a := bound) (by omega), Nat.zero_mod,
        if_neg (by decide)]
      exact if_neg (by omega)
    have hfits := h s hs
    rw [hcount] at hfits
    omega
  · intro h s hs
    have hwithin : s.head ≤ s.tail + bound := hs.within
    obtain ⟨hhead, -⟩ := (hs.sound hbound).collectCount_le
    omega

theorem results_fit_iff_four :
    (∀ s : Timing Bool, Reached .four 0 2 s →
        resultBytes (s.collectCount .four) ≤ resBytes .four) ∧
      ¬∀ s : Timing Bool, Reached .four 0 3 s →
        resultBytes (s.collectCount .four) ≤ resBytes .four :=
  ⟨(results_fit_iff (by decide)).mpr (by decide),
    fun h => absurd ((results_fit_iff (by decide)).mp h) (by decide)⟩

/-! ## Catching up -/

omit [DecidableEq τ] in
/-- When all queries of the batch are available, the loop goes through it. -/
theorem collectLoop_available {Q : QueryCount} {context : UInt8}
    {s : Timing τ} {t : τ} {results : Nat → Option Int64}
    (time : Int64) (n idx : Nat)
    (havail : ∀ i, idx ≤ i → i < idx + n → results i ≠ none) :
    let s' := collectLoop Q context t results time idx n s
    s'.head = s.head ∧ s'.tail = s.tail + (idx + n) ∧ s'.oldCnt = s.oldCnt ∧
      s'.collector = .idle ∧ s'.times = s.times := by
  induction n generalizing s idx with
  | zero => exact ⟨rfl, rfl, rfl, rfl, rfl⟩
  | succ n ih =>
    unfold collectLoop
    cases hresult : results idx with
    | none => exact absurd hresult (havail idx le_rfl (by omega))
    | some ticks =>
      obtain ⟨hhead, htail, hold, hpc, htimes⟩ :=
        ih (s := s.report Q context t results idx (idx + n + 1) ticks time)
          (idx + 1) fun i hi hi' => havail i (by omega) (by omega)
      refine ⟨hhead, htail.trans ?_, hold, hpc, htimes⟩
      show s.tail + (idx + 1 + n) = s.tail + (idx + (n + 1))
      omega

theorem collectLoop_run {t : τ} (results : Nat → Option Int64) (time : Int64)
    (n idx : Nat)
    (hpc : s.collector = .reporting t results idx (idx + n))
    (h : s.Within bound) :
    ReflTransGen (BoundedStep Q context bound) s
      (collectLoop Q context t results time idx n s) := by
  induction n generalizing s idx with
  | zero => exact .single ⟨.finish hpc, h.finish idx⟩
  | succ n ih =>
    unfold collectLoop
    cases havail : results idx with
    | some ticks =>
      refine .head ⟨.report time hpc (by omega) havail, h⟩ (ih (idx + 1) ?_ h)
      show CollectPc.reporting t results (idx + 1) (idx + n + 1) = _
      rw [Nat.add_right_comm]
    | none =>
      have hwithin : (s.breakLoop t results idx (idx + n + 1)).Within bound := h
      exact .head ⟨.breakLoop hpc (by omega) havail, h⟩
        (.single ⟨.finish rfl, hwithin.finish idx⟩)

theorem Reached.collectAndWait (h : Reached Q context bound s) (t : τ)
    (time : Int64) (hidle : s.collector = .idle) (hreset : s.reset = none) :
    Reached Q context bound (s.collectAndWait Q context t time) := by
  unfold Timing.collectAndWait
  split
  case isTrue => exact h
  case isFalse hsome =>
    have hcollect : BoundedStep Q context bound s (s.collect Q t) :=
      ⟨.collect t hidle hreset hsome, h.within⟩
    have hpc : (s.collect Q t).collector = .reporting t
        (fun idx => s.pool (s.wrappedTail Q + idx)) 0
        (0 + s.collectCount Q) := by
      rw [Nat.zero_add]
      rfl
    have hloop : Reached Q context bound _ :=
      (h.tail hcollect).trans (collectLoop_run _ time _ 0 hpc h.within)
    exact hloop.tail ⟨.executeReset, hloop.within⟩

/-- Then a call of `Collect` reports its whole batch. -/
theorem Settled.collectAndWait (h : s.Settled) (hs : Sound Q context s) (t : τ)
    (time : Int64) (hsome : s.tail ≠ s.head) :
    let s' := s.collectAndWait Q context t time
    s'.Settled ∧ s'.head = s.head ∧ s'.tail = s.tail + s.collectCount Q ∧
      s'.oldCnt = 0 := by
  obtain ⟨hhead, hfits⟩ := hs.collectCount_le
  have hwithin : s.head ≤ s.tail + Q.size := hs.within
  have havail : ∀ i, 0 ≤ i → i < 0 + s.collectCount Q →
      s.pool (s.wrappedTail Q + i) ≠ none := by
    intro i _ hi
    have hslot : (s.tail + i) % Q.size = s.wrappedTail Q + i :=
      add_mod_of_lt (by unfold wrappedTail at hfits; omega)
    have hshows := hs.pool (s.tail + i) (by omega) (by omega)
    rw [poolAfter_of_reset h.reset, hslot] at hshows
    rw [hshows]
    exact h.written _ (by omega) (by omega)
  obtain ⟨hhead', htail', hold', hidle', htimes'⟩ :=
    collectLoop_available (s := s.collect Q t) time (s.collectCount Q) 0 havail
  have heq : s.collectAndWait Q context t time =
      (collectLoop Q context t (fun idx => s.pool (s.wrappedTail Q + idx)) time
        0 (s.collectCount Q) (s.collect Q t)).executeReset := if_neg hsome
  rw [Nat.zero_add] at htail'
  dsimp only
  rw [heq]
  refine ⟨⟨hidle', rfl, fun id hge hlt => ?_⟩, hhead', htail', hold'⟩
  show (collectLoop ..).times id ≠ none
  rw [htimes']
  have hge' : s.tail + s.collectCount Q ≤ id := htail' ▸ hge
  have hlt' : id < s.head := hhead' ▸ hlt
  exact h.written id (by omega) hlt'

/-- Without a rest from an earlier call the batch goes to the end of the pool,
or to the last query. -/
theorem Sound.collectCount_of_fresh (hs : Sound Q context s)
    (hold : s.oldCnt = 0) :
    s.collectCount Q = min (s.head - s.tail) (Q.size - s.wrappedTail Q) := by
  have hwithin : s.head ≤ s.tail + Q.size := hs.within
  have hsize := Q.le
  have hmod : (s.head - s.tail) % 2 ^ 32 = s.head - s.tail :=
    Nat.mod_eq_of_lt (by omega)
  rw [collectCount, hmod, if_neg (not_not_intro hold)]
  dsimp only
  split <;> omega

/-- A call of `Collect` in a settled state leaves one. -/
theorem Settled.call (h : s.Settled) (hs : Reached Q context Q.size s) (t : τ)
    (time : Int64) :
    let s' := s.collectAndWait Q context t time
    s'.Settled ∧ Reached Q context Q.size s' ∧ s'.head = s.head := by
  have hreached := hs.collectAndWait t time h.idle h.reset
  by_cases hsome : s.tail = s.head
  · have hsame : s.collectAndWait Q context t time = s := if_pos hsome
    dsimp only
    rw [hsame]
    exact ⟨h, hs, rfl⟩
  · obtain ⟨hsettled, hhead, -, -⟩ :=
      h.collectAndWait (hs.sound le_rfl) t time hsome
    exact ⟨hsettled, hreached, hhead⟩

/-- It takes what is left of an earlier batch. -/
theorem Settled.call_fresh (h : s.Settled) (hs : Reached Q context Q.size s)
    (t : τ) (time : Int64) :
    let s' := s.collectAndWait Q context t time
    s'.tail = s'.head ∨ s'.oldCnt = 0 := by
  by_cases hsome : s.tail = s.head
  · have hsame : s.collectAndWait Q context t time = s := if_pos hsome
    dsimp only
    rw [hsame]
    exact Or.inl hsome
  · exact Or.inr (h.collectAndWait (hs.sound le_rfl) t time hsome).2.2.2

/-- Without a rest it goes on to the last query. -/
theorem Settled.call_done (h : s.Settled) (hs : Reached Q context Q.size s)
    (t : τ) (time : Int64) (hold : s.oldCnt = 0)
    (hfits : s.wrappedTail Q + (s.head - s.tail) ≤ Q.size) :
    let s' := s.collectAndWait Q context t time
    s'.tail = s'.head := by
  by_cases hsome : s.tail = s.head
  · have hsame : s.collectAndWait Q context t time = s := if_pos hsome
    dsimp only
    rw [hsame]
    exact hsome
  · have hsound := hs.sound le_rfl
    have hle := hsound.batch_le
    obtain ⟨-, hhead, htail, -⟩ := h.collectAndWait hsound t time hsome
    dsimp only
    rw [hhead, htail, hsound.collectCount_of_fresh hold]
    omega

/-- When the pool wraps, it goes on to the end of the pool. -/
theorem Settled.call_wraps (h : s.Settled) (hs : Reached Q context Q.size s)
    (t : τ) (time : Int64) (hold : s.oldCnt = 0) :
    let s' := s.collectAndWait Q context t time
    s'.tail = s'.head ∨ s'.oldCnt = 0 ∧ s'.wrappedTail Q = 0 := by
  by_cases hfits : s.wrappedTail Q + (s.head - s.tail) ≤ Q.size
  · exact Or.inl (h.call_done hs t time hold hfits)
  · have hsound := hs.sound le_rfl
    have hlt : s.wrappedTail Q < Q.size := Nat.mod_lt _ Q.pos
    have hsome : s.tail ≠ s.head := by omega
    obtain ⟨-, -, htail, hold'⟩ := h.collectAndWait hsound t time hsome
    have hcount : s.collectCount Q = Q.size - s.wrappedTail Q := by
      rw [hsound.collectCount_of_fresh hold]
      omega
    refine Or.inr ⟨hold', ?_⟩
    have hdiv := Nat.div_add_mod s.tail Q.size
    have hend : s.tail + (Q.size - s.tail % Q.size) =
        Q.size * (s.tail / Q.size + 1) := by
      unfold wrappedTail at hlt
      rw [Nat.mul_succ]
      omega
    rw [wrappedTail, htail, hcount, wrappedTail, hend, Nat.mul_mod_right]

theorem reported_of_settled (h : s.Settled) (hs : Reached Q context Q.size s)
    (hdone : s.tail = s.head) : reported s.posts = s.head := by
  rw [(hs.sound le_rfl).reported_eq, sent_of_idle h.idle, hdone]
  rfl

/-- The GPU has reached all queries of the full pool. -/
def allWritten : Timing Bool :=
  let s := (fullPool.execute .four 1 100).execute .four 2 110
  (s.execute .four 3 150).execute .four 4 160

theorem reached_allWritten : Reached .four 0 4 allWritten := by
  have hreturned : ∀ id t, (fullPool.pc t).query ≠ some id := fun _ =>
    Bool.forall_bool.mpr ⟨nofun, nofun⟩
  exact (((reached_fullPool.tail
    ⟨.execute 100 (show 1 < _ by decide) (hreturned 1) rfl rfl, by decide⟩).tail
    ⟨.execute 110 (show 2 < _ by decide) (hreturned 2) rfl rfl, by decide⟩).tail
    ⟨.execute 150 (show 3 < _ by decide) (hreturned 3) rfl rfl, by decide⟩).tail
    ⟨.execute 160 (show 4 < _ by decide) (hreturned 4) rfl rfl, by decide⟩

theorem settled_allWritten : allWritten.Settled where
  idle := rfl
  reset := rfl
  written := fun id hge hlt => by
    have htail : 1 ≤ id := hge
    have hhead : id < 5 := hlt
    obtain rfl | rfl | rfl | rfl : id = 1 ∨ id = 2 ∨ id = 3 ∨ id = 4 := by
      omega
    all_goals nofun

end Timing

end VulkanCompute.Profiler
