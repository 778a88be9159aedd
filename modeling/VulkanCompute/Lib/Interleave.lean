import VulkanCompute.Lib.Schedule

/-!
# Interleaved loads and stores

A phase of a bulk-synchronous program at the grain of single accesses.  Every
thread runs a list of instructions, a `read` of the shared state into its
locals or a `write` of the shared state from its locals, and the hardware
interleaves the lists.

There are three groups.

* Orders of commuting steps.  `runSteps_eq_of_pairwise` says that two orders
  end in one state when they disagree on commuting steps alone.
* What an interleaving computes.  When no thread reads what another one
  writes in this phase (`ReadsStable`), every write stores what it would
  store if its thread ran alone from the start of the phase, so the shared
  state is the run of the writes (`interleaved_shared`).
* Atomicity.  When the writes of different threads commute, but for one
  pivot in each thread, the interleaving ends as if whole threads ran one
  after the other in the order of their pivots (`exists_thread_order`).
-/

namespace VulkanCompute.Lib

variable {ι σ ρ : Type*}

/-! ## Steps of steps -/

theorem runSteps_map {κ : Type*} (step : ι → σ → σ) (f : κ → ι)
    (order : List κ) (s : σ) :
    runSteps step (order.map f) s = runSteps (fun k => step (f k)) order s :=
  List.foldl_map

/-- A run in blocks is the run of its blocks. -/
theorem runSteps_flatMap {κ : Type*} (step : ι → σ → σ) (f : κ → List ι)
    (order : List κ) (s : σ) :
    runSteps step (order.flatMap f) s =
      runSteps (fun k => runSteps step (f k)) order s :=
  List.foldl_flatMap

/-! ## Orders of commuting steps -/

/-- A step moves to the front through steps that commute with it. -/
theorem runSteps_move_front (step : ι → σ → σ) {i : ι} {pre : List ι}
    (hcomm : ∀ j ∈ pre, ∀ s, step i (step j s) = step j (step i s))
    (post : List ι) (s : σ) :
    runSteps step (pre ++ i :: post) s =
      runSteps step (i :: (pre ++ post)) s := by
  induction pre generalizing s with
  | nil => rfl
  | cons j pre ih =>
    rw [List.cons_append, runSteps_cons,
      ih fun k hk => hcomm k (List.mem_cons_of_mem j hk)]
    rw [runSteps_cons, hcomm j List.mem_cons_self]
    rfl

/-- Two orders of the same steps agree when they disagree on commuting steps
alone: `R` holds along both of them, and steps that it holds for both ways
commute. -/
theorem runSteps_eq_of_pairwise (step : ι → σ → σ)
    {R : ι → ι → Prop}
    (hcomm : ∀ i j, i ≠ j → R i j → R j i →
      ∀ s, step i (step j s) = step j (step i s))
    {left right : List ι} (hperm : left.Perm right)
    (hleft : left.Pairwise R) (hright : right.Pairwise R) (s : σ) :
    runSteps step left s = runSteps step right s := by
  induction left generalizing right s with
  | nil =>
    rw [hperm.nil_eq]
  | cons i left ih =>
    -- the first step of `left` moves to the front of `right`
    obtain ⟨pre, post, rfl, hnotin⟩ :=
      List.eq_append_cons_of_mem (hperm.mem_iff.mp List.mem_cons_self)
    have hrest : left.Perm (pre ++ post) :=
      (hperm.trans List.perm_middle).cons_inv
    obtain ⟨hpre, hpost, hacross⟩ := List.pairwise_append.mp hright
    obtain ⟨hfirst, htail⟩ := List.pairwise_cons.mp hleft
    have hfront : ∀ j ∈ pre, ∀ s, step i (step j s) = step j (step i s) := by
      intro j hj
      have hne : i ≠ j := fun heq => hnotin (heq ▸ hj)
      have hmem : j ∈ left := hrest.mem_iff.mpr (List.mem_append_left _ hj)
      exact hcomm i j hne (hfirst j hmem) (hacross j hj i List.mem_cons_self)
    rw [runSteps_move_front step hfront, runSteps_cons, runSteps_cons]
    refine ih hrest htail ?_ _
    refine List.pairwise_append.mpr
      ⟨hpre, (List.pairwise_cons.mp hpost).2, ?_⟩
    intro j hj k hk
    exact hacross j hj k (List.mem_cons_of_mem i hk)

/-- Stores to different cells commute. -/
theorem storeStep_comm {κ β : Type*} [DecidableEq κ] {loc : ι → Option κ}
    (val : ι → β) {i j : ι} (hloc : ∀ k, loc i = some k → loc j ≠ some k)
    (table : κ → β) :
    storeStep loc val i (storeStep loc val j table) =
      storeStep loc val j (storeStep loc val i table) := by
  rcases hi : loc i with _ | k
  · simp [storeStep, hi]
  · rcases hj : loc j with _ | n
    · simp [storeStep, hj]
    · have hne : k ≠ n := by
        intro heq
        exact hloc k hi (heq ▸ hj)
      simp only [storeStep, hi, hj]
      exact Function.update_comm hne.symm _ _ _

/-- The order of stores shows exactly when two of them fight over a cell with
different values. -/
theorem storeStep_order_iff [DecidableEq ι] {κ β : Type*} [DecidableEq κ]
    (loc : ι → Option κ) (val : ι → β) (steps : List ι) (table : κ → β) :
    (∀ o o' : Schedule steps fun _ _ => False,
        runSteps (storeStep loc val) o.order table =
          runSteps (storeStep loc val) o'.order table) ↔
      ∀ i ∈ steps, ∀ j ∈ steps, ∀ k, loc i = some k → loc j = some k →
        val i = val j := by
  constructor
  · intro horder i hi j hj k hik hjk
    have h := congrFun
      (horder (Schedule.last steps i hi) (Schedule.last steps j hj)) k
    unfold Schedule.last at h
    rw [runSteps_storeStep_append_singleton hik,
      runSteps_storeStep_append_singleton hjk] at h
    exact h
  · intro hsame o o'
    funext k
    rcases runSteps_storeStep_cases loc val o.order table k with
      ⟨i, hi, hik, hval⟩ | ⟨hnone, hval⟩
    · rw [hval]
      refine (runSteps_storeStep_of_mem (o'.mem_iff.mpr (o.mem_iff.mp hi))
        hik ?_ table).symm
      intro j hj hjk
      exact hsame j (o'.mem_iff.mp hj) i (o.mem_iff.mp hi) k hjk hik
    · rw [hval]
      refine (runSteps_storeStep_of_forall_ne ?_ table).symm
      intro j hj
      exact hnone j (o.mem_iff.mpr (o'.mem_iff.mp hj))

/-! ## Threads of loads and stores -/

/-- An instruction of a thread: it reads the shared state into its locals, or
writes the shared state from its locals. -/
inductive Instr (σ ρ : Type*) where
  | read (f : σ → ρ → ρ)
  | write (f : ρ → σ → σ)

/-- The shared state and the locals of every thread. -/
structure Threads (ι σ ρ : Type*) where
  shared : σ
  locals : ι → ρ

/-- The instructions of the thread `i`, by their numbers. -/
def instructions (code : ι → List (Instr σ ρ)) (i : ι) : List (ι × Nat) :=
  (List.range (code i).length).map (i, ·)

/-- A thread runs its instructions from the first to the last. -/
def programOrder (x y : ι × Nat) : Prop := x.1 = y.1 ∧ x.2 < y.2

/-- An order in which the instructions of all threads run. -/
abbrev Interleaving (code : ι → List (Instr σ ρ)) (threads : List ι) :=
  Schedule (threads.flatMap (instructions code)) programOrder

variable {code : ι → List (Instr σ ρ)} {threads : List ι}

theorem mem_instructions {i : ι} {x : ι × Nat} :
    x ∈ instructions code i ↔ x.1 = i ∧ x.2 < (code i).length := by
  unfold instructions
  obtain ⟨j, k⟩ := x
  simp only [List.mem_map, List.mem_range, Prod.mk.injEq]
  constructor
  · intro h
    obtain ⟨n, hn, heq, rfl⟩ := h
    exact ⟨heq.symm, hn⟩
  · intro h
    exact ⟨k, h.2, h.1.symm, rfl⟩

theorem mem_steps {x : ι × Nat} :
    x ∈ threads.flatMap (instructions code) ↔
      x.1 ∈ threads ∧ x.2 < (code x.1).length := by
  rw [List.mem_flatMap]
  constructor
  · intro h
    obtain ⟨i, hi, hx⟩ := h
    obtain ⟨rfl, hlt⟩ := mem_instructions.mp hx
    exact ⟨hi, hlt⟩
  · intro h
    exact ⟨x.1, h.1, mem_instructions.mpr ⟨rfl, h.2⟩⟩

theorem nodup_instructions (i : ι) : (instructions code i).Nodup :=
  List.nodup_range.map fun _ _ h => (Prod.mk.inj h).2

theorem nodup_steps (hthreads : threads.Nodup) :
    (threads.flatMap (instructions code)).Nodup := by
  refine List.nodup_flatMap.mpr ⟨fun i _ => nodup_instructions i, ?_⟩
  refine hthreads.imp ?_
  intro i j hne x hi hj
  exact hne ((mem_instructions.mp hi).1.symm.trans (mem_instructions.mp hj).1)

theorem Interleaving.nodup (hthreads : threads.Nodup)
    (o : Interleaving code threads) : o.order.Nodup :=
  o.perm.nodup_iff.mpr (nodup_steps hthreads)

/-- The instructions of a thread that ran before its instruction `k` are the
first `k`. -/
theorem mem_earlier_iff (hthreads : threads.Nodup)
    (o : Interleaving code threads) {pre post : List (ι × Nat)} {i : ι}
    {k : Nat} (hsplit : o.order = pre ++ (i, k) :: post) (n : Nat) :
    (i, n) ∈ pre ↔ n < k := by
  have hmem : (i, k) ∈ o.order := by
    rw [hsplit]
    exact List.mem_append_right _ List.mem_cons_self
  obtain ⟨hi, hk⟩ := mem_steps.mp (o.mem_iff.mp hmem)
  constructor
  · intro hn
    have hnodup := o.nodup hthreads
    have hrespects := o.respects
    rw [hsplit] at hnodup hrespects
    have hne : n ≠ k := by
      intro heq
      exact (List.nodup_append.mp hnodup).2.2 _ hn _ List.mem_cons_self
        (by rw [heq])
    have hle := (List.pairwise_append.mp hrespects).2.2 _ hn _
      List.mem_cons_self
    have : ¬k < n := fun hlt => hle ⟨rfl, hlt⟩
    omega
  · intro hn
    refine o.mem_prefix hsplit (mem_steps.mpr ⟨hi, hn.trans hk⟩) ?_ ⟨rfl, hn⟩
    intro heq
    exact absurd (Prod.mk.inj heq).2 (Nat.ne_of_lt hn)

/-! ## What an interleaving computes -/

section Exec

variable [DecidableEq ι]

/-- The thread `i` runs one instruction. -/
def Instr.exec (i : ι) : Instr σ ρ → Threads ι σ ρ → Threads ι σ ρ
  | .read f, s =>
    { s with locals := Function.update s.locals i (f s.shared (s.locals i)) }
  | .write f, s => { s with shared := f (s.locals i) s.shared }

/-- The thread `x.1` runs its instruction number `x.2`. -/
def execAt (code : ι → List (Instr σ ρ)) (x : ι × Nat)
    (s : Threads ι σ ρ) : Threads ι σ ρ :=
  match (code x.1)[x.2]? with
  | some instr => instr.exec x.1 s
  | none => s

/-- The thread `i` runs its whole code. -/
def execThread (code : ι → List (Instr σ ρ)) (i : ι) (s : Threads ι σ ρ) :
    Threads ι σ ρ :=
  (code i).foldl (fun s instr => instr.exec i s) s

/-- The locals after the first `k` instructions of a code that sees the
shared state `g` throughout. -/
def localsAt (code : List (Instr σ ρ)) (g : σ) (l : ρ) (k : Nat) : ρ :=
  (code.take k).foldl
    (fun l instr =>
      match instr with
      | .read f => f g l
      | .write _ => l)
    l

/-- What the instruction `x` makes of the shared state `g` when its thread
runs alone from `s` up to it. -/
def commit (code : ι → List (Instr σ ρ)) (s : Threads ι σ ρ) (x : ι × Nat)
    (g : σ) : σ :=
  match (code x.1)[x.2]? with
  | some (.write f) => f (localsAt (code x.1) s.shared (s.locals x.1) x.2) g
  | _ => g

/-- No read of the phase sees what a write of the phase stores. -/
def ReadsStable (code : ι → List (Instr σ ρ)) (s : Threads ι σ ρ) : Prop :=
  ∀ i f, .read f ∈ code i → ∀ x g, f (commit code s x g) = f g

theorem localsAt_succ (code : List (Instr σ ρ)) (g : σ) (l : ρ) (k : Nat) :
    localsAt code g l (k + 1) =
      match code[k]? with
      | some (.read f) => f g (localsAt code g l k)
      | _ => localsAt code g l k := by
  unfold localsAt
  rw [List.take_add_one, List.foldl_append]
  rcases code[k]? with _ | instr
  · rfl
  · cases instr <;> rfl

/-- The state of an interleaving after the instructions `pre`. -/
structure Reached (code : ι → List (Instr σ ρ)) (s : Threads ι σ ρ)
    (pre : List (ι × Nat)) (t : Threads ι σ ρ) : Prop where
  shared : t.shared = runSteps (commit code s) pre s.shared
  locals : ∀ i k, (∀ n, (i, n) ∈ pre ↔ n < k) →
    t.locals i = localsAt (code i) s.shared (s.locals i) k

theorem Reached.shared_step {s t : Threads ι σ ρ} {pre : List (ι × Nat)}
    (ht : Reached code s pre t) {x : ι × Nat}
    (hx : ∀ n, (x.1, n) ∈ pre ↔ n < x.2) :
    (execAt code x t).shared = commit code s x t.shared := by
  have hlocals := ht.locals x.1 x.2 hx
  unfold execAt commit
  rcases (code x.1)[x.2]? with _ | instr
  · rfl
  · cases instr with
    | read f => rfl
    | write f =>
      show f (t.locals x.1) t.shared = _
      rw [hlocals]

theorem Reached.locals_step {s t : Threads ι σ ρ} {pre : List (ι × Nat)}
    (hstable : ReadsStable code s) (ht : Reached code s pre t) {x : ι × Nat}
    (hx : ∀ n, (x.1, n) ∈ pre ↔ n < x.2) :
    (execAt code x t).locals = Function.update t.locals x.1
      (localsAt (code x.1) s.shared (s.locals x.1) (x.2 + 1)) := by
  have hlocals := ht.locals x.1 x.2 hx
  rw [localsAt_succ, ← hlocals]
  unfold execAt
  rcases hinstr : (code x.1)[x.2]? with _ | instr
  · exact (Function.update_eq_self x.1 t.locals).symm
  · cases instr with
    | read f =>
      -- the writes so far have not touched what `f` reads
      have hread : f t.shared = f s.shared := by
        rw [ht.shared]
        exact runSteps_frame (commit code s) f
          (hstable x.1 f (List.mem_of_getElem? hinstr)) pre s.shared
      show Function.update t.locals x.1 (f t.shared (t.locals x.1)) = _
      rw [hread]
    | write f => exact (Function.update_eq_self x.1 t.locals).symm

theorem Reached.step {s t : Threads ι σ ρ} {pre : List (ι × Nat)}
    (hstable : ReadsStable code s) (ht : Reached code s pre t) {x : ι × Nat}
    (hx : ∀ n, (x.1, n) ∈ pre ↔ n < x.2) :
    Reached code s (pre ++ [x]) (execAt code x t) where
  shared := by
    rw [ht.shared_step hx, ht.shared, runSteps_append]
    rfl
  locals := by
    intro i k hk
    rw [ht.locals_step hstable hx]
    have hmem : ∀ n, (i, n) ∈ pre ++ [x] ↔ (i, n) ∈ pre ∨ (i, n) = x := by
      intro n
      rw [List.mem_append, List.mem_singleton]
    by_cases hi : i = x.1
    · subst hi
      have hlast : ∀ n, n < k ↔ n < x.2 ∨ n = x.2 := by
        intro n
        rw [← hk, hmem, hx, Prod.ext_iff]
        simp
      have hk : k = x.2 + 1 := by
        have h1 := hlast x.2
        have h2 := hlast (x.2 + 1)
        omega
      rw [Function.update_self, hk]
    · rw [Function.update_of_ne hi]
      refine ht.locals i k fun n => ?_
      rw [← hk, hmem]
      constructor
      · exact Or.inl
      · intro h
        rcases h with h | h
        · exact h
        · exact absurd (congrArg Prod.fst h) hi

/-- The shared state after an interleaving is the run of its writes. -/
theorem interleaved_shared (hthreads : threads.Nodup) {s : Threads ι σ ρ}
    (hstable : ReadsStable code s) (o : Interleaving code threads) :
    (runSteps (execAt code) o.order s).shared =
      runSteps (commit code s) o.order s.shared := by
  have hstart : Reached code s [] s := by
    refine ⟨rfl, fun i k hk => ?_⟩
    have hk : k = 0 := by
      have h := hk 0
      simp only [List.not_mem_nil, false_iff] at h
      omega
    rw [hk]
    rfl
  have hreached := runSteps_induction (execAt code) o.order (Reached code s) s
    hstart fun pre x post hsplit t ht =>
      ht.step hstable (mem_earlier_iff hthreads o hsplit)
  exact hreached.shared

/-! ## Atomicity -/

theorem runSteps_instructions (i : ι) (s : Threads ι σ ρ) :
    runSteps (execAt code) (instructions code i) s = execThread code i s := by
  have htake : ∀ k, k ≤ (code i).length →
      runSteps (execAt code) ((List.range k).map (i, ·)) s =
        ((code i).take k).foldl (fun s instr => instr.exec i s) s := by
    intro k
    induction k with
    | zero => exact fun _ => rfl
    | succ k ih =>
      intro hk
      have hlt : k < (code i).length := by omega
      rw [List.range_succ, List.map_append, runSteps_append, ih (by omega),
        List.take_add_one, List.foldl_append]
      show execAt code (i, k) _ = _
      unfold execAt
      rw [List.getElem?_eq_getElem hlt]
      rfl
  rw [instructions, htake _ le_rfl, List.take_length]
  rfl

/-- Whole threads run one after the other. -/
def Interleaving.serial (hthreads : threads.Nodup) {order : List ι}
    (hperm : order.Perm threads) : Interleaving code threads where
  order := order.flatMap (instructions code)
  perm := hperm.flatMap_right _
  respects := by
    refine List.pairwise_flatMap.mpr ⟨fun i _ => ?_, ?_⟩
    · refine List.pairwise_map.mpr (List.pairwise_lt_range.imp ?_)
      intro k n hlt h
      exact absurd h.2 (Nat.not_lt.mpr hlt.le)
    · refine (hperm.nodup_iff.mpr hthreads).imp ?_
      intro i j hne x hx y hy h
      have hi := (mem_instructions.mp hx).1
      have hj := (mem_instructions.mp hy).1
      exact hne (hi.symm.trans (h.1.symm.trans hj))

/-- Every thread runs its first instruction before any thread runs its second
one, and so on. -/
def Interleaving.inTurns : Interleaving code threads :=
  .byRound _ Prod.snd fun _ _ h => h.2

theorem Interleaving.run_serial (hthreads : threads.Nodup) {order : List ι}
    (hperm : order.Perm threads) (s : Threads ι σ ρ) :
    runSteps (execAt code)
        (serial hthreads hperm : Interleaving code threads).order s =
      runSteps (execThread code) order s := by
  show runSteps _ (order.flatMap (instructions code)) s = _
  rw [runSteps_flatMap]
  exact runSteps_congr (fun i _ => funext (runSteps_instructions i)) s

/-- Two instructions stand in the order of their thread, and pivots stand in
the order in which they run in `o`. -/
def PivotOrder (o : List (ι × Nat)) (pivot : ι → Nat) (x y : ι × Nat) :
    Prop :=
  (x.1 = y.1 → x.2 < y.2) ∧
    (x.1 ≠ y.1 → x.2 = pivot x.1 → y.2 = pivot y.1 →
      o.idxOf x < o.idxOf y)

theorem Interleaving.pairwise_pivotOrder (hthreads : threads.Nodup)
    (o : Interleaving code threads) (pivot : ι → Nat) :
    o.order.Pairwise (PivotOrder o.order pivot) := by
  have hnodup := o.nodup hthreads
  have hindex : o.order.Pairwise fun x y =>
      o.order.idxOf x < o.order.idxOf y := by
    refine List.pairwise_iff_getElem.mpr ?_
    intro n m hn hm hlt
    rw [hnodup.idxOf_getElem, hnodup.idxOf_getElem]
    exact hlt
  refine ((o.respects.and hnodup).and hindex).imp ?_
  intro x y h
  obtain ⟨⟨hrespects, hne⟩, hlt⟩ := h
  refine ⟨fun hsame => ?_, fun _ _ _ => hlt⟩
  have hle : ¬y.2 < x.2 := fun h => hrespects ⟨hsame.symm, h⟩
  have : x.2 ≠ y.2 := fun h => hne (Prod.ext hsame h)
  omega

/-- The threads in the order of their pivots. -/
def pivotThreads (o : List (ι × Nat)) (pivot : ι → Nat) (threads : List ι) :
    List ι :=
  threads.mergeSort fun i j => o.idxOf (i, pivot i) ≤ o.idxOf (j, pivot j)

theorem pairwise_pivotThreads (hthreads : threads.Nodup)
    (o : Interleaving code threads) (pivot : ι → Nat) :
    ((pivotThreads o.order pivot threads).flatMap (instructions code)).Pairwise
      (PivotOrder o.order pivot) := by
  have hperm : (pivotThreads o.order pivot threads).Perm threads :=
    List.mergeSort_perm _ _
  have hsorted : (pivotThreads o.order pivot threads).Pairwise fun i j =>
      o.order.idxOf (i, pivot i) ≤ o.order.idxOf (j, pivot j) := by
    refine (List.pairwise_mergeSort ?_ ?_ threads).imp of_decide_eq_true
    · intro i j k hij hjk
      exact decide_eq_true
        ((of_decide_eq_true hij).trans (of_decide_eq_true hjk))
    · intro i j
      simpa using Nat.le_total _ _
  refine List.pairwise_flatMap.mpr ⟨fun i _ => ?_, ?_⟩
  · refine List.pairwise_map.mpr (List.pairwise_lt_range.imp ?_)
    intro k n hlt
    exact ⟨fun _ => hlt, fun hne => absurd rfl hne⟩
  · refine (List.Pairwise.and_mem.mp
      (hsorted.and (hperm.nodup_iff.mpr hthreads))).imp ?_
    intro i j h x hx y hy
    obtain ⟨hi, hj, hle, hne⟩ := h
    obtain ⟨rfl, hx⟩ := mem_instructions.mp hx
    obtain ⟨rfl, hy⟩ := mem_instructions.mp hy
    refine ⟨fun heq => absurd heq hne, fun _ hpx hpy => ?_⟩
    -- both are the pivots of their threads, and different
    have hle : o.order.idxOf x ≤ o.order.idxOf y := by
      rw [← hpx, ← hpy] at hle
      exact hle
    have hmem : x ∈ o.order :=
      o.mem_iff.mpr (mem_steps.mpr ⟨hperm.mem_iff.mp hi, hx⟩)
    have hindex : o.order.idxOf x ≠ o.order.idxOf y := fun heq =>
      hne (congrArg Prod.fst ((List.idxOf_inj hmem).mp heq))
    omega

/-- An interleaving is atomic.  When the writes of different threads commute,
their pivots apart, it ends as if the threads had run one after the other in
the order of their pivots. -/
theorem exists_thread_order (hthreads : threads.Nodup) {s : Threads ι σ ρ}
    (hstable : ReadsStable code s) (pivot : ι → Nat)
    (hcomm : ∀ x y, x.1 ≠ y.1 → ¬(x.2 = pivot x.1 ∧ y.2 = pivot y.1) → ∀ g,
      commit code s x (commit code s y g) = commit code s y (commit code s x g))
    {phase : ι → σ → σ}
    (hphase : ∀ i t, (execThread code i t).shared = phase i t.shared)
    (o : Interleaving code threads) :
    ∃ order : Schedule threads fun _ _ => False,
      (runSteps (execAt code) o.order s).shared =
        runSteps phase order.order s.shared := by
  have hperm : (pivotThreads o.order pivot threads).Perm threads :=
    List.mergeSort_perm _ _
  let serial : Interleaving code threads := .serial hthreads hperm
  refine ⟨⟨pivotThreads o.order pivot threads, hperm,
    List.pairwise_of_forall fun _ _ h => h⟩, ?_⟩
  have hwrites : runSteps (commit code s) o.order s.shared =
      runSteps (commit code s) serial.order s.shared := by
    refine runSteps_eq_of_pairwise (R := PivotOrder o.order pivot) _ ?_
      (o.perm.trans serial.perm.symm)
      (o.pairwise_pivotOrder hthreads pivot)
      (pairwise_pivotThreads hthreads o pivot) _
    intro x y hne hxy hyx
    have hthread : x.1 ≠ y.1 := by
      intro heq
      have h1 := hxy.1 heq
      have h2 := hyx.1 heq.symm
      omega
    refine hcomm x y hthread fun h => ?_
    have h1 := hxy.2 hthread h.1 h.2
    have h2 := hyx.2 hthread.symm h.2 h.1
    omega
  calc (runSteps (execAt code) o.order s).shared
      = runSteps (commit code s) o.order s.shared :=
        interleaved_shared hthreads hstable o
    _ = runSteps (commit code s) serial.order s.shared := hwrites
    _ = (runSteps (execAt code) serial.order s).shared :=
        (interleaved_shared hthreads hstable serial).symm
    _ = (runSteps (execThread code)
          (pivotThreads o.order pivot threads) s).shared := by
        rw [Interleaving.run_serial hthreads hperm]
    _ = runSteps phase (pivotThreads o.order pivot threads) s.shared :=
        (runSteps_hom Threads.shared (fun i t => (hphase i t).symm) _ s).symm

/-! ## Threads that load first and store last -/

/-- The code of a thread that reads some cells and then stores once. -/
def loadStore (reads : List (σ → ρ → ρ)) (store : ρ → σ → σ) :
    List (Instr σ ρ) :=
  reads.map .read ++ [.write store]

/-- The locals after the reads of a thread. -/
def afterReads (reads : List (σ → ρ → ρ)) (g : σ) (l : ρ) : ρ :=
  reads.foldl (fun l f => f g l) l

theorem execThread_loadStore {reads : List (σ → ρ → ρ)}
    {store : ρ → σ → σ} {i : ι} (hcode : code i = loadStore reads store)
    (s : Threads ι σ ρ) :
    (execThread code i s).shared =
      store (afterReads reads s.shared (s.locals i)) s.shared := by
  have hreads : ∀ (reads : List (σ → ρ → ρ)) (s : Threads ι σ ρ),
      let t := (reads.map Instr.read).foldl (fun s instr => instr.exec i s) s
      t.shared = s.shared ∧
        t.locals i = afterReads reads s.shared (s.locals i) := by
    intro reads
    induction reads with
    | nil => exact fun _ => ⟨rfl, rfl⟩
    | cons f reads ih =>
      intro s
      have h := ih (Instr.exec i (.read f) s)
      refine ⟨h.1, h.2.trans ?_⟩
      show afterReads reads s.shared (Function.update s.locals i _ i) = _
      rw [Function.update_self]
      rfl
  obtain ⟨hshared, hlocals⟩ := hreads reads s
  unfold execThread
  rw [hcode, loadStore, List.foldl_append, ← hlocals, ← hshared]
  rfl

omit [DecidableEq ι] in
theorem commit_loadStore {reads : List (σ → ρ → ρ)} {store : ρ → σ → σ}
    {x : ι × Nat} (hcode : code x.1 = loadStore reads store)
    (s : Threads ι σ ρ) (g : σ) :
    commit code s x g =
      if x.2 = reads.length then
        store (afterReads reads s.shared (s.locals x.1)) g
      else g := by
  unfold commit
  rw [hcode, loadStore]
  rcases Nat.lt_trichotomy x.2 reads.length with hlt | heq | hgt
  · rw [List.getElem?_append_left (by simpa using hlt), if_neg (by omega),
      List.getElem?_map, List.getElem?_eq_getElem hlt]
    rfl
  · have hlocals : localsAt (reads.map .read ++ [.write store]) s.shared
        (s.locals x.1) x.2 = afterReads reads s.shared (s.locals x.1) := by
      unfold localsAt afterReads
      rw [heq, List.take_left' (by simp), List.foldl_map]
    rw [if_pos heq, hlocals, heq,
      List.getElem?_append_right (List.length_map _).le, List.length_map,
      Nat.sub_self]
    rfl
  · rw [List.getElem?_eq_none (by simp; omega), if_neg (by omega)]

/-- When every thread stores at most once, after its reads, and no store
touches what the phase reads, every interleaving is atomic: the store is the
pivot of its thread. -/
theorem exists_thread_order_of_loadStore (hthreads : threads.Nodup)
    {s : Threads ι σ ρ} (reads : ι → List (σ → ρ → ρ))
    (store : ι → ρ → σ → σ)
    (hcode : ∀ i, code i = [] ∨ code i = loadStore (reads i) (store i))
    (hstable : ∀ i f, f ∈ reads i → ∀ j, code j ≠ [] → ∀ g,
      f (store j (afterReads (reads j) s.shared (s.locals j)) g) = f g)
    {phase : ι → σ → σ}
    (hphase : ∀ i t, (execThread code i t).shared = phase i t.shared)
    (o : Interleaving code threads) :
    ∃ order : Schedule threads fun _ _ => False,
      (runSteps (execAt code) o.order s).shared =
        runSteps phase order.order s.shared := by
  have hidle : ∀ {x : ι × Nat}, code x.1 = [] → ∀ g, commit code s x g = g := by
    intro x hnil g
    unfold commit
    rw [hnil, List.getElem?_nil]
  have hread : ∀ {x : ι × Nat}, x.2 ≠ (reads x.1).length →
      ∀ g, commit code s x g = g := by
    intro x hx g
    rcases hcode x.1 with hnil | hload
    · exact hidle hnil g
    · rw [commit_loadStore hload, if_neg hx]
  refine exists_thread_order hthreads ?_ (fun i => (reads i).length) ?_
    hphase o
  · intro i f hf x g
    have hmem : f ∈ reads i := by
      rcases hcode i with hnil | hload
      · rw [hnil] at hf
        exact absurd hf List.not_mem_nil
      · rw [hload, loadStore] at hf
        simpa using hf
    by_cases hx : x.2 = (reads x.1).length
    · rcases hcode x.1 with hnil | hload
      · rw [hidle hnil]
      · rw [commit_loadStore hload, if_pos hx]
        refine hstable i f hmem x.1 ?_ g
        rw [hload, loadStore]
        exact List.append_ne_nil_of_right_ne_nil _ (List.cons_ne_nil _ _)
    · rw [hread hx]
  · intro x y _ hpivot g
    by_cases hx : x.2 = (reads x.1).length
    · have hy : y.2 ≠ (reads y.1).length := fun hy => hpivot ⟨hx, hy⟩
      rw [hread hy, hread hy]
    · rw [hread hx, hread hx]

end Exec

end VulkanCompute.Lib
