import Mathlib.Data.List.FinRange
import Mathlib.Data.List.Induction
import Mathlib.Data.List.Perm.Basic
import Mathlib.Logic.Function.Basic

/-!
# Phases of unordered steps

A bulk-synchronous program runs in phases.  Between two barriers every step
of a phase runs exactly once, in an order that the hardware picks.  A
`Schedule` is such an order; `runSteps` runs the steps of a phase in it.

The lemmas below come in two groups.

* `runSteps` itself: it splits at a list boundary (`runSteps_append`), it
  keeps what every step keeps (`runSteps_frame`), it carries an invariant
  that is indexed by the steps already done (`runSteps_induction`, and
  `exists_runSteps` for steps that leave something open), it runs numbered
  steps one after the other (`runSteps_take_succ`), it commutes with an
  embedding of a smaller state (`runSteps_hom`), and it keeps two parts of the
  state apart (`runSteps_prod`).
* Phases whose steps write at most one cell of a table each.  `storeStep`
  is one such step.  A cell that nobody writes keeps its content
  (`runSteps_storeStep_of_forall_ne`), a cell whose writers agree holds
  their value (`runSteps_storeStep_of_mem`), and a cell that several
  writers fight over holds the value of one of them
  (`runSteps_storeStep_cases`).
-/

namespace VulkanCompute.Lib

/-- An order in which every step of a phase runs exactly once.  `before i j`
says that step `j` waits for step `i`. -/
structure Schedule {ι : Type*} (steps : List ι) (before : ι → ι → Prop) where
  order : List ι
  perm : order.Perm steps
  respects : order.Pairwise fun i j => ¬before j i

variable {ι σ τ κ β α : Type*}

/-- Run the steps of a phase in the given order. -/
def runSteps (step : ι → σ → σ) (order : List ι) (s : σ) : σ :=
  order.foldl (fun s i => step i s) s

/-! ## Schedules -/

theorem Schedule.mem_iff {steps : List ι} {before : ι → ι → Prop}
    (sch : Schedule steps before) {i : ι} : i ∈ sch.order ↔ i ∈ steps :=
  sch.perm.mem_iff

/-- A step that `j` waits for stands before `j`. -/
theorem Schedule.mem_prefix {steps : List ι} {before : ι → ι → Prop}
    (sch : Schedule steps before) {pre post : List ι} {i j : ι}
    (hsplit : sch.order = pre ++ j :: post) (hi : i ∈ steps) (hij : i ≠ j)
    (hbefore : before i j) : i ∈ pre := by
  have hmem : i ∈ pre ++ j :: post := hsplit ▸ sch.mem_iff.mpr hi
  rcases List.mem_append.mp hmem with hpre | hpost
  · exact hpre
  · rcases List.mem_cons.mp hpost with heq | hpost
    · exact absurd heq hij
    · have hresp := hsplit ▸ sch.respects
      have hcons := (List.pairwise_append.mp hresp).2.1
      exact absurd hbefore ((List.pairwise_cons.mp hcons).1 i hpost)

/-- The order in which the steps are listed, for a phase without waiting. -/
def Schedule.listed (steps : List ι) : Schedule steps fun _ _ => False where
  order := steps
  perm := List.Perm.refl _
  respects := List.pairwise_of_forall fun _ _ h => h

/-- The opposite order. -/
def Schedule.reversed (steps : List ι) :
    Schedule steps fun _ _ => False where
  order := steps.reverse
  perm := List.reverse_perm steps
  respects := List.pairwise_of_forall fun _ _ h => h

/-- An order that runs the step `i` last, for a phase without waiting. -/
def Schedule.last [DecidableEq ι] (steps : List ι) (i : ι) (hi : i ∈ steps) :
    Schedule steps fun _ _ => False where
  order := steps.erase i ++ [i]
  perm := (List.perm_append_singleton i _).trans (List.perm_cons_erase hi).symm
  respects := List.pairwise_of_forall fun _ _ h => h

/-- An order by rounds, for steps that wait only for those of earlier
rounds. -/
def Schedule.byRound (steps : List ι) {before : ι → ι → Prop} (round : ι → Nat)
    (hround : ∀ i j, before i j → round i < round j) :
    Schedule steps before where
  order := steps.mergeSort fun i j => round i ≤ round j
  perm := List.mergeSort_perm _ _
  respects := by
    let le (i j : ι) : Bool := round i ≤ round j
    have htrans : ∀ i j k, le i j → le j k → le i k := fun i j k hij hjk =>
      decide_eq_true ((of_decide_eq_true hij).trans (of_decide_eq_true hjk))
    have htotal : ∀ i j, le i j || le j i := fun i j => by
      simpa [le] using Nat.le_total (round i) (round j)
    refine (List.pairwise_mergeSort htrans htotal steps).imp fun hle hbefore => ?_
    exact Nat.not_lt.mpr (of_decide_eq_true hle) (hround _ _ hbefore)

/-! ## Running a phase -/

@[simp] theorem runSteps_nil (step : ι → σ → σ) (s : σ) :
    runSteps step [] s = s := rfl

@[simp] theorem runSteps_cons (step : ι → σ → σ) (i : ι) (order : List ι)
    (s : σ) :
    runSteps step (i :: order) s = runSteps step order (step i s) := rfl

theorem runSteps_append (step : ι → σ → σ) (left right : List ι) (s : σ) :
    runSteps step (left ++ right) s =
      runSteps step right (runSteps step left s) :=
  List.foldl_append ..

/-- A phase keeps every view of the state that its steps keep. -/
theorem runSteps_frame (step : ι → σ → σ) (view : σ → α)
    (hstep : ∀ i s, view (step i s) = view s) (order : List ι) (s : σ) :
    view (runSteps step order s) = view s := by
  induction order generalizing s with
  | nil => rfl
  | cons i order ih => rw [runSteps_cons, ih, hstep]

/-- The invariant rule.  The invariant is indexed by the steps already done,
so a step may use that the steps it waits for stand in the prefix. -/
theorem runSteps_induction (step : ι → σ → σ) (order : List ι)
    (Inv : List ι → σ → Prop) (s : σ) (hinit : Inv [] s)
    (hstep : ∀ pre i post, order = pre ++ i :: post →
      ∀ s, Inv pre s → Inv (pre ++ [i]) (step i s)) :
    Inv order (runSteps step order s) := by
  have hrun : ∀ rest pre s, order = pre ++ rest → Inv pre s →
      Inv order (runSteps step rest s) := by
    intro rest
    induction rest with
    | nil =>
      intro pre s hsplit hinv
      rw [List.append_nil] at hsplit
      rw [hsplit]
      exact hinv
    | cons i rest ih =>
      intro pre s hsplit hinv
      rw [runSteps_cons]
      refine ih (pre ++ [i]) _ ?_ (hstep pre i rest hsplit s hinv)
      rw [hsplit, List.append_assoc]
      rfl
  exact hrun order [] s rfl hinit

/-- Only the steps of a phase matter. -/
theorem runSteps_congr {step step' : ι → σ → σ} {order : List ι}
    (hstep : ∀ i ∈ order, step i = step' i) (s : σ) :
    runSteps step order s = runSteps step' order s := by
  induction order generalizing s with
  | nil => rfl
  | cons i order ih =>
    rw [runSteps_cons, runSteps_cons, hstep i List.mem_cons_self]
    exact ih (fun j hj => hstep j (List.mem_cons_of_mem i hj)) _

/-- The invariant rule for steps with a choice.  When every step has a choice
that keeps the invariant, some choices keep it through the whole phase. -/
theorem exists_runSteps [DecidableEq ι] [Nonempty α]
    (step : α → ι → σ → σ) (order : List ι) (hnodup : order.Nodup)
    (Inv : List ι → σ → Prop) (s : σ) (hinit : Inv [] s)
    (hstep : ∀ pre i post, order = pre ++ i :: post →
      ∀ s, Inv pre s → ∃ c, Inv (pre ++ [i]) (step c i s)) :
    ∃ choice : ι → α,
      Inv order (runSteps (fun i => step (choice i) i) order s) := by
  have hprefix : ∀ pre post, order = pre ++ post → ∃ choice : ι → α,
      Inv pre (runSteps (fun i => step (choice i) i) pre s) := by
    intro pre
    induction pre using List.reverseRecOn with
    | nil =>
      intro _ _
      obtain ⟨c⟩ := ‹Nonempty α›
      exact ⟨fun _ => c, hinit⟩
    | append_singleton pre i ih =>
      intro post hsplit
      rw [List.append_assoc] at hsplit
      obtain ⟨choice, hinv⟩ := ih _ hsplit
      obtain ⟨c, hc⟩ := hstep pre i post hsplit _ hinv
      refine ⟨Function.update choice i c, ?_⟩
      have hi : i ∉ pre := by
        rw [hsplit] at hnodup
        intro hmem
        exact (List.nodup_append.mp hnodup).2.2 i hmem i (by simp) rfl
      have hsame : runSteps
          (fun j => step (Function.update choice i c j) j) pre s =
            runSteps (fun j => step (choice j) j) pre s := by
        refine runSteps_congr (fun j hj => ?_) s
        have hne : j ≠ i := fun heq => hi (heq ▸ hj)
        rw [Function.update_of_ne hne]
      rw [runSteps_append, runSteps_cons, runSteps_nil, hsame,
        Function.update_self]
      exact hc
  exact hprefix order [] (List.append_nil order).symm

/-- In a phase of numbered steps, the step `i` comes after the first `i`. -/
theorem runSteps_take_succ {n : Nat} (step : Fin n → σ → σ) (i : Fin n)
    (s : σ) :
    runSteps step ((List.finRange n).take (i + 1)) s =
      step i (runSteps step ((List.finRange n).take i) s) := by
  have hlength : i.val < (List.finRange n).length := by
    rw [List.length_finRange]
    exact i.isLt
  rw [List.take_succ_eq_append_getElem hlength, List.getElem_finRange,
    runSteps_append]
  rfl

/-- A phase that only acts on an embedded part of the state is the phase of
that part. -/
theorem runSteps_hom (put : τ → σ) {small : ι → τ → τ} {step : ι → σ → σ}
    (hstep : ∀ i x, step i (put x) = put (small i x)) (order : List ι)
    (x : τ) :
    runSteps step order (put x) = put (runSteps small order x) :=
  List.foldl_hom put fun x i => hstep i x

/-- A phase that acts on two parts of the state apart. -/
theorem runSteps_prod (left : ι → σ → σ) (right : ι → τ → τ) (order : List ι)
    (s : σ × τ) :
    runSteps (fun i s => (left i s.1, right i s.2)) order s =
      (runSteps left order s.1, runSteps right order s.2) := by
  induction order generalizing s with
  | nil => rfl
  | cons i order ih => rw [runSteps_cons, ih, runSteps_cons, runSteps_cons]

/-- A phase whose steps append to a list. -/
theorem runSteps_collect (out : ι → List α) (order : List ι) (s : List α) :
    runSteps (fun i s => s ++ out i) order s = s ++ order.flatMap out := by
  induction order generalizing s with
  | nil => rw [List.flatMap_nil, List.append_nil, runSteps_nil]
  | cons i order ih =>
    rw [runSteps_cons, ih, List.flatMap_cons, List.append_assoc]

/-! ## Steps that write one cell of a table -/

section Stores

variable [DecidableEq κ]

/-- The step `i` writes the value `val i` to the cell `loc i`, or nothing. -/
def storeStep (loc : ι → Option κ) (val : ι → β) (i : ι) (table : κ → β) :
    κ → β :=
  match loc i with
  | none => table
  | some k => Function.update table k (val i)

theorem storeStep_some {loc : ι → Option κ} {val : ι → β} {i : ι} {k : κ}
    (hloc : loc i = some k) (table : κ → β) :
    storeStep loc val i table = Function.update table k (val i) := by
  rw [storeStep, hloc]

theorem storeStep_of_ne {loc : ι → Option κ} {val : ι → β} {i : ι} {k : κ}
    (hloc : loc i ≠ some k) (table : κ → β) :
    storeStep loc val i table k = table k := by
  cases hk' : loc i with
  | none => rw [storeStep, hk']
  | some k' =>
    rw [storeStep_some hk']
    refine Function.update_of_ne ?_ _ _
    intro hk
    exact hloc (hk ▸ hk')

/-- A cell that no step writes keeps its content. -/
theorem runSteps_storeStep_of_forall_ne {loc : ι → Option κ} {val : ι → β}
    {order : List ι} {k : κ} (hloc : ∀ i ∈ order, loc i ≠ some k)
    (table : κ → β) :
    runSteps (storeStep loc val) order table k = table k := by
  induction order generalizing table with
  | nil => rfl
  | cons i order ih =>
    rw [runSteps_cons, ih (fun j hj => hloc j (List.mem_cons_of_mem i hj)),
      storeStep_of_ne (hloc i List.mem_cons_self)]

/-- The last writer of a cell leaves its value there. -/
theorem runSteps_storeStep_append_singleton {loc : ι → Option κ}
    {val : ι → β} {order : List ι} {i : ι} {k : κ} (hloc : loc i = some k)
    (table : κ → β) :
    runSteps (storeStep loc val) (order ++ [i]) table k = val i := by
  rw [runSteps_append, runSteps_cons, runSteps_nil, storeStep_some hloc,
    Function.update_self]

/-- Whatever the order, a cell holds the value of one of its writers, or its
old content when it has none. -/
theorem runSteps_storeStep_cases (loc : ι → Option κ) (val : ι → β)
    (order : List ι) (table : κ → β) (k : κ) :
    (∃ i ∈ order, loc i = some k ∧
        runSteps (storeStep loc val) order table k = val i) ∨
      (∀ i ∈ order, loc i ≠ some k) ∧
        runSteps (storeStep loc val) order table k = table k := by
  induction order using List.reverseRecOn with
  | nil => exact Or.inr ⟨fun i hi => absurd hi (by simp), rfl⟩
  | append_singleton order i ih =>
    by_cases hi : loc i = some k
    · refine Or.inl ⟨i, by simp, hi, ?_⟩
      exact runSteps_storeStep_append_singleton hi table
    · rw [runSteps_append, runSteps_cons, runSteps_nil, storeStep_of_ne hi]
      rcases ih with ⟨j, hj, hloc, hval⟩ | ⟨hloc, hval⟩
      · exact Or.inl ⟨j, by simp [hj], hloc, hval⟩
      · refine Or.inr ⟨?_, hval⟩
        intro j hj
        rcases List.mem_append.mp hj with hj | hj
        · exact hloc j hj
        · rw [List.mem_singleton.mp hj]
          exact hi

/-- A cell whose writers all write the same value holds that value. -/
theorem runSteps_storeStep_of_mem {loc : ι → Option κ} {val : ι → β}
    {order : List ι} {i : ι} {k : κ} (hi : i ∈ order) (hloc : loc i = some k)
    (hsame : ∀ j ∈ order, loc j = some k → val j = val i) (table : κ → β) :
    runSteps (storeStep loc val) order table k = val i := by
  rcases runSteps_storeStep_cases loc val order table k with
    ⟨j, hj, hlocj, hval⟩ | ⟨hnone, _⟩
  · rw [hval]
    exact hsame j hj hlocj
  · exact absurd hloc (hnone i hi)

end Stores

end VulkanCompute.Lib
