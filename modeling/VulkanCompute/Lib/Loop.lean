import Mathlib.Data.List.Range
import VulkanCompute.Lib.Schedule

/-!
# Counting loops on machine words

`countUp` is the loop `for (i = first; i < bound; i++)` with a 32-bit
counter, and `searchUp` the same loop left by a `break`.

* `countUp_eq_runSteps` turns the loop into a run over the numbers from
  `first` to `bound`, so every rule about `runSteps` applies to it.
  `countUp_eq_rows` is the same for the rows of a table.
* `searchUp_eq_some` says that a search stops at the first hit, and
  `searchUp_eq_none` when it finds none.
-/

namespace VulkanCompute.Lib

variable {σ : Type*}

/-- Below a bound the counter does not wrap. -/
theorem toNat_succ_of_lt {i bound : UInt32} (h : i < bound) :
    (i + 1).toNat = i.toNat + 1 := by
  have hlt : i.toNat < bound.toNat := h
  have hbound := bound.toNat_lt
  rw [UInt32.toNat_add]
  exact Nat.mod_eq_of_lt (by
    show i.toNat + 1 < 2 ^ 32
    omega)

/-- `for (i = first; i < bound; i++) body(i)`. -/
def countUp (body : UInt32 → σ → σ) (bound first : UInt32) (s : σ) : σ :=
  if first < bound then countUp body bound (first + 1) (body first s) else s
termination_by bound.toNat - first.toNat
decreasing_by
  rename_i h
  have hlt : first.toNat < bound.toNat := h
  rw [toNat_succ_of_lt h]
  omega

/-- `for (i = first; i < bound; i++) if (stop(i)) break;` and the counter at
the `break`. -/
def searchUp (stop : UInt32 → Bool) (bound first : UInt32) : Option UInt32 :=
  if first < bound then
    if stop first then some first else searchUp stop bound (first + 1)
  else none
termination_by bound.toNat - first.toNat
decreasing_by
  rename_i h _
  have hlt : first.toNat < bound.toNat := h
  rw [toNat_succ_of_lt h]
  omega

/-! ## The loop as a run -/

/-- The loop runs its body at the numbers from `first` to `bound`. -/
theorem countUp_eq_runSteps (body : UInt32 → σ → σ) (bound first : UInt32)
    (s : σ) :
    countUp body bound first s =
      runSteps (fun k => body (UInt32.ofNat k))
        (List.range' first.toNat (bound.toNat - first.toNat)) s := by
  induction first, s using countUp.induct body bound with
  | case1 first s h ih =>
    have hlt : first.toNat < bound.toNat := h
    have hrange : bound.toNat - first.toNat =
        bound.toNat - (first.toNat + 1) + 1 := by omega
    rw [countUp, if_pos h, ih, toNat_succ_of_lt h, hrange, List.range'_succ,
      runSteps_cons, UInt32.ofNat_toNat]
  | case2 first s h =>
    have hle : bound.toNat ≤ first.toNat := Nat.not_lt.mp h
    rw [countUp, if_neg h, Nat.sub_eq_zero_of_le hle]
    rfl

/-- A loop from 0. -/
theorem countUp_zero (body : UInt32 → σ → σ) (bound : UInt32) (s : σ) :
    countUp body bound 0 s =
      runSteps (fun k => body (UInt32.ofNat k)) (List.range bound.toNat) s := by
  rw [countUp_eq_runSteps, List.range_eq_range']
  rfl

/-- The numbers of a table that lie between two bounds. -/
theorem filter_range_eq_range' {n first bound : Nat} (hbound : bound ≤ n) :
    (List.range n).filter (fun v => first ≤ v ∧ v < bound) =
      List.range' first (bound - first) := by
  have hmin : ∀ n, (List.range n).filter (fun v => first ≤ v ∧ v < bound) =
      List.range' first (min n bound - first) := by
    intro n
    induction n with
    | zero => simp
    | succ n ih =>
      rw [List.range_succ, List.filter_append, ih]
      by_cases h : first ≤ n ∧ n < bound
      · have hlength : min (n + 1) bound - first =
            min n bound - first + 1 := by omega
        have hlast : first + (min n bound - first) = n := by omega
        rw [hlength, List.range'_1_concat, hlast]
        simp [h]
      · have hlength : min (n + 1) bound - first = min n bound - first := by
          omega
        rw [hlength]
        simp [h]
  rw [hmin, Nat.min_eq_right hbound]

/-- A loop over the rows of a table with `n` rows. -/
theorem countUp_eq_rows (body : UInt32 → σ → σ) {n : Nat}
    {bound first : UInt32} (hbound : bound.toNat ≤ n) (s : σ) :
    countUp body bound first s =
      runSteps (fun v : Fin n => body (UInt32.ofNat v))
        ((List.finRange n).filter fun v =>
          first.toNat ≤ v.val ∧ v.val < bound.toNat) s := by
  have hrows : ((List.finRange n).filter fun v : Fin n =>
      first.toNat ≤ v.val ∧ v.val < bound.toNat).map Fin.val =
        List.range' first.toNat (bound.toNat - first.toNat) := by
    rw [← filter_range_eq_range' hbound, ← List.map_coe_finRange_eq_range,
      List.filter_map]
    rfl
  rw [countUp_eq_runSteps, ← hrows, runSteps, List.foldl_map]
  rfl

/-! ## The search -/

/-- The counters from the next one on. -/
theorem succ_le_iff_of_lt {i bound : UInt32} (h : i < bound) {j : UInt32} :
    i + 1 ≤ j ↔ i ≤ j ∧ i ≠ j := by
  rw [UInt32.le_iff_toNat_le, UInt32.le_iff_toNat_le, toNat_succ_of_lt h,
    Ne, ← UInt32.toNat_inj]
  omega

theorem searchUp_eq_some {stop : UInt32 → Bool} {bound first i : UInt32} :
    searchUp stop bound first = some i ↔
      first ≤ i ∧ i < bound ∧ stop i ∧ ∀ j, first ≤ j → j < i → ¬stop j := by
  induction first using searchUp.induct stop bound with
  | case1 first h hstop =>
    rw [searchUp, if_pos h, if_pos hstop, Option.some.injEq]
    constructor
    · intro h
      subst h
      refine ⟨UInt32.le_refl _, h, hstop, fun j hge hlt => ?_⟩
      exact absurd hlt (UInt32.not_lt.mpr hge)
    · intro h
      obtain ⟨hge, _, _, hfirst⟩ := h
      rcases UInt32.lt_or_eq_of_le hge with hlt | heq
      · exact absurd hstop (hfirst first (UInt32.le_refl _) hlt)
      · exact heq
  | case2 first h hstop ih =>
    have hsucc : ∀ j : UInt32, first + 1 ≤ j ↔ first ≤ j ∧ first ≠ j :=
      fun j => succ_le_iff_of_lt h
    rw [searchUp, if_pos h, if_neg hstop, ih]
    constructor
    · intro h
      obtain ⟨hge, hlt, hi, hfirst⟩ := h
      refine ⟨((hsucc i).mp hge).1, hlt, hi, fun j hj hji => ?_⟩
      by_cases heq : first = j
      · exact heq ▸ hstop
      · exact hfirst j ((hsucc j).mpr ⟨hj, heq⟩) hji
    · intro h
      obtain ⟨hge, hlt, hi, hfirst⟩ := h
      refine ⟨(hsucc i).mpr ⟨hge, fun heq => hstop (heq ▸ hi)⟩, hlt, hi, ?_⟩
      intro j hj hji
      exact hfirst j ((hsucc j).mp hj).1 hji
  | case3 first h =>
    rw [searchUp, if_neg h]
    constructor
    · intro hnone
      exact absurd hnone (by simp)
    · intro h
      obtain ⟨hge, hlt, _⟩ := h
      exact absurd (UInt32.lt_of_le_of_lt hge hlt) h

theorem searchUp_eq_none {stop : UInt32 → Bool} {bound first : UInt32} :
    searchUp stop bound first = none ↔
      ∀ i, first ≤ i → i < bound → ¬stop i := by
  induction first using searchUp.induct stop bound with
  | case1 first h hstop =>
    rw [searchUp, if_pos h, if_pos hstop]
    constructor
    · intro hsome
      exact absurd hsome (by simp)
    · intro hnone
      exact absurd hstop (hnone first (UInt32.le_refl _) h)
  | case2 first h hstop ih =>
    rw [searchUp, if_pos h, if_neg hstop, ih]
    constructor
    · intro hnone i hge hlt
      by_cases heq : first = i
      · exact heq ▸ hstop
      · exact hnone i ((succ_le_iff_of_lt h).mpr ⟨hge, heq⟩) hlt
    · intro hnone i hge hlt
      exact hnone i ((succ_le_iff_of_lt h).mp hge).1 hlt
  | case3 first h =>
    rw [searchUp, if_neg h]
    refine ⟨fun _ i hge hlt => ?_, fun _ => rfl⟩
    exact absurd (UInt32.lt_of_le_of_lt hge hlt) h

end VulkanCompute.Lib
