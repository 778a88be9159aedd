import Mathlib.Data.List.Basic
import Mathlib.Data.List.Induction

/-!
# Logs of acquisitions and releases

A log tells, entry by entry, which key is acquired and which is released.  It
is `Orderly` when for every key the entries alternate: acquire, release,
acquire, and so on, starting with an acquisition.

`Tracks log P` is the invariant that proves a log orderly: `P` says which
keys are held at its end.  A log is extended by `Tracks.acquire` at a key
that is not held, and by `Tracks.release` at one that is.  The last section
splits `P` into a frame and a part that the entry is about.
-/

namespace VulkanCompute.Lib

inductive Bracket (κ : Type*) where
  | acquire (k : κ)
  | release (k : κ)
deriving DecidableEq

variable {κ : Type*} [DecidableEq κ]

/-! ## Alternation -/

/-- The marks are `next`, `!next`, `next`, and so on. -/
def AlternatesFrom : Bool → List Bool → Prop
  | _, [] => True
  | next, mark :: marks => mark = next ∧ AlternatesFrom (!next) marks

/-- `true` for an acquisition of `k`, `false` for a release of `k`. -/
def Bracket.mark (k : κ) : Bracket κ → Option Bool
  | .acquire k' => if k' = k then some true else none
  | .release k' => if k' = k then some false else none

def marks (k : κ) (log : List (Bracket κ)) : List Bool :=
  log.filterMap (Bracket.mark k)

def Orderly (log : List (Bracket κ)) : Prop :=
  ∀ k, AlternatesFrom true (marks k log)

/-- Whether the last entry about `k` is an acquisition. -/
def held (k : κ) (log : List (Bracket κ)) : Bool :=
  (marks k log).getLastD false

theorem alternatesFrom_append_singleton (next : Bool) (marks : List Bool)
    (mark : Bool) :
    AlternatesFrom next (marks ++ [mark]) ↔
      AlternatesFrom next marks ∧ mark = !(marks.getLastD !next) := by
  induction marks generalizing next with
  | nil => simp [AlternatesFrom]
  | cons m marks ih =>
    rw [List.cons_append, AlternatesFrom, AlternatesFrom, ih, and_assoc]
    apply and_congr_right
    intro hm
    subst hm
    cases marks with
    | nil => simp
    | cons m' marks => rfl

theorem marks_append_singleton (k : κ) (log : List (Bracket κ))
    (e : Bracket κ) :
    marks k (log ++ [e]) = marks k log ++ (e.mark k).toList := by
  unfold marks
  rw [List.filterMap_append]
  cases h : e.mark k with
  | none => simp [h]
  | some m => simp [h]

theorem held_append_acquire (k k' : κ) (log : List (Bracket κ)) :
    held k' (log ++ [.acquire k]) = (decide (k = k') || held k' log) := by
  unfold held
  rw [marks_append_singleton]
  by_cases hk : k = k'
  · simp [Bracket.mark, hk]
  · simp [Bracket.mark, hk]

theorem held_append_release (k k' : κ) (log : List (Bracket κ)) :
    held k' (log ++ [.release k]) = (!decide (k = k') && held k' log) := by
  unfold held
  rw [marks_append_singleton]
  by_cases hk : k = k'
  · simp [Bracket.mark, hk]
  · simp [Bracket.mark, hk]

/-- A key may be acquired when it is not held. -/
theorem Orderly.acquire {log : List (Bracket κ)} {k : κ} (h : Orderly log)
    (hfree : held k log = false) : Orderly (log ++ [.acquire k]) := by
  intro k'
  rw [marks_append_singleton]
  by_cases hk : k = k'
  · subst hk
    rw [Bracket.mark, if_pos rfl, Option.toList_some,
      alternatesFrom_append_singleton]
    refine ⟨h k, ?_⟩
    show true = !held k log
    rw [hfree]
    rfl
  · rw [Bracket.mark, if_neg hk, Option.toList_none, List.append_nil]
    exact h k'

/-- A key may be released when it is held. -/
theorem Orderly.release {log : List (Bracket κ)} {k : κ} (h : Orderly log)
    (hheld : held k log = true) : Orderly (log ++ [.release k]) := by
  intro k'
  rw [marks_append_singleton]
  by_cases hk : k = k'
  · subst hk
    rw [Bracket.mark, if_pos rfl, Option.toList_some,
      alternatesFrom_append_singleton]
    refine ⟨h k, ?_⟩
    show false = !held k log
    rw [hheld]
    rfl
  · rw [Bracket.mark, if_neg hk, Option.toList_none, List.append_nil]
    exact h k'

/-- And only then. -/
theorem Orderly.held_of_release {log : List (Bracket κ)} {k : κ}
    (h : Orderly (log ++ [.release k])) : held k log = true := by
  have hk := h k
  rw [marks_append_singleton, Bracket.mark, if_pos rfl, Option.toList_some,
    alternatesFrom_append_singleton] at hk
  have hlast : false = !held k log := hk.2
  rw [← Bool.not_not (held k log), ← hlast]
  rfl

theorem Orderly.free_of_acquire {log : List (Bracket κ)} {k : κ}
    (h : Orderly (log ++ [.acquire k])) : held k log = false := by
  have hk := h k
  rw [marks_append_singleton, Bracket.mark, if_pos rfl, Option.toList_some,
    alternatesFrom_append_singleton] at hk
  have hlast : true = !held k log := hk.2
  rw [← Bool.not_not (held k log), ← hlast]
  rfl

theorem Orderly.of_append {log log' : List (Bracket κ)}
    (h : Orderly (log ++ log')) : Orderly log := by
  intro k
  have hk := h k
  rw [marks, List.filterMap_append] at hk
  generalize log'.filterMap (Bracket.mark k) = later at hk
  change AlternatesFrom true (marks k log ++ later) at hk
  induction later using List.reverseRecOn with
  | nil => rwa [List.append_nil] at hk
  | append_singleton later mark ih =>
    rw [← List.append_assoc, alternatesFrom_append_singleton] at hk
    exact ih hk.1

/-! ## Other keys -/

def Bracket.key : Bracket κ → κ
  | .acquire k => k
  | .release k => k

def Bracket.map {κ' : Type*} (f : κ → κ') : Bracket κ → Bracket κ'
  | .acquire k => .acquire (f k)
  | .release k => .release (f k)

/-- A key that is held has been acquired. -/
theorem exists_key_of_held {log : List (Bracket κ)} {k : κ}
    (h : held k log = true) : ∃ e ∈ log, e.key = k := by
  induction log using List.reverseRecOn with
  | nil => exact absurd h Bool.false_ne_true
  | append_singleton log e ih =>
    by_cases hk : e.key = k
    · exact ⟨e, List.mem_append_right _ List.mem_cons_self, hk⟩
    · have hold : held k log = true := by
        cases e with
        | acquire k' => simpa [held_append_acquire, show k' ≠ k from hk] using h
        | release k' => simpa [held_append_release, show k' ≠ k from hk] using h
      obtain ⟨e', he', hkey⟩ := ih hold
      exact ⟨e', List.mem_append_left _ he', hkey⟩

section Map

variable {κ' : Type*} [DecidableEq κ'] {f : κ → κ'} {P : κ → Prop}
  (hinj : ∀ k k', P k → P k' → f k = f k' → k = k')
  {log : List (Bracket κ)}

include hinj

theorem held_map (hkeys : ∀ e ∈ log, P e.key) {k : κ} (hk : P k) :
    held (f k) (log.map (Bracket.map f)) = held k log := by
  induction log using List.reverseRecOn with
  | nil => rfl
  | append_singleton log e ih =>
    have hrest := ih fun e he => hkeys e (List.mem_append_left _ he)
    have he := hkeys e (List.mem_append_right _ List.mem_cons_self)
    have hiff : decide (f e.key = f k) = decide (e.key = k) :=
      decide_eq_decide.mpr ⟨hinj _ _ he hk, congrArg f⟩
    rw [List.map_append, List.map_singleton]
    cases e with
    | acquire k' =>
      rw [Bracket.map, held_append_acquire, held_append_acquire, hrest]
      exact congrArg (· || _) hiff
    | release k' =>
      rw [Bracket.map, held_append_release, held_append_release, hrest]
      exact congrArg (!· && _) hiff

/-- Renaming the keys keeps a log orderly. -/
theorem Orderly.map (h : Orderly log) (hkeys : ∀ e ∈ log, P e.key) :
    Orderly (log.map (Bracket.map f)) := by
  induction log using List.reverseRecOn with
  | nil => exact fun _ => trivial
  | append_singleton log e ih =>
    have hold : ∀ e ∈ log, P e.key :=
      fun e he => hkeys e (List.mem_append_left _ he)
    have he := hkeys e (List.mem_append_right _ List.mem_cons_self)
    have hrest := ih h.of_append hold
    rw [List.map_append, List.map_singleton]
    cases e with
    | acquire k =>
      exact hrest.acquire ((held_map hinj hold he).trans h.free_of_acquire)
    | release k =>
      exact hrest.release ((held_map hinj hold he).trans h.held_of_release)

end Map

/-! ## The invariant -/

/-- The log is orderly, and the keys held at its end are those of `P`. -/
structure Tracks (log : List (Bracket κ)) (P : κ → Prop) : Prop where
  orderly : Orderly log
  held_iff : ∀ k, held k log = true ↔ P k

theorem Tracks.nil : Tracks ([] : List (Bracket κ)) fun _ => False where
  orderly := fun _ => trivial
  held_iff := fun _ => by simp [held, marks]

theorem Tracks.congr {log : List (Bracket κ)} {P Q : κ → Prop}
    (h : Tracks log P) (hPQ : ∀ k, P k ↔ Q k) : Tracks log Q where
  orderly := h.orderly
  held_iff := fun k => (h.held_iff k).trans (hPQ k)

theorem Tracks.acquire {log : List (Bracket κ)} {P : κ → Prop} {k : κ}
    (h : Tracks log P) (hk : ¬P k) :
    Tracks (log ++ [.acquire k]) fun k' => k' = k ∨ P k' where
  orderly := by
    apply h.orderly.acquire
    rw [← Bool.not_eq_true, h.held_iff]
    exact hk
  held_iff := by
    intro k'
    rw [held_append_acquire, Bool.or_eq_true, h.held_iff, decide_eq_true_eq,
      eq_comm]

theorem Tracks.release {log : List (Bracket κ)} {P : κ → Prop} {k : κ}
    (h : Tracks log P) (hk : P k) :
    Tracks (log ++ [.release k]) fun k' => k' ≠ k ∧ P k' where
  orderly := h.orderly.release ((h.held_iff k).mpr hk)
  held_iff := by
    intro k'
    rw [held_append_release, Bool.and_eq_true, h.held_iff, Bool.not_eq_true',
      decide_eq_false_iff_not, ne_comm]

/-! ## Frames

The held keys fall into those of a frame `F`, which stays as it is, and the
own keys `P`. -/

theorem Tracks.acquire_frame {log : List (Bracket κ)} {F P : κ → Prop} {k : κ}
    (h : Tracks log fun k' => F k' ∨ P k') (hF : ¬F k) (hP : ¬P k) :
    Tracks (log ++ [.acquire k]) fun k' => F k' ∨ k' = k ∨ P k' := by
  apply (h.acquire (not_or.mpr ⟨hF, hP⟩)).congr
  intro k'
  exact or_left_comm

theorem Tracks.release_frame {log : List (Bracket κ)} {F P : κ → Prop} {k : κ}
    (h : Tracks log fun k' => F k' ∨ P k') (hF : ¬F k) (hP : P k) :
    Tracks (log ++ [.release k]) fun k' => F k' ∨ k' ≠ k ∧ P k' := by
  apply (h.release (Or.inr hP)).congr
  intro k'
  constructor
  · intro ⟨hne, hheld⟩
    exact hheld.imp id fun hP' => ⟨hne, hP'⟩
  · intro hheld
    rcases hheld with hF' | ⟨hne, hP'⟩
    · refine ⟨?_, Or.inl hF'⟩
      intro heq
      subst heq
      exact hF hF'
    · exact ⟨hne, Or.inr hP'⟩

end VulkanCompute.Lib
