import Mathlib.Algebra.Group.Int.Defs
import Mathlib.Algebra.Group.Nat.Defs
import VulkanCompute.Lib.Window

/-!
# The window of samples

`TPerfValue` of `Profiler/Value.h`: a deque of samples that `Push` trims to
`MaxSamples`.  `MaxSamples` is a public signed field, and the loop of `Push`
compares it with the size of the deque narrowed to 32 bits.

* `trim` is the loop.  A `pop_front` on an empty deque has no defined
  result, so `trim` and `push` then answer `none`.
* `trim_eq` is what the loop does for a bound that is not negative and fewer
  than `2 ^ 31` samples: it keeps the last `MaxSamples` of them.  For every
  other input it does something else (`trim_ne_nil`, `le_length_of_trim`).
* `push_slides_iff` puts the two together for one push, and `windowed_iff`
  for every run of pushes and assignments to `MaxSamples`.  `run_pushes` is
  the purpose of the class: with a fixed bound the deque shows the end of the
  history.
-/

namespace VulkanCompute.Profiler

open Lib

/-- The public fields of `TPerfValue`. -/
structure TPerfValue (T : Type*) where
  maxSamples : Int32 := 120
  values : List T := []
deriving DecidableEq

namespace TPerfValue

variable {T : Type*}

/-- `(i32)Values.size()`. -/
def size32 (values : List T) : Int32 := Int32.ofNat values.length

/-- The loop `while ((i32)Values.size() > MaxSamples) Values.pop_front();`,
or `none` when it pops an empty deque. -/
def trim (maxSamples : Int32) : List T → Option (List T)
  | [] => if size32 ([] : List T) > maxSamples then none else some []
  | value :: rest =>
    if size32 (value :: rest) > maxSamples then trim maxSamples rest
    else some (value :: rest)

/-- `Push`. -/
def push (value : T) (p : TPerfValue T) : Option (TPerfValue T) :=
  (trim p.maxSamples (p.values ++ [value])).map fun values =>
    { p with values := values }

/-- `HasValue`. -/
def hasValue (p : TPerfValue T) : Bool := !p.values.isEmpty

/-- `Last`, or `none` for an empty deque, which has no back. -/
def last (p : TPerfValue T) : Option T := p.values.getLast?

/-! ## The narrowed size -/

theorem size32_toInt {values : List T} (h : values.length < 2 ^ 31) :
    (size32 values).toInt = values.length :=
  Int32.toInt_ofNat_of_lt h

/-- At `2 ^ 31` samples the narrowed size is the least value. -/
theorem size32_le_of_length_eq {values : List T}
    (h : values.length = 2 ^ 31) (maxSamples : Int32) :
    ¬size32 values > maxSamples := by
  have hsize : (size32 values).toInt = -2 ^ 31 := by
    rw [size32, h, Int32.toInt_ofNat']
    decide
  have hmax := maxSamples.le_toInt
  rw [gt_iff_lt, Int32.lt_iff_toInt_lt, hsize]
  omega

/-! ## The loop -/

/-- The loop only takes samples off the front. -/
theorem trim_suffix {maxSamples : Int32} {values kept : List T}
    (h : trim maxSamples values = some kept) : kept <:+ values := by
  induction values with
  | nil =>
    rw [trim] at h
    split at h
    · exact absurd h (by simp)
    · exact Option.some.inj h ▸ List.suffix_refl _
  | cons value rest ih =>
    rw [trim] at h
    split at h
    · exact (ih h).trans (List.suffix_cons value rest)
    · exact Option.some.inj h ▸ List.suffix_refl _

/-- The loop ends with the last `maxSamples` samples. -/
theorem trim_eq {maxSamples : Int32} {values : List T}
    (hmax : 0 ≤ maxSamples.toInt) (hlength : values.length < 2 ^ 31) :
    trim maxSamples values = some (values.rtake maxSamples.toInt.toNat) := by
  induction values with
  | nil =>
    have hsize : ¬size32 ([] : List T) > maxSamples := by
      rw [gt_iff_lt, Int32.lt_iff_toInt_lt, size32_toInt hlength]
      exact Int.not_lt.mpr hmax
    rw [trim, if_neg hsize, List.rtake_nil]
  | cons value rest ih =>
    have hrest : rest.length < 2 ^ 31 := by
      rw [List.length_cons] at hlength
      omega
    have hsize : size32 (value :: rest) > maxSamples ↔
        maxSamples.toInt.toNat ≤ rest.length := by
      rw [gt_iff_lt, Int32.lt_iff_toInt_lt, size32_toInt hlength,
        List.length_cons]
      omega
    rw [trim]
    split
    · rename_i hover
      rw [ih hrest, rtake_cons_of_le value (hsize.mp hover)]
    · rename_i hfits
      rw [hsize] at hfits
      rw [rtake_of_length_le]
      rw [List.length_cons]
      omega

/-- Below a negative bound the loop never stops at the empty deque. -/
theorem trim_ne_nil {maxSamples : Int32} (hmax : maxSamples.toInt < 0)
    (values : List T) : trim maxSamples values ≠ some [] := by
  induction values with
  | nil =>
    have hsize : size32 ([] : List T) > maxSamples := by
      rw [gt_iff_lt, Int32.lt_iff_toInt_lt, size32_toInt (by simp)]
      exact hmax
    rw [trim, if_pos hsize]
    simp
  | cons value rest ih =>
    rw [trim]
    split
    · exact ih
    · simp

/-- From `2 ^ 31` samples on the loop keeps that many at least. -/
theorem le_length_of_trim {maxSamples : Int32} {values kept : List T}
    (hlength : 2 ^ 31 ≤ values.length)
    (h : trim maxSamples values = some kept) : 2 ^ 31 ≤ kept.length := by
  induction values with
  | nil => exact absurd hlength (by simp)
  | cons value rest ih =>
    rw [trim] at h
    split at h
    · rename_i hover
      have hne : (value :: rest).length ≠ 2 ^ 31 :=
        fun heq => size32_le_of_length_eq heq maxSamples hover
      rw [List.length_cons] at hlength hne
      exact ih (by omega) h
    · rw [← Option.some.inj h]
      exact hlength

/-! ## One push -/

/-- The number of samples that a push is to keep. -/
def windowSize (p : TPerfValue T) : Nat :=
  min (p.values.length + 1) (max p.maxSamples.toInt 0).toNat

/-- The push ends without popping an empty deque, and leaves the last
samples. -/
def Slides (value : T) (p : TPerfValue T) : Prop :=
  ∃ p', push value p = some p' ∧ p'.maxSamples = p.maxSamples ∧
    p'.values = (p.values ++ [value]).rtake p.windowSize

/-- `MaxSamples` is not negative, and the size of the deque with the new
sample fits `i32`. -/
def Fits (p : TPerfValue T) : Prop :=
  0 ≤ p.maxSamples ∧ p.values.length < 2 ^ 31 - 1

theorem push_of_fits {p : TPerfValue T} (h : p.Fits) (value : T) :
    push value p = some { p with
      values := (p.values ++ [value]).rtake p.maxSamples.toInt.toNat } := by
  have hlength : (p.values ++ [value]).length < 2 ^ 31 := by
    have hroom := h.2
    rw [List.length_append, List.length_singleton]
    omega
  rw [push, trim_eq (Int32.le_iff_toInt_le.mp h.1) hlength]
  rfl

theorem rtake_windowSize (value : T) (p : TPerfValue T) :
    (p.values ++ [value]).rtake p.windowSize =
      (p.values ++ [value]).rtake (max p.maxSamples.toInt 0).toNat := by
  have h := rtake_min_length (p.values ++ [value])
    (max p.maxSamples.toInt 0).toNat
  rw [List.length_append] at h
  exact h

/-- A push slides the window exactly when the bound is not negative and the
new size fits `i32`. -/
theorem push_slides_iff (value : T) (p : TPerfValue T) :
    p.Slides value ↔ p.Fits := by
  constructor
  · intro h
    obtain ⟨p', hpush, _, hvalues⟩ := h
    obtain ⟨kept, htrim, rfl⟩ := Option.map_eq_some_iff.mp hpush
    have hkept : kept = (p.values ++ [value]).rtake p.windowSize := hvalues
    have hmax : 0 ≤ p.maxSamples.toInt := by
      by_contra hneg
      have hzero : p.windowSize = 0 := by
        unfold windowSize
        omega
      rw [hzero, List.rtake_zero] at hkept
      exact trim_ne_nil (by omega) _ (hkept ▸ htrim)
    refine ⟨Int32.le_iff_toInt_le.mpr hmax, ?_⟩
    by_contra hlong
    have hlength : 2 ^ 31 ≤ (p.values ++ [value]).length := by
      rw [List.length_append, List.length_singleton]
      omega
    have hge := le_length_of_trim hlength htrim
    have hbound := p.maxSamples.toInt_lt
    rw [hkept, length_rtake] at hge
    unfold windowSize at hge
    omega
  · intro hfits
    refine ⟨_, push_of_fits hfits value, rfl, ?_⟩
    have hmax : max p.maxSamples.toInt 0 = p.maxSamples.toInt :=
      Int.max_eq_left (Int32.le_iff_toInt_le.mp hfits.1)
    rw [rtake_windowSize, hmax]

/-- After a push with a positive bound the last sample is the new one. -/
theorem last_of_push {p p' : TPerfValue T} (h : p.Fits)
    (hmax : 0 < p.maxSamples) {value : T} (hpush : push value p = some p') :
    p'.last = some value ∧ p'.hasValue := by
  rw [push_of_fits h, Option.some.injEq] at hpush
  have hpos : ∃ n, p.maxSamples.toInt.toNat = n + 1 := by
    have hlt : 0 < p.maxSamples.toInt := Int32.lt_iff_toInt_lt.mp hmax
    exact ⟨p.maxSamples.toInt.toNat - 1, by omega⟩
  obtain ⟨n, hn⟩ := hpos
  rw [← hpush, hn]
  simp only [List.rtake_concat_succ]
  constructor
  · exact List.getLast?_concat
  · simp [hasValue]

/-! ## Runs -/

/-- What a program does to a `TPerfValue`: `Push`, and an assignment to the
public field `MaxSamples`. -/
inductive Op (T : Type*) where
  | push (value : T)
  | setMaxSamples (maxSamples : Int32)

def step (p : TPerfValue T) : Op T → Option (TPerfValue T)
  | .push value => push value p
  | .setMaxSamples maxSamples => some { p with maxSamples := maxSamples }

/-- A run, or `none` when one of its pushes pops an empty deque. -/
def run (ops : List (Op T)) (p : TPerfValue T) : Option (TPerfValue T) :=
  ops.foldlM step p

/-- The history of the pushed samples. -/
def pushed : List (Op T) → List T
  | [] => []
  | .push value :: ops => value :: pushed ops
  | .setMaxSamples _ :: ops => pushed ops

theorem run_append (ops ops' : List (Op T)) (p : TPerfValue T) :
    run (ops ++ ops') p = (run ops p).bind (run ops') :=
  List.foldlM_append

theorem run_singleton (op : Op T) (p : TPerfValue T) :
    run [op] p = p.step op := by
  rw [run, List.foldlM_cons]
  exact bind_pure _

theorem run_append_singleton {ops : List (Op T)} {p q : TPerfValue T}
    (h : run ops p = some q) (op : Op T) :
    run (ops ++ [op]) p = q.step op := by
  rw [run_append, h, Option.bind_some, run_singleton]

theorem pushed_append (ops ops' : List (Op T)) :
    pushed (ops ++ ops') = pushed ops ++ pushed ops' := by
  induction ops with
  | nil => rfl
  | cons op ops ih =>
    cases op with
    | push value =>
      show value :: pushed (ops ++ ops') = value :: (pushed ops ++ pushed ops')
      rw [ih]
    | setMaxSamples maxSamples => exact ih

/-- A step keeps the deque a part of the history. -/
theorem step_suffix {p p' : TPerfValue T} {op : Op T} {history : List T}
    (hstep : p.step op = some p') (h : p.values <:+ history) :
    p'.values <:+ history ++ pushed [op] := by
  cases op with
  | push value =>
    obtain ⟨kept, htrim, rfl⟩ := Option.map_eq_some_iff.mp hstep
    have happend : p.values ++ [value] <:+ history ++ [value] := by
      obtain ⟨front, rfl⟩ := h
      exact ⟨front, (List.append_assoc ..).symm⟩
    exact (trim_suffix htrim).trans happend
  | setMaxSamples maxSamples =>
    rw [← Option.some.inj hstep]
    show p.values <:+ history ++ []
    rw [List.append_nil]
    exact h

/-- However the bound is set, the deque is the end of the history. -/
theorem run_suffix {ops : List (Op T)} {p : TPerfValue T}
    (h : run ops {} = some p) : p.values <:+ pushed ops := by
  induction ops using List.reverseRecOn generalizing p with
  | nil =>
    rw [← Option.some.inj h]
    exact List.suffix_refl _
  | append_singleton ops op ih =>
    rw [run_append] at h
    obtain ⟨q, hq, hstep⟩ := Option.bind_eq_some_iff.mp h
    rw [run_singleton] at hstep
    rw [pushed_append]
    exact step_suffix hstep (ih hq)

/-- The run goes through, every push in it slides the window, and the deque is
the end of the history all along. -/
structure Windowed (ops : List (Op T)) : Prop where
  suffix : ∀ pre post, ops = pre ++ post →
    ∃ p, run pre {} = some p ∧ p.values <:+ pushed pre
  slides : ∀ pre value post, ops = pre ++ .push value :: post →
    ∀ p, run pre {} = some p → p.Slides value

/-- Every push of the run is made with a bound that is not negative and a size
that fits `i32`. -/
def AllFit (ops : List (Op T)) : Prop :=
  ∀ pre value post, ops = pre ++ .push value :: post →
    ∀ p, run pre {} = some p → p.Fits

theorem AllFit.run_isSome {ops : List (Op T)} (h : AllFit ops) :
    ∀ pre post, ops = pre ++ post → ∃ p, run pre {} = some p := by
  intro pre
  induction pre using List.reverseRecOn with
  | nil => exact fun _ _ => ⟨{}, rfl⟩
  | append_singleton pre op ih =>
    intro post hsplit
    rw [List.append_assoc] at hsplit
    obtain ⟨p, hp⟩ := ih _ hsplit
    rw [run_append_singleton hp]
    cases op with
    | push value => exact ⟨_, push_of_fits (h pre value post hsplit p hp) value⟩
    | setMaxSamples maxSamples => exact ⟨_, rfl⟩

/-- A run of pushes and assignments to `MaxSamples` slides the window at every
push exactly when every push finds a bound that is not negative and a size
that fits `i32`. -/
theorem windowed_iff (ops : List (Op T)) : Windowed ops ↔ AllFit ops := by
  constructor
  · intro h pre value post hsplit p hp
    exact (push_slides_iff value p).mp (h.slides pre value post hsplit p hp)
  · intro h
    constructor
    · intro pre post hsplit
      obtain ⟨p, hp⟩ := h.run_isSome pre post hsplit
      exact ⟨p, hp, run_suffix hp⟩
    · intro pre value post hsplit p hp
      exact (push_slides_iff value p).mpr (h pre value post hsplit p hp)

/-- With the bound -1 the first push empties the deque and pops again. -/
theorem push_pops_empty :
    run [.setMaxSamples (-1), .push 5] ({} : TPerfValue Nat) = none ∧
      ¬Windowed [.setMaxSamples (-1), .push 5] := by
  have hnone : run [.setMaxSamples (-1), .push 5] ({} : TPerfValue Nat) =
      none := by decide
  refine ⟨hnone, fun h => ?_⟩
  obtain ⟨p, hp, _⟩ := h.suffix [.setMaxSamples (-1), .push 5] [] rfl
  rw [hnone] at hp
  exact absurd hp (by simp)

/-- While the bound stays the same, the deque holds the last samples of the
history. -/
theorem run_pushes {maxSamples : Int32} (hmax : 0 ≤ maxSamples)
    (hroom : maxSamples.toInt < 2 ^ 31 - 1) (history : List T) :
    run (history.map .push) { maxSamples := maxSamples } =
      some { maxSamples := maxSamples
             values := history.rtake maxSamples.toInt.toNat } := by
  induction history using List.reverseRecOn with
  | nil =>
    rw [List.rtake_nil]
    rfl
  | append_singleton history value ih =>
    rw [List.map_append, List.map_singleton, run_append_singleton ih]
    have hfits : Fits (T := T)
        { maxSamples := maxSamples
          values := history.rtake maxSamples.toInt.toNat } := by
      refine ⟨hmax, ?_⟩
      rw [length_rtake]
      omega
    show push value _ = _
    rw [push_of_fits hfits, rtake_append_rtake]

end TPerfValue

end VulkanCompute.Profiler
