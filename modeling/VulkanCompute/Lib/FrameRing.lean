import Mathlib.Data.List.Basic
import Mathlib.Data.List.Induction
import VulkanCompute.Lib.Window

/-!
# Frames in a ring of bytes

A buffer of `3 * T` bytes that holds frames of at most `T` bytes, one behind
the other.  A frame that would start behind `2 * T` starts at 0 instead.

* `slice` and `splice` read and write a list of bytes in a byte memory.
* `nextOffset` is where the next frame starts.  Every frame fits
  (`nextOffset_le`), and the room of the next frame does not overlap the last
  one (`nextOffset_apart`).
* `addresses` lists where the bytes of all frames were put.  The room of the
  next frame does not overlap the last `T` of them (`history_apart`), and so
  the memory keeps the last `T` bytes of the stream (`Holds`), which
  `Holds.congr` and `Holds.append` carry on.
-/

namespace VulkanCompute.Lib

/-! ## Slices -/

/-- The bytes `a`, ..., `a + n - 1`. -/
def slice (m : Nat → UInt8) (a n : Nat) : List UInt8 :=
  (List.range' a n).map m

/-- Write the bytes of `data` from `a` on. -/
def splice (m : Nat → UInt8) (a : Nat) (data : List UInt8) : Nat → UInt8 :=
  fun x => if a ≤ x then (data[x - a]?).getD (m x) else m x

@[simp] theorem length_slice (m : Nat → UInt8) (a n : Nat) :
    (slice m a n).length = n := by
  simp [slice]

theorem slice_add (m : Nat → UInt8) (a n k : Nat) :
    slice m a (n + k) = slice m a n ++ slice m (a + n) k := by
  unfold slice
  rw [← List.map_append, List.range'_append_1]

theorem slice_congr {m m' : Nat → UInt8} {a n : Nat}
    (h : ∀ x, a ≤ x → x < a + n → m x = m' x) : slice m a n = slice m' a n := by
  refine List.map_congr_left fun x hx => ?_
  obtain ⟨hlow, hhigh⟩ := List.mem_range'_1.mp hx
  exact h x hlow hhigh

theorem splice_of_outside {m : Nat → UInt8} {a x : Nat} {data : List UInt8}
    (h : x < a ∨ a + data.length ≤ x) : splice m a data x = m x := by
  unfold splice
  split
  · rw [List.getElem?_eq_none (by omega), Option.getD_none]
  · rfl

theorem slice_splice (m : Nat → UInt8) (a : Nat) (data : List UInt8) :
    slice (splice m a data) a data.length = data := by
  apply List.ext_getElem (length_slice _ _ _)
  intro k hk hlt
  simp [slice, splice, hlt]

/-! ## Offsets -/

/-- Where the next frame starts after one of `size` bytes at `offset`. -/
def nextOffset (T offset size : Nat) : Nat :=
  if offset + size > T * 2 then 0 else offset + size

theorem nextOffset_le (T offset size : Nat) :
    nextOffset T offset size ≤ T * 2 := by
  unfold nextOffset
  split <;> omega

/-- The room of the next frame begins behind a frame or ends before it. -/
theorem nextOffset_apart {T offset size : Nat} (hsize : size ≤ T) {x : Nat}
    (hlow : offset ≤ x) (hhigh : x < offset + size) :
    x < nextOffset T offset size ∨ nextOffset T offset size + T ≤ x := by
  unfold nextOffset
  split <;> omega

/-- Where a frame starts that follows frames of the given sizes. -/
def offsetAfter (T : Nat) (sizes : List Nat) : Nat :=
  sizes.foldl (nextOffset T) 0

theorem offsetAfter_append_singleton (T : Nat) (sizes : List Nat)
    (size : Nat) :
    offsetAfter T (sizes ++ [size]) =
      nextOffset T (offsetAfter T sizes) size := by
  rw [offsetAfter, List.foldl_append]
  rfl

theorem offsetAfter_le (T : Nat) (sizes : List Nat) :
    offsetAfter T sizes ≤ T * 2 := by
  induction sizes using List.reverseRecOn with
  | nil => exact Nat.zero_le _
  | append_singleton sizes size _ =>
    rw [offsetAfter_append_singleton]
    exact nextOffset_le ..

/-! ## Addresses -/

/-- Where the bytes of frames of the given sizes are put, the first frame at
`offset`. -/
def addressesFrom (T : Nat) : Nat → List Nat → List Nat
  | _, [] => []
  | offset, size :: sizes =>
    List.range' offset size ++ addressesFrom T (nextOffset T offset size) sizes

def addresses (T : Nat) (sizes : List Nat) : List Nat :=
  addressesFrom T 0 sizes

theorem addressesFrom_append_singleton (T offset : Nat) (sizes : List Nat)
    (size : Nat) :
    addressesFrom T offset (sizes ++ [size]) =
      addressesFrom T offset sizes ++
        List.range' (sizes.foldl (nextOffset T) offset) size := by
  induction sizes generalizing offset with
  | nil => simp [addressesFrom]
  | cons s sizes ih =>
    rw [List.cons_append, addressesFrom, ih, ← List.append_assoc]
    rfl

theorem addresses_append_singleton (T : Nat) (sizes : List Nat)
    (size : Nat) :
    addresses T (sizes ++ [size]) =
      addresses T sizes ++ List.range' (offsetAfter T sizes) size :=
  addressesFrom_append_singleton T 0 sizes size

/-- The frames fill the buffer from 0 on.  What was put there before ends with
a lap that went beyond `2 * T`. -/
theorem addresses_eq_laps (T : Nat) (sizes : List Nat) :
    ∃ older, addresses T sizes =
        older ++ List.range' 0 (offsetAfter T sizes) ∧
      (older = [] ∨
        ∃ front stop, older = front ++ List.range' 0 stop ∧ T * 2 < stop) := by
  induction sizes using List.reverseRecOn with
  | nil => exact ⟨[], rfl, Or.inl rfl⟩
  | append_singleton sizes size ih =>
    obtain ⟨older, hsplit, holder⟩ := ih
    have hlap : addresses T (sizes ++ [size]) =
        older ++ List.range' 0 (offsetAfter T sizes + size) := by
      rw [addresses_append_singleton, hsplit, List.append_assoc,
        ← List.range'_append_1, Nat.zero_add]
    rw [hlap, offsetAfter_append_singleton]
    by_cases hwrap : offsetAfter T sizes + size > T * 2
    · have hnext : nextOffset T (offsetAfter T sizes) size = 0 := if_pos hwrap
      exact ⟨_, by simp [hnext], Or.inr ⟨older, _, rfl, hwrap⟩⟩
    · have hnext : nextOffset T (offsetAfter T sizes) size =
          offsetAfter T sizes + size := if_neg hwrap
      exact ⟨older, by rw [hnext], holder⟩

/-- The room of the next frame does not overlap the last `T` bytes. -/
theorem history_apart {T : Nat} {sizes : List Nat} {x : Nat}
    (hx : x ∈ (addresses T sizes).rtake T) :
    x < offsetAfter T sizes ∨ offsetAfter T sizes + T ≤ x := by
  obtain ⟨older, hsplit, holder⟩ := addresses_eq_laps T sizes
  rw [hsplit, rtake_append, List.mem_append, List.length_range'] at hx
  rcases hx with hbefore | hlap
  · right
    rcases holder with rfl | ⟨front, stop, rfl, hstop⟩
    · simp at hbefore
    -- a lap ends more than `T` bytes behind the room
    · rw [rtake_append_of_le front (by simp; omega), List.rtake,
        List.length_range', List.drop_range', List.mem_range'_1] at hbefore
      omega
  · left
    have hmem := (rtake_suffix _ _).subset hlap
    exact (List.mem_range'_1.mp hmem).2.trans_eq (Nat.zero_add _)

/-! ## What the memory keeps -/

/-- The memory has the last `T` bytes of the frames where they were put. -/
def Holds (T : Nat) (m : Nat → UInt8) (frames : List (List UInt8)) : Prop :=
  ((addresses T (frames.map List.length)).rtake T).map m =
    frames.flatten.rtake T

theorem holds_nil (T : Nat) (m : Nat → UInt8) : Holds T m [] := by
  simp [Holds, addresses, addressesFrom]

variable {T : Nat} {m m' : Nat → UInt8} {frames : List (List UInt8)}

/-- Writes to the room of the next frame do not matter. -/
theorem Holds.congr (h : Holds T m frames)
    (hm : ∀ x, x < offsetAfter T (frames.map List.length) ∨
      offsetAfter T (frames.map List.length) + T ≤ x → m' x = m x) :
    Holds T m' frames := by
  rw [Holds, ← h]
  exact List.map_congr_left fun x hx => hm x (history_apart hx)

/-- A frame has been written to its room. -/
theorem Holds.append (h : Holds T m frames) {frame : List UInt8}
    (hframe : slice m (offsetAfter T (frames.map List.length)) frame.length =
      frame) : Holds T m (frames ++ [frame]) := by
  have hshorter : T - frame.length ≤ T := Nat.sub_le _ _
  have hbefore := congrArg (List.rtake · (T - frame.length)) h
  simp only [map_rtake] at hbefore
  rw [rtake_rtake_of_le _ hshorter, rtake_rtake_of_le _ hshorter,
    ← map_rtake] at hbefore
  rw [Holds, List.map_append, List.map_singleton, addresses_append_singleton,
    rtake_append, List.length_range', List.map_append, hbefore, map_rtake]
  rw [slice] at hframe
  rw [hframe, List.flatten_append, rtake_append]
  simp

/-- A shorter history is kept as well. -/
theorem Holds.rtake_of_le (h : Holds T m frames) {n : Nat} (hn : n ≤ T) :
    ((addresses T (frames.map List.length)).rtake n).map m =
      frames.flatten.rtake n := by
  have hshort := congrArg (List.rtake · n) h
  simp only [map_rtake] at hshort
  rwa [rtake_rtake_of_le _ hn, rtake_rtake_of_le _ hn, ← map_rtake] at hshort

end VulkanCompute.Lib
