import Mathlib.Algebra.BigOperators.Group.Finset.Basic
import Mathlib.Data.UInt
import VulkanCompute.Profiler.MemEvent

/-!
# The memory table of the server

`MemData` has what the server knows about a memory pool: every allocation it
has heard of (`data`), which of them are open (`active`), in which order the
others were freed (`frees`), and the bytes in use (`usage`).

`WellFormed` is the invariant, kept by an allocation of an address that is not
active (`WellFormed.pushAlloc`) and by the deallocation of an active one
(`WellFormed.pushFree`): every event is either active, for one address, or
listed once in `frees`, and `usage` is the sum of the active sizes.
-/

namespace VulkanCompute.Profiler

open Lib Finset

/-- `MemData`.  `plot` has the points of the plot of the usage, and `[]` stands
for no plot. -/
structure MemData where
  data : List MemEvent
  frees : List Nat
  active : UInt64 → Option Nat
  high : UInt64
  low : UInt64
  usage : UInt64
  plot : List (Int64 × UInt64)
  name : UInt64

namespace MemData

def fresh (name : UInt64) : MemData where
  data := []
  frees := []
  active := fun _ => none
  high := 0
  low := 0xFFFFFFFFFFFFFFFF
  usage := 0
  plot := []
  name := name

/-- The table after an allocation. -/
def pushAlloc (m : MemData) (ptr size : UInt64) (time : Int64)
    (thread : UInt16) : MemData :=
  { m with
    active := Function.update m.active ptr (some m.data.length)
    data := m.data ++ [.allocated ptr size time thread]
    low := min m.low ptr
    high := max m.high (ptr + size)
    usage := m.usage + size }

/-- The table after the deallocation of the event `i`. -/
def pushFree (m : MemData) (ptr : UInt64) (i : Nat) (event : MemEvent)
    (time : Int64) (thread : UInt16) : MemData :=
  { m with
    frees := m.frees ++ [i]
    data := m.data.set i (event.setTimeThreadFree time thread)
    usage := m.usage - event.size
    active := Function.update m.active ptr none }

/-- `MemAllocChanged`, `none` when its assertion fails.  `firstTime` is
`GetFirstTime`. -/
def memAllocChanged (m : MemData) (firstTime time : Int64) : Option MemData :=
  match m.plot.getLast? with
  | none => some { m with plot := [(firstTime, 0), (time, m.usage)] }
  | some last =>
    if last.1 ≤ time then some { m with plot := m.plot ++ [(time, m.usage)] }
    else none

/-! ## Open allocations -/

/-- The open allocation at an address. -/
def eventAt (m : MemData) (ptr : UInt64) : Option MemEvent :=
  (m.active ptr).bind (m.data[·]?)

/-- Its size, and 0 when there is none. -/
def sizeAt (m : MemData) (ptr : UInt64) : UInt64 :=
  ((m.eventAt ptr).map MemEvent.size).getD 0

structure WellFormed (m : MemData) : Prop where
  lt : ∀ ptr i, m.active ptr = some i → i < m.data.length
  inj : ∀ ptr ptr' i, m.active ptr = some i → m.active ptr' = some i →
    ptr = ptr'
  frees_nodup : m.frees.Nodup
  mem_frees : ∀ i, i ∈ m.frees ↔
    i < m.data.length ∧ ∀ ptr, m.active ptr ≠ some i
  usage : ∃ ptrs : Finset UInt64, (∀ ptr, ptr ∈ ptrs ↔ (m.active ptr).isSome) ∧
    m.usage = ∑ ptr ∈ ptrs, m.sizeAt ptr

theorem wellFormed_fresh (name : UInt64) : (fresh name).WellFormed where
  lt := fun _ _ h => absurd h nofun
  inj := fun _ _ _ h => absurd h nofun
  frees_nodup := .nil
  mem_frees := fun i => ⟨fun h => absurd h List.not_mem_nil,
    fun h => absurd h.1 (Nat.not_lt_zero i)⟩
  usage := ⟨∅, fun _ => ⟨fun h => absurd h (notMem_empty _), nofun⟩, rfl⟩

variable {m : MemData} {ptr ptr' : UInt64}

/-! ### Allocation -/

section Alloc

variable (size : UInt64) (time : Int64) (thread : UInt16)

theorem pushAlloc_active_of_ne (h : ptr' ≠ ptr) :
    (m.pushAlloc ptr size time thread).active ptr' = m.active ptr' :=
  Function.update_of_ne h _ _

theorem pushAlloc_active_self :
    (m.pushAlloc ptr size time thread).active ptr = some m.data.length :=
  Function.update_self ..

theorem pushAlloc_eventAt_self :
    (m.pushAlloc ptr size time thread).eventAt ptr =
      some (.allocated ptr size time thread) := by
  rw [eventAt, pushAlloc_active_self]
  exact List.getElem?_concat_length ..

theorem WellFormed.pushAlloc_eventAt_of_ne (h : m.WellFormed)
    (hne : ptr' ≠ ptr) :
    (m.pushAlloc ptr size time thread).eventAt ptr' = m.eventAt ptr' := by
  rw [eventAt, pushAlloc_active_of_ne size time thread hne, eventAt]
  cases hactive : m.active ptr' with
  | none => rfl
  | some i => exact List.getElem?_append_left (h.lt ptr' i hactive)

theorem length_data_pushAlloc :
    (m.pushAlloc ptr size time thread).data.length = m.data.length + 1 :=
  List.length_append

theorem pushAlloc_active_iff (i : Nat) :
    (m.pushAlloc ptr size time thread).active ptr' = some i ↔
      ptr' = ptr ∧ i = m.data.length ∨ ptr' ≠ ptr ∧ m.active ptr' = some i := by
  by_cases heq : ptr' = ptr
  · subst heq
    rw [pushAlloc_active_self]
    simp [eq_comm]
  · rw [pushAlloc_active_of_ne size time thread heq]
    simp [heq]

theorem WellFormed.pushAlloc_inj (h : m.WellFormed) {p q : UInt64} {i : Nat}
    (hp : (m.pushAlloc ptr size time thread).active p = some i)
    (hq : (m.pushAlloc ptr size time thread).active q = some i) : p = q := by
  rcases (pushAlloc_active_iff ..).mp hp with ⟨rfl, rfl⟩ | ⟨-, hold⟩
  · rcases (pushAlloc_active_iff ..).mp hq with ⟨rfl, -⟩ | ⟨-, hold⟩
    · rfl
    · exact absurd (h.lt q _ hold) (Nat.lt_irrefl _)
  · rcases (pushAlloc_active_iff ..).mp hq with ⟨-, rfl⟩ | ⟨-, hold'⟩
    · exact absurd (h.lt p _ hold) (Nat.lt_irrefl _)
    · exact h.inj p q i hold hold'

/-- The new place is not free, and the others are as before. -/
theorem WellFormed.pushAlloc_mem_frees (h : m.WellFormed)
    (hfree : m.active ptr = none) (i : Nat) :
    i ∈ m.frees ↔ i < m.data.length + 1 ∧
      ∀ ptr', (m.pushAlloc ptr size time thread).active ptr' ≠ some i := by
  rw [h.mem_frees]
  constructor
  · intro ⟨hlt, hnot⟩
    refine ⟨Nat.lt_succ_of_lt hlt, fun ptr' hi => ?_⟩
    rcases (pushAlloc_active_iff ..).mp hi with ⟨-, rfl⟩ | ⟨-, hold⟩
    · exact Nat.lt_irrefl _ hlt
    · exact hnot ptr' hold
  · intro ⟨hlt, hnot⟩
    have hne : i ≠ m.data.length := by
      rintro rfl
      exact hnot ptr (pushAlloc_active_self size time thread)
    refine ⟨by omega, fun ptr' hi => hnot ptr' ?_⟩
    refine (pushAlloc_active_iff ..).mpr (Or.inr ⟨?_, hi⟩)
    rintro rfl
    rw [hfree] at hi
    exact absurd hi nofun

theorem WellFormed.pushAlloc_usage (h : m.WellFormed)
    (hfree : m.active ptr = none) (hsize : size.toNat < 2 ^ 48) :
    ∃ ptrs : Finset UInt64,
      (∀ ptr', ptr' ∈ ptrs ↔
        ((m.pushAlloc ptr size time thread).active ptr').isSome) ∧
      m.usage + size =
        ∑ ptr' ∈ ptrs, (m.pushAlloc ptr size time thread).sizeAt ptr' := by
  obtain ⟨ptrs, hmem, husage⟩ := h.usage
  have hnew : ptr ∉ ptrs := by
    rw [hmem, hfree]
    nofun
  have hself : (m.pushAlloc ptr size time thread).sizeAt ptr = size := by
    rw [sizeAt, pushAlloc_eventAt_self]
    exact MemEvent.size_allocated hsize ..
  have hrest : ∀ ptr' ∈ ptrs,
      (m.pushAlloc ptr size time thread).sizeAt ptr' = m.sizeAt ptr' := by
    intro ptr' hptr'
    have hne : ptr' ≠ ptr := fun heq => hnew (heq ▸ hptr')
    rw [sizeAt, h.pushAlloc_eventAt_of_ne size time thread hne, sizeAt]
  refine ⟨insert ptr ptrs, fun ptr' => ?_, ?_⟩
  · rw [mem_insert, hmem]
    by_cases heq : ptr' = ptr
    · subst heq
      simp [pushAlloc_active_self]
    · simp [heq, pushAlloc_active_of_ne]
  · rw [sum_insert hnew, hself, sum_congr rfl hrest, husage, add_comm]

theorem WellFormed.pushAlloc (h : m.WellFormed) (hfree : m.active ptr = none)
    (hsize : size.toNat < 2 ^ 48) :
    (m.pushAlloc ptr size time thread).WellFormed where
  lt := fun ptr' i hi => by
    rw [length_data_pushAlloc]
    rcases (pushAlloc_active_iff ..).mp hi with ⟨-, rfl⟩ | ⟨-, hold⟩
    · exact Nat.lt_succ_self _
    · exact Nat.lt_succ_of_lt (h.lt ptr' i hold)
  inj := fun _ _ _ => h.pushAlloc_inj size time thread
  frees_nodup := h.frees_nodup
  mem_frees := fun i => by
    rw [length_data_pushAlloc]
    exact h.pushAlloc_mem_frees size time thread hfree i
  usage := h.pushAlloc_usage size time thread hfree hsize

end Alloc

/-! ### Deallocation -/

section Free

variable {i : Nat} {event : MemEvent} (time : Int64) (thread : UInt16)

theorem WellFormed.exists_event (h : m.WellFormed)
    (hactive : m.active ptr = some i) : ∃ event, m.data[i]? = some event :=
  ⟨_, List.getElem?_eq_getElem (h.lt ptr i hactive)⟩

theorem pushFree_active_of_ne (h : ptr' ≠ ptr) :
    (m.pushFree ptr i event time thread).active ptr' = m.active ptr' :=
  Function.update_of_ne h _ _

theorem pushFree_active_self :
    (m.pushFree ptr i event time thread).active ptr = none :=
  Function.update_self ..

theorem pushFree_eventAt_self :
    (m.pushFree ptr i event time thread).eventAt ptr = none := by
  rw [eventAt, pushFree_active_self]
  rfl

theorem WellFormed.pushFree_eventAt_of_ne (h : m.WellFormed)
    (hactive : m.active ptr = some i) (hne : ptr' ≠ ptr) :
    (m.pushFree ptr i event time thread).eventAt ptr' = m.eventAt ptr' := by
  rw [eventAt, pushFree_active_of_ne time thread hne, eventAt]
  cases hactive' : m.active ptr' with
  | none => rfl
  | some j =>
    have hij : i ≠ j := by
      rintro rfl
      exact hne (h.inj ptr' ptr i hactive' hactive)
    exact List.getElem?_set_ne hij

theorem length_data_pushFree :
    (m.pushFree ptr i event time thread).data.length = m.data.length :=
  List.length_set

theorem pushFree_active_iff (j : Nat) :
    (m.pushFree ptr i event time thread).active ptr' = some j ↔
      ptr' ≠ ptr ∧ m.active ptr' = some j := by
  by_cases heq : ptr' = ptr
  · subst heq
    rw [pushFree_active_self]
    simp
  · rw [pushFree_active_of_ne time thread heq]
    simp [heq]

/-- A place that is in use is not free. -/
theorem WellFormed.not_mem_frees (h : m.WellFormed)
    (hactive : m.active ptr = some i) : i ∉ m.frees :=
  fun hi => ((h.mem_frees i).mp hi).2 ptr hactive

/-- The place of the event becomes free, and the others are as before. -/
theorem WellFormed.pushFree_mem_frees (h : m.WellFormed)
    (hactive : m.active ptr = some i) (j : Nat) :
    j ∈ m.frees ++ [i] ↔ j < m.data.length ∧
      ∀ ptr', (m.pushFree ptr i event time thread).active ptr' ≠ some j := by
  rw [List.mem_append, List.mem_singleton, h.mem_frees]
  constructor
  · rintro (⟨hlt, hnot⟩ | rfl)
    · exact ⟨hlt, fun ptr' hj =>
        hnot ptr' ((pushFree_active_iff ..).mp hj).2⟩
    · refine ⟨h.lt ptr j hactive, fun ptr' hj => ?_⟩
      obtain ⟨hne, hold⟩ := (pushFree_active_iff ..).mp hj
      exact hne (h.inj ptr' ptr j hold hactive)
  · intro ⟨hlt, hnot⟩
    by_cases heq : j = i
    · exact Or.inr heq
    · refine Or.inl ⟨hlt, fun ptr' hj => hnot ptr' ?_⟩
      refine (pushFree_active_iff ..).mpr ⟨?_, hj⟩
      rintro rfl
      exact heq (Option.some.inj (hj.symm.trans hactive))

theorem WellFormed.pushFree_usage (h : m.WellFormed)
    (hactive : m.active ptr = some i) (hevent : m.data[i]? = some event) :
    ∃ ptrs : Finset UInt64,
      (∀ ptr', ptr' ∈ ptrs ↔
        ((m.pushFree ptr i event time thread).active ptr').isSome) ∧
      m.usage - event.size =
        ∑ ptr' ∈ ptrs, (m.pushFree ptr i event time thread).sizeAt ptr' := by
  obtain ⟨ptrs, hmem, husage⟩ := h.usage
  have hptr : ptr ∈ ptrs := by
    rw [hmem, hactive]
    rfl
  have hself : m.sizeAt ptr = event.size := by
    rw [sizeAt, eventAt, hactive, Option.bind_some, hevent]
    rfl
  have hrest : ∀ ptr' ∈ ptrs.erase ptr,
      (m.pushFree ptr i event time thread).sizeAt ptr' = m.sizeAt ptr' := by
    intro ptr' hptr'
    rw [sizeAt, h.pushFree_eventAt_of_ne time thread hactive
      (ne_of_mem_erase hptr'), sizeAt]
  refine ⟨ptrs.erase ptr, fun ptr' => ?_, ?_⟩
  · rw [mem_erase, hmem]
    by_cases heq : ptr' = ptr
    · subst heq
      simp [pushFree_active_self]
    · simp [heq, pushFree_active_of_ne]
  · rw [sum_congr rfl hrest, husage, ← add_sum_erase _ _ hptr, hself,
      add_sub_cancel_left]

theorem WellFormed.pushFree (h : m.WellFormed) (hactive : m.active ptr = some i)
    (hevent : m.data[i]? = some event) :
    (m.pushFree ptr i event time thread).WellFormed where
  lt := fun ptr' j hj => by
    rw [length_data_pushFree]
    exact h.lt ptr' j ((pushFree_active_iff ..).mp hj).2
  inj := fun p q j hp hq => h.inj p q j ((pushFree_active_iff ..).mp hp).2
    ((pushFree_active_iff ..).mp hq).2
  frees_nodup := List.nodup_append.mpr ⟨h.frees_nodup, List.nodup_singleton i,
    fun a ha b hb hab => h.not_mem_frees hactive
      (by rwa [← List.mem_singleton.mp hb, ← hab])⟩
  mem_frees := fun j => by
    rw [length_data_pushFree]
    exact h.pushFree_mem_frees time thread hactive j
  usage := h.pushFree_usage time thread hactive hevent

end Free

/-! ### The plot -/

theorem memAllocChanged_some {firstTime time : Int64} {m' : MemData}
    (h : m.memAllocChanged firstTime time = some m') :
    ∃ points, m' = { m with plot := points } ∧
      (points.getLast?).map Prod.fst = some time := by
  unfold memAllocChanged at h
  split at h
  · obtain rfl := Option.some.inj h
    exact ⟨_, rfl, rfl⟩
  · split at h
    · obtain rfl := Option.some.inj h
      exact ⟨_, rfl, by simp⟩
    · exact absurd h nofun

theorem WellFormed.set_plot (h : m.WellFormed) (points : List (Int64 × UInt64)) :
    WellFormed { m with plot := points } where
  lt := h.lt
  inj := h.inj
  frees_nodup := h.frees_nodup
  mem_frees := h.mem_frees
  usage := h.usage

end MemData

end VulkanCompute.Profiler
