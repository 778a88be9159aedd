import VulkanCompute.Lib.PackedWord
import VulkanCompute.Profiler.Wire

/-!
# A memory event of the server

`MemEvent` packs two fields into each of its words: 56 bits of the address, 48
bits of the size and of each time, and below them the call stack and the
threads.  The setters copy bytes, so that they leave the other field alone.

`allocated_fields` and `freed_fields` say what an event reads back as after an
allocation and after a deallocation, when everything fits.
-/

namespace VulkanCompute.Profiler

open Lib

/-! ## The fields -/

/-- `MemEvent`. -/
structure MemEvent where
  ptrCsAlloc1 : BitVec 64
  sizeCsAlloc2 : BitVec 64
  csFree : BitVec 24
  timeThreadAlloc : BitVec 64
  timeThreadFree : BitVec 64

namespace MemEvent

/-- What `push_next` makes room for. -/
def uninit : MemEvent := ⟨0, 0, 0, 0, 0⟩

def ptr (m : MemEvent) : UInt64 := ⟨m.ptrCsAlloc1.sshiftRight 8⟩

def size (m : MemEvent) : UInt64 := ⟨m.sizeCsAlloc2 >>> 16⟩

def csAlloc (m : MemEvent) : UInt32 :=
  let low := (m.ptrCsAlloc1.setWidth 8).setWidth 32
  let high := (m.sizeCsAlloc2.setWidth 16).setWidth 32
  ⟨low ||| (high <<< 8)⟩

def timeAlloc (m : MemEvent) : Int64 := .ofBitVec (m.timeThreadAlloc.sshiftRight 16)

def timeFree (m : MemEvent) : Int64 := .ofBitVec (m.timeThreadFree.sshiftRight 16)

def threadAlloc (m : MemEvent) : UInt16 := ⟨m.timeThreadAlloc.setWidth 16⟩

def threadFree (m : MemEvent) : UInt16 := ⟨m.timeThreadFree.setWidth 16⟩

/-- Seven bytes above the lowest one. -/
def setPtr (ptr : UInt64) (m : MemEvent) : MemEvent :=
  { m with
    ptrCsAlloc1 := ptr.toBitVec.setWidth 56 ++ m.ptrCsAlloc1.setWidth 8 }

/-- Six bytes above the two lowest ones. -/
def setSize (size : UInt64) (m : MemEvent) : MemEvent :=
  { m with
    sizeCsAlloc2 := size.toBitVec.setWidth 48 ++ m.sizeCsAlloc2.setWidth 16 }

/-- The lowest byte of one word and the two lowest ones of the other. -/
def setCsAlloc (csAlloc : UInt32) (m : MemEvent) : MemEvent :=
  { m with
    ptrCsAlloc1 := (m.ptrCsAlloc1 >>> 8).setWidth 56 ++
      csAlloc.toBitVec.setWidth 8
    sizeCsAlloc2 := (m.sizeCsAlloc2 >>> 16).setWidth 48 ++
      (csAlloc.toBitVec >>> 8).setWidth 16 }

/-- A time and a thread in one word. -/
def timeThread (time : Int64) (thread : UInt16) : BitVec 64 :=
  (time.toBitVec <<< 16) ||| thread.toBitVec.setWidth 64

def setTimeThreadAlloc (time : Int64) (thread : UInt16) (m : MemEvent) :
    MemEvent :=
  { m with timeThreadAlloc := timeThread time thread }

def setTimeThreadFree (time : Int64) (thread : UInt16) (m : MemEvent) :
    MemEvent :=
  { m with timeThreadFree := timeThread time thread }

/-! ## Reading back -/

/-- The addresses that fit in 56 bits with their sign. -/
def FitsPtr (ptr : UInt64) : Prop :=
  -2 ^ 56 ≤ ptr.toBitVec.toInt * 2 ∧ ptr.toBitVec.toInt * 2 < 2 ^ 56

/-- The times that fit in 48 bits. -/
def FitsTime (time : Int64) : Prop :=
  -2 ^ 48 ≤ time.toInt * 2 ∧ time.toInt * 2 < 2 ^ 48

instance (ptr : UInt64) : Decidable (FitsPtr ptr) :=
  inferInstanceAs (Decidable (_ ∧ _))

instance (time : Int64) : Decidable (FitsTime time) :=
  inferInstanceAs (Decidable (_ ∧ _))

theorem FitsTime.lt {time : Int64} (h : FitsTime time) :
    time.toInt < 2 ^ 47 := by
  have hhigh := h.2
  omega

theorem timeThread_eq (time : Int64) (thread : UInt16) :
    timeThread time thread =
      time.toBitVec.setWidth 48 ++ thread.toBitVec.setWidth 16 := by
  apply BitVec.eq_of_getLsbD_eq
  intro i hi
  rw [timeThread, BitVec.getLsbD_or, BitVec.getLsbD_shiftLeft,
    BitVec.getLsbD_append]
  by_cases hlow : i < 16
  · simp [hlow, hi]
  · have hthread : thread.toBitVec.getLsbD i = false :=
      BitVec.getLsbD_of_ge _ _ (Nat.le_of_not_lt hlow)
    have hwithin : i - 16 < 48 := by omega
    simp [hlow, hi, hthread, hwithin]

theorem ptr_setPtr {ptr : UInt64} (h : FitsPtr ptr) (m : MemEvent) :
    (m.setPtr ptr).ptr = ptr := by
  have hword := append_sshiftRight (by decide)
    (ptr.toBitVec.setWidth 56) (m.ptrCsAlloc1.setWidth 8)
  have hback := signExtend_setWidth_of_mem (by decide) h.1 h.2
  exact UInt64.eq_of_toBitVec_eq (hword.trans hback)

theorem size_setSize {size : UInt64} (h : size.toNat < 2 ^ 48) (m : MemEvent) :
    (m.setSize size).size = size := by
  have hword := append_ushiftRight (size.toBitVec.setWidth 48)
    (m.sizeCsAlloc2.setWidth 16)
  exact UInt64.eq_of_toBitVec_eq (hword.trans (setWidth_setWidth_of_lt h))

@[simp] theorem ptr_setCsAlloc (csAlloc : UInt32) (m : MemEvent) :
    (m.setCsAlloc csAlloc).ptr = m.ptr := by
  have hword := append_sshiftRight (by decide)
    ((m.ptrCsAlloc1 >>> 8).setWidth 56) (csAlloc.toBitVec.setWidth 8)
  have hkept := signExtend_ushiftRight (n := 56) (k := 8) (by decide)
    m.ptrCsAlloc1
  exact UInt64.eq_of_toBitVec_eq (hword.trans hkept)

@[simp] theorem size_setCsAlloc (csAlloc : UInt32) (m : MemEvent) :
    (m.setCsAlloc csAlloc).size = m.size := by
  have hword := append_ushiftRight
    ((m.sizeCsAlloc2 >>> 16).setWidth 48)
    ((csAlloc.toBitVec >>> 8).setWidth 16)
  have hkept := setWidth_ushiftRight (n := 48) (k := 16) m.sizeCsAlloc2
  exact UInt64.eq_of_toBitVec_eq (hword.trans hkept)

theorem csAlloc_setCsAlloc_zero (m : MemEvent) :
    (m.setCsAlloc 0).csAlloc = 0 := by
  simp only [csAlloc, setCsAlloc, setWidth_append_low]
  rfl

theorem sshiftRight_timeThread {time : Int64} (h : FitsTime time)
    (thread : UInt16) :
    (timeThread time thread).sshiftRight 16 = time.toBitVec := by
  rw [timeThread_eq]
  have hword := append_sshiftRight (by decide) (time.toBitVec.setWidth 48)
    (thread.toBitVec.setWidth 16)
  have hback := signExtend_setWidth_of_mem (by decide) h.1 h.2
  exact hword.trans hback

theorem setWidth_timeThread (time : Int64) (thread : UInt16) :
    (timeThread time thread).setWidth 16 = thread.toBitVec := by
  rw [timeThread_eq, setWidth_append_low]
  exact BitVec.setWidth_eq _

/-! ## Allocations and deallocations -/

/-- The event that `ProcessMemAllocImpl` writes. -/
def allocated (ptr size : UInt64) (time : Int64) (thread : UInt16) : MemEvent :=
  let m := uninit.setPtr ptr
  let m := m.setSize size
  let m := m.setTimeThreadAlloc time thread
  let m := m.setTimeThreadFree (-1) 0
  let m := m.setCsAlloc 0
  { m with csFree := 0 }

@[simp] theorem size_allocated {ptr size : UInt64}
    (h : size.toNat < 2 ^ 48) (time : Int64) (thread : UInt16) :
    (allocated ptr size time thread).size = size :=
  (size_setCsAlloc 0 _).trans (size_setSize h _)

@[simp] theorem size_setTimeThreadFree (time : Int64) (thread : UInt16)
    (m : MemEvent) : (m.setTimeThreadFree time thread).size = m.size := rfl

/-- The event reads back as what was allocated, and as not freed. -/
theorem allocated_fields {ptr size : UInt64} {time : Int64} (thread : UInt16)
    (hptr : FitsPtr ptr) (hsize : size.toNat < 2 ^ 48) (htime : FitsTime time) :
    let m := allocated ptr size time thread
    m.ptr = ptr ∧ m.size = size ∧ m.timeAlloc = time ∧ m.threadAlloc = thread ∧
      m.timeFree = -1 ∧ m.threadFree = 0 ∧ m.csAlloc = 0 := by
  refine ⟨(ptr_setCsAlloc 0 _).trans (ptr_setPtr hptr _), size_allocated hsize ..,
    congrArg Int64.ofBitVec (sshiftRight_timeThread htime thread),
    congrArg UInt16.ofBitVec (setWidth_timeThread time thread),
    congrArg Int64.ofBitVec (sshiftRight_timeThread (by decide) 0),
    congrArg UInt16.ofBitVec (setWidth_timeThread (-1) 0),
    csAlloc_setCsAlloc_zero _⟩

/-- A deallocation is recorded beside the allocation. -/
theorem freed_fields {time : Int64} (thread : UInt16) (htime : FitsTime time)
    (m : MemEvent) :
    let m' := m.setTimeThreadFree time thread
    m'.ptr = m.ptr ∧ m'.size = m.size ∧ m'.timeAlloc = m.timeAlloc ∧
      m'.threadAlloc = m.threadAlloc ∧ m'.timeFree = time ∧
      m'.threadFree = thread ∧ m'.csAlloc = m.csAlloc :=
  ⟨rfl, rfl, rfl, rfl,
    congrArg Int64.ofBitVec (sshiftRight_timeThread htime thread),
    congrArg UInt16.ofBitVec (setWidth_timeThread time thread), rfl⟩

end MemEvent

end VulkanCompute.Profiler
