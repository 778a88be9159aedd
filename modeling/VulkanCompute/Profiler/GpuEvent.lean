import VulkanCompute.Lib.PackedWord
import VulkanCompute.Profiler.MemEvent

/-!
# A GPU zone of the server

`GpuEvent` keeps a time of 48 bits in each of its words, and 16 bits of
another field below it: the source location, the thread and the two halves of
the index of the children.  The setters copy bytes, so that they leave the
other field alone.

`view` reads all fields.  A setter changes its own field of it and no other
one (`view_setGpuStart` and so on), when a time fits.
-/

namespace VulkanCompute.Profiler

open Lib

/-! ## The words -/

/-- The time in the six upper bytes. -/
def timeOf (word : BitVec 64) : Int64 := .ofBitVec (word.sshiftRight 16)

/-- The field in the two lower bytes. -/
def lowOf (word : BitVec 64) : BitVec 16 := word.setWidth 16

def withTime (time : Int64) (word : BitVec 64) : BitVec 64 :=
  time.toBitVec.setWidth 48 ++ word.setWidth 16

def withLow (low : BitVec 16) (word : BitVec 64) : BitVec 64 :=
  (word >>> 16).setWidth 48 ++ low

@[simp] theorem timeOf_withTime {time : Int64} (h : MemEvent.FitsTime time)
    (word : BitVec 64) : timeOf (withTime time word) = time := by
  have hword := append_sshiftRight (by decide) (time.toBitVec.setWidth 48)
    (word.setWidth 16)
  have hback := signExtend_setWidth_of_mem (by decide) h.1 h.2
  exact congrArg Int64.ofBitVec (hword.trans hback)

@[simp] theorem lowOf_withTime (time : Int64) (word : BitVec 64) :
    lowOf (withTime time word) = lowOf word :=
  setWidth_append_low ..

@[simp] theorem timeOf_withLow (low : BitVec 16) (word : BitVec 64) :
    timeOf (withLow low word) = timeOf word := by
  have hword := append_sshiftRight (by decide) ((word >>> 16).setWidth 48) low
  have hkept := signExtend_ushiftRight (n := 48) (k := 16) (by decide) word
  exact congrArg Int64.ofBitVec (hword.trans hkept)

@[simp] theorem lowOf_withLow (low : BitVec 16) (word : BitVec 64) :
    lowOf (withLow low word) = low :=
  setWidth_append_low ..

/-! ## The event -/

/-- `GpuEvent`. -/
structure GpuEvent where
  cpuStartSrcLoc : BitVec 64
  cpuEndThread : BitVec 64
  gpuStartChild1 : BitVec 64
  gpuEndChild2 : BitVec 64
  callstack : BitVec 24
  queryId : UInt16

namespace GpuEvent

/-- What `m_slab.Alloc` makes room for. -/
def uninit : GpuEvent := ⟨0, 0, 0, 0, 0, 0⟩

def cpuStart (z : GpuEvent) : Int64 := timeOf z.cpuStartSrcLoc

def cpuEnd (z : GpuEvent) : Int64 := timeOf z.cpuEndThread

def gpuStart (z : GpuEvent) : Int64 := timeOf z.gpuStartChild1

def gpuEnd (z : GpuEvent) : Int64 := timeOf z.gpuEndChild2

def srcLoc (z : GpuEvent) : Int16 := .ofBitVec (lowOf z.cpuStartSrcLoc)

def thread (z : GpuEvent) : UInt16 := ⟨lowOf z.cpuEndThread⟩

/-- The halves of `Child()`, the upper one first. -/
def child (z : GpuEvent) : Int32 :=
  .ofBitVec (lowOf z.gpuEndChild2 ++ lowOf z.gpuStartChild1)

def setCpuStart (time : Int64) (z : GpuEvent) : GpuEvent :=
  { z with cpuStartSrcLoc := withTime time z.cpuStartSrcLoc }

def setCpuEnd (time : Int64) (z : GpuEvent) : GpuEvent :=
  { z with cpuEndThread := withTime time z.cpuEndThread }

def setGpuStart (time : Int64) (z : GpuEvent) : GpuEvent :=
  { z with gpuStartChild1 := withTime time z.gpuStartChild1 }

def setGpuEnd (time : Int64) (z : GpuEvent) : GpuEvent :=
  { z with gpuEndChild2 := withTime time z.gpuEndChild2 }

def setSrcLoc (srcloc : Int16) (z : GpuEvent) : GpuEvent :=
  { z with cpuStartSrcLoc := withLow srcloc.toBitVec z.cpuStartSrcLoc }

def setThread (thread : UInt16) (z : GpuEvent) : GpuEvent :=
  { z with cpuEndThread := withLow thread.toBitVec z.cpuEndThread }

def setChild (child : Int32) (z : GpuEvent) : GpuEvent :=
  { z with
    gpuStartChild1 := withLow (child.toBitVec.setWidth 16) z.gpuStartChild1
    gpuEndChild2 :=
      withLow ((child.toBitVec >>> 16).setWidth 16) z.gpuEndChild2 }

end GpuEvent

/-! ## The fields -/

/-- The fields of a `GpuEvent`. -/
structure GpuZone where
  cpuStart : Int64
  cpuEnd : Int64
  gpuStart : Int64
  gpuEnd : Int64
  srcLoc : Int16
  thread : UInt16
  child : Int32
  callstack : BitVec 24
  queryId : UInt16
deriving DecidableEq

namespace GpuEvent

def view (z : GpuEvent) : GpuZone where
  cpuStart := z.cpuStart
  cpuEnd := z.cpuEnd
  gpuStart := z.gpuStart
  gpuEnd := z.gpuEnd
  srcLoc := z.srcLoc
  thread := z.thread
  child := z.child
  callstack := z.callstack
  queryId := z.queryId

variable {time : Int64} (z : GpuEvent)

theorem view_setCpuStart (h : MemEvent.FitsTime time) :
    (z.setCpuStart time).view = { z.view with cpuStart := time } := by
  simp [view, cpuStart, srcLoc, setCpuStart, h, cpuEnd, gpuStart, gpuEnd,
    thread, child]

theorem view_setCpuEnd (h : MemEvent.FitsTime time) :
    (z.setCpuEnd time).view = { z.view with cpuEnd := time } := by
  simp [view, cpuEnd, thread, setCpuEnd, h, cpuStart, gpuStart, gpuEnd, srcLoc,
    child]

theorem view_setGpuStart (h : MemEvent.FitsTime time) :
    (z.setGpuStart time).view = { z.view with gpuStart := time } := by
  simp [view, gpuStart, child, setGpuStart, h, cpuStart, cpuEnd, gpuEnd,
    srcLoc, thread]

theorem view_setGpuEnd (h : MemEvent.FitsTime time) :
    (z.setGpuEnd time).view = { z.view with gpuEnd := time } := by
  simp [view, gpuEnd, child, setGpuEnd, h, cpuStart, cpuEnd, gpuStart, srcLoc,
    thread]

theorem view_setSrcLoc (srcloc : Int16) :
    (z.setSrcLoc srcloc).view = { z.view with srcLoc := srcloc } := by
  simp [view, srcLoc, cpuStart, setSrcLoc, cpuEnd, gpuStart, gpuEnd, thread,
    child]

theorem view_setThread (thread : UInt16) :
    (z.setThread thread).view = { z.view with thread := thread } := by
  simp [view, GpuEvent.thread, cpuEnd, setThread, cpuStart, gpuStart, gpuEnd,
    srcLoc, child]

theorem view_setChild (child : Int32) :
    (z.setChild child).view = { z.view with child := child } := by
  have hhalves := append_setWidth (n := 16) (k := 16) child.toBitVec
  simp [view, GpuEvent.child, gpuStart, gpuEnd, setChild, hhalves, cpuStart,
    cpuEnd, srcLoc, thread]

end GpuEvent

/-! ## The times -/

/-- The times of a zone, and its first slot. -/
structure ZoneTimes where
  cpuStart : Int64
  cpuEnd : Int64
  gpuStart : Int64
  gpuEnd : Int64
  queryId : UInt16
deriving DecidableEq

def GpuZone.times (v : GpuZone) : ZoneTimes :=
  ⟨v.cpuStart, v.cpuEnd, v.gpuStart, v.gpuEnd, v.queryId⟩

namespace GpuEvent

def times (z : GpuEvent) : ZoneTimes := z.view.times

variable {time : Int64} (z : GpuEvent)

theorem times_setCpuEnd (h : MemEvent.FitsTime time) :
    (z.setCpuEnd time).times = { z.times with cpuEnd := time } := by
  rw [times, view_setCpuEnd z h]
  rfl

theorem times_setGpuStart (h : MemEvent.FitsTime time) :
    (z.setGpuStart time).times = { z.times with gpuStart := time } := by
  rw [times, view_setGpuStart z h]
  rfl

theorem times_setGpuEnd (h : MemEvent.FitsTime time) :
    (z.setGpuEnd time).times = { z.times with gpuEnd := time } := by
  rw [times, view_setGpuEnd z h]
  rfl

theorem times_setChild (child : Int32) :
    (z.setChild child).times = z.times := by
  rw [times, view_setChild z]
  rfl

end GpuEvent

end VulkanCompute.Profiler
