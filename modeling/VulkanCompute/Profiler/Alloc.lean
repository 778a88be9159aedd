import Mathlib.Data.Fintype.Basic
import VulkanCompute.Lib.Brackets
import VulkanCompute.Lib.Bytes
import VulkanCompute.Profiler.Domain

/-!
# `AllocateImpl` and `FreeImpl`

The replaced `operator new` and `operator delete` of `Profiler.cpp`, on a
byte memory.  An allocation of `count` bytes asks `malloc` for a prefix and
the payload, writes the domain of the thread to the first byte of the prefix
and the length of the prefix to its last eight bytes, and returns the address
behind the prefix.

* `Process` is what these functions share: the memory, the flag
  `g_tracyActive`, the state of the Tracy runtime with the events it has
  received, and the calls of `malloc` and `free`.
* `stampHeader`, `storePrefix`, `profilerTraceAllocN` and so on are the steps
  of the functions, one for each access to the shared state.
* `allocateImpl` and `freeImpl` put the steps together for a thread that is
  not interrupted.

Addresses are natural numbers: `malloc` hands out blocks inside the address
space, so the sums of the code do not wrap.  Sizes are 64-bit words, and
`prefixSize + count` may wrap.  What `malloc` and `free` do to the rest of
the memory is up to them; they are given by the memory that they leave.
-/

namespace VulkanCompute.Profiler

open Lib

/-! ## The prefix -/

/-- `alignof(std::max_align_t)`. -/
def kDefaultAlignment : UInt64 := 16

/-- `PrefixSize`, with `sizeof(AllocationHeader) = 1` and
`sizeof(size_t) = 8`. -/
def prefixSize (alignment : UInt64) : UInt64 :=
  let metaSize : UInt64 := 1 + 8
  (metaSize + alignment - 1) &&& ~~~(alignment - 1)

/-- The alignments that `std::align_val_t` may have. -/
def IsPowerOfTwo (alignment : UInt64) : Prop :=
  ∃ k : Fin 64, alignment = 1 <<< UInt64.ofNat k

instance (alignment : UInt64) : Decidable (IsPowerOfTwo alignment) :=
  inferInstanceAs (Decidable (∃ k : Fin 64, alignment = 1 <<< UInt64.ofNat k))

/-- The `actual` alignment of `operator new`. -/
def actualAlignment (alignment : UInt64) : UInt64 :=
  max alignment kDefaultAlignment

/-- For the alignments that reach it, `PrefixSize` is the identity. -/
theorem prefixSize_actualAlignment {alignment : UInt64}
    (h : IsPowerOfTwo alignment) :
    prefixSize (actualAlignment alignment) = actualAlignment alignment ∧
      16 ≤ (actualAlignment alignment).toNat := by
  obtain ⟨k, rfl⟩ := h
  revert k
  decide

/-! ## The process -/

/-- A memory pool of Tracy: the default pool, or a pool with a name. -/
inductive Pool where
  | default
  | named (name : String)
deriving DecidableEq

inductive TraceEvent where
  | alloc (pool : Pool) (ptr : Nat) (size : UInt64)
  | free (pool : Pool) (ptr : Nat)
deriving DecidableEq

/-- A pool sees an address come and go. -/
def TraceEvent.bracket : TraceEvent → Bracket (Pool × Nat)
  | .alloc pool ptr _ => .acquire (pool, ptr)
  | .free pool ptr => .release (pool, ptr)

inductive HeapCall where
  | malloc (size : UInt64) (base : Nat)
  | free (base : Nat)
deriving DecidableEq

def HeapCall.bracket : HeapCall → Bracket Nat
  | .malloc _ base => .acquire base
  | .free base => .release base

/-- What the threads of the process share.  `profilerStarted` is the answer
of `tracy::IsProfilerStarted`, and `profilerData` says whether the data of
the profiler exists.  `events` is the log of the profiler; an event that is
emitted while there is no profiler data goes to `strays`. -/
structure Process where
  memory : Bytes
  tracyActive : Bool
  profilerStarted : Bool
  profilerData : Bool
  events : List TraceEvent
  strays : List TraceEvent
  calls : List HeapCall

namespace Process

def emit (e : TraceEvent) (p : Process) : Process :=
  if p.profilerData then { p with events := p.events ++ [e] }
  else { p with strays := p.strays ++ [e] }

/-- The body of the trace macros. -/
def trace (e : TraceEvent) (p : Process) : Process :=
  if p.profilerStarted then p.emit e else p

/-- `ProfilerTraceAllocN`. -/
def profilerTraceAllocN (ptr : Nat) (size : UInt64) (name : String) :
    Process → Process :=
  trace (.alloc (.named name) ptr size)

/-- `ProfilerTraceAlloc`. -/
def profilerTraceAlloc (ptr : Nat) (size : UInt64) : Process → Process :=
  trace (.alloc .default ptr size)

/-- `ProfilerTraceFreeN`. -/
def profilerTraceFreeN (ptr : Nat) (name : String) : Process → Process :=
  trace (.free (.named name) ptr)

/-- `ProfilerTraceFree`. -/
def profilerTraceFree (ptr : Nat) : Process → Process :=
  trace (.free .default ptr)

/-- `malloc(size)`, which answers `base` and leaves `memory`. -/
def malloc (size : UInt64) (base : Nat) (memory : Bytes) (p : Process) :
    Process :=
  { p with memory := memory, calls := p.calls ++ [.malloc size base] }

/-- `free(base)`, which leaves `memory`. -/
def free (base : Nat) (memory : Bytes) (p : Process) : Process :=
  { p with memory := memory, calls := p.calls ++ [.free base] }

/-- `header->domain = domain`. -/
def stampHeader (base : Nat) (domain : MemoryDomain) (p : Process) : Process :=
  { p with memory := Function.update p.memory base domain.val.toUInt8 }

/-- `*(size_t*)(ptr - sizeof(size_t)) = prefixSize`. -/
def storePrefix (ptr : Nat) (prefixSize : UInt64) (p : Process) : Process :=
  { p with memory := storeWord p.memory (ptr - 8) prefixSize }

/-- `header->domain`. -/
def headerDomain (p : Process) (base : Nat) : MemoryDomain :=
  ⟨(p.memory base).toInt8⟩

/-- The base that `FreeImpl` computes from a pointer. -/
def recoverBase (p : Process) (ptr : Nat) : Nat :=
  let offset := loadWord p.memory (ptr - 8)
  ptr - offset.toNat

end Process

def setTracyActive (active : Bool) (p : Process) : Process :=
  { p with tracyActive := active }

/-! ## The functions -/

/-- `AllocateImpl`, when `malloc` answers `base` and leaves `memory`. -/
def allocateImpl (count alignment : UInt64) (base : Nat) (memory : Bytes)
    (domains : DomainStack) (p : Process) : Nat × Process :=
  let prefixSize := prefixSize alignment
  let p := p.malloc (prefixSize + count) base memory
  let p := p.stampHeader base (getCurrentDomain domains)
  let ptr := base + prefixSize.toNat
  let p := p.storePrefix ptr prefixSize
  if p.tracyActive then
    let p := p.profilerTraceAllocN ptr count
      (getMemoryDomainName (p.headerDomain base))
    (ptr, p.profilerTraceAlloc ptr count)
  else (ptr, p)

/-- `FreeImpl`, when `free` leaves `memory`. -/
def freeImpl (ptr : Nat) (memory : Bytes) (p : Process) : Process :=
  if ptr ≠ 0 then
    let base := p.recoverBase ptr
    let p :=
      if p.tracyActive then
        let p := p.profilerTraceFreeN ptr
          (getMemoryDomainName (p.headerDomain base))
        p.profilerTraceFree ptr
      else p
    p.free base memory
  else p

/-- The overloads of `operator new`, with the arguments behind the size. -/
inductive NewForm where
  | plain
  | aligned (alignment : UInt64)

/-- The alignment that reaches `AllocateImpl`. -/
def NewForm.alignment : NewForm → UInt64
  | .plain => kDefaultAlignment
  | .aligned alignment => actualAlignment alignment

/-- `operator new`. -/
def operatorNew (form : NewForm) (count : UInt64) (base : Nat)
    (memory : Bytes) (domains : DomainStack) (p : Process) : Nat × Process :=
  match form with
  | .plain => allocateImpl count kDefaultAlignment base memory domains p
  | .aligned alignment =>
    allocateImpl count (actualAlignment alignment) base memory domains p

/-- The overloads of `operator delete`, with the arguments behind the
pointer. -/
inductive DeleteForm where
  | plain
  | sized (size : UInt64)
  | aligned (alignment : UInt64)
  | sizedAligned (size alignment : UInt64)

/-- `operator delete`. -/
def operatorDelete (form : DeleteForm) (ptr : Nat) (memory : Bytes)
    (p : Process) : Process :=
  match form with
  | .plain => freeImpl ptr memory p
  | .sized _ => freeImpl ptr memory p
  | .aligned _ => freeImpl ptr memory p
  | .sizedAligned _ _ => freeImpl ptr memory p

/-! ## What an event leaves alone -/

namespace Process

@[simp] theorem emit_memory (e : TraceEvent) (p : Process) :
    (p.emit e).memory = p.memory := by
  unfold emit
  split <;> rfl

@[simp] theorem emit_calls (e : TraceEvent) (p : Process) :
    (p.emit e).calls = p.calls := by
  unfold emit
  split <;> rfl

@[simp] theorem emit_tracyActive (e : TraceEvent) (p : Process) :
    (p.emit e).tracyActive = p.tracyActive := by
  unfold emit
  split <;> rfl

@[simp] theorem emit_profilerStarted (e : TraceEvent) (p : Process) :
    (p.emit e).profilerStarted = p.profilerStarted := by
  unfold emit
  split <;> rfl

@[simp] theorem emit_profilerData (e : TraceEvent) (p : Process) :
    (p.emit e).profilerData = p.profilerData := by
  unfold emit
  split <;> rfl

theorem emit_events {e : TraceEvent} {p : Process} (h : p.profilerData) :
    (p.emit e).events = p.events ++ [e] := by
  unfold emit
  rw [if_pos h]

/-- Tracing is emitting, or nothing. -/
theorem trace_frame {α : Type*} (view : Process → α)
    (hview : ∀ e p, view (emit e p) = view p) (e : TraceEvent) (p : Process) :
    view (p.trace e) = view p := by
  unfold trace
  split
  · exact hview e p
  · rfl

@[simp] theorem trace_memory (e : TraceEvent) (p : Process) :
    (p.trace e).memory = p.memory :=
  trace_frame (·.memory) emit_memory e p

@[simp] theorem trace_calls (e : TraceEvent) (p : Process) :
    (p.trace e).calls = p.calls :=
  trace_frame (·.calls) emit_calls e p

@[simp] theorem trace_profilerStarted (e : TraceEvent) (p : Process) :
    (p.trace e).profilerStarted = p.profilerStarted :=
  trace_frame (·.profilerStarted) emit_profilerStarted e p

@[simp] theorem trace_profilerData (e : TraceEvent) (p : Process) :
    (p.trace e).profilerData = p.profilerData :=
  trace_frame (·.profilerData) emit_profilerData e p

theorem trace_events {e : TraceEvent} {p : Process} (hstarted : p.profilerStarted)
    (hdata : p.profilerData) : (p.trace e).events = p.events ++ [e] := by
  unfold trace
  rw [if_pos hstarted, emit_events hdata]

/-- Every call of the allocator traces two events. -/
theorem trace_trace_events {e e' : TraceEvent} {p : Process}
    (hstarted : p.profilerStarted) (hdata : p.profilerData) :
    ((p.trace e).trace e').events = p.events ++ [e, e'] := by
  rw [trace_events, trace_events hstarted hdata]
  · exact List.append_assoc _ [_] [_]
  · rw [trace_profilerStarted]
    exact hstarted
  · rw [trace_profilerData]
    exact hdata

end Process

/-! ## What the functions do -/

section Allocate

variable (count alignment : UInt64) (base : Nat) (memory : Bytes)
  (domains : DomainStack) (p : Process)

theorem allocateImpl_ptr :
    (allocateImpl count alignment base memory domains p).1 =
      base + (prefixSize alignment).toNat := by
  unfold allocateImpl
  simp only
  split <;> rfl

/-- The memory that `malloc` left, with the header and the prefix word. -/
theorem allocateImpl_memory :
    (allocateImpl count alignment base memory domains p).2.memory =
      storeWord
        (Function.update memory base (getCurrentDomain domains).val.toUInt8)
        (base + (prefixSize alignment).toNat - 8) (prefixSize alignment) := by
  unfold allocateImpl Process.profilerTraceAllocN Process.profilerTraceAlloc
  simp only
  split
  · rw [Process.trace_memory, Process.trace_memory]
    rfl
  · rfl

theorem allocateImpl_calls :
    (allocateImpl count alignment base memory domains p).2.calls =
      p.calls ++ [.malloc (prefixSize alignment + count) base] := by
  unfold allocateImpl Process.profilerTraceAllocN Process.profilerTraceAlloc
  simp only
  split
  · rw [Process.trace_calls, Process.trace_calls]
    rfl
  · rfl

/-- What an allocation keeps for every thread. -/
theorem allocateImpl_frame {α : Type*} (view : Process → α)
    (hemit : ∀ e p, view (Process.emit e p) = view p)
    (hmalloc : ∀ m c p, view { p with memory := m, calls := c } = view p) :
    view (allocateImpl count alignment base memory domains p).2 = view p := by
  unfold allocateImpl Process.profilerTraceAllocN Process.profilerTraceAlloc
  simp only
  split
  · rw [Process.trace_frame view hemit, Process.trace_frame view hemit]
    exact hmalloc _ _ p
  · exact hmalloc _ _ p

end Allocate

section Free

variable {ptr : Nat} (hptr : ptr ≠ 0) (memory : Bytes) (p : Process)

include hptr

theorem freeImpl_memory : (freeImpl ptr memory p).memory = memory := by
  unfold freeImpl
  rw [if_pos hptr]
  rfl

theorem freeImpl_calls :
    (freeImpl ptr memory p).calls = p.calls ++ [.free (p.recoverBase ptr)] := by
  unfold freeImpl Process.profilerTraceFreeN Process.profilerTraceFree
  rw [if_pos hptr]
  show (Process.calls _) ++ _ = _
  split
  · rw [Process.trace_calls, Process.trace_calls]
  · rfl

/-- What a deallocation keeps for every thread. -/
theorem freeImpl_frame {α : Type*} (view : Process → α)
    (hemit : ∀ e p, view (Process.emit e p) = view p)
    (hfree : ∀ m c p, view { p with memory := m, calls := c } = view p) :
    view (freeImpl ptr memory p) = view p := by
  unfold freeImpl Process.profilerTraceFreeN Process.profilerTraceFree
  rw [if_pos hptr]
  refine (hfree _ _ _).trans ?_
  split
  · rw [Process.trace_frame view hemit, Process.trace_frame view hemit]
  · rfl

end Free

/-- The overloads of `operator new` differ in the alignment alone. -/
theorem operatorNew_eq (form : NewForm) :
    operatorNew form = fun count => allocateImpl count form.alignment := by
  cases form with
  | plain => rfl
  | aligned alignment => rfl

/-- The overloads of `operator delete` ignore all but the pointer. -/
theorem operatorDelete_eq (form : DeleteForm) :
    operatorDelete form = freeImpl := by
  cases form with
  | plain => rfl
  | sized size => rfl
  | aligned alignment => rfl
  | sizedAligned size alignment => rfl

end VulkanCompute.Profiler
