import Mathlib.Data.Finset.Insert
import Mathlib.Logic.Relation
import VulkanCompute.Profiler.Blocks

/-!
# Threads

The interleaving of any number of threads that run `operator new` and
`operator delete`.  `ThreadStep t s a s'` is one access of the thread `t` to
the shared state: the call of `malloc`, the write of the header, of the prefix
word, the load of `g_tracyActive`, each call of `IsProfilerStarted`, each
emission of an event, the read of the prefix word, and the call of `free`.
Between two calls a thread writes to memory and pushes and pops its own stack
of domains.

The first step of `operator new` names the block that `malloc` answers.
`Machine.live` are the blocks that the program holds, that is, whose
`operator new` has returned and that nobody has begun to delete.

A thread that is not interrupted does what the functions do
(`Machine.ownSteps_new`, `Machine.ownSteps_delete`).
-/

namespace VulkanCompute.Profiler

open Lib

/-! ## The traced part of a call -/

/-- Where a call stands in its traced part. -/
inductive TracePoint where
  | loadFlag
  | checkNamed
  | emitNamed
  | checkDefault
  | emitDefault
  | done
deriving DecidableEq

/-- One access of the traced part, with the event of the named pool and the
event of the default pool. -/
def TracePoint.step (named default : TraceEvent) (p : Process) :
    TracePoint → TracePoint × Process
  | .loadFlag => (if p.tracyActive then .checkNamed else .done, p)
  | .checkNamed => (if p.profilerStarted then .emitNamed else .checkDefault, p)
  | .emitNamed => (.checkDefault, p.emit named)
  | .checkDefault => (if p.profilerStarted then .emitDefault else .done, p)
  | .emitDefault => (.done, p.emit default)
  | .done => (.done, p)

theorem TracePoint.step_frame {α : Type*} (view : Process → α)
    (hemit : ∀ e p, view (Process.emit e p) = view p)
    (named default : TraceEvent) (p : Process) (point : TracePoint) :
    view (point.step named default p).2 = view p := by
  cases point with
  | loadFlag => rfl
  | checkNamed => rfl
  | emitNamed => exact hemit named p
  | checkDefault => rfl
  | emitDefault => exact hemit default p
  | done => rfl

/-- The traced part of `AllocateImpl`. -/
def Block.traceAlloc (b : Block) (point : TracePoint) (p : Process) :
    TracePoint × Process :=
  point.step
    (.alloc (.named (getMemoryDomainName (p.headerDomain b.base))) b.ptr
      b.count)
    (.alloc .default b.ptr b.count) p

/-- The traced part of `FreeImpl`, which has computed `base`. -/
def Block.traceFree (b : Block) (base : Nat) (point : TracePoint)
    (p : Process) : TracePoint × Process :=
  point.step
    (.free (.named (getMemoryDomainName (p.headerDomain base))) b.ptr)
    (.free .default b.ptr) p

/-! ## The machine -/

/-- The next access of a thread.  `b` is the block that the call is about. -/
inductive Pc where
  | idle
  | stampHeader (b : Block)
  | storePrefix (b : Block)
  | traceAlloc (b : Block) (point : TracePoint)
  | loadPrefix (b : Block)
  | traceFree (b : Block) (base : Nat) (point : TracePoint)

/-- The block that a thread is allocating or deleting. -/
def Pc.block? : Pc → Option Block
  | .idle => none
  | .stampHeader b => some b
  | .storePrefix b => some b
  | .traceAlloc b _ => some b
  | .loadPrefix b => some b
  | .traceFree b _ _ => some b

structure Machine (τ : Type*) where
  process : Process
  domains : τ → DomainStack
  pc : τ → Pc
  live : Finset Block

inductive Action where
  | new (form : NewForm) (grant : Grant) (memory : Bytes)
  | delete (form : DeleteForm) (b : Block)
  | free (memory : Bytes)
  | next
  | write (addr : Nat) (value : UInt8)
  | push (id : MemoryDomain)
  | pop

namespace Machine

variable {τ : Type*} [DecidableEq τ]

/-- The block that a call of `operator new` in the thread makes of a grant. -/
def block (s : Machine τ) (t : τ) (grant : Grant) : Block :=
  { grant with domain := getCurrentDomain (s.domains t) }

/-- The thread goes on at `pc`. -/
def goto (s : Machine τ) (t : τ) (pc : Pc) : Machine τ :=
  { s with pc := Function.update s.pc t pc }

theorem goto_pc_of_ne (s : Machine τ) {t u : τ} (pc : Pc) (h : u ≠ t) :
    (s.goto t pc).pc u = s.pc u := Function.update_of_ne h _ _

theorem goto_pc_self (s : Machine τ) (t : τ) (pc : Pc) :
    (s.goto t pc).pc t = pc := Function.update_self ..

end Machine

/-- One access of the thread `t`. -/
inductive ThreadStep {τ : Type*} [DecidableEq τ] (t : τ) :
    Machine τ → Action → Machine τ → Prop where
  | new {s : Machine τ} {form : NewForm} {grant : Grant} {memory : Bytes}
      (hidle : s.pc t = .idle) (halignment : grant.alignment = form.alignment) :
      ThreadStep t s (.new form grant memory)
        { s.goto t (.stampHeader (s.block t grant)) with
          process :=
            s.process.malloc (grant.prefixSize + grant.count) grant.base
              memory }
  | stampHeader {s : Machine τ} {b : Block} (hpc : s.pc t = .stampHeader b) :
      ThreadStep t s .next
        { s.goto t (.storePrefix b) with
          process :=
            s.process.stampHeader b.base (getCurrentDomain (s.domains t)) }
  | storePrefix {s : Machine τ} {b : Block} (hpc : s.pc t = .storePrefix b) :
      ThreadStep t s .next
        { s.goto t (.traceAlloc b .loadFlag) with
          process := s.process.storePrefix b.ptr b.prefixSize }
  | traceAlloc {s : Machine τ} {b : Block} {point : TracePoint}
      (hpc : s.pc t = .traceAlloc b point) (hpoint : point ≠ .done) :
      ThreadStep t s .next
        { s.goto t (.traceAlloc b (b.traceAlloc point s.process).1) with
          process := (b.traceAlloc point s.process).2 }
  | returnNew {s : Machine τ} {b : Block}
      (hpc : s.pc t = .traceAlloc b .done) :
      ThreadStep t s .next { s.goto t .idle with live := insert b s.live }
  | delete {s : Machine τ} {form : DeleteForm} {b : Block}
      (hidle : s.pc t = .idle) (hptr : b.ptr ≠ 0) :
      ThreadStep t s (.delete form b)
        { s.goto t (.loadPrefix b) with live := s.live.erase b }
  | loadPrefix {s : Machine τ} {b : Block} (hpc : s.pc t = .loadPrefix b) :
      ThreadStep t s .next
        (s.goto t (.traceFree b (s.process.recoverBase b.ptr) .loadFlag))
  | traceFree {s : Machine τ} {b : Block} {base : Nat} {point : TracePoint}
      (hpc : s.pc t = .traceFree b base point) (hpoint : point ≠ .done) :
      ThreadStep t s .next
        { s.goto t (.traceFree b base (b.traceFree base point s.process).1) with
          process := (b.traceFree base point s.process).2 }
  | free {s : Machine τ} {b : Block} {base : Nat} {memory : Bytes}
      (hpc : s.pc t = .traceFree b base .done) :
      ThreadStep t s (.free memory)
        { s.goto t .idle with process := s.process.free base memory }
  | write {s : Machine τ} {addr : Nat} {value : UInt8}
      (hidle : s.pc t = .idle) :
      ThreadStep t s (.write addr value)
        { s with
          process :=
            { s.process with
              memory := Function.update s.process.memory addr value } }
  | push {s : Machine τ} {id : MemoryDomain} {domains : DomainStack}
      (hidle : s.pc t = .idle)
      (hpush : pushMemoryDomain id (s.domains t) = some domains) :
      ThreadStep t s (.push id)
        { s with domains := Function.update s.domains t domains }
  | pop {s : Machine τ} (hidle : s.pc t = .idle) :
      ThreadStep t s .pop
        { s with
          domains :=
            Function.update s.domains t (popMemoryDomain (s.domains t)) }

/-- The next access of the traced part of `AllocateImpl`, at a given point. -/
theorem ThreadStep.traceAlloc_at {τ : Type*} [DecidableEq τ] {t : τ}
    {s : Machine τ} (b : Block) (point : TracePoint)
    (hpc : s.pc t = .traceAlloc b point) (hpoint : point ≠ .done) :
    ThreadStep t s .next
      { s.goto t (.traceAlloc b (b.traceAlloc point s.process).1) with
        process := (b.traceAlloc point s.process).2 } :=
  .traceAlloc hpc hpoint

/-- What an access of a thread keeps of the process. -/
theorem ThreadStep.frame {τ : Type*} [DecidableEq τ] {t : τ}
    {s s' : Machine τ} {a : Action} (h : ThreadStep t s a s') {α : Type*}
    (view : Process → α) (hemit : ∀ e p, view (Process.emit e p) = view p)
    (hmemory : ∀ m c p, view { p with memory := m, calls := c } = view p) :
    view s'.process = view s.process := by
  cases h with
  | new _ _ => exact hmemory _ _ s.process
  | stampHeader _ => exact hmemory _ _ s.process
  | storePrefix _ => exact hmemory _ _ s.process
  | traceAlloc _ _ => exact TracePoint.step_frame view hemit _ _ _ _
  | returnNew _ => rfl
  | delete _ _ => rfl
  | loadPrefix _ => rfl
  | traceFree _ _ => exact TracePoint.step_frame view hemit _ _ _ _
  | free _ => exact hmemory _ _ s.process
  | write _ => exact hmemory _ _ s.process
  | push _ _ => rfl
  | pop _ => rfl

/-! ## A call without interruption -/

namespace Machine

variable {τ : Type*} [DecidableEq τ]

/-- Accesses of the thread `t` alone. -/
def OwnSteps (t : τ) : Machine τ → Machine τ → Prop :=
  Relation.ReflTransGen fun s s' => ∃ a, ThreadStep t s a s'

/-- The machine when the thread has come to `pc` and left the process `p`. -/
def park (s : Machine τ) (t : τ) (pc : Pc) (p : Process) : Machine τ :=
  { s.goto t pc with process := p }

theorem park_pc (s : Machine τ) (t : τ) (pc : Pc) (p : Process) :
    (s.park t pc p).pc t = pc := s.goto_pc_self t pc

section Runs

variable {t : τ} {R : Machine τ → Machine τ → Prop}
  (hnext : ∀ s s', ThreadStep t s .next s' → R s s')

include hnext

/-- A step that moves the thread from `pc` to `pc'`. -/
theorem runs_park {s : Machine τ} {pc pc' : Pc} {p p' : Process}
    (h : ThreadStep t (s.park t pc p) .next
      { (s.park t pc p).goto t pc' with process := p' }) :
    Relation.ReflTransGen R (s.park t pc p) (s.park t pc' p') := by
  have heq : { (s.park t pc p).goto t pc' with process := p' } =
      s.park t pc' p' := by
    unfold park goto
    rw [Function.update_idem]
  rw [heq] at h
  exact .single (hnext _ _ h)

omit hnext in
/-- A trace macro: a check, and the emission if it succeeds. -/
theorem runs_guarded {s : Machine τ} {check emit after : Pc} {e : TraceEvent}
    {p : Process}
    (hcheck : Relation.ReflTransGen R (s.park t check p)
      (s.park t (if p.profilerStarted then emit else after) p))
    (hemit : Relation.ReflTransGen R (s.park t emit p)
      (s.park t after (p.emit e))) :
    Relation.ReflTransGen R (s.park t check p)
      (s.park t after (p.trace e)) := by
  unfold Process.trace
  cases hstarted : p.profilerStarted with
  | true =>
    rw [if_pos hstarted] at hcheck
    exact hcheck.trans hemit
  | false =>
    rw [if_neg (Bool.eq_false_iff.mp hstarted)] at hcheck
    exact hcheck

omit hnext in
/-- The traced part of a call.  The call stands at `place point` when its
traced part stands at `point`, and `named` is the event of the named pool. -/
theorem runs_trace (s : Machine τ) (place : TracePoint → Pc)
    (named : Process → TraceEvent) (default : TraceEvent)
    (hstep : ∀ point p, point ≠ .done →
      Relation.ReflTransGen R (s.park t (place point) p)
        (s.park t (place (point.step (named p) default p).1)
          (point.step (named p) default p).2)) (p : Process) :
    Relation.ReflTransGen R (s.park t (place .loadFlag) p)
      (s.park t (place .done)
        (if p.tracyActive then (p.trace (named p)).trace default else p)) := by
  have hload := hstep .loadFlag p TracePoint.noConfusion
  have hnamed : Relation.ReflTransGen R (s.park t (place .checkNamed) p)
      (s.park t (place .checkDefault) (p.trace (named p))) := by
    apply runs_guarded
    · rw [← apply_ite place]
      exact hstep .checkNamed p TracePoint.noConfusion
    · exact hstep .emitNamed p TracePoint.noConfusion
  have hdefault : Relation.ReflTransGen R
      (s.park t (place .checkDefault) (p.trace (named p)))
      (s.park t (place .done) ((p.trace (named p)).trace default)) := by
    apply runs_guarded
    · rw [← apply_ite place]
      exact hstep .checkDefault _ TracePoint.noConfusion
    · exact hstep .emitDefault _ TracePoint.noConfusion
  unfold TracePoint.step at hload
  cases hactive : p.tracyActive with
  | true =>
    rw [if_pos hactive] at hload
    exact hload.trans (hnamed.trans hdefault)
  | false =>
    rw [if_neg (Bool.eq_false_iff.mp hactive)] at hload
    exact hload

/-- `operator new` from its `malloc` on, when no other thread does anything. -/
theorem runs_new {s : Machine τ} {form : NewForm} {grant : Grant}
    {memory : Bytes} (hidle : s.pc t = .idle)
    (halignment : grant.alignment = form.alignment)
    (hmalloc : R s (s.park t (.stampHeader (s.block t grant))
      (s.process.malloc (grant.prefixSize + grant.count) grant.base memory))) :
    Relation.ReflTransGen R s
      { s with
        process := (operatorNew form grant.count grant.base memory
          (s.domains t) s.process).2
        live := insert (s.block t grant) s.live } := by
  let b := s.block t grant
  let p := s.process.malloc (grant.prefixSize + grant.count) grant.base memory
  let p' := p.stampHeader b.base (getCurrentDomain (s.domains t))
  let p'' := p'.storePrefix b.ptr b.prefixSize
  have hheader : Relation.ReflTransGen R (s.park t (.stampHeader b) p)
      (s.park t (.storePrefix b) p') :=
    runs_park hnext (.stampHeader (park_pc ..))
  have hword : Relation.ReflTransGen R (s.park t (.storePrefix b) p')
      (s.park t (.traceAlloc b .loadFlag) p'') :=
    runs_park hnext (.storePrefix (park_pc ..))
  have htrace := runs_trace (t := t) (R := R) s (Pc.traceAlloc b)
    (fun p => .alloc (.named (getMemoryDomainName (p.headerDomain b.base)))
      b.ptr b.count) (.alloc .default b.ptr b.count)
    (fun point p hpoint =>
      runs_park hnext (.traceAlloc_at b point (park_pc ..) hpoint)) p''
  have hreturn : ∀ q : Process, R (s.park t (.traceAlloc b .done) q)
      { s with process := q, live := insert b s.live } := by
    intro q
    have hstep : ThreadStep t (s.park t (.traceAlloc b .done) q) .next _ :=
      .returnNew (park_pc ..)
    have hpc : Function.update (Function.update s.pc t (.traceAlloc b .done))
        t .idle = s.pc := by
      rw [Function.update_idem, ← hidle, Function.update_eq_self]
    unfold park goto at hstep
    rw [hpc] at hstep
    exact hnext _ _ hstep
  have hprocess : (operatorNew form grant.count grant.base memory
      (s.domains t) s.process).2 =
      if p''.tracyActive then
        (p''.trace (.alloc (.named (getMemoryDomainName
          (p''.headerDomain b.base))) b.ptr b.count)).trace
            (.alloc .default b.ptr b.count)
      else p'' := by
    rw [operatorNew_eq, ← halignment]
    exact apply_ite Prod.snd _ _ _
  rw [hprocess]
  exact .head hmalloc ((hheader.trans (hword.trans htrace)).tail (hreturn _))

/-- `operator delete` up to its `free`.  The tracing leaves the memory as it
is. -/
theorem runs_delete {s : Machine τ} (form : DeleteForm) {b : Block}
    (hidle : s.pc t = .idle) (hptr : b.ptr ≠ 0) {memory : Bytes}
    (hdelete : R s { s.goto t (.loadPrefix b) with live := s.live.erase b })
    (hfree : ∀ r r' : Machine τ, r.process.memory = s.process.memory →
      ThreadStep t r (.free memory) r' → R r r') :
    Relation.ReflTransGen R s
      { s with
        process := operatorDelete form b.ptr memory s.process
        live := s.live.erase b } := by
  let r : Machine τ := { s with live := s.live.erase b }
  let base := s.process.recoverBase b.ptr
  have hload : Relation.ReflTransGen R (r.park t (.loadPrefix b) s.process)
      (r.park t (.traceFree b base .loadFlag) s.process) :=
    runs_park hnext (.loadPrefix (park_pc ..))
  have htrace := runs_trace (t := t) (R := R) r (Pc.traceFree b base)
    (fun p => .free (.named (getMemoryDomainName (p.headerDomain base))) b.ptr)
    (.free .default b.ptr)
    (fun point p hpoint =>
      runs_park hnext (.traceFree (park_pc ..) hpoint)) s.process
  have hlast : ∀ q : Process, q.memory = s.process.memory →
      R (r.park t (.traceFree b base .done) q)
        { r with process := q.free base memory } := by
    intro q hq
    have hstep : ThreadStep t (r.park t (.traceFree b base .done) q)
      (.free memory) _ := .free (park_pc ..)
    have hpc : Function.update
        (Function.update r.pc t (.traceFree b base .done)) t .idle = s.pc := by
      rw [Function.update_idem, ← hidle, Function.update_eq_self]
    unfold park goto at hstep
    rw [hpc] at hstep
    exact hfree _ _ hq hstep
  rw [operatorDelete_eq, freeImpl, if_pos hptr]
  refine .head hdelete ((hload.trans htrace).tail (hlast _ ?_))
  split
  · rw [Process.trace_memory, Process.trace_memory]
  · rfl

end Runs

variable {t : τ}

/-- A thread that runs `operator new` alone leaves the process as
`operatorNew` does, and holds the block. -/
theorem ownSteps_new {s : Machine τ} {form : NewForm} {grant : Grant}
    (hidle : s.pc t = .idle) (halignment : grant.alignment = form.alignment)
    (memory : Bytes) :
    OwnSteps t s
      { s with
        process := (operatorNew form grant.count grant.base memory
          (s.domains t) s.process).2
        live := insert (s.block t grant) s.live } :=
  runs_new (fun _ _ hstep => ⟨_, hstep⟩) hidle halignment
    ⟨_, .new hidle halignment⟩

/-- A thread that runs `operator delete` alone leaves the process as
`operatorDelete` does, and holds the block no longer. -/
theorem ownSteps_delete {s : Machine τ} (form : DeleteForm) {b : Block}
    (hidle : s.pc t = .idle) (hptr : b.ptr ≠ 0) (memory : Bytes) :
    OwnSteps t s
      { s with
        process := operatorDelete form b.ptr memory s.process
        live := s.live.erase b } :=
  runs_delete (fun _ _ hstep => ⟨_, hstep⟩) form hidle hptr
    ⟨.delete form b, .delete hidle hptr⟩ fun _ _ _ hstep => ⟨_, hstep⟩

end Machine

end VulkanCompute.Profiler
