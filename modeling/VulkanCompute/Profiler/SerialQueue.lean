import Mathlib.Logic.Relation
import VulkanCompute.Profiler.Wire

/-!
# The serial queue

Threads put their events into `m_serialQueue` under `m_serialLock`.  The
profiler thread takes the lock, swaps the queue for the empty
`m_serialDequeue`, gives the lock back and works through what it has got.
An event of a named pool takes two items, and the server expects them next to
each other.

`SerialStep` has one constructor for each thing that a thread does, `log` is
the order in which the events were queued, and `Consistent` is the invariant:
what has been appended to the connection, what is left of `m_serialDequeue`
and what is in `m_serialQueue` are together the items of the log, in its
order.  `items_in_order` says so for every run.
-/

namespace VulkanCompute.Profiler

/-! ## Events -/

/-- The calls that queue an event, `MemAlloc` and so on.  A time that the call
does not take itself is in its arguments. -/
inductive SerialCall where
  | memAlloc (ptr size : UInt64)
  | memAllocNamed (ptr size name : UInt64)
  | memFree (ptr : UInt64)
  | memFreeNamed (ptr name : UInt64)
  | gpuNewContext (ev : QueueGpuNewContext)
  | gpuZoneBegin (queryId : UInt16) (context : UInt8) (srcloc : UInt64)
  | gpuZoneEnd (queryId : UInt16) (context : UInt8)
  | gpuTime (time : Int64) (queryId : UInt16) (context : UInt8)

namespace SerialCall

/-- What `SendMemName` queues first. -/
def namePayload : SerialCall → List QueueItem
  | .memAllocNamed _ _ name => [.memNamePayload name]
  | .memFreeNamed _ name => [.memNamePayload name]
  | _ => []

/-- The event, for a thread and a time. -/
def item (thread : UInt32) (time : Int64) : SerialCall → QueueItem
  | .memAlloc ptr size => .memAlloc ⟨time, thread, ptr, .ofSize size⟩
  | .memAllocNamed ptr size _ =>
    .memAllocNamed ⟨time, thread, ptr, .ofSize size⟩
  | .memFree ptr => .memFree ⟨time, thread, ptr⟩
  | .memFreeNamed ptr _ => .memFreeNamed ⟨time, thread, ptr⟩
  | .gpuNewContext ev => .gpuNewContext ev
  | .gpuZoneBegin queryId context srcloc =>
    .gpuZoneBeginSerial ⟨time, thread, queryId, context, srcloc⟩
  | .gpuZoneEnd queryId context =>
    .gpuZoneEndSerial ⟨time, thread, queryId, context⟩
  | .gpuTime time queryId context => .gpuTime ⟨time, queryId, context⟩

def items (thread : UInt32) (time : Int64) (call : SerialCall) :
    List QueueItem :=
  call.namePayload ++ [call.item thread time]

end SerialCall

/-! ## The machine -/

/-- Where a thread is in its call. -/
inductive ProducerPc where
  | idle
  /-- waits for `m_serialLock` -/
  | calling (call : SerialCall)
  /-- has the lock -/
  | locked (call : SerialCall)
  /-- has called `SendMemName` if it had to -/
  | named (call : SerialCall)
  /-- has queued the event -/
  | queued

/-- Where the profiler thread is in `DequeueSerial`. -/
inductive ConsumerPc where
  | idle
  | locked
  | swapped
  | appending

/-- Who has `m_serialLock`. -/
inductive LockHolder (τ : Type*) where
  | thread (t : τ)
  | profiler

structure LogEntry (τ : Type*) where
  thread : τ
  call : SerialCall
  time : Int64

/-- The two queues and their users.  `next` is how far `item` has come in
`m_serialDequeue`, `appended` what was given to `AppendData`, and `clock` what
`GetTime` reads. -/
structure SerialQueue (τ : Type*) where
  lock : Option (LockHolder τ)
  queue : List QueueItem
  dequeue : List QueueItem
  next : Nat
  appended : List QueueItem
  clock : Int64
  pc : τ → ProducerPc
  consumer : ConsumerPc
  log : List (LogEntry τ)

namespace SerialQueue

variable {τ : Type*} [DecidableEq τ]

def start (τ : Type*) (clock : Int64) : SerialQueue τ where
  lock := none
  queue := []
  dequeue := []
  next := 0
  appended := []
  clock := clock
  pc := fun _ => .idle
  consumer := .idle
  log := []

/-- The thread goes on at `pc`. -/
def goto (s : SerialQueue τ) (t : τ) (pc : ProducerPc) : SerialQueue τ :=
  { s with pc := Function.update s.pc t pc }

/-! ### The steps of a thread -/

def lockBy (s : SerialQueue τ) (t : τ) (c : SerialCall) : SerialQueue τ :=
  let s := s.goto t (.locked c)
  { s with lock := some (.thread t) }

/-- `SendMemName`, for an event of a named pool. -/
def sendName (s : SerialQueue τ) (t : τ) (c : SerialCall) : SerialQueue τ :=
  let s := s.goto t (.named c)
  { s with queue := s.queue ++ c.namePayload }

/-- The event gets its time and is queued. -/
def commit (s : SerialQueue τ) (t : τ) (handle : UInt32) (c : SerialCall) :
    SerialQueue τ :=
  let s := s.goto t .queued
  { s with
    queue := s.queue ++ [c.item handle s.clock]
    log := s.log ++ [⟨t, c, s.clock⟩] }

def unlock (s : SerialQueue τ) (t : τ) : SerialQueue τ :=
  let s := s.goto t .idle
  { s with lock := none }

/-! ### The steps of the profiler thread -/

/-- `try_lock` has succeeded. -/
def tryLock (s : SerialQueue τ) : SerialQueue τ :=
  { s with lock := some .profiler, consumer := .locked }

/-- `swap`, unless the queue is empty. -/
def swap (s : SerialQueue τ) : SerialQueue τ :=
  if s.queue = [] then { s with consumer := .swapped }
  else
    { s with
      queue := s.dequeue
      dequeue := s.queue
      consumer := .swapped }

def unlockSwapped (s : SerialQueue τ) : SerialQueue τ :=
  { s with lock := none, consumer := .appending }

def append (s : SerialQueue τ) (item : QueueItem) : SerialQueue τ :=
  { s with appended := s.appended ++ [item], next := s.next + 1 }

/-- `clear`, at the end of `m_serialDequeue`. -/
def clear (s : SerialQueue τ) : SerialQueue τ :=
  { s with dequeue := [], next := 0, consumer := .idle }

end SerialQueue

/-- One step of a thread, of the profiler thread or of the clock.  `handle` is
`GetThreadHandle`. -/
inductive SerialStep {τ : Type*} [DecidableEq τ] (handle : τ → UInt32) :
    SerialQueue τ → SerialQueue τ → Prop where
  | call {s : SerialQueue τ} {t : τ} (c : SerialCall) (hpc : s.pc t = .idle) :
      SerialStep handle s (s.goto t (.calling c))
  | lock {s : SerialQueue τ} {t : τ} {c : SerialCall}
      (hpc : s.pc t = .calling c) (hfree : s.lock = none) :
      SerialStep handle s (s.lockBy t c)
  | sendName {s : SerialQueue τ} {t : τ} {c : SerialCall}
      (hpc : s.pc t = .locked c) : SerialStep handle s (s.sendName t c)
  | commit {s : SerialQueue τ} {t : τ} {c : SerialCall}
      (hpc : s.pc t = .named c) : SerialStep handle s (s.commit t (handle t) c)
  | unlock {s : SerialQueue τ} {t : τ} (hpc : s.pc t = .queued) :
      SerialStep handle s (s.unlock t)
  | tick {s : SerialQueue τ} (clock : Int64) (hle : s.clock ≤ clock) :
      SerialStep handle s { s with clock := clock }
  | tryLock {s : SerialQueue τ} (hpc : s.consumer = .idle)
      (hfree : s.lock = none) : SerialStep handle s s.tryLock
  | swap {s : SerialQueue τ} (hpc : s.consumer = .locked) :
      SerialStep handle s s.swap
  | unlockSwapped {s : SerialQueue τ} (hpc : s.consumer = .swapped) :
      SerialStep handle s s.unlockSwapped
  | append {s : SerialQueue τ} {item : QueueItem}
      (hpc : s.consumer = .appending) (hitem : s.dequeue[s.next]? = some item) :
      SerialStep handle s (s.append item)
  | clear {s : SerialQueue τ} (hpc : s.consumer = .appending)
      (hend : s.dequeue.length ≤ s.next) : SerialStep handle s s.clear

/-! ## The invariant -/

/-- The thread has `m_serialLock`. -/
def ProducerPc.Critical : ProducerPc → Prop
  | .idle => False
  | .calling _ => False
  | .locked _ => True
  | .named _ => True
  | .queued => True

/-- What the thread has queued of its event. -/
def ProducerPc.begun : ProducerPc → List QueueItem
  | .named call => call.namePayload
  | _ => []

def ConsumerPc.Critical : ConsumerPc → Prop
  | .idle => False
  | .locked => True
  | .swapped => True
  | .appending => False

/-- `m_serialDequeue` is empty. -/
def ConsumerPc.Cleared : ConsumerPc → Prop
  | .idle => True
  | .locked => True
  | .swapped => False
  | .appending => False

namespace SerialQueue

variable {τ : Type*}

/-- The event that is being queued. -/
def begun (s : SerialQueue τ) : List QueueItem :=
  match s.lock with
  | some (.thread t) => (s.pc t).begun
  | _ => []

/-- What has been queued and not appended. -/
def pending (s : SerialQueue τ) : List QueueItem :=
  s.dequeue.drop s.next ++ s.queue

def LogEntry.items (handle : τ → UInt32) (e : LogEntry τ) : List QueueItem :=
  e.call.items (handle e.thread) e.time

structure Consistent (handle : τ → UInt32) (s : SerialQueue τ) : Prop where
  thread_iff : ∀ t, (s.pc t).Critical ↔ s.lock = some (.thread t)
  profiler_iff : s.consumer.Critical ↔ s.lock = some .profiler
  cleared : s.consumer.Cleared → s.dequeue = []
  unread : s.consumer ≠ .appending → s.next = 0
  conserved : s.appended ++ s.pending =
    s.log.flatMap (LogEntry.items handle) ++ s.begun
  sorted : s.log.Pairwise fun e e' => e.time ≤ e'.time
  past : ∀ e ∈ s.log, e.time ≤ s.clock

theorem consistent_start (handle : τ → UInt32) (clock : Int64) :
    Consistent handle (start τ clock) where
  thread_iff := fun _ => ⟨False.elim, nofun⟩
  profiler_iff := ⟨False.elim, nofun⟩
  cleared := fun _ => rfl
  unread := fun _ => rfl
  conserved := rfl
  sorted := .nil
  past := fun _ h => absurd h List.not_mem_nil

variable {handle : τ → UInt32} {s s' : SerialQueue τ} {t : τ} {c : SerialCall}

/-! ### The lock -/

theorem Consistent.holder (h : Consistent handle s)
    (hcritical : (s.pc t).Critical) : s.lock = some (.thread t) :=
  (h.thread_iff t).mp hcritical

theorem Consistent.not_holder (h : Consistent handle s)
    (hcritical : ¬(s.pc t).Critical) : s.lock ≠ some (.thread t) :=
  fun hlock => hcritical ((h.thread_iff t).mpr hlock)

theorem begun_of_holder (hlock : s.lock = some (.thread t)) :
    s.begun = (s.pc t).begun := by
  rw [SerialQueue.begun, hlock]

theorem begun_of_free (hlock : s.lock = none) : s.begun = [] := by
  rw [SerialQueue.begun, hlock]

section Threads

variable [DecidableEq τ]

theorem goto_pc_self (s : SerialQueue τ) (t : τ) (pc : ProducerPc) :
    (s.goto t pc).pc t = pc := Function.update_self ..

theorem goto_pc_of_ne (s : SerialQueue τ) {t u : τ} (pc : ProducerPc)
    (h : u ≠ t) : (s.goto t pc).pc u = s.pc u := Function.update_of_ne h _ _

/-- A thread without the lock queues nothing. -/
theorem begun_goto (hlock : s.lock ≠ some (.thread t)) (pc : ProducerPc) :
    (s.goto t pc).begun = s.begun := by
  show (match s.lock with
    | some (.thread u) => ((s.goto t pc).pc u).begun
    | _ => []) = s.begun
  unfold SerialQueue.begun
  match hholder : s.lock with
  | none => rfl
  | some .profiler => rfl
  | some (.thread u) =>
    have hne : u ≠ t := fun heq => hlock (by rw [hholder, heq])
    exact congrArg ProducerPc.begun (s.goto_pc_of_ne pc hne)

/-- The thread goes on, with or without the lock as before. -/
theorem Consistent.thread_iff_goto (h : Consistent handle s) {pc : ProducerPc}
    (hpc : pc.Critical ↔ (s.pc t).Critical) (u : τ) :
    ((s.goto t pc).pc u).Critical ↔ s.lock = some (.thread u) := by
  rw [← h.thread_iff u]
  by_cases hu : u = t
  · subst hu
    rw [goto_pc_self]
    exact hpc
  · rw [s.goto_pc_of_ne pc hu]

/-! ### The steps of a thread -/

theorem Consistent.call (h : Consistent handle s) (c : SerialCall)
    (hpc : s.pc t = .idle) : Consistent handle (s.goto t (.calling c)) where
  thread_iff := h.thread_iff_goto (by rw [hpc]; exact Iff.rfl)
  profiler_iff := h.profiler_iff
  cleared := h.cleared
  unread := h.unread
  conserved := by
    rw [begun_goto (h.not_holder (by rw [hpc]; exact id))]
    exact h.conserved
  sorted := h.sorted
  past := h.past

theorem Consistent.lockBy (h : Consistent handle s)
    (hpc : s.pc t = .calling c) (hfree : s.lock = none) :
    Consistent handle (s.lockBy t c) where
  thread_iff u := by
    show ((s.goto t (.locked c)).pc u).Critical ↔
      some (LockHolder.thread t) = some (.thread u)
    by_cases hu : u = t
    · subst hu
      rw [goto_pc_self]
      exact ⟨fun _ => rfl, fun _ => trivial⟩
    · rw [s.goto_pc_of_ne _ hu, h.thread_iff u, hfree]
      simp [Ne.symm hu]
  profiler_iff := by
    have hnot : ¬s.consumer.Critical := by
      rw [h.profiler_iff, hfree]
      nofun
    exact ⟨fun hcritical => absurd hcritical hnot, nofun⟩
  cleared := h.cleared
  unread := h.unread
  conserved := by
    have hbegun : (s.lockBy t c).begun = s.begun := by
      rw [begun_of_free hfree, begun_of_holder (t := t) rfl]
      exact congrArg ProducerPc.begun (s.goto_pc_self t (.locked c))
    rw [hbegun]
    exact h.conserved
  sorted := h.sorted
  past := h.past

theorem Consistent.sendName (h : Consistent handle s)
    (hpc : s.pc t = .locked c) : Consistent handle (s.sendName t c) where
  thread_iff := h.thread_iff_goto (by rw [hpc]; exact Iff.rfl)
  profiler_iff := h.profiler_iff
  cleared := h.cleared
  unread := h.unread
  conserved := by
    have hlock := h.holder (t := t) (by rw [hpc]; exact trivial)
    have hlock' : (s.sendName t c).lock = some (.thread t) := hlock
    have hbegun : (s.sendName t c).begun = c.namePayload :=
      (begun_of_holder hlock').trans
        (congrArg ProducerPc.begun (s.goto_pc_self t (.named c)))
    have hconserved := h.conserved
    rw [begun_of_holder hlock, hpc] at hconserved
    rw [hbegun]
    show s.appended ++ (s.dequeue.drop s.next ++ (s.queue ++ c.namePayload)) =
      s.log.flatMap (LogEntry.items handle) ++ c.namePayload
    rw [← List.append_assoc (s.dequeue.drop s.next), ← List.append_assoc]
    exact congrArg (· ++ c.namePayload)
      (hconserved.trans (List.append_nil _))
  sorted := h.sorted
  past := h.past

theorem Consistent.commit (h : Consistent handle s)
    (hpc : s.pc t = .named c) :
    Consistent handle (s.commit t (handle t) c) where
  thread_iff := h.thread_iff_goto (by rw [hpc]; exact Iff.rfl)
  profiler_iff := h.profiler_iff
  cleared := h.cleared
  unread := h.unread
  conserved := by
    have hlock := h.holder (t := t) (by rw [hpc]; exact trivial)
    have hlock' : (s.commit t (handle t) c).lock = some (.thread t) := hlock
    have hbegun : (s.commit t (handle t) c).begun = [] :=
      (begun_of_holder hlock').trans
        (congrArg ProducerPc.begun (s.goto_pc_self t .queued))
    have hconserved := h.conserved
    rw [begun_of_holder hlock, hpc] at hconserved
    rw [hbegun, List.append_nil]
    show s.appended ++
        (s.dequeue.drop s.next ++ (s.queue ++ [c.item (handle t) s.clock])) =
      (s.log ++ [LogEntry.mk t c s.clock]).flatMap (LogEntry.items handle)
    have hitems : [LogEntry.mk t c s.clock].flatMap (LogEntry.items handle) =
        c.namePayload ++ [c.item (handle t) s.clock] :=
      List.flatMap_singleton ..
    rw [List.flatMap_append, hitems, ← List.append_assoc (s.dequeue.drop s.next),
      ← List.append_assoc s.appended, ← List.append_assoc (List.flatMap _ _)]
    exact congrArg (· ++ [c.item (handle t) s.clock]) hconserved
  sorted := by
    refine List.pairwise_append.mpr
      ⟨h.sorted, List.pairwise_singleton _ _, fun e he e' he' => ?_⟩
    rw [List.mem_singleton.mp he']
    exact h.past e he
  past e he := by
    rcases List.mem_append.mp he with hold | hnew
    · exact h.past e hold
    · rw [List.mem_singleton.mp hnew]
      exact Int64.le_refl _

theorem Consistent.unlock (h : Consistent handle s) (hpc : s.pc t = .queued) :
    Consistent handle (s.unlock t) :=
  have hlock := h.holder (t := t) (by rw [hpc]; exact trivial)
  { h with
    thread_iff := fun u => by
      show ((s.goto t .idle).pc u).Critical ↔ none = some (LockHolder.thread u)
      by_cases hu : u = t
      · subst hu
        rw [goto_pc_self]
        exact ⟨False.elim, nofun⟩
      · rw [s.goto_pc_of_ne _ hu, h.thread_iff u, hlock]
        simp [Ne.symm hu]
    profiler_iff := by
      have hnot : ¬s.consumer.Critical := by
        rw [h.profiler_iff, hlock]
        nofun
      exact ⟨fun hcritical => absurd hcritical hnot, nofun⟩
    conserved := by
      have hconserved := h.conserved
      rw [begun_of_holder hlock, hpc] at hconserved
      exact hconserved }

end Threads

/-! ### The steps of the profiler thread and of the clock -/

theorem Consistent.tick (h : Consistent handle s) {clock : Int64}
    (hle : s.clock ≤ clock) : Consistent handle { s with clock := clock } where
  thread_iff := h.thread_iff
  profiler_iff := h.profiler_iff
  cleared := h.cleared
  unread := h.unread
  conserved := h.conserved
  sorted := h.sorted
  past := fun e he => Int64.le_trans (h.past e he) hle

theorem Consistent.tryLock (h : Consistent handle s) (hpc : s.consumer = .idle)
    (hfree : s.lock = none) : Consistent handle s.tryLock where
  thread_iff u := by
    have hnot : ¬(s.pc u).Critical := by
      rw [h.thread_iff u, hfree]
      nofun
    exact ⟨fun hcritical => absurd hcritical hnot, nofun⟩
  profiler_iff := ⟨fun _ => rfl, fun _ => trivial⟩
  cleared := fun _ => h.cleared (by rw [hpc]; exact trivial)
  unread := fun _ => h.unread (by rw [hpc]; nofun)
  conserved := by
    have hconserved := h.conserved
    rw [begun_of_free hfree] at hconserved
    exact hconserved
  sorted := h.sorted
  past := h.past

/-- The swap keeps the items in order, for `m_serialDequeue` is empty. -/
theorem Consistent.swap (h : Consistent handle s) (hpc : s.consumer = .locked) :
    Consistent handle s.swap := by
  have hempty := h.cleared (by rw [hpc]; exact trivial)
  have hnext := h.unread (by rw [hpc]; nofun)
  have hlock := h.profiler_iff.mp (by rw [hpc]; exact trivial)
  have hconserved := h.conserved
  rw [pending, hempty, List.drop_nil] at hconserved
  unfold SerialQueue.swap
  split
  · exact
      { h with
        profiler_iff := ⟨fun _ => hlock, fun _ => trivial⟩
        cleared := False.elim
        unread := fun _ => hnext }
  · exact
      { h with
        profiler_iff := ⟨fun _ => hlock, fun _ => trivial⟩
        cleared := False.elim
        unread := fun _ => hnext
        conserved := by
          show s.appended ++ (s.queue.drop s.next ++ s.dequeue) = _
          rw [hnext, hempty, List.drop_zero, List.append_nil]
          exact hconserved }

theorem Consistent.unlockSwapped (h : Consistent handle s)
    (hpc : s.consumer = .swapped) : Consistent handle s.unlockSwapped :=
  have hlock := h.profiler_iff.mp (by rw [hpc]; exact trivial)
  { h with
    thread_iff := fun u => by
      have hnot : ¬(s.pc u).Critical := by
        rw [h.thread_iff u, hlock]
        nofun
      exact ⟨fun hcritical => absurd hcritical hnot, nofun⟩
    profiler_iff := ⟨False.elim, nofun⟩
    cleared := False.elim
    unread := fun hne => absurd rfl hne
    conserved := by
      have hconserved := h.conserved
      rw [begun, hlock] at hconserved
      exact hconserved }

theorem Consistent.append (h : Consistent handle s) {item : QueueItem}
    (hpc : s.consumer = .appending) (hitem : s.dequeue[s.next]? = some item) :
    Consistent handle (s.append item) := by
  obtain ⟨hlt, rfl⟩ := List.getElem?_eq_some_iff.mp hitem
  exact
    { h with
      unread := fun hne => absurd hpc hne
      conserved := by
        refine Eq.trans ?_ h.conserved
        show s.appended ++ [s.dequeue[s.next]] ++
          (s.dequeue.drop (s.next + 1) ++ s.queue) = _
        rw [pending, List.drop_eq_getElem_cons hlt, List.append_assoc]
        rfl }

theorem Consistent.clear (h : Consistent handle s)
    (hpc : s.consumer = .appending) (hend : s.dequeue.length ≤ s.next) :
    Consistent handle s.clear :=
  { h with
    profiler_iff := ⟨False.elim, fun hlock => by
      have hcritical := h.profiler_iff.mpr hlock
      rw [hpc] at hcritical
      exact hcritical⟩
    cleared := fun _ => rfl
    unread := fun _ => rfl
    conserved := by
      have hconserved := h.conserved
      rw [pending, List.drop_eq_nil_of_le hend] at hconserved
      exact hconserved }

theorem Consistent.step [DecidableEq τ] (h : Consistent handle s)
    (hstep : SerialStep handle s s') : Consistent handle s' := by
  cases hstep with
  | call c hpc => exact h.call c hpc
  | lock hpc hfree => exact h.lockBy hpc hfree
  | sendName hpc => exact h.sendName hpc
  | commit hpc => exact h.commit hpc
  | unlock hpc => exact h.unlock hpc
  | tick clock hle => exact h.tick hle
  | tryLock hpc hfree => exact h.tryLock hpc hfree
  | swap hpc => exact h.swap hpc
  | unlockSwapped hpc => exact h.unlockSwapped hpc
  | append hpc hitem => exact h.append hpc hitem
  | clear hpc hend => exact h.clear hpc hend

/-! ## Runs -/

/-- The items of the log are appended in its order, none of them twice, and
those of a named pool with nothing between them.  Once the queues are empty
and nobody has the lock, all of them have been appended.  The times of the
log do not go back. -/
theorem items_in_order [DecidableEq τ] (handle : τ → UInt32) (clock : Int64)
    (h : Relation.ReflTransGen (SerialStep handle) (start τ clock) s) :
    s.appended <+: s.log.flatMap (LogEntry.items handle) ++ s.begun ∧
      (s.pending = [] → s.lock = none →
        s.appended = s.log.flatMap (LogEntry.items handle)) ∧
      s.log.Pairwise fun e e' => e.time ≤ e'.time := by
  have hs : Consistent handle s := by
    induction h with
    | refl => exact consistent_start handle clock
    | tail _ hstep ih => exact ih.step hstep
  refine ⟨⟨s.pending, hs.conserved⟩, fun hpending hfree => ?_, hs.sorted⟩
  have hconserved := hs.conserved
  rw [hpending, begun_of_free hfree, List.append_nil, List.append_nil]
    at hconserved
  exact hconserved

/-- Two threads call at the same time.  One of them is in its next call while
the profiler thread works through what it has got. -/
theorem items_in_order_two_threads :
    let handle : Bool → UInt32 := fun t => if t then 2 else 1
    ∃ s s' : SerialQueue Bool,
      Relation.ReflTransGen (SerialStep handle) (start Bool 3) s ∧
      Relation.ReflTransGen (SerialStep handle) (start Bool 3) s' ∧
      s.begun = [.memNamePayload 7] ∧
      s.appended = [.memNamePayload 7, .memAllocNamed ⟨5, 2, 64, .ofSize 8⟩] ∧
      s.appended <+: s.log.flatMap (LogEntry.items handle) ++ s.begun ∧
      s'.appended = [.memNamePayload 7, .memAllocNamed ⟨5, 2, 64, .ofSize 8⟩,
        .memFree ⟨6, 1, 32⟩, .memNamePayload 7, .memFreeNamed ⟨9, 2, 64⟩] ∧
      s'.appended = s'.log.flatMap (LogEntry.items handle) ∧
      s'.log.Pairwise fun e e' => e.time ≤ e'.time := by
  intro handle
  have hstart : Relation.ReflTransGen (SerialStep handle) (start Bool 3) _ :=
    .single (.call (t := true) (.memAllocNamed 64 8 7) rfl)
  have hqueued := ((((((((((hstart.tail
    (.call (t := false) (.memFree 32) rfl)).tail
    (.lock (t := true) rfl rfl)).tail (.sendName (t := true) rfl)).tail
    (.tick 5 (by decide))).tail (.commit (t := true) rfl)).tail
    (.unlock (t := true) rfl)).tail (.lock (t := false) rfl rfl)).tail
    (.sendName (t := false) rfl)).tail (.tick 6 (by decide))).tail
    (.commit (t := false) rfl)).tail (.unlock (t := false) rfl)
  -- the profiler thread takes the three items and appends two of them
  have hbegun := (((((((hqueued.tail (.tryLock rfl rfl)).tail (.swap rfl)).tail
    (.unlockSwapped rfl)).tail (.append rfl rfl)).tail
    (.call (t := true) (.memFreeNamed 64 7) rfl)).tail
    (.lock (t := true) rfl rfl)).tail (.append rfl rfl)).tail
    (.sendName (t := true) rfl)
  have hend := (((((((((hbegun.tail (.tick 9 (by decide))).tail
    (.commit (t := true) rfl)).tail (.append rfl rfl)).tail
    (.clear rfl (by decide))).tail (.unlock (t := true) rfl)).tail
    (.tryLock rfl rfl)).tail (.swap rfl)).tail (.unlockSwapped rfl)).tail
    (.append rfl rfl)).tail (.append rfl rfl)
  obtain ⟨hbefore, -, -⟩ := items_in_order handle 3 hbegun
  obtain ⟨-, hall, hsorted⟩ := items_in_order handle 3 hend
  exact ⟨_, _, hbegun, hend, rfl, rfl, hbefore, rfl, hall rfl rfl, hsorted⟩

end SerialQueue

end VulkanCompute.Profiler
