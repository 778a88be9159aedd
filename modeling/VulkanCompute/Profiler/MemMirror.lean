import VulkanCompute.Lib.Brackets
import VulkanCompute.Profiler.MemServer
import VulkanCompute.Profiler.SerialQueue

/-!
# The server mirrors the log

The server gets the items of the log of the serial queue, with the times as
`DequeueSerial` has made them.  `opened` says which event of the log has
opened an address that is still open.

* `Mirrors` relates the server to the log: its tables have the open addresses,
  with their sizes and times.
* `Mirrors.alloc` and `Mirrors.free` add an event to the log, when the log
  allows it, and the server reports a failure when the log does not.
* `accepts_iff_orderly`: no assertion fails, and the server reports no failure
  exactly when every pool sees each address allocated and freed in turns.
-/

namespace VulkanCompute.Profiler

open Lib

/-! ## The log -/

namespace SerialCall

/-- A pool, with 0 for the default pool, sees an address come or go. -/
def bracket : SerialCall → Option (Bracket (UInt64 × UInt64))
  | .memAlloc ptr _ => some (.acquire (0, ptr))
  | .memAllocNamed ptr _ name => some (.acquire (name, ptr))
  | .memFree ptr => some (.release (0, ptr))
  | .memFreeNamed ptr name => some (.release (name, ptr))
  | .gpuNewContext _ => none
  | .gpuZoneBegin _ _ _ => none
  | .gpuZoneEnd _ _ => none
  | .gpuTime _ _ _ => none

def size : SerialCall → UInt64
  | .memAlloc _ size => size
  | .memAllocNamed _ size _ => size
  | _ => 0

/-- What the callers give: sizes of less than `2 ^ 47` bytes, names that are
addresses, and no null pointers to free. -/
def Valid : SerialCall → Prop
  | .memAlloc _ size => size.toNat < 2 ^ 47
  | .memAllocNamed _ size name => size.toNat < 2 ^ 47 ∧ name ≠ 0
  | .memFree ptr => ptr ≠ 0
  | .memFreeNamed ptr name => ptr ≠ 0 ∧ name ≠ 0
  | _ => True

instance (call : SerialCall) : Decidable call.Valid :=
  match call with
  | .memAlloc _ _ => inferInstanceAs (Decidable (_ < _))
  | .memAllocNamed _ _ _ => inferInstanceAs (Decidable (_ ∧ _))
  | .memFree _ => inferInstanceAs (Decidable (_ ≠ _))
  | .memFreeNamed _ _ => inferInstanceAs (Decidable (_ ∧ _))
  | .gpuNewContext _ => inferInstanceAs (Decidable True)
  | .gpuZoneBegin _ _ _ => inferInstanceAs (Decidable True)
  | .gpuZoneEnd _ _ => inferInstanceAs (Decidable True)
  | .gpuTime _ _ _ => inferInstanceAs (Decidable True)

end SerialCall

variable {τ : Type*}

def brackets (log : List (LogEntry τ)) : List (Bracket (UInt64 × UInt64)) :=
  log.filterMap (·.call.bracket)

/-- The event that has opened `key`, if the key is open. -/
def openedStep (key : UInt64 × UInt64) (opened : Option (LogEntry τ))
    (e : LogEntry τ) : Option (LogEntry τ) :=
  match e.call.bracket with
  | none => opened
  | some (.acquire k) => if k = key then some e else opened
  | some (.release k) => if k = key then none else opened

def opened (log : List (LogEntry τ)) (key : UInt64 × UInt64) :
    Option (LogEntry τ) :=
  log.foldl (openedStep key) none

theorem opened_append_singleton (log : List (LogEntry τ)) (e : LogEntry τ)
    (key : UInt64 × UInt64) :
    opened (log ++ [e]) key = openedStep key (opened log key) e := by
  rw [opened, List.foldl_append]
  rfl

theorem brackets_append_singleton (log : List (LogEntry τ)) (e : LogEntry τ) :
    brackets (log ++ [e]) = brackets log ++ e.call.bracket.toList := by
  rw [brackets, List.filterMap_append]
  cases h : e.call.bracket with
  | none => simp [brackets, h]
  | some b => simp [brackets, h]

/-- The keys that are open are those that are held. -/
theorem held_eq_isSome (log : List (LogEntry τ)) (key : UInt64 × UInt64) :
    held key (brackets log) = (opened log key).isSome := by
  induction log using List.reverseRecOn with
  | nil => rfl
  | append_singleton log e ih =>
    rw [brackets_append_singleton, opened_append_singleton, openedStep]
    match e.call.bracket with
    | none => rw [Option.toList_none, List.append_nil, ih]
    | some (.acquire k) =>
      rw [Option.toList_some, held_append_acquire, ih]
      by_cases hk : k = key
      · simp [hk]
      · simp [hk]
    | some (.release k) =>
      rw [Option.toList_some, held_append_release, ih]
      by_cases hk : k = key
      · simp [hk]
      · simp [hk]

/-- The items of the log as the server gets them. -/
def deltas (handle : τ → UInt32) (log : List (LogEntry τ)) : List QueueItem :=
  (dequeueSerial .zero (log.flatMap (SerialQueue.LogEntry.items handle))).2

/-- `m_refTimeSerial` behind the log, on either end. -/
def referenceAfter (handle : τ → UInt32) (log : List (LogEntry τ)) : RefTimes :=
  (dequeueSerial .zero (log.flatMap (SerialQueue.LogEntry.items handle))).1

/-! ## One event -/

namespace MemServer

variable {tscTime : Int64 → Int64} {s s' : MemServer} {m : MemData}

/-- What a function on a table answers, with the table put back. -/
def store (name : UInt64) (answer : Option (MemData × MemServer)) :
    Option MemServer :=
  answer.map fun p => p.2.setPool name p.1

theorem onPool_default (f : MemData → MemServer → Option (MemData × MemServer))
    (hpayload : s.memNamePayload = 0) :
    onPool false f s = store 0 (f (s.pool 0) s) := by
  have hsame : { s with memNamePayload := 0 } = s := by
    rw [← hpayload]
  rw [onPool, hpayload, if_pos (by decide), hsame]
  dsimp only
  cases f (s.pool 0) s <;> rfl

theorem onPool_named (f : MemData → MemServer → Option (MemData × MemServer))
    {name : UInt64} (hname : name ≠ 0) (hpayload : s.memNamePayload = 0) :
    onPool true f { s with memNamePayload := name } =
      store name (f (s.pool name) s) := by
  have hsame : { s with memNamePayload := 0 } = s := by
    rw [← hpayload]
  rw [onPool, if_pos (by simp [hname])]
  dsimp only
  rw [hsame]
  cases f (s.pool name) s <;> rfl

section Process

variable (hpayload : s.memNamePayload = 0)

include hpayload

theorem process_memAlloc (ev : QueueMemAlloc) :
    process tscTime (.memAlloc ev) s =
      store 0 (processMemAllocImpl tscTime (s.pool 0) ev s) :=
  onPool_default (fun m => processMemAllocImpl tscTime m ev) hpayload

theorem process_memFree (ev : QueueMemFree) :
    process tscTime (.memFree ev) s =
      store 0 (processMemFreeImpl tscTime (s.pool 0) ev s) :=
  onPool_default (fun m => processMemFreeImpl tscTime m ev) hpayload

variable {name : UInt64} (hname : name ≠ 0)

include hname

theorem process_memAllocNamed (ev : QueueMemAlloc) :
    process tscTime (.memAllocNamed ev) { s with memNamePayload := name } =
      store name (processMemAllocImpl tscTime (s.pool name) ev s) :=
  onPool_named (fun m => processMemAllocImpl tscTime m ev) hname hpayload

theorem process_memFreeNamed (ev : QueueMemFree) :
    process tscTime (.memFreeNamed ev) { s with memNamePayload := name } =
      store name (processMemFreeImpl tscTime (s.pool name) ev s) :=
  onPool_named (fun m => processMemFreeImpl tscTime m ev) hname hpayload

end Process

theorem run_append (items items' : List QueueItem) (s : MemServer) :
    run tscTime (items ++ items') s =
      (run tscTime items s).bind (run tscTime items') :=
  List.foldlM_append

theorem run_singleton (item : QueueItem) (hfailure : s.failure = .none) :
    run tscTime [item] s = process tscTime item s := by
  unfold run
  rw [List.foldlM_cons, if_pos hfailure]
  cases process tscTime item s <;> rfl

/-- After a failure nothing changes. -/
theorem run_of_failure (items : List QueueItem) (hfailure : s.failure ≠ .none) :
    run tscTime items s = some s := by
  unfold run
  induction items with
  | nil => rfl
  | cons item items ih =>
    rw [List.foldlM_cons, if_neg hfailure]
    exact ih

/-- `SendMemName` goes ahead of an event of a named pool. -/
theorem run_named (item : QueueItem) {name : UInt64}
    (hfailure : s.failure = .none) (hpayload : s.memNamePayload = 0) :
    run tscTime [.memNamePayload name, item] s =
      process tscTime item { s with memNamePayload := name } := by
  have hname : process tscTime (.memNamePayload name) s =
      some { s with memNamePayload := name } := if_pos hpayload
  rw [← List.singleton_append, run_append, run_singleton _ hfailure, hname]
  exact run_singleton item hfailure

theorem memAllocChanged_of_le (m : MemData) (firstTime : Int64) {time : Int64}
    (h : ∀ p ∈ m.plot.getLast?, p.1 ≤ time) :
    ∃ points, m.memAllocChanged firstTime time = some { m with plot := points } ∧
      (points.getLast?).map Prod.fst = some time := by
  have hsome : ∃ m', m.memAllocChanged firstTime time = some m' := by
    unfold MemData.memAllocChanged
    match hlast : m.plot.getLast? with
    | none => exact ⟨_, rfl⟩
    | some last => exact ⟨_, if_pos (h last hlast)⟩
  obtain ⟨m', hm'⟩ := hsome
  obtain ⟨points, rfl, hpoints⟩ := MemData.memAllocChanged_some hm'
  exact ⟨points, hm', hpoints⟩

theorem processMemAllocImpl_of_free {ev : QueueMemAlloc} {time : Int64}
    (hfree : m.active ev.ptr = none)
    (htime : refTime s.refTimeSerial ev.time = time)
    (hlast : ∀ last ∈ m.data.getLast?, last.timeAlloc ≤ tscTime time)
    (hsize : ev.size.toSize.toNat < 2 ^ 47)
    (hplot : ∀ p ∈ m.plot.getLast?, p.1 ≤ tscTime time) :
    ∃ thread points,
      processMemAllocImpl tscTime m ev s =
        some ({ m.pushAlloc ev.ptr ev.size.toSize (tscTime time) thread with
          plot := points }, s.notice time (tscTime time) ev.thread) ∧
      (points.getLast?).map Prod.fst = some (tscTime time) := by
  let thread := s.compressThread ev.thread
  let m₁ := m.pushAlloc ev.ptr ev.size.toSize (tscTime time) thread
  obtain ⟨points, hchanged, hpoints⟩ :=
    memAllocChanged_of_le m₁ s.firstTime hplot
  refine ⟨thread, points, ?_, hpoints⟩
  subst htime
  unfold processMemAllocImpl
  rw [if_neg (by rw [hfree]; nofun)]
  dsimp only
  rw [if_pos ⟨hlast, hsize⟩]
  exact Option.bind_eq_some_iff.mpr ⟨_, hchanged, rfl⟩

theorem processMemFreeImpl_of_active {ev : QueueMemFree} {time : Int64}
    {i : Nat} {event : MemEvent} (hactive : m.active ev.ptr = some i)
    (hevent : m.data[i]? = some event)
    (htime : refTime s.refTimeSerial ev.time = time)
    (hplot : ∀ p ∈ m.plot.getLast?, p.1 ≤ tscTime time) :
    ∃ thread points,
      processMemFreeImpl tscTime m ev s =
        some ({ m.pushFree ev.ptr i event (tscTime time) thread with
          plot := points }, s.notice time (tscTime time) ev.thread) ∧
      (points.getLast?).map Prod.fst = some (tscTime time) := by
  let thread := s.compressThread ev.thread
  let m₁ := m.pushFree ev.ptr i event (tscTime time) thread
  obtain ⟨points, hchanged, hpoints⟩ :=
    memAllocChanged_of_le m₁ s.firstTime hplot
  refine ⟨thread, points, ?_, hpoints⟩
  subst htime
  unfold processMemFreeImpl
  dsimp only
  rw [hactive]
  exact Option.bind_eq_some_iff.mpr
    ⟨event, hevent, Option.bind_eq_some_iff.mpr ⟨_, hchanged, rfl⟩⟩

end MemServer

/-! ## The invariant -/

/-- The times of the log do not go back, and fit when the server has computed
its own from them. -/
structure Timed (tscTime : Int64 → Int64) (log : List (LogEntry τ)) : Prop where
  sorted : log.Pairwise fun e e' => e.time ≤ e'.time
  fits : ∀ e ∈ log, MemEvent.FitsTime (tscTime e.time)

/-- The tables of the server have what is open in the log, and nothing newer
than the log. -/
structure Mirrors (handle : τ → UInt32) (tscTime : Int64 → Int64)
    (log : List (LogEntry τ)) (s : MemServer) : Prop where
  failure : s.failure = .none
  payload : s.memNamePayload = 0
  faults : s.ignoreMemFreeFaults = false
  reference : s.refTimeSerial = (referenceAfter handle log).serial
  tables : s.WellFormed
  events : ∀ name ptr,
    ((s.pool name).eventAt ptr).map (fun m => (m.size, m.timeAlloc)) =
      (opened log (name, ptr)).map fun e => (e.call.size, tscTime e.time)
  times : ∀ name, ∀ m ∈ (s.pool name).data,
    ∃ e ∈ log, m.timeAlloc = tscTime e.time
  points : ∀ name, ∀ p ∈ (s.pool name).plot.getLast?,
    ∃ e ∈ log, p.1 = tscTime e.time

theorem pool_start (firstTime lastTime : Int64) (faults : Bool)
    (name : UInt64) :
    ((MemServer.start firstTime lastTime faults).pool name) = .fresh name := by
  unfold MemServer.pool
  split
  case isTrue hname =>
    rw [hname]
    rfl
  case isFalse => rfl

theorem mirrors_start (handle : τ → UInt32) (tscTime : Int64 → Int64)
    (firstTime lastTime : Int64) :
    Mirrors handle tscTime [] (.start firstTime lastTime false) where
  failure := rfl
  payload := rfl
  faults := rfl
  reference := rfl
  tables := MemServer.wellFormed_start firstTime lastTime false
  events := fun name ptr => by rw [pool_start]; rfl
  times := fun name m hm => by
    rw [pool_start] at hm
    exact absurd hm List.not_mem_nil
  points := fun name p hp => by
    rw [pool_start] at hp
    exact absurd hp nofun

theorem MemData.WellFormed.isSome_eventAt {m : MemData} (h : m.WellFormed)
    (ptr : UInt64) : (m.eventAt ptr).isSome = (m.active ptr).isSome := by
  rw [MemData.eventAt]
  cases hactive : m.active ptr with
  | none => rfl
  | some i =>
    obtain ⟨event, hevent⟩ := h.exists_event hactive
    rw [Option.bind_some, hevent]
    rfl

section Step

variable {handle : τ → UInt32} {tscTime : Int64 → Int64}
  {log : List (LogEntry τ)} {s : MemServer} {e : LogEntry τ}
  {name ptr : UInt64}

/-- An address is active exactly when it is open in the log. -/
theorem Mirrors.isSome_active (h : Mirrors handle tscTime log s)
    (name ptr : UInt64) :
    ((s.pool name).active ptr).isSome = (opened log (name, ptr)).isSome := by
  rw [← (h.tables name).isSome_eventAt, ← Option.isSome_map, h.events,
    Option.isSome_map]

/-- Nothing in the tables is newer than the next event. -/
theorem Mirrors.times_le (h : Mirrors handle tscTime log s)
    (htimed : Timed tscTime (log ++ [e]))
    (hmono : ∀ a b, a ≤ b → tscTime a ≤ tscTime b) (name : UInt64) :
    (∀ last ∈ (s.pool name).data.getLast?, last.timeAlloc ≤ tscTime e.time) ∧
      ∀ p ∈ (s.pool name).plot.getLast?, p.1 ≤ tscTime e.time := by
  have hbefore : ∀ e' ∈ log, tscTime e'.time ≤ tscTime e.time := by
    intro e' he'
    have hsorted := (List.pairwise_append.mp htimed.sorted).2.2
    exact hmono _ _ (hsorted e' he' e List.mem_cons_self)
  constructor
  · intro last hlast
    obtain ⟨e', he', htime⟩ := h.times name last (List.mem_of_getLast? hlast)
    rw [htime]
    exact hbefore e' he'
  · intro p hp
    obtain ⟨e', he', htime⟩ := h.points name p hp
    rw [htime]
    exact hbefore e' he'

/-- The times of the tables are those of a longer log, too. -/
theorem Mirrors.times_append (h : Mirrors handle tscTime log s) (name : UInt64)
    {event : MemEvent} (hevent : event ∈ (s.pool name).data) :
    ∃ e' ∈ log ++ [e], event.timeAlloc = tscTime e'.time :=
  have ⟨e', he', htime⟩ := h.times name event hevent
  ⟨e', List.mem_append_left _ he', htime⟩

theorem Mirrors.points_append (h : Mirrors handle tscTime log s)
    (name : UInt64) {p : Int64 × UInt64}
    (hp : p ∈ (s.pool name).plot.getLast?) :
    ∃ e' ∈ log ++ [e], p.1 = tscTime e'.time :=
  have ⟨e', he', htime⟩ := h.points name p hp
  ⟨e', List.mem_append_left _ he', htime⟩

theorem MemServer.setPool_frame {α : Type*} (view : MemServer → α)
    (hview : ∀ (s : MemServer) memory map,
      view { s with memory := memory, memNameMap := map } = view s)
    (name : UInt64) (m : MemData) (s : MemServer) :
    view (s.setPool name m) = view s := by
  unfold setPool
  split
  · exact hview s m s.memNameMap
  · exact hview s s.memory _

/-- A table of the server has been replaced by one that has what is open in
the longer log. -/
theorem Mirrors.store (h : Mirrors handle tscTime log s) {m : MemData}
    (thread : UInt32)
    (href : (referenceAfter handle (log ++ [e])).serial = e.time)
    (hm : m.WellFormed)
    (hevents : ∀ ptr, (m.eventAt ptr).map (fun m => (m.size, m.timeAlloc)) =
      (opened (log ++ [e]) (name, ptr)).map
        fun e => (e.call.size, tscTime e.time))
    (hothers : ∀ name' ptr, name' ≠ name →
      opened (log ++ [e]) (name', ptr) = opened log (name', ptr))
    (htimes : ∀ event ∈ m.data,
      ∃ e' ∈ log ++ [e], event.timeAlloc = tscTime e'.time)
    (hpoints : (m.plot.getLast?).map Prod.fst = some (tscTime e.time)) :
    Mirrors handle tscTime (log ++ [e])
      ((s.notice e.time (tscTime e.time) thread).setPool name m) := by
  have hpool : ∀ name',
      ((s.notice e.time (tscTime e.time) thread).setPool name m).pool name' =
        if name' = name then m else s.pool name' :=
    fun name' => MemServer.pool_setPool name name' m _
  exact
    { failure := by
        rw [MemServer.setPool_frame (·.failure) fun _ _ _ => rfl]
        exact h.failure
      payload := by
        rw [MemServer.setPool_frame (·.memNamePayload) fun _ _ _ => rfl]
        exact h.payload
      faults := by
        rw [MemServer.setPool_frame (·.ignoreMemFreeFaults) fun _ _ _ => rfl]
        exact h.faults
      reference := by
        rw [MemServer.setPool_frame (·.refTimeSerial) fun _ _ _ => rfl, href]
        rfl
      tables := fun name' => by
        rw [hpool]
        split
        · exact hm
        · exact h.tables name'
      events := fun name' ptr => by
        rw [hpool]
        by_cases heq : name' = name
        · rw [if_pos heq, heq]
          exact hevents ptr
        · rw [if_neg heq, hothers name' ptr heq]
          exact h.events name' ptr
      times := fun name' event hevent => by
        rw [hpool] at hevent
        split at hevent
        · exact htimes event hevent
        · exact h.times_append name' hevent
      points := fun name' p hp => by
        rw [hpool] at hp
        split at hp
        · refine ⟨e, List.mem_append_right _ List.mem_cons_self, ?_⟩
          rw [Option.mem_def.mp hp] at hpoints
          exact Option.some.inj hpoints
        · exact h.points_append name' hp }

theorem MemEvent.timeAlloc_allocated {time : Int64} (h : FitsTime time)
    (ptr size : UInt64) (thread : UInt16) :
    (allocated ptr size time thread).timeAlloc = time :=
  congrArg Int64.ofBitVec (sshiftRight_timeThread h thread)

/-- An address is allocated that is not open. -/
theorem Mirrors.alloc (h : Mirrors handle tscTime log s)
    (htimed : Timed tscTime (log ++ [e]))
    (hmono : ∀ a b, a ≤ b → tscTime a ≤ tscTime b) {ev : QueueMemAlloc}
    (hbracket : e.call.bracket = some (.acquire (name, ev.ptr)))
    (htime : refTime s.refTimeSerial ev.time = e.time)
    (hsize : ev.size.toSize = e.call.size) (hlt : e.call.size.toNat < 2 ^ 47)
    (href : (referenceAfter handle (log ++ [e])).serial = e.time)
    (hclosed : opened log (name, ev.ptr) = none) :
    ∃ s', MemServer.store name
        (MemServer.processMemAllocImpl tscTime (s.pool name) ev s) = some s' ∧
      Mirrors handle tscTime (log ++ [e]) s' := by
  have hfree : (s.pool name).active ev.ptr = none := by
    have hsome := h.isSome_active name ev.ptr
    rw [hclosed] at hsome
    exact Option.not_isSome_iff_eq_none.mp (by rw [hsome]; nofun)
  obtain ⟨hlast, hplot⟩ := h.times_le htimed hmono name
  obtain ⟨thread, points, hanswer, hpoints⟩ :=
    MemServer.processMemAllocImpl_of_free hfree htime hlast (hsize ▸ hlt) hplot
  have hlt' : ev.size.toSize.toNat < 2 ^ 48 :=
    Nat.lt_trans (hsize ▸ hlt) (by decide)
  have hopened : ∀ key, opened (log ++ [e]) key =
      if (name, ev.ptr) = key then some e else opened log key := by
    intro key
    rw [opened_append_singleton, openedStep, hbracket]
  have htables := h.tables name
  refine ⟨_, congrArg (Option.map _) hanswer, h.store ev.thread href
    ((htables.pushAlloc _ _ thread hfree hlt').set_plot points)
    (fun ptr => ?_) (fun name' ptr hne => ?_) (fun event hevent => ?_) hpoints⟩
  · show (((s.pool name).pushAlloc ..).eventAt ptr).map _ = _
    rw [hopened]
    by_cases heq : ptr = ev.ptr
    · have hfits := htimed.fits e (List.mem_append_right _ List.mem_cons_self)
      rw [heq, MemData.pushAlloc_eventAt_self, if_pos rfl]
      rw [Option.map_some, Option.map_some, MemEvent.size_allocated hlt',
        MemEvent.timeAlloc_allocated hfits, hsize]
    · rw [htables.pushAlloc_eventAt_of_ne _ _ _ heq,
        if_neg fun hkey => heq (Prod.mk.inj hkey).2.symm]
      exact h.events name ptr
  · rw [hopened, if_neg fun hkey => hne (Prod.mk.inj hkey).1.symm]
  · rcases List.mem_append.mp hevent with hold | hnew
    · exact h.times_append name hold
    · refine ⟨e, List.mem_append_right _ List.mem_cons_self, ?_⟩
      rw [List.mem_singleton.mp hnew]
      exact MemEvent.timeAlloc_allocated
        (htimed.fits e (List.mem_append_right _ List.mem_cons_self)) ..

/-- An open address is freed. -/
theorem Mirrors.free (h : Mirrors handle tscTime log s)
    (htimed : Timed tscTime (log ++ [e]))
    (hmono : ∀ a b, a ≤ b → tscTime a ≤ tscTime b) {ev : QueueMemFree}
    (hbracket : e.call.bracket = some (.release (name, ev.ptr)))
    (htime : refTime s.refTimeSerial ev.time = e.time)
    (href : (referenceAfter handle (log ++ [e])).serial = e.time)
    (hopen : opened log (name, ev.ptr) ≠ none) :
    ∃ s', MemServer.store name
        (MemServer.processMemFreeImpl tscTime (s.pool name) ev s) = some s' ∧
      Mirrors handle tscTime (log ++ [e]) s' := by
  obtain ⟨i, hactive⟩ : ∃ i, (s.pool name).active ev.ptr = some i := by
    rw [← Option.isSome_iff_exists, h.isSome_active, Option.isSome_iff_ne_none]
    exact hopen
  have htables := h.tables name
  obtain ⟨event, hevent⟩ := htables.exists_event hactive
  obtain ⟨-, hplot⟩ := h.times_le htimed hmono name
  obtain ⟨thread, points, hanswer, hpoints⟩ :=
    MemServer.processMemFreeImpl_of_active hactive hevent htime hplot
  have hopened : ∀ key, opened (log ++ [e]) key =
      if (name, ev.ptr) = key then none else opened log key := by
    intro key
    rw [opened_append_singleton, openedStep, hbracket]
  refine ⟨_, congrArg (Option.map _) hanswer, h.store ev.thread href
    ((htables.pushFree _ thread hactive hevent).set_plot points)
    (fun ptr => ?_) (fun name' ptr hne => ?_) (fun event' hevent' => ?_)
    hpoints⟩
  · show (((s.pool name).pushFree ..).eventAt ptr).map _ = _
    rw [hopened]
    by_cases heq : ptr = ev.ptr
    · rw [heq, MemData.pushFree_eventAt_self, if_pos rfl]
      rfl
    · rw [htables.pushFree_eventAt_of_ne _ _ hactive heq,
        if_neg fun hkey => heq (Prod.mk.inj hkey).2.symm]
      exact h.events name ptr
  · rw [hopened, if_neg fun hkey => hne (Prod.mk.inj hkey).1.symm]
  · have hold : ∃ event ∈ (s.pool name).data,
        event'.timeAlloc = event.timeAlloc := by
      rcases List.mem_or_eq_of_mem_set hevent' with hmem | rfl
      · exact ⟨event', hmem, rfl⟩
      · exact ⟨event, List.mem_of_getElem? hevent, rfl⟩
    obtain ⟨event, hmem, hsame⟩ := hold
    rw [hsame]
    exact h.times_append name hmem

/-- What the server may answer to a log. -/
def Answers (handle : τ → UInt32) (tscTime : Int64 → Int64)
    (log : List (LogEntry τ)) (s : MemServer) : Prop :=
  Orderly (brackets log) ∧ Mirrors handle tscTime log s ∨
    ¬Orderly (brackets log) ∧ s.failure ≠ .none

theorem Mirrors.answers_alloc (h : Mirrors handle tscTime log s)
    (horderly : Orderly (brackets log)) (htimed : Timed tscTime (log ++ [e]))
    (hmono : ∀ a b, a ≤ b → tscTime a ≤ tscTime b) (ev : QueueMemAlloc)
    (hbracket : e.call.bracket = some (.acquire (name, ev.ptr)))
    (htime : refTime s.refTimeSerial ev.time = e.time)
    (hsize : ev.size.toSize = e.call.size) (hlt : e.call.size.toNat < 2 ^ 47)
    (href : (referenceAfter handle (log ++ [e])).serial = e.time) :
    ∃ s', MemServer.store name
        (MemServer.processMemAllocImpl tscTime (s.pool name) ev s) = some s' ∧
      Answers handle tscTime (log ++ [e]) s' := by
  have hbrackets : brackets (log ++ [e]) =
      brackets log ++ [.acquire (name, ev.ptr)] := by
    rw [brackets_append_singleton, hbracket]
    rfl
  have hheld := held_eq_isSome log (name, ev.ptr)
  by_cases hclosed : opened log (name, ev.ptr) = none
  · obtain ⟨s', hanswer, hs'⟩ :=
      h.alloc htimed hmono hbracket htime hsize hlt href hclosed
    rw [hclosed] at hheld
    refine ⟨s', hanswer, Or.inl ⟨?_, hs'⟩⟩
    rw [hbrackets]
    exact horderly.acquire hheld
  · have hsome := Option.isSome_iff_ne_none.mpr hclosed
    have hactive := (h.isSome_active name ev.ptr).trans hsome
    refine ⟨_, congrArg (Option.map _) (if_pos hactive), Or.inr ⟨?_, ?_⟩⟩
    · rw [hbrackets]
      intro hlonger
      rw [hlonger.free_of_acquire, hsome] at hheld
      exact absurd hheld nofun
    · rw [MemServer.setPool_frame (·.failure) fun _ _ _ => rfl]
      nofun

theorem Mirrors.answers_free (h : Mirrors handle tscTime log s)
    (horderly : Orderly (brackets log)) (htimed : Timed tscTime (log ++ [e]))
    (hmono : ∀ a b, a ≤ b → tscTime a ≤ tscTime b) (ev : QueueMemFree)
    (hbracket : e.call.bracket = some (.release (name, ev.ptr)))
    (htime : refTime s.refTimeSerial ev.time = e.time) (hptr : ev.ptr ≠ 0)
    (href : (referenceAfter handle (log ++ [e])).serial = e.time) :
    ∃ s', MemServer.store name
        (MemServer.processMemFreeImpl tscTime (s.pool name) ev s) = some s' ∧
      Answers handle tscTime (log ++ [e]) s' := by
  have hbrackets : brackets (log ++ [e]) =
      brackets log ++ [.release (name, ev.ptr)] := by
    rw [brackets_append_singleton, hbracket]
    rfl
  have hheld := held_eq_isSome log (name, ev.ptr)
  by_cases hclosed : opened log (name, ev.ptr) = none
  · have hfree : (s.pool name).active ev.ptr = none := by
      have hsome := h.isSome_active name ev.ptr
      rw [hclosed] at hsome
      exact Option.not_isSome_iff_eq_none.mp (by rw [hsome]; nofun)
    have hfault : ¬(ev.ptr = 0 ∨ s.ignoreMemFreeFaults = true) := by
      rw [h.faults]
      exact fun hor => hor.elim hptr nofun
    have hanswer : MemServer.processMemFreeImpl tscTime (s.pool name) ev s =
        some (s.pool name, { s with
          refTimeSerial := refTime s.refTimeSerial ev.time
          failure := .memFree ev.thread }) := by
      unfold MemServer.processMemFreeImpl
      dsimp only
      rw [hfree]
      exact if_neg hfault
    refine ⟨_, congrArg (Option.map _) hanswer, Or.inr ⟨?_, ?_⟩⟩
    · rw [hbrackets]
      intro hlonger
      rw [hlonger.held_of_release, hclosed] at hheld
      exact absurd hheld nofun
    · rw [MemServer.setPool_frame (·.failure) fun _ _ _ => rfl]
      nofun
  · obtain ⟨s', hanswer, hs'⟩ :=
      h.free htimed hmono hbracket htime href hclosed
    refine ⟨s', hanswer, Or.inl ⟨?_, hs'⟩⟩
    rw [hbrackets]
    exact horderly.release (hheld.trans (Option.isSome_iff_ne_none.mpr hclosed))

/-- An event that is not about memory leaves the tables alone. -/
theorem Mirrors.frame (h : Mirrors handle tscTime log s)
    (hbracket : e.call.bracket = none) {time : Int64}
    (href : (referenceAfter handle (log ++ [e])).serial = time)
    (lastTime : Int64) (threads : List UInt32) :
    Mirrors handle tscTime (log ++ [e])
      { s with
        refTimeSerial := time
        lastTime := lastTime
        threads := threads } := by
  have hopened : ∀ key, opened (log ++ [e]) key = opened log key := by
    intro key
    rw [opened_append_singleton, openedStep, hbracket]
  exact
    { h with
      reference := href.symm
      events := fun name ptr => by
        rw [hopened]
        exact h.events name ptr
      times := fun name _ => h.times_append name
      points := fun name _ => h.points_append name }

theorem Mirrors.other (h : Mirrors handle tscTime log s)
    (horderly : Orderly (brackets log)) (hbracket : e.call.bracket = none)
    {time : Int64} (href : (referenceAfter handle (log ++ [e])).serial = time) :
    Answers handle tscTime (log ++ [e]) { s with refTimeSerial := time } := by
  refine Or.inl ⟨?_, h.frame hbracket href s.lastTime s.threads⟩
  rw [brackets_append_singleton, hbracket, Option.toList_none, List.append_nil]
  exact horderly

/-- The items of the next event, as the server gets them. -/
def delta (handle : τ → UInt32) (log : List (LogEntry τ)) (e : LogEntry τ) :
    RefTimes × List QueueItem :=
  dequeueSerial (referenceAfter handle log)
    (SerialQueue.LogEntry.items handle e)

theorem deltas_append_singleton (handle : τ → UInt32) (log : List (LogEntry τ))
    (e : LogEntry τ) :
    deltas handle (log ++ [e]) = deltas handle log ++ (delta handle log e).2 ∧
      referenceAfter handle (log ++ [e]) = (delta handle log e).1 := by
  unfold deltas referenceAfter delta dequeueSerial
  rw [List.flatMap_append, List.flatMap_singleton, feed_append]
  exact ⟨rfl, rfl⟩

/-- The server answers to one more event. -/
theorem Mirrors.step (h : Mirrors handle tscTime log s)
    (horderly : Orderly (brackets log)) (htimed : Timed tscTime (log ++ [e]))
    (hmono : ∀ a b, a ≤ b → tscTime a ≤ tscTime b) (hvalid : e.call.Valid) :
    ∃ s', s.run tscTime (delta handle log e).2 = some s' ∧
      Answers handle tscTime (log ++ [e]) s' := by
  obtain ⟨-, hreference⟩ := deltas_append_singleton handle log e
  have htime : ∀ {time}, refTime s.refTimeSerial
      (time - (referenceAfter handle log).serial) = time := by
    intro time
    rw [h.reference, refTime_sub]
  have hserial := congrArg RefTimes.serial hreference
  obtain ⟨t, call, time⟩ := e
  cases call with
  | memAlloc ptr size =>
    have hsize := Size48.toSize_ofSize (Nat.lt_trans hvalid (by decide))
    obtain ⟨s', hanswer, hs'⟩ := h.answers_alloc horderly htimed hmono
      ⟨_, handle t, ptr, .ofSize size⟩ rfl htime hsize hvalid hserial
    rw [← MemServer.process_memAlloc h.payload] at hanswer
    exact ⟨s', (MemServer.run_singleton _ h.failure).trans hanswer, hs'⟩
  | memAllocNamed ptr size name =>
    have hsize := Size48.toSize_ofSize (Nat.lt_trans hvalid.1 (by decide))
    obtain ⟨s', hanswer, hs'⟩ := h.answers_alloc horderly htimed hmono
      ⟨_, handle t, ptr, .ofSize size⟩ rfl htime hsize hvalid.1 hserial
    rw [← MemServer.process_memAllocNamed h.payload hvalid.2] at hanswer
    exact ⟨s', (MemServer.run_named _ h.failure h.payload).trans hanswer, hs'⟩
  | memFree ptr =>
    obtain ⟨s', hanswer, hs'⟩ := h.answers_free horderly htimed hmono
      ⟨_, handle t, ptr⟩ rfl htime hvalid hserial
    rw [← MemServer.process_memFree h.payload] at hanswer
    exact ⟨s', (MemServer.run_singleton _ h.failure).trans hanswer, hs'⟩
  | memFreeNamed ptr name =>
    obtain ⟨s', hanswer, hs'⟩ := h.answers_free horderly htimed hmono
      ⟨_, handle t, ptr⟩ rfl htime hvalid.1 hserial
    rw [← MemServer.process_memFreeNamed h.payload hvalid.2] at hanswer
    exact ⟨s', (MemServer.run_named _ h.failure h.payload).trans hanswer, hs'⟩
  | gpuNewContext ev =>
    refine ⟨s, MemServer.run_singleton _ h.failure, ?_⟩
    have hanswers := h.other horderly rfl hserial
    have hsame : (delta handle log ⟨t, .gpuNewContext ev, time⟩).1.serial =
        s.refTimeSerial := h.reference.symm
    rw [hsame] at hanswers
    exact hanswers
  | gpuZoneBegin queryId context srcloc =>
    refine ⟨_, MemServer.run_singleton _ h.failure, ?_⟩
    rw [htime]
    exact h.other horderly rfl hserial
  | gpuZoneEnd queryId context =>
    refine ⟨_, MemServer.run_singleton _ h.failure, ?_⟩
    rw [htime]
    exact h.other horderly rfl hserial
  | gpuTime gpuTime queryId context =>
    refine ⟨s, MemServer.run_singleton _ h.failure, ?_⟩
    have hanswers := h.other horderly rfl hserial
    have hsame : (delta handle log
        ⟨t, .gpuTime gpuTime queryId context, time⟩).1.serial =
        s.refTimeSerial := h.reference.symm
    rw [hsame] at hanswers
    exact hanswers

end Step

/-! ## Runs -/

variable {tscTime : Int64 → Int64} {log : List (LogEntry τ)}

theorem Timed.of_append {log' : List (LogEntry τ)}
    (h : Timed tscTime (log ++ log')) : Timed tscTime log where
  sorted := (List.pairwise_append.mp h.sorted).1
  fits := fun e he => h.fits e (List.mem_append_left _ he)

theorem exists_answer (handle : τ → UInt32)
    (hmono : ∀ a b, a ≤ b → tscTime a ≤ tscTime b)
    (hvalid : ∀ e ∈ log, e.call.Valid) (htimed : Timed tscTime log)
    (firstTime lastTime : Int64) :
    ∃ s, (MemServer.start firstTime lastTime false).run tscTime
        (deltas handle log) = some s ∧ Answers handle tscTime log s := by
  induction log using List.reverseRecOn with
  | nil =>
    have horderly : Orderly (brackets ([] : List (LogEntry τ))) :=
      Tracks.nil.orderly
    exact ⟨_, rfl, Or.inl ⟨horderly, mirrors_start ..⟩⟩
  | append_singleton log e ih =>
    obtain ⟨s, hrun, hs⟩ := ih
      (fun e' he' => hvalid e' (List.mem_append_left _ he')) htimed.of_append
    obtain ⟨hdeltas, -⟩ := deltas_append_singleton handle log e
    rw [hdeltas, MemServer.run_append, hrun, Option.bind_some]
    rcases hs with ⟨horderly, hmirrors⟩ | ⟨hnot, hfailure⟩
    · exact hmirrors.step horderly htimed hmono
        (hvalid e (List.mem_append_right _ List.mem_cons_self))
    · refine ⟨s, MemServer.run_of_failure _ hfailure, Or.inr ⟨?_, hfailure⟩⟩
      rw [brackets_append_singleton]
      exact fun hlonger => hnot hlonger.of_append

/-- The server reports a failure exactly when some pool sees an address
allocated twice in a row or freed while it is not allocated.  Otherwise its
tables have the addresses that are open in the log, with their sizes and
times. -/
theorem accepts_iff_orderly (handle : τ → UInt32) (log : List (LogEntry τ))
    (hmono : ∀ a b, a ≤ b → tscTime a ≤ tscTime b)
    (hvalid : ∀ e ∈ log, e.call.Valid) (htimed : Timed tscTime log)
    (firstTime lastTime : Int64) :
    ∃ s, (MemServer.start firstTime lastTime false).run tscTime
        (deltas handle log) = some s ∧
      (s.failure = .none ↔ Orderly (brackets log)) ∧
      (s.failure = .none → ∀ name ptr,
        ((s.pool name).eventAt ptr).map (fun m => (m.size, m.timeAlloc)) =
          (opened log (name, ptr)).map
            fun e => (e.call.size, tscTime e.time)) := by
  obtain ⟨s, hrun, hs⟩ :=
    exists_answer handle hmono hvalid htimed firstTime lastTime
  refine ⟨s, hrun, ?_, fun hfailure => ?_⟩
  · rcases hs with ⟨horderly, hmirrors⟩ | ⟨hnot, hfailure⟩
    · exact iff_of_true hmirrors.failure horderly
    · exact iff_of_false hfailure hnot
  · rcases hs with ⟨-, hmirrors⟩ | ⟨-, hnot⟩
    · exact hmirrors.events
    · exact absurd hfailure hnot

/-- Two threads, two pools and an address that comes back. -/
def reuseLog : List (LogEntry Bool) :=
  [⟨true, .memAlloc 64 10, 1⟩, ⟨true, .memAllocNamed 64 10 7, 2⟩,
    ⟨false, .memFreeNamed 64 7, 3⟩, ⟨false, .memFree 64, 3⟩,
    ⟨true, .gpuZoneBegin 0 0 9, 4⟩, ⟨true, .memAlloc 64 20, 6⟩]

theorem orderly_reuseLog : Orderly (brackets reuseLog) := by
  have hnil : Orderly ([] : List (Bracket (UInt64 × UInt64))) :=
    Tracks.nil.orderly
  have hopen := (hnil.acquire (k := (0, 64)) rfl).acquire (k := (7, 64)) rfl
  exact ((hopen.release (k := (7, 64)) rfl).release (k := (0, 64)) rfl).acquire
    (k := (0, 64)) rfl

/-- The server accepts the log and has the block that is open at its end.  One
more event about a block that it has not seen, and it reports a failure. -/
theorem accepts_iff_orderly_reuse :
    let handle : Bool → UInt32 := fun t => if t then 2 else 1
    (∃ s, (MemServer.start 0 0 false).run id (deltas handle reuseLog) = some s ∧
      s.failure = .none ∧
      ((s.pool 0).eventAt 64).map (fun m => (m.size, m.timeAlloc)) =
        some (20, 6) ∧
      ((s.pool 7).eventAt 64).map (fun m => (m.size, m.timeAlloc)) = none) ∧
    ∃ s, (MemServer.start 0 0 false).run id
        (deltas handle (reuseLog ++ [⟨false, .memFree 128, 7⟩])) = some s ∧
      s.failure ≠ .none := by
  intro handle
  constructor
  · obtain ⟨s, hrun, hiff, hevents⟩ := accepts_iff_orderly handle reuseLog
      (fun _ _ h => h) (by decide) ⟨by decide, by decide⟩ 0 0
    have hfailure := hiff.mpr orderly_reuseLog
    exact ⟨s, hrun, hfailure, hevents hfailure 0 64, hevents hfailure 7 64⟩
  · obtain ⟨s, hrun, hiff, -⟩ := accepts_iff_orderly handle
      (reuseLog ++ [⟨false, .memFree 128, 7⟩]) (fun _ _ h => h) (by decide)
      ⟨by decide, by decide⟩ 0 0
    refine ⟨s, hrun, ?_⟩
    rw [Ne, hiff, brackets_append_singleton]
    intro horderly
    exact absurd horderly.held_of_release (by decide)

end VulkanCompute.Profiler
