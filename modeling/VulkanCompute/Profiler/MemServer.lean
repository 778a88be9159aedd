import VulkanCompute.Profiler.MemData

/-!
# The server and the memory events

What the `Process` functions of the server do with the items of the serial
queue that are about memory.  A failed assertion is `none`, and a failure that
the server reports is in `failure`, after which it reads no more.

`run_wellFormed`: whatever the items are, every table stays well formed.
-/

namespace VulkanCompute.Profiler

open Lib

/-! ## The functions -/

inductive Failure where
  | none
  | memFree (thread : UInt32)
  | memAllocTwice (thread : UInt32)
deriving DecidableEq

/-- What the server keeps between two items, as far as memory events need it.
`threads` are the threads of `m_threadExpand` behind the first one, which is
not used. -/
structure MemServer where
  memory : MemData
  memNameMap : UInt64 → Option MemData
  memNamePayload : UInt64
  refTimeSerial : Int64
  firstTime : Int64
  lastTime : Int64
  threads : List UInt32
  ignoreMemFreeFaults : Bool
  failure : Failure

namespace MemServer

/-- When the handshake has been read. -/
def start (firstTime lastTime : Int64) (ignoreMemFreeFaults : Bool) :
    MemServer where
  memory := .fresh 0
  memNameMap := fun _ => none
  memNamePayload := 0
  refTimeSerial := 0
  firstTime := firstTime
  lastTime := lastTime
  threads := []
  ignoreMemFreeFaults := ignoreMemFreeFaults
  failure := .none

/-- What `CompressThread` answers. -/
def compressThread (s : MemServer) (thread : UInt32) : UInt16 :=
  .ofNat (s.threads.idxOf thread + 1)

/-- What an event that changes a table makes of `m_refTimeSerial`,
`m_data.lastTime` and the threads. -/
def notice (s : MemServer) (reference time : Int64) (thread : UInt32) :
    MemServer :=
  { s with
    refTimeSerial := reference
    lastTime := if s.lastTime < time then time else s.lastTime
    threads :=
      if thread ∈ s.threads then s.threads else s.threads ++ [thread] }

variable (tscTime : Int64 → Int64)

/-- `ProcessMemAllocImpl`. -/
def processMemAllocImpl (m : MemData) (ev : QueueMemAlloc) (s : MemServer) :
    Option (MemData × MemServer) :=
  if (m.active ev.ptr).isSome then
    some (m, { s with failure := .memAllocTwice ev.thread })
  else
    let reference := refTime s.refTimeSerial ev.time
    let time := tscTime reference
    let thread := s.compressThread ev.thread
    let s := s.notice reference time ev.thread
    let size := ev.size.toSize
    -- the assertions on the last event and in `SetSize`
    if (∀ last ∈ m.data.getLast?, last.timeAlloc ≤ time) ∧
        size.toNat < 2 ^ 47 then do
      let m ← (m.pushAlloc ev.ptr size time thread).memAllocChanged s.firstTime
        time
      return (m, s)
    else none

/-- `ProcessMemFreeImpl`. -/
def processMemFreeImpl (m : MemData) (ev : QueueMemFree) (s : MemServer) :
    Option (MemData × MemServer) :=
  let reference := refTime s.refTimeSerial ev.time
  match m.active ev.ptr with
  | none =>
    let s := { s with refTimeSerial := reference }
    if ev.ptr = 0 ∨ s.ignoreMemFreeFaults then some (m, s)
    else some (m, { s with failure := .memFree ev.thread })
  | some i => do
    let time := tscTime reference
    let thread := s.compressThread ev.thread
    let s := s.notice reference time ev.thread
    let event ← m.data[i]?
    let m ← (m.pushFree ev.ptr i event time thread).memAllocChanged s.firstTime
      time
    return (m, s)

/-- The table of a pool, with 0 for the default pool.  A pool that is not in
`m_data.memNameMap` is made when it is asked for. -/
def pool (s : MemServer) (name : UInt64) : MemData :=
  if name = 0 then s.memory else (s.memNameMap name).getD (.fresh name)

def setPool (name : UInt64) (m : MemData) (s : MemServer) : MemServer :=
  if name = 0 then { s with memory := m }
  else { s with memNameMap := Function.update s.memNameMap name (some m) }

/-- Run one of the functions above on the default pool, or on the pool that
`m_memNamePayload` names. -/
def onPool (named : Bool)
    (f : MemData → MemServer → Option (MemData × MemServer)) (s : MemServer) :
    Option MemServer :=
  -- `assert( m_memNamePayload == 0 )`, or `!= 0` for the named functions
  if named = decide (s.memNamePayload ≠ 0) then do
    let name := s.memNamePayload
    let s := { s with memNamePayload := 0 }
    let (m, s) ← f (s.pool name) s
    return s.setPool name m
  else none

/-- `ProcessMemAlloc`. -/
def processMemAlloc (ev : QueueMemAlloc) : MemServer → Option MemServer :=
  onPool false fun m => processMemAllocImpl tscTime m ev

/-- `ProcessMemAllocNamed`. -/
def processMemAllocNamed (ev : QueueMemAlloc) : MemServer → Option MemServer :=
  onPool true fun m => processMemAllocImpl tscTime m ev

/-- `ProcessMemFree`. -/
def processMemFree (ev : QueueMemFree) : MemServer → Option MemServer :=
  onPool false fun m => processMemFreeImpl tscTime m ev

/-- `ProcessMemFreeNamed`. -/
def processMemFreeNamed (ev : QueueMemFree) : MemServer → Option MemServer :=
  onPool true fun m => processMemFreeImpl tscTime m ev

/-- `ProcessMemNamePayload`. -/
def processMemNamePayload (name : UInt64) (s : MemServer) : Option MemServer :=
  if s.memNamePayload = 0 then some { s with memNamePayload := name } else none

/-- `Process`.  Of the events of the GPU only the reference time matters
here. -/
def process (item : QueueItem) (s : MemServer) : Option MemServer :=
  match item with
  | .memNamePayload name => processMemNamePayload name s
  | .memAlloc ev => processMemAlloc tscTime ev s
  | .memAllocNamed ev => processMemAllocNamed tscTime ev s
  | .memFree ev => processMemFree tscTime ev s
  | .memFreeNamed ev => processMemFreeNamed tscTime ev s
  | .gpuNewContext _ => some s
  | .gpuZoneBeginSerial ev =>
    some { s with refTimeSerial := refTime s.refTimeSerial ev.cpuTime }
  | .gpuZoneEndSerial ev =>
    some { s with refTimeSerial := refTime s.refTimeSerial ev.cpuTime }
  | .gpuTime _ => some s

/-- The loop of `Exec`, which stops at a failure. -/
def run (items : List QueueItem) (s : MemServer) : Option MemServer :=
  items.foldlM
    (fun s item => if s.failure = .none then process tscTime item s else some s)
    s

/-! ## The tables stay well formed -/

variable {tscTime : Int64 → Int64} {s s' : MemServer} {m m' : MemData}

theorem pool_setPool (name name' : UInt64) (m : MemData) (s : MemServer) :
    (s.setPool name m).pool name' = if name' = name then m else s.pool name' := by
  unfold setPool pool
  by_cases hname : name = 0
  · subst hname
    by_cases heq : name' = 0
    · simp [heq]
    · simp [heq]
  · by_cases heq : name' = name
    · subst heq
      simp [hname]
    · simp [hname, heq]

theorem pool_congr (hmemory : s'.memory = s.memory)
    (hmap : s'.memNameMap = s.memNameMap) (name : UInt64) :
    s'.pool name = s.pool name := by
  rw [pool, pool, hmemory, hmap]

theorem processMemAllocImpl_wellFormed {ev : QueueMemAlloc} (hm : m.WellFormed)
    (h : processMemAllocImpl tscTime m ev s = some (m', s')) :
    m'.WellFormed ∧ s'.memory = s.memory ∧ s'.memNameMap = s.memNameMap := by
  unfold processMemAllocImpl at h
  split at h
  · obtain ⟨rfl, rfl⟩ := Prod.mk.inj (Option.some.inj h)
    exact ⟨hm, rfl, rfl⟩
  · rename_i hactive
    dsimp only at h
    split at h
    · rename_i hasserts
      obtain ⟨m₁, hplot, hreturn⟩ := Option.bind_eq_some_iff.mp h
      obtain ⟨rfl, rfl⟩ := Prod.mk.inj (Option.some.inj hreturn)
      obtain ⟨points, rfl, -⟩ := MemData.memAllocChanged_some hplot
      have hfree := Option.not_isSome_iff_eq_none.mp hactive
      have hsize := Nat.lt_trans hasserts.2 (by decide : 2 ^ 47 < 2 ^ 48)
      exact ⟨(hm.pushAlloc _ _ _ hfree hsize).set_plot points, rfl, rfl⟩
    · exact absurd h nofun

theorem processMemFreeImpl_wellFormed {ev : QueueMemFree} (hm : m.WellFormed)
    (h : processMemFreeImpl tscTime m ev s = some (m', s')) :
    m'.WellFormed ∧ s'.memory = s.memory ∧ s'.memNameMap = s.memNameMap := by
  unfold processMemFreeImpl at h
  dsimp only at h
  split at h
  · split at h
    · obtain ⟨rfl, rfl⟩ := Prod.mk.inj (Option.some.inj h)
      exact ⟨hm, rfl, rfl⟩
    · obtain ⟨rfl, rfl⟩ := Prod.mk.inj (Option.some.inj h)
      exact ⟨hm, rfl, rfl⟩
  · rename_i i hactive
    obtain ⟨event, hevent, hrest⟩ := Option.bind_eq_some_iff.mp h
    obtain ⟨m₁, hplot, hreturn⟩ := Option.bind_eq_some_iff.mp hrest
    obtain ⟨rfl, rfl⟩ := Prod.mk.inj (Option.some.inj hreturn)
    obtain ⟨points, rfl, -⟩ := MemData.memAllocChanged_some hplot
    exact ⟨(hm.pushFree _ _ hactive hevent).set_plot points, rfl, rfl⟩

/-- Every table is well formed. -/
def WellFormed (s : MemServer) : Prop := ∀ name, (s.pool name).WellFormed

theorem WellFormed.onPool {named : Bool}
    {f : MemData → MemServer → Option (MemData × MemServer)}
    (hf : ∀ {m s m' s'}, m.WellFormed → f m s = some (m', s') →
      m'.WellFormed ∧ s'.memory = s.memory ∧ s'.memNameMap = s.memNameMap)
    (hs : s.WellFormed) (h : onPool named f s = some s') : s'.WellFormed := by
  unfold MemServer.onPool at h
  split at h
  · obtain ⟨⟨m₁, s₁⟩, hcall, hreturn⟩ := Option.bind_eq_some_iff.mp h
    obtain ⟨hm, hmemory, hmap⟩ := hf (hs s.memNamePayload) hcall
    intro name
    rw [← Option.some.inj hreturn, pool_setPool]
    split
    · exact hm
    · rw [pool_congr hmemory hmap]
      exact hs name
  · exact absurd h nofun

theorem WellFormed.process {item : QueueItem} (hs : s.WellFormed)
    (h : process tscTime item s = some s') : s'.WellFormed := by
  cases item with
  | memNamePayload name =>
    change processMemNamePayload name s = some s' at h
    unfold processMemNamePayload at h
    split at h
    · obtain rfl := Option.some.inj h
      exact hs
    · exact absurd h nofun
  | memAlloc ev => exact hs.onPool processMemAllocImpl_wellFormed h
  | memAllocNamed ev => exact hs.onPool processMemAllocImpl_wellFormed h
  | memFree ev => exact hs.onPool processMemFreeImpl_wellFormed h
  | memFreeNamed ev => exact hs.onPool processMemFreeImpl_wellFormed h
  | gpuNewContext ev =>
    obtain rfl := Option.some.inj h
    exact hs
  | gpuZoneBeginSerial ev =>
    obtain rfl := Option.some.inj h
    exact hs
  | gpuZoneEndSerial ev =>
    obtain rfl := Option.some.inj h
    exact hs
  | gpuTime ev =>
    obtain rfl := Option.some.inj h
    exact hs

theorem wellFormed_start (firstTime lastTime : Int64)
    (ignoreMemFreeFaults : Bool) :
    (start firstTime lastTime ignoreMemFreeFaults).WellFormed := by
  intro name
  unfold pool
  split
  · exact MemData.wellFormed_fresh 0
  · exact MemData.wellFormed_fresh name

/-- Whatever the client sends: every event of a table is either open at one
address or freed once, and the usage is the sum of the open sizes. -/
theorem run_wellFormed (firstTime lastTime : Int64)
    (ignoreMemFreeFaults : Bool) (items : List QueueItem)
    (h : run tscTime items (start firstTime lastTime ignoreMemFreeFaults) =
      some s) : s.WellFormed := by
  unfold run at h
  generalize hstart : start firstTime lastTime ignoreMemFreeFaults = s₀ at h
  have hs₀ : s₀.WellFormed :=
    hstart ▸ wellFormed_start firstTime lastTime ignoreMemFreeFaults
  clear hstart
  induction items generalizing s₀ with
  | nil =>
    obtain rfl := Option.some.inj h
    exact hs₀
  | cons item items ih =>
    rw [List.foldlM_cons] at h
    obtain ⟨s₁, hstep, hrest⟩ := Option.bind_eq_some_iff.mp h
    refine ih s₁ hrest ?_
    split at hstep
    · exact hs₀.process hstep
    · obtain rfl := Option.some.inj hstep
      exact hs₀

/-- Two pools.  The default one gets an address back and hands it out again,
and the named one ends empty. -/
theorem run_wellFormed_two_pools :
    let items : List QueueItem :=
      [.memAlloc ⟨5, 1, 64, .ofSize 10⟩, .memNamePayload 7,
        .memAllocNamed ⟨1, 1, 64, .ofSize 20⟩,
        .memAlloc ⟨1, 2, 128, .ofSize 30⟩, .memFree ⟨1, 2, 64⟩,
        .memNamePayload 7, .memFreeNamed ⟨1, 2, 64⟩,
        .memAlloc ⟨1, 1, 64, .ofSize 40⟩]
    ∃ s : MemServer, run id items (start 0 0 false) = some s ∧ s.WellFormed ∧
      (s.memory.usage, s.memory.frees, s.memory.active 64) =
        (70, [0], some 2) ∧
      ((s.pool 7).usage, (s.pool 7).frees, (s.pool 7).active 64) =
        (0, [0], none) := by
  intro items
  obtain ⟨s, hrun, hview⟩ := Option.map_eq_some_iff.mp
    (show (run id items (start 0 0 false)).map (fun s =>
        ((s.memory.usage, s.memory.frees, s.memory.active 64),
          ((s.pool 7).usage, (s.pool 7).frees, (s.pool 7).active 64))) =
        some ((70, [0], some 2), (0, [0], none)) by decide +kernel)
  obtain ⟨hdefault, hnamed⟩ := Prod.mk.inj hview
  exact ⟨s, hrun, run_wellFormed 0 0 false items hrun, hdefault, hnamed⟩

end MemServer

end VulkanCompute.Profiler
