import VulkanCompute.Profiler.GpuClock
import VulkanCompute.Profiler.GpuEvent
import VulkanCompute.Profiler.MemServer

/-!
# The server and the GPU zones

What the `Process` functions of the server do with the items of the GPU
context, beside those about memory.  A zone is known by its place in `zones`,
and an open zone is in the stack of its thread.  `query` says which zone waits
for the time of a query.

A failed assertion is `none`.  The functions for calls to `double` are
parameters, `tscTime` for `TscTime` and `scale` for the product with the
period of the GPU.  A context with calibration is left out, which this program
does not ask for.
-/

namespace VulkanCompute.Profiler

/-- `GpuCtxThreadData`, with the top of the stack first. -/
structure GpuCtxThreadData where
  timeline : List Nat
  stack : List Nat

/-- `GpuCtxData`. -/
structure GpuCtxData where
  timeDiff : Int64
  thread : UInt32
  count : Nat
  period : UInt32
  type : UInt8
  hasPeriod : Bool
  clock : GpuClock
  threadData : UInt32 → Option GpuCtxThreadData
  query : UInt16 → Option Nat

/-- The stack of a thread. -/
def GpuCtxData.stackOf (ctx : GpuCtxData) (thread : UInt32) : List Nat :=
  ((ctx.threadData thread).map (·.stack)).getD []

theorem GpuCtxData.stackOf_update (ctx : GpuCtxData) (thread : UInt32)
    (td : GpuCtxThreadData) (query : UInt16 → Option Nat) (u : UInt32) :
    stackOf { ctx with
      threadData := Function.update ctx.threadData thread (some td)
      query := query } u = if u = thread then td.stack else ctx.stackOf u := by
  unfold stackOf
  dsimp only
  rw [Function.update_apply]
  split <;> rfl

/-- What the server keeps between two items.  `sourceLocations` are those of
`m_data.sourceLocationExpand` behind the first one, which is not used. -/
structure GpuServer where
  mem : MemServer
  gpuCtxMap : UInt8 → Option GpuCtxData
  zones : List GpuEvent
  gpuChildren : List (List Nat)
  gpuCnt : Nat
  refTimeGpu : Int64
  sourceLocations : List UInt64

def QueueItem.isMemory : QueueItem → Bool
  | .memNamePayload _ => true
  | .memAlloc _ => true
  | .memAllocNamed _ => true
  | .memFree _ => true
  | .memFreeNamed _ => true
  | .gpuNewContext _ => false
  | .gpuZoneBeginSerial _ => false
  | .gpuZoneEndSerial _ => false
  | .gpuTime _ => false

/-- What an event makes of `m_refTimeSerial` and `m_data.lastTime`. -/
def MemServer.noticeTime (s : MemServer) (reference time : Int64) : MemServer :=
  { s with
    refTimeSerial := reference
    lastTime := if s.lastTime < time then time else s.lastTime }

/-- What `ProcessGpuZoneBegin` writes into a zone. -/
def GpuEvent.began (srcLoc : Int16) (time : Int64) (queryId thread : UInt16) :
    GpuEvent :=
  let z := GpuEvent.uninit.setSrcLoc srcLoc
  let z := z.setCpuStart time
  let z := z.setCpuEnd (-1)
  let z := z.setGpuStart (-1)
  let z := z.setGpuEnd (-1)
  let z := { z with callstack := 0 }
  let z := z.setChild (-1)
  let z := { z with queryId := queryId }
  z.setThread thread

namespace GpuServer

/-- When the handshake has been read. -/
def start (firstTime lastTime : Int64) (ignoreMemFreeFaults : Bool) :
    GpuServer where
  mem := .start firstTime lastTime ignoreMemFreeFaults
  gpuCtxMap := fun _ => none
  zones := []
  gpuChildren := []
  gpuCnt := 0
  refTimeGpu := 0
  sourceLocations := []

def setCtx (context : UInt8) (ctx : GpuCtxData) (s : GpuServer) : GpuServer :=
  { s with gpuCtxMap := Function.update s.gpuCtxMap context (some ctx) }

/-- `ShrinkSourceLocation`. -/
def shrinkSourceLocation (srcloc : UInt64) (s : GpuServer) :
    Int16 × GpuServer :=
  if srcloc ∈ s.sourceLocations then
    (.ofNat (s.sourceLocations.idxOf srcloc + 1), s)
  else if s.sourceLocations.length + 2 = 32767 then (32767, s)
  else
    (.ofNat (s.sourceLocations.length + 1),
      { s with sourceLocations := s.sourceLocations ++ [srcloc] })

variable (tscTime : Int64 → Int64) (scale : UInt32 → Int64 → Int64)

/-- `ProcessGpuNewContext`.  `1.f` is `0x3F800000`. -/
def processGpuNewContext (ev : QueueGpuNewContext) (s : GpuServer) :
    Option GpuServer :=
  if (s.gpuCtxMap ev.context).isNone ∧ ev.type ≠ 0 then
    let gpuTime :=
      if ev.period = 0x3F800000 then ev.gpuTime else scale ev.period ev.gpuTime
    let cpuTime := tscTime ev.cpuTime
    some (s.setCtx ev.context
      { timeDiff := cpuTime - gpuTime
        thread := ev.thread
        count := 0
        period := ev.period
        type := ev.type
        hasPeriod := ev.period ≠ 0x3F800000
        clock := .start
        threadData := fun _ => none
        query := fun _ => none })
  else none

/-- A zone goes into the children of the innermost open zone, which may have
none yet, or into the timeline, and on the stack. -/
def pushZone (index : Nat) (td : GpuCtxThreadData) (s : GpuServer) :
    Option (GpuCtxThreadData × GpuServer) :=
  match td.stack with
  | [] => some (⟨td.timeline ++ [index], [index]⟩, s)
  | back :: stack => do
    let parent ← s.zones[back]?
    let td := { td with stack := index :: back :: stack }
    if parent.child < 0 then
      return (td, { s with
        zones := s.zones.set back
          (parent.setChild (.ofNat s.gpuChildren.length))
        gpuChildren := s.gpuChildren ++ [[index]] })
    else
      return (td, { s with
        gpuChildren := s.gpuChildren.modify parent.child.toInt.toNat
          (· ++ [index]) })

/-- `ProcessGpuZoneBegin`. -/
def processGpuZoneBegin (ev : QueueGpuZoneBegin) (s : GpuServer) :
    Option GpuServer := do
  let ctx ← s.gpuCtxMap ev.context
  let (srcLoc, s) := s.shrinkSourceLocation ev.srcloc
  let reference := refTime s.mem.refTimeSerial ev.cpuTime
  let time := tscTime reference
  let index := s.zones.length
  let thread := if ctx.thread = 0 then s.mem.compressThread ev.thread else 0
  let ztid := if ctx.thread = 0 then ev.thread else 0
  let s := { s with
    mem :=
      if ctx.thread = 0 then s.mem.notice reference time ev.thread
      else s.mem.noticeTime reference time
    zones := s.zones ++ [GpuEvent.began srcLoc time ev.queryId thread]
    gpuCnt := s.gpuCnt + 1 }
  let (td, s) ← s.pushZone index ((ctx.threadData ztid).getD ⟨[], []⟩)
  -- the assertions on the time and on the query
  if time.toInt < 2 ^ 47 ∧ ctx.query ev.queryId = none then
    return s.setCtx ev.context { ctx with
      threadData := Function.update ctx.threadData ztid (some td)
      query := Function.update ctx.query ev.queryId (some index) }
  else none

/-- `ProcessGpuZoneEnd`. -/
def processGpuZoneEnd (ev : QueueGpuZoneEnd) (s : GpuServer) :
    Option GpuServer := do
  let ctx ← s.gpuCtxMap ev.context
  let td ← ctx.threadData ev.thread
  let index ← td.stack.head?
  let zone ← s.zones[index]?
  let reference := refTime s.mem.refTimeSerial ev.cpuTime
  let time := tscTime reference
  if time.toInt < 2 ^ 47 ∧ ctx.query ev.queryId = none then
    let s := { s with
      mem := s.mem.noticeTime reference time
      zones := s.zones.set index (zone.setCpuEnd time) }
    return s.setCtx ev.context { ctx with
      threadData := Function.update ctx.threadData ev.thread
        (some { td with stack := td.stack.tail })
      query := Function.update ctx.query ev.queryId (some index) }
  else none

/-- The time that `ProcessGpuTime` computes from that of its clock. -/
def toCpuTime (ctx : GpuCtxData) (tgpu : Int64) : Int64 :=
  (if ctx.hasPeriod then scale ctx.period tgpu else tgpu) + ctx.timeDiff

/-- `ProcessGpuTime`.  The first time of a zone is its start. -/
def processGpuTime (ev : QueueGpuTime) (s : GpuServer) : Option GpuServer := do
  let ctx ← s.gpuCtxMap ev.context
  let reference := refTime s.refTimeGpu ev.gpuTime
  let (clock, tgpu) := ctx.clock.tick reference
  let gpuTime := toCpuTime scale ctx tgpu
  let index ← ctx.query ev.queryId
  let zone ← s.zones[index]?
  let lastTime :=
    if s.mem.lastTime < gpuTime then gpuTime else s.mem.lastTime
  let ctx := { ctx with
    clock := clock
    query := Function.update ctx.query ev.queryId none }
  let s := { s with
    mem := { s.mem with lastTime := lastTime }
    refTimeGpu := reference }
  if zone.gpuStart < 0 then
    let s := { s with zones := s.zones.set index (zone.setGpuStart gpuTime) }
    return s.setCtx ev.context { ctx with count := ctx.count + 1 }
  else if gpuTime.toInt < 2 ^ 47 then
    let s := { s with zones := s.zones.set index (zone.setGpuEnd gpuTime) }
    return s.setCtx ev.context ctx
  else none

/-- `Process`. -/
def process (item : QueueItem) (s : GpuServer) : Option GpuServer :=
  match item with
  | .gpuNewContext ev => processGpuNewContext tscTime scale ev s
  | .gpuZoneBeginSerial ev => processGpuZoneBegin tscTime ev s
  | .gpuZoneEndSerial ev => processGpuZoneEnd tscTime ev s
  | .gpuTime ev => processGpuTime scale ev s
  | item => do
    let mem ← s.mem.process tscTime item
    return { s with mem := mem }

/-- The loop of `Exec`, which stops at a failure. -/
def run (items : List QueueItem) (s : GpuServer) : Option GpuServer :=
  items.foldlM
    (fun s item =>
      if s.mem.failure = .none then process tscTime scale item s else some s)
    s

/-! ## What they change -/

theorem began_view {time : Int64} (h : MemEvent.FitsTime time) (srcLoc : Int16)
    (queryId thread : UInt16) :
    (GpuEvent.began srcLoc time queryId thread).view =
      ⟨time, -1, -1, -1, srcLoc, thread, -1, 0, queryId⟩ := by
  have hnone : MemEvent.FitsTime (-1) := by decide
  let z := (((GpuEvent.uninit.setSrcLoc srcLoc).setCpuStart time).setCpuEnd
    (-1)).setGpuStart (-1)
  let z' : GpuEvent := { z.setGpuEnd (-1) with callstack := 0 }
  let z'' : GpuEvent := { z'.setChild (-1) with queryId := queryId }
  show (z''.setThread thread).view = _
  rw [GpuEvent.view_setThread]
  show { (z'.setChild (-1)).view with queryId := queryId, thread := thread } = _
  rw [GpuEvent.view_setChild]
  show { (z.setGpuEnd (-1)).view with
    callstack := 0, child := -1, queryId := queryId, thread := thread } = _
  rw [GpuEvent.view_setGpuEnd _ hnone, GpuEvent.view_setGpuStart _ hnone,
    GpuEvent.view_setCpuEnd _ hnone, GpuEvent.view_setCpuStart _ h,
    GpuEvent.view_setSrcLoc]

variable {s : GpuServer}

theorem shrinkSourceLocation_frame (srcloc : UInt64) (s : GpuServer) :
    ∃ srcLoc locations, s.shrinkSourceLocation srcloc =
      (srcLoc, { s with sourceLocations := locations }) := by
  unfold shrinkSourceLocation
  split
  · exact ⟨_, _, rfl⟩
  · split
    · exact ⟨_, _, rfl⟩
    · exact ⟨_, _, rfl⟩

/-- A zone on the stack is in `zones`. -/
def StackFits (td : GpuCtxThreadData) (s : GpuServer) : Prop :=
  ∀ k ∈ td.stack, k < s.zones.length

theorem pushZone_some {td : GpuCtxThreadData} (h : StackFits td s)
    (index : Nat) :
    ∃ timeline zones children,
      s.pushZone index td =
        some (⟨timeline, index :: td.stack⟩,
          { s with zones := zones, gpuChildren := children }) ∧
      zones.map GpuEvent.times = s.zones.map GpuEvent.times := by
  obtain ⟨timeline, stack⟩ := td
  unfold pushZone
  cases stack with
  | nil => exact ⟨_, _, _, rfl, rfl⟩
  | cons back stack =>
    have hback : back < s.zones.length := h back List.mem_cons_self
    have hparent : s.zones[back]? = some s.zones[back] :=
      List.getElem?_eq_getElem hback
    dsimp only
    rw [hparent]
    by_cases hchild : s.zones[back].child < 0
    · refine ⟨_, _, _, if_pos hchild, ?_⟩
      rw [List.map_set, GpuEvent.times_setChild, ← List.map_set,
        List.set_getElem_self]
    · exact ⟨_, _, _, if_neg hchild, rfl⟩

variable {tscTime : Int64 → Int64} {scale : UInt32 → Int64 → Int64}

theorem run_append (items items' : List QueueItem) (s : GpuServer) :
    run tscTime scale (items ++ items') s =
      (run tscTime scale items s).bind (run tscTime scale items') :=
  List.foldlM_append

theorem run_singleton (item : QueueItem) (hfailure : s.mem.failure = .none) :
    run tscTime scale [item] s = process tscTime scale item s := by
  unfold run
  rw [List.foldlM_cons, if_pos hfailure]
  cases process tscTime scale item s <;> rfl

theorem process_of_isMemory {item : QueueItem} (h : item.isMemory)
    (s : GpuServer) :
    process tscTime scale item s =
      (s.mem.process tscTime item).map fun mem => { s with mem := mem } := by
  cases item with
  | gpuNewContext ev => exact absurd h nofun
  | gpuZoneBeginSerial ev => exact absurd h nofun
  | gpuZoneEndSerial ev => exact absurd h nofun
  | gpuTime ev => exact absurd h nofun
  | memNamePayload name => exact Option.map_eq_bind.symm
  | memAlloc ev => exact Option.map_eq_bind.symm
  | memAllocNamed ev => exact Option.map_eq_bind.symm
  | memFree ev => exact Option.map_eq_bind.symm
  | memFreeNamed ev => exact Option.map_eq_bind.symm

/-- Items that are about memory change only what is kept for them. -/
theorem run_of_isMemory {items : List QueueItem}
    (h : ∀ item ∈ items, item.isMemory) (s : GpuServer) :
    run tscTime scale items s =
      (s.mem.run tscTime items).map fun mem => { s with mem := mem } := by
  induction items generalizing s with
  | nil => rfl
  | cons item items ih =>
    have hrest : ∀ s : GpuServer, run tscTime scale items s =
        (s.mem.run tscTime items).map fun mem => { s with mem := mem } :=
      ih fun item hitem => h item (List.mem_cons_of_mem _ hitem)
    unfold run MemServer.run
    rw [List.foldlM_cons, List.foldlM_cons]
    split
    · rw [process_of_isMemory (h item List.mem_cons_self)]
      cases s.mem.process tscTime item with
      | none => rfl
      | some mem => exact hrest { s with mem := mem }
    · exact hrest s

variable {ctx : GpuCtxData} {reference : Int64}

/-- A scope begins, and its zone waits for the time of its first query. -/
theorem processGpuZoneBegin_some (ev : QueueGpuZoneBegin)
    (hctx : s.gpuCtxMap ev.context = some ctx) (hthread : ctx.thread = 0)
    (hreference : refTime s.mem.refTimeSerial ev.cpuTime = reference)
    (hfits : MemEvent.FitsTime (tscTime reference))
    (hquery : ctx.query ev.queryId = none)
    (hstack : ∀ k ∈ ctx.stackOf ev.thread, k < s.zones.length) :
    ∃ s' timeline, processGpuZoneBegin tscTime ev s = some s' ∧
      s'.mem = s.mem.notice reference (tscTime reference) ev.thread ∧
      s'.refTimeGpu = s.refTimeGpu ∧
      s'.gpuCtxMap ev.context = some { ctx with
        threadData := Function.update ctx.threadData ev.thread
          (some ⟨timeline, s.zones.length :: ctx.stackOf ev.thread⟩)
        query := Function.update ctx.query ev.queryId (some s.zones.length) } ∧
      s'.zones.map GpuEvent.times = s.zones.map GpuEvent.times ++
        [⟨tscTime reference, -1, -1, -1, ev.queryId⟩] := by
  obtain ⟨srcLoc, locations, hshrink⟩ :=
    shrinkSourceLocation_frame ev.srcloc s
  let td := (ctx.threadData ev.thread).getD ⟨[], []⟩
  have htd : td.stack = ctx.stackOf ev.thread := by
    unfold td GpuCtxData.stackOf
    cases ctx.threadData ev.thread <;> rfl
  let zone := GpuEvent.began srcLoc (tscTime reference) ev.queryId
    (s.mem.compressThread ev.thread)
  let s₁ : GpuServer := { s with
    sourceLocations := locations
    mem := s.mem.notice reference (tscTime reference) ev.thread
    zones := s.zones ++ [zone]
    gpuCnt := s.gpuCnt + 1 }
  have hfit : StackFits td s₁ := by
    intro k hk
    have hold := hstack k (htd ▸ hk)
    show k < (s.zones ++ [_]).length
    rw [List.length_append]
    omega
  obtain ⟨timeline, zones, children, hpush, htimes⟩ :=
    pushZone_some hfit s.zones.length
  have hanswer : processGpuZoneBegin tscTime ev s =
      some (setCtx ev.context { ctx with
          threadData := Function.update ctx.threadData ev.thread
            (some ⟨timeline, s.zones.length :: td.stack⟩)
          query := Function.update ctx.query ev.queryId (some s.zones.length) }
        { s₁ with zones := zones, gpuChildren := children }) := by
    unfold processGpuZoneBegin
    rw [hctx]
    simp only [Option.bind_eq_bind, Option.bind_some, hshrink, hthread,
      hreference, if_true]
    show ((pushZone s.zones.length td s₁).bind _) = _
    rw [hpush]
    exact if_pos ⟨hfits.lt, hquery⟩
  refine ⟨_, timeline, hanswer, rfl, rfl, ?_, ?_⟩
  · rw [← htd]
    exact Function.update_self ..
  · show zones.map _ = _
    rw [htimes, List.map_append, List.map_singleton, GpuEvent.times,
      began_view hfits]
    rfl

/-- A scope ends, and its zone waits for the time of its second query. -/
theorem processGpuZoneEnd_some (ev : QueueGpuZoneEnd) {index : Nat}
    {stack : List Nat} (hctx : s.gpuCtxMap ev.context = some ctx)
    (hstack : ctx.stackOf ev.thread = index :: stack)
    (hindex : index < s.zones.length)
    (hreference : refTime s.mem.refTimeSerial ev.cpuTime = reference)
    (hfits : MemEvent.FitsTime (tscTime reference))
    (hquery : ctx.query ev.queryId = none) :
    ∃ timeline, processGpuZoneEnd tscTime ev s =
      some (setCtx ev.context { ctx with
          threadData := Function.update ctx.threadData ev.thread
            (some ⟨timeline, stack⟩)
          query := Function.update ctx.query ev.queryId (some index) }
        { s with
          mem := s.mem.noticeTime reference (tscTime reference)
          zones := s.zones.set index
            (s.zones[index].setCpuEnd (tscTime reference)) }) := by
  have hzone : s.zones[index]? = some s.zones[index] :=
    List.getElem?_eq_getElem hindex
  unfold GpuCtxData.stackOf at hstack
  cases htd : ctx.threadData ev.thread with
  | none =>
    rw [htd] at hstack
    exact absurd hstack nofun
  | some td =>
    rw [htd] at hstack
    obtain ⟨timeline, stack'⟩ := td
    obtain rfl : stack' = index :: stack := hstack
    refine ⟨timeline, ?_⟩
    unfold processGpuZoneEnd
    rw [hctx]
    simp only [Option.bind_eq_bind, Option.bind_some, htd, List.head?_cons,
      hzone, hreference]
    exact if_pos ⟨hfits.lt, hquery⟩

/-- The time of a query goes to the zone that waits for it. -/
theorem processGpuTime_some (ev : QueueGpuTime) {index : Nat} {gpuTime : Int64}
    (hctx : s.gpuCtxMap ev.context = some ctx)
    (hreference : refTime s.refTimeGpu ev.gpuTime = reference)
    (htime : toCpuTime scale ctx (ctx.clock.tick reference).2 = gpuTime)
    (hfits : MemEvent.FitsTime gpuTime)
    (hquery : ctx.query ev.queryId = some index)
    (hindex : index < s.zones.length) :
    ∃ count lastTime, processGpuTime scale ev s =
      some (setCtx ev.context { ctx with
          count := count
          clock := (ctx.clock.tick reference).1
          query := Function.update ctx.query ev.queryId none }
        { s with
          mem := { s.mem with lastTime := lastTime }
          refTimeGpu := reference
          zones := s.zones.set index
            (if s.zones[index].gpuStart < 0 then
              s.zones[index].setGpuStart gpuTime
            else s.zones[index].setGpuEnd gpuTime) }) := by
  have hzone : s.zones[index]? = some s.zones[index] :=
    List.getElem?_eq_getElem hindex
  unfold processGpuTime
  rw [hctx]
  simp only [Option.bind_eq_bind, Option.bind_some, hquery, hzone, hreference,
    htime]
  by_cases hfirst : s.zones[index].gpuStart < 0
  · rw [if_pos hfirst, if_pos hfirst]
    exact ⟨_, _, rfl⟩
  · rw [if_neg hfirst, if_neg hfirst, if_pos hfits.lt]
    exact ⟨_, _, rfl⟩

end GpuServer

end VulkanCompute.Profiler
