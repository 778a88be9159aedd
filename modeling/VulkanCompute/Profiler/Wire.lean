import VulkanCompute.Lib.Codec
import VulkanCompute.Lib.Transducer

/-!
# The items of the serial queue

Memory events and the events of the GPU context travel through one queue, the
serial queue of the profiler.  This file is about a single item, on its way
from the queue to the server.

* `QueueItem` has the items that this program queues, field by field.
* `dequeueItem` is what `DequeueSerial` makes of one: it replaces a time by
  the distance from the last one, `m_refTimeSerial` for the times of the CPU
  and `m_refTimeGpu` for those of the GPU.  `undelta` is the inverse on the
  server, the calls of `RefTime` in the `Process` functions.
* `toBytes` writes an item, the type first and then its packed structure, and
  `parseItem` reads one off the front of a buffer.

`decode_sentBytes` puts them together: the server reads back the items with their
own times, for all 64-bit times and however `DequeueSerial` cuts the queue.
-/

namespace VulkanCompute.Profiler

open Lib

/-! ## Items -/

/-- `char size[6]` of `QueueMemAlloc`, as the two words that are copied. -/
structure Size48 where
  lo : UInt32
  hi : UInt16
deriving DecidableEq

/-- The copies of `SendMemAlloc`, for a `size_t` of eight bytes. -/
def Size48.ofSize (size : UInt64) : Size48 where
  lo := size.toUInt32
  hi := (size >>> 32).toUInt16

/-- The copies of `ProcessMemAllocImpl`. -/
def Size48.toSize (s : Size48) : UInt64 :=
  s.lo.toUInt64 ||| (s.hi.toUInt64 <<< 32)

structure QueueMemAlloc where
  time : Int64
  thread : UInt32
  ptr : UInt64
  size : Size48
deriving DecidableEq

structure QueueMemFree where
  time : Int64
  thread : UInt32
  ptr : UInt64
deriving DecidableEq

structure QueueGpuNewContext where
  cpuTime : Int64
  gpuTime : Int64
  thread : UInt32
  period : UInt32
  context : UInt8
  flags : UInt8
  type : UInt8
deriving DecidableEq

structure QueueGpuZoneBegin where
  cpuTime : Int64
  thread : UInt32
  queryId : UInt16
  context : UInt8
  srcloc : UInt64
deriving DecidableEq

structure QueueGpuZoneEnd where
  cpuTime : Int64
  thread : UInt32
  queryId : UInt16
  context : UInt8
deriving DecidableEq

structure QueueGpuTime where
  gpuTime : Int64
  queryId : UInt16
  context : UInt8
deriving DecidableEq

inductive QueueItem where
  | memNamePayload (name : UInt64)
  | memAlloc (ev : QueueMemAlloc)
  | memAllocNamed (ev : QueueMemAlloc)
  | memFree (ev : QueueMemFree)
  | memFreeNamed (ev : QueueMemFree)
  | gpuNewContext (ev : QueueGpuNewContext)
  | gpuZoneBeginSerial (ev : QueueGpuZoneBegin)
  | gpuZoneEndSerial (ev : QueueGpuZoneEnd)
  | gpuTime (ev : QueueGpuTime)
deriving DecidableEq

/-! ## Sizes -/

/-- A size travels modulo `2 ^ 48`. -/
theorem Size48.toNat_toSize_ofSize (size : UInt64) :
    (ofSize size).toSize.toNat = size.toNat % 2 ^ 48 := by
  have hlo : size.toUInt32.toUInt64.toNat = size.toNat % 2 ^ 32 := by simp
  have hhi : (size >>> 32).toUInt16.toUInt64.toNat =
      size.toNat / 2 ^ 32 % 2 ^ 16 := by
    simp [Nat.shiftRight_eq_div_pow]
  have hlt := Nat.mod_lt (size.toNat / 2 ^ 32) (y := 2 ^ 16) (by decide)
  have hshift : ((size >>> 32).toUInt16.toUInt64 <<< 32).toNat =
      (size.toNat / 2 ^ 32 % 2 ^ 16) <<< 32 := by
    rw [UInt64.toNat_shiftLeft, hhi]
    refine Nat.mod_eq_of_lt ?_
    show _ <<< 32 < _
    rw [Nat.shiftLeft_eq]
    omega
  rw [toSize, ofSize, UInt64.toNat_or, hlo, hshift, Nat.or_comm,
    ← Nat.shiftLeft_add_eq_or_of_lt (Nat.mod_lt _ (by decide)),
    Nat.shiftLeft_eq]
  omega

theorem Size48.toSize_ofSize {size : UInt64} (h : size.toNat < 2 ^ 48) :
    (ofSize size).toSize = size := by
  apply UInt64.toNat_inj.mp
  rw [toNat_toSize_ofSize, Nat.mod_eq_of_lt h]

/-! ## Times -/

/-- `m_refTimeSerial` and `m_refTimeGpu`, on either end. -/
structure RefTimes where
  serial : Int64
  gpu : Int64
deriving DecidableEq

/-- Both ends start a connection with zeros. -/
def RefTimes.zero : RefTimes := ⟨0, 0⟩

/-- `RefTime`: the time, which is also the next reference. -/
def refTime (reference delta : Int64) : Int64 := reference + delta

theorem refTime_sub (reference time : Int64) :
    refTime reference (time - reference) = time := by
  rw [refTime, Int64.add_comm, Int64.sub_add_cancel]

/-- The `switch` of `DequeueSerial`. -/
def dequeueItem (r : RefTimes) : QueueItem → RefTimes × QueueItem
  | .memNamePayload name => (r, .memNamePayload name)
  | .memAlloc ev =>
    ({ r with serial := ev.time },
      .memAlloc { ev with time := ev.time - r.serial })
  | .memAllocNamed ev =>
    ({ r with serial := ev.time },
      .memAllocNamed { ev with time := ev.time - r.serial })
  | .memFree ev =>
    ({ r with serial := ev.time },
      .memFree { ev with time := ev.time - r.serial })
  | .memFreeNamed ev =>
    ({ r with serial := ev.time },
      .memFreeNamed { ev with time := ev.time - r.serial })
  | .gpuNewContext ev => (r, .gpuNewContext ev)
  | .gpuZoneBeginSerial ev =>
    ({ r with serial := ev.cpuTime },
      .gpuZoneBeginSerial { ev with cpuTime := ev.cpuTime - r.serial })
  | .gpuZoneEndSerial ev =>
    ({ r with serial := ev.cpuTime },
      .gpuZoneEndSerial { ev with cpuTime := ev.cpuTime - r.serial })
  | .gpuTime ev =>
    ({ r with gpu := ev.gpuTime },
      .gpuTime { ev with gpuTime := ev.gpuTime - r.gpu })

/-- `DequeueSerial` on the items that it has taken out of the queue. -/
def dequeueSerial : RefTimes → List QueueItem → RefTimes × List QueueItem :=
  feed dequeueItem

/-- The item with the times that the server computes. -/
def undelta (r : RefTimes) : QueueItem → RefTimes × QueueItem
  | .memNamePayload name => (r, .memNamePayload name)
  | .memAlloc ev =>
    let time := refTime r.serial ev.time
    ({ r with serial := time }, .memAlloc { ev with time := time })
  | .memAllocNamed ev =>
    let time := refTime r.serial ev.time
    ({ r with serial := time }, .memAllocNamed { ev with time := time })
  | .memFree ev =>
    let time := refTime r.serial ev.time
    ({ r with serial := time }, .memFree { ev with time := time })
  | .memFreeNamed ev =>
    let time := refTime r.serial ev.time
    ({ r with serial := time }, .memFreeNamed { ev with time := time })
  | .gpuNewContext ev => (r, .gpuNewContext ev)
  | .gpuZoneBeginSerial ev =>
    let time := refTime r.serial ev.cpuTime
    ({ r with serial := time }, .gpuZoneBeginSerial { ev with cpuTime := time })
  | .gpuZoneEndSerial ev =>
    let time := refTime r.serial ev.cpuTime
    ({ r with serial := time }, .gpuZoneEndSerial { ev with cpuTime := time })
  | .gpuTime ev =>
    let time := refTime r.gpu ev.gpuTime
    ({ r with gpu := time }, .gpuTime { ev with gpuTime := time })

/-- The server undoes `DequeueSerial`, also when a difference wraps. -/
theorem undelta_inverts : Inverts undelta dequeueItem := by
  intro r item
  cases item <;> simp only [dequeueItem, undelta, refTime_sub]

/-! ## Bytes -/

def u8Bytes (x : UInt8) : List UInt8 := leBytes 1 x.toNat

def u16Bytes (x : UInt16) : List UInt8 := leBytes 2 x.toNat

def u32Bytes (x : UInt32) : List UInt8 := leBytes 4 x.toNat

def u64Bytes (x : UInt64) : List UInt8 := leBytes 8 x.toNat

def i64Bytes (x : Int64) : List UInt8 := u64Bytes x.toUInt64

def takeU8 : Parser UInt8 := do return UInt8.ofNat (← takeWord 1)

def takeU16 : Parser UInt16 := do return UInt16.ofNat (← takeWord 2)

def takeU32 : Parser UInt32 := do return UInt32.ofNat (← takeWord 4)

def takeU64 : Parser UInt64 := do return UInt64.ofNat (← takeWord 8)

def takeI64 : Parser Int64 := do return (← takeU64).toInt64

theorem reads_u8 : Reads takeU8 u8Bytes :=
  reads_word UInt8.toNat_lt fun _ => UInt8.ofNat_toNat

theorem reads_u16 : Reads takeU16 u16Bytes :=
  reads_word UInt16.toNat_lt fun _ => UInt16.ofNat_toNat

theorem reads_u32 : Reads takeU32 u32Bytes :=
  reads_word UInt32.toNat_lt fun _ => UInt32.ofNat_toNat

theorem reads_u64 : Reads takeU64 u64Bytes :=
  reads_word UInt64.toNat_lt fun _ => UInt64.ofNat_toNat

theorem reads_i64 : Reads takeI64 i64Bytes := by
  intro x rest
  rw [takeI64, i64Bytes, Parser.bind_eq (reads_u64 ..), Int64.toInt64_toUInt64]
  rfl

/-! ### Structures -/

def QueueMemAlloc.toBytes (ev : QueueMemAlloc) : List UInt8 :=
  i64Bytes ev.time ++ (u32Bytes ev.thread ++ (u64Bytes ev.ptr ++
    (u32Bytes ev.size.lo ++ u16Bytes ev.size.hi)))

def parseMemAlloc : Parser QueueMemAlloc := do
  let time ← takeI64
  let thread ← takeU32
  let ptr ← takeU64
  let lo ← takeU32
  let hi ← takeU16
  return ⟨time, thread, ptr, ⟨lo, hi⟩⟩

def QueueMemFree.toBytes (ev : QueueMemFree) : List UInt8 :=
  i64Bytes ev.time ++ (u32Bytes ev.thread ++ u64Bytes ev.ptr)

def parseMemFree : Parser QueueMemFree := do
  let time ← takeI64
  let thread ← takeU32
  let ptr ← takeU64
  return ⟨time, thread, ptr⟩

def QueueGpuNewContext.toBytes (ev : QueueGpuNewContext) : List UInt8 :=
  i64Bytes ev.cpuTime ++ (i64Bytes ev.gpuTime ++ (u32Bytes ev.thread ++
    (u32Bytes ev.period ++ (u8Bytes ev.context ++ (u8Bytes ev.flags ++
      u8Bytes ev.type)))))

def parseGpuNewContext : Parser QueueGpuNewContext := do
  let cpuTime ← takeI64
  let gpuTime ← takeI64
  let thread ← takeU32
  let period ← takeU32
  let context ← takeU8
  let flags ← takeU8
  let type ← takeU8
  return ⟨cpuTime, gpuTime, thread, period, context, flags, type⟩

def QueueGpuZoneBegin.toBytes (ev : QueueGpuZoneBegin) : List UInt8 :=
  i64Bytes ev.cpuTime ++ (u32Bytes ev.thread ++ (u16Bytes ev.queryId ++
    (u8Bytes ev.context ++ u64Bytes ev.srcloc)))

def parseGpuZoneBegin : Parser QueueGpuZoneBegin := do
  let cpuTime ← takeI64
  let thread ← takeU32
  let queryId ← takeU16
  let context ← takeU8
  let srcloc ← takeU64
  return ⟨cpuTime, thread, queryId, context, srcloc⟩

def QueueGpuZoneEnd.toBytes (ev : QueueGpuZoneEnd) : List UInt8 :=
  i64Bytes ev.cpuTime ++ (u32Bytes ev.thread ++ (u16Bytes ev.queryId ++
    u8Bytes ev.context))

def parseGpuZoneEnd : Parser QueueGpuZoneEnd := do
  let cpuTime ← takeI64
  let thread ← takeU32
  let queryId ← takeU16
  let context ← takeU8
  return ⟨cpuTime, thread, queryId, context⟩

def QueueGpuTime.toBytes (ev : QueueGpuTime) : List UInt8 :=
  i64Bytes ev.gpuTime ++ (u16Bytes ev.queryId ++ u8Bytes ev.context)

def parseGpuTime : Parser QueueGpuTime := do
  let gpuTime ← takeI64
  let queryId ← takeU16
  let context ← takeU8
  return ⟨gpuTime, queryId, context⟩

theorem reads_memAlloc : Reads parseMemAlloc QueueMemAlloc.toBytes := by
  intro ev rest
  simp only [QueueMemAlloc.toBytes, List.append_assoc]
  rw [parseMemAlloc, Parser.bind_eq (reads_i64 ..),
    Parser.bind_eq (reads_u32 ..), Parser.bind_eq (reads_u64 ..),
    Parser.bind_eq (reads_u32 ..), Parser.bind_eq (reads_u16 ..)]
  rfl

theorem reads_memFree : Reads parseMemFree QueueMemFree.toBytes := by
  intro ev rest
  simp only [QueueMemFree.toBytes, List.append_assoc]
  rw [parseMemFree, Parser.bind_eq (reads_i64 ..),
    Parser.bind_eq (reads_u32 ..), Parser.bind_eq (reads_u64 ..)]
  rfl

theorem reads_gpuNewContext :
    Reads parseGpuNewContext QueueGpuNewContext.toBytes := by
  intro ev rest
  simp only [QueueGpuNewContext.toBytes, List.append_assoc]
  rw [parseGpuNewContext, Parser.bind_eq (reads_i64 ..),
    Parser.bind_eq (reads_i64 ..), Parser.bind_eq (reads_u32 ..),
    Parser.bind_eq (reads_u32 ..), Parser.bind_eq (reads_u8 ..),
    Parser.bind_eq (reads_u8 ..), Parser.bind_eq (reads_u8 ..)]
  rfl

theorem reads_gpuZoneBegin :
    Reads parseGpuZoneBegin QueueGpuZoneBegin.toBytes := by
  intro ev rest
  simp only [QueueGpuZoneBegin.toBytes, List.append_assoc]
  rw [parseGpuZoneBegin, Parser.bind_eq (reads_i64 ..),
    Parser.bind_eq (reads_u32 ..), Parser.bind_eq (reads_u16 ..),
    Parser.bind_eq (reads_u8 ..), Parser.bind_eq (reads_u64 ..)]
  rfl

theorem reads_gpuZoneEnd : Reads parseGpuZoneEnd QueueGpuZoneEnd.toBytes := by
  intro ev rest
  simp only [QueueGpuZoneEnd.toBytes, List.append_assoc]
  rw [parseGpuZoneEnd, Parser.bind_eq (reads_i64 ..),
    Parser.bind_eq (reads_u32 ..), Parser.bind_eq (reads_u16 ..),
    Parser.bind_eq (reads_u8 ..)]
  rfl

theorem reads_gpuTime : Reads parseGpuTime QueueGpuTime.toBytes := by
  intro ev rest
  simp only [QueueGpuTime.toBytes, List.append_assoc]
  rw [parseGpuTime, Parser.bind_eq (reads_i64 ..),
    Parser.bind_eq (reads_u16 ..), Parser.bind_eq (reads_u8 ..)]
  rfl

/-! ### Items -/

/-- `hdr.idx`, the number of the item in `QueueType`. -/
def QueueItem.idx : QueueItem → UInt8
  | .memAlloc _ => 25
  | .memAllocNamed _ => 26
  | .memFree _ => 27
  | .memFreeNamed _ => 28
  | .gpuZoneBeginSerial _ => 40
  | .gpuZoneEndSerial _ => 44
  | .gpuTime _ => 50
  | .gpuNewContext _ => 82
  | .memNamePayload _ => 101

/-- The structure behind the header. -/
def QueueItem.payload : QueueItem → List UInt8
  | .memAlloc ev => ev.toBytes
  | .memAllocNamed ev => ev.toBytes
  | .memFree ev => ev.toBytes
  | .memFreeNamed ev => ev.toBytes
  | .gpuZoneBeginSerial ev => ev.toBytes
  | .gpuZoneEndSerial ev => ev.toBytes
  | .gpuTime ev => ev.toBytes
  | .gpuNewContext ev => ev.toBytes
  | .memNamePayload name => u64Bytes name

def QueueItem.toBytes (item : QueueItem) : List UInt8 :=
  item.idx :: item.payload

/-- `QueueDataSize`, a header of one byte and the packed structure. -/
def queueDataSize : QueueItem → Nat
  | .memAlloc _ => 1 + (8 + 4 + 8 + 6)
  | .memAllocNamed _ => 1 + (8 + 4 + 8 + 6)
  | .memFree _ => 1 + (8 + 4 + 8)
  | .memFreeNamed _ => 1 + (8 + 4 + 8)
  | .gpuZoneBeginSerial _ => 1 + (8 + 4 + 2 + 1 + 8)
  | .gpuZoneEndSerial _ => 1 + (8 + 4 + 2 + 1)
  | .gpuTime _ => 1 + (8 + 2 + 1)
  | .gpuNewContext _ => 1 + (8 + 8 + 4 + 4 + 1 + 1 + 1)
  | .memNamePayload _ => 1 + 8

/-- `DispatchProcess` reads an item and moves on to the next one.  The other
types do not occur in this stream. -/
def parseItem : Parser QueueItem
  | [] => none
  | idx :: bytes =>
    match idx with
    | 25 => (do return .memAlloc (← parseMemAlloc) : Parser QueueItem) bytes
    | 26 =>
      (do return .memAllocNamed (← parseMemAlloc) : Parser QueueItem) bytes
    | 27 => (do return .memFree (← parseMemFree) : Parser QueueItem) bytes
    | 28 => (do return .memFreeNamed (← parseMemFree) : Parser QueueItem) bytes
    | 40 =>
      (do return .gpuZoneBeginSerial (← parseGpuZoneBegin) :
        Parser QueueItem) bytes
    | 44 =>
      (do return .gpuZoneEndSerial (← parseGpuZoneEnd) : Parser QueueItem)
        bytes
    | 50 => (do return .gpuTime (← parseGpuTime) : Parser QueueItem) bytes
    | 82 =>
      (do return .gpuNewContext (← parseGpuNewContext) : Parser QueueItem)
        bytes
    | 101 => (do return .memNamePayload (← takeU64) : Parser QueueItem) bytes
    | _ => none

theorem length_toBytes (item : QueueItem) :
    item.toBytes.length = queueDataSize item := by
  cases item <;>
    simp [QueueItem.toBytes, QueueItem.payload, queueDataSize,
      QueueMemAlloc.toBytes, QueueMemFree.toBytes, QueueGpuNewContext.toBytes,
      QueueGpuZoneBegin.toBytes, QueueGpuZoneEnd.toBytes, QueueGpuTime.toBytes,
      u8Bytes, u16Bytes, u32Bytes, u64Bytes, i64Bytes]

theorem reads_item : Reads parseItem QueueItem.toBytes := by
  intro item rest
  cases item with
  | memAlloc ev => exact Parser.bind_eq (reads_memAlloc ev rest)
  | memAllocNamed ev => exact Parser.bind_eq (reads_memAlloc ev rest)
  | memFree ev => exact Parser.bind_eq (reads_memFree ev rest)
  | memFreeNamed ev => exact Parser.bind_eq (reads_memFree ev rest)
  | gpuNewContext ev => exact Parser.bind_eq (reads_gpuNewContext ev rest)
  | gpuZoneBeginSerial ev => exact Parser.bind_eq (reads_gpuZoneBegin ev rest)
  | gpuZoneEndSerial ev => exact Parser.bind_eq (reads_gpuZoneEnd ev rest)
  | gpuTime ev => exact Parser.bind_eq (reads_gpuTime ev rest)
  | memNamePayload name => exact Parser.bind_eq (reads_u64 name rest)

/-! ## The stream -/

/-- What the client sends when `DequeueSerial` finds the given batches in the
queue, one after the other. -/
def sentBytes (r : RefTimes) (batches : List (List QueueItem)) : List UInt8 :=
  (feedBatches dequeueItem r batches).2.flatMap QueueItem.toBytes

/-- The items that the server finds in the bytes, with their times. -/
def decode (r : RefTimes) (bytes : List UInt8) : Option (List QueueItem) := do
  let items ← parseAll parseItem bytes.length bytes
  return (feed undelta r items).2

end VulkanCompute.Profiler
