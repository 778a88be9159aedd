import VulkanCompute.Lib.Loop

/-!
# The memory type of the buffers

`CreateBuffers` of `src/main.cpp` allocates the memory of its three buffers.
It searches the memory types of the device for one that the host can see
without flushing, and uses the first one for all three buffers.  The masks of
the types that a buffer may live in, `memoryTypeBits`, it never reads, so the
type suits a buffer exactly when the first visible type is in its mask
(`suits_iff`, `allocations_suit_iff`).
-/

namespace VulkanCompute.Host

open Lib

/-- `vk::MemoryPropertyFlagBits::eHostVisible`. -/
def eHostVisible : UInt32 := 0x2

/-- `vk::MemoryPropertyFlagBits::eHostCoherent`. -/
def eHostCoherent : UInt32 := 0x4

structure MemoryType where
  propertyFlags : UInt32
  heapIndex : UInt32

/-- `vk::PhysicalDeviceMemoryProperties`.  The list holds the first
`memoryTypeCount` entries of the table, and `heapSize i` is
`memoryHeaps[i].size`. -/
structure MemoryProperties where
  memoryTypes : List MemoryType
  heapSize : UInt32 → UInt64
  types_le : memoryTypes.length ≤ 32

/-- `vk::MemoryRequirements`. -/
structure MemoryRequirements where
  size : UInt64
  memoryTypeBits : UInt32

/-- `vk::MemoryAllocateInfo`. -/
structure MemoryAllocateInfo where
  allocationSize : UInt64
  memoryTypeIndex : UInt32

/-- The buffers of `CreateBuffers`. -/
inductive Buffer where
  | inBuffer
  | outBuffer
  | paramsBuffer
deriving DecidableEq

/-- The mask of the buffer allows the type. -/
def MemoryRequirements.Allows (requirements : MemoryRequirements)
    (index : UInt32) : Prop :=
  requirements.memoryTypeBits.toNat.testBit index.toNat

instance (requirements : MemoryRequirements) (index : UInt32) :
    Decidable (requirements.Allows index) :=
  inferInstanceAs (Decidable (_ = true))

namespace MemoryProperties

def memoryTypeCount (props : MemoryProperties) : UInt32 :=
  UInt32.ofNat props.memoryTypes.length

/-- `memoryTypes[index]`. -/
def memoryType (props : MemoryProperties) (index : UInt32) : MemoryType :=
  props.memoryTypes.getD index.toNat ⟨0, 0⟩

/-- The condition of the search. -/
def isHostMemory (props : MemoryProperties) (index : UInt32) : Bool :=
  (eHostVisible &&& (props.memoryType index).propertyFlags) ≠ 0 &&
    (eHostCoherent &&& (props.memoryType index).propertyFlags) ≠ 0

/-- `MemoryTypeIndex` and `MemoryHeapSize` after the search. -/
def findMemoryType (props : MemoryProperties) : UInt32 × UInt64 :=
  match searchUp props.isHostMemory props.memoryTypeCount 0 with
  | some index => (index, props.heapSize (props.memoryType index).heapIndex)
  | none => (~~~0, (~~~0 : UInt32).toUInt64)

/-- The allocation of a buffer. -/
def memoryAllocateInfo (props : MemoryProperties)
    (requirements : Buffer → MemoryRequirements) (buffer : Buffer) :
    MemoryAllocateInfo where
  allocationSize := (requirements buffer).size
  memoryTypeIndex := props.findMemoryType.1

/-- The type exists, the buffer may live in it, and the host can see it. -/
structure Suits (props : MemoryProperties) (requirements : MemoryRequirements)
    (index : UInt32) : Prop where
  inTable : index < props.memoryTypeCount
  allowed : requirements.Allows index
  visible : (props.memoryType index).propertyFlags &&& eHostVisible ≠ 0
  coherent : (props.memoryType index).propertyFlags &&& eHostCoherent ≠ 0

/-- The first type that is visible and coherent. -/
structure IsFirstHostMemory (props : MemoryProperties) (index : UInt32) :
    Prop where
  inTable : index < props.memoryTypeCount
  isHost : props.isHostMemory index
  first : ∀ j < index, ¬props.isHostMemory j

variable {props : MemoryProperties}

theorem isHostMemory_iff {index : UInt32} :
    props.isHostMemory index ↔
      (props.memoryType index).propertyFlags &&& eHostVisible ≠ 0 ∧
        (props.memoryType index).propertyFlags &&& eHostCoherent ≠ 0 := by
  unfold isHostMemory
  rw [UInt32.and_comm, UInt32.and_comm eHostCoherent]
  simp

/-- The search finds the first type. -/
theorem searchUp_eq_some_iff {index : UInt32} :
    searchUp props.isHostMemory props.memoryTypeCount 0 = some index ↔
      props.IsFirstHostMemory index := by
  rw [searchUp_eq_some]
  constructor
  · intro h
    obtain ⟨_, hlt, hhost, hfirst⟩ := h
    exact ⟨hlt, hhost, fun j hj => hfirst j UInt32.zero_le hj⟩
  · intro h
    exact ⟨UInt32.zero_le, h.inTable, h.isHost, fun j _ hj => h.first j hj⟩

theorem findMemoryType_of_first {index : UInt32}
    (h : props.IsFirstHostMemory index) : props.findMemoryType.1 = index := by
  unfold findMemoryType
  rw [searchUp_eq_some_iff.mpr h]

/-- There is a first type when there is one at all. -/
theorem exists_first {index : UInt32} (hlt : index < props.memoryTypeCount)
    (hhost : props.isHostMemory index) :
    ∃ i, props.IsFirstHostMemory i := by
  cases hsearch : searchUp props.isHostMemory props.memoryTypeCount 0 with
  | none => exact absurd hhost (searchUp_eq_none.mp hsearch _ UInt32.zero_le hlt)
  | some i => exact ⟨i, searchUp_eq_some_iff.mp hsearch⟩

/-- The first type suits a buffer exactly when its mask allows it. -/
theorem suits_iff {requirements : MemoryRequirements} {index : UInt32}
    (h : props.IsFirstHostMemory index) :
    props.Suits requirements props.findMemoryType.1 ↔
      requirements.Allows index := by
  rw [findMemoryType_of_first h]
  constructor
  · exact fun hsuits => hsuits.allowed
  · intro hallows
    obtain ⟨hvisible, hcoherent⟩ := isHostMemory_iff.mp h.isHost
    exact ⟨h.inTable, hallows, hvisible, hcoherent⟩

/-- When every buffer may live in some visible and coherent type, the type that
`CreateBuffers` uses suits all three exactly when all three masks allow the
first visible and coherent type. -/
theorem allocations_suit_iff (props : MemoryProperties)
    (requirements : Buffer → MemoryRequirements)
    (hguarantee : ∀ buffer, ∃ index, props.Suits (requirements buffer) index) :
    (∀ buffer, props.Suits (requirements buffer)
        (props.memoryAllocateInfo requirements buffer).memoryTypeIndex) ↔
      ∃ index, props.IsFirstHostMemory index ∧
        ∀ buffer, (requirements buffer).Allows index := by
  obtain ⟨_, hsome⟩ := hguarantee .inBuffer
  obtain ⟨index, hfirst⟩ := exists_first hsome.inTable
    (isHostMemory_iff.mpr ⟨hsome.visible, hsome.coherent⟩)
  constructor
  · intro h
    exact ⟨index, hfirst, fun buffer => (suits_iff hfirst).mp (h buffer)⟩
  · intro h buffer
    obtain ⟨index', hfirst', hallows⟩ := h
    exact (suits_iff hfirst').mpr (hallows buffer)

/-- A device with two types that are visible and coherent. -/
def twoHostTypes : MemoryProperties where
  memoryTypes := [⟨0x6, 0⟩, ⟨0x6, 1⟩]
  heapSize := fun _ => 0x40000000
  types_le := by decide

theorem twoHostTypes_first : twoHostTypes.IsFirstHostMemory 0 where
  inTable := by decide
  isHost := by decide
  first := fun _ hj => absurd hj UInt32.not_lt_zero

theorem twoHostTypes_suits {requirements : MemoryRequirements}
    (h : requirements.Allows 1) : twoHostTypes.Suits requirements 1 where
  inTable := by decide
  allowed := h
  visible := by decide
  coherent := by decide

/-- Buffers that may live in both types are given the first one. -/
theorem allocations_suit_both_types :
    twoHostTypes.findMemoryType.1 = 0 ∧
      ∀ buffer, twoHostTypes.Suits ⟨64, 0x3⟩
        (twoHostTypes.memoryAllocateInfo (fun _ => ⟨64, 0x3⟩)
          buffer).memoryTypeIndex := by
  constructor
  · exact findMemoryType_of_first twoHostTypes_first
  · apply (allocations_suit_iff twoHostTypes (fun _ => ⟨64, 0x3⟩)
      fun _ => ⟨1, twoHostTypes_suits (by decide)⟩).mpr
    exact ⟨0, twoHostTypes_first, fun _ => by decide⟩

/-- Storage buffers that may live in the second type only are given the first
one. -/
theorem allocations_ignore_mask :
    let requirements : Buffer → MemoryRequirements :=
      fun buffer => if buffer = .paramsBuffer then ⟨64, 0x3⟩ else ⟨64, 0x2⟩
    (∀ buffer, ∃ index, twoHostTypes.Suits (requirements buffer) index) ∧
      ¬∀ buffer, twoHostTypes.Suits (requirements buffer)
        (twoHostTypes.memoryAllocateInfo requirements buffer).memoryTypeIndex := by
  intro requirements
  constructor
  · intro buffer
    refine ⟨1, twoHostTypes_suits ?_⟩
    cases buffer <;> decide
  · intro h
    have hallows := (suits_iff twoHostTypes_first).mp (h .inBuffer)
    exact absurd hallows (by decide)

end MemoryProperties

end VulkanCompute.Host
