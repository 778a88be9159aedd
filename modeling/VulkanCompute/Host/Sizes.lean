import Mathlib.Algebra.Group.Nat.Defs
import VulkanCompute.Host.Buffers
import VulkanCompute.Lib.Loop

/-!
# The sizes of the element buffers

The size of the element buffers is computed twice in `src/main.cpp`.
`CreateBuffers` stores `NumElements * sizeof(int32_t)` in the 32-bit field
`BufferSize`, which sizes the buffers and every mapping of them.
`CreateDescriptorSets` takes the same product in 64 bits, and the loops of the
host run over `I < NumElements`.

* `fillLoop` and `readLoop` are these loops with a record of the bytes that
  they touch.  `fillLoop_buffer` ties the first one to `Host.fillInput`.
* `mem_touched` says that they touch the bytes below `4 * NumElements`.
* `sizesAgree_iff`: all users of the size agree exactly below `2 ^ 30`
  elements.  From there on the loops leave the mapping (`touches_outside`).
-/

namespace VulkanCompute.Host

open Lib

/-! ## The users of the size -/

/-- The product that `BufferSize` truncates, `NumElements * sizeof(int32_t)`
in the type `size_t`. -/
def byteCount (ctx : TContext) : UInt64 := ctx.numElements.toUInt64 * 4

/-- The size of `InBuffer` and `OutBuffer`. -/
def bufferCreateSize (ctx : TContext) : UInt64 := ctx.bufferSize.toUInt64

/-- The size of every mapping of their memory. -/
def mappedSize (ctx : TContext) : UInt64 := ctx.bufferSize.toUInt64

/-- The range of their descriptors. -/
def descriptorRange (ctx : TContext) : UInt64 := byteCount ctx

/-- The bytes of the element `i` of an `int32_t` array. -/
def elementBytes (i : UInt32) : List Nat :=
  (List.range 4).map fun k => 4 * i.toNat + k

/-- A loop over `I < NumElements` that does `work I` on the element `I`, with
the bytes that it touches. -/
def elementLoop {σ : Type*} (work : UInt32 → σ → σ) (numElements : UInt32)
    (s : σ) : σ × List Nat :=
  countUp (fun i s => (work i s.1, s.2 ++ elementBytes i)) numElements 0
    (s, [])

/-- The loop `InBufferPtr[I] = NumElements - I` of `CreateBuffers`. -/
def fillLoop (numElements : UInt32) (memory : Nat → Int32) :
    (Nat → Int32) × List Nat :=
  elementLoop
    (fun i buffer =>
      Function.update buffer i.toNat (numElements - i).toInt32)
    numElements memory

/-- The loops `std::cout << Ptr[I]` of `SubmitWork`, with the values that they
print. -/
def readLoop (numElements : UInt32) (buffer : Nat → Int32) :
    List Int32 × List Nat :=
  elementLoop (fun i printed => printed ++ [buffer i.toNat]) numElements []

/-! ## The loops -/

section ElementLoop

variable {σ : Type*} (work : UInt32 → σ → σ) (numElements : UInt32) (s : σ)

theorem elementLoop_eq :
    elementLoop work numElements s =
      (runSteps (fun k => work (UInt32.ofNat k))
          (List.range numElements.toNat) s,
        (List.range numElements.toNat).flatMap
          fun k => elementBytes (UInt32.ofNat k)) := by
  rw [elementLoop, countUp_zero]
  refine (runSteps_prod (fun k => work (UInt32.ofNat k))
    (fun k touched => touched ++ elementBytes (UInt32.ofNat k)) _ _).trans ?_
  rw [runSteps_collect, List.nil_append]

end ElementLoop

/-- Below the element count the counter holds its number. -/
theorem toNat_ofNat_of_mem_range {numElements : UInt32} {k : Nat}
    (hk : k ∈ List.range numElements.toNat) : (UInt32.ofNat k).toNat = k := by
  have hlt := List.mem_range.mp hk
  exact UInt32.toNat_ofNat_of_lt' (hlt.trans numElements.toNat_lt)

/-- A loop over the elements touches the bytes below `4 * NumElements`. -/
theorem mem_touched {σ : Type*} (work : UInt32 → σ → σ) {numElements : UInt32}
    {s : σ} {x : Nat} :
    x ∈ (elementLoop work numElements s).2 ↔ x < 4 * numElements.toNat := by
  rw [elementLoop_eq, List.mem_flatMap]
  constructor
  · intro h
    obtain ⟨k, hk, hx⟩ := h
    obtain ⟨byte, hbyte, rfl⟩ := List.mem_map.mp hx
    rw [toNat_ofNat_of_mem_range hk]
    have hlt := List.mem_range.mp hk
    have hbyte' := List.mem_range.mp hbyte
    omega
  · intro hx
    have hk : x / 4 ∈ List.range numElements.toNat :=
      List.mem_range.mpr (by omega)
    refine ⟨x / 4, hk, List.mem_map.mpr ⟨x % 4, ?_, ?_⟩⟩
    · exact List.mem_range.mpr (Nat.mod_lt _ (by omega))
    · rw [toNat_ofNat_of_mem_range hk]
      exact Nat.div_add_mod x 4

/-- The loop of `CreateBuffers` fills the buffer. -/
theorem fillLoop_buffer (numElements : UInt32) (memory : Nat → Int32) :
    (fillLoop numElements memory).1 = fillInput numElements memory := by
  rw [fillLoop, elementLoop_eq]
  refine runSteps_congr (fun k hk => ?_) memory
  rw [toNat_ofNat_of_mem_range hk]

/-- The loops of `SubmitWork` print the elements in their order. -/
theorem readLoop_printed (numElements : UInt32) (buffer : Nat → Int32) :
    (readLoop numElements buffer).1 =
      (List.range numElements.toNat).map buffer := by
  have hprint : runSteps (fun k printed => printed ++ [buffer k])
      (List.range numElements.toNat) [] =
        (List.range numElements.toNat).map buffer := by
    rw [runSteps_collect, List.nil_append, List.map_eq_flatMap]
  rw [readLoop, elementLoop_eq, ← hprint]
  refine runSteps_congr (fun k hk => ?_) []
  rw [toNat_ofNat_of_mem_range hk]

/-! ## The sizes -/

variable (ctx : TContext) (memory : Nat → Int32)

/-- The context after `CreateBuffers`. -/
def created : TContext := (createBuffers ctx memory).1

/-- `BufferSize` is the 64-bit product, truncated. -/
theorem created_bufferSize :
    (created ctx memory).bufferSize = (byteCount ctx).toUInt32 := by
  rw [byteCount, UInt64.toUInt32_mul, UInt32.toUInt32_toUInt64]
  rfl

theorem byteCount_toNat : (byteCount ctx).toNat = 4 * ctx.numElements.toNat := by
  have hlt := ctx.numElements.toNat_lt
  rw [byteCount, UInt64.toNat_mul, UInt32.toNat_toUInt64, Nat.mul_comm]
  exact Nat.mod_eq_of_lt (by
    show 4 * ctx.numElements.toNat < 2 ^ 64
    omega)

theorem mappedSize_toNat :
    (mappedSize (created ctx memory)).toNat =
      4 * ctx.numElements.toNat % 2 ^ 32 := by
  rw [mappedSize, created_bufferSize, UInt32.toNat_toUInt64,
    UInt64.toNat_toUInt32, byteCount_toNat]

theorem descriptorRange_toNat :
    (descriptorRange (created ctx memory)).toNat =
      4 * ctx.numElements.toNat :=
  byteCount_toNat ctx

/-- What the users of the size promise together: the stored size and the range
of the descriptors are the bytes of the elements, the loops of the host touch
the mapped bytes, and the descriptors stay inside the buffers. -/
structure SizesAgree : Prop where
  stored : (created ctx memory).bufferSize.toNat = 4 * ctx.numElements.toNat
  range : (descriptorRange (created ctx memory)).toNat =
    4 * ctx.numElements.toNat
  filled : ∀ x, x ∈ (fillLoop ctx.numElements memory).2 ↔
    x < (mappedSize (created ctx memory)).toNat
  readBack : ∀ buffer x, x ∈ (readLoop ctx.numElements buffer).2 ↔
    x < (mappedSize (created ctx memory)).toNat
  inside : descriptorRange (created ctx memory) ≤
    bufferCreateSize (created ctx memory)

/-- The users of the size agree exactly below `2 ^ 30` elements. -/
theorem sizesAgree_iff :
    SizesAgree ctx memory ↔ ctx.numElements.toNat < 2 ^ 30 := by
  have hmapped := mappedSize_toNat ctx memory
  have hrange := descriptorRange_toNat ctx memory
  have hstored : (created ctx memory).bufferSize.toNat =
      4 * ctx.numElements.toNat % 2 ^ 32 := by
    rw [← hmapped, mappedSize, UInt32.toNat_toUInt64]
  constructor
  · intro h
    have hlt := (created ctx memory).bufferSize.toNat_lt
    rw [h.stored] at hlt
    omega
  · intro hn
    have hexact : 4 * ctx.numElements.toNat % 2 ^ 32 =
        4 * ctx.numElements.toNat := Nat.mod_eq_of_lt (by omega)
    rw [hexact] at hmapped hstored
    refine ⟨hstored, hrange, fun x => ?_, fun buffer x => ?_, ?_⟩
    · rw [hmapped]
      exact mem_touched _
    · rw [hmapped]
      exact mem_touched _
    · rw [UInt64.le_iff_toNat_le, hrange]
      exact hmapped.ge

/-- From there on the host touches a byte behind the mapping. -/
theorem touches_outside (hn : 2 ^ 30 ≤ ctx.numElements.toNat) :
    ∃ x ∈ (fillLoop ctx.numElements memory).2,
      (mappedSize (created ctx memory)).toNat ≤ x := by
  refine ⟨4 * ctx.numElements.toNat - 1, (mem_touched _).mpr (by omega), ?_⟩
  rw [mappedSize_toNat]
  omega

omit ctx memory in
/-- With `2 ^ 30` elements `BufferSize` is 0, and the host writes all the
same. -/
theorem size_wraps_to_zero :
    let ctx : TContext := { numElements := 0x40000000 }
    (created ctx fun _ => 0).bufferSize = 0 ∧
      (descriptorRange (created ctx fun _ => 0)).toNat = 2 ^ 32 ∧
      0 ∈ (fillLoop ctx.numElements fun _ => 0).2 ∧
      ¬SizesAgree ctx fun _ => 0 := by
  intro ctx
  have hn : ctx.numElements.toNat = 2 ^ 30 := rfl
  have hrange := descriptorRange_toNat ctx fun _ => 0
  have htouched : 0 ∈ (fillLoop ctx.numElements fun _ => 0).2 :=
    (mem_touched _).mpr (by omega)
  have hmapped := mappedSize_toNat ctx fun _ => 0
  rw [hn] at hmapped
  refine ⟨by decide, by omega, htouched, fun h => ?_⟩
  have hinside := (h.filled 0).mp htouched
  rw [hmapped] at hinside
  exact absurd hinside (by decide)

end VulkanCompute.Host
