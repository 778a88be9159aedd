import VulkanCompute.Shader.Kernel

/-!
# The host side of a dispatch

`CreateBuffers` and `SubmitWork` of `src/main.cpp`, as far as they decide
what the kernel sees: the contents of `InputKeys`, the constant `Count`, and
the number of thread groups.
-/

namespace VulkanCompute.Host

open Shader

/-- The sizes in `TContext`. -/
structure TContext where
  numElements : UInt32 := 10
  bufferSize : UInt32 := 0

/-- What the host has written to the buffers. -/
structure Buffers where
  inBuffer : Nat → Int32
  count : UInt32

/-- The loop `InBufferPtr[I] = NumElements - I` over `I < NumElements`, on
memory that holds `memory`. -/
def fillInput (numElements : UInt32) (memory : Nat → Int32) : Nat → Int32 :=
  (List.range numElements.toNat).foldl
    (fun buffer i =>
      Function.update buffer i (numElements - UInt32.ofNat i).toInt32)
    memory

/-- `CreateBuffers`: the size of the element buffers, the input and `Count`.
`memory` is what the fresh input buffer holds. -/
def createBuffers (ctx : TContext) (memory : Nat → Int32) :
    TContext × Buffers :=
  let numElements := ctx.numElements
  let count := numElements
  ({ ctx with bufferSize := numElements * 4 },
    { inBuffer := fillInput numElements memory, count := count })

/-- The launch that `SubmitWork` records, on a device with the given wave
size. -/
def submitWork (W : WaveSize) (oob : Shared → Shared) (buffers : Buffers) :
    Launch where
  waveSize := W
  count := buffers.count.toNat
  inputKeys := buffers.inBuffer
  oob := oob

/-- `dispatch(NumElements, 1, 1)`. -/
def groupCount (ctx : TContext) : Nat := ctx.numElements.toNat

end VulkanCompute.Host
