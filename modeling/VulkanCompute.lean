import VulkanCompute.Lib.Schedule
import VulkanCompute.Lib.Interleave
import VulkanCompute.Lib.Loop
import VulkanCompute.Lib.FixedWidth
import VulkanCompute.Lib.StableRank
import VulkanCompute.Lib.RadixSort
import VulkanCompute.Lib.Brackets
import VulkanCompute.Lib.Bytes
import VulkanCompute.Lib.Window
import VulkanCompute.Lib.Transducer
import VulkanCompute.Lib.Codec
import VulkanCompute.Lib.FrameRing
import VulkanCompute.Lib.PackedWord
import VulkanCompute.Lib.RoundRobin
import VulkanCompute.Shader.Kernel
import VulkanCompute.Shader.Phases
import VulkanCompute.Shader.Counting
import VulkanCompute.Shader.WaveTables
import VulkanCompute.Shader.Scatter
import VulkanCompute.Host.Buffers
import VulkanCompute.Host.Sizes
import VulkanCompute.Host.MemoryType
import VulkanCompute.Shader.Dispatch
import VulkanCompute.Shader.Radix
import VulkanCompute.Shader.Sort
import VulkanCompute.Shader.Independence
import VulkanCompute.Shader.Accesses
import VulkanCompute.Shader.Atomicity
import VulkanCompute.Profiler.Domain
import VulkanCompute.Profiler.Alloc
import VulkanCompute.Profiler.Blocks
import VulkanCompute.Profiler.Placement
import VulkanCompute.Profiler.Session
import VulkanCompute.Profiler.Trace
import VulkanCompute.Profiler.Threads
import VulkanCompute.Profiler.Interleaving
import VulkanCompute.Profiler.Lifetime
import VulkanCompute.Profiler.Value
import VulkanCompute.Profiler.Statistics
import VulkanCompute.Profiler.Wire
import VulkanCompute.Profiler.Frames
import VulkanCompute.Profiler.NetBuffers
import VulkanCompute.Profiler.Connection
import VulkanCompute.Profiler.SerialQueue
import VulkanCompute.Profiler.MemEvent
import VulkanCompute.Profiler.MemData
import VulkanCompute.Profiler.MemServer
import VulkanCompute.Profiler.MemMirror
import VulkanCompute.Profiler.GpuQueries
import VulkanCompute.Profiler.VkCtx
import VulkanCompute.Profiler.Collect
import VulkanCompute.Profiler.GpuEvent
import VulkanCompute.Profiler.GpuClock
import VulkanCompute.Profiler.GpuServer
import VulkanCompute.Profiler.GpuZones
import VulkanCompute.Profiler.GpuMirror
import VulkanCompute.Profiler.LiveBlocks
import VulkanCompute.Profiler.MemoryView
