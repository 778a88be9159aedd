import VulkanCompute.Lib.Bytes
import VulkanCompute.Lib.FrameRing
import VulkanCompute.Profiler.Wire

/-!
# Frames

The client collects what it sends in `m_buffer` and hands it to `SendData` in
frames of at most `TargetFrameSize` bytes.  The server reads a frame as a
whole and then item by item, so no item may lie across two frames.  LZ4 packs
a frame, and may refer to the last 64 KB that it has packed, which it expects
to find where they were.

`SendBuffer` is the buffer of the client, and `Framed` its invariant: what has
been appended is what has been sent and what is still pending, every frame
consists of whole pieces, a packet unpacks to its frame for whoever has the
frames before it, and the frames follow the ring of `Lib.nextOffset`, which
the server follows too.
-/

namespace VulkanCompute.Profiler

open Lib

/-- `TargetFrameSize`. -/
def targetFrameSize : Nat := 256 * 1024

/-! ## Packets -/

/-- What LZ4 refers to, the last 64 KB of the stream. -/
def historySize : Nat := 64 * 1024

/-- `LZ4_compress_fast_continue` and `LZ4_decompress_safe_continue`.  Both get
the bytes that they may refer to, and `compress` also `m_stream`. -/
structure StreamCodec where
  State : Type
  reset : State
  compress : State → List UInt8 → List UInt8 → State × List UInt8
  decompress : List UInt8 → List UInt8 → Option (List UInt8)

/-- What a frame was packed into unpacks to it, with the same history. -/
def StreamCodec.Lossless (codec : StreamCodec) : Prop :=
  ∀ state history data, data.length ≤ targetFrameSize →
    codec.decompress history (codec.compress state history data).2 = some data

/-- LZ4 on input in which no four bytes come twice.  It stores it as literals. -/
def literalCodec : StreamCodec where
  State := Unit
  reset := ()
  compress := fun _ _ data => ((), literals data)
  decompress := fun _ packet => readLiterals packet

theorem literalCodec_lossless : literalCodec.Lossless :=
  fun _ _ data _ => readLiterals_literals data

/-- Each packet unpacks to its frame, after the frames before it. -/
def StreamCodec.Unpacks (codec : StreamCodec)
    (packets frames : List (List UInt8)) : Prop :=
  packets.length = frames.length ∧
    ∀ i packet frame, packets[i]? = some packet → frames[i]? = some frame →
      codec.decompress ((frames.take i).flatten.rtake historySize) packet =
        some frame

/-- Every item fits in a frame. -/
theorem length_toBytes_le (item : QueueItem) :
    item.toBytes.length ≤ targetFrameSize := by
  rw [length_toBytes]
  cases item <;> simp [queueDataSize, targetFrameSize]

variable {codec : StreamCodec}

theorem StreamCodec.unpacks_nil : codec.Unpacks [] [] :=
  ⟨rfl, fun _ _ _ h => by simp at h⟩

theorem StreamCodec.Unpacks.append {packets frames : List (List UInt8)}
    (h : codec.Unpacks packets frames) {packet frame : List UInt8}
    (hnext : codec.decompress (frames.flatten.rtake historySize) packet =
      some frame) : codec.Unpacks (packets ++ [packet]) (frames ++ [frame]) := by
  obtain ⟨hlength, hunpacks⟩ := h
  refine ⟨by simp [hlength], fun i p f hp hf => ?_⟩
  rcases Nat.lt_trichotomy i frames.length with hlt | rfl | hgt
  · rw [List.getElem?_append_left (by omega)] at hp hf
    rw [List.take_append_of_le_length hlt.le]
    exact hunpacks i p f hp hf
  · rw [← hlength, List.getElem?_concat_length] at hp
    rw [List.getElem?_concat_length] at hf
    rw [List.take_left, ← Option.some.inj hp, ← Option.some.inj hf, hnext]
  · rw [List.getElem?_eq_none (by simp; omega)] at hf
    exact absurd hf (Option.some_ne_none f).symm

/-! ## The buffer of the client -/

/-- `m_buffer`, `m_bufferStart`, `m_bufferOffset` and `m_stream`.  `written`
lists where LZ4 has seen the bytes of the stream, `packets` what has been
sent, and `frames` what `SendData` was given. -/
structure SendBuffer (codec : StreamCodec) where
  buffer : Bytes
  bufferStart : Nat
  bufferOffset : Nat
  stream : codec.State
  written : List Nat
  packets : List (List UInt8)
  frames : List (List UInt8)

namespace SendBuffer

/-- The buffer at the start of a connection. -/
def start (buffer : Bytes) : SendBuffer codec :=
  ⟨buffer, 0, 0, codec.reset, [], [], []⟩

/-- The bytes that wait for the next frame. -/
def pending (b : SendBuffer codec) : List UInt8 :=
  slice b.buffer b.bufferStart (b.bufferOffset - b.bufferStart)

/-- What LZ4 finds where it has seen the end of the stream. -/
def history (b : SendBuffer codec) : List UInt8 :=
  (b.written.rtake historySize).map b.buffer

/-- `SendData` on the pending bytes. -/
def sendData (b : SendBuffer codec) : SendBuffer codec :=
  let (stream, packet) := codec.compress b.stream b.history b.pending
  let seen := List.range' b.bufferStart (b.bufferOffset - b.bufferStart)
  { b with
    stream := stream
    written := b.written ++ seen
    packets := b.packets ++ [packet]
    frames := b.frames ++ [b.pending] }

/-- `CommitData`. -/
def commitData (b : SendBuffer codec) : SendBuffer codec :=
  let b := b.sendData
  let bufferOffset :=
    if b.bufferOffset > targetFrameSize * 2 then 0 else b.bufferOffset
  { b with bufferStart := bufferOffset, bufferOffset := bufferOffset }

/-- `NeedDataSize`, `none` when its assertion fails. -/
def needDataSize (len : Nat) (b : SendBuffer codec) :
    Option (SendBuffer codec) :=
  if len ≤ targetFrameSize then
    some
      (if b.bufferOffset - b.bufferStart + len > targetFrameSize then
        b.commitData
      else b)
  else none

/-- `AppendDataUnsafe`, `none` when it writes behind the buffer. -/
def appendDataUnsafe (data : List UInt8) (b : SendBuffer codec) :
    Option (SendBuffer codec) :=
  if b.bufferOffset + data.length ≤ targetFrameSize * 3 then
    some { b with
      buffer := splice b.buffer b.bufferOffset data
      bufferOffset := b.bufferOffset + data.length }
  else none

/-- `AppendData`. -/
def appendData (data : List UInt8) (b : SendBuffer codec) :
    Option (SendBuffer codec) := do
  let b ← b.needDataSize data.length
  b.appendDataUnsafe data

end SendBuffer

/-- The calls of the profiler thread.  It commits what is pending when the
queues are empty. -/
inductive SendCall where
  | appendData (data : List UInt8)
  | commitData

def SendCall.data : SendCall → List (List UInt8)
  | .appendData data => [data]
  | .commitData => []

namespace SendBuffer

def call (b : SendBuffer codec) : SendCall → Option (SendBuffer codec)
  | .appendData data => b.appendData data
  | .commitData => some b.commitData

def run (calls : List SendCall) (b : SendBuffer codec) :
    Option (SendBuffer codec) :=
  calls.foldlM call b

theorem run_append (calls calls' : List SendCall) (b : SendBuffer codec) :
    run (calls ++ calls') b = (run calls b).bind (run calls') :=
  List.foldlM_append

/-! ## The invariant -/

/-- `groups` are the pieces of the frames that have been sent, and `last` the
pieces that are pending. -/
structure Framed (pieces : List (List UInt8)) (b : SendBuffer codec)
    (groups : List (List (List UInt8))) (last : List (List UInt8)) :
    Prop where
  pieces : pieces = groups.flatten ++ last
  frames : b.frames = groups.map List.flatten
  pending : b.pending = last.flatten
  le_offset : b.bufferStart ≤ b.bufferOffset
  size_le : b.bufferOffset - b.bufferStart ≤ targetFrameSize
  frame_le : ∀ frame ∈ b.frames, frame.length ≤ targetFrameSize
  ring : b.bufferStart = offsetAfter targetFrameSize (b.frames.map List.length)
  written : b.written = addresses targetFrameSize (b.frames.map List.length)
  holds : Holds targetFrameSize b.buffer b.frames
  unpacks : codec.Unpacks b.packets b.frames

theorem framed_start (buffer : Bytes) :
    Framed [] (start buffer : SendBuffer codec) [] [] where
  pieces := rfl
  frames := rfl
  pending := rfl
  le_offset := le_rfl
  size_le := Nat.zero_le _
  frame_le := fun _ h => absurd h List.not_mem_nil
  ring := rfl
  written := rfl
  holds := holds_nil _ _
  unpacks := codec.unpacks_nil

theorem commitData_empty (b : SendBuffer codec) :
    b.commitData.bufferOffset - b.commitData.bufferStart = 0 :=
  Nat.sub_self _

variable {pieces : List (List UInt8)} {b : SendBuffer codec}
  {groups : List (List (List UInt8))} {last : List (List UInt8)}

theorem length_pending (b : SendBuffer codec) :
    b.pending.length = b.bufferOffset - b.bufferStart := by
  rw [SendBuffer.pending, length_slice]

/-- LZ4 finds the end of the stream. -/
theorem Framed.history (h : Framed pieces b groups last) :
    b.history = b.frames.flatten.rtake historySize := by
  rw [SendBuffer.history, h.written]
  exact h.holds.rtake_of_le (by decide)

theorem Framed.commitData (h : Framed pieces b groups last)
    (hcodec : codec.Lossless) :
    Framed pieces b.commitData (groups ++ [last]) [] where
  pieces := by
    rw [h.pieces]
    simp
  frames := by
    show b.frames ++ [b.pending] = _
    rw [h.frames, h.pending]
    simp
  pending := by
    simp [SendBuffer.commitData, SendBuffer.pending, slice]
  le_offset := le_rfl
  size_le := by
    rw [b.commitData_empty]
    exact Nat.zero_le _
  frame_le := by
    intro frame hframe
    rcases List.mem_append.mp hframe with hold | hnew
    · exact h.frame_le frame hold
    · rw [List.mem_singleton.mp hnew, b.length_pending]
      exact h.size_le
  ring := by
    have hoffset : b.bufferStart + b.pending.length = b.bufferOffset := by
      rw [b.length_pending]
      have := h.le_offset
      omega
    show _ = offsetAfter _ ((b.frames ++ [b.pending]).map _)
    rw [List.map_append, List.map_singleton, offsetAfter_append_singleton,
      ← h.ring, nextOffset, hoffset]
    rfl
  written := by
    show b.written ++ List.range' _ _ =
      addresses _ ((b.frames ++ [b.pending]).map _)
    rw [List.map_append, List.map_singleton, addresses_append_singleton,
      ← h.ring, ← h.written, b.length_pending]
  holds := by
    refine h.holds.append ?_
    rw [← h.ring, b.length_pending]
    rfl
  unpacks := by
    refine h.unpacks.append ?_
    rw [← h.history]
    exact hcodec _ _ _ (b.length_pending.trans_le h.size_le)

theorem Framed.appendDataUnsafe (h : Framed pieces b groups last)
    {data : List UInt8}
    (hfits : b.bufferOffset - b.bufferStart + data.length ≤ targetFrameSize) :
    ∃ b', b.appendDataUnsafe data = some b' ∧
      Framed (pieces ++ [data]) b' groups (last ++ [data]) := by
  have hstart := offsetAfter_le targetFrameSize (b.frames.map List.length)
  rw [← h.ring] at hstart
  have hle := h.le_offset
  have hroom : b.bufferOffset + data.length ≤ targetFrameSize * 3 := by omega
  refine ⟨_, if_pos hroom, ?_, h.frames, ?_, ?_, ?_, h.frame_le, h.ring,
    h.written, h.holds.congr fun x hx => ?_, h.unpacks⟩
  · rw [h.pieces, List.append_assoc]
  · have hsplit : b.bufferOffset + data.length - b.bufferStart =
        b.bufferOffset - b.bufferStart + data.length := by omega
    have hback : b.bufferStart + (b.bufferOffset - b.bufferStart) =
        b.bufferOffset := by omega
    show slice _ b.bufferStart (b.bufferOffset + data.length - _) = _
    rw [hsplit, slice_add, hback, slice_splice, List.flatten_append,
      ← h.pending]
    refine congrArg₂ _ (slice_congr fun x _ hx => ?_) (by simp)
    exact splice_of_outside (Or.inl (by omega))
  · show b.bufferStart ≤ b.bufferOffset + data.length
    omega
  · show b.bufferOffset + data.length - b.bufferStart ≤ _
    omega
  · rw [← h.ring] at hx
    exact splice_of_outside (by omega)

/-- Every piece finds room in the frame, or the frame is sent first. -/
theorem Framed.appendData (h : Framed pieces b groups last)
    (hcodec : codec.Lossless) {data : List UInt8}
    (hdata : data.length ≤ targetFrameSize) :
    ∃ b' groups' last', b.appendData data = some b' ∧
      Framed (pieces ++ [data]) b' groups' last' := by
  unfold SendBuffer.appendData needDataSize
  rw [if_pos hdata]
  by_cases hfull :
      b.bufferOffset - b.bufferStart + data.length > targetFrameSize
  · rw [if_pos hfull]
    have hfits : b.commitData.bufferOffset - b.commitData.bufferStart +
        data.length ≤ targetFrameSize := by
      rw [b.commitData_empty]
      omega
    obtain ⟨b', hrun, hb'⟩ := (h.commitData hcodec).appendDataUnsafe hfits
    exact ⟨b', _, _, hrun, hb'⟩
  · rw [if_neg hfull]
    obtain ⟨b', hrun, hb'⟩ := h.appendDataUnsafe (Nat.le_of_not_lt hfull)
    exact ⟨b', _, _, hrun, hb'⟩

theorem Framed.call (h : Framed pieces b groups last)
    (hcodec : codec.Lossless) {c : SendCall}
    (hc : ∀ data ∈ c.data, data.length ≤ targetFrameSize) :
    ∃ b' groups' last', b.call c = some b' ∧
      Framed (pieces ++ c.data) b' groups' last' := by
  cases c with
  | appendData data =>
    exact h.appendData hcodec (hc data List.mem_cons_self)
  | commitData =>
    exact ⟨_, _, _, rfl, by simpa [SendCall.data] using h.commitData hcodec⟩

/-- Whatever the thread appends and whenever it commits, no assertion fails,
no byte is written behind the buffer, no piece is cut, and every packet
unpacks. -/
theorem run_framed (buffer : Bytes) (calls : List SendCall)
    (hcodec : codec.Lossless)
    (hcalls : ∀ data ∈ calls.flatMap SendCall.data,
      data.length ≤ targetFrameSize) :
    ∃ (b : SendBuffer codec) (groups : List (List (List UInt8)))
      (last : List (List UInt8)), run calls (start buffer) = some b ∧
        Framed (calls.flatMap SendCall.data) b groups last := by
  induction calls using List.reverseRecOn with
  | nil => exact ⟨_, _, _, rfl, framed_start buffer⟩
  | append_singleton calls c ih =>
    rw [List.flatMap_append, List.flatMap_singleton] at hcalls ⊢
    obtain ⟨b, groups, last, hrun, hb⟩ := ih fun data hdata =>
      hcalls data (List.mem_append_left _ hdata)
    obtain ⟨b', groups', last', hcall, hb'⟩ := hb.call hcodec (c := c)
      fun data hdata => hcalls data (List.mem_append_right _ hdata)
    refine ⟨b', groups', last', ?_, hb'⟩
    rw [run_append, hrun]
    simpa [run] using hcall

/-- What `DequeueSerial` makes of a named allocation.  No byte comes twice, here
and in `laterFree`. -/
def namedAlloc : List QueueItem :=
  [.memNamePayload 0x5152535455565758,
    .memAllocNamed ⟨0x2122232425262728, 0x31323334, 0x4142434445464748,
      ⟨0x61626364, 0x7172⟩⟩]

/-- And of a deallocation. -/
def laterFree : QueueItem :=
  .memFree ⟨0x0102030405060708, 0x11121314, 0x81828384858687⟩

/-- The allocation has been committed when the deallocation is appended. -/
def allocThenFree : List SendCall :=
  namedAlloc.map (.appendData ·.toBytes) ++
    [.commitData, .appendData laterFree.toBytes]

theorem run_framed_alloc_then_free :
    ∃ (b : SendBuffer literalCodec) (groups : List (List (List UInt8)))
      (last : List (List UInt8)),
      run allocThenFree (start fun _ => 0) = some b ∧
        Framed (allocThenFree.flatMap SendCall.data) b groups last ∧
        b.frames = [namedAlloc.flatMap QueueItem.toBytes] ∧
        b.pending = laterFree.toBytes := by
  have hsize : ∀ data ∈ (namedAlloc ++ [laterFree]).map QueueItem.toBytes,
      data.length ≤ targetFrameSize :=
    List.forall_mem_map.mpr fun item _ => length_toBytes_le item
  obtain ⟨b, groups, last, hrun, hb⟩ :=
    run_framed (fun _ => 0) allocThenFree literalCodec_lossless hsize
  have hsent : (run allocThenFree (start fun _ => 0)).map
      (fun b : SendBuffer literalCodec => (b.frames, b.pending)) =
        some ([namedAlloc.flatMap QueueItem.toBytes], laterFree.toBytes) := by
    decide +kernel
  rw [hrun] at hsent
  obtain ⟨hframes, hpending⟩ := Prod.mk.inj (Option.some.inj hsent)
  exact ⟨b, groups, last, hrun, hb, hframes, hpending⟩

end SendBuffer

end VulkanCompute.Profiler
