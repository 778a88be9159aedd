import VulkanCompute.Profiler.Frames

/-!
# The two threads of the server

`Network` unpacks the packets of the client into a ring of bytes, and `Exec`
works through the frames in place.  They share the counter `m_netWriteCnt`,
how many frames `Network` may unpack before `Exec` is done with one, and the
queue `m_netRead` of what has been unpacked.  `Exec` starts a connection with
a counter of two.

`WorkerStep` has one constructor for each thing that a thread does while it
holds a lock, and for each byte that `Exec` reads.  While `Network` unpacks,
the room of the frame holds anything (`scribble`).

`Buffered` is the invariant.  `Network` never writes to a frame that `Exec`
has not finished, nor to the last 64 KB, which LZ4 still refers to.
-/

namespace VulkanCompute.Profiler

open Lib

/-- `NetBuffer`. -/
structure NetBuffer where
  bufferOffset : Nat
  size : Nat

inductive NetworkPc where
  /-- waits for `m_netWriteCnt` -/
  | waiting
  /-- has decremented it and reads from the socket -/
  | unpacking

inductive ExecPc where
  /-- waits for `m_netRead` -/
  | waiting
  /-- is at `ptr` on its way to `end`, and has read `got` -/
  | reading (frame : NetBuffer) (got : List UInt8)

/-- The state of both threads.  `written` lists where LZ4 has put the bytes of
the stream, `received` counts the packets, and `done` are the frames as `Exec`
has read them. -/
structure Worker where
  buffer : Bytes
  bufferOffset : Nat
  written : List Nat
  received : Nat
  netWriteCnt : Nat
  network : NetworkPc
  netRead : List NetBuffer
  exec : ExecPc
  done : List (List UInt8)

namespace Worker

/-- When `Exec` has set `m_netWriteCnt` to two. -/
def start (buffer : Bytes) : Worker where
  buffer := buffer
  bufferOffset := 0
  written := []
  received := 0
  netWriteCnt := 2
  network := .waiting
  netRead := []
  exec := .waiting
  done := []

/-- What LZ4 finds where it has put the end of the stream. -/
def history (w : Worker) : List UInt8 :=
  (w.written.rtake historySize).map w.buffer

/-- `Network` has waited for `m_netWriteCnt` and decremented it to `n`. -/
def permit (w : Worker) (n : Nat) : Worker :=
  { w with netWriteCnt := n, network := .unpacking }

/-- `Network` has unpacked a frame. -/
def deliver (w : Worker) (data : List UInt8) : Worker :=
  { w with
    buffer := splice w.buffer w.bufferOffset data
    bufferOffset := nextOffset targetFrameSize w.bufferOffset data.length
    written := w.written ++ List.range' w.bufferOffset data.length
    received := w.received + 1
    network := .waiting
    netRead := w.netRead ++ [⟨w.bufferOffset, data.length⟩] }

/-- `Exec` has taken a frame off `m_netRead`. -/
def take (w : Worker) (frame : NetBuffer) (rest : List NetBuffer) : Worker :=
  { w with netRead := rest, exec := .reading frame [] }

/-- `Exec` has read the next byte of its frame. -/
def read (w : Worker) (frame : NetBuffer) (got : List UInt8) : Worker :=
  let byte := w.buffer (frame.bufferOffset + got.length)
  { w with exec := .reading frame (got ++ [byte]) }

/-- `Exec` has come to the end of its frame. -/
def finish (w : Worker) (got : List UInt8) : Worker :=
  { w with
    netWriteCnt := w.netWriteCnt + 1
    exec := .waiting
    done := w.done ++ [got] }

end Worker

/-- What the two threads do.  `packets` is what the client has sent. -/
inductive WorkerStep (codec : StreamCodec) (packets : List (List UInt8)) :
    Worker → Worker → Prop where
  /-- `Network` may unpack one more frame. -/
  | permit {w : Worker} {n : Nat} (hpc : w.network = .waiting)
      (hcnt : w.netWriteCnt = n + 1) :
      WorkerStep codec packets w (w.permit n)
  /-- LZ4 is at work, and writes at most `TargetFrameSize` bytes. -/
  | scribble {w : Worker} (buffer : Bytes) (hpc : w.network = .unpacking)
      (hroom : ∀ x, x < w.bufferOffset ∨
        w.bufferOffset + targetFrameSize ≤ x → buffer x = w.buffer x) :
      WorkerStep codec packets w { w with buffer := buffer }
  /-- LZ4 is done, and `Network` queues the frame. -/
  | deliver {w : Worker} {packet data : List UInt8}
      (hpc : w.network = .unpacking)
      (hpacket : packets[w.received]? = some packet)
      (hdata : codec.decompress w.history packet = some data) :
      WorkerStep codec packets w (w.deliver data)
  /-- `Exec` takes the next frame. -/
  | take {w : Worker} {frame : NetBuffer} {rest : List NetBuffer}
      (hpc : w.exec = .waiting) (hread : w.netRead = frame :: rest) :
      WorkerStep codec packets w (w.take frame rest)
  /-- `Exec` reads a byte of it. -/
  | read {w : Worker} {frame : NetBuffer} {got : List UInt8}
      (hpc : w.exec = .reading frame got) (hlt : got.length < frame.size) :
      WorkerStep codec packets w (w.read frame got)
  /-- `Exec` has reached `end` and allows `Network` to go on. -/
  | finish {w : Worker} {frame : NetBuffer} {got : List UInt8}
      (hpc : w.exec = .reading frame got) (hend : got.length = frame.size) :
      WorkerStep codec packets w (w.finish got)

/-! ## The invariant -/

namespace Worker

/-- The frame that `Exec` works on. -/
def current (w : Worker) : List NetBuffer :=
  match w.exec with
  | .waiting => []
  | .reading frame _ => [frame]

/-- The frames that `Exec` has not finished. -/
def outstanding (w : Worker) : List NetBuffer := w.current ++ w.netRead

/-- What `Exec` has read of the frame it works on. -/
def got (w : Worker) : List UInt8 :=
  match w.exec with
  | .waiting => []
  | .reading _ got => got

/-- The permission that `Network` has taken. -/
def granted (w : Worker) : Nat :=
  match w.network with
  | .waiting => 0
  | .unpacking => 1

theorem current_of_reading {w : Worker} {frame : NetBuffer} {got : List UInt8}
    (h : w.exec = .reading frame got) : w.current = [frame] := by
  rw [current, h]

theorem got_of_reading {w : Worker} {frame : NetBuffer} {got : List UInt8}
    (h : w.exec = .reading frame got) : w.got = got := by
  rw [Worker.got, h]

theorem granted_of_waiting {w : Worker} (h : w.network = .waiting) :
    w.granted = 0 := by
  rw [granted, h]

theorem granted_of_unpacking {w : Worker} (h : w.network = .unpacking) :
    w.granted = 1 := by
  rw [granted, h]

/-- The bytes of a frame in the ring. -/
def bytes (w : Worker) (frame : NetBuffer) : List UInt8 :=
  slice w.buffer frame.bufferOffset frame.size

/-- The room of the next frame does not overlap a frame. -/
def SparedBy (w : Worker) (frame : NetBuffer) : Prop :=
  ∀ x, frame.bufferOffset ≤ x → x < frame.bufferOffset + frame.size →
    x < w.bufferOffset ∨ w.bufferOffset + targetFrameSize ≤ x

/-- `frames` is what the client has put into the packets. -/
structure Buffered (frames : List (List UInt8)) (w : Worker) : Prop where
  received_le : w.received ≤ frames.length
  ring : w.bufferOffset =
    offsetAfter targetFrameSize ((frames.take w.received).map List.length)
  written : w.written =
    addresses targetFrameSize ((frames.take w.received).map List.length)
  holds : Holds targetFrameSize w.buffer (frames.take w.received)
  credit : w.outstanding.length + w.granted + w.netWriteCnt = 2
  contents : w.done ++ w.outstanding.map w.bytes = frames.take w.received
  got : ∀ frame ∈ w.current, w.got <+: w.bytes frame
  -- two frames are never outstanding while `Network` unpacks
  spared : ∀ front frame, w.outstanding = front ++ [frame] → w.SparedBy frame

theorem buffered_start (buffer : Bytes) : Buffered [] (start buffer) where
  received_le := Nat.le_refl _
  ring := rfl
  written := rfl
  holds := holds_nil _ _
  credit := rfl
  contents := rfl
  got := fun _ h => absurd h List.not_mem_nil
  spared := fun front frame h => by simp [outstanding, current, start] at h

variable {codec : StreamCodec} {packets frames : List (List UInt8)}
  {w w' : Worker}

theorem Buffered.done_prefix (h : Buffered frames w) : w.done <+: frames := by
  have hdone : w.done <+: frames.take w.received := ⟨_, h.contents⟩
  exact hdone.trans (List.take_prefix _ _)

/-- The client has sent one more frame. -/
theorem Buffered.grow (h : Buffered frames w) (frame : List UInt8) :
    Buffered (frames ++ [frame]) w :=
  have htake : (frames ++ [frame]).take w.received = frames.take w.received :=
    List.take_append_of_le_length h.received_le
  { h with
    received_le := by
      rw [List.length_append]
      exact Nat.le_add_right_of_le h.received_le
    ring := htake ▸ h.ring
    written := htake ▸ h.written
    holds := htake ▸ h.holds
    contents := htake ▸ h.contents }

/-- While `Network` unpacks, every frame that `Exec` has not finished is
spared, for there is at most one. -/
theorem Buffered.spared_of_unpacking (h : Buffered frames w)
    (hpc : w.network = .unpacking) {frame : NetBuffer}
    (hframe : frame ∈ w.outstanding) : w.SparedBy frame := by
  have hcredit := h.credit
  rw [granted_of_unpacking hpc] at hcredit
  match hout : w.outstanding with
  | [] =>
    rw [hout] at hframe
    exact absurd hframe List.not_mem_nil
  | [only] =>
    rw [hout] at hframe
    rw [List.mem_singleton.mp hframe]
    exact h.spared [] only hout
  | _ :: _ :: _ =>
    rw [hout] at hcredit
    simp at hcredit
    omega

theorem SparedBy.bytes_eq {frame : NetBuffer} (h : w.SparedBy frame)
    {buffer : Bytes}
    (hroom : ∀ x, x < w.bufferOffset ∨ w.bufferOffset + targetFrameSize ≤ x →
      buffer x = w.buffer x) :
    slice buffer frame.bufferOffset frame.size = w.bytes frame :=
  slice_congr fun x hlow hhigh => hroom x (h x hlow hhigh)

theorem Buffered.permit (h : Buffered frames w) {n : Nat}
    (hpc : w.network = .waiting) (hcnt : w.netWriteCnt = n + 1) :
    Buffered frames (w.permit n) where
  received_le := h.received_le
  ring := h.ring
  written := h.written
  holds := h.holds
  credit := by
    have hcredit := h.credit
    rw [granted_of_waiting hpc, hcnt] at hcredit
    show w.outstanding.length + 1 + n = 2
    omega
  contents := h.contents
  got := h.got
  spared := h.spared

theorem Buffered.scribble (h : Buffered frames w) {buffer : Bytes}
    (hpc : w.network = .unpacking)
    (hroom : ∀ x, x < w.bufferOffset ∨ w.bufferOffset + targetFrameSize ≤ x →
      buffer x = w.buffer x) :
    Buffered frames { w with buffer := buffer } :=
  have hbytes : ∀ frame ∈ w.outstanding,
      slice buffer frame.bufferOffset frame.size = w.bytes frame :=
    fun frame hframe => (h.spared_of_unpacking hpc hframe).bytes_eq hroom
  { h with
    holds := h.holds.congr (by rwa [← h.ring])
    contents := by
      rw [← h.contents]
      exact congrArg _ (List.map_congr_left hbytes)
    got := fun frame hframe => by
      have hgot := h.got frame hframe
      rw [← hbytes frame (List.mem_append_left _ hframe)] at hgot
      exact hgot }

/-- LZ4 finds the end of the stream. -/
theorem Buffered.history (h : Buffered frames w) :
    w.history = (frames.take w.received).flatten.rtake historySize := by
  rw [Worker.history, h.written]
  exact h.holds.rtake_of_le (by decide)

/-- `LZ4_decompress_safe_continue` does not fail, and gives the next frame. -/
theorem Buffered.decompress (h : Buffered frames w)
    (hunpacks : codec.Unpacks packets frames) {packet : List UInt8}
    (hpacket : packets[w.received]? = some packet) :
    ∃ frame, frames[w.received]? = some frame ∧
      codec.decompress w.history packet = some frame := by
  obtain ⟨hlt, -⟩ := List.getElem?_eq_some_iff.mp hpacket
  rw [hunpacks.1] at hlt
  have hframe : frames[w.received]? = some frames[w.received] :=
    List.getElem?_eq_getElem hlt
  refine ⟨_, hframe, ?_⟩
  rw [h.history]
  exact hunpacks.2 _ _ _ hpacket hframe

theorem Buffered.deliver (h : Buffered frames w) {data : List UInt8}
    (hpc : w.network = .unpacking) (hdata : frames[w.received]? = some data)
    (hsize : data.length ≤ targetFrameSize) :
    Buffered frames (w.deliver data) := by
  have htake : frames.take (w.received + 1) =
      frames.take w.received ++ [data] := by
    rw [List.take_add_one, hdata]
    rfl
  have hroom : ∀ x, x < w.bufferOffset ∨
      w.bufferOffset + targetFrameSize ≤ x →
      splice w.buffer w.bufferOffset data x = w.buffer x :=
    fun x hx => splice_of_outside (by omega)
  have hbytes : ∀ frame ∈ w.outstanding,
      (w.deliver data).bytes frame = w.bytes frame :=
    fun frame hframe => (h.spared_of_unpacking hpc hframe).bytes_eq hroom
  have hnew : (w.deliver data).bytes ⟨w.bufferOffset, data.length⟩ = data :=
    slice_splice ..
  have hout : (w.deliver data).outstanding =
      w.outstanding ++ [⟨w.bufferOffset, data.length⟩] :=
    (List.append_assoc ..).symm
  have hkept : Holds targetFrameSize (splice w.buffer w.bufferOffset data)
      (frames.take w.received) := h.holds.congr (by rwa [← h.ring])
  exact
    { received_le := (List.getElem?_eq_some_iff.mp hdata).1
      ring := by
        show nextOffset _ _ _ = offsetAfter _ ((frames.take (w.received + 1)).map _)
        rw [htake, List.map_append, List.map_singleton,
          offsetAfter_append_singleton, ← h.ring]
      written := by
        show w.written ++ _ = addresses _ ((frames.take (w.received + 1)).map _)
        rw [htake, List.map_append, List.map_singleton,
          addresses_append_singleton, ← h.ring, ← h.written]
      holds := by
        show Holds _ _ (frames.take (w.received + 1))
        rw [htake]
        refine hkept.append ?_
        rw [← h.ring]
        exact hnew
      credit := by
        have hcredit := h.credit
        rw [granted_of_unpacking hpc] at hcredit
        rw [hout, List.length_append]
        show _ + 0 + w.netWriteCnt = 2
        exact hcredit
      contents := by
        show w.done ++ _ = frames.take (w.received + 1)
        rw [htake, hout, List.map_append, List.map_congr_left hbytes,
          ← List.append_assoc, h.contents, List.map_singleton, hnew]
      got := fun frame hframe => by
        rw [hbytes frame (List.mem_append_left _ hframe)]
        exact h.got frame hframe
      spared := fun front frame hlast => by
        rw [hout] at hlast
        have hframe := (List.append_inj' hlast rfl).2
        rw [← (List.cons.inj hframe).1]
        exact fun x hlow hhigh => nextOffset_apart hsize hlow hhigh }

theorem Buffered.take (h : Buffered frames w) {frame : NetBuffer}
    {rest : List NetBuffer} (hpc : w.exec = .waiting)
    (hread : w.netRead = frame :: rest) :
    Buffered frames (w.take frame rest) := by
  have hout : (w.take frame rest).outstanding = w.outstanding := by
    show frame :: rest = w.current ++ w.netRead
    rw [current, hpc, hread]
    rfl
  exact
    { h with
      credit := hout ▸ h.credit
      contents := hout ▸ h.contents
      got := fun _ _ => List.nil_prefix
      spared := hout ▸ h.spared }

theorem Buffered.read (h : Buffered frames w) {frame : NetBuffer}
    {got : List UInt8} (hpc : w.exec = .reading frame got)
    (hlt : got.length < frame.size) :
    Buffered frames (w.read frame got) := by
  have hcurrent := current_of_reading hpc
  have hout : (w.read frame got).outstanding = w.outstanding := by
    show [frame] ++ w.netRead = w.current ++ w.netRead
    rw [hcurrent]
  have hgot := h.got frame (hcurrent ▸ List.mem_cons_self)
  rw [got_of_reading hpc] at hgot
  have hlonger : got ++ [w.buffer (frame.bufferOffset + got.length)] <+:
      w.bytes frame := by
    have hbyte : (w.bytes frame)[got.length]? =
        some (w.buffer (frame.bufferOffset + got.length)) := by
      simp [bytes, slice, hlt]
    rw [List.prefix_iff_eq_take] at hgot ⊢
    rw [List.length_append, List.length_singleton, List.take_add_one, hbyte,
      ← hgot]
    rfl
  exact
    { h with
      credit := hout ▸ h.credit
      contents := hout ▸ h.contents
      got := fun f hf => by
        obtain rfl := List.mem_singleton.mp hf
        exact hlonger
      spared := hout ▸ h.spared }

theorem Buffered.finish (h : Buffered frames w) {frame : NetBuffer}
    {got : List UInt8} (hpc : w.exec = .reading frame got)
    (hend : got.length = frame.size) : Buffered frames (w.finish got) := by
  have hcurrent := current_of_reading hpc
  have hout : w.outstanding = frame :: (w.finish got).outstanding := by
    rw [outstanding, hcurrent]
    rfl
  have hgot := h.got frame (hcurrent ▸ List.mem_cons_self)
  rw [got_of_reading hpc] at hgot
  have hbytes : got = w.bytes frame :=
    hgot.eq_of_length (by rw [bytes, length_slice, hend])
  exact
    { h with
      credit := by
        have hcredit := h.credit
        rw [hout, List.length_cons] at hcredit
        show _ + w.granted + (w.netWriteCnt + 1) = 2
        omega
      contents := by
        have hcontents := h.contents
        rw [hout, List.map_cons, ← hbytes] at hcontents
        show w.done ++ [got] ++ _ = frames.take w.received
        rw [← hcontents, List.append_assoc]
        rfl
      got := fun f hf => absurd hf List.not_mem_nil
      spared := fun front f hlast => by
        refine h.spared (frame :: front) f ?_
        rw [hout, hlast]
        rfl }

theorem Buffered.step (h : Buffered frames w)
    (hunpacks : codec.Unpacks packets frames)
    (hframes : ∀ frame ∈ frames, frame.length ≤ targetFrameSize)
    (hstep : WorkerStep codec packets w w') : Buffered frames w' := by
  cases hstep with
  | permit hpc hcnt => exact h.permit hpc hcnt
  | scribble buffer hpc hroom => exact h.scribble hpc hroom
  | deliver hpc hpacket hdata =>
    obtain ⟨frame, hframe, hframe_data⟩ := h.decompress hunpacks hpacket
    obtain rfl := Option.some.inj (hdata.symm.trans hframe_data)
    exact h.deliver hpc hframe (hframes _ (List.mem_of_getElem? hframe))
  | take hpc hread => exact h.take hpc hread
  | read hpc hlt => exact h.read hpc hlt
  | finish hpc hend => exact h.finish hpc hend

end Worker

end VulkanCompute.Profiler
