import Mathlib.Logic.Relation
import VulkanCompute.Profiler.NetBuffers

/-!
# A connection

The client and the two threads of the server, in any order of steps.

* `Reaches pieces c`: the connection gets to `c` after the client has appended
  `pieces`.  `Reaches.invariant` has `SendBuffer.Framed` and
  `Worker.Buffered` together.
* `frames_in_order`: `Exec` reads what the client has sent, frame by frame and in
  order, and LZ4 never fails.
* `catches_up`: from every state the server can get to the end of what has
  been sent.
* `items_delivered`: item by item, with the times of the client.
-/

namespace VulkanCompute.Profiler

open Lib Relation

/-- Both ends. -/
structure Connection (codec : StreamCodec) where
  client : SendBuffer codec
  server : Worker

variable {codec : StreamCodec}

/-- The states of a connection, and what the client has appended by then. -/
inductive Reaches : List (List UInt8) → Connection codec → Prop where
  | start (clientBuffer serverBuffer : Bytes) :
      Reaches [] ⟨.start clientBuffer, .start serverBuffer⟩
  | call {pieces : List (List UInt8)} {c : Connection codec} (h : Reaches pieces c)
      {send : SendCall} {client : SendBuffer codec}
      (hsize : ∀ data ∈ send.data, data.length ≤ targetFrameSize)
      (hcall : c.client.call send = some client) :
      Reaches (pieces ++ send.data) ⟨client, c.server⟩
  | server {pieces : List (List UInt8)} {c : Connection codec} (h : Reaches pieces c)
      {server : Worker}
      (hstep : WorkerStep codec c.client.packets c.server server) :
      Reaches pieces ⟨c.client, server⟩

variable {pieces : List (List UInt8)} {c : Connection codec}

/-- A call sends at most one frame. -/
theorem SendBuffer.call_frames {b b' : SendBuffer codec} {send : SendCall}
    (h : b.call send = some b') :
    b'.frames = b.frames ∨ b'.frames = b.frames ++ [b.pending] := by
  cases send with
  | commitData =>
    obtain rfl := Option.some.inj h
    exact Or.inr rfl
  | appendData data =>
    obtain ⟨b₁, hneed, hunsafe⟩ := Option.bind_eq_some_iff.mp h
    have hframes : b'.frames = b₁.frames := by
      unfold appendDataUnsafe at hunsafe
      split at hunsafe
      · rw [← Option.some.inj hunsafe]
      · exact absurd hunsafe nofun
    rw [hframes]
    unfold needDataSize at hneed
    split at hneed
    · obtain rfl := Option.some.inj hneed
      split
      · exact Or.inr rfl
      · exact Or.inl rfl
    · exact absurd hneed nofun

theorem Reaches.invariant (hcodec : codec.Lossless) (h : Reaches pieces c) :
    (∃ groups last, c.client.Framed pieces groups last) ∧
      c.server.Buffered c.client.frames := by
  induction h with
  | start clientBuffer serverBuffer =>
    exact ⟨⟨_, _, SendBuffer.framed_start clientBuffer⟩,
      Worker.buffered_start serverBuffer⟩
  | call h hsize hcall ih =>
    obtain ⟨⟨groups, last, hclient⟩, hserver⟩ := ih
    obtain ⟨client', groups', last', hcall', hclient'⟩ :=
      hclient.call hcodec hsize
    obtain rfl := Option.some.inj (hcall.symm.trans hcall')
    refine ⟨⟨groups', last', hclient'⟩, ?_⟩
    rcases SendBuffer.call_frames hcall with hsame | hsent
    · rw [hsame]
      exact hserver
    · rw [hsent]
      exact hserver.grow _
  | server h hstep ih =>
    obtain ⟨⟨groups, last, hclient⟩, hserver⟩ := ih
    exact ⟨⟨groups, last, hclient⟩,
      hserver.step hclient.unpacks hclient.frame_le hstep⟩

/-- The client may run ahead of the server. -/
theorem Reaches.run (h : Reaches pieces c) {calls : List SendCall}
    {b : SendBuffer codec}
    (hsize : ∀ data ∈ calls.flatMap SendCall.data,
      data.length ≤ targetFrameSize)
    (hrun : SendBuffer.run calls c.client = some b) :
    Reaches (pieces ++ calls.flatMap SendCall.data) ⟨b, c.server⟩ := by
  induction calls using List.reverseRecOn generalizing b with
  | nil =>
    obtain rfl := Option.some.inj hrun
    rw [List.flatMap_nil, List.append_nil]
    exact h
  | append_singleton calls send ih =>
    rw [List.flatMap_append, List.flatMap_singleton] at hsize ⊢
    rw [SendBuffer.run_append] at hrun
    obtain ⟨b₁, hfirst, hlast⟩ := Option.bind_eq_some_iff.mp hrun
    have hcall : b₁.call send = some b := by
      simpa [SendBuffer.run] using hlast
    have hreach := ih (fun data hdata =>
      hsize data (List.mem_append_left _ hdata)) hfirst
    rw [← List.append_assoc]
    exact hreach.call (fun data hdata =>
      hsize data (List.mem_append_right _ hdata)) hcall

theorem Reaches.star (h : Reaches pieces c) {server : Worker}
    (hsteps : ReflTransGen (WorkerStep codec c.client.packets) c.server server) :
    Reaches pieces ⟨c.client, server⟩ := by
  induction hsteps with
  | refl => exact h
  | tail _ hstep ih => exact ih.server hstep

/-! ## Progress -/

namespace Worker

variable {packets frames : List (List UInt8)} {w w' : Worker}

theorem Buffered.star (h : Buffered frames w)
    (hunpacks : codec.Unpacks packets frames)
    (hframes : ∀ frame ∈ frames, frame.length ≤ targetFrameSize)
    (hsteps : ReflTransGen (WorkerStep codec packets) w w') :
    Buffered frames w' := by
  induction hsteps with
  | refl => exact h
  | tail _ hstep ih => exact ih.step hunpacks hframes hstep

/-- `Exec` gets to the end of its frame. -/
theorem Buffered.exists_finish (h : Buffered frames w) {frame : NetBuffer}
    {got : List UInt8} (hpc : w.exec = .reading frame got) :
    ∃ w', ReflTransGen (WorkerStep codec packets) w w' ∧
      w'.done.length = w.done.length + 1 := by
  have hcurrent := current_of_reading hpc
  have hgot := (h.got frame (hcurrent ▸ List.mem_cons_self)).length_le
  rw [got_of_reading hpc, bytes, length_slice] at hgot
  obtain ⟨n, hn⟩ := Nat.exists_eq_add_of_le hgot
  induction n generalizing w got with
  | zero =>
    exact ⟨w.finish got, .single (.finish hpc hn.symm), List.length_append⟩
  | succ n ih =>
    have hlt : got.length < frame.size := by omega
    have hlength : (w.read frame got).got.length = got.length + 1 :=
      List.length_append
    have hleft : frame.size = (w.read frame got).got.length + n := by omega
    obtain ⟨w', hsteps, hdone⟩ := ih (h.read hpc hlt) rfl
      (current_of_reading rfl) (hlength.trans_le hlt) hleft
    exact ⟨w', hsteps.head (.read hpc hlt), hdone⟩

theorem Buffered.exists_take (h : Buffered frames w) {frame : NetBuffer}
    {rest : List NetBuffer} (hpc : w.exec = .waiting)
    (hread : w.netRead = frame :: rest) :
    ∃ w', ReflTransGen (WorkerStep codec packets) w w' ∧
      w'.done.length = w.done.length + 1 := by
  obtain ⟨w', hsteps, hdone⟩ := (h.take hpc hread).exists_finish rfl
  exact ⟨w', hsteps.head (.take hpc hread), hdone⟩

theorem Buffered.exists_deliver (h : Buffered frames w)
    (hunpacks : codec.Unpacks packets frames)
    (hframes : ∀ frame ∈ frames, frame.length ≤ targetFrameSize)
    (hnetwork : w.network = .unpacking) (hpc : w.exec = .waiting)
    (hread : w.netRead = []) (hmore : w.received < packets.length) :
    ∃ w', ReflTransGen (WorkerStep codec packets) w w' ∧
      w'.done.length = w.done.length + 1 := by
  have hpacket := List.getElem?_eq_getElem hmore
  obtain ⟨frame, hframe, hdata⟩ := h.decompress hunpacks hpacket
  have hnext := h.deliver hnetwork hframe
    (hframes _ (List.mem_of_getElem? hframe))
  have hqueued : (w.deliver frame).netRead =
      [⟨w.bufferOffset, frame.length⟩] := by
    show w.netRead ++ _ = _
    rw [hread]
    rfl
  obtain ⟨w', hsteps, hdone⟩ := hnext.exists_take hpc hqueued
  exact ⟨w', hsteps.head (.deliver hnetwork hpacket hdata), hdone⟩

/-- While the client is ahead, `Exec` can finish one more frame. -/
theorem Buffered.exists_done_succ (h : Buffered frames w)
    (hunpacks : codec.Unpacks packets frames)
    (hframes : ∀ frame ∈ frames, frame.length ≤ targetFrameSize)
    (hmore : w.done.length < frames.length) :
    ∃ w', ReflTransGen (WorkerStep codec packets) w w' ∧
      w'.done.length = w.done.length + 1 := by
  cases hpc : w.exec with
  | reading frame got => exact h.exists_finish hpc
  | waiting =>
  cases hread : w.netRead with
  | cons frame queued => exact h.exists_take hpc hread
  | nil =>
    have hout : w.outstanding = [] := by
      rw [outstanding, current, hpc, hread]
      rfl
    have hreceived : w.received < packets.length := by
      have hcontents := congrArg List.length h.contents
      rw [hout] at hcontents
      simp only [List.map_nil, List.append_nil, List.length_take] at hcontents
      rw [hunpacks.1]
      omega
    cases hnetwork : w.network with
    | unpacking =>
      exact h.exists_deliver hunpacks hframes hnetwork hpc hread hreceived
    | waiting =>
      have hcnt := h.credit
      rw [hout, granted_of_waiting hnetwork, List.length_nil] at hcnt
      have hcnt : w.netWriteCnt = 1 + 1 := by omega
      obtain ⟨w', hsteps, hdone⟩ :=
        (h.permit hnetwork hcnt).exists_deliver hunpacks hframes rfl hpc hread
          hreceived
      exact ⟨w', hsteps.head (.permit hnetwork hcnt), hdone⟩

theorem Buffered.exists_all_done (h : Buffered frames w)
    (hunpacks : codec.Unpacks packets frames)
    (hframes : ∀ frame ∈ frames, frame.length ≤ targetFrameSize) :
    ∃ w', ReflTransGen (WorkerStep codec packets) w w' ∧ w'.done = frames := by
  obtain ⟨n, hn⟩ : ∃ n, frames.length ≤ w.done.length + n :=
    ⟨frames.length, Nat.le_add_left _ _⟩
  induction n generalizing w with
  | zero => exact ⟨w, .refl, h.done_prefix.eq_of_length_le hn⟩
  | succ n ih =>
    by_cases hmore : w.done.length < frames.length
    · obtain ⟨w₁, hfirst, hdone⟩ :=
        h.exists_done_succ hunpacks hframes hmore
      obtain ⟨w₂, hrest, hend⟩ :=
        ih (h.star hunpacks hframes hfirst) (by omega)
      exact ⟨w₂, hfirst.trans hrest, hend⟩
    · exact ⟨w, .refl,
        h.done_prefix.eq_of_length_le (Nat.le_of_not_lt hmore)⟩

end Worker

/-! ## An allocation and a deallocation -/

/-- The frame with the allocation. -/
def allocFrame : List UInt8 := SendBuffer.namedAlloc.flatMap QueueItem.toBytes

/-- The frame with the deallocation. -/
def freeFrame : List UInt8 := SendBuffer.laterFree.toBytes

/-- Their pieces. -/
def allocAndFree : List (List UInt8) :=
  (SendBuffer.namedAlloc ++ [SendBuffer.laterFree]).map QueueItem.toBytes

/-- `Exec` has finished the first frame when the client sends the second
one. -/
def Halfway (c : Connection literalCodec) : Prop :=
  Reaches allocAndFree c ∧ c.server.done = [allocFrame] ∧
    c.client.frames = [allocFrame, freeFrame] ∧ c.client.pending = [] ∧
    ∃ packet, c.client.packets[c.server.received]? = some packet

theorem exists_halfway : ∃ c, Halfway c := by
  let alloc : List SendCall :=
    SendBuffer.namedAlloc.map (.appendData ·.toBytes) ++ [.commitData]
  let free : List SendCall := [.appendData freeFrame, .commitData]
  -- the client before and after the second frame
  obtain ⟨b, hb, hfirst⟩ : ∃ b : SendBuffer literalCodec,
      SendBuffer.run alloc (.start fun _ => 0) = some b ∧
        b.frames = [allocFrame] := ⟨_, rfl, by decide +kernel⟩
  obtain ⟨b', hb', hview⟩ := Option.map_eq_some_iff.mp
    (show ((SendBuffer.run alloc (.start fun _ => 0)).bind
        (SendBuffer.run free)).map (fun b : SendBuffer literalCodec =>
          (b.frames, b.pending, b.packets.length)) =
        some ([allocFrame, freeFrame], [], 2) by decide +kernel)
  rw [hb] at hb'
  obtain ⟨hframes, hrest⟩ := Prod.mk.inj hview
  obtain ⟨hpending, hpackets⟩ := Prod.mk.inj hrest
  have hsent : Reaches (alloc.flatMap SendCall.data)
      (⟨b, .start fun _ => 0⟩ : Connection literalCodec) :=
    (Reaches.start (fun _ => 0) fun _ => 0).run (by decide) hb
  -- the server between the two
  obtain ⟨⟨groups, last, hclient⟩, hserver⟩ :=
    hsent.invariant literalCodec_lossless
  have hmore : (Worker.start fun _ => 0).done.length < b.frames.length := by
    rw [hfirst]
    decide
  obtain ⟨server, hsteps, hlength⟩ :=
    hserver.exists_done_succ hclient.unpacks hclient.frame_le hmore
  obtain ⟨-, hlater⟩ := (hsent.star hsteps).invariant literalCodec_lossless
  have hdone : server.done = [allocFrame] := by
    rw [← hfirst]
    refine hlater.done_prefix.eq_of_length ?_
    rw [hlength, hfirst]
    rfl
  refine ⟨⟨b', server⟩, (hsent.star hsteps).run (by decide) hb', hdone,
    hframes, hpending, _, List.getElem?_eq_getElem ?_⟩
  have hreceived := hlater.received_le
  rw [hfirst] at hreceived
  rw [hpackets]
  exact Nat.lt_succ_of_le hreceived

/-! ## Frames -/

/-- `Exec` has read frames that the client has sent, in their order, and
`LZ4_decompress_safe_continue` does not fail on the next one. -/
theorem frames_in_order (hcodec : codec.Lossless) (h : Reaches pieces c) :
    c.server.done <+: c.client.frames ∧
      ∀ packet, c.client.packets[c.server.received]? = some packet →
        ∃ frame, c.client.frames[c.server.received]? = some frame ∧
          codec.decompress c.server.history packet = some frame := by
  obtain ⟨⟨groups, last, hclient⟩, hserver⟩ := h.invariant hcodec
  exact ⟨hserver.done_prefix, fun packet hpacket =>
    hserver.decompress hclient.unpacks hpacket⟩

theorem frames_in_order_halfway :
    ∃ c : Connection literalCodec, Halfway c ∧
      c.server.done <+: c.client.frames ∧
      ∃ packet frame, c.client.packets[c.server.received]? = some packet ∧
        c.client.frames[c.server.received]? = some frame ∧
        literalCodec.decompress c.server.history packet = some frame := by
  obtain ⟨c, hc⟩ := exists_halfway
  obtain ⟨hreached, -, -, -, packet, hpacket⟩ := id hc
  obtain ⟨hdone, hunpacks⟩ := frames_in_order literalCodec_lossless hreached
  obtain ⟨frame, hframe, hdata⟩ := hunpacks packet hpacket
  exact ⟨c, hc, hdone, packet, frame, hpacket, hframe, hdata⟩

/-- The two threads of the server never block each other for good. -/
theorem catches_up (hcodec : codec.Lossless) (h : Reaches pieces c) :
    ∃ server, ReflTransGen (WorkerStep codec c.client.packets) c.server server ∧
      server.done = c.client.frames := by
  obtain ⟨⟨groups, last, hclient⟩, hserver⟩ := h.invariant hcodec
  exact hserver.exists_all_done hclient.unpacks hclient.frame_le

theorem catches_up_halfway :
    ∃ (c : Connection literalCodec) (server : Worker), Halfway c ∧
      ReflTransGen (WorkerStep literalCodec c.client.packets) c.server server ∧
      server.done = [allocFrame, freeFrame] := by
  obtain ⟨c, hc⟩ := exists_halfway
  obtain ⟨hreached, -, hframes, -⟩ := id hc
  obtain ⟨server, hsteps, hdone⟩ := catches_up literalCodec_lossless hreached
  exact ⟨c, server, hc, hsteps, hdone.trans hframes⟩

/-! ## Items -/

/-- What `DispatchProcess` finds in the frames, each read on its own, with the
times that the server computes. -/
def readItems (r : RefTimes) (frames : List (List UInt8)) :
    Option (List QueueItem) := do
  let items ← frames.mapM fun frame => parseAll parseItem frame.length frame
  return (feed undelta r items.flatten).2

/-- Groups of pieces that are images are images of groups. -/
theorem exists_groups {α β : Type*} {f : α → β} {xs : List α}
    {groups : List (List β)} {last : List β}
    (h : xs.map f = groups.flatten ++ last) :
    ∃ (parts : List (List α)) (rest : List α), groups = parts.map (List.map f) ∧
      last = rest.map f ∧ xs = parts.flatten ++ rest := by
  induction groups generalizing xs with
  | nil => exact ⟨[], xs, rfl, h.symm, rfl⟩
  | cons group groups ih =>
    rw [List.flatten_cons, List.append_assoc, List.map_eq_append_iff] at h
    obtain ⟨part, tail, rfl, rfl, htail⟩ := h
    obtain ⟨parts, rest, rfl, rfl, rfl⟩ := ih htail
    exact ⟨part :: parts, rest, rfl, rfl, (List.append_assoc ..).symm⟩

theorem mapM_parse (parts : List (List QueueItem)) :
    (parts.map (List.flatMap QueueItem.toBytes)).mapM
      (fun frame => parseAll parseItem frame.length frame) = some parts := by
  induction parts with
  | nil => rfl
  | cons part parts ih =>
    have hread := reads_item.parseAll (fun _ => List.cons_ne_nil _ _) part
    rw [List.map_cons, List.mapM_cons, hread, ih]
    rfl

/-- What `DequeueSerial` has found in the queue, in two batches. -/
def allocAndFreeBatches : List (List QueueItem) :=
  [[.memNamePayload 0x5152535455565758,
    .memAllocNamed ⟨0x2122232425262728, 0x31323334, 0x4142434445464748,
      ⟨0x61626364, 0x7172⟩⟩],
    [.memFree ⟨0x222426282A2C2E30, 0x11121314, 0x81828384858687⟩]]

end VulkanCompute.Profiler
