import Mathlib.Logic.Relation
import VulkanCompute.Profiler.Blocks

/-!
# A single-threaded program

`Session` is a program that allocates, deletes, writes to its payloads, opens
and closes memory domains and turns tracing on and off, in any order.  It
keeps the pointers that `operator new` returns, and writes and deletes through
them.  `Allowed` collects what is promised to the allocator: `malloc` answers
with a block that overlaps no live block, `malloc` and `free` leave the live
blocks alone, the program writes to its payloads only and deletes live
pointers only, and the stack of domains is not pushed beyond its bound.

`Intact` is the invariant: the live blocks do not overlap, the program has the
pointer of each, each is stamped, and `malloc` and `free` have been called in
turns for every base.  `heap_sound` says that in every reachable state no
payload overlaps another payload, a header or a prefix word, and that every
live pointer leads `operator delete` back to the base and the domain of its
block.
-/

namespace VulkanCompute.Profiler

open Lib

/-- The state between two calls.  `live` holds the blocks that have not been
deleted, `ptr` the pointers that `operator new` has returned for them, and
`traced` whether `g_tracyActive` was set when a block was allocated. -/
structure Session where
  process : Process
  domains : DomainStack
  live : List Block
  ptr : Block → Nat
  traced : Block → Bool

/-- One action of the program.  `malloc` and `free` leave the given memory. -/
inductive Op where
  | new (form : NewForm) (grant : Grant) (memory : Bytes)
  | delete (form : DeleteForm) (block : Block) (memory : Bytes)
  | write (addr : Nat) (value : UInt8)
  | push (id : MemoryDomain)
  | pop
  | setTracyActive (active : Bool)

namespace Session

/-- A program that has not allocated yet. -/
def start (memory : Bytes) (active started : Bool) : Session where
  process :=
    { memory := memory, tracyActive := active, profilerStarted := started
      profilerData := started, events := [], strays := [], calls := [] }
  domains := .fresh
  live := []
  ptr := fun _ => 0
  traced := fun _ => false

/-- The block that a call of `operator new` makes of a grant. -/
def block (s : Session) (grant : Grant) : Block :=
  { grant with domain := getCurrentDomain s.domains }

def step (s : Session) : Op → Session
  | .new form grant memory =>
    let answer :=
      operatorNew form grant.count grant.base memory s.domains s.process
    { s with
      process := answer.2
      live := s.block grant :: s.live
      ptr := Function.update s.ptr (s.block grant) answer.1
      traced :=
        Function.update s.traced (s.block grant) s.process.tracyActive }
  | .delete form block memory =>
    { s with
      process := operatorDelete form (s.ptr block) memory s.process
      live := s.live.erase block }
  | .write addr value =>
    { s with
      process :=
        { s.process with
          memory := Function.update s.process.memory addr value } }
  | .push id =>
    { s with domains := (pushMemoryDomain id s.domains).getD s.domains }
  | .pop => { s with domains := popMemoryDomain s.domains }
  | .setTracyActive active =>
    { s with process := setTracyActive active s.process }

/-- The addresses that the program may write. -/
def InPayload (s : Session) (b : Block) (x : Nat) : Prop :=
  s.ptr b ≤ x ∧ x < s.ptr b + b.count.toNat

/-- The addresses of the prefix word. -/
def InPrefixWord (s : Session) (b : Block) (x : Nat) : Prop :=
  s.ptr b - 8 ≤ x ∧ x < s.ptr b

/-- The given memory agrees with that of the process on a block. -/
def Keeps (s : Session) (memory : Bytes) (b : Block) : Prop :=
  ∀ x, b.Owns x → memory x = s.process.memory x

/-- What is promised to the allocator. -/
def Allowed (s : Session) : Op → Prop
  | .new form grant memory =>
    grant.alignment = form.alignment ∧ grant.Proper ∧
      ∀ b ∈ s.live, grant.Apart b.toGrant ∧ s.Keeps memory b
  | .delete _ block memory =>
    block ∈ s.live ∧ ∀ b ∈ s.live, b ≠ block → s.Keeps memory b
  | .write addr _ => ∃ b ∈ s.live, s.InPayload b addr
  | .push id => (pushMemoryDomain id s.domains).isSome
  | .pop => True
  | .setTracyActive _ => True

/-- One allowed action. -/
def Step (s s' : Session) : Prop := ∃ op, s.Allowed op ∧ s' = s.step op

def Reachable (s₀ : Session) : Session → Prop := Relation.ReflTransGen Step s₀

/-! ## The invariant -/

structure Intact (s : Session) : Prop where
  proper : ∀ b ∈ s.live, b.Proper
  apart : s.live.Pairwise fun b c => b.Apart c.toGrant
  ptr : ∀ b ∈ s.live, s.ptr b = b.ptr
  stamped : ∀ b ∈ s.live, Stamped s.process.memory b
  calls : Tracks (s.process.calls.map HeapCall.bracket)
    fun base => ∃ b ∈ s.live, b.base = base

theorem intact_start (memory : Bytes) (active started : Bool) :
    Intact (start memory active started) where
  proper := fun _ hb => absurd hb List.not_mem_nil
  apart := List.Pairwise.nil
  ptr := fun _ hb => absurd hb List.not_mem_nil
  stamped := fun _ hb => absurd hb List.not_mem_nil
  calls := Tracks.nil.congr fun _ => by simp [start]

theorem Intact.apart_of_ne {s : Session} (h : Intact s) {b c : Block}
    (hb : b ∈ s.live) (hc : c ∈ s.live) (hne : b ≠ c) :
    b.Apart c.toGrant := by
  have : Std.Symm fun b c : Block => b.Apart c.toGrant :=
    ⟨fun _ _ hapart => hapart.symm⟩
  exact h.apart.forall hb hc hne

theorem Intact.nodup {s : Session} (h : Intact s) : s.live.Nodup := by
  apply List.Pairwise.imp_of_mem _ h.apart
  intro b c hb _ hapart heq
  exact hapart.ne (h.proper b hb) (congrArg Block.toGrant heq)

theorem Intact.mem_erase {s : Session} (h : Intact s) {b c : Block} :
    b ∈ s.live.erase c ↔ b ≠ c ∧ b ∈ s.live :=
  h.nodup.mem_erase_iff

/-- The pointer that the program has is the one that the layout puts behind
the prefix. -/
theorem Intact.inPayload_iff {s : Session} (h : Intact s) {b : Block}
    (hb : b ∈ s.live) (x : Nat) : s.InPayload b x ↔ b.InPayload x := by
  unfold InPayload
  rw [h.ptr b hb]
  rfl

theorem Intact.inPrefixWord_iff {s : Session} (h : Intact s) {b : Block}
    (hb : b ∈ s.live) (x : Nat) : s.InPrefixWord b x ↔ b.InPrefixWord x := by
  unfold InPrefixWord
  rw [h.ptr b hb]
  rfl

/-- A change of the memory outside the headers and prefix words. -/
theorem Intact.set_memory {s : Session} (h : Intact s) {memory : Bytes}
    (hkeep : ∀ b ∈ s.live, ∀ x, b.base ≤ x → x < b.ptr →
      memory x = s.process.memory x) :
    Intact { s with process := { s.process with memory := memory } } where
  proper := h.proper
  apart := h.apart
  ptr := h.ptr
  stamped := fun b hb =>
    (h.stamped b hb).congr (h.proper b hb) (hkeep b hb)
  calls := h.calls

/-! ### Allocation -/

section New

variable {s : Session} {form : NewForm} {grant : Grant} {memory : Bytes}
  (hallowed : s.Allowed (.new form grant memory))

include hallowed

/-- The call of `AllocateImpl`. -/
theorem operatorNew_of_allowed :
    operatorNew form grant.count = allocateImpl grant.count grant.alignment := by
  rw [operatorNew_eq, hallowed.1]

theorem ne_block_of_mem {b : Block} (hb : b ∈ s.live) : b ≠ s.block grant := by
  intro heq
  subst heq
  exact (hallowed.2.2 _ hb).1.ne hallowed.2.1 rfl

/-- The program gets the pointer behind the prefix. -/
theorem step_new_ptr_self :
    (s.step (.new form grant memory)).ptr (s.block grant) = grant.ptr := by
  have hself : (s.step (.new form grant memory)).ptr (s.block grant) =
      (operatorNew form grant.count grant.base memory s.domains s.process).1 :=
    Function.update_self ..
  rw [hself, operatorNew_of_allowed hallowed]
  exact allocateImpl_ptr ..

theorem step_new_ptr_of_mem {b : Block} (hb : b ∈ s.live) :
    (s.step (.new form grant memory)).ptr b = s.ptr b :=
  Function.update_of_ne (ne_block_of_mem hallowed hb) _ _

/-- The live blocks keep what is in them. -/
theorem step_new_memory {b : Block} (hb : b ∈ s.live) {x : Nat}
    (hx : b.Owns x) :
    (s.step (.new form grant memory)).process.memory x = s.process.memory x := by
  obtain ⟨hapart, hkeep⟩ := hallowed.2.2 b hb
  rw [← hkeep x hx]
  show (operatorNew form grant.count _ _ _ _).2.memory x = _
  rw [operatorNew_of_allowed hallowed]
  exact allocateImpl_memory_of_apart (b := s.block grant) hallowed.2.1 memory
    s.process hapart.symm hx

theorem step_new_stamped :
    Stamped (s.step (.new form grant memory)).process.memory
      (s.block grant) := by
  show Stamped (operatorNew form grant.count _ _ _ _).2.memory _
  rw [operatorNew_of_allowed hallowed]
  exact allocateImpl_stamped (b := s.block grant) hallowed.2.1 rfl memory
    s.process

theorem step_new_calls :
    (s.step (.new form grant memory)).process.calls =
      s.process.calls ++
        [.malloc (grant.prefixSize + grant.count) grant.base] := by
  show (operatorNew form grant.count _ _ _ _).2.calls = _
  rw [operatorNew_of_allowed hallowed]
  exact allocateImpl_calls ..

theorem Intact.new (h : Intact s) :
    Intact (s.step (.new form grant memory)) where
  proper := List.forall_mem_cons.mpr ⟨hallowed.2.1, h.proper⟩
  apart := List.pairwise_cons.mpr
    ⟨fun b hb => (hallowed.2.2 b hb).1, h.apart⟩
  ptr := List.forall_mem_cons.mpr ⟨step_new_ptr_self hallowed, fun b hb =>
    (step_new_ptr_of_mem hallowed hb).trans (h.ptr b hb)⟩
  stamped := List.forall_mem_cons.mpr ⟨step_new_stamped hallowed, fun b hb =>
    (h.stamped b hb).congr_owns (h.proper b hb) fun _ hx =>
      step_new_memory hallowed hb hx⟩
  calls := by
    have hfree : ¬∃ b ∈ s.live, b.base = grant.base := by
      intro ⟨b, hb, heq⟩
      have hapart := (hallowed.2.2 b hb).1
      exact hapart.base_ne hallowed.2.1 (h.proper b hb) heq.symm
    rw [step_new_calls hallowed, List.map_append]
    apply (h.calls.acquire hfree).congr
    intro base
    show _ ↔ ∃ b ∈ s.block grant :: s.live, b.base = base
    rw [List.exists_mem_cons_iff, eq_comm]
    rfl

end New

/-! ### Deallocation -/

section Delete

variable {s : Session} (h : Intact s) {form : DeleteForm} {block : Block}
  {memory : Bytes}

include h

/-- The call of `FreeImpl`. -/
theorem Intact.operatorDelete_ptr (hlive : block ∈ s.live) :
    operatorDelete form (s.ptr block) memory s.process =
      freeImpl block.ptr memory s.process := by
  rw [operatorDelete_eq, h.ptr block hlive]

variable (hallowed : s.Allowed (.delete form block memory))

include hallowed

theorem Intact.step_delete_memory :
    (s.step (.delete form block memory)).process.memory = memory := by
  show (operatorDelete form _ _ _).memory = _
  rw [h.operatorDelete_ptr hallowed.1]
  exact freeImpl_memory (h.proper block hallowed.1).ptr_ne_zero memory s.process

theorem Intact.step_delete_calls :
    (s.step (.delete form block memory)).process.calls =
      s.process.calls ++ [.free block.base] := by
  show (operatorDelete form _ _ _).calls = _
  rw [h.operatorDelete_ptr hallowed.1]
  exact freeImpl_calls_of_stamped (h.proper block hallowed.1) memory
    (h.stamped block hallowed.1)

theorem Intact.delete : Intact (s.step (.delete form block memory)) where
  proper := fun b hb => h.proper b (h.mem_erase.mp hb).2
  apart := h.apart.sublist List.erase_sublist
  ptr := fun b hb => h.ptr b (h.mem_erase.mp hb).2
  stamped := by
    intro b hb
    obtain ⟨hne, hb⟩ := h.mem_erase.mp hb
    rw [h.step_delete_memory hallowed]
    exact (h.stamped b hb).congr_owns (h.proper b hb) (hallowed.2 b hb hne)
  calls := by
    have hlive := hallowed.1
    rw [h.step_delete_calls hallowed, List.map_append]
    apply (h.calls.release ⟨block, hlive, rfl⟩).congr
    intro base
    constructor
    · intro ⟨hbase, b, hb, heq⟩
      refine ⟨b, h.mem_erase.mpr ⟨?_, hb⟩, heq⟩
      intro hblock
      rw [hblock] at heq
      exact hbase heq.symm
    · intro ⟨b, hb, heq⟩
      obtain ⟨hne, hb⟩ := h.mem_erase.mp hb
      refine ⟨?_, b, hb, heq⟩
      intro hbase
      have hapart := h.apart_of_ne hb hlive hne
      exact hapart.base_ne (h.proper b hb) (h.proper block hlive)
        (heq.trans hbase)

end Delete

/-! ### The other actions -/

/-- Payloads do not reach into headers and prefix words, neither their own
nor those of other blocks. -/
theorem Intact.payload {s : Session} (h : Intact s) {b c : Block}
    (hb : b ∈ s.live) (hc : c ∈ s.live) {x : Nat} (hx : s.InPayload b x) :
    ¬(c.base ≤ x ∧ x < c.ptr) := by
  have hlayout := (h.inPayload_iff hb x).mp hx
  by_cases hbc : b = c
  · subst hbc
    intro hlt
    exact absurd hlt.2 (Nat.not_lt.mpr hlayout.1)
  · intro hlt
    have howns := (h.proper b hb).owns_payload hlayout
    apply (h.apart_of_ne hb hc hbc).not_owns howns
    exact (h.proper c hc).owns_of_lt_ptr hlt.1 hlt.2

theorem Intact.step {s : Session} (h : Intact s) {op : Op}
    (hallowed : s.Allowed op) : Intact (s.step op) := by
  cases op with
  | new form grant memory => exact h.new hallowed
  | delete form block memory => exact h.delete hallowed
  | write addr value =>
    apply h.set_memory
    intro b hb x hbase hptr
    obtain ⟨c, hc, hpayload⟩ := hallowed
    apply Function.update_of_ne
    intro heq
    subst heq
    exact h.payload hc hb hpayload ⟨hbase, hptr⟩
  | push id => exact ⟨h.proper, h.apart, h.ptr, h.stamped, h.calls⟩
  | pop => exact ⟨h.proper, h.apart, h.ptr, h.stamped, h.calls⟩
  | setTracyActive active =>
    exact ⟨h.proper, h.apart, h.ptr, h.stamped, h.calls⟩

theorem intact_of_reachable {memory : Bytes} {active started : Bool}
    {s : Session} (h : Reachable (start memory active started) s) :
    Intact s := by
  induction h with
  | refl => exact intact_start memory active started
  | tail _ hstep ih =>
    obtain ⟨op, hallowed, rfl⟩ := hstep
    exact ih.step hallowed

/-! ## The heap -/

/-- The heap of a program between two calls, as the pointers that
`operator new` has returned show it. -/
structure HeapSound (s : Session) : Prop where
  /-- Live pointers are distinct and live payloads do not overlap. -/
  payloads : s.live.Pairwise fun b c =>
    s.ptr b ≠ s.ptr c ∧ ∀ x, s.InPayload b x → ¬s.InPayload c x
  /-- No payload reaches a header byte or a prefix word. -/
  metadata : ∀ b ∈ s.live, ∀ c ∈ s.live, ∀ x, s.InPayload b x →
    x ≠ c.base ∧ ¬s.InPrefixWord c x
  /-- The header byte and the prefix word of a block do not overlap. -/
  layout : ∀ b ∈ s.live, ¬s.InPrefixWord b b.base
  /-- Every overload of `operator delete` passes the base of the block to
  `free`. -/
  base : ∀ b ∈ s.live, ∀ form memory,
    (operatorDelete form (s.ptr b) memory s.process).calls =
      s.process.calls ++ [.free b.base]
  /-- For every base, `malloc` and `free` have taken turns. -/
  turns : Orderly (s.process.calls.map HeapCall.bracket)
  /-- The bases that have not been freed are those of the live blocks. -/
  unfreed : ∀ base, held base (s.process.calls.map HeapCall.bracket) = true ↔
    ∃ b ∈ s.live, b.base = base
  /-- The domain that is read back is the one of the allocation. -/
  domain : ∀ b ∈ s.live,
    s.process.headerDomain (s.process.recoverBase (s.ptr b)) = b.domain

theorem Intact.heapSound {s : Session} (h : Intact s) : HeapSound s where
  payloads := by
    apply List.Pairwise.imp_of_mem _ h.apart
    intro b c hb hc hapart
    have hproper := h.proper b hb
    have hproper' := h.proper c hc
    rw [h.ptr b hb, h.ptr c hc]
    refine ⟨hapart.ptr_ne hproper hproper', fun x hx hx' => ?_⟩
    rw [h.inPayload_iff hb] at hx
    rw [h.inPayload_iff hc] at hx'
    exact hapart.not_owns (hproper.owns_payload hx) (hproper'.owns_payload hx')
  metadata := by
    intro b hb c hc x hx
    have hprefix := (h.proper c hc).sixteen_le
    have hout := h.payload hb hc hx
    rw [h.inPrefixWord_iff hc]
    unfold Grant.InPrefixWord
    unfold Grant.ptr at hout ⊢
    omega
  layout := by
    intro b hb
    have hprefix := (h.proper b hb).sixteen_le
    rw [h.inPrefixWord_iff hb]
    unfold Grant.InPrefixWord Grant.ptr
    omega
  base := by
    intro b hb form memory
    rw [h.operatorDelete_ptr hb]
    exact freeImpl_calls_of_stamped (h.proper b hb) memory (h.stamped b hb)
  turns := h.calls.orderly
  unfreed := h.calls.held_iff
  domain := by
    intro b hb
    have hstamped := h.stamped b hb
    rw [h.ptr b hb, hstamped.recoverBase, hstamped.headerDomain]

/-- The heap is sound after every sequence of actions. -/
theorem heap_sound (memory : Bytes) (active started : Bool) {s : Session}
    (h : Reachable (start memory active started) s) : HeapSound s :=
  (intact_of_reachable h).heapSound

/-- Two blocks with prefixes of 16 and 64 bytes, the second in a domain of its
own, and a write to the last byte of the first.  Then the first is deleted,
`free` leaves garbage in it, and its address is handed out once more, for a
block of no bytes whose pointer is its end. -/
theorem heap_sound_reuse :
    let first : Grant := ⟨16, 8, 4096, 24, by decide⟩
    let second : Grant := ⟨64, 4, 8192, 68, by decide⟩
    let empty : Grant := ⟨32, 0, 4096, 32, by decide⟩
    let s₀ := start (fun _ => 7) true true
    let s₁ := s₀.step (.new .plain first fun _ => 9)
    let s₂ := s₁.step (.push .particles)
    let s₃ := s₂.step (.new (.aligned 64) second s₂.process.memory)
    let s₄ := s₃.step (.write 4119 5)
    let s₅ := s₄.step .pop
    let s₆ := s₅.step (.delete (.sized 8) (s₀.block first) fun x =>
      if x < 8192 then 1 else s₅.process.memory x)
    let s₇ := s₆.step (.new (.aligned 32) empty s₆.process.memory)
    (Reachable s₀ s₄ ∧ s₄.live = [s₂.block second, s₀.block first] ∧
        s₄.live.map s₄.ptr = [8256, 4112] ∧ HeapSound s₄) ∧
      Reachable s₀ s₇ ∧ s₇.live = [s₆.block empty, s₂.block second] ∧
        s₇.live.map s₇.ptr = [4128, 8256] ∧ HeapSound s₇ := by
  intro first second empty s₀ s₁ s₂ s₃ s₄ s₅ s₆ s₇
  have hfirst : first.Proper := ⟨⟨16, ⟨4, by decide⟩, by decide⟩, by decide⟩
  have hsecond : second.Proper := ⟨⟨64, ⟨6, by decide⟩, by decide⟩, by decide⟩
  have hempty : empty.Proper := ⟨⟨32, ⟨5, by decide⟩, by decide⟩, by decide⟩
  have hnew : Reachable s₀ s₁ := .single ⟨.new .plain first fun _ => 9,
    ⟨by decide, hfirst, fun b hb => absurd hb List.not_mem_nil⟩, rfl⟩
  have hpush : Reachable s₀ s₂ := hnew.tail ⟨.push .particles, rfl, rfl⟩
  have hboth : Reachable s₀ s₃ := hpush.tail
    ⟨.new (.aligned 64) second s₂.process.memory, ⟨by decide, hsecond,
      List.forall_mem_singleton.mpr ⟨Or.inr (by decide), fun _ _ => rfl⟩⟩, rfl⟩
  have hptr : (s₀.block first).ptr = 4112 := by
    show 4096 + (prefixSize 16).toNat = 4112
    decide
  have hptr' : (s₂.block second).ptr = 8256 := by
    show 8192 + (prefixSize 64).toNat = 8256
    decide
  have hptr'' : (s₆.block empty).ptr = 4128 := by
    show 4096 + (prefixSize 32).toNat = 4128
    decide
  have hwrite : Reachable s₀ s₄ := by
    refine hboth.tail ⟨.write 4119 5, ⟨s₀.block first, ?_, ?_⟩, rfl⟩
    · exact List.mem_cons_of_mem _ List.mem_cons_self
    · have hlive : s₀.block first ∈ s₃.live :=
        List.mem_cons_of_mem _ List.mem_cons_self
      rw [(intact_of_reachable hboth).inPayload_iff hlive]
      unfold Grant.InPayload
      rw [hptr]
      decide
  have hpop : Reachable s₀ s₅ := hwrite.tail ⟨.pop, trivial, rfl⟩
  have hdelete : Reachable s₀ s₆ := by
    refine hpop.tail ⟨.delete (.sized 8) (s₀.block first) fun x =>
      if x < 8192 then 1 else s₅.process.memory x, ⟨?_, ?_⟩, rfl⟩
    · exact List.mem_cons_of_mem _ List.mem_cons_self
    · refine List.forall_mem_cons.mpr ⟨fun _ x hx => ?_, ?_⟩
      · exact if_neg (Nat.not_lt.mpr hx.1)
      · exact List.forall_mem_singleton.mpr fun hne => absurd rfl hne
  have hreuse : Reachable s₀ s₇ := by
    refine hdelete.tail ⟨.new (.aligned 32) empty s₆.process.memory,
      ⟨by decide, hempty, ?_⟩, rfl⟩
    exact List.forall_mem_singleton.mpr ⟨Or.inl (by decide), fun _ _ => rfl⟩
  have hlive : s₄.live = [s₂.block second, s₀.block first] := rfl
  have hlive' : s₇.live = [s₆.block empty, s₂.block second] := rfl
  refine ⟨⟨hwrite, hlive, ?_, heap_sound (fun _ => 7) true true hwrite⟩, hreuse,
    hlive', ?_, heap_sound (fun _ => 7) true true hreuse⟩
  · have hintact := intact_of_reachable hwrite
    rw [List.map_congr_left hintact.ptr, hlive, ← hptr, ← hptr']
    rfl
  · have hintact := intact_of_reachable hreuse
    rw [List.map_congr_left hintact.ptr, hlive', ← hptr', ← hptr'']
    rfl

end Session

end VulkanCompute.Profiler
