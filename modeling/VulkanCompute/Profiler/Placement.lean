import VulkanCompute.Profiler.Blocks

/-!
# Placement and failure of an allocation

Where the pointer of `operator new` lies in the block that `malloc` answers,
and what happens when `malloc` answers null.

* Alignment.  `AllocateImpl` rounds the prefix up to the alignment and adds it
  to the base, so the pointer is aligned exactly when the base is
  (`honoursAlignment_iff`).  `malloc` promises a multiple of 16 only.
* Failure.  `AllocateImpl` neither checks the sum `prefixSize + count` nor the
  answer of `malloc`, and `operator new` never throws.  It serves its caller
  exactly when `malloc` answers a block and the sum does not wrap
  (`allocatesCleanly_iff`).
-/

namespace VulkanCompute.Profiler

open Lib

/-- A process whose profiler is running, with all memory clear. -/
def Process.traced : Process where
  memory := fun _ => 0
  tracyActive := true
  profilerStarted := true
  profilerData := true
  events := []
  strays := []
  calls := []

/-! ## The forms of `operator new` -/

/-- The alignment that the caller passes is a power of two. -/
def NewForm.Valid : NewForm → Prop
  | .plain => True
  | .aligned alignment => IsPowerOfTwo alignment

/-- The prefix is as long as the alignment. -/
theorem NewForm.Valid.prefixSize {form : NewForm} (h : form.Valid) :
    Profiler.prefixSize form.alignment = form.alignment := by
  cases form with
  | plain => decide
  | aligned alignment => exact (prefixSize_actualAlignment h).1

theorem operatorNew_ptr {form : NewForm} (h : form.Valid) (count : UInt64)
    (base : Nat) (memory : Bytes) (domains : DomainStack) (p : Process) :
    (operatorNew form count base memory domains p).1 =
      base + form.alignment.toNat := by
  rw [operatorNew_eq, allocateImpl_ptr, h.prefixSize]

/-! ## Alignment -/

/-- The requested alignment divides the actual one. -/
theorem dvd_actualAlignment {alignment : UInt64} (h : IsPowerOfTwo alignment) :
    alignment.toNat ∣ (actualAlignment alignment).toNat := by
  obtain ⟨k, rfl⟩ := h
  revert k
  decide

theorem dvd_sixteen {alignment : UInt64} (h : IsPowerOfTwo alignment)
    (hle : alignment ≤ 16) : alignment.toNat ∣ 16 := by
  obtain ⟨k, rfl⟩ := h
  revert k
  decide

/-- The pointer is aligned, and the `count` bytes behind it lie in the block of
`size` bytes at `base`. -/
structure HonoursAlignment (alignment count : UInt64) (ptr base size : Nat) :
    Prop where
  aligned : alignment.toNat ∣ ptr
  inside : ∀ x, ptr ≤ x → x < ptr + count.toNat →
    base ≤ x ∧ x < base + size

section Alignment

variable {count alignment : UInt64} (halignment : IsPowerOfTwo alignment)
  (hsum : (prefixSize (actualAlignment alignment)).toNat + count.toNat <
    2 ^ 64)

include halignment hsum

theorem honoursAlignment_of_dvd {base : Nat} (hbase : alignment.toNat ∣ base)
    (memory : Bytes) (domains : DomainStack) (p : Process) :
    HonoursAlignment alignment count
      (operatorNew (.aligned alignment) count base memory domains p).1 base
      (prefixSize (actualAlignment alignment) + count).toNat := by
  have hvalid : (NewForm.aligned alignment).Valid := halignment
  have hround : prefixSize (actualAlignment alignment) =
      actualAlignment alignment := hvalid.prefixSize
  rw [operatorNew_ptr hvalid]
  constructor
  · exact Nat.dvd_add hbase (dvd_actualAlignment halignment)
  · intro x hge hlt
    have hptr : (NewForm.aligned alignment).alignment =
        actualAlignment alignment := rfl
    rw [hptr] at hge hlt
    rw [hround] at hsum ⊢
    rw [UInt64.toNat_add, Nat.mod_eq_of_lt hsum]
    omega

/-- The aligned `operator new` honours its alignment exactly when `malloc`
happens to. -/
theorem honoursAlignment_iff (base : Nat) (memory : Bytes)
    (domains : DomainStack) (p : Process) :
    HonoursAlignment alignment count
        (operatorNew (.aligned alignment) count base memory domains p).1 base
        (prefixSize (actualAlignment alignment) + count).toNat ↔
      alignment.toNat ∣ base := by
  constructor
  · intro h
    have haligned := h.aligned
    have hvalid : (NewForm.aligned alignment).Valid := halignment
    rw [operatorNew_ptr hvalid] at haligned
    exact (Nat.dvd_add_left (dvd_actualAlignment halignment)).mp haligned
  · intro hbase
    exact honoursAlignment_of_dvd halignment hsum hbase memory domains p

omit halignment hsum in
/-- A block at a multiple of 64 serves an alignment of 64. -/
theorem honoursAlignment_cache_line :
    HonoursAlignment 64 8
      (operatorNew (.aligned 64) 8 4096 (fun _ => 0) .fresh .traced).1 4096
      72 :=
  (honoursAlignment_iff ⟨6, rfl⟩ (by decide) 4096 _ _ _).mpr (by decide)

omit halignment hsum in
/-- A block at a multiple of 16 does not. -/
theorem misaligned_cache_line :
    let ptr := (operatorNew (.aligned 64) 8 4112 (fun _ => 0) .fresh .traced).1
    16 ∣ 4112 ∧ ptr = 4176 ∧ ¬HonoursAlignment 64 8 ptr 4112 72 := by
  intro ptr
  have hvalid : (NewForm.aligned 64).Valid := ⟨6, rfl⟩
  have hptr : ptr = 4176 := operatorNew_ptr hvalid ..
  refine ⟨by decide, hptr, fun h => ?_⟩
  have haligned := h.aligned
  rw [hptr] at haligned
  exact absurd haligned (by decide)

/-- Up to the alignment that `malloc` promises, it always does. -/
theorem honoursAlignment_of_le (hle : alignment ≤ 16) {base : Nat}
    (hbase : 16 ∣ base) (memory : Bytes) (domains : DomainStack)
    (p : Process) :
    HonoursAlignment alignment count
      (operatorNew (.aligned alignment) count base memory domains p).1 base
      (prefixSize (actualAlignment alignment) + count).toNat :=
  honoursAlignment_of_dvd halignment hsum
    ((dvd_sixteen halignment hle).trans hbase) memory domains p

end Alignment

/-! ## Failure -/

/-- What `malloc` answers. -/
inductive MallocAnswer where
  | null
  | block (base size : Nat)
deriving DecidableEq

namespace MallocAnswer

/-- The pointer that `AllocateImpl` goes on with. -/
def base : MallocAnswer → Nat
  | .null => 0
  | .block base _ => base

/-- A block is as large as requested and lies in the address space. -/
def Answers (requested : UInt64) (answer : MallocAnswer) : Prop :=
  ∀ base size, answer = .block base size →
    0 < base ∧ requested.toNat ≤ size ∧ base + size ≤ 2 ^ 64

/-- The addresses of the block. -/
def Owns : MallocAnswer → Nat → Prop
  | .null, _ => False
  | .block base size, x => base ≤ x ∧ x < base + size

@[simp] theorem base_block (base size : Nat) : (block base size).base = base :=
  rfl

@[simp] theorem owns_block {base size x : Nat} :
    (block base size).Owns x ↔ base ≤ x ∧ x < base + size :=
  Iff.rfl

/-- A request that wraps leaves some of its bytes outside the block: the byte
behind it, or the first one when the prefix is already too long. -/
theorem exists_not_owns_of_wrap {base size prefixSize count : Nat}
    (hbase : 0 < base) (hspace : base + size ≤ 2 ^ 64)
    (hround : prefixSize < 2 ^ 64) (hwrap : 2 ^ 64 ≤ prefixSize + count) :
    ∃ x < count,
      ¬(block base size).Owns ((base + prefixSize + x) % 2 ^ 64) := by
  simp only [owns_block]
  by_cases hlong : prefixSize ≤ size
  · exact ⟨size - prefixSize, by omega, by omega⟩
  · exact ⟨0, by omega, by omega⟩

end MallocAnswer

/-- What the caller of `operator new` sees. -/
inductive NewOutcome where
  | returned (ptr : Nat)
  | badAlloc
deriving DecidableEq

/-- `operator new` with the given answer of `malloc`.  No path of it throws. -/
def newOutcome (form : NewForm) (count : UInt64) (answer : MallocAnswer)
    (memory : Bytes) (domains : DomainStack) (p : Process) :
    NewOutcome × Process :=
  let r := operatorNew form count answer.base memory domains p
  (.returned r.1, r.2)

section Failure

variable (form : NewForm) (count : UInt64) (answer : MallocAnswer)
  (memory : Bytes) (domains : DomainStack) (p : Process)

/-- The call returns a pointer to `count` bytes of the block that `malloc`
answered.  Addresses are taken modulo the address space. -/
def Serves : Prop :=
  ∃ ptr, (newOutcome form count answer memory domains p).1 = .returned ptr ∧
    answer ≠ .null ∧ ∀ x < count.toNat, answer.Owns ((ptr + x) % 2 ^ 64)

/-- The call reports that it failed and has changed nothing. -/
def Refuses : Prop :=
  (newOutcome form count answer memory domains p).1 = .badAlloc ∧
    (newOutcome form count answer memory domains p).2.memory = p.memory ∧
    (newOutcome form count answer memory domains p).2.events = p.events

/-- The contract of `operator new`. -/
structure AllocatesCleanly : Prop where
  outcome : Serves form count answer memory domains p ∨
    Refuses form count answer memory domains p
  request : (prefixSize form.alignment + count).toNat =
    (prefixSize form.alignment).toNat + count.toNat
  null_memory : answer = .null →
    (newOutcome form count answer memory domains p).2.memory = p.memory
  null_events : answer = .null →
    (newOutcome form count answer memory domains p).2.events = p.events

theorem not_refuses : ¬Refuses form count answer memory domains p := by
  intro h
  exact absurd h.1 (by simp [newOutcome])

variable {form count answer}

/-- The caller is served exactly when there is a block and the request did not
wrap. -/
theorem serves_iff (hform : form.Valid)
    (hanswer : answer.Answers (prefixSize form.alignment + count)) :
    Serves form count answer memory domains p ↔
      answer ≠ .null ∧ form.alignment.toNat + count.toNat < 2 ^ 64 := by
  have hlt := form.alignment.toNat_lt
  have hptr : ∀ ptr,
      (newOutcome form count answer memory domains p).1 = .returned ptr ↔
        ptr = answer.base + form.alignment.toNat := by
    intro ptr
    rw [newOutcome, NewOutcome.returned.injEq, operatorNew_ptr hform]
    exact eq_comm
  cases answer with
  | null => simp [Serves]
  | block base size =>
    obtain ⟨hbase, hsize, hspace⟩ := hanswer base size rfl
    rw [hform.prefixSize, UInt64.toNat_add] at hsize
    constructor
    · intro h
      obtain ⟨ptr, hreturned, hblock, hinside⟩ := h
      refine ⟨hblock, ?_⟩
      by_contra hwrap
      obtain ⟨x, hx, houtside⟩ := MallocAnswer.exists_not_owns_of_wrap hbase
        hspace hlt (Nat.not_lt.mp hwrap)
      rw [(hptr ptr).mp hreturned] at hinside
      exact houtside (hinside x hx)
    · intro h
      obtain ⟨hblock, hsum⟩ := h
      rw [Nat.mod_eq_of_lt hsum] at hsize
      refine ⟨_, (hptr _).mpr rfl, hblock, fun x hx => ?_⟩
      simp only [MallocAnswer.base_block, MallocAnswer.owns_block]
      omega

/-- `operator new` meets its contract exactly when `malloc` answers a block
and `prefixSize + count` does not wrap. -/
theorem allocatesCleanly_iff (hform : form.Valid)
    (hanswer : answer.Answers (prefixSize form.alignment + count)) :
    AllocatesCleanly form count answer memory domains p ↔
      answer ≠ .null ∧ form.alignment.toNat + count.toNat < 2 ^ 64 := by
  rw [← serves_iff memory domains p hform hanswer]
  constructor
  · intro h
    exact h.outcome.resolve_right (not_refuses form count answer memory domains p)
  · intro hserves
    obtain ⟨hblock, hsum⟩ := (serves_iff memory domains p hform hanswer).mp hserves
    refine ⟨Or.inl hserves, ?_, fun hnull => absurd hnull hblock,
      fun hnull => absurd hnull hblock⟩
    rw [hform.prefixSize, UInt64.toNat_add, Nat.mod_eq_of_lt hsum]

end Failure

/-- A request of eight bytes that `malloc` grants. -/
theorem allocatesCleanly_eight_bytes :
    AllocatesCleanly .plain 8 (.block 4096 24) (fun _ => 0) .fresh .traced :=
  (allocatesCleanly_iff _ _ _ (show NewForm.plain.Valid from trivial) (by
    intro _ _ h
    cases h
    decide)).mpr (by decide)

/-- When `malloc` answers null, the call returns the address 16, has written
the prefix word to the address 8 and reports an allocation.  When the request
wraps, it returns a pointer to fewer bytes than asked for. -/
theorem new_ignores_null :
    let o := newOutcome .plain 8 .null (fun _ => 0) .fresh .traced
    o.1 = .returned 16 ∧ o.2.memory 8 = 16 ∧
      o.2.events =
        [.alloc (.named "Default") 16 8, .alloc .default 16 8] ∧
      ¬AllocatesCleanly .plain 8 .null (fun _ => 0) .fresh .traced ∧
      ¬AllocatesCleanly .plain 0xFFFFFFFFFFFFFFFF (.block 4096 15) (fun _ => 0)
        .fresh .traced := by
  intro o
  have hmemory : o.2.memory 8 = 16 := by decide
  refine ⟨by decide, hmemory, by decide, fun h => ?_, fun h => ?_⟩
  · have hsame := congrFun (h.null_memory rfl) 8
    exact absurd (hmemory.symm.trans hsame) (by decide)
  · exact absurd h.request (by decide)

end VulkanCompute.Profiler
