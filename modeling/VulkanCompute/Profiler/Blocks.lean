import VulkanCompute.Profiler.Alloc

/-!
# Blocks

A `Grant` is a call of `AllocateImpl` that `malloc` has answered, and a
`Block` is a grant with the domain it was made in.  A block is laid out as
header byte, gap, prefix word, payload.

* `Grant.Apart` says that two blocks do not overlap; the address ranges of
  the two layouts then do not overlap either (`Grant.Apart.not_owns`,
  `Grant.Apart.ptr_ne`).
* `Stamped` says that the header byte and the prefix word of a block are in
  memory.  From a stamped block the base and the domain can be read off
  (`Stamped.recoverBase`, `Stamped.headerDomain`).
-/

namespace VulkanCompute.Profiler

open Lib

/-- A call of `AllocateImpl` with the block that `malloc` answers, which is
as large as requested. -/
structure Grant where
  alignment : UInt64
  count : UInt64
  base : Nat
  size : Nat
  enough : (prefixSize alignment + count).toNat ≤ size
deriving DecidableEq

structure Block extends Grant where
  domain : MemoryDomain
deriving DecidableEq

namespace Grant

def prefixSize (g : Grant) : UInt64 := Profiler.prefixSize g.alignment

/-- The pointer that the user gets. -/
def ptr (g : Grant) : Nat := g.base + g.prefixSize.toNat

/-- The addresses of the block. -/
def Owns (g : Grant) (x : Nat) : Prop := g.base ≤ x ∧ x < g.base + g.size

/-- The addresses that the user may write. -/
def InPayload (g : Grant) (x : Nat) : Prop :=
  g.ptr ≤ x ∧ x < g.ptr + g.count.toNat

/-- The addresses of the prefix word. -/
def InPrefixWord (g : Grant) (x : Nat) : Prop := g.ptr - 8 ≤ x ∧ x < g.ptr

def Apart (g h : Grant) : Prop :=
  g.base + g.size ≤ h.base ∨ h.base + h.size ≤ g.base

/-- The alignment is one that `operator new` passes on, and `prefixSize +
count` does not wrap. -/
structure Proper (g : Grant) : Prop where
  alignment : ∃ a, IsPowerOfTwo a ∧ g.alignment = actualAlignment a
  noWrap : g.prefixSize.toNat + g.count.toNat < 2 ^ 64

theorem Proper.sixteen_le {g : Grant} (h : g.Proper) :
    16 ≤ g.prefixSize.toNat := by
  obtain ⟨a, ha, heq⟩ := h.alignment
  unfold prefixSize
  rw [heq, (prefixSize_actualAlignment ha).1]
  exact (prefixSize_actualAlignment ha).2

/-- The prefix and the payload lie in the block. -/
theorem Proper.fits {g : Grant} (h : g.Proper) :
    g.prefixSize.toNat + g.count.toNat ≤ g.size := by
  have hsum : (g.prefixSize + g.count).toNat ≤ g.size := g.enough
  rw [UInt64.toNat_add, Nat.mod_eq_of_lt h.noWrap] at hsum
  exact hsum

theorem Proper.owns_base {g : Grant} (h : g.Proper) : g.Owns g.base := by
  have hprefix := h.sixteen_le
  have hfits := h.fits
  unfold Owns
  omega

/-- The last byte of the prefix. -/
theorem Proper.owns_before_ptr {g : Grant} (h : g.Proper) :
    g.Owns (g.ptr - 1) := by
  have hprefix := h.sixteen_le
  have hfits := h.fits
  unfold Owns ptr
  omega

theorem Proper.ptr_ne_zero {g : Grant} (h : g.Proper) : g.ptr ≠ 0 := by
  have hprefix := h.sixteen_le
  unfold ptr
  omega

theorem Proper.owns_of_lt_ptr {g : Grant} (h : g.Proper) {x : Nat}
    (hbase : g.base ≤ x) (hlt : x < g.ptr) : g.Owns x := by
  have hfits := h.fits
  unfold ptr at hlt
  unfold Owns
  omega

theorem Proper.owns_payload {g : Grant} (h : g.Proper) {x : Nat}
    (hx : g.InPayload x) : g.Owns x := by
  have hfits := h.fits
  unfold InPayload ptr at hx
  unfold Owns
  omega

theorem Proper.owns_prefixWord {g : Grant} (h : g.Proper) {x : Nat}
    (hx : g.InPrefixWord x) : g.Owns x := by
  have hprefix := h.sixteen_le
  unfold InPrefixWord ptr at hx
  apply h.owns_of_lt_ptr
  · omega
  · unfold ptr
    omega

theorem Apart.symm {g h : Grant} (hapart : g.Apart h) : h.Apart g :=
  Or.symm hapart

theorem Apart.not_owns {g h : Grant} (hapart : g.Apart h) {x : Nat}
    (hx : g.Owns x) : ¬h.Owns x := by
  unfold Apart at hapart
  unfold Owns at hx ⊢
  omega

theorem Apart.base_ne {g h : Grant} (hapart : g.Apart h) (hg : g.Proper)
    (hh : h.Proper) : g.base ≠ h.base := by
  intro heq
  apply hapart.not_owns hg.owns_base
  rw [heq]
  exact hh.owns_base

/-- Blocks that do not overlap have different pointers, even when one is
empty and its pointer is the end of the block. -/
theorem Apart.ptr_ne {g h : Grant} (hapart : g.Apart h) (hg : g.Proper)
    (hh : h.Proper) : g.ptr ≠ h.ptr := by
  intro heq
  apply hapart.not_owns hg.owns_before_ptr
  rw [heq]
  exact hh.owns_before_ptr

theorem Apart.ne {g h : Grant} (hapart : g.Apart h) (hg : g.Proper) :
    g ≠ h := by
  intro heq
  subst heq
  exact hapart.not_owns hg.owns_base hg.owns_base

end Grant

/-! ## Header and prefix word -/

/-- The header byte and the prefix word of the block are in memory. -/
structure Stamped (memory : Bytes) (b : Block) : Prop where
  header : memory b.base = b.domain.val.toUInt8
  word : loadWord memory (b.ptr - 8) = b.prefixSize

/-- Only the bytes before the payload matter. -/
theorem Stamped.congr {memory memory' : Bytes} {b : Block} (hb : b.Proper)
    (h : Stamped memory b)
    (hsame : ∀ x, b.base ≤ x → x < b.ptr → memory' x = memory x) :
    Stamped memory' b where
  header := by
    have hprefix := hb.sixteen_le
    rw [hsame b.base (Nat.le_refl _), h.header]
    unfold Grant.ptr
    omega
  word := by
    have hprefix := hb.sixteen_le
    rw [← h.word]
    apply loadWord_congr
    intro x hge hlt
    unfold Grant.ptr at hge hlt
    apply hsame x
    · omega
    · unfold Grant.ptr
      omega

theorem Stamped.congr_owns {memory memory' : Bytes} {b : Block}
    (hb : b.Proper) (h : Stamped memory b)
    (hsame : ∀ x, b.Owns x → memory' x = memory x) : Stamped memory' b :=
  h.congr hb fun _ hge hlt => hsame _ (hb.owns_of_lt_ptr hge hlt)

theorem Stamped.recoverBase {p : Process} {b : Block}
    (h : Stamped p.memory b) : p.recoverBase b.ptr = b.base := by
  unfold Process.recoverBase
  rw [h.word]
  exact Nat.add_sub_cancel _ _

theorem Stamped.headerDomain {p : Process} {b : Block}
    (h : Stamped p.memory b) : p.headerDomain b.base = b.domain := by
  unfold Process.headerDomain
  rw [h.header, Int8.toInt8_toUInt8]

/-- The prefix word is written beside the header. -/
theorem storeWord_header {b : Block} (hb : b.Proper) (memory : Bytes) :
    storeWord memory (b.ptr - 8) b.prefixSize b.base = memory b.base := by
  have hprefix := hb.sixteen_le
  apply storeWord_of_outside
  unfold Grant.ptr
  omega

/-- Writing the prefix word completes the stamp. -/
theorem Stamped.of_storeWord {memory : Bytes} {b : Block} (hb : b.Proper)
    (hheader : memory b.base = b.domain.val.toUInt8) :
    Stamped (storeWord memory (b.ptr - 8) b.prefixSize) b where
  header := (storeWord_header hb memory).trans hheader
  word := loadWord_storeWord memory (b.ptr - 8) b.prefixSize

/-- A prefix word is written inside its block. -/
theorem storeWord_of_apart {b c : Block} (hc : c.Proper)
    (hapart : b.Apart c.toGrant) (memory : Bytes) {x : Nat} (hx : b.Owns x) :
    storeWord memory (c.ptr - 8) c.prefixSize x = memory x := by
  apply storeWord_of_outside
  by_contra hinside
  apply hapart.not_owns hx
  apply hc.owns_prefixWord
  have hprefix := hc.sixteen_le
  unfold Grant.InPrefixWord Grant.ptr
  unfold Grant.ptr at hinside
  omega

theorem update_of_apart {b c : Block} (hc : c.Proper)
    (hapart : b.Apart c.toGrant) (memory : Bytes) (v : UInt8) {x : Nat}
    (hx : b.Owns x) : Function.update memory c.base v x = memory x := by
  apply Function.update_of_ne
  intro heq
  subst heq
  exact hapart.not_owns hx hc.owns_base

/-! ## The trace of a block -/

/-- The key of the block in the pool of its domain. -/
def Block.namedKey (b : Block) : Pool × Nat :=
  (.named (getMemoryDomainName b.domain), b.ptr)

/-- The key of the block in the default pool. -/
def Block.defaultKey (b : Block) : Pool × Nat := (.default, b.ptr)

/-- The keys that are open while the block is allocated. -/
def Block.Opens (b : Block) (key : Pool × Nat) : Prop :=
  key = b.namedKey ∨ key = b.defaultKey

theorem Block.namedKey_ne_defaultKey (b : Block) :
    b.namedKey ≠ b.defaultKey := by
  intro h
  exact absurd (congrArg Prod.fst h) Pool.noConfusion

theorem Block.Opens.ptr {b : Block} {key : Pool × Nat} (h : b.Opens key) :
    key.2 = b.ptr := by
  rcases h with rfl | rfl
  · rfl
  · rfl

/-! ## The functions on a block -/

/-- The two events of an allocation. -/
def Block.allocEvents (b : Block) : List TraceEvent :=
  [.alloc (.named (getMemoryDomainName b.domain)) b.ptr b.count,
    .alloc .default b.ptr b.count]

/-- The two events of a deallocation. -/
def Block.freeEvents (b : Block) : List TraceEvent :=
  [.free (.named (getMemoryDomainName b.domain)) b.ptr, .free .default b.ptr]

section Allocate

variable {b : Block} (hb : b.Proper) {domains : DomainStack}
  (hdomain : b.domain = getCurrentDomain domains) (memory : Bytes)
  (p : Process)

include hb

/-- An allocation writes to its own block only. -/
theorem allocateImpl_memory_of_apart {c : Block}
    (hapart : c.Apart b.toGrant) {x : Nat} (hx : c.Owns x) :
    (allocateImpl b.count b.alignment b.base memory domains p).2.memory x =
      memory x := by
  rw [allocateImpl_memory]
  exact (storeWord_of_apart hb hapart _ hx).trans
    (update_of_apart hb hapart memory _ hx)

include hdomain

theorem allocateImpl_stamped :
    Stamped
      (allocateImpl b.count b.alignment b.base memory domains p).2.memory b := by
  rw [allocateImpl_memory]
  apply Stamped.of_storeWord hb
  rw [Function.update_self, hdomain]

/-- An allocation is traced when the flag is set. -/
theorem allocateImpl_events (hstarted : p.profilerStarted)
    (hdata : p.profilerData) :
    (allocateImpl b.count b.alignment b.base memory domains p).2.events =
      if p.tracyActive then p.events ++ b.allocEvents else p.events := by
  let written := ((p.malloc (b.prefixSize + b.count) b.base memory).stampHeader
    b.base (getCurrentDomain domains)).storePrefix b.ptr b.prefixSize
  have hstamped : Stamped written.memory b := by
    apply Stamped.of_storeWord hb
    show Function.update memory b.base _ b.base = _
    rw [Function.update_self, hdomain]
  have hname : getMemoryDomainName (written.headerDomain b.base) =
      getMemoryDomainName b.domain := by
    rw [hstamped.headerDomain]
  by_cases hactive : p.tracyActive
  · rw [if_pos hactive]
    have hcode :
        (allocateImpl b.count b.alignment b.base memory domains p).2 =
          (written.profilerTraceAllocN b.ptr b.count
            (getMemoryDomainName (written.headerDomain b.base))
            ).profilerTraceAlloc b.ptr b.count := by
      unfold allocateImpl
      simp only
      exact congrArg Prod.snd (if_pos hactive)
    rw [hcode, hname]
    exact Process.trace_trace_events hstarted hdata
  · rw [if_neg hactive]
    unfold allocateImpl
    simp only
    exact congrArg (fun r : Nat × Process => r.2.events) (if_neg hactive)

end Allocate

section Free

variable {b : Block} (hb : b.Proper) (memory : Bytes) {p : Process}
  (hstamped : Stamped p.memory b)

include hb hstamped

/-- A deallocation passes the base of the block to `free`. -/
theorem freeImpl_calls_of_stamped :
    (freeImpl b.ptr memory p).calls = p.calls ++ [.free b.base] := by
  rw [freeImpl_calls hb.ptr_ne_zero, hstamped.recoverBase]

/-- A deallocation is traced when the flag is set. -/
theorem freeImpl_events (hstarted : p.profilerStarted)
    (hdata : p.profilerData) :
    (freeImpl b.ptr memory p).events =
      if p.tracyActive then p.events ++ b.freeEvents else p.events := by
  unfold freeImpl
  rw [if_pos hb.ptr_ne_zero, hstamped.recoverBase]
  simp only [hstamped.headerDomain]
  by_cases hactive : p.tracyActive
  · simp only [if_pos hactive]
    exact Process.trace_trace_events hstarted hdata
  · simp only [if_neg hactive]
    rfl

end Free

end VulkanCompute.Profiler
