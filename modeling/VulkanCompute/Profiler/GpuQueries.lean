import Mathlib.Data.List.Induction
import Mathlib.Data.Nat.Basic
import VulkanCompute.Profiler.SerialQueue

/-!
# The queries of the GPU context

A `VkCtx` counts the timestamp queries that it hands out, and query number
`id` has the slot `id % m_queryCount` of the pool.  The events in the serial
queue carry the slot.  A `Post` is such an event with the number instead, and
with the scope that it belongs to, which has the number of its first query.

* `announced`, `ticks` and `openScopes` read off the posts which queries have
  an event, which times have been reported, and which scopes of a thread are
  open.
* `Allowed` says which post may come next: a query is announced once and
  before its time is reported, the times are reported in the order of the
  queries, the queries without a time fit in the pool, and the scopes of a
  thread nest.
-/

namespace VulkanCompute.Profiler

/-- `m_queryCount`. -/
@[ext]
structure QueryCount where
  size : Nat
  pos : 0 < size
  le : size ≤ 64 * 1024

def QueryCount.four : QueryCount := ⟨4, by decide, by decide⟩

/-- The loop of `CreateQueryPool`, which halves the count until
`vkCreateQueryPool` succeeds.  It does not end when a pool of one query is too
large. -/
def createQueryPool (succeeds : Nat → Bool) (count : QueryCount) :
    Option QueryCount :=
  if succeeds count.size then some count
  else if h : 0 < count.size / 2 then
    createQueryPool succeeds
      ⟨count.size / 2, h, Nat.le_trans (Nat.div_le_self _ _) count.le⟩
  else none
termination_by count.size
decreasing_by exact Nat.div_lt_self count.pos (by decide)

/-- The pool is the first one of the halved counts that can be made. -/
theorem createQueryPool_eq_some_iff (succeeds : Nat → Bool)
    {count Q : QueryCount} :
    createQueryPool succeeds count = some Q ↔
      ∃ k, Q.size = count.size / 2 ^ k ∧ succeeds Q.size ∧
        ∀ j < k, succeeds (count.size / 2 ^ j) = false := by
  fun_induction createQueryPool succeeds count with
  | case1 count hmade =>
    constructor
    · intro heq
      obtain rfl := Option.some.inj heq
      exact ⟨0, by simp, hmade, nofun⟩
    · rintro ⟨k, hsize, -, hfailed⟩
      rcases Nat.eq_zero_or_pos k with rfl | hk
      · exact congrArg some (QueryCount.ext (by simp [hsize]))
      · have hfirst := hfailed 0 hk
        simp [hmade] at hfirst
  | case2 count hnot hhalf ih =>
    rw [ih]
    constructor
    · rintro ⟨k, hsize, hmade, hfailed⟩
      refine ⟨k + 1, ?_, hmade, fun j hj => ?_⟩
      · rw [hsize, Nat.div_div_eq_div_mul, Nat.pow_succ']
      · cases j with
        | zero => simpa using hnot
        | succ j =>
          rw [Nat.pow_succ', ← Nat.div_div_eq_div_mul]
          exact hfailed j (Nat.lt_of_succ_lt_succ hj)
    · rintro ⟨k, hsize, hmade, hfailed⟩
      cases k with
      | zero =>
        rw [Nat.pow_zero, Nat.div_one] at hsize
        exact absurd (hsize ▸ hmade) hnot
      | succ k =>
        refine ⟨k, ?_, hmade, fun j hj => ?_⟩
        · rw [hsize, Nat.div_div_eq_div_mul, Nat.pow_succ']
        · have hlater := hfailed (j + 1) (Nat.succ_lt_succ hj)
          rwa [Nat.pow_succ', ← Nat.div_div_eq_div_mul] at hlater
  | case3 count hnot hone =>
    refine iff_of_false nofun ?_
    rintro ⟨k, hsize, hmade, hfailed⟩
    cases k with
    | zero =>
      rw [Nat.pow_zero, Nat.div_one] at hsize
      exact hnot (hsize ▸ hmade)
    | succ k =>
      -- a count of one has nothing left to halve
      have hzero : count.size / 2 = 0 := Nat.eq_zero_of_not_pos hone
      rw [Nat.pow_succ', ← Nat.div_div_eq_div_mul, hzero, Nat.zero_div] at hsize
      exact absurd hsize (Nat.ne_of_gt Q.pos)

/-- `uint16_t( queryId )`. -/
def QueryCount.queryId (Q : QueryCount) (id : Nat) : UInt16 :=
  .ofNat (id % Q.size)

/-- The slots of the pool fit in 16 bits. -/
theorem QueryCount.ofNat_eq_queryId_iff (Q : QueryCount) {k : Nat}
    (hk : k < Q.size) (id : Nat) :
    UInt16.ofNat k = Q.queryId id ↔ k = id % Q.size := by
  have hsize := Q.le
  have hslot : id % Q.size < Q.size := Nat.mod_lt id Q.pos
  rw [queryId, ← UInt16.toNat_inj,
    UInt16.toNat_ofNat_of_lt' (by rw [UInt16.size]; omega),
    UInt16.toNat_ofNat_of_lt' (by rw [UInt16.size]; omega)]

/-! ## Posts -/

/-- An event of the context, or another one. -/
inductive GpuCall where
  | zoneBegin (id : Nat) (srcloc : UInt64)
  | zoneEnd (id scope : Nat)
  | gpuTime (id : Nat) (ticks : Int64)
  | other (call : SerialCall)

structure Post (τ : Type*) where
  thread : τ
  call : GpuCall
  time : Int64

/-- The events that are about memory. -/
def SerialCall.isMemory : SerialCall → Bool
  | .memAlloc _ _ => true
  | .memAllocNamed _ _ _ => true
  | .memFree _ => true
  | .memFreeNamed _ _ => true
  | .gpuNewContext _ => false
  | .gpuZoneBegin _ _ _ => false
  | .gpuZoneEnd _ _ => false
  | .gpuTime _ _ _ => false

namespace GpuCall

/-- The event in the queue. -/
def serial (Q : QueryCount) (context : UInt8) : GpuCall → SerialCall
  | .zoneBegin id srcloc => .gpuZoneBegin (Q.queryId id) context srcloc
  | .zoneEnd id _ => .gpuZoneEnd (Q.queryId id) context
  | .gpuTime id ticks => .gpuTime ticks (Q.queryId id) context
  | .other call => call

def announced : GpuCall → Option Nat
  | .zoneBegin id _ => some id
  | .zoneEnd id _ => some id
  | _ => none

def ticks : GpuCall → Option Int64
  | .gpuTime _ ticks => some ticks
  | _ => none

end GpuCall

variable {τ : Type*}

def Post.entry (Q : QueryCount) (context : UInt8) (p : Post τ) : LogEntry τ :=
  ⟨p.thread, p.call.serial Q context, p.time⟩

/-! ## What has been posted -/

/-- The queries that have an event. -/
def announced (posts : List (Post τ)) : List Nat :=
  posts.filterMap (·.call.announced)

/-- The times that have been reported. -/
def ticks (posts : List (Post τ)) : List Int64 :=
  posts.filterMap (·.call.ticks)

/-- How many queries have been reported. -/
def reported (posts : List (Post τ)) : Nat := (ticks posts).length

theorem announced_append_singleton (posts : List (Post τ)) (p : Post τ) :
    announced (posts ++ [p]) = announced posts ++ p.call.announced.toList := by
  rw [announced, List.filterMap_append]
  cases h : p.call.announced with
  | none => simp [announced, h]
  | some id => simp [announced, h]

theorem announced_append_of_some (posts : List (Post τ)) {p : Post τ} {id : Nat}
    (h : p.call.announced = some id) :
    announced (posts ++ [p]) = announced posts ++ [id] := by
  rw [announced_append_singleton, h]
  rfl

theorem announced_append_of_none (posts : List (Post τ)) {p : Post τ}
    (h : p.call.announced = none) :
    announced (posts ++ [p]) = announced posts := by
  rw [announced_append_singleton, h]
  exact List.append_nil _

theorem ticks_append_singleton (posts : List (Post τ)) (p : Post τ) :
    ticks (posts ++ [p]) = ticks posts ++ p.call.ticks.toList := by
  rw [ticks, List.filterMap_append]
  cases h : p.call.ticks with
  | none => simp [ticks, h]
  | some t => simp [ticks, h]

theorem ticks_append_of_none (posts : List (Post τ)) {p : Post τ}
    (h : p.call.ticks = none) : ticks (posts ++ [p]) = ticks posts := by
  rw [ticks_append_singleton, h]
  exact List.append_nil _

theorem reported_append_singleton (posts : List (Post τ)) (p : Post τ) :
    reported (posts ++ [p]) = reported posts + p.call.ticks.toList.length := by
  rw [reported, ticks_append_singleton, List.length_append]
  rfl

variable [DecidableEq τ]

def openScopesStep (t : τ) (scopes : List Nat) (p : Post τ) : List Nat :=
  if p.thread = t then
    match p.call with
    | .zoneBegin id _ => id :: scopes
    | .zoneEnd _ _ => scopes.tail
    | _ => scopes
  else scopes

/-- The scopes of a thread that have not ended, the innermost first. -/
def openScopes (posts : List (Post τ)) (t : τ) : List Nat :=
  posts.foldl (openScopesStep t) []

theorem openScopes_append_singleton (posts : List (Post τ)) (p : Post τ)
    (t : τ) :
    openScopes (posts ++ [p]) t = openScopesStep t (openScopes posts t) p := by
  rw [openScopes, List.foldl_append]
  rfl

/-! ## What may be posted -/

/-- A query that has no event and not yet a time, and whose slot is not in
use. -/
structure Unannounced (Q : QueryCount) (posts : List (Post τ)) (id : Nat) :
    Prop where
  fresh : id ∉ announced posts
  ge : reported posts ≤ id
  lt : id < reported posts + Q.size

def Allowed (Q : QueryCount) (posts : List (Post τ)) (p : Post τ) : Prop :=
  match p.call with
  | .zoneBegin id _ => Unannounced Q posts id
  | .zoneEnd id scope =>
    Unannounced Q posts id ∧
      (openScopes posts p.thread).head? = some scope ∧ scope < id
  | .gpuTime id _ => id = reported posts ∧ id ∈ announced posts
  | .other call => call.isMemory

/-- Each post was allowed when it came. -/
inductive Lawful (Q : QueryCount) : List (Post τ) → Prop where
  | nil : Lawful Q []
  | snoc {posts : List (Post τ)} {p : Post τ} (h : Lawful Q posts)
      (hallowed : Allowed Q posts p) : Lawful Q (posts ++ [p])

end VulkanCompute.Profiler
