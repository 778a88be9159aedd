import Mathlib.Logic.Relation
import VulkanCompute.Lib.RoundRobin
import VulkanCompute.Profiler.GpuQueries

/-!
# The timestamps of the GPU

A scope takes a query in its constructor and another one in its destructor.
For each it records a timestamp, which the GPU writes into the pool later, and
queues an event.  `Collect` asks for the results of the oldest queries, queues
the times that are there, records a reset of their slots and gives them back.

`TimingStep` has one constructor for each thing that a thread, `Collect` or
the GPU does.  It leaves the order of these open, with three exceptions.

* The scopes of a thread are destroyed in the reverse order.
* A command buffer is submitted when the constructors and destructors that
  record into it have returned.
* `SubmitWork` waits for the queue to be idle between two calls of `Collect`.

`Sound` is the invariant.  It rests on the queries that are in use fitting in
the pool, which the code asserts and does not check.

* `times_in_order`: the times are reported in the order of the queries, each
  with what the GPU has written for that query.
* `execute_reset`: the GPU writes only to slots that have been reset.
* `collect_bounds`: the assertions of `Collect` hold.
-/

namespace VulkanCompute.Profiler

open Lib Relation

/-! ## The machine -/

/-- Where a thread is in the constructor or in the destructor of a scope. -/
inductive ScopePc where
  | idle
  | opening (id : Nat) (srcloc : UInt64)
  | closing (id scope : Nat)

/-- The query that the thread has taken and not announced. -/
def ScopePc.query : ScopePc → Option Nat
  | .idle => none
  | .opening id _ => some id
  | .closing id _ => some id

/-- Where `Collect` is in its loop.  `results` are the times in `m_res`, where
the query is available. -/
inductive CollectPc (τ : Type*) where
  | idle
  | reporting (thread : τ) (results : Nat → Option Int64) (idx cnt : Nat)

/-- `m_head`, `m_tail`, `m_oldCnt` and the query pool, with what has been
recorded to reset some of its slots, and the threads.  `times` is what the GPU
has written for each query. -/
structure Timing (τ : Type*) where
  head : Nat
  tail : Nat
  oldCnt : Nat
  pool : Nat → Option Int64
  reset : Option (Nat × Nat)
  pc : τ → ScopePc
  scopes : τ → List Nat
  collector : CollectPc τ
  log : List (LogEntry τ)
  posts : List (Post τ)
  times : Nat → Option Int64

namespace Timing

variable {τ : Type*} (Q : QueryCount) (context : UInt8)

/-- The constructor has had all slots reset. -/
def start (τ : Type*) : Timing τ where
  head := 0
  tail := 0
  oldCnt := 0
  pool := fun _ => none
  reset := none
  pc := fun _ => .idle
  scopes := fun _ => []
  collector := .idle
  log := []
  posts := []
  times := fun _ => none

/-- An event is queued. -/
def send (s : Timing τ) (t : τ) (time : Int64) (serial : SerialCall)
    (call : GpuCall) : Timing τ :=
  { s with
    log := s.log ++ [⟨t, serial, time⟩]
    posts := s.posts ++ [⟨t, call, time⟩] }

/-! ### Scopes -/

section Scopes

variable [DecidableEq τ]

def goto (s : Timing τ) (t : τ) (pc : ScopePc) : Timing τ :=
  { s with pc := Function.update s.pc t pc }

/-- `NextQueryId`. -/
def nextQueryId (s : Timing τ) (t : τ) (pc : ScopePc) : Timing τ :=
  let s := s.goto t pc
  { s with head := s.head + 1 }

/-- The end of the constructor. -/
def openScope (s : Timing τ) (t : τ) (id : Nat) (srcloc : UInt64)
    (time : Int64) : Timing τ :=
  let s := s.goto t .idle
  let s := s.send t time (.gpuZoneBegin (Q.queryId id) context srcloc)
    (.zoneBegin id srcloc)
  { s with scopes := Function.update s.scopes t (id :: s.scopes t) }

/-- The end of the destructor. -/
def closeScope (s : Timing τ) (t : τ) (id scope : Nat) (time : Int64) :
    Timing τ :=
  let s := s.goto t .idle
  let s := s.send t time (.gpuZoneEnd (Q.queryId id) context)
    (.zoneEnd id scope)
  { s with scopes := Function.update s.scopes t (s.scopes t).tail }

end Scopes

/-! ### The GPU -/

/-- The slots that a recorded reset is about. -/
def resets (s : Timing τ) (k : Nat) : Bool :=
  match s.reset with
  | none => false
  | some (first, cnt) => decide (first ≤ k) && decide (k < first + cnt)

/-- The pool when the recorded reset has been executed. -/
def poolAfter (s : Timing τ) (k : Nat) : Option Int64 :=
  if s.resets k then none else s.pool k

def execute (s : Timing τ) (id : Nat) (ticks : Int64) : Timing τ :=
  { s with
    pool := Function.update s.pool (id % Q.size) (some ticks)
    times := Function.update s.times id (some ticks) }

def executeReset (s : Timing τ) : Timing τ :=
  { s with pool := s.poolAfter, reset := none }

/-! ### `Collect` -/

def wrappedTail (s : Timing τ) : Nat := s.tail % Q.size

/-- `cnt`, for which results are asked. -/
def collectCount (s : Timing τ) : Nat :=
  if s.oldCnt ≠ 0 then s.oldCnt
  else
    let cnt := (s.head - s.tail) % 2 ^ 32
    if s.wrappedTail Q + cnt > Q.size then Q.size - s.wrappedTail Q else cnt

/-- `vkGetQueryPoolResults`. -/
def collect (s : Timing τ) (t : τ) : Timing τ :=
  { s with
    oldCnt := 0
    collector := .reporting t (fun idx => s.pool (s.wrappedTail Q + idx)) 0
      (s.collectCount Q) }

/-- The body of the loop, for a query that is available. -/
def report (s : Timing τ) (t : τ) (results : Nat → Option Int64)
    (idx cnt : Nat) (ticks time : Int64) : Timing τ :=
  let queryId := UInt16.ofNat (s.wrappedTail Q + idx)
  let s := s.send t time (.gpuTime ticks queryId context)
    (.gpuTime (s.tail + idx) ticks)
  { s with collector := .reporting t results (idx + 1) cnt }

/-- The `break` at the first query that is not available. -/
def breakLoop (s : Timing τ) (t : τ) (results : Nat → Option Int64)
    (idx cnt : Nat) : Timing τ :=
  { s with
    oldCnt := cnt - idx
    collector := .reporting t results idx idx }

/-- The slots are reset and given back. -/
def finish (s : Timing τ) (cnt : Nat) : Timing τ :=
  { s with
    reset := some (s.wrappedTail Q, cnt)
    tail := s.tail + cnt
    collector := .idle }

end Timing

inductive TimingStep {τ : Type*} [DecidableEq τ] (Q : QueryCount)
    (context : UInt8) : Timing τ → Timing τ → Prop where
  | takeBegin {s : Timing τ} {t : τ} (srcloc : UInt64) (hpc : s.pc t = .idle) :
      TimingStep Q context s (s.nextQueryId t (.opening s.head srcloc))
  | openScope {s : Timing τ} {t : τ} {id : Nat} {srcloc : UInt64}
      (time : Int64) (hpc : s.pc t = .opening id srcloc) :
      TimingStep Q context s (s.openScope Q context t id srcloc time)
  | takeEnd {s : Timing τ} {t : τ} {scope : Nat} (hpc : s.pc t = .idle)
      (hscope : (s.scopes t).head? = some scope) :
      TimingStep Q context s (s.nextQueryId t (.closing s.head scope))
  | closeScope {s : Timing τ} {t : τ} {id scope : Nat} (time : Int64)
      (hpc : s.pc t = .closing id scope) :
      TimingStep Q context s (s.closeScope Q context t id scope time)
  | other {s : Timing τ} (t : τ) (time : Int64) {call : SerialCall}
      (hcall : call.isMemory) :
      TimingStep Q context s (s.send t time call (.other call))
  | execute {s : Timing τ} {id : Nat} (ticks : Int64) (hid : id < s.head)
      (hreturned : ∀ t, (s.pc t).query ≠ some id) (honce : s.times id = none)
      (hreset : s.resets (id % Q.size) = false) :
      TimingStep Q context s (s.execute Q id ticks)
  | executeReset {s : Timing τ} : TimingStep Q context s s.executeReset
  | collect {s : Timing τ} (t : τ) (hidle : s.collector = .idle)
      (hreset : s.reset = none) (hsome : s.tail ≠ s.head) :
      TimingStep Q context s (s.collect Q t)
  | report {s : Timing τ} {t : τ} {results : Nat → Option Int64}
      {idx cnt : Nat} {ticks : Int64} (time : Int64)
      (hpc : s.collector = .reporting t results idx cnt) (hidx : idx < cnt)
      (havail : results idx = some ticks) :
      TimingStep Q context s (s.report Q context t results idx cnt ticks time)
  | breakLoop {s : Timing τ} {t : τ} {results : Nat → Option Int64}
      {idx cnt : Nat} (hpc : s.collector = .reporting t results idx cnt)
      (hidx : idx < cnt) (havail : results idx = none) :
      TimingStep Q context s (s.breakLoop t results idx cnt)
  | finish {s : Timing τ} {t : τ} {results : Nat → Option Int64} {cnt : Nat}
      (hpc : s.collector = .reporting t results cnt cnt) :
      TimingStep Q context s (s.finish Q cnt)

namespace Timing

variable {τ : Type*}

/-! ## The invariant -/

/-- The `cnt` of the loop, when there is one. -/
def taken (s : Timing τ) : Nat :=
  match s.collector with
  | .idle => 0
  | .reporting _ _ _ cnt => cnt

/-- The `idx` of the loop. -/
def sent (s : Timing τ) : Nat :=
  match s.collector with
  | .idle => 0
  | .reporting _ _ idx _ => idx

section Collector

variable {s : Timing τ} {t : τ} {results : Nat → Option Int64} {idx cnt : Nat}

theorem sent_of_idle (hidle : s.collector = .idle) : s.sent = 0 := by
  rw [sent, hidle]

theorem taken_of_reporting
    (hpc : s.collector = .reporting t results idx cnt) :
    s.taken = cnt := by
  rw [taken, hpc]

theorem sent_of_reporting
    (hpc : s.collector = .reporting t results idx cnt) :
    s.sent = idx := by
  rw [sent, hpc]

theorem poolAfter_of_reset (hreset : s.reset = none) :
    s.poolAfter = s.pool := by
  funext k
  rw [poolAfter, resets, hreset]
  rfl

theorem poolAfter_execute {Q : QueryCount} {id : Nat} (ticks : Int64)
    (hreset : s.resets (id % Q.size) = false) (k : Nat) :
    (s.execute Q id ticks).poolAfter k =
      if k = id % Q.size then some ticks else s.poolAfter k := by
  show (if s.resets k then none else Function.update s.pool _ _ k) = _
  by_cases hk : k = id % Q.size
  · rw [hk, hreset, if_pos rfl, Function.update_self]
    rfl
  · rw [if_neg hk, Function.update_of_ne hk]
    rfl

theorem poolAfter_finish {Q : QueryCount} (hreset : s.reset = none)
    (cnt k : Nat) :
    (s.finish Q cnt).poolAfter k =
      if s.tail % Q.size ≤ k ∧ k < s.tail % Q.size + cnt then none
      else s.poolAfter k := by
  rw [poolAfter_of_reset hreset]
  show (if (decide _ && decide _) = true then none else s.pool k) = _
  simp only [Bool.and_eq_true, decide_eq_true_eq]
  rfl

end Collector

/-- At most `bound` queries are in use. -/
def Within (bound : Nat) (s : Timing τ) : Prop := s.head ≤ s.tail + bound

instance (bound : Nat) (s : Timing τ) : Decidable (s.Within bound) :=
  inferInstanceAs (Decidable (_ ≤ _))

theorem Within.finish {Q : QueryCount} {bound : Nat} {s : Timing τ}
    (h : s.Within bound) (cnt : Nat) :
    (s.finish Q cnt).Within bound := by
  have hwithin : s.head ≤ s.tail + bound := h
  show s.head ≤ s.tail + cnt + bound
  omega

variable [DecidableEq τ]

structure Sound (Q : QueryCount) (context : UInt8) (s : Timing τ) : Prop where
  within : s.Within Q.size
  batch_le : s.tail + s.taken + s.oldCnt ≤ s.head
  batch_fits : s.wrappedTail Q + s.taken + s.oldCnt ≤ Q.size
  lt_head_iff : ∀ id,
    id < s.head ↔ id ∈ announced s.posts ∨ ∃ t, (s.pc t).query = some id
  held_fresh : ∀ t id, (s.pc t).query = some id → id ∉ announced s.posts
  held_unique : ∀ t u id,
    (s.pc t).query = some id → (s.pc u).query = some id → t = u
  scopes : ∀ t, s.scopes t = openScopes s.posts t
  scopes_lt : ∀ t, ∀ scope ∈ s.scopes t, scope < s.head
  closing : ∀ t id scope, s.pc t = .closing id scope →
    (s.scopes t).head? = some scope ∧ scope < id
  pool : Shows Q.size s.tail s.poolAfter s.times
  times_announced : ∀ id, s.times id ≠ none → id ∈ announced s.posts
  results : ∀ t results idx cnt, s.collector = .reporting t results idx cnt →
    idx ≤ cnt ∧ s.reset = none ∧
      ∀ i < cnt, ∀ ticks, results i = some ticks →
        s.times (s.tail + i) = some ticks
  lawful : Lawful Q s.posts
  log_eq : s.log = s.posts.map (Post.entry Q context)
  reported_eq : reported s.posts = s.tail + s.sent
  ticks_times : ∀ k time,
    (ticks s.posts)[k]? = some time → s.times k = some time

variable {Q : QueryCount} {context : UInt8} {s s' : Timing τ}

theorem sound_start (Q : QueryCount) (context : UInt8) :
    Sound Q context (start τ) where
  within := Nat.zero_le _
  batch_le := Nat.le_refl 0
  batch_fits := by
    show 0 % Q.size + 0 + 0 ≤ Q.size
    simp
  lt_head_iff := fun id =>
    ⟨fun h => absurd h (Nat.not_lt_zero id), fun h => h.elim nofun nofun⟩
  held_fresh := nofun
  held_unique := nofun
  scopes := fun _ => rfl
  scopes_lt := nofun
  closing := nofun
  pool := fun _ _ _ => rfl
  times_announced := fun _ h => absurd rfl h
  results := nofun
  lawful := .nil
  log_eq := rfl
  reported_eq := rfl
  ticks_times := nofun

/-! ### Scopes -/

theorem goto_pc (s : Timing τ) (t : τ) (pc : ScopePc) (u : τ) :
    (s.goto t pc).pc u = if u = t then pc else s.pc u :=
  Function.update_apply ..

theorem goto_query_iff (s : Timing τ) (t : τ) (pc : ScopePc) (u : τ)
    (id : Nat) :
    ((s.goto t pc).pc u).query = some id ↔
      u = t ∧ pc.query = some id ∨ u ≠ t ∧ (s.pc u).query = some id := by
  rw [goto_pc]
  by_cases hu : u = t
  · simp [hu]
  · simp [hu]

theorem goto_closing_iff (s : Timing τ) (t : τ) (pc : ScopePc) (u : τ)
    (id scope : Nat) :
    (s.goto t pc).pc u = .closing id scope ↔
      u = t ∧ pc = .closing id scope ∨ u ≠ t ∧ s.pc u = .closing id scope := by
  rw [goto_pc]
  by_cases hu : u = t
  · simp [hu]
  · simp [hu]

namespace Sound

variable {t : τ}

/-! #### The next query -/

section NextQueryId

variable {pc : ScopePc} (h : Sound Q context s) (hpc : s.pc t = .idle)
  (hquery : pc.query = some s.head)

include h

theorem head_fresh : s.head ∉ announced s.posts :=
  fun hmem => Nat.lt_irrefl _ ((h.lt_head_iff _).mpr (Or.inl hmem))

theorem head_not_held (u : τ) : (s.pc u).query ≠ some s.head :=
  fun hu => Nat.lt_irrefl _ ((h.lt_head_iff _).mpr (Or.inr ⟨u, hu⟩))

include hpc hquery in
theorem lt_head_iff_nextQueryId (id : Nat) :
    id < s.head + 1 ↔ id ∈ announced s.posts ∨
      ∃ u, ((s.goto t pc).pc u).query = some id := by
  rw [Nat.lt_succ_iff_lt_or_eq, h.lt_head_iff]
  simp only [goto_query_iff, hquery, Option.some.injEq]
  constructor
  · rintro ((hmem | ⟨u, hu⟩) | rfl)
    · exact Or.inl hmem
    · have hne : u ≠ t := by
        rintro rfl
        rw [hpc] at hu
        exact absurd hu nofun
      exact Or.inr ⟨u, Or.inr ⟨hne, hu⟩⟩
    · exact Or.inr ⟨t, Or.inl ⟨rfl, rfl⟩⟩
  · rintro (hmem | ⟨u, ⟨-, rfl⟩ | ⟨-, hu⟩⟩)
    · exact Or.inl (Or.inl hmem)
    · exact Or.inr rfl
    · exact Or.inl (Or.inr ⟨u, hu⟩)

include hquery in
theorem held_fresh_nextQueryId {u : τ} {id : Nat}
    (hu : ((s.goto t pc).pc u).query = some id) : id ∉ announced s.posts := by
  rcases (goto_query_iff ..).mp hu with ⟨-, hid⟩ | ⟨-, hu⟩
  · rw [← Option.some.inj (hquery.symm.trans hid)]
    exact h.head_fresh
  · exact h.held_fresh u id hu

include hquery in
theorem held_unique_nextQueryId {u v : τ} {id : Nat}
    (hu : ((s.goto t pc).pc u).query = some id)
    (hv : ((s.goto t pc).pc v).query = some id) : u = v := by
  rcases (goto_query_iff ..).mp hu with ⟨rfl, hid⟩ | ⟨-, hu⟩
  · rcases (goto_query_iff ..).mp hv with ⟨rfl, -⟩ | ⟨-, hv⟩
    · rfl
    · exact absurd (hv.trans (hid.symm.trans hquery)) (h.head_not_held v)
  · rcases (goto_query_iff ..).mp hv with ⟨-, hid⟩ | ⟨-, hv⟩
    · exact absurd (hu.trans (hid.symm.trans hquery)) (h.head_not_held u)
    · exact h.held_unique u v id hu hv

include hpc hquery in
/-- A thread takes the next query. -/
theorem nextQueryId
    (hclosing : ∀ id scope, pc = .closing id scope →
      (s.scopes t).head? = some scope ∧ scope < id)
    (hwithin : (s.nextQueryId t pc).Within Q.size) :
    Sound Q context (s.nextQueryId t pc) :=
  { h with
    within := hwithin
    batch_le := Nat.le_succ_of_le h.batch_le
    lt_head_iff := h.lt_head_iff_nextQueryId hpc hquery
    held_fresh := fun _ _ => h.held_fresh_nextQueryId hquery
    held_unique := fun _ _ _ => h.held_unique_nextQueryId hquery
    scopes_lt := fun u scope hscope =>
      Nat.lt_succ_of_lt (h.scopes_lt u scope hscope)
    closing := fun u id scope hu => by
      rcases (goto_closing_iff ..).mp hu with ⟨rfl, hpc'⟩ | ⟨-, hu⟩
      · exact hclosing id scope hpc'
      · exact h.closing u id scope hu }

end NextQueryId

/-! #### An event -/

section Announce

variable {id : Nat} (h : Sound Q context s)

include h

/-- The reported queries have been announced. -/
theorem announced_of_lt_reported (hid : id < reported s.posts) :
    id ∈ announced s.posts := by
  have htime := h.ticks_times id _ (List.getElem?_eq_getElem hid)
  exact h.times_announced id (by rw [htime]; nofun)

variable (hheld : (s.pc t).query = some id)

include hheld

/-- A query that a thread has taken may be announced. -/
theorem unannounced : Unannounced Q s.posts id where
  fresh := h.held_fresh t id hheld
  ge := by
    by_contra hlt
    exact h.held_fresh t id hheld
      (h.announced_of_lt_reported (Nat.lt_of_not_le hlt))
  lt := by
    have hlt : id < s.head := (h.lt_head_iff id).mpr (Or.inr ⟨t, hheld⟩)
    have hwithin : s.head ≤ s.tail + Q.size := h.within
    rw [h.reported_eq]
    omega

theorem lt_head_iff_announce (i : Nat) :
    i < s.head ↔ i ∈ announced s.posts ++ [id] ∨
      ∃ u, ((s.goto t .idle).pc u).query = some i := by
  rw [h.lt_head_iff, List.mem_append, List.mem_singleton]
  simp only [goto_query_iff]
  constructor
  · rintro (hmem | ⟨u, hu⟩)
    · exact Or.inl (Or.inl hmem)
    · by_cases heq : u = t
      · subst heq
        exact Or.inl (Or.inr (Option.some.inj (hu.symm.trans hheld)))
      · exact Or.inr ⟨u, Or.inr ⟨heq, hu⟩⟩
  · rintro ((hmem | rfl) | ⟨u, ⟨-, hid⟩ | ⟨-, hu⟩⟩)
    · exact Or.inl hmem
    · exact Or.inr ⟨t, hheld⟩
    · exact absurd hid nofun
    · exact Or.inr ⟨u, hu⟩

theorem held_fresh_announce {u : τ} {i : Nat}
    (hu : ((s.goto t .idle).pc u).query = some i) :
    i ∉ announced s.posts ++ [id] := by
  rcases (goto_query_iff ..).mp hu with ⟨-, hid⟩ | ⟨hne, hu⟩
  · exact absurd hid nofun
  · rw [List.mem_append, List.mem_singleton]
    rintro (hmem | rfl)
    · exact h.held_fresh u i hu hmem
    · exact hne (h.held_unique u t i hu hheld)

omit hheld in
theorem held_unique_announce {u v : τ} {i : Nat}
    (hu : ((s.goto t .idle).pc u).query = some i)
    (hv : ((s.goto t .idle).pc v).query = some i) : u = v := by
  rcases (goto_query_iff ..).mp hu with ⟨-, hid⟩ | ⟨-, hu⟩
  · exact absurd hid nofun
  rcases (goto_query_iff ..).mp hv with ⟨-, hid⟩ | ⟨-, hv⟩
  · exact absurd hid nofun
  exact h.held_unique u v i hu hv

omit hheld in
theorem scopes_announce {scopes : List Nat} {p : Post τ} (hp : p.thread = t)
    (hscopes : scopes = openScopesStep t (s.scopes t) p) (u : τ) :
    Function.update s.scopes t scopes u = openScopes (s.posts ++ [p]) u := by
  rw [openScopes_append_singleton]
  by_cases hu : u = t
  · rw [hu, Function.update_self, hscopes, h.scopes]
  · rw [Function.update_of_ne hu, h.scopes, openScopesStep, hp,
      if_neg (Ne.symm hu)]

omit hheld in
theorem scopes_lt_announce {scopes : List Nat}
    (hlt : ∀ scope ∈ scopes, scope < s.head) {u : τ} {scope : Nat}
    (hscope : scope ∈ Function.update s.scopes t scopes u) :
    scope < s.head := by
  by_cases hu : u = t
  · rw [hu, Function.update_self] at hscope
    exact hlt scope hscope
  · rw [Function.update_of_ne hu] at hscope
    exact h.scopes_lt u scope hscope

omit hheld in
theorem closing_announce (scopes : List Nat) {u : τ} {i scope : Nat}
    (hu : (s.goto t .idle).pc u = .closing i scope) :
    (Function.update s.scopes t scopes u).head? = some scope ∧ scope < i := by
  rcases (goto_closing_iff ..).mp hu with ⟨-, hpc⟩ | ⟨hne, hu⟩
  · exact absurd hpc nofun
  · rw [Function.update_of_ne hne]
    exact h.closing u i scope hu

omit hheld in
theorem log_eq_send (p : Post τ) :
    s.log ++ [p.entry Q context] =
      (s.posts ++ [p]).map (Post.entry Q context) := by
  rw [h.log_eq, List.map_append]
  rfl

/-- A thread announces its query. -/
theorem announce (call : GpuCall) {time : Int64}
    (hannounced : call.announced = some id) (hticks : call.ticks = none)
    (hallowed : Allowed Q s.posts ⟨t, call, time⟩) {scopes : List Nat}
    (hscopes : scopes = openScopesStep t (s.scopes t) ⟨t, call, time⟩)
    (hlt : ∀ scope ∈ scopes, scope < s.head) :
    Sound Q context
      { (s.goto t .idle).send t time (call.serial Q context) call with
        scopes := Function.update s.scopes t scopes } :=
  have hposts : announced (s.posts ++ [⟨t, call, time⟩]) =
      announced s.posts ++ [id] := announced_append_of_some _ hannounced
  have hticks' : ticks (s.posts ++ [⟨t, call, time⟩]) = ticks s.posts :=
    ticks_append_of_none _ hticks
  { h with
    lt_head_iff := fun i => hposts ▸ h.lt_head_iff_announce hheld i
    held_fresh := fun _ _ hu => hposts ▸ h.held_fresh_announce hheld hu
    held_unique := fun _ _ _ => h.held_unique_announce
    scopes := h.scopes_announce rfl hscopes
    scopes_lt := fun _ _ => h.scopes_lt_announce hlt
    closing := fun _ _ _ => h.closing_announce scopes
    times_announced := fun i hi =>
      hposts ▸ List.mem_append_left _ (h.times_announced i hi)
    lawful := h.lawful.snoc hallowed
    log_eq := h.log_eq_send ⟨t, call, time⟩
    reported_eq := (congrArg List.length hticks').trans h.reported_eq
    ticks_times := fun k x hk =>
      h.ticks_times k x (hticks' ▸ hk) }

end Announce

end Sound

theorem Sound.openScope (h : Sound Q context s) {t : τ} {id : Nat}
    {srcloc : UInt64} (time : Int64) (hpc : s.pc t = .opening id srcloc) :
    Sound Q context (s.openScope Q context t id srcloc time) := by
  have hheld : (s.pc t).query = some id := by rw [hpc]; rfl
  refine h.announce hheld (.zoneBegin id srcloc) rfl rfl
    (h.unannounced hheld) (if_pos rfl).symm fun scope hscope => ?_
  rcases List.mem_cons.mp hscope with rfl | hscope
  · exact (h.lt_head_iff _).mpr (Or.inr ⟨t, hheld⟩)
  · exact h.scopes_lt t scope hscope

theorem Sound.closeScope (h : Sound Q context s) {t : τ} {id scope : Nat}
    (time : Int64) (hpc : s.pc t = .closing id scope) :
    Sound Q context (s.closeScope Q context t id scope time) := by
  have hheld : (s.pc t).query = some id := by rw [hpc]; rfl
  obtain ⟨hhead, hlt⟩ := h.closing t id scope hpc
  rw [h.scopes] at hhead
  exact h.announce hheld (.zoneEnd id scope) rfl rfl
    ⟨h.unannounced hheld, hhead, hlt⟩ (if_pos rfl).symm
    fun b hb => h.scopes_lt t b (List.mem_of_mem_tail hb)

/-! ### The GPU -/

/-- Only queries that have been taken have a time. -/
theorem Sound.times_none_of_le (h : Sound Q context s) {id : Nat}
    (hid : s.head ≤ id) : s.times id = none := by
  by_contra hsome
  have hlt := (h.lt_head_iff id).mpr (Or.inl (h.times_announced id hsome))
  omega

/-- A query without a time has its slot to itself. -/
theorem Sound.tail_le_of_times (h : Sound Q context s) {id : Nat}
    (hnone : s.times id = none) : s.tail ≤ id := by
  by_contra hlt
  have hreported : id < reported s.posts := by
    rw [h.reported_eq]
    omega
  have htime := h.ticks_times id _ (List.getElem?_eq_getElem hreported)
  rw [hnone] at htime
  exact absurd htime nofun

theorem Sound.execute (h : Sound Q context s) {id : Nat} (ticks : Int64)
    (hid : id < s.head) (hreturned : ∀ t, (s.pc t).query ≠ some id)
    (honce : s.times id = none) (hreset : s.resets (id % Q.size) = false) :
    Sound Q context (s.execute Q id ticks) := by
  have hannounced : id ∈ announced s.posts := by
    rcases (h.lt_head_iff id).mp hid with hmem | ⟨t, ht⟩
    · exact hmem
    · exact absurd ht (hreturned t)
  have hkeep : ∀ i time, s.times i = some time →
      Function.update s.times id (some ticks) i = some time := by
    intro i time hi
    have hne : i ≠ id := by
      rintro rfl
      rw [honce] at hi
      exact absurd hi nofun
    rw [Function.update_of_ne hne, hi]
  have hwithin : s.head ≤ s.tail + Q.size := h.within
  exact
    { h with
      pool := h.pool.set (h.tail_le_of_times honce) (by omega) (some ticks)
        (fun k _ => poolAfter_execute ticks hreset k)
        (Function.update_self ..) fun j hj => Function.update_of_ne hj _ _
      times_announced := fun i hi => by
        by_cases heq : i = id
        · rw [heq]
          exact hannounced
        · have hold : Function.update s.times id (some ticks) i ≠ none := hi
          rw [Function.update_of_ne heq] at hold
          exact h.times_announced i hold
      results := fun t results idx cnt hpc =>
        have ⟨hle, hnone, hresults⟩ := h.results t results idx cnt hpc
        ⟨hle, hnone, fun i hi time htime =>
          hkeep _ _ (hresults i hi time htime)⟩
      ticks_times := fun k time hk => hkeep k time (h.ticks_times k time hk) }

theorem Sound.executeReset (h : Sound Q context s) :
    Sound Q context s.executeReset :=
  { h with
    results := fun t results idx cnt hpc =>
      ⟨(h.results t results idx cnt hpc).1, rfl,
        (h.results t results idx cnt hpc).2.2⟩ }

/-! ### `Collect` -/

/-- The batch ends before `m_head` and before the end of the pool. -/
theorem Sound.collectCount_le (h : Sound Q context s) :
    s.tail + s.collectCount Q ≤ s.head ∧
      s.wrappedTail Q + s.collectCount Q ≤ Q.size := by
  have hle := h.batch_le
  have hfits := h.batch_fits
  have hwithin : s.head ≤ s.tail + Q.size := h.within
  have hsize := Q.le
  have hmod : (s.head - s.tail) % 2 ^ 32 = s.head - s.tail :=
    Nat.mod_eq_of_lt (by omega)
  rw [collectCount, hmod]
  split
  · omega
  · dsimp only
    split <;> omega

theorem Sound.collect (h : Sound Q context s) (t : τ)
    (hidle : s.collector = .idle) (hreset : s.reset = none) :
    Sound Q context (s.collect Q t) := by
  obtain ⟨hhead, hfits⟩ := h.collectCount_le
  have hwithin : s.head ≤ s.tail + Q.size := h.within
  have hresults : ∀ i < s.collectCount Q, ∀ time,
      s.pool (s.wrappedTail Q + i) = some time →
        s.times (s.tail + i) = some time := by
    intro i hi time htime
    have hslot : (s.tail + i) % Q.size = s.wrappedTail Q + i :=
      add_mod_of_lt (Nat.lt_of_lt_of_le (Nat.add_lt_add_left hi _) hfits)
    have hshows := h.pool (s.tail + i) (by omega) (by omega)
    rw [poolAfter_of_reset hreset, hslot] at hshows
    exact hshows.symm.trans htime
  exact
    { h with
      batch_le := hhead
      batch_fits := hfits
      results := fun u results idx cnt hpc => by
        obtain ⟨-, rfl, rfl, rfl⟩ := CollectPc.reporting.inj hpc
        exact ⟨Nat.zero_le _, hreset, hresults⟩
      reported_eq := h.reported_eq.trans (congrArg _ (sent_of_idle hidle)) }

/-- The time of the next query is the one that the GPU has written. -/
theorem Sound.ticks_times_send (h : Sound Q context s) {p : Post τ}
    (hticks : ∀ x ∈ p.call.ticks, s.times (reported s.posts) = some x)
    {k : Nat} {x : Int64} (hk : (ticks (s.posts ++ [p]))[k]? = some x) :
    s.times k = some x := by
  rw [ticks_append_singleton] at hk
  by_cases hlt : k < (ticks s.posts).length
  · rw [List.getElem?_append_left hlt] at hk
    exact h.ticks_times k x hk
  · rw [List.getElem?_append_right (Nat.le_of_not_lt hlt)] at hk
    have hmem : x ∈ p.call.ticks :=
      Option.mem_toList.mp (List.mem_of_getElem? hk)
    rw [Option.mem_def.mp hmem] at hk
    have hzero : k - (ticks s.posts).length < 1 :=
      (List.getElem?_eq_some_iff.mp hk).1
    obtain rfl : k = reported s.posts := by
      unfold reported
      omega
    exact hticks x hmem

/-- An event that takes no query is queued, and `Collect` goes on. -/
theorem Sound.send (h : Sound Q context s) (t : τ) (time : Int64)
    (call : GpuCall) (hannounced : call.announced = none)
    (hallowed : Allowed Q s.posts ⟨t, call, time⟩)
    (hscopes : ∀ u scopes, openScopesStep u scopes ⟨t, call, time⟩ = scopes)
    {s' : Timing τ} (hs' : s' =
      { s.send t time (call.serial Q context) call with
        collector := s'.collector })
    (htaken : s'.taken = s.taken)
    (hresults : ∀ t results idx cnt,
      s'.collector = .reporting t results idx cnt → idx ≤ cnt ∧
        ∃ t' idx', s.collector = .reporting t' results idx' cnt)
    (hsent : s'.sent = s.sent + call.ticks.toList.length)
    (hticks : ∀ x ∈ call.ticks, s.times (reported s.posts) = some x) :
    Sound Q context s' := by
  have hposts : announced (s.posts ++ [⟨t, call, time⟩]) =
      announced s.posts := announced_append_of_none _ hannounced
  obtain ⟨collector, hcollector⟩ : ∃ c, s'.collector = c := ⟨_, rfl⟩
  rw [hcollector] at hs'
  subst hs'
  exact
    { h with
      batch_le := htaken ▸ h.batch_le
      batch_fits := htaken ▸ h.batch_fits
      lt_head_iff := fun id => hposts ▸ h.lt_head_iff id
      held_fresh := fun u id hu => hposts ▸ h.held_fresh u id hu
      scopes := fun u => by
        show s.scopes u = openScopes (s.posts ++ [_]) u
        rw [openScopes_append_singleton, hscopes, h.scopes]
      times_announced := fun id hid => hposts ▸ h.times_announced id hid
      results := fun u results idx cnt hpc =>
        have ⟨hle, t', idx', hpc'⟩ := hresults u results idx cnt hpc
        ⟨hle, (h.results t' results idx' cnt hpc').2⟩
      lawful := h.lawful.snoc hallowed
      log_eq := h.log_eq_send ⟨t, call, time⟩
      reported_eq := by
        show reported (s.posts ++ [_]) = s.tail + _
        rw [reported_append_singleton, h.reported_eq, hsent, Nat.add_assoc]
      ticks_times := fun _ _ => h.ticks_times_send hticks }

theorem Sound.other (h : Sound Q context s) (t : τ) (time : Int64)
    {call : SerialCall} (hcall : call.isMemory) :
    Sound Q context (s.send t time call (.other call)) := by
  refine h.send t time (.other call) rfl hcall (fun u scopes => ?_)
    rfl rfl (fun u results idx cnt hpc => ?_) rfl nofun
  · exact ite_self scopes
  · exact ⟨(h.results u results idx cnt hpc).1, u, idx, hpc⟩

theorem Sound.report (h : Sound Q context s) {t : τ}
    {results : Nat → Option Int64} {idx cnt : Nat} {ticks : Int64}
    (time : Int64) (hpc : s.collector = .reporting t results idx cnt)
    (hidx : idx < cnt) (havail : results idx = some ticks) :
    Sound Q context (s.report Q context t results idx cnt ticks time) := by
  obtain ⟨-, -, hresults⟩ := h.results t results idx cnt hpc
  have htime := hresults idx hidx ticks havail
  have hfits := h.batch_fits
  rw [taken_of_reporting hpc] at hfits
  have hreported : reported s.posts = s.tail + idx := by
    rw [h.reported_eq, sent_of_reporting hpc]
  have hannounced : s.tail + idx ∈ announced s.posts := by
    refine h.times_announced _ ?_
    rw [htime]
    exact Option.some_ne_none ticks
  have hslot : Q.queryId (s.tail + idx) =
      UInt16.ofNat (s.wrappedTail Q + idx) := by
    unfold wrappedTail at hfits ⊢
    rw [QueryCount.queryId, add_mod_of_lt (by omega)]
  refine h.send t time (.gpuTime (s.tail + idx) ticks) rfl
    ⟨hreported.symm, hannounced⟩
    (fun u scopes => ?_) ?_ (taken_of_reporting hpc).symm
    (fun u results' idx' cnt' hpc' => ?_) ?_ (fun x hx => ?_)
  · exact ite_self scopes
  · rw [GpuCall.serial, hslot]
    rfl
  · obtain ⟨-, rfl, rfl, rfl⟩ := CollectPc.reporting.inj hpc'
    exact ⟨hidx, t, idx, hpc⟩
  · rw [sent_of_reporting hpc]
    rfl
  · rw [hreported, ← Option.some.inj hx]
    exact htime

theorem Sound.breakLoop (h : Sound Q context s) {t : τ}
    {results : Nat → Option Int64} {idx cnt : Nat}
    (hpc : s.collector = .reporting t results idx cnt) (hidx : idx < cnt) :
    Sound Q context (s.breakLoop t results idx cnt) := by
  obtain ⟨-, hreset, hresults⟩ := h.results t results idx cnt hpc
  have hle := h.batch_le
  have hfits := h.batch_fits
  rw [taken_of_reporting hpc] at hle hfits
  exact
    { h with
      batch_le := by
        show s.tail + idx + (cnt - idx) ≤ s.head
        omega
      batch_fits := by
        show s.wrappedTail Q + idx + (cnt - idx) ≤ Q.size
        omega
      results := fun u results' idx' cnt' hpc' => by
        obtain ⟨-, rfl, rfl, rfl⟩ := CollectPc.reporting.inj hpc'
        exact ⟨le_rfl, hreset, fun i hi => hresults i (hi.trans hidx)⟩
      reported_eq := h.reported_eq.trans (congrArg _ (sent_of_reporting hpc)) }

theorem Sound.finish (h : Sound Q context s) {t : τ}
    {results : Nat → Option Int64} {cnt : Nat}
    (hpc : s.collector = .reporting t results cnt cnt) :
    Sound Q context (s.finish Q cnt) := by
  obtain ⟨-, hreset, -⟩ := h.results t results cnt cnt hpc
  have hle := h.batch_le
  have hfits := h.batch_fits
  rw [taken_of_reporting hpc] at hle hfits
  have hwithin : s.head ≤ s.tail + Q.size := h.within
  unfold wrappedTail at hfits
  exact
    { h with
      within := h.within.finish cnt
      batch_le := hle
      batch_fits := by
        show (s.tail + cnt) % Q.size + 0 + s.oldCnt ≤ Q.size
        by_cases hold : s.oldCnt = 0
        · have hlt := Nat.mod_lt (s.tail + cnt) Q.pos
          omega
        · rw [add_mod_of_lt (by omega)]
          omega
      pool := h.pool.retire (by omega)
        (fun k _ => poolAfter_finish hreset cnt k)
        fun i hi hi' => h.times_none_of_le (by omega)
      results := nofun
      reported_eq := h.reported_eq.trans (congrArg _ (sent_of_reporting hpc)) }

theorem Sound.step (h : Sound Q context s) (hstep : TimingStep Q context s s')
    (hwithin : s'.Within Q.size) : Sound Q context s' := by
  cases hstep with
  | takeBegin srcloc hpc =>
    exact h.nextQueryId hpc rfl nofun hwithin
  | openScope time hpc => exact h.openScope time hpc
  | @takeEnd t scope hpc hscope =>
    refine h.nextQueryId hpc rfl (fun id scope' heq => ?_) hwithin
    obtain ⟨rfl, rfl⟩ := ScopePc.closing.inj heq
    exact ⟨hscope, h.scopes_lt t scope (List.mem_of_mem_head? hscope)⟩
  | closeScope time hpc => exact h.closeScope time hpc
  | other t time hcall => exact h.other t time hcall
  | execute ticks hid hreturned honce hreset =>
    exact h.execute ticks hid hreturned honce hreset
  | executeReset => exact h.executeReset
  | collect t hidle hreset hsome => exact h.collect t hidle hreset
  | report time hpc hidx havail => exact h.report time hpc hidx havail
  | breakLoop hpc hidx havail => exact h.breakLoop hpc hidx
  | finish hpc => exact h.finish hpc

/-! ## Runs -/

/-- One step of a run in which at most `bound` queries are in use. -/
def BoundedStep (Q : QueryCount) (context : UInt8) (bound : Nat)
    (s s' : Timing τ) : Prop :=
  TimingStep Q context s s' ∧ s'.Within bound

/-- The states of such runs. -/
def Reached (Q : QueryCount) (context : UInt8) (bound : Nat) :
    Timing τ → Prop :=
  ReflTransGen (BoundedStep Q context bound) (start τ)

variable {bound : Nat}

theorem Reached.sound (h : Reached Q context bound s)
    (hbound : bound ≤ Q.size) : Sound Q context s := by
  induction h with
  | refl => exact sound_start Q context
  | tail _ hstep ih =>
    exact ih.step hstep.1 (hstep.2.trans (Nat.add_le_add_left hbound _))

theorem Reached.within (h : Reached Q context bound s) : s.Within bound := by
  rcases ReflTransGen.cases_tail h with rfl | ⟨_, _, hstep⟩
  · exact Nat.zero_le _
  · exact hstep.2

/-- Two threads open a scope each, in a pool of four queries.  `Collect`
reports the first query and stops at the second one, which the GPU has not
reached. -/
def firstCollect : Timing Bool :=
  let s := (start Bool).nextQueryId true (.opening 0 7)
  let s := s.nextQueryId false (.opening 1 8)
  let s := s.openScope .four 0 false 1 8 10
  let s := s.openScope .four 0 true 0 7 11
  let s := (s.execute .four 0 90).collect .four true
  let results := fun idx => s.pool (0 + idx)
  let s := s.report .four 0 true results 0 2 90 20
  let s := (s.breakLoop true results 1 2).finish .four 1
  s.executeReset

theorem reached_firstCollect : Reached .four 0 4 firstCollect := by
  have hopened : Reached .four 0 4 _ :=
    (((ReflTransGen.refl.tail ⟨.takeBegin (t := true) 7 rfl, by decide⟩).tail
      ⟨.takeBegin (t := false) 8 rfl, by decide⟩).tail
      ⟨.openScope (t := false) 10 rfl, by decide⟩).tail
      ⟨.openScope (t := true) 11 rfl, by decide⟩
  have hwritten : Reached .four 0 4 _ :=
    hopened.tail ⟨.execute 90 (show 0 < _ by decide)
      (Bool.forall_bool.mpr ⟨nofun, nofun⟩) rfl rfl, by decide⟩
  exact ((((hwritten.tail ⟨.collect true rfl rfl (by decide), by decide⟩).tail
    ⟨.report 20 rfl (by decide) rfl, by decide⟩).tail
    ⟨.breakLoop rfl (by decide) rfl, by decide⟩).tail
    ⟨.finish rfl, by decide⟩).tail ⟨.executeReset, by decide⟩

/-- The first thread opens a scope in its first one, and the other one closes
its scope.  The last query has the slot of the first one, and the pool is
full. -/
def fullPool : Timing Bool :=
  let s := firstCollect.nextQueryId true (.opening 2 9)
  let s := s.openScope .four 0 true 2 9 21
  let s := s.nextQueryId false (.closing 3 1)
  let s := s.send true 21 (.memAlloc 128 30) (.other (.memAlloc 128 30))
  let s := s.nextQueryId true (.closing 4 2)
  let s := s.closeScope .four 0 false 3 1 22
  let s := s.closeScope .four 0 true 4 2 23
  s.send false 24 (.memFree 64) (.other (.memFree 64))

theorem reached_fullPool : Reached .four 0 4 fullPool :=
  (((((((reached_firstCollect.tail
    ⟨.takeBegin (t := true) 9 rfl, by decide⟩).tail
    ⟨.openScope (t := true) 21 rfl, by decide⟩).tail
    ⟨.takeEnd (t := false) rfl rfl, by decide⟩).tail
    ⟨.other true 21 rfl, by decide⟩).tail
    ⟨.takeEnd (t := true) rfl rfl, by decide⟩).tail
    ⟨.closeScope (t := false) 22 rfl, by decide⟩).tail
    ⟨.closeScope (t := true) 23 rfl, by decide⟩).tail
    ⟨.other false 24 rfl, by decide⟩

/-- The GPU writes the last query before the second one, and `Collect` reports
the second one. -/
def secondCollect : Timing Bool :=
  let s := (fullPool.execute .four 4 160).execute .four 1 100
  let results := fun idx => s.pool (1 + idx)
  ((s.collect .four true).report .four 0 true results 0 1 100 30).finish .four 1

theorem reached_secondCollect : Reached .four 0 4 secondCollect :=
  ((((reached_fullPool.tail
    ⟨.execute 160 (show 4 < _ by decide)
      (Bool.forall_bool.mpr ⟨nofun, nofun⟩) rfl rfl, by decide⟩).tail
    ⟨.execute 100 (show 1 < _ by decide)
      (Bool.forall_bool.mpr ⟨nofun, nofun⟩) rfl rfl, by decide⟩).tail
    ⟨.collect true rfl rfl (by decide), by decide⟩).tail
    ⟨.report 30 rfl (by decide) rfl, by decide⟩).tail ⟨.finish rfl, by decide⟩

/-- `assert( head > m_tail )`, `assert( cnt <= m_queryCount )`, and the slots
of the batch are in the pool. -/
theorem collect_bounds (h : Reached Q context Q.size s)
    (hsome : s.tail ≠ s.head) :
    s.tail < s.head ∧ s.collectCount Q ≤ Q.size ∧
      s.wrappedTail Q + s.collectCount Q ≤ Q.size ∧
      0 < s.collectCount Q := by
  have hsound := h.sound le_rfl
  have hle := hsound.batch_le
  obtain ⟨hhead, hfits⟩ := hsound.collectCount_le
  refine ⟨by omega, by omega, hfits, ?_⟩
  have hwithin : s.head ≤ s.tail + Q.size := hsound.within
  have hsize := Q.le
  have hmod : (s.head - s.tail) % 2 ^ 32 = s.head - s.tail :=
    Nat.mod_eq_of_lt (by omega)
  have hwrapped : s.wrappedTail Q < Q.size := Nat.mod_lt _ Q.pos
  rw [collectCount, hmod]
  split
  · omega
  · dsimp only
    split <;> omega

theorem collect_bounds_full_pool :
    Reached .four 0 4 fullPool ∧ fullPool.tail < fullPool.head ∧
      fullPool.collectCount .four ≤ 4 ∧
      fullPool.wrappedTail .four + fullPool.collectCount .four ≤ 4 ∧
      0 < fullPool.collectCount .four :=
  ⟨reached_fullPool, collect_bounds reached_fullPool (by decide)⟩

end Timing

end VulkanCompute.Profiler
