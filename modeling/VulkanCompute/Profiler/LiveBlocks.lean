import VulkanCompute.Profiler.Interleaving

/-!
# The log and the blocks

The log of the profiler says which addresses of a pool are open, and with
which size (`openSize`).  In every interleaving of the threads these are the
blocks: every block that the program holds is open in the pool of its domain
and in the default pool, with the size that `operator new` was called with,
and nothing else is open but what a running call has emitted so far
(`Viewed.openSize_eq_some_iff`).

`Viewed` is the invariant.  It also says that every event of the log is about
a block that `malloc` has handed out, below `2 ^ 47`.

`Rests` is about runs of whole calls, one after the other.
-/

namespace VulkanCompute.Profiler

open Lib

/-! ## Sizes in a log -/

namespace TraceEvent

def key : TraceEvent → Pool × Nat
  | .alloc pool ptr _ => (pool, ptr)
  | .free pool ptr => (pool, ptr)

/-- What is open at the key behind the event. -/
def left : TraceEvent → Option UInt64
  | .alloc _ _ size => some size
  | .free _ _ => none

end TraceEvent

/-- The size of the allocation that is open at a key. -/
def openSize (events : List TraceEvent) (key : Pool × Nat) : Option UInt64 :=
  events.foldl (fun size e => if e.key = key then e.left else size) none

theorem openSize_append_singleton (events : List TraceEvent) (e : TraceEvent)
    (key : Pool × Nat) :
    openSize (events ++ [e]) key =
      if e.key = key then e.left else openSize events key := by
  rw [openSize, List.foldl_append]
  rfl

theorem openSize_append_of_ne (events : List TraceEvent) {e : TraceEvent}
    {key : Pool × Nat} (h : e.key ≠ key) :
    openSize (events ++ [e]) key = openSize events key := by
  rw [openSize_append_singleton, if_neg h]

/-- The keys with a size are those that are held. -/
theorem isSome_openSize (events : List TraceEvent) (key : Pool × Nat) :
    (openSize events key).isSome =
      held key (events.map TraceEvent.bracket) := by
  induction events using List.reverseRecOn with
  | nil => rfl
  | append_singleton events e ih =>
    rw [openSize_append_singleton, List.map_append, List.map_singleton]
    cases e with
    | alloc pool ptr size =>
      rw [TraceEvent.bracket, held_append_acquire, ← ih]
      by_cases hkey : (pool, ptr) = key
      · simp [TraceEvent.key, TraceEvent.left, hkey]
      · simp [TraceEvent.key, hkey]
    | free pool ptr =>
      rw [TraceEvent.bracket, held_append_release, ← ih]
      by_cases hkey : (pool, ptr) = key
      · simp [TraceEvent.key, TraceEvent.left, hkey]
      · simp [TraceEvent.key, hkey]

/-! ## The events of a call -/

/-- An event about the block. -/
def Block.Emits (b : Block) (e : TraceEvent) : Prop :=
  e ∈ b.allocEvents ∨ e ∈ b.freeEvents

theorem Block.Emits.ptr {b : Block} {e : TraceEvent} (h : b.Emits e) :
    e.key.2 = b.ptr := by
  simp only [Block.Emits, Block.allocEvents, Block.freeEvents, List.mem_cons,
    List.not_mem_nil, or_false] at h
  rcases h with (rfl | rfl) | rfl | rfl <;> rfl

section Trace

variable {b : Block} {p : Process} (htracing : p.Tracing)
  {point : TracePoint} (hpoint : point ≠ .done)

include htracing hpoint

/-- The log after an access of the traced part of `AllocateImpl`. -/
theorem traceAlloc_events (hdomain : p.headerDomain b.base = b.domain) :
    (b.traceAlloc point p).2.events = p.events ∨
      ∃ e, b.Emits e ∧ (b.traceAlloc point p).2.events = p.events ++ [e] := by
  unfold Block.traceAlloc
  rw [hdomain]
  have hcases := TracePoint.step_cases htracing
    (.alloc (.named (getMemoryDomainName b.domain)) b.ptr b.count)
    (.alloc .default b.ptr b.count) hpoint
  rcases hcases with
    ⟨hp, -, -⟩ | ⟨rfl, hstep⟩ | ⟨rfl, hstep⟩
  · exact Or.inl (congrArg Process.events hp)
  · rw [hstep, Process.emit_events htracing.data]
    exact Or.inr ⟨_, Or.inl List.mem_cons_self, rfl⟩
  · rw [hstep, Process.emit_events htracing.data]
    exact Or.inr ⟨_, Or.inl (List.mem_cons_of_mem _ List.mem_cons_self), rfl⟩

theorem traceFree_events (hdomain : p.headerDomain b.base = b.domain) :
    (b.traceFree b.base point p).2.events = p.events ∨
      ∃ e, b.Emits e ∧
        (b.traceFree b.base point p).2.events = p.events ++ [e] := by
  unfold Block.traceFree
  rw [hdomain]
  have hcases := TracePoint.step_cases htracing
    (.free (.named (getMemoryDomainName b.domain)) b.ptr)
    (.free .default b.ptr) hpoint
  rcases hcases with
    ⟨hp, -, -⟩ | ⟨rfl, hstep⟩ | ⟨rfl, hstep⟩
  · exact Or.inl (congrArg Process.events hp)
  · rw [hstep, Process.emit_events htracing.data]
    exact Or.inr ⟨_, Or.inr List.mem_cons_self, rfl⟩
  · rw [hstep, Process.emit_events htracing.data]
    exact Or.inr ⟨_, Or.inr (List.mem_cons_of_mem _ List.mem_cons_self), rfl⟩

/-- The keys that an allocation has opened have its size. -/
theorem traceAlloc_sizes (hdomain : p.headerDomain b.base = b.domain)
    (h : ∀ key, (Pc.traceAlloc b point).Opens key →
      openSize p.events key = some b.count) {key : Pool × Nat}
    (hopens : (Pc.traceAlloc b (b.traceAlloc point p).1).Opens key) :
    openSize (b.traceAlloc point p).2.events key = some b.count := by
  unfold Block.traceAlloc at hopens ⊢
  rw [hdomain] at hopens ⊢
  have hcases := TracePoint.step_cases htracing
    (.alloc (.named (getMemoryDomainName b.domain)) b.ptr b.count)
    (.alloc .default b.ptr b.count) hpoint
  rcases hcases with
    ⟨hp, hnamed, hdefault⟩ | ⟨rfl, hstep⟩ | ⟨rfl, hstep⟩
  · rw [hp]
    apply h
    simp only [Pc.Opens, hnamed, hdefault] at hopens
    exact hopens
  · rw [hstep] at hopens
    rw [hstep, Process.emit_events htracing.data, openSize_append_singleton]
    rcases hopens with ⟨-, rfl⟩ | ⟨hdone, -⟩
    · exact if_pos rfl
    · exact TracePoint.noConfusion hdone
  · rw [hstep] at hopens
    rw [hstep, Process.emit_events htracing.data, openSize_append_singleton]
    rcases hopens with ⟨-, rfl⟩ | ⟨-, rfl⟩
    · exact (if_neg b.namedKey_ne_defaultKey.symm).trans
        (h _ (Or.inl ⟨trivial, rfl⟩))
    · exact if_pos rfl

/-- The keys that a deallocation has not closed keep their size. -/
theorem traceFree_sizes (hdomain : p.headerDomain b.base = b.domain)
    (h : ∀ key, (Pc.traceFree b b.base point).Opens key →
      openSize p.events key = some b.count) {key : Pool × Nat}
    (hopens :
      (Pc.traceFree b b.base (b.traceFree b.base point p).1).Opens key) :
    openSize (b.traceFree b.base point p).2.events key = some b.count := by
  unfold Block.traceFree at hopens ⊢
  rw [hdomain] at hopens ⊢
  have hcases := TracePoint.step_cases htracing
    (.free (.named (getMemoryDomainName b.domain)) b.ptr)
    (.free .default b.ptr) hpoint
  rcases hcases with
    ⟨hp, hnamed, hdefault⟩ | ⟨rfl, hstep⟩ | ⟨rfl, hstep⟩
  · rw [hp]
    apply h
    simp only [Pc.Opens, hnamed, hdefault] at hopens
    exact hopens
  · rw [hstep] at hopens
    rw [hstep, Process.emit_events htracing.data, openSize_append_singleton]
    rcases hopens with ⟨hdone, -⟩ | ⟨-, rfl⟩
    · exact absurd trivial hdone
    · exact (if_neg b.namedKey_ne_defaultKey).trans
        (h _ (Or.inr ⟨TracePoint.noConfusion, rfl⟩))
  · rw [hstep] at hopens
    rcases hopens with ⟨hdone, -⟩ | ⟨hdone, -⟩
    · exact absurd trivial hdone
    · exact absurd rfl hdone

end Trace

/-! ## The invariant -/

/-- The addresses of a user program. -/
def Grant.Low (g : Grant) : Prop := g.base + g.size ≤ 2 ^ 47

def Action.Low : Action → Prop
  | .new _ grant _ => grant.Low
  | _ => True

namespace Machine

variable {τ : Type*} {s s' : Machine τ}

/-- The key is open for the block. -/
def OpenedBy (s : Machine τ) (b : Block) (key : Pool × Nat) : Prop :=
  b ∈ s.live ∧ b.Opens key ∨
    ∃ t, (s.pc t).block? = some b ∧ (s.pc t).Opens key

theorem open_iff_openedBy (s : Machine τ) (key : Pool × Nat) :
    s.Open key ↔ ∃ b, s.OpenedBy b key := by
  constructor
  · rintro (⟨b, hb, hopens⟩ | ⟨t, hopens⟩)
    · exact ⟨b, Or.inl ⟨hb, hopens⟩⟩
    · obtain ⟨b, hb, -⟩ := hopens.ptr
      exact ⟨b, Or.inr ⟨t, hb, hopens⟩⟩
  · rintro ⟨b, ⟨hb, hopens⟩ | ⟨t, -, hopens⟩⟩
    · exact Or.inl ⟨b, hb, hopens⟩
    · exact Or.inr ⟨t, hopens⟩

structure Viewed (s : Machine τ) : Prop where
  safe : Safe s
  sizes : ∀ b key, s.OpenedBy b key →
    openSize s.process.events key = some b.count
  low : ∀ o b, s.Holds o b → b.Low
  events : ∀ e ∈ s.process.events, ∃ b : Block, b.Proper ∧ b.Low ∧ b.Emits e

variable {t : τ} {b : Block}

/-! ### A thread goes on with its block -/

/-- The events about a block leave the keys of the others. -/
theorem Viewed.sizes_of_openElse (h : Viewed s)
    (hb : (s.pc t).block? = some b) {process : Process}
    (hevents : process.events = s.process.events ∨
      ∃ e, b.Emits e ∧ process.events = s.process.events ++ [e])
    {c : Block} {key : Pool × Nat} (helse : s.OpenElse t key)
    (hopened : s.OpenedBy c key) :
    openSize process.events key = some c.count := by
  have hsize := h.sizes c key hopened
  rcases hevents with hsame | ⟨e, he, hnew⟩
  · rw [hsame]
    exact hsize
  · rw [hnew, openSize_append_of_ne, hsize]
    intro heq
    exact h.safe.ptr_ne hb helse (heq ▸ he.ptr)

theorem Viewed.events_goto (h : Viewed s) (hb : (s.pc t).block? = some b)
    {process : Process}
    (hevents : process.events = s.process.events ∨
      ∃ e, b.Emits e ∧ process.events = s.process.events ++ [e])
    {e : TraceEvent} (he : e ∈ process.events) :
    ∃ c : Block, c.Proper ∧ c.Low ∧ c.Emits e := by
  rcases hevents with hsame | ⟨e', he', hnew⟩
  · exact h.events e (hsame ▸ he)
  · rw [hnew] at he
    rcases List.mem_append.mp he with hold | hlast
    · exact h.events e hold
    · rw [List.mem_singleton.mp hlast]
      exact ⟨b, h.safe.proper (some t) b hb, h.low (some t) b hb, he'⟩

/-- The block of a thread at a step of its call. -/
theorem Viewed.sizes_at (h : Viewed s) (hb : (s.pc t).block? = some b)
    {key : Pool × Nat} (hopens : (s.pc t).Opens key) :
    openSize s.process.events key = some b.count :=
  h.sizes b key (Or.inr ⟨t, hb, hopens⟩)

variable [DecidableEq τ]

/-- The thread goes on with its block. -/
theorem Viewed.goto (h : Viewed s) {pc : Pc} (process : Process)
    (hb : (s.pc t).block? = some b) (hblock : pc.block? = some b)
    (hsafe : Safe { s.goto t pc with process := process })
    (hevents : process.events = s.process.events ∨
      ∃ e, b.Emits e ∧ process.events = s.process.events ++ [e])
    (hown : ∀ key, pc.Opens key →
      openSize process.events key = some b.count) :
    Viewed { s.goto t pc with process := process } where
  safe := hsafe
  sizes := by
    rintro c key (⟨hc, hopens⟩ | ⟨u, hc, hopens⟩)
    · exact h.sizes_of_openElse hb hevents (Or.inl ⟨c, hc, hopens⟩)
        (Or.inl ⟨hc, hopens⟩)
    · change ((s.goto t pc).pc u).block? = some c at hc
      change ((s.goto t pc).pc u).Opens key at hopens
      by_cases hu : u = t
      · subst hu
        rw [goto_pc_self] at hc hopens
        obtain rfl := Option.some.inj (hblock.symm.trans hc)
        exact hown key hopens
      · rw [goto_pc_of_ne s pc hu] at hc hopens
        exact h.sizes_of_openElse hb hevents (Or.inr ⟨u, hu, hopens⟩)
          (Or.inr ⟨u, hc, hopens⟩)
  low := fun o c hc =>
    h.low o c ((holds_goto s (hblock.trans hb.symm) o c).mp hc)
  events := fun _ => h.events_goto hb hevents

/-! ### Blocks move -/

omit [DecidableEq τ] in
/-- Only memory and the stacks of domains change. -/
theorem Viewed.same (h : Viewed s) (hsafe : Safe s')
    (hevents : s'.process.events = s.process.events) (hpc : s'.pc = s.pc)
    (hlive : s'.live = s.live) : Viewed s' where
  safe := hsafe
  sizes := fun c key hc => by
    rw [OpenedBy, hpc, hlive] at hc
    exact hevents ▸ h.sizes c key hc
  low := fun o c hc => by
    refine h.low o c ?_
    cases o with
    | none =>
      show c ∈ s.live
      rw [← hlive]
      exact hc
    | some u =>
      show (s.pc u).block? = some c
      rw [← hpc]
      exact hc
  events := fun e he => h.events e (hevents ▸ he)

/-- A block goes to a thread or comes back from it, and nothing is emitted. -/
theorem Viewed.move (h : Viewed s) {pc : Pc} (live : Finset Block)
    (process : Process)
    (hsafe : Safe { s.goto t pc with live := live, process := process })
    (hevents : process.events = s.process.events)
    (hlive : ∀ c ∈ live, c.Low ∧ ∀ key, c.Opens key → s.OpenedBy c key)
    (hpc : ∀ c, pc.block? = some c →
      c.Low ∧ ∀ key, pc.Opens key → s.OpenedBy c key) :
    Viewed { s.goto t pc with live := live, process := process } where
  safe := hsafe
  sizes := by
    rintro c key (⟨hc, hopens⟩ | ⟨u, hc, hopens⟩)
    · exact hevents ▸ h.sizes c key ((hlive c hc).2 key hopens)
    · change ((s.goto t pc).pc u).block? = some c at hc
      change ((s.goto t pc).pc u).Opens key at hopens
      by_cases hu : u = t
      · subst hu
        rw [goto_pc_self] at hc hopens
        exact hevents ▸ h.sizes c key ((hpc c hc).2 key hopens)
      · rw [goto_pc_of_ne s pc hu] at hc hopens
        exact hevents ▸ h.sizes c key (Or.inr ⟨u, hc, hopens⟩)
  low := fun o c hc => by
    cases o with
    | none => exact (hlive c hc).1
    | some u =>
      change ((s.goto t pc).pc u).block? = some c at hc
      by_cases hu : u = t
      · subst hu
        rw [goto_pc_self] at hc
        exact (hpc c hc).1
      · rw [goto_pc_of_ne s pc hu] at hc
        exact h.low (some u) c hc
  events := fun e he => h.events e (hevents ▸ he)

omit [DecidableEq τ] in
/-- The blocks of the program are low, and hold their keys. -/
theorem Viewed.of_mem_live (h : Viewed s) {c : Block} (hc : c ∈ s.live) :
    c.Low ∧ ∀ key, c.Opens key → s.OpenedBy c key :=
  ⟨h.low none c hc, fun _ hopens => Or.inl ⟨hc, hopens⟩⟩

/-! ### The steps of a call -/

section Steps

variable (h : Viewed s)

include h

theorem Viewed.new {grant : Grant} (hlow : grant.Low) (process : Process)
    (hevents : process.events = s.process.events)
    (hsafe : Safe { s.goto t (.stampHeader (s.block t grant)) with
      process := process }) :
    Viewed { s.goto t (.stampHeader (s.block t grant)) with
      process := process } := by
  refine h.move s.live process hsafe hevents (fun _ => h.of_mem_live)
    fun c hc => ⟨?_, fun key hopens => absurd hopens id⟩
  rw [← Option.some.inj hc]
  exact hlow

theorem Viewed.returnNew (hpc : s.pc t = .traceAlloc b .done)
    (hsafe : Safe { s.goto t .idle with live := insert b s.live }) :
    Viewed { s.goto t .idle with live := insert b s.live } := by
  have hb : (s.pc t).block? = some b := congrArg Pc.block? hpc
  refine h.move _ s.process hsafe rfl (fun c hc => ?_)
    fun c hc => absurd hc nofun
  rcases Finset.mem_insert.mp hc with rfl | hold
  · refine ⟨h.low (some t) c hb, fun key hopens => Or.inr ⟨t, hb, ?_⟩⟩
    rw [hpc]
    exact hopens.imp (⟨trivial, ·⟩) (⟨rfl, ·⟩)
  · exact h.of_mem_live hold

theorem Viewed.delete (hb : b ∈ s.live)
    (hsafe : Safe { s.goto t (.loadPrefix b) with live := s.live.erase b }) :
    Viewed { s.goto t (.loadPrefix b) with live := s.live.erase b } := by
  refine h.move _ s.process hsafe rfl
    (fun c hc => h.of_mem_live (Finset.mem_of_mem_erase hc)) fun c hc => ?_
  obtain rfl := Option.some.inj hc
  exact h.of_mem_live hb

theorem Viewed.storePrefix (hpc : s.pc t = .storePrefix b) {process : Process}
    (hevents : process.events = s.process.events)
    (hsafe : Safe { s.goto t (.traceAlloc b .loadFlag) with
      process := process }) :
    Viewed { s.goto t (.traceAlloc b .loadFlag) with process := process } := by
  have hb : (s.pc t).block? = some b := congrArg Pc.block? hpc
  refine h.goto process hb rfl hsafe (Or.inl hevents) fun _ hopens => ?_
  rcases hopens with ⟨hdone, -⟩ | ⟨hdone, -⟩
  · exact absurd hdone id
  · exact TracePoint.noConfusion hdone

theorem Viewed.traceAlloc {point : TracePoint}
    (hpc : s.pc t = .traceAlloc b point) (hpoint : point ≠ .done)
    (hsafe : Safe
      { s.goto t (.traceAlloc b (b.traceAlloc point s.process).1) with
        process := (b.traceAlloc point s.process).2 }) :
    Viewed { s.goto t (.traceAlloc b (b.traceAlloc point s.process).1) with
      process := (b.traceAlloc point s.process).2 } := by
  have hb : (s.pc t).block? = some b := congrArg Pc.block? hpc
  have hstamped : Stamped s.process.memory b := h.safe.ready_at hpc
  have hdomain := hstamped.headerDomain
  have hsizes : ∀ key, (Pc.traceAlloc b point).Opens key →
      openSize s.process.events key = some b.count :=
    fun key hopens => h.sizes_at hb (hpc ▸ hopens)
  exact h.goto _ hb rfl hsafe
    (traceAlloc_events h.safe.tracing hpoint hdomain)
    fun key => traceAlloc_sizes h.safe.tracing hpoint hdomain hsizes

theorem Viewed.loadPrefix (hpc : s.pc t = .loadPrefix b) (base : Nat)
    (hsafe : Safe (s.goto t (.traceFree b base .loadFlag))) :
    Viewed (s.goto t (.traceFree b base .loadFlag)) := by
  have hb : (s.pc t).block? = some b := congrArg Pc.block? hpc
  refine h.goto s.process hb rfl hsafe (Or.inl rfl) fun key hopens => ?_
  have hopens' : (s.pc t).Opens key := by
    rw [hpc]
    exact hopens.imp And.right And.right
  exact h.sizes_at hb hopens'

theorem Viewed.traceFree {base : Nat} {point : TracePoint}
    (hpc : s.pc t = .traceFree b base point) (hpoint : point ≠ .done)
    (hsafe : Safe
      { s.goto t (.traceFree b base (b.traceFree base point s.process).1) with
        process := (b.traceFree base point s.process).2 }) :
    Viewed
      { s.goto t (.traceFree b base (b.traceFree base point s.process).1) with
        process := (b.traceFree base point s.process).2 } := by
  have hb : (s.pc t).block? = some b := congrArg Pc.block? hpc
  have hready := h.safe.ready_at hpc
  obtain ⟨rfl, hstamped⟩ := hready
  have hdomain := hstamped.headerDomain
  have hsizes : ∀ key, (Pc.traceFree b b.base point).Opens key →
      openSize s.process.events key = some b.count :=
    fun key hopens => h.sizes_at hb (hpc ▸ hopens)
  exact h.goto _ hb rfl hsafe
    (traceFree_events h.safe.tracing hpoint hdomain)
    fun key => traceFree_sizes h.safe.tracing hpoint hdomain hsizes

end Steps

theorem Viewed.step (h : Viewed s) {a : Action} (hpromised : s.Promised t a)
    (hlow : a.Low) (hstep : ThreadStep t s a s') : Viewed s' := by
  have hsafe : Safe s' := h.safe.step hpromised hstep
  cases hstep with
  | new hidle _ => exact h.new hlow _ rfl hsafe
  | @stampHeader b hpc =>
    exact h.goto _ (congrArg Pc.block? hpc) rfl hsafe (Or.inl rfl)
      fun _ hopens => absurd hopens id
  | storePrefix hpc => exact h.storePrefix hpc rfl hsafe
  | traceAlloc hpc hpoint => exact h.traceAlloc hpc hpoint hsafe
  | returnNew hpc => exact h.returnNew hpc hsafe
  | delete hidle hptr => exact h.delete hpromised hsafe
  | loadPrefix hpc => exact h.loadPrefix hpc _ hsafe
  | traceFree hpc hpoint => exact h.traceFree hpc hpoint hsafe
  | free hpc =>
    exact h.move s.live _ hsafe rfl (fun _ => h.of_mem_live)
      fun c hc => absurd hc nofun
  | write _ => exact h.same hsafe rfl rfl rfl
  | push _ _ => exact h.same hsafe rfl rfl rfl
  | pop _ => exact h.same hsafe rfl rfl rfl

/-! ## Runs -/

/-- A step in which `malloc` hands out a block of a user program. -/
def LowStep (s s' : Machine τ) : Prop :=
  ∃ t a, s.Promised t a ∧ a.Low ∧ ThreadStep t s a s'

theorem viewed_start (τ : Type*) (memory : Bytes) :
    Viewed (start τ memory) where
  safe := safe_start τ memory
  sizes := fun b key hopened => by
    rcases hopened with ⟨hb, -⟩ | ⟨t, hb, -⟩
    · exact absurd hb (Finset.notMem_empty b)
    · exact absurd hb nofun
  low := fun o b hb => absurd hb (not_holds_start memory o b)
  events := fun e he => absurd he List.not_mem_nil

omit [DecidableEq τ] in
/-- The log has the open keys, with the sizes of their blocks. -/
theorem Viewed.openSize_eq_some_iff (h : Viewed s) (key : Pool × Nat)
    (size : UInt64) :
    openSize s.process.events key = some size ↔
      ∃ b, s.OpenedBy b key ∧ b.count = size := by
  constructor
  · intro hsize
    have hheld : held key (s.process.events.map TraceEvent.bracket) = true := by
      rw [← isSome_openSize, hsize]
      rfl
    obtain ⟨b, hb⟩ :=
      (open_iff_openedBy s key).mp ((h.safe.log.held_iff key).mp hheld)
    exact ⟨b, hb, Option.some.inj ((h.sizes b key hb).symm.trans hsize)⟩
  · rintro ⟨b, hb, rfl⟩
    exact h.sizes b key hb

omit [DecidableEq τ] in
/-- Between the calls the blocks of the program are open. -/
theorem openedBy_of_idle (hidle : ∀ t, s.pc t = .idle) (b : Block)
    (key : Pool × Nat) : s.OpenedBy b key ↔ b ∈ s.live ∧ b.Opens key := by
  refine or_iff_left ?_
  rintro ⟨t, hb, -⟩
  rw [hidle t] at hb
  exact absurd hb nofun

theorem viewed_of_reachable {memory : Bytes}
    (h : Relation.ReflTransGen LowStep (start τ memory) s) : Viewed s := by
  induction h with
  | refl => exact viewed_start τ memory
  | tail _ hstep ih =>
    obtain ⟨t, a, hpromised, hlow, hstep⟩ := hstep
    exact ih.step hpromised hlow hstep

/-! ## Calls without interruption -/

/-- A run comes to a state in which no thread is in a call, with these events,
blocks and stacks of domains. -/
def Rests (memory : Bytes) (events : List TraceEvent) (live : Finset Block)
    (domains : τ → DomainStack) : Prop :=
  ∃ s, Relation.ReflTransGen LowStep (start τ memory) s ∧
    (∀ t, s.pc t = .idle) ∧ s.process.events = events ∧ s.live = live ∧
    s.domains = domains

theorem rests_start (τ : Type*) [DecidableEq τ] (memory : Bytes) :
    Rests memory [] ∅ fun _ : τ => .fresh :=
  ⟨_, .refl, fun _ => rfl, rfl, rfl, rfl⟩

section Rests

variable {memory : Bytes} {events : List TraceEvent} {live : Finset Block}
  {domains : τ → DomainStack} (h : Rests memory events live domains)

include h

/-- `operator new`. -/
theorem Rests.new (t : τ) (form : NewForm) {b : Block} (hproper : b.Proper)
    (hlow : b.Low) (halignment : b.alignment = form.alignment)
    (hdomain : b.domain = getCurrentDomain (domains t))
    (hapart : ∀ c ∈ live, b.Apart c.toGrant) :
    Rests memory (events ++ b.allocEvents) (insert b live) domains := by
  obtain ⟨s, hreach, hidle, rfl, rfl, rfl⟩ := h
  have hsafe := (viewed_of_reachable hreach).safe
  have hblock : s.block t b.toGrant = b := by
    rw [block, ← hdomain]
  have hpromised : s.Promised t (.new form b.toGrant s.process.memory) := by
    refine ⟨hproper, fun o c hc => ⟨?_, fun _ _ => rfl⟩⟩
    cases o with
    | none => exact hapart c hc
    | some u =>
      have hpc : (s.pc u).block? = some c := hc
      rw [hidle u] at hpc
      exact absurd hpc nofun
  have hsteps := runs_new (R := LowStep)
    (fun _ _ hstep => ⟨t, .next, trivial, trivial, hstep⟩) (hidle t) halignment
    ⟨t, _, hpromised, hlow, .new (hidle t) halignment⟩
  rw [hblock] at hsteps
  have hevents := allocateImpl_events hproper hdomain s.process.memory
    s.process hsafe.tracing.started hsafe.tracing.data
  rw [if_pos hsafe.tracing.active] at hevents
  refine ⟨_, hreach.trans hsteps, hidle, ?_, rfl, rfl⟩
  rw [← hevents, operatorNew_eq, ← halignment]

/-- `operator delete`. -/
theorem Rests.delete (t : τ) (form : DeleteForm) {b : Block} (hb : b ∈ live) :
    Rests memory (events ++ b.freeEvents) (live.erase b) domains := by
  obtain ⟨s, hreach, hidle, rfl, rfl, rfl⟩ := h
  have hsafe := (viewed_of_reachable hreach).safe
  have hproper := hsafe.proper none b hb
  have hptr : b.ptr ≠ 0 := hproper.ptr_ne_zero
  have hfree : ∀ r r' : Machine τ, r.process.memory = s.process.memory →
      ThreadStep t r (.free s.process.memory) r' → LowStep r r' := by
    intro r r' hmemory hstep
    refine ⟨t, .free _, fun _ _ _ _ x _ => ?_, trivial, hstep⟩
    rw [hmemory]
  have hsteps := runs_delete (R := LowStep)
    (fun _ _ hstep => ⟨t, .next, trivial, trivial, hstep⟩) form (hidle t) hptr
    ⟨t, .delete form b, hb, trivial, .delete (hidle t) hptr⟩ hfree
  have hevents := freeImpl_events hproper s.process.memory
    (hsafe.stamped b hb) hsafe.tracing.started hsafe.tracing.data
  rw [if_pos hsafe.tracing.active] at hevents
  refine ⟨_, hreach.trans hsteps, hidle, ?_, rfl, rfl⟩
  rw [← hevents, operatorDelete_eq]

/-- `PushMemoryDomain`. -/
theorem Rests.push (t : τ) {id : MemoryDomain} {domains' : DomainStack}
    (hpush : pushMemoryDomain id (domains t) = some domains') :
    Rests memory events live (Function.update domains t domains') := by
  obtain ⟨s, hreach, hidle, rfl, rfl, rfl⟩ := h
  exact ⟨_, hreach.tail
    ⟨t, .push id, trivial, trivial, .push (hidle t) hpush⟩, hidle, rfl, rfl, rfl⟩

end Rests

end Machine

end VulkanCompute.Profiler
