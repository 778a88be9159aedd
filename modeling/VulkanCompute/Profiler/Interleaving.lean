import VulkanCompute.Profiler.Threads

/-!
# The trace of all threads

The profiler is started and tracing is active.  In every interleaving of the
threads, every pool sees every address allocated and freed in turns
(`log_alternates`).

Every block has one holder at a time: the program, or the thread that
allocates or deletes it (`Machine.Holds`).  `Safe` is the invariant.

* Blocks with different holders do not overlap, so their pointers differ.
* A thread finds in memory what it needs for its next access (`Pc.Ready`).
* The keys that are open in the log are those that the holders stand for
  (`Machine.Open`): both keys of a block that the program holds, and what the
  thread has emitted so far for the others.

`malloc` may hand out a block again only when no thread holds it, and at that
moment both of its keys are closed.
-/

namespace VulkanCompute.Profiler

open Lib

/-! ## The traced part -/

/-- The flags under which every call is traced. -/
structure Process.Tracing (p : Process) : Prop where
  active : p.tracyActive
  started : p.profilerStarted
  data : p.profilerData

theorem Process.Tracing.set_memory {p : Process} (h : p.Tracing)
    (memory : Bytes) (calls : List HeapCall) :
    Tracing { p with memory := memory, calls := calls } :=
  ⟨h.active, h.started, h.data⟩

/-- The event of the named pool is in the log. -/
def TracePoint.NamedDone : TracePoint → Prop
  | .loadFlag => False
  | .checkNamed => False
  | .emitNamed => False
  | .checkDefault => True
  | .emitDefault => True
  | .done => True

/-- The event of the default pool is in the log. -/
def TracePoint.DefaultDone (point : TracePoint) : Prop := point = .done

/-- The keys of its block that are open in the log while a thread stands at
`pc`. -/
def Pc.Opens : Pc → Pool × Nat → Prop
  | .idle, _ => False
  | .stampHeader _, _ => False
  | .storePrefix _, _ => False
  | .traceAlloc b point, key =>
    point.NamedDone ∧ key = b.namedKey ∨
      point.DefaultDone ∧ key = b.defaultKey
  | .loadPrefix b, key => b.Opens key
  | .traceFree b _ point, key =>
    ¬point.NamedDone ∧ key = b.namedKey ∨
      ¬point.DefaultDone ∧ key = b.defaultKey

theorem Pc.Opens.ptr {pc : Pc} {key : Pool × Nat} (h : pc.Opens key) :
    ∃ b, pc.block? = some b ∧ key.2 = b.ptr := by
  cases pc with
  | idle => exact absurd h id
  | stampHeader b => exact absurd h id
  | storePrefix b => exact absurd h id
  | traceAlloc b point => exact ⟨b, rfl, Block.Opens.ptr (h.imp And.right And.right)⟩
  | loadPrefix b => exact ⟨b, rfl, Block.Opens.ptr h⟩
  | traceFree b base point =>
    exact ⟨b, rfl, Block.Opens.ptr (h.imp And.right And.right)⟩

theorem TracePoint.step_tracing {p : Process} (h : p.Tracing)
    (named default : TraceEvent) (point : TracePoint) :
    (point.step named default p).2.Tracing where
  active := (point.step_frame (·.tracyActive) Process.emit_tracyActive
    named default p) ▸ h.active
  started := (point.step_frame (·.profilerStarted)
    Process.emit_profilerStarted named default p) ▸ h.started
  data := (point.step_frame (·.profilerData) Process.emit_profilerData
    named default p) ▸ h.data

/-- While everything is traced, an access emits nothing and finishes no event,
or it emits one of the two events. -/
theorem TracePoint.step_cases {p : Process} (h : p.Tracing)
    (named default : TraceEvent) {point : TracePoint} (hpoint : point ≠ .done) :
    ((point.step named default p).2 = p ∧
      ((point.step named default p).1.NamedDone ↔ point.NamedDone) ∧
      ((point.step named default p).1.DefaultDone ↔ point.DefaultDone)) ∨
    (point = .emitNamed ∧
      point.step named default p = (.checkDefault, p.emit named)) ∨
    (point = .emitDefault ∧
      point.step named default p = (.done, p.emit default)) := by
  cases point with
  | loadFlag => simp [step, NamedDone, DefaultDone, h.active]
  | checkNamed => simp [step, NamedDone, DefaultDone, h.started]
  | emitNamed => exact Or.inr (Or.inl ⟨rfl, rfl⟩)
  | checkDefault => simp [step, NamedDone, DefaultDone, h.started]
  | emitDefault => exact Or.inr (Or.inr ⟨rfl, rfl⟩)
  | done => exact absurd rfl hpoint

section Log

variable {b : Block} {p : Process} (htracing : p.Tracing)
  {F : Pool × Nat → Prop} (hF : ∀ key, F key → key.2 ≠ b.ptr)

include htracing hF

/-- The allocation opens its keys one by one. -/
theorem traceAlloc_log (hdomain : p.headerDomain b.base = b.domain)
    {point : TracePoint} (hpoint : point ≠ .done)
    (h : Tracks (p.events.map TraceEvent.bracket) fun key =>
      F key ∨ (Pc.traceAlloc b point).Opens key) :
    Tracks ((b.traceAlloc point p).2.events.map TraceEvent.bracket) fun key =>
      F key ∨ (Pc.traceAlloc b (b.traceAlloc point p).1).Opens key := by
  unfold Block.traceAlloc
  rw [hdomain]
  rcases TracePoint.step_cases htracing _ _ hpoint with
    ⟨hp, hnamed, hdefault⟩ | ⟨rfl, hstep⟩ | ⟨rfl, hstep⟩
  · rw [hp]
    apply h.congr
    intro key
    simp only [Pc.Opens, hnamed, hdefault]
  · have hclosed : ¬(Pc.traceAlloc b .emitNamed).Opens b.namedKey := by
      intro hopens
      rcases hopens with ⟨hdone, _⟩ | ⟨hdone, _⟩
      · exact hdone
      · exact TracePoint.noConfusion hdone
    have hlog := h.acquire_frame (fun hkey => hF b.namedKey hkey rfl) hclosed
    rw [hstep, Process.emit_events htracing.data, List.map_append]
    apply hlog.congr
    intro key
    simp [Pc.Opens, TracePoint.NamedDone, TracePoint.DefaultDone]
  · have hclosed : ¬(Pc.traceAlloc b .emitDefault).Opens b.defaultKey := by
      intro hopens
      rcases hopens with ⟨_, heq⟩ | ⟨hdone, _⟩
      · exact b.namedKey_ne_defaultKey heq.symm
      · exact TracePoint.noConfusion hdone
    have hlog := h.acquire_frame (fun hkey => hF b.defaultKey hkey rfl) hclosed
    rw [hstep, Process.emit_events htracing.data, List.map_append]
    apply hlog.congr
    intro key
    simp [Pc.Opens, TracePoint.NamedDone, TracePoint.DefaultDone, or_comm]

/-- The deallocation closes them one by one. -/
theorem traceFree_log (hdomain : p.headerDomain b.base = b.domain)
    {point : TracePoint} (hpoint : point ≠ .done)
    (h : Tracks (p.events.map TraceEvent.bracket) fun key =>
      F key ∨ (Pc.traceFree b b.base point).Opens key) :
    Tracks ((b.traceFree b.base point p).2.events.map TraceEvent.bracket)
      fun key =>
        F key ∨
          (Pc.traceFree b b.base (b.traceFree b.base point p).1).Opens key := by
  unfold Block.traceFree
  rw [hdomain]
  rcases TracePoint.step_cases htracing _ _ hpoint with
    ⟨hp, hnamed, hdefault⟩ | ⟨rfl, hstep⟩ | ⟨rfl, hstep⟩
  · rw [hp]
    apply h.congr
    intro key
    simp only [Pc.Opens, hnamed, hdefault]
  · have hopen : (Pc.traceFree b b.base .emitNamed).Opens b.namedKey :=
      Or.inl ⟨id, rfl⟩
    have hlog := h.release_frame (fun hkey => hF b.namedKey hkey rfl) hopen
    rw [hstep, Process.emit_events htracing.data, List.map_append]
    apply hlog.congr
    intro key
    have hne := b.namedKey_ne_defaultKey
    simp [Pc.Opens, TracePoint.NamedDone, TracePoint.DefaultDone]
    grind
  · have hopen : (Pc.traceFree b b.base .emitDefault).Opens b.defaultKey :=
      Or.inr ⟨TracePoint.noConfusion, rfl⟩
    have hlog := h.release_frame (fun hkey => hF b.defaultKey hkey rfl) hopen
    rw [hstep, Process.emit_events htracing.data, List.map_append]
    apply hlog.congr
    intro key
    simp [Pc.Opens, TracePoint.NamedDone, TracePoint.DefaultDone]

end Log

/-! ## Holders -/

namespace Machine

variable {τ : Type*}

/-- The holder of a block: the program (`none`), or the thread that allocates
or deletes it. -/
def Holds (s : Machine τ) : Option τ → Block → Prop
  | none, b => b ∈ s.live
  | some t, b => (s.pc t).block? = some b

/-- The given memory agrees with that of the process on a block. -/
def Keeps (s : Machine τ) (memory : Bytes) (b : Block) : Prop :=
  ∀ x, b.Owns x → memory x = s.process.memory x

/-- What is promised to the allocator. -/
def Promised (s : Machine τ) (t : τ) : Action → Prop
  | .new _ grant memory =>
    grant.Proper ∧
      ∀ o b, s.Holds o b → grant.Apart b.toGrant ∧ s.Keeps memory b
  | .delete _ b => b ∈ s.live
  | .free memory => ∀ o b, s.Holds o b → o ≠ some t → s.Keeps memory b
  | .next => True
  | .write addr _ => ∃ b ∈ s.live, b.InPayload addr
  | .push _ => True
  | .pop => True

/-- The keys that are open in the log. -/
def Open (s : Machine τ) (key : Pool × Nat) : Prop :=
  (∃ b ∈ s.live, b.Opens key) ∨ ∃ t, (s.pc t).Opens key

/-- The keys that are open without the thread `t`. -/
def OpenElse (s : Machine τ) (t : τ) (key : Pool × Nat) : Prop :=
  (∃ b ∈ s.live, b.Opens key) ∨ ∃ u, u ≠ t ∧ (s.pc u).Opens key

theorem open_iff (s : Machine τ) (t : τ) (key : Pool × Nat) :
    s.Open key ↔ s.OpenElse t key ∨ (s.pc t).Opens key := by
  constructor
  · intro hopen
    rcases hopen with hlive | ⟨u, hu⟩
    · exact Or.inl (Or.inl hlive)
    · by_cases hut : u = t
      · exact Or.inr (hut ▸ hu)
      · exact Or.inl (Or.inr ⟨u, hut, hu⟩)
  · intro hopen
    rcases hopen with (hlive | ⟨u, _, hu⟩) | ht
    · exact Or.inl hlive
    · exact Or.inr ⟨u, hu⟩
    · exact Or.inr ⟨t, ht⟩

section Goto

variable [DecidableEq τ]

/-- The keys of the other threads stay as they are. -/
theorem opens_goto_of_ne (s : Machine τ) (t : τ) (pc : Pc) (key : Pool × Nat) :
    (∃ u, u ≠ t ∧ ((s.goto t pc).pc u).Opens key) ↔
      ∃ u, u ≠ t ∧ (s.pc u).Opens key := by
  apply exists_congr
  intro u
  apply and_congr_right
  intro hu
  rw [goto_pc_of_ne s pc hu]

theorem open_goto (s : Machine τ) (t : τ) (pc : Pc) (key : Pool × Nat) :
    (s.goto t pc).Open key ↔ s.OpenElse t key ∨ pc.Opens key := by
  rw [open_iff _ t, goto_pc_self]
  apply or_congr_left
  apply or_congr_right
  exact opens_goto_of_ne s t pc key

theorem holds_goto_self (s : Machine τ) (t : τ) (pc : Pc) (b : Block) :
    (s.goto t pc).Holds (some t) b ↔ pc.block? = some b := by
  show ((s.goto t pc).pc t).block? = some b ↔ _
  rw [goto_pc_self]

theorem holds_goto_of_ne (s : Machine τ) {t : τ} (pc : Pc) {o : Option τ}
    (ho : o ≠ some t) (b : Block) :
    (s.goto t pc).Holds o b ↔ s.Holds o b := by
  cases o with
  | none => exact Iff.rfl
  | some u =>
    show ((s.goto t pc).pc u).block? = some b ↔ _
    rw [goto_pc_of_ne s pc fun hu => ho (congrArg some hu)]
    rfl

/-- A thread that goes on with its block holds it still. -/
theorem holds_goto (s : Machine τ) {t : τ} {pc : Pc}
    (hblock : pc.block? = (s.pc t).block?) (o : Option τ) (b : Block) :
    (s.goto t pc).Holds o b ↔ s.Holds o b := by
  by_cases ho : o = some t
  · subst ho
    rw [holds_goto_self, hblock]
    rfl
  · exact holds_goto_of_ne s pc ho b

end Goto

end Machine

/-- A thread finds in memory what it needs for its next access. -/
def Pc.Ready (memory : Bytes) (domains : DomainStack) : Pc → Prop
  | .idle => True
  | .stampHeader b => b.domain = getCurrentDomain domains
  | .storePrefix b => memory b.base = b.domain.val.toUInt8
  | .traceAlloc b _ => Stamped memory b
  | .loadPrefix b => Stamped memory b
  | .traceFree b base _ => base = b.base ∧ Stamped memory b

/-- Only the bytes before the payload matter. -/
theorem Pc.Ready.congr_before_ptr {memory memory' : Bytes} {domains : DomainStack}
    {pc : Pc} (h : pc.Ready memory domains)
    (hproper : ∀ b, pc.block? = some b → b.Proper)
    (hsame : ∀ b, pc.block? = some b → ∀ x, b.base ≤ x → x < b.ptr →
      memory' x = memory x) : pc.Ready memory' domains := by
  cases pc with
  | idle => exact h
  | stampHeader b => exact h
  | storePrefix b =>
    have hprefix := (hproper b rfl).sixteen_le
    refine (hsame b rfl b.base (Nat.le_refl _) ?_).trans h
    unfold Grant.ptr
    omega
  | traceAlloc b point => exact h.congr (hproper b rfl) (hsame b rfl)
  | loadPrefix b => exact h.congr (hproper b rfl) (hsame b rfl)
  | traceFree b base point =>
    exact ⟨h.1, h.2.congr (hproper b rfl) (hsame b rfl)⟩

/-- Only the block of the thread matters. -/
theorem Pc.Ready.congr {memory memory' : Bytes} {domains : DomainStack}
    {pc : Pc} (h : pc.Ready memory domains)
    (hproper : ∀ b, pc.block? = some b → b.Proper)
    (hsame : ∀ b, pc.block? = some b → ∀ x, b.Owns x →
      memory' x = memory x) : pc.Ready memory' domains := by
  apply h.congr_before_ptr hproper
  intro b hb x hbase hptr
  exact hsame b hb x ((hproper b hb).owns_of_lt_ptr hbase hptr)

namespace Machine

/-- When one thread goes on, the others stay ready. -/
theorem ready_goto {τ : Type*} [DecidableEq τ] {s : Machine τ} {t : τ}
    {pc : Pc} {memory : Bytes} (hself : pc.Ready memory (s.domains t))
    (hother : ∀ u, u ≠ t → (s.pc u).Ready memory (s.domains u)) (u : τ) :
    ((s.goto t pc).pc u).Ready memory (s.domains u) := by
  by_cases hu : u = t
  · subst hu
    rw [goto_pc_self]
    exact hself
  · rw [goto_pc_of_ne s pc hu]
    exact hother u hu

/-! ## The invariant -/

section Invariant

variable {τ : Type*} {s : Machine τ}

structure Safe (s : Machine τ) : Prop where
  tracing : s.process.Tracing
  proper : ∀ o b, s.Holds o b → b.Proper
  holder : ∀ o o' b, s.Holds o b → s.Holds o' b → o = o'
  apart : ∀ o o' b c, s.Holds o b → s.Holds o' c → b ≠ c → b.Apart c.toGrant
  stamped : ∀ b ∈ s.live, Stamped s.process.memory b
  ready : ∀ t, (s.pc t).Ready s.process.memory (s.domains t)
  log : Tracks (s.process.events.map TraceEvent.bracket) s.Open

theorem Safe.apart_of_ne (h : Safe s) {o o' : Option τ} {b c : Block}
    (hb : s.Holds o b) (hc : s.Holds o' c) (hne : o ≠ o') :
    b.Apart c.toGrant := by
  apply h.apart o o' b c hb hc
  intro heq
  subst heq
  exact hne (h.holder o o' b hb hc)

/-- The program does not hold what a thread holds. -/
theorem Safe.apart_live (h : Safe s) {t : τ} {b c : Block}
    (hc : c ∈ s.live) (hb : (s.pc t).block? = some b) : c.Apart b.toGrant := by
  have hc' : s.Holds none c := hc
  have hb' : s.Holds (some t) b := hb
  exact h.apart_of_ne hc' hb' (Option.some_ne_none t).symm

/-- Nor does another thread. -/
theorem Safe.apart_thread (h : Safe s) {t u : τ} (hu : u ≠ t) {b c : Block}
    (hc : (s.pc u).block? = some c) (hb : (s.pc t).block? = some b) :
    c.Apart b.toGrant := by
  have hc' : s.Holds (some u) c := hc
  have hb' : s.Holds (some t) b := hb
  apply h.apart_of_ne hc' hb'
  intro heq
  exact hu (Option.some.inj heq)

/-- The keys that are open without a thread are not about its block. -/
theorem Safe.ptr_ne (h : Safe s) {t : τ} {b : Block}
    (hb : (s.pc t).block? = some b) {key : Pool × Nat}
    (hopen : s.OpenElse t key) : key.2 ≠ b.ptr := by
  have hproper := h.proper (some t) b hb
  rcases hopen with ⟨c, hc, hopens⟩ | ⟨u, hu, hopens⟩
  · rw [hopens.ptr]
    exact (h.apart_live hc hb).ptr_ne (h.proper none c hc) hproper
  · obtain ⟨c, hc, hptr⟩ := hopens.ptr
    rw [hptr]
    exact (h.apart_thread hu hc hb).ptr_ne (h.proper (some u) c hc) hproper

theorem Safe.ready_at (h : Safe s) {t : τ} {pc : Pc} (hpc : s.pc t = pc) :
    pc.Ready s.process.memory (s.domains t) := hpc ▸ h.ready t

/-- The log of a step that emits nothing and changes no key. -/
theorem Safe.log_goto (h : Safe s) {t : τ} {pc : Pc}
    (hopens : ∀ key, (s.pc t).Opens key ↔ pc.Opens key) :
    Tracks (s.process.events.map TraceEvent.bracket) fun key =>
      s.OpenElse t key ∨ pc.Opens key := by
  apply h.log.congr
  intro key
  rw [open_iff s t, hopens key]

variable [DecidableEq τ]

/-- A thread goes on with its block and touches no other. -/
theorem Safe.goto (h : Safe s) {t : τ} {b : Block} {pc : Pc}
    {process : Process} (hb : (s.pc t).block? = some b)
    (hblock : pc.block? = some b) (htracing : process.Tracing)
    (hmemory : ∀ c : Block, c.Apart b.toGrant → ∀ x, c.Owns x →
      process.memory x = s.process.memory x)
    (hready : pc.Ready process.memory (s.domains t))
    (hlog : Tracks (process.events.map TraceEvent.bracket) fun key =>
      s.OpenElse t key ∨ pc.Opens key) :
    Safe { s.goto t pc with process := process } := by
  have hholds : ∀ o c, (s.goto t pc).Holds o c ↔ s.Holds o c :=
    holds_goto s (hblock.trans hb.symm)
  apply Safe.mk htracing
  · intro o c hc
    exact h.proper o c ((hholds o c).mp hc)
  · intro o o' c hc hc'
    exact h.holder o o' c ((hholds o c).mp hc) ((hholds o' c).mp hc')
  · intro o o' c d hc hd
    exact h.apart o o' c d ((hholds o c).mp hc) ((hholds o' d).mp hd)
  · intro c hc
    apply (h.stamped c hc).congr_owns (h.proper none c hc)
    exact hmemory c (h.apart_live hc hb)
  · refine ready_goto hready fun u hu => (h.ready u).congr ?_ ?_
    · exact fun c hc => h.proper (some u) c hc
    · exact fun c hc => hmemory c (h.apart_thread hu hc hb)
  · apply hlog.congr
    intro key
    exact (open_goto s t pc key).symm

/-! ## The steps of a call -/

section Call

variable (h : Safe s) {t : τ} {b : Block}

include h

theorem Safe.stampHeader (hpc : s.pc t = .stampHeader b) :
    Safe { s.goto t (.storePrefix b) with
      process :=
        s.process.stampHeader b.base (getCurrentDomain (s.domains t)) } := by
  have hb : (s.pc t).block? = some b := congrArg Pc.block? hpc
  have hready := h.ready_at hpc
  apply h.goto hb rfl
  · exact h.tracing.set_memory _ _
  · intro c hapart x hx
    exact update_of_apart (h.proper (some t) b hb) hapart _ _ hx
  · show Function.update s.process.memory b.base _ b.base = _
    rw [Function.update_self, hready]
  · apply h.log_goto
    intro key
    rw [hpc]
    exact Iff.rfl

theorem Safe.storePrefix (hpc : s.pc t = .storePrefix b) :
    Safe { s.goto t (.traceAlloc b .loadFlag) with
      process := s.process.storePrefix b.ptr b.prefixSize } := by
  have hb : (s.pc t).block? = some b := congrArg Pc.block? hpc
  have hready := h.ready_at hpc
  apply h.goto hb rfl
  · exact h.tracing.set_memory _ _
  · intro c hapart x hx
    exact storeWord_of_apart (h.proper (some t) b hb) hapart _ hx
  · exact Stamped.of_storeWord (h.proper (some t) b hb) hready
  · apply h.log_goto
    intro key
    rw [hpc]
    simp [Pc.Opens, TracePoint.NamedDone, TracePoint.DefaultDone]

theorem Safe.traceAlloc {point : TracePoint}
    (hpc : s.pc t = .traceAlloc b point) (hpoint : point ≠ .done) :
    Safe { s.goto t (.traceAlloc b (b.traceAlloc point s.process).1) with
      process := (b.traceAlloc point s.process).2 } := by
  have hb : (s.pc t).block? = some b := congrArg Pc.block? hpc
  have hstamped : Stamped s.process.memory b := h.ready_at hpc
  have hmemory : (b.traceAlloc point s.process).2.memory =
      s.process.memory :=
    TracePoint.step_frame (·.memory) Process.emit_memory _ _ _ _
  apply h.goto hb rfl
  · exact TracePoint.step_tracing h.tracing _ _ _
  · intro c _ x _
    rw [hmemory]
  · rw [hmemory]
    exact hstamped
  · apply traceAlloc_log h.tracing _ hstamped.headerDomain hpoint
    · have hlog := h.log_goto (t := t) fun key => Iff.rfl
      rw [hpc] at hlog
      exact hlog
    · intro key hopen
      exact h.ptr_ne hb hopen

theorem Safe.loadPrefix (hpc : s.pc t = .loadPrefix b) :
    Safe
      (s.goto t (.traceFree b (s.process.recoverBase b.ptr) .loadFlag)) := by
  have hb : (s.pc t).block? = some b := congrArg Pc.block? hpc
  have hstamped : Stamped s.process.memory b := h.ready_at hpc
  show Safe { s.goto t (.traceFree b (s.process.recoverBase b.ptr) .loadFlag) with
    process := s.process }
  apply h.goto hb rfl h.tracing
  · exact fun _ _ _ _ => rfl
  · exact ⟨hstamped.recoverBase, hstamped⟩
  · apply h.log_goto
    intro key
    rw [hpc]
    simp [Pc.Opens, Block.Opens, TracePoint.NamedDone, TracePoint.DefaultDone]

theorem Safe.traceFree {base : Nat} {point : TracePoint}
    (hpc : s.pc t = .traceFree b base point) (hpoint : point ≠ .done) :
    Safe { s.goto t (.traceFree b base (b.traceFree base point s.process).1) with
      process := (b.traceFree base point s.process).2 } := by
  have hb : (s.pc t).block? = some b := congrArg Pc.block? hpc
  have hready := h.ready_at hpc
  obtain ⟨rfl, hstamped⟩ := hready
  have hmemory : (b.traceFree b.base point s.process).2.memory =
      s.process.memory :=
    TracePoint.step_frame (·.memory) Process.emit_memory _ _ _ _
  apply h.goto hb rfl
  · exact TracePoint.step_tracing h.tracing _ _ _
  · intro c _ x _
    rw [hmemory]
  · rw [hmemory]
    exact ⟨rfl, hstamped⟩
  · apply traceFree_log h.tracing _ hstamped.headerDomain hpoint
    · have hlog := h.log_goto (t := t) fun key => Iff.rfl
      rw [hpc] at hlog
      exact hlog
    · intro key hopen
      exact h.ptr_ne hb hopen

end Call

/-! ## The steps that change a holder -/

section Move

variable (h : Safe s) {t : τ} {b : Block}

include h

omit [DecidableEq τ] in
/-- A block moves to the holder `y`, and nobody else comes to hold one. -/
theorem Safe.move {s' : Machine τ} {y : Option τ}
    (hmove : ∀ o c, s'.Holds o c → o = y ∧ c = b ∨ s.Holds o c ∧ c ≠ b)
    (hproper : b.Proper)
    (hapart : ∀ o c, s.Holds o c → c ≠ b → c.Apart b.toGrant)
    (htracing : s'.process.Tracing)
    (hstamped : ∀ c ∈ s'.live, Stamped s'.process.memory c)
    (hready : ∀ u, (s'.pc u).Ready s'.process.memory (s'.domains u))
    (hlog : Tracks (s'.process.events.map TraceEvent.bracket) s'.Open) :
    Safe s' where
  tracing := htracing
  proper := by
    intro o c hc
    rcases hmove o c hc with ⟨_, rfl⟩ | ⟨hc, _⟩
    · exact hproper
    · exact h.proper o c hc
  holder := by
    intro o o' c hc hc'
    rcases hmove o c hc with ⟨rfl, rfl⟩ | ⟨hc, hne⟩
    · rcases hmove o' c hc' with ⟨rfl, _⟩ | ⟨_, hne⟩
      · rfl
      · exact absurd rfl hne
    · rcases hmove o' c hc' with ⟨_, heq⟩ | ⟨hc', _⟩
      · exact absurd heq hne
      · exact h.holder o o' c hc hc'
  apart := by
    intro o o' c d hc hd hne
    rcases hmove o c hc with ⟨_, rfl⟩ | ⟨hc, _⟩
    · rcases hmove o' d hd with ⟨_, rfl⟩ | ⟨hd, hd'⟩
      · exact absurd rfl hne
      · exact (hapart o' d hd hd').symm
    · rcases hmove o' d hd with ⟨_, rfl⟩ | ⟨hd, _⟩
      · exact hapart o c hc hne
      · exact h.apart o o' c d hc hd hne
  stamped := hstamped
  ready := hready
  log := hlog

/-- The log of a step that hands open keys over and emits nothing. -/
theorem Safe.log_move {pc : Pc} {live : Finset Block}
    (hopens : ∀ key,
      (∃ c ∈ s.live, c.Opens key) ∨ (s.pc t).Opens key ↔
        (∃ c ∈ live, c.Opens key) ∨ pc.Opens key) :
    Tracks (s.process.events.map TraceEvent.bracket)
      (Open { s.goto t pc with live := live }) := by
  have hsplit : ∀ (s : Machine τ) key, s.Open key ↔
      ((∃ c ∈ s.live, c.Opens key) ∨ (s.pc t).Opens key) ∨
        ∃ u, u ≠ t ∧ (s.pc u).Opens key := by
    intro s key
    rw [open_iff s t]
    exact or_right_comm
  apply h.log.congr
  intro key
  rw [hsplit, hsplit, hopens key]
  show _ ↔ (_ ∨ ((s.goto t pc).pc t).Opens key) ∨
    ∃ u, u ≠ t ∧ ((s.goto t pc).pc u).Opens key
  rw [goto_pc_self, opens_goto_of_ne]

/-- `operator new` returns, and the program holds the block. -/
theorem Safe.returnNew (hpc : s.pc t = .traceAlloc b .done) :
    Safe { s.goto t .idle with live := insert b s.live } := by
  have hb : s.Holds (some t) b := congrArg Pc.block? hpc
  have hunique : ∀ o c, o ≠ some t → s.Holds o c → c ≠ b := by
    intro o c ho hc heq
    subst heq
    exact ho (h.holder o (some t) c hc hb)
  apply h.move (y := none) (b := b)
  · intro o c hc
    cases o with
    | none =>
      rcases Finset.mem_insert.mp hc with heq | hlive
      · exact Or.inl ⟨rfl, heq⟩
      · exact Or.inr ⟨hlive, hunique none c (Option.some_ne_none t).symm hlive⟩
    | some u =>
      by_cases hu : some u = some t
      · rw [hu] at hc
        exact absurd ((holds_goto_self s t .idle c).mp hc) (by simp [Pc.block?])
      · have hc' := (holds_goto_of_ne s .idle hu c).mp hc
        exact Or.inr ⟨hc', hunique (some u) c hu hc'⟩
  · exact h.proper (some t) b hb
  · exact fun o c hc hne => h.apart o (some t) c b hc hb hne
  · exact h.tracing
  · intro c hc
    rcases Finset.mem_insert.mp hc with rfl | hlive
    · exact h.ready_at hpc
    · exact h.stamped c hlive
  · exact ready_goto trivial fun u _ => h.ready u
  · apply h.log_move
    intro key
    rw [hpc, Finset.exists_mem_insert]
    simp [Pc.Opens, Block.Opens, TracePoint.NamedDone, TracePoint.DefaultDone,
      or_comm]

/-- `operator delete` takes a block from the program. -/
theorem Safe.delete (hidle : s.pc t = .idle) (hlive : b ∈ s.live) :
    Safe { s.goto t (.loadPrefix b) with live := s.live.erase b } := by
  have hb : s.Holds none b := hlive
  apply h.move (y := some t) (b := b)
  · intro o c hc
    cases o with
    | none =>
      obtain ⟨hne, hc⟩ := Finset.mem_erase.mp hc
      exact Or.inr ⟨hc, hne⟩
    | some u =>
      by_cases hu : some u = some t
      · rw [hu] at hc ⊢
        have heq := (holds_goto_self s t (.loadPrefix b) c).mp hc
        exact Or.inl ⟨rfl, (Option.some.inj heq).symm⟩
      · have hc' := (holds_goto_of_ne s (.loadPrefix b) hu c).mp hc
        refine Or.inr ⟨hc', ?_⟩
        intro heq
        subst heq
        exact Option.some_ne_none u (h.holder (some u) none c hc' hb)
  · exact h.proper none b hb
  · exact fun o c hc hne => h.apart o none c b hc hb hne
  · exact h.tracing
  · exact fun c hc => h.stamped c (Finset.mem_of_mem_erase hc)
  · exact ready_goto (h.stamped b hlive) fun u _ => h.ready u
  · apply h.log_move
    intro key
    rw [hidle, ← Finset.insert_erase hlive, Finset.exists_mem_insert,
      Finset.erase_insert (Finset.notMem_erase b s.live)]
    simp [Pc.Opens, or_comm]

/-- `free` takes a block from the thread. -/
theorem Safe.free {base : Nat} {memory : Bytes}
    (hpc : s.pc t = .traceFree b base .done)
    (hkeep : ∀ o c, s.Holds o c → o ≠ some t → s.Keeps memory c) :
    Safe { s.goto t .idle with process := s.process.free base memory } := by
  have hb : s.Holds (some t) b := congrArg Pc.block? hpc
  apply h.move (y := some t) (b := b)
  · intro o c hc
    by_cases ho : o = some t
    · subst ho
      exact absurd ((holds_goto_self s t .idle c).mp hc) (by simp [Pc.block?])
    · have hc' := (holds_goto_of_ne s .idle ho c).mp hc
      refine Or.inr ⟨hc', ?_⟩
      intro heq
      subst heq
      exact ho (h.holder o (some t) c hc' hb)
  · exact h.proper (some t) b hb
  · exact fun o c hc hne => h.apart o (some t) c b hc hb hne
  · exact h.tracing.set_memory _ _
  · intro c hc
    apply (h.stamped c hc).congr_owns (h.proper none c hc)
    exact hkeep none c hc (Option.some_ne_none t).symm
  · refine ready_goto trivial fun u hu => (h.ready u).congr ?_ ?_
    · exact fun c hc => h.proper (some u) c hc
    · exact fun c hc => hkeep (some u) c hc fun heq => hu (Option.some.inj heq)
  · apply h.log_move
    intro key
    rw [hpc]
    show _ ↔ (∃ c ∈ s.live, c.Opens key) ∨ _
    simp [Pc.Opens, TracePoint.NamedDone, TracePoint.DefaultDone]

/-- `malloc` gives a block to the thread. -/
theorem Safe.new {form : NewForm} {grant : Grant} {memory : Bytes}
    (hidle : s.pc t = .idle)
    (hpromised : s.Promised t (.new form grant memory)) :
    Safe { s.goto t (.stampHeader (s.block t grant)) with
      process :=
        s.process.malloc (grant.prefixSize + grant.count) grant.base memory } := by
  obtain ⟨hproper, hfresh⟩ := hpromised
  have hne : ∀ o c, s.Holds o c → c ≠ s.block t grant := by
    intro o c hc heq
    exact (hfresh o c hc).1.ne hproper (congrArg Block.toGrant heq).symm
  apply h.move (y := some t) (b := s.block t grant)
  · intro o c hc
    by_cases ho : o = some t
    · subst ho
      have heq := (holds_goto_self s t _ c).mp hc
      exact Or.inl ⟨rfl, (Option.some.inj heq).symm⟩
    · have hc' := (holds_goto_of_ne s _ ho c).mp hc
      exact Or.inr ⟨hc', hne o c hc'⟩
  · exact hproper
  · exact fun o c hc _ => (hfresh o c hc).1.symm
  · exact h.tracing.set_memory _ _
  · intro c hc
    exact (h.stamped c hc).congr_owns (h.proper none c hc) (hfresh none c hc).2
  · refine ready_goto rfl fun u _ => (h.ready u).congr ?_ ?_
    · exact fun c hc => h.proper (some u) c hc
    · exact fun c hc => (hfresh (some u) c hc).2
  · apply h.log_move
    intro key
    rw [hidle]
    exact Iff.rfl

end Move

/-! ## Between two calls -/

omit [DecidableEq τ] in
/-- Payloads do not reach into headers and prefix words. -/
theorem Safe.payload (h : Safe s) {o : Option τ} {b c : Block}
    (hb : b ∈ s.live) (hc : s.Holds o c) {x : Nat} (hx : b.InPayload x) :
    ¬(c.base ≤ x ∧ x < c.ptr) := by
  intro hprefix
  by_cases hbc : b = c
  · subst hbc
    exact absurd hprefix.2 (Nat.not_lt.mpr hx.1)
  · have howns := (h.proper none b hb).owns_payload hx
    apply (h.apart none o b c hb hc hbc).not_owns howns
    exact (h.proper o c hc).owns_of_lt_ptr hprefix.1 hprefix.2

omit [DecidableEq τ] in
theorem Safe.write (h : Safe s) {addr : Nat} (value : UInt8)
    (hpayload : ∃ b ∈ s.live, b.InPayload addr) :
    Safe { s with
      process :=
        { s.process with
          memory := Function.update s.process.memory addr value } } := by
  obtain ⟨b, hb, hx⟩ := hpayload
  have hkeep : ∀ o c, s.Holds o c → ∀ x, c.base ≤ x → x < c.ptr →
      Function.update s.process.memory addr value x = s.process.memory x := by
    intro o c hc x hbase hptr
    apply Function.update_of_ne
    intro heq
    subst heq
    exact h.payload hb hc hx ⟨hbase, hptr⟩
  exact
    { h with
      tracing := ⟨h.tracing.active, h.tracing.started, h.tracing.data⟩
      stamped := fun c hc =>
        (h.stamped c hc).congr (h.proper none c hc) (hkeep none c hc)
      ready := fun u =>
        (h.ready u).congr_before_ptr (fun c hc => h.proper (some u) c hc)
          fun c hc => hkeep (some u) c hc }

/-- An idle thread may change its stack of domains. -/
theorem Safe.set_domains (h : Safe s) {t : τ} (hidle : s.pc t = .idle)
    (domains : DomainStack) :
    Safe { s with domains := Function.update s.domains t domains } :=
  { h with
    ready := fun u => by
      by_cases hu : u = t
      · subst hu
        show (s.pc u).Ready _ _
        rw [hidle]
        trivial
      · show (s.pc u).Ready _ (Function.update s.domains t domains u)
        rw [Function.update_of_ne hu]
        exact h.ready u }

/-! ## Runs -/

theorem Safe.step (h : Safe s) {t : τ} {a : Action} {s' : Machine τ}
    (hpromised : s.Promised t a) (hstep : ThreadStep t s a s') : Safe s' := by
  cases hstep with
  | new hidle _ => exact h.new hidle hpromised
  | stampHeader hpc => exact h.stampHeader hpc
  | storePrefix hpc => exact h.storePrefix hpc
  | traceAlloc hpc hpoint => exact h.traceAlloc hpc hpoint
  | returnNew hpc => exact h.returnNew hpc
  | delete hidle _ => exact h.delete hidle hpromised
  | loadPrefix hpc => exact h.loadPrefix hpc
  | traceFree hpc hpoint => exact h.traceFree hpc hpoint
  | free hpc => exact h.free hpc hpromised
  | write hidle => exact h.write _ hpromised
  | push hidle hpush => exact h.set_domains hidle _
  | pop hidle => exact h.set_domains hidle _

/-- All threads idle, nothing allocated, the profiler started and tracing
active. -/
def start (τ : Type*) (memory : Bytes) : Machine τ where
  process :=
    { memory := memory, tracyActive := true, profilerStarted := true
      profilerData := true, events := [], strays := [], calls := [] }
  domains := fun _ => .fresh
  pc := fun _ => .idle
  live := ∅

omit [DecidableEq τ] in
theorem not_holds_start (memory : Bytes) (o : Option τ) (b : Block) :
    ¬(start τ memory).Holds o b := by
  cases o with
  | none => exact Finset.notMem_empty b
  | some t => simp [Holds, start, Pc.block?]

theorem safe_start (τ : Type*) (memory : Bytes) : Safe (start τ memory) where
  tracing := ⟨rfl, rfl, rfl⟩
  proper := fun o b hb => absurd hb (not_holds_start memory o b)
  holder := fun o _ b hb => absurd hb (not_holds_start memory o b)
  apart := fun o _ b _ hb => absurd hb (not_holds_start memory o b)
  stamped := fun b hb => absurd hb (Finset.notMem_empty b)
  ready := fun _ => trivial
  log := Tracks.nil.congr fun key => by simp [Open, start, Pc.Opens]

/-- Some thread makes an access, and what is promised to the allocator
holds. -/
def Step (s s' : Machine τ) : Prop :=
  ∃ t a, s.Promised t a ∧ ThreadStep t s a s'

/-- A call of `operator new` that no other thread interrupts. -/
theorem steps_new (t : τ) (form : NewForm) {grant : Grant} (memory : Bytes)
    (hidle : s.pc t = .idle) (halignment : grant.alignment = form.alignment)
    (hpromised : s.Promised t (.new form grant memory)) :
    Relation.ReflTransGen Step s
      { s with
        process := (operatorNew form grant.count grant.base memory
          (s.domains t) s.process).2
        live := insert (s.block t grant) s.live } :=
  runs_new (fun _ _ hstep => ⟨t, .next, trivial, hstep⟩) hidle halignment
    ⟨t, _, hpromised, .new hidle halignment⟩

/-- In every interleaving of any number of threads, every pool sees every
address allocated and freed in turns, starting with an allocation. -/
theorem log_alternates (memory : Bytes)
    (h : Relation.ReflTransGen Step (start τ memory) s) (pool : Pool)
    (ptr : Nat) :
    AlternatesFrom true
      (marks (pool, ptr) (s.process.events.map TraceEvent.bracket)) := by
  have hsafe : Safe s := by
    induction h with
    | refl => exact safe_start τ memory
    | tail _ hstep ih =>
      obtain ⟨t, a, hpromised, hstep⟩ := hstep
      exact ih.step hpromised hstep
  exact hsafe.log.orderly (pool, ptr)

end Invariant

/-- One thread allocates a block, another one deletes it while the first opens
a domain, and the first gets the same address again. -/
theorem log_alternates_reuse :
    ∃ s : Machine Bool,
      Relation.ReflTransGen Step (start Bool fun _ => 0) s ∧
      marks (.default, 4112) (s.process.events.map TraceEvent.bracket) =
        [true, false, true] ∧
      AlternatesFrom true
        (marks (.default, 4112) (s.process.events.map TraceEvent.bracket)) := by
  let grant : Grant := ⟨16, 8, 4096, 24, by decide⟩
  let b : Block := { grant with domain := .default }
  let b' : Block := { grant with domain := .particles }
  have hproper : grant.Proper := ⟨⟨16, ⟨4, by decide⟩, by decide⟩, by decide⟩
  have hnew : Relation.ReflTransGen Step (start Bool fun _ => 0) _ :=
    steps_new true .plain (fun _ => 0) rfl rfl
      ⟨hproper, fun o c hc => absurd hc (not_holds_start _ o c)⟩
  have hdelete := hnew.tail ⟨false, .delete .plain b,
    Finset.mem_insert_self b _, .delete rfl hproper.ptr_ne_zero⟩
  have hpush := hdelete.tail ⟨true, .push .particles, trivial, .push rfl rfl⟩
  have hload := hpush.tail ⟨false, .next, trivial, .loadPrefix (b := b) rfl⟩
  have hflag := hload.tail ⟨false, .next, trivial, .traceFree
    (show _ = Pc.traceFree b _ .loadFlag from rfl) TracePoint.noConfusion⟩
  have hcheck := hflag.tail ⟨false, .next, trivial, .traceFree
    (show _ = Pc.traceFree b _ .checkNamed from rfl) TracePoint.noConfusion⟩
  have hnamed := hcheck.tail ⟨false, .next, trivial, .traceFree
    (show _ = Pc.traceFree b _ .emitNamed from rfl) TracePoint.noConfusion⟩
  have hcheckDefault := hnamed.tail ⟨false, .next, trivial, .traceFree
    (show _ = Pc.traceFree b _ .checkDefault from rfl) TracePoint.noConfusion⟩
  have hdefault := hcheckDefault.tail ⟨false, .next, trivial, .traceFree
    (show _ = Pc.traceFree b _ .emitDefault from rfl) TracePoint.noConfusion⟩
  have hlive : (insert b (∅ : Finset Block)).erase b = ∅ :=
    Finset.erase_insert (Finset.notMem_empty b)
  have hnotLive : ∀ c, c ∉ (insert b (∅ : Finset Block)).erase b := by
    intro c hc
    exact Finset.notMem_empty c (hlive ▸ hc)
  have hfree := hdefault.tail ⟨false, .free fun _ => 3, fun o c hc hne => by
    cases o with
    | none => exact absurd hc (hnotLive c)
    | some t => cases t with
      | false => exact absurd rfl hne
      | true => exact absurd hc (Option.some_ne_none c).symm,
    .free (show _ = Pc.traceFree b _ .done from rfl)⟩
  have hagain := hfree.trans (steps_new true .plain (fun _ => 5) rfl rfl
    ⟨hproper, fun o c hc => by
      cases o with
      | none => exact absurd hc (hnotLive c)
      | some t => cases t with
        | false => exact absurd hc (Option.some_ne_none c).symm
        | true => exact absurd hc (Option.some_ne_none c).symm⟩)
  obtain ⟨s, hreach, n, n', n'', hevents⟩ : ∃ s : Machine Bool,
      Relation.ReflTransGen Step (start Bool fun _ => 0) s ∧ ∃ n n' n'',
        s.process.events =
          [.alloc (.named n) b.ptr 8, .alloc .default b.ptr 8,
            .free (.named n') b.ptr, .free .default b.ptr,
            .alloc (.named n'') b'.ptr 8, .alloc .default b'.ptr 8] :=
    ⟨_, hagain, _, _, _, rfl⟩
  have hptr : b.ptr = 4112 := by decide
  have halternates := log_alternates (fun _ => 0) hreach .default 4112
  refine ⟨s, hreach, ?_, halternates⟩
  rw [hevents, hptr]
  simp [marks, Bracket.mark, TraceEvent.bracket]

end Machine

end VulkanCompute.Profiler
