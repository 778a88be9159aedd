import VulkanCompute.Profiler.Threads

/-!
# The lifetime of the profiler

The main thread starts the profiler, activates tracing, does other work and
shuts the profiler down, while every thread may allocate and delete at any
time.  `StartupProfiler` builds the data of the profiler before it sets the
started flag, and `ShutdownProfiler` clears the flag before it destroys the
data.  Nobody deactivates tracing before the shutdown.

A thread checks the started flag in one access and emits in the next.  The
shutdown may fall between the two (`shutdown_between_check_and_emission`).
Where it does not, no event is emitted while there is no profiler data
(`no_stray_events`).
-/

namespace VulkanCompute.Profiler

open Lib

/-- How far `main` has come with the profiler. -/
inductive Stage where
  | cold
  | built
  | started
  | active
  | stopped
  | destroyed
deriving DecidableEq

structure Lifetime (τ : Type*) where
  machine : Machine τ
  stage : Stage

inductive LifeAction (τ : Type*) where
  | thread (t : τ) (a : Action)
  | buildData
  | setStarted
  | activate
  | clearStarted
  | destroyData

namespace Lifetime

variable {τ : Type*}

/-- `main` reaches a stage, with an effect on the process. -/
def reach (s : Lifetime τ) (stage : Stage) (process : Process) : Lifetime τ where
  machine := { s.machine with process := process }
  stage := stage

end Lifetime

/-- An access of a thread, or a step of the main thread `main` between two of
its own calls. -/
inductive LifeStep {τ : Type*} [DecidableEq τ] (main : τ) :
    Lifetime τ → LifeAction τ → Lifetime τ → Prop where
  | thread {s : Lifetime τ} {t : τ} {a : Action} {machine : Machine τ}
      (hstep : ThreadStep t s.machine a machine) :
      LifeStep main s (.thread t a) { s with machine := machine }
  | buildData {s : Lifetime τ} (hidle : s.machine.pc main = .idle)
      (hstage : s.stage = .cold) :
      LifeStep main s .buildData
        (s.reach .built { s.machine.process with profilerData := true })
  | setStarted {s : Lifetime τ} (hidle : s.machine.pc main = .idle)
      (hstage : s.stage = .built) :
      LifeStep main s .setStarted
        (s.reach .started { s.machine.process with profilerStarted := true })
  | activate {s : Lifetime τ} (hidle : s.machine.pc main = .idle)
      (hstage : s.stage = .started) :
      LifeStep main s .activate
        (s.reach .active (setTracyActive true s.machine.process))
  | clearStarted {s : Lifetime τ} (hidle : s.machine.pc main = .idle)
      (hstage : s.stage = .active) :
      LifeStep main s .clearStarted
        (s.reach .stopped { s.machine.process with profilerStarted := false })
  | destroyData {s : Lifetime τ} (hidle : s.machine.pc main = .idle)
      (hstage : s.stage = .stopped) :
      LifeStep main s .destroyData
        (s.reach .destroyed { s.machine.process with profilerData := false })

/-- Whether the next access of the traced part emits an event. -/
def TracePoint.Emits (point : TracePoint) : Prop :=
  point = .emitNamed ∨ point = .emitDefault

/-- Whether the next access of a thread emits an event. -/
def Pc.Emits : Pc → Prop
  | .traceAlloc _ point => point.Emits
  | .traceFree _ _ point => point.Emits
  | _ => False

namespace Lifetime

variable {τ : Type*}

/-- Before `main`: no thread is in a call, and the profiler is off. -/
def start (τ : Type*) (memory : Bytes) : Lifetime τ where
  machine :=
    { process :=
        { memory := memory, tracyActive := false, profilerStarted := false
          profilerData := false, events := [], strays := [], calls := [] }
      domains := fun _ => .fresh
      pc := fun _ => .idle
      live := ∅ }
  stage := .cold

/-- The data is destroyed only while no thread is about to emit. -/
def Quiet (s : Lifetime τ) : LifeAction τ → Prop
  | .destroyData => ∀ t, ¬(s.machine.pc t).Emits
  | _ => True

def Step [DecidableEq τ] (main : τ) (s s' : Lifetime τ) : Prop :=
  ∃ a, LifeStep main s a s'

def QuietStep [DecidableEq τ] (main : τ) (s s' : Lifetime τ) : Prop :=
  ∃ a, s.Quiet a ∧ LifeStep main s a s'

end Lifetime

/-! ## Emissions -/

/-- An emission comes after a check that found the profiler started. -/
theorem TracePoint.emits_step {named default : TraceEvent} {p : Process}
    {point : TracePoint} (h : (point.step named default p).1.Emits) :
    p.profilerStarted = true := by
  by_contra hstarted
  unfold TracePoint.Emits at h
  cases point with
  | loadFlag =>
    simp only [TracePoint.step] at h
    split at h
    · simp at h
    · simp at h
  | checkNamed => simp [TracePoint.step, hstarted] at h
  | emitNamed => simp [TracePoint.step] at h
  | checkDefault => simp [TracePoint.step, hstarted] at h
  | emitDefault => simp [TracePoint.step] at h
  | done => simp [TracePoint.step] at h

/-- An event that is emitted while the data exists is no stray. -/
theorem TracePoint.strays_step {named default : TraceEvent} {p : Process}
    {point : TracePoint} (h : point.Emits → p.profilerData = true) :
    (point.step named default p).2.strays = p.strays := by
  cases point with
  | loadFlag => rfl
  | checkNamed => rfl
  | emitNamed =>
    show (p.emit named).strays = p.strays
    rw [Process.emit, if_pos (h (Or.inl rfl))]
  | checkDefault => rfl
  | emitDefault =>
    show (p.emit default).strays = p.strays
    rw [Process.emit, if_pos (h (Or.inr rfl))]
  | done => rfl

section Thread

variable {τ : Type*} [DecidableEq τ] {t : τ} {s s' : Machine τ} {a : Action}
  (h : ThreadStep t s a s')

include h

theorem ThreadStep.strays
    (hdata : (s.pc t).Emits → s.process.profilerData = true) :
    s'.process.strays = s.process.strays := by
  cases h with
  | traceAlloc hpc _ =>
    apply TracePoint.strays_step
    rw [hpc] at hdata
    exact hdata
  | traceFree hpc _ =>
    apply TracePoint.strays_step
    rw [hpc] at hdata
    exact hdata
  | _ => rfl

/-- A thread comes to an emission only while the profiler is started. -/
theorem ThreadStep.emits {u : τ} (hemits : (s'.pc u).Emits) :
    (s.pc u).Emits ∨ s.process.profilerStarted = true := by
  have hgoto : ∀ pc : Pc, ((s.goto t pc).pc u).Emits →
      (s.pc u).Emits ∨ pc.Emits := by
    intro pc hpc
    by_cases hu : u = t
    · subst hu
      rw [Machine.goto_pc_self] at hpc
      exact Or.inr hpc
    · rw [Machine.goto_pc_of_ne s pc hu] at hpc
      exact Or.inl hpc
  cases h with
  | new _ _ => exact (hgoto _ hemits).imp_right False.elim
  | stampHeader _ => exact (hgoto _ hemits).imp_right False.elim
  | storePrefix _ =>
    apply (hgoto _ hemits).imp_right
    intro hpc
    simp [Pc.Emits, TracePoint.Emits] at hpc
  | traceAlloc _ _ => exact (hgoto _ hemits).imp_right TracePoint.emits_step
  | returnNew _ => exact (hgoto _ hemits).imp_right False.elim
  | delete _ _ => exact (hgoto _ hemits).imp_right False.elim
  | loadPrefix _ =>
    apply (hgoto _ hemits).imp_right
    intro hpc
    simp [Pc.Emits, TracePoint.Emits] at hpc
  | traceFree _ _ => exact (hgoto _ hemits).imp_right TracePoint.emits_step
  | free _ => exact (hgoto _ hemits).imp_right False.elim
  | write _ => exact Or.inl hemits
  | push _ _ => exact Or.inl hemits
  | pop _ => exact Or.inl hemits

end Thread

namespace Lifetime

variable {τ : Type*}

/-! ## The invariant -/

structure Guarded (s : Lifetime τ) : Prop where
  data : s.machine.process.profilerData = true ↔
    s.stage ≠ .cold ∧ s.stage ≠ .destroyed
  started : s.machine.process.profilerStarted = true →
    s.stage = .started ∨ s.stage = .active
  emits : ∀ t, (s.machine.pc t).Emits →
    s.machine.process.profilerData = true
  strays : s.machine.process.strays = []

theorem guarded_start (memory : Bytes) : Guarded (start τ memory) where
  data := by simp [start]
  started := fun h => absurd h Bool.false_ne_true
  emits := fun _ h => False.elim h
  strays := rfl

variable [DecidableEq τ]

theorem Guarded.thread {s : Lifetime τ} (h : Guarded s) {t : τ} {a : Action}
    {machine : Machine τ} (hstep : ThreadStep t s.machine a machine) :
    Guarded { s with machine := machine } := by
  have hdata : machine.process.profilerData =
      s.machine.process.profilerData :=
    hstep.frame (·.profilerData) Process.emit_profilerData fun _ _ _ => rfl
  have hstarted : machine.process.profilerStarted =
      s.machine.process.profilerStarted :=
    hstep.frame (·.profilerStarted) Process.emit_profilerStarted
      fun _ _ _ => rfl
  apply Guarded.mk
  · show machine.process.profilerData = true ↔ _
    rw [hdata]
    exact h.data
  · show machine.process.profilerStarted = true → _
    rw [hstarted]
    exact h.started
  · intro u hu
    show machine.process.profilerData = true
    rw [hdata]
    rcases hstep.emits hu with hu | hon
    · exact h.emits u hu
    · apply h.data.mpr
      rcases h.started hon with hstage | hstage
      · rw [hstage]
        decide
      · rw [hstage]
        decide
  · exact (hstep.strays (h.emits t)).trans h.strays

theorem Guarded.step {main : τ} {s s' : Lifetime τ} {a : LifeAction τ}
    (h : Guarded s) (hquiet : s.Quiet a) (hstep : LifeStep main s a s') :
    Guarded s' := by
  cases hstep with
  | thread hstep => exact h.thread hstep
  | buildData _ hstage =>
    refine ⟨?_, ?_, fun _ _ => rfl, h.strays⟩
    · simp [reach]
    · intro hon
      have hstage' := h.started hon
      rw [hstage] at hstage'
      simp at hstage'
  | setStarted _ hstage =>
    have hdata := h.data
    rw [hstage] at hdata
    refine ⟨?_, fun _ => Or.inl rfl, h.emits, h.strays⟩
    show s.machine.process.profilerData = true ↔ _
    rw [hdata]
    simp [reach]
  | activate _ hstage =>
    have hdata := h.data
    rw [hstage] at hdata
    refine ⟨?_, fun _ => Or.inr rfl, h.emits, h.strays⟩
    show s.machine.process.profilerData = true ↔ _
    rw [hdata]
    simp [reach]
  | clearStarted _ hstage =>
    have hdata := h.data
    rw [hstage] at hdata
    refine ⟨?_, fun hon => absurd hon Bool.false_ne_true, h.emits, h.strays⟩
    show s.machine.process.profilerData = true ↔ _
    rw [hdata]
    simp [reach]
  | destroyData _ hstage =>
    refine ⟨?_, ?_, fun t ht => absurd ht (hquiet t), h.strays⟩
    · simp [reach]
    · intro hon
      have hstage' := h.started hon
      rw [hstage] at hstage'
      simp at hstage'

/-- In a run that destroys the profiler data only while no thread is about to
emit, no event is emitted while there is no data. -/
theorem no_stray_events (main : τ) (memory : Bytes) {s : Lifetime τ}
    (h : Relation.ReflTransGen (QuietStep main) (start τ memory) s) :
    s.machine.process.strays = [] := by
  have hguarded : Guarded s := by
    induction h with
    | refl => exact guarded_start memory
    | tail _ hstep ih =>
      obtain ⟨a, hquiet, hstep⟩ := hstep
      exact ih.step hquiet hstep
  exact hguarded.strays

/-- When the data is destroyed while a thread is about to emit, the next
access of that thread emits without it. -/
theorem exists_stray_of_emits {main t : τ} {s s' : Lifetime τ}
    (hdestroy : LifeStep main s .destroyData s')
    (hemits : (s.machine.pc t).Emits) :
    ∃ s'', LifeStep main s' (.thread t .next) s'' ∧
      s''.machine.process.strays ≠ [] := by
  have hstray : ∀ (e : TraceEvent) (p : Process), p.profilerData = false →
      (p.emit e).strays ≠ [] := by
    intro e p hdata
    rw [Process.emit, if_neg (Bool.eq_false_iff.mp hdata)]
    exact List.append_ne_nil_of_right_ne_nil _ (List.cons_ne_nil _ _)
  cases hdestroy with
  | destroyData _ _ =>
    have hdone : ∀ {point : TracePoint}, point.Emits → point ≠ .done := by
      intro point h
      rcases h with rfl | rfl
      · exact TracePoint.noConfusion
      · exact TracePoint.noConfusion
    generalize hpc : s.machine.pc t = pc at hemits
    cases pc with
    | idle => exact hemits.elim
    | stampHeader b => exact hemits.elim
    | storePrefix b => exact hemits.elim
    | loadPrefix b => exact hemits.elim
    | traceAlloc b point =>
      refine ⟨_, .thread (.traceAlloc hpc (hdone hemits)), ?_⟩
      rcases hemits with rfl | rfl
      · exact hstray _ _ rfl
      · exact hstray _ _ rfl
    | traceFree b base point =>
      refine ⟨_, .thread (.traceFree hpc (hdone hemits)), ?_⟩
      rcases hemits with rfl | rfl
      · exact hstray _ _ rfl
      · exact hstray _ _ rfl

/-- The worker `true` allocates while the profiler is started.  The main thread
`false` shuts the profiler down between the last check and the last emission
of the worker, and destroys the data after it. -/
theorem no_stray_events_shutdown :
    ∃ s : Lifetime Bool,
      Relation.ReflTransGen (QuietStep false) (start Bool fun _ => 0) s ∧
        s.stage = .destroyed ∧ s.machine.process.events.length = 2 ∧
        s.machine.process.strays = [] := by
  let grant : Grant := ⟨16, 8, 4096, 24, by decide⟩
  let b : Block := { grant with domain := .default }
  have hbuild : Relation.ReflTransGen (QuietStep false)
      (start Bool fun _ => 0) _ :=
    .single ⟨.buildData, trivial, .buildData rfl rfl⟩
  have hstarted := hbuild.tail ⟨.setStarted, trivial, .setStarted rfl rfl⟩
  have hactive := hstarted.tail ⟨.activate, trivial, .activate rfl rfl⟩
  have hmalloc := hactive.tail ⟨.thread true (.new .plain grant fun _ => 0),
    trivial, .thread (.new rfl rfl)⟩
  have hheader := hmalloc.tail
    ⟨.thread true .next, trivial, .thread (.stampHeader (b := b) rfl)⟩
  have hprefix := hheader.tail
    ⟨.thread true .next, trivial, .thread (.storePrefix (b := b) rfl)⟩
  have hflag := hprefix.tail ⟨.thread true .next, trivial, .thread
    (.traceAlloc_at b .loadFlag rfl TracePoint.noConfusion)⟩
  have hcheck := hflag.tail ⟨.thread true .next, trivial, .thread
    (.traceAlloc_at b .checkNamed rfl TracePoint.noConfusion)⟩
  have hnamed := hcheck.tail ⟨.thread true .next, trivial, .thread
    (.traceAlloc_at b .emitNamed rfl TracePoint.noConfusion)⟩
  have hcheck' := hnamed.tail ⟨.thread true .next, trivial, .thread
    (.traceAlloc_at b .checkDefault rfl TracePoint.noConfusion)⟩
  have hstopped := hcheck'.tail
    ⟨.clearStarted, trivial, .clearStarted rfl rfl⟩
  have hdefault := hstopped.tail ⟨.thread true .next, trivial, .thread
    (.traceAlloc_at b .emitDefault rfl TracePoint.noConfusion)⟩
  have hdestroyed := hdefault.tail ⟨.destroyData, by
    intro t ht
    cases t with
    | false => exact ht
    | true =>
      rcases ht with hpoint | hpoint
      · exact TracePoint.noConfusion hpoint
      · exact TracePoint.noConfusion hpoint, .destroyData rfl rfl⟩
  exact ⟨_, hdestroyed, rfl, rfl,
    no_stray_events false (fun _ => 0) hdestroyed⟩

/-- The worker `true` finds the profiler started, the main thread `false`
shuts it down, and the worker emits. -/
theorem shutdown_between_check_and_emission :
    ∃ s : Lifetime Bool,
      Relation.ReflTransGen (Step false) (start Bool fun _ => 0) s ∧
        s.stage = .destroyed ∧ s.machine.process.strays ≠ [] := by
  let grant : Grant := ⟨16, 8, 4096, 24, by decide⟩
  let b : Block := { grant with domain := .default }
  have hbuild : Relation.ReflTransGen (Step false)
      (start Bool fun _ => 0) _ := .single ⟨.buildData, .buildData rfl rfl⟩
  have hstarted := hbuild.tail ⟨.setStarted, .setStarted rfl rfl⟩
  have hactive := hstarted.tail ⟨.activate, .activate rfl rfl⟩
  have hmalloc := hactive.tail
    ⟨.thread true (.new .plain grant fun _ => 0), .thread (.new rfl rfl)⟩
  have hheader := hmalloc.tail
    ⟨.thread true .next, .thread (.stampHeader (b := b) rfl)⟩
  have hprefix := hheader.tail
    ⟨.thread true .next, .thread (.storePrefix (b := b) rfl)⟩
  have hflag := hprefix.tail ⟨.thread true .next, .thread
    (.traceAlloc_at b .loadFlag rfl TracePoint.noConfusion)⟩
  have hcheck := hflag.tail ⟨.thread true .next, .thread
    (.traceAlloc_at b .checkNamed rfl TracePoint.noConfusion)⟩
  have hstopped := hcheck.tail ⟨.clearStarted, .clearStarted rfl rfl⟩
  have hdestroyed := hstopped.tail ⟨.destroyData, .destroyData rfl rfl⟩
  have hemitted := hdestroyed.tail ⟨.thread true .next, .thread
    (.traceAlloc_at b .emitNamed rfl TracePoint.noConfusion)⟩
  exact ⟨_, hemitted, rfl, List.cons_ne_nil _ _⟩

end Lifetime

end VulkanCompute.Profiler
