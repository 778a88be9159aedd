import VulkanCompute.Profiler.Session

/-!
# The trace of a single-threaded program

The profiler is started, and the program turns tracing on and off.  Every
call decides by the flag of its own moment whether it emits events, so a
block that is allocated under one value of `g_tracyActive` and deleted under
the other leaves half of its life in the trace.

`Matched` excludes this.  Under it the keys that are open in the log are those
of the live blocks that were allocated with the flag set (`Traced`), and the
log is orderly (`trace_orderly`).  In a run that has been matched so far, a
deletion under the other flag either breaks the log
(`not_orderly_of_untraced`) or leaves an address open (`held_of_unclosed`),
and then the log is broken by an allocation that reuses the address
(`not_orderly_of_held`).
-/

namespace VulkanCompute.Profiler

open Lib

/-- The two events of an allocation open the keys of the block. -/
theorem tracks_allocEvents {events : List TraceEvent}
    {P : Pool × Nat → Prop} (h : Tracks (events.map TraceEvent.bracket) P)
    {b : Block} (hclosed : ∀ key, b.Opens key → ¬P key) :
    Tracks ((events ++ b.allocEvents).map TraceEvent.bracket) fun key =>
      b.Opens key ∨ P key := by
  have hnamed := h.acquire (hclosed b.namedKey (Or.inl rfl))
  have hdefault : ¬(b.defaultKey = b.namedKey ∨ P b.defaultKey) := by
    intro hopen
    rcases hopen with heq | hP
    · exact b.namedKey_ne_defaultKey heq.symm
    · exact hclosed b.defaultKey (Or.inr rfl) hP
  have hboth := hnamed.acquire hdefault
  rw [List.append_assoc] at hboth
  rw [List.map_append]
  apply hboth.congr
  intro key
  unfold Block.Opens
  tauto

/-- The two events of a deallocation close them. -/
theorem tracks_freeEvents {events : List TraceEvent}
    {P : Pool × Nat → Prop} (h : Tracks (events.map TraceEvent.bracket) P)
    {b : Block} (hopen : ∀ key, b.Opens key → P key) :
    Tracks ((events ++ b.freeEvents).map TraceEvent.bracket) fun key =>
      ¬b.Opens key ∧ P key := by
  have hnamed := h.release (hopen b.namedKey (Or.inl rfl))
  have hdefault : b.defaultKey ≠ b.namedKey ∧ P b.defaultKey :=
    ⟨b.namedKey_ne_defaultKey.symm, hopen b.defaultKey (Or.inr rfl)⟩
  have hboth := hnamed.release hdefault
  rw [List.append_assoc] at hboth
  rw [List.map_append]
  apply hboth.congr
  intro key
  unfold Block.Opens
  tauto

namespace Session

/-! ## The invariant -/

/-- A block is deleted under the flag that it was allocated under. -/
def Matched (s : Session) : Op → Prop
  | .delete _ block _ => s.process.tracyActive = s.traced block
  | _ => True

/-- One allowed and matched action. -/
def MatchedStep (s s' : Session) : Prop :=
  ∃ op, s.Allowed op ∧ s.Matched op ∧ s' = s.step op

/-- The log of the profiler is open at the live blocks that were allocated
with the flag set. -/
structure Traced (s : Session) : Prop where
  intact : Intact s
  started : s.process.profilerStarted
  data : s.process.profilerData
  log : Tracks (s.process.events.map TraceEvent.bracket)
    fun key => ∃ b ∈ s.live, s.traced b = true ∧ b.Opens key

theorem traced_start (memory : Bytes) (active : Bool) :
    Traced (start memory active true) where
  intact := intact_start memory active true
  started := rfl
  data := rfl
  log := Tracks.nil.congr fun _ => by simp [start]

/-- An allocation is traced when the flag is set. -/
theorem step_new_events {s : Session} {form : NewForm} {grant : Grant}
    {memory : Bytes} (hallowed : s.Allowed (.new form grant memory))
    (hstarted : s.process.profilerStarted) (hdata : s.process.profilerData) :
    (s.step (.new form grant memory)).process.events =
      if s.process.tracyActive then
        s.process.events ++ (s.block grant).allocEvents
      else s.process.events := by
  show (operatorNew form grant.count _ _ _ _).2.events = _
  rw [operatorNew_of_allowed hallowed]
  exact allocateImpl_events (b := s.block grant) hallowed.2.1 rfl memory
    s.process hstarted hdata

/-- And so is a deallocation. -/
theorem Traced.delete_events {s : Session} (h : Traced s) {form : DeleteForm}
    {block : Block} {memory : Bytes}
    (hallowed : s.Allowed (.delete form block memory)) :
    (s.step (.delete form block memory)).process.events =
      if s.process.tracyActive then s.process.events ++ block.freeEvents
      else s.process.events := by
  have hlive := hallowed.1
  show (operatorDelete form _ _ _).events = _
  rw [h.intact.operatorDelete_ptr hlive]
  exact freeImpl_events (h.intact.proper block hlive) memory
    (h.intact.stamped block hlive) h.started h.data

theorem step_new_traced_self (s : Session) (form : NewForm) (grant : Grant)
    (memory : Bytes) :
    (s.step (.new form grant memory)).traced (s.block grant) =
      s.process.tracyActive := Function.update_self ..

theorem step_new_traced_of_mem {s : Session} {form : NewForm} {grant : Grant}
    {memory : Bytes} (hallowed : s.Allowed (.new form grant memory)) {b : Block}
    (hb : b ∈ s.live) :
    (s.step (.new form grant memory)).traced b = s.traced b :=
  Function.update_of_ne (ne_block_of_mem hallowed hb) _ _

/-- The keys that are open after an allocation. -/
theorem open_new_iff {s : Session} {form : NewForm} {grant : Grant}
    {memory : Bytes} (hallowed : s.Allowed (.new form grant memory))
    (key : Pool × Nat) :
    (∃ b ∈ (s.step (.new form grant memory)).live,
        (s.step (.new form grant memory)).traced b = true ∧ b.Opens key) ↔
      s.process.tracyActive = true ∧ (s.block grant).Opens key ∨
        ∃ b ∈ s.live, s.traced b = true ∧ b.Opens key := by
  have hself := s.step_new_traced_self form grant memory
  have hold : ∀ b ∈ s.live,
      (s.step (.new form grant memory)).traced b = s.traced b :=
    fun b hb => step_new_traced_of_mem hallowed hb
  constructor
  · intro ⟨b, hb, htraced, hopens⟩
    rcases List.mem_cons.mp hb with rfl | hb
    · exact Or.inl ⟨hself.symm.trans htraced, hopens⟩
    · exact Or.inr ⟨b, hb, (hold b hb).symm.trans htraced, hopens⟩
  · intro hkey
    rcases hkey with ⟨hactive, hopens⟩ | ⟨b, hb, htraced, hopens⟩
    · exact ⟨s.block grant, List.mem_cons_self, hself.trans hactive, hopens⟩
    · exact ⟨b, List.mem_cons_of_mem _ hb, (hold b hb).trans htraced, hopens⟩

/-- The keys that are open after a deallocation. -/
theorem Intact.open_delete_iff {s : Session} (h : Intact s)
    {form : DeleteForm} {block : Block} {memory : Bytes}
    (hallowed : s.Allowed (.delete form block memory)) (key : Pool × Nat) :
    (∃ b ∈ (s.step (.delete form block memory)).live,
        (s.step (.delete form block memory)).traced b = true ∧
          b.Opens key) ↔
      ¬(s.traced block = true ∧ block.Opens key) ∧
        ∃ b ∈ s.live, s.traced b = true ∧ b.Opens key := by
  have hlive := hallowed.1
  constructor
  · intro ⟨b, hb, htraced, hopens⟩
    obtain ⟨hne, hb⟩ := h.mem_erase.mp hb
    refine ⟨fun hkey => ?_, b, hb, htraced, hopens⟩
    have hapart := h.apart_of_ne hb hlive hne
    apply hapart.ptr_ne (h.proper b hb) (h.proper block hlive)
    exact hopens.ptr.symm.trans hkey.2.ptr
  · intro ⟨hclosed, b, hb, htraced, hopens⟩
    refine ⟨b, h.mem_erase.mpr ⟨?_, hb⟩, htraced, hopens⟩
    intro heq
    subst heq
    exact hclosed ⟨htraced, hopens⟩

theorem Traced.new {s : Session} (h : Traced s) {form : NewForm}
    {grant : Grant} {memory : Bytes}
    (hallowed : s.Allowed (.new form grant memory)) :
    Traced (s.step (.new form grant memory)) := by
  have hevents := step_new_events hallowed h.started h.data
  have hopen := open_new_iff hallowed
  have hprocess : (s.step (.new form grant memory)).process =
      (allocateImpl grant.count grant.alignment grant.base memory s.domains
        s.process).2 := by
    show (operatorNew form grant.count _ _ _ _).2 = _
    rw [operatorNew_of_allowed hallowed]
  apply Traced.mk (h.intact.new hallowed)
  · rw [hprocess]
    exact (allocateImpl_frame grant.count grant.alignment grant.base memory
      s.domains s.process (·.profilerStarted) Process.emit_profilerStarted
      (fun _ _ _ => rfl)).trans h.started
  · rw [hprocess]
    exact (allocateImpl_frame grant.count grant.alignment grant.base memory
      s.domains s.process (·.profilerData) Process.emit_profilerData
      (fun _ _ _ => rfl)).trans h.data
  · rw [hevents]
    by_cases hactive : s.process.tracyActive
    · rw [if_pos hactive]
      apply (tracks_allocEvents h.log (b := s.block grant) ?_).congr
      · intro key
        rw [hopen key, and_iff_right hactive]
      · intro key hopens ⟨b, hb, _, hopens'⟩
        have hapart := (hallowed.2.2 b hb).1
        apply hapart.ptr_ne hallowed.2.1 (h.intact.proper b hb)
        exact hopens.ptr.symm.trans hopens'.ptr
    · rw [if_neg hactive]
      apply h.log.congr
      intro key
      rw [hopen key, or_iff_right fun hkey => hactive hkey.1]

theorem Traced.delete {s : Session} (h : Traced s) {form : DeleteForm}
    {block : Block} {memory : Bytes}
    (hallowed : s.Allowed (.delete form block memory))
    (hmatched : s.Matched (.delete form block memory)) :
    Traced (s.step (.delete form block memory)) := by
  have hlive := hallowed.1
  have hproper := h.intact.proper block hlive
  have hopen := h.intact.open_delete_iff hallowed
  have hprocess : (s.step (.delete form block memory)).process =
      freeImpl block.ptr memory s.process :=
    h.intact.operatorDelete_ptr hlive
  apply Traced.mk (h.intact.delete hallowed)
  · rw [hprocess]
    exact (freeImpl_frame hproper.ptr_ne_zero memory s.process
      (·.profilerStarted) Process.emit_profilerStarted
      (fun _ _ _ => rfl)).trans h.started
  · rw [hprocess]
    exact (freeImpl_frame hproper.ptr_ne_zero memory s.process
      (·.profilerData) Process.emit_profilerData
      (fun _ _ _ => rfl)).trans h.data
  · rw [h.delete_events hallowed]
    by_cases hactive : s.process.tracyActive
    · rw [if_pos hactive]
      have htraced : s.traced block = true := hmatched.symm.trans hactive
      apply (tracks_freeEvents h.log (b := block) ?_).congr
      · intro key
        rw [hopen key, and_iff_right htraced]
      · exact fun key hopens => ⟨block, hlive, htraced, hopens⟩
    · rw [if_neg hactive]
      apply h.log.congr
      intro key
      rw [hopen key]
      refine (and_iff_right fun hkey => hactive ?_).symm
      exact hmatched.trans hkey.1

theorem Traced.step {s : Session} (h : Traced s) {op : Op}
    (hallowed : s.Allowed op) (hmatched : s.Matched op) :
    Traced (s.step op) := by
  cases op with
  | new form grant memory => exact h.new hallowed
  | delete form block memory => exact h.delete hallowed hmatched
  | write addr value =>
    exact ⟨h.intact.step hallowed, h.started, h.data, h.log⟩
  | push id => exact ⟨h.intact.step hallowed, h.started, h.data, h.log⟩
  | pop => exact ⟨h.intact.step hallowed, h.started, h.data, h.log⟩
  | setTracyActive active =>
    exact ⟨h.intact.step hallowed, h.started, h.data, h.log⟩

theorem traced_of_matched {memory : Bytes} {active : Bool} {s : Session}
    (h : Relation.ReflTransGen MatchedStep (start memory active true) s) :
    Traced s := by
  induction h with
  | refl => exact traced_start memory active
  | tail _ hstep ih =>
    obtain ⟨op, hallowed, hmatched, rfl⟩ := hstep
    exact ih.step hallowed hmatched

/-- In a program that deletes every block under the flag it was allocated
under, every pool sees every address allocated and freed in turns. -/
theorem trace_orderly (memory : Bytes) (active : Bool) {s : Session}
    (h : Relation.ReflTransGen MatchedStep (start memory active true) s) :
    Orderly (s.process.events.map TraceEvent.bracket) :=
  (traced_of_matched h).log.orderly

/-! ## Deletions under the other flag -/

/-- In a run that has been matched so far, a block is deleted with the flag
set that was allocated with it clear: the log is broken at once. -/
theorem not_orderly_of_untraced {s : Session} (h : Traced s)
    {form : DeleteForm} {block : Block} {memory : Bytes}
    (hallowed : s.Allowed (.delete form block memory))
    (hactive : s.process.tracyActive) (huntraced : s.traced block = false) :
    ¬Orderly ((s.step (.delete form block memory)).process.events.map
      TraceEvent.bracket) := by
  have hlive := hallowed.1
  have hproper := h.intact.proper block hlive
  rw [h.delete_events hallowed, if_pos hactive, List.map_append]
  intro horderly
  have hsplit : block.freeEvents.map TraceEvent.bracket =
      [.release block.namedKey] ++ [.release block.defaultKey] := rfl
  rw [hsplit, ← List.append_assoc] at horderly
  have hheld := horderly.held_of_release
  rw [held_append_release, Bool.and_eq_true, h.log.held_iff] at hheld
  obtain ⟨b, hb, htraced, hopens⟩ := hheld.2
  have hne : b ≠ block := by
    intro h
    subst h
    exact absurd (huntraced.symm.trans htraced) Bool.false_ne_true
  apply (h.intact.apart_of_ne hb hlive hne).ptr_ne
    (h.intact.proper b hb) hproper
  exact hopens.ptr.symm

/-- In a run that has been matched so far, a block is deleted with the flag
clear that was allocated with it set: the address stays open in the log. -/
theorem held_of_unclosed {s : Session} (h : Traced s) {form : DeleteForm}
    {block : Block} {memory : Bytes}
    (hallowed : s.Allowed (.delete form block memory))
    (hinactive : s.process.tracyActive = false)
    (htraced : s.traced block = true) :
    held block.defaultKey
      ((s.step (.delete form block memory)).process.events.map
        TraceEvent.bracket) = true := by
  rw [h.delete_events hallowed, if_neg (Bool.eq_false_iff.mp hinactive),
    h.log.held_iff]
  exact ⟨block, hallowed.1, htraced, Or.inr rfl⟩

/-- The log is then broken when `malloc` hands out the address once more
while tracing is on. -/
theorem not_orderly_of_held {s : Session} {form : NewForm} {grant : Grant}
    {memory : Bytes} (hallowed : s.Allowed (.new form grant memory))
    (hstarted : s.process.profilerStarted) (hdata : s.process.profilerData)
    (hactive : s.process.tracyActive)
    (hheld : held (.default, grant.ptr)
      (s.process.events.map TraceEvent.bracket) = true) :
    ¬Orderly ((s.step (.new form grant memory)).process.events.map
      TraceEvent.bracket) := by
  rw [step_new_events hallowed hstarted hdata, if_pos hactive,
    List.map_append]
  intro horderly
  have hsplit : (s.block grant).allocEvents.map TraceEvent.bracket =
      [.acquire (s.block grant).namedKey] ++
        [.acquire (s.block grant).defaultKey] := rfl
  rw [hsplit, ← List.append_assoc] at horderly
  have hfree := horderly.free_of_acquire
  rw [held_append_acquire, Bool.or_eq_false_iff] at hfree
  exact absurd (hfree.2.symm.trans hheld) Bool.false_ne_true

/-- A block lives through a stretch without tracing, in which another one
comes and goes, and its address is then handed out once more. -/
theorem trace_orderly_flips :
    let first : Grant := ⟨16, 8, 4096, 24, by decide⟩
    let second : Grant := ⟨16, 8, 8192, 24, by decide⟩
    let s₀ := start (fun _ => 0) true true
    let s₁ := s₀.step (.new .plain first fun _ => 0)
    let s₂ := s₁.step (.setTracyActive false)
    let s₃ := s₂.step (.new .plain second s₂.process.memory)
    let s₄ := s₃.step (.delete .plain (s₂.block second) s₃.process.memory)
    let s₅ := s₄.step (.setTracyActive true)
    let s₆ := s₅.step (.delete .plain (s₀.block first) s₅.process.memory)
    let s₇ := s₆.step (.new .plain first s₆.process.memory)
    Relation.ReflTransGen MatchedStep s₀ s₇ ∧
      marks (.default, 4112) (s₇.process.events.map TraceEvent.bracket) =
        [true, false, true] ∧
      Orderly (s₇.process.events.map TraceEvent.bracket) := by
  intro first second s₀ s₁ s₂ s₃ s₄ s₅ s₆ s₇
  have hfirst : first.Proper := ⟨⟨16, ⟨4, by decide⟩, by decide⟩, by decide⟩
  have hsecond : second.Proper := ⟨⟨16, ⟨4, by decide⟩, by decide⟩, by decide⟩
  let b := s₀.block first
  have hnew : s₀.Allowed (.new .plain first fun _ => 0) :=
    ⟨rfl, hfirst, fun b hb => absurd hb List.not_mem_nil⟩
  have hother : s₂.Allowed (.new .plain second s₂.process.memory) :=
    ⟨rfl, hsecond,
      List.forall_mem_singleton.mpr ⟨Or.inr (by decide), fun _ _ => rfl⟩⟩
  have hotherGone : s₃.Allowed
      (.delete .plain (s₂.block second) s₃.process.memory) :=
    ⟨List.mem_cons_self, fun _ _ _ _ _ => rfl⟩
  have hgone : s₅.Allowed (.delete .plain b s₅.process.memory) :=
    ⟨List.mem_cons_self, fun _ _ _ _ _ => rfl⟩
  have hagain : s₆.Allowed (.new .plain first s₆.process.memory) :=
    ⟨rfl, hfirst, fun b hb => absurd hb List.not_mem_nil⟩
  have htraced : s₃.traced b = true :=
    (step_new_traced_of_mem hother List.mem_cons_self).trans
      (s₀.step_new_traced_self .plain first fun _ => 0)
  have huntraced : s₃.traced (s₂.block second) = false :=
    s₂.step_new_traced_self .plain second s₂.process.memory
  have hrun₂ : Relation.ReflTransGen MatchedStep s₀ s₂ :=
    (Relation.ReflTransGen.single ⟨_, hnew, trivial, rfl⟩).tail
      ⟨.setTracyActive false, trivial, trivial, rfl⟩
  have hrun₃ : Relation.ReflTransGen MatchedStep s₀ s₃ :=
    hrun₂.tail ⟨_, hother, trivial, rfl⟩
  have hrun₅ : Relation.ReflTransGen MatchedStep s₀ s₅ :=
    (hrun₃.tail ⟨_, hotherGone, huntraced.symm, rfl⟩).tail
      ⟨.setTracyActive true, trivial, trivial, rfl⟩
  have hrun₆ := hrun₅.tail ⟨_, hgone, htraced.symm, rfl⟩
  have hrun₇ : Relation.ReflTransGen MatchedStep s₀ s₇ :=
    hrun₆.tail ⟨_, hagain, trivial, rfl⟩
  have hs₀ := traced_start (fun _ => 0) true
  have hs₂ := traced_of_matched hrun₂
  have hs₃ := traced_of_matched hrun₃
  have hs₅ := traced_of_matched hrun₅
  have hs₆ := traced_of_matched hrun₆
  have hevents : s₇.process.events =
      b.allocEvents ++ b.freeEvents ++ b.allocEvents := by
    have h₁ : s₁.process.events = [] ++ b.allocEvents :=
      step_new_events hnew hs₀.started hs₀.data
    have h₃ : s₃.process.events = s₁.process.events :=
      step_new_events hother hs₂.started hs₂.data
    have h₄ : s₄.process.events = s₃.process.events :=
      hs₃.delete_events hotherGone
    have h₆ : s₆.process.events = s₄.process.events ++ b.freeEvents :=
      hs₅.delete_events hgone
    have h₇ : s₇.process.events = s₆.process.events ++ b.allocEvents :=
      step_new_events hagain hs₆.started hs₆.data
    rw [h₇, h₆, h₄, h₃, h₁, List.nil_append]
  have hptr : b.ptr = 4112 := by
    show 4096 + (prefixSize 16).toNat = 4112
    decide
  clear_value s₇
  refine ⟨hrun₇, ?_, trace_orderly (fun _ => 0) true hrun₇⟩
  rw [hevents, Block.allocEvents, Block.freeEvents, hptr]
  simp [marks, Bracket.mark, TraceEvent.bracket]

/-- A block that is allocated before tracing is activated and deleted after:
the trace frees what it never allocated. -/
theorem trace_frees_untraced :
    let grant : Grant := ⟨16, 8, 4096, 24, by decide⟩
    let s₀ := start (fun _ => 0) false true
    let s₁ := s₀.step (.new .plain grant fun _ => 0)
    let s₂ := s₁.step (.setTracyActive true)
    let s₃ := s₂.step (.delete .plain (s₀.block grant) fun _ => 0)
    Reachable s₀ s₃ ∧
      s₃.process.events =
        [.free (.named "Default") 4112, .free .default 4112] ∧
      ¬Orderly (s₃.process.events.map TraceEvent.bracket) := by
  intro grant s₀ s₁ s₂ s₃
  have hproper : grant.Proper := ⟨⟨16, ⟨4, by decide⟩, by decide⟩, by decide⟩
  have hactivated : Reachable s₀ s₂ := by
    refine .tail (.single ⟨.new .plain grant fun _ => 0, ?_, rfl⟩)
      ⟨.setTracyActive true, trivial, rfl⟩
    exact ⟨rfl, hproper, fun b hb => absurd hb List.not_mem_nil⟩
  have hdelete : Step s₂ s₃ := by
    refine ⟨.delete .plain (s₀.block grant) fun _ => 0,
      ⟨List.mem_cons_self, fun b hb hne => ?_⟩, rfl⟩
    exact absurd (List.mem_singleton.mp hb) hne
  have hstamped : Stamped s₂.process.memory (s₀.block grant) :=
    (intact_of_reachable hactivated).stamped _ List.mem_cons_self
  have hname : getMemoryDomainName (s₀.block grant).domain = "Default" :=
    if_pos rfl
  have hptr : (s₀.block grant).ptr = 4112 := by
    show 4096 + (prefixSize 16).toNat = 4112
    decide
  have hevents : s₃.process.events = (s₀.block grant).freeEvents :=
    freeImpl_events (b := s₀.block grant) hproper (fun _ => 0) hstamped rfl rfl
  rw [Block.freeEvents, hname, hptr] at hevents
  refine ⟨hactivated.tail hdelete, hevents, fun horderly => ?_⟩
  have hfirst := horderly (.default, 4112)
  rw [hevents] at hfirst
  simp [marks, Bracket.mark, TraceEvent.bracket, AlternatesFrom] at hfirst

end Session

end VulkanCompute.Profiler
