import VulkanCompute.Profiler.Collect
import VulkanCompute.Profiler.GpuServer
import VulkanCompute.Profiler.GpuZones
import VulkanCompute.Profiler.MemMirror

/-!
# The server shows the scopes

The server finds the zone of a query by its slot, which many queries share
over time, and the zone of an end by the stack of its thread.

* `GpuMirrors` relates the server to the posts: the table has the zones of the
  announced queries without a time, the stacks have the open scopes, and the
  zones have the times of their scopes.
* `GpuMirrors.zoneBegin` and so on: the server processes one more post without
  a failed assertion, and the relation holds for the longer list.
* `scopes_shown`: for every run of the program's side, the server shows each
  scope with the times of its own two queries.
-/

namespace VulkanCompute.Profiler

open Lib

/-! ## Times -/

/-- What the zone of a scope shows when the times `gpu` have been reported,
with -1 for what is not there yet. -/
def ZoneRecord.times {τ : Type*} (Q : QueryCount) (tscTime : Int64 → Int64)
    (gpu : List Int64) (z : ZoneRecord τ) : ZoneTimes where
  cpuStart := tscTime z.start
  cpuEnd := (z.stop.map tscTime).getD (-1)
  gpuStart := (gpu[z.scope]?).getD (-1)
  gpuEnd := (z.close.bind (gpu[·]?)).getD (-1)
  queryId := Q.queryId z.scope

variable {τ : Type*} [DecidableEq τ]

/-- The times that the server computes from those of the posts. -/
def gpuTimes (convert : Int64 → Int64) (posts : List (Post τ)) : List Int64 :=
  (feed GpuClock.tick .start (ticks posts)).2.map convert

/-! ## The relation -/

/-- The scope at a place. -/
def scopeAt (posts : List (Post τ)) (k : Nat) : Option Nat :=
  ((zonesOf posts)[k]?).map (·.scope)

omit [DecidableEq τ] in
theorem scopeAt_zoneEnd (posts : List (Post τ)) (t : τ) (id scope : Nat)
    (time : Int64) (k : Nat) :
    scopeAt (posts ++ [⟨t, .zoneEnd id scope, time⟩]) k = scopeAt posts k := by
  rw [scopeAt, zonesOf_append_singleton]
  show (((zonesOf posts).map _)[k]?).map _ = _
  rw [List.getElem?_map, Option.map_map]
  exact congrArg (Option.map · _)
    (funext (ZoneRecord.scope_finish id scope time))

/-- What the server knows, and what has been posted. -/
structure GpuMirrors (handle : τ → UInt32) (tscTime : Int64 → Int64)
    (scale : UInt32 → Int64 → Int64) (convert : Int64 → Int64) (Q : QueryCount)
    (context : UInt8) (log : List (LogEntry τ)) (posts : List (Post τ))
    (ctx : GpuCtxData) (s : GpuServer) : Prop where
  mem : Mirrors handle tscTime log s.mem
  reference : s.refTimeGpu = (referenceAfter handle log).gpu
  ctx_eq : s.gpuCtxMap context = some ctx
  thread : ctx.thread = 0
  converts : ∀ t, GpuServer.toCpuTime scale ctx t = convert t
  clock : ctx.clock = (feed GpuClock.tick .start (ticks posts)).1
  query : Shows Q.size (reported posts) (fun k => ctx.query (.ofNat k))
    (ownerOf posts)
  nested : ∀ t, (ctx.stackOf (handle t)).map (scopeAt posts) =
    (openScopes posts t).map some
  zones : s.zones.map GpuEvent.times =
    (zonesOf posts).map (·.times Q tscTime (gpuTimes convert posts))

/-! ### Lists -/

/-- One place of both lists changes. -/
theorem map_set_eq_map {α β γ : Type*} {f : α → γ} {g g' : β → γ} {l : List α}
    {l' : List β} {k : Nat} {a : α} {z : β} (h : l.map f = l'.map g)
    (hz : l'[k]? = some z) (ha : f a = g' z)
    (hothers : ∀ j z, l'[j]? = some z → j ≠ k → g' z = g z) :
    (l.set k a).map f = l'.map g' := by
  have hlength : l.length = l'.length := by
    simpa using congrArg List.length h
  obtain ⟨hk, -⟩ := List.getElem?_eq_some_iff.mp hz
  refine List.ext_getElem? fun j => ?_
  rw [List.map_set, List.getElem?_set, List.length_map, h, List.getElem?_map,
    List.getElem?_map]
  by_cases hj : k = j
  · rw [if_pos hj, if_pos (hlength ▸ hk), ← hj, hz, ha]
    rfl
  · rw [if_neg hj]
    cases hj' : l'[j]? with
    | none => rfl
    | some z' => exact congrArg some (hothers j z' hj' (Ne.symm hj)).symm

theorem getD_concat {γ : Type*} (l : List γ) (x d : γ) (i : Nat) :
    ((l ++ [x])[i]?).getD d = if i = l.length then x else (l[i]?).getD d := by
  rcases Nat.lt_trichotomy i l.length with hlt | heq | hgt
  · rw [List.getElem?_append_left hlt, if_neg (Nat.ne_of_lt hlt)]
  · rw [heq, if_pos rfl, List.getElem?_concat_length]
    rfl
  · rw [if_neg (Nat.ne_of_gt hgt), List.getElem?_eq_none (by simp; omega),
      List.getElem?_eq_none (Nat.le_of_lt hgt)]

/-! ### Times of a scope -/

namespace ZoneRecord

omit [DecidableEq τ]

variable {Q : QueryCount} {tscTime : Int64 → Int64} {gpu : List Int64}
  {z : ZoneRecord τ} {id scope : Nat}

/-- The scope ends with a query that is not reported yet. -/
theorem times_finish (hclose : z.close = none) (hscope : z.scope = scope)
    (hid : gpu.length ≤ id) (time : Int64) :
    (z.finish id scope time).times Q tscTime gpu =
      { z.times Q tscTime gpu with cpuEnd := tscTime time } := by
  rw [finish_self hscope]
  unfold times
  rw [hclose]
  dsimp only [Option.bind_some, Option.bind_none, Option.map_some]
  rw [List.getElem?_eq_none hid]
  rfl

/-- A time of another scope is reported. -/
theorem times_concat_of_not_owns (h : ¬z.Owns gpu.length) (x : Int64) :
    z.times Q tscTime (gpu ++ [x]) = z.times Q tscTime gpu := by
  have hscope : z.scope ≠ gpu.length := fun heq => h (Or.inl heq)
  unfold times
  rw [getD_concat, if_neg hscope]
  cases hclose : z.close with
  | none => rfl
  | some id =>
    have hid : id ≠ gpu.length := fun heq => h (Or.inr (heq ▸ hclose))
    dsimp only [Option.bind_some]
    rw [getD_concat, if_neg hid]

/-- The first time of the scope is reported. -/
theorem times_concat_of_scope (hscope : z.scope = gpu.length)
    (hclose : ∀ id, z.close = some id → z.scope < id) (x : Int64) :
    z.times Q tscTime (gpu ++ [x]) =
      { z.times Q tscTime gpu with gpuStart := x } := by
  unfold times
  rw [getD_concat, if_pos hscope]
  cases hend : z.close with
  | none => rfl
  | some id =>
    have hid : id ≠ gpu.length := by
      have hlt := hclose id hend
      omega
    dsimp only [Option.bind_some]
    rw [getD_concat, if_neg hid]

/-- The second time of the scope is reported. -/
theorem times_concat_of_close (hclose : z.close = some gpu.length)
    (hscope : z.scope ≠ gpu.length) (x : Int64) :
    z.times Q tscTime (gpu ++ [x]) =
      { z.times Q tscTime gpu with gpuEnd := x } := by
  unfold times
  rw [getD_concat, if_neg hscope, hclose]
  dsimp only [Option.bind_some]
  rw [getD_concat, if_pos rfl]

end ZoneRecord

/-! ## One post -/

section Step

variable {handle : τ → UInt32} {tscTime : Int64 → Int64}
  {scale : UInt32 → Int64 → Int64} {convert : Int64 → Int64} {Q : QueryCount}
  {context : UInt8} {log : List (LogEntry τ)} {posts : List (Post τ)}
  {ctx : GpuCtxData} {s : GpuServer}

omit [DecidableEq τ] in
theorem gpuTimes_append_of_none (convert : Int64 → Int64)
    (posts : List (Post τ)) {p : Post τ} (hnone : p.call.ticks = none) :
    gpuTimes convert (posts ++ [p]) = gpuTimes convert posts := by
  rw [gpuTimes, ticks_append_of_none posts hnone, gpuTimes]

omit [DecidableEq τ] in
theorem gpuTimes_append_of_some (convert : Int64 → Int64)
    (posts : List (Post τ)) {p : Post τ} {time : Int64}
    (hsome : p.call.ticks = some time) :
    gpuTimes convert (posts ++ [p]) = gpuTimes convert posts ++
      [convert ((feed GpuClock.tick .start (ticks posts)).1.tick time).2] := by
  rw [gpuTimes, ticks_append_singleton, hsome, feed_append, List.map_append]
  rfl

omit [DecidableEq τ] in
theorem length_gpuTimes (convert : Int64 → Int64) (posts : List (Post τ)) :
    (gpuTimes convert posts).length = reported posts := by
  rw [gpuTimes, List.length_map, length_feed]
  rfl

theorem query_update (query : UInt16 → Option Nat) (id : Nat) (a : Option Nat)
    {k : Nat} (hk : k < Q.size) :
    Function.update query (Q.queryId id) a (.ofNat k) =
      if k = id % Q.size then a else query (.ofNat k) := by
  rw [Function.update_apply]
  exact if_congr (Q.ofNat_eq_queryId_iff hk id) rfl rfl

omit [DecidableEq τ] in
/-- The items of an event that is about memory. -/
theorem delta_of_isMemory (handle : τ → UInt32) (log : List (LogEntry τ))
    (t : τ) (time : Int64) {call : SerialCall} (hcall : call.isMemory) :
    (∀ item ∈ (delta handle log ⟨t, call, time⟩).2, item.isMemory) ∧
      (delta handle log ⟨t, call, time⟩).1.gpu =
        (referenceAfter handle log).gpu := by
  cases call with
  | memAlloc ptr size => exact ⟨List.forall_mem_singleton.mpr rfl, rfl⟩
  | memAllocNamed ptr size name =>
    exact ⟨List.forall_mem_cons.mpr ⟨rfl, List.forall_mem_singleton.mpr rfl⟩,
      rfl⟩
  | memFree ptr => exact ⟨List.forall_mem_singleton.mpr rfl, rfl⟩
  | memFreeNamed ptr name =>
    exact ⟨List.forall_mem_cons.mpr ⟨rfl, List.forall_mem_singleton.mpr rfl⟩,
      rfl⟩
  | gpuNewContext ev => exact absurd hcall nofun
  | gpuZoneBegin queryId context srcloc => exact absurd hcall nofun
  | gpuZoneEnd queryId context => exact absurd hcall nofun
  | gpuTime time queryId context => exact absurd hcall nofun

namespace GpuMirrors

variable (h : GpuMirrors handle tscTime scale convert Q context log posts ctx s)

include h

/-- The slot of a query says who waits for it. -/
theorem query_queryId {id : Nat} (hge : reported posts ≤ id)
    (hlt : id < reported posts + Q.size) :
    ctx.query (Q.queryId id) = ownerOf posts id :=
  h.query id hge hlt

theorem length_zones : s.zones.length = (zonesOf posts).length := by
  simpa using congrArg List.length h.zones

theorem times_eq {k : Nat} {z : ZoneRecord τ} (hz : ZoneAt posts k z) :
    ∃ hk : k < s.zones.length, s.zones[k].times =
      z.times Q tscTime (gpuTimes convert posts) := by
  obtain ⟨hk, hzk⟩ := List.getElem?_eq_some_iff.mp hz
  refine ⟨h.length_zones ▸ hk, ?_⟩
  have hmaps := congrArg (·[k]?) h.zones
  simp only [List.getElem?_map] at hmaps
  rw [List.getElem?_eq_getElem (h.length_zones ▸ hk), hz] at hmaps
  exact Option.some.inj hmaps

theorem exists_zoneAt {t : τ} {k : Nat} (hk : k ∈ ctx.stackOf (handle t)) :
    ∃ z, ZoneAt posts k z := by
  have hmem : scopeAt posts k ∈ (openScopes posts t).map some :=
    h.nested t ▸ List.mem_map_of_mem hk
  obtain ⟨scope, -, hscope⟩ := List.mem_map.mp hmem
  obtain ⟨z, hz, -⟩ := Option.map_eq_some_iff.mp hscope.symm
  exact ⟨z, hz⟩

theorem refTime_serial (time : Int64) :
    refTime s.mem.refTimeSerial
      (time - (referenceAfter handle log).serial) = time := by
  rw [h.mem.reference, refTime_sub]

/-- No zone waits for a query that has not been announced. -/
theorem query_of_unannounced (hposts : Coherent posts) {id : Nat}
    (hallowed : Unannounced Q posts id) : ctx.query (Q.queryId id) = none :=
  (h.query_queryId hallowed.ge hallowed.lt).trans
    (hposts.ownerOf_eq_none hallowed.fresh)

/-- A zone waits for a query that is announced. -/
theorem query_announce {p : Post τ} {id k₀ : Nat} (hposts : Coherent posts)
    (hlater : Coherent (posts ++ [p])) (hnone : p.call.ticks = none)
    (hallowed : Unannounced Q posts id)
    (howner : ∀ i k, OwnerAt (posts ++ [p]) i k ↔
      OwnerAt posts i k ∨ i = id ∧ k = k₀) :
    Shows Q.size (reported (posts ++ [p]))
      (fun k => Function.update ctx.query (Q.queryId id) (some k₀) (.ofNat k))
      (ownerOf (posts ++ [p])) := by
  rw [reported, ticks_append_of_none posts hnone]
  obtain ⟨hself, hothers⟩ := hposts.ownerOf_append hlater howner
  exact h.query.set hallowed.ge hallowed.lt _
    (fun k hk => query_update ctx.query id _ hk) hself hothers

/-- The stacks are those of the scopes, which a post about none leaves. -/
theorem nested_of_not_announced {p : Post τ}
    (hannounced : p.call.announced = none) (u : τ) :
    (ctx.stackOf (handle u)).map (scopeAt (posts ++ [p])) =
      (openScopes (posts ++ [p]) u).map some := by
  have hscopes : scopeAt (posts ++ [p]) = scopeAt posts := by
    funext k
    rw [scopeAt, zonesOf_of_not_announced hannounced, scopeAt]
  rw [openScopes_of_not_announced hannounced, hscopes]
  exact h.nested u

/-! ### A scope begins -/

theorem nested_zoneBegin (hinj : Function.Injective handle) (t : τ) (id : Nat)
    (srcloc : UInt64) (time : Int64) (u : τ) :
    let p : Post τ := ⟨t, .zoneBegin id srcloc, time⟩
    (if handle u = handle t then s.zones.length :: ctx.stackOf (handle t)
      else ctx.stackOf (handle u)).map (scopeAt (posts ++ [p])) =
        (openScopes (posts ++ [p]) u).map some := by
  intro p
  have hsame : ∀ k ∈ ctx.stackOf (handle u),
      scopeAt (posts ++ [p]) k = scopeAt posts k := by
    intro k hk
    obtain ⟨z, hz⟩ := h.exists_zoneAt hk
    have hz' : ZoneAt (posts ++ [p]) k z :=
      (zoneAt_zoneBegin ..).mpr (Or.inl hz)
    rw [scopeAt, hz', scopeAt, hz]
  have hold : (ctx.stackOf (handle u)).map (scopeAt (posts ++ [p])) =
      (openScopes posts u).map some :=
    (List.map_congr_left hsame).trans (h.nested u)
  rw [openScopes_append_singleton, openScopesStep]
  by_cases hu : t = u
  · subst hu
    have hnew : ZoneAt (posts ++ [p]) s.zones.length
        ⟨t, id, none, srcloc, time, none⟩ :=
      (zoneAt_zoneBegin ..).mpr (Or.inr ⟨h.length_zones, rfl⟩)
    rw [if_pos rfl, if_pos rfl]
    show scopeAt _ _ :: _ = some id :: _
    rw [hold, scopeAt, hnew]
    rfl
  · rw [if_neg fun heq => hu (hinj heq).symm, if_neg hu]
    exact hold

theorem zones_zoneBegin (t : τ) {id : Nat} (hge : reported posts ≤ id)
    (srcloc : UInt64) (time : Int64) :
    let p : Post τ := ⟨t, .zoneBegin id srcloc, time⟩
    s.zones.map GpuEvent.times ++
      [⟨tscTime time, -1, -1, -1, Q.queryId id⟩] =
        (zonesOf (posts ++ [p])).map
          (·.times Q tscTime (gpuTimes convert (posts ++ [p]))) := by
  intro p
  have hnew : ZoneRecord.times Q tscTime (gpuTimes convert posts)
      ⟨t, id, none, srcloc, time, none⟩ =
        ⟨tscTime time, -1, -1, -1, Q.queryId id⟩ := by
    have hnone : (gpuTimes convert posts)[id]? = none :=
      List.getElem?_eq_none ((length_gpuTimes convert posts).trans_le hge)
    unfold ZoneRecord.times
    dsimp only
    rw [hnone]
    rfl
  rw [h.zones, gpuTimes_append_of_none convert posts rfl,
    zonesOf_append_singleton]
  show _ = (zonesOf posts ++ [_]).map _
  rw [List.map_append, List.map_singleton, hnew]

theorem zoneBegin (hposts : Lawful Q posts) (hinj : Function.Injective handle)
    {t : τ} {id : Nat} {srcloc : UInt64} {time : Int64}
    (hallowed : Unannounced Q posts id)
    (hfits : MemEvent.FitsTime (tscTime time)) :
    let p : Post τ := ⟨t, .zoneBegin id srcloc, time⟩
    ∃ s' ctx', s.run tscTime scale (delta handle log (p.entry Q context)).2 =
        some s' ∧
      GpuMirrors handle tscTime scale convert Q context
        (log ++ [p.entry Q context]) (posts ++ [p]) ctx' s' := by
  intro p
  have hcoherent := hposts.coherent
  have hlater : Coherent (posts ++ [p]) :=
    hcoherent.zoneBegin hallowed.fresh t srcloc time
  obtain ⟨-, href⟩ := deltas_append_singleton handle log (p.entry Q context)
  obtain ⟨s', timeline, hanswer, hmem, hgpu, hctx, hzones⟩ :=
    GpuServer.processGpuZoneBegin_some
      ⟨_, handle t, Q.queryId id, context, srcloc⟩ h.ctx_eq h.thread
      (h.refTime_serial time) hfits
      (h.query_of_unannounced hcoherent hallowed) fun k hk =>
        let ⟨_, hz⟩ := h.exists_zoneAt hk
        (h.times_eq hz).1
  have hmirrors : GpuMirrors handle tscTime scale convert Q context
      (log ++ [p.entry Q context]) (posts ++ [p]) _ s' :=
    { mem := by
        rw [hmem]
        exact h.mem.frame rfl (congrArg RefTimes.serial href) ..
      reference := by
        rw [hgpu, h.reference, href]
        rfl
      ctx_eq := hctx
      thread := h.thread
      converts := h.converts
      clock := by
        rw [ticks_append_of_none posts rfl]
        exact h.clock
      query := h.query_announce hcoherent hlater rfl hallowed
        (h.length_zones ▸ fun _ _ => ownerAt_zoneBegin ..)
      nested := fun u => by
        rw [GpuCtxData.stackOf_update]
        exact h.nested_zoneBegin hinj t id srcloc time u
      zones := hzones.trans (h.zones_zoneBegin t hallowed.ge srcloc time) }
  exact ⟨s', _, (GpuServer.run_singleton _ h.mem.failure).trans hanswer,
    hmirrors⟩

/-! ### A scope ends -/

/-- The zone of the innermost scope is on top of the stack. -/
theorem exists_top {t : τ} {scope : Nat}
    (hscope : (openScopes posts t).head? = some scope) :
    ∃ k stack z, ctx.stackOf (handle t) = k :: stack ∧ ZoneAt posts k z ∧
      z.scope = scope ∧
      stack.map (scopeAt posts) = (openScopes posts t).tail.map some := by
  have hnested := h.nested t
  rw [← List.cons_head?_tail hscope] at hnested
  obtain ⟨k, stack, hstack, hk, htail⟩ := List.map_eq_cons_iff.mp hnested
  obtain ⟨z, hz, hz'⟩ := Option.map_eq_some_iff.mp hk
  exact ⟨k, stack, z, hstack, hz, hz', htail⟩

theorem nested_zoneEnd (hinj : Function.Injective handle) (t : τ)
    (id scope : Nat) (time : Int64) {stack : List Nat}
    (htail : stack.map (scopeAt posts) = (openScopes posts t).tail.map some)
    (u : τ) :
    let p : Post τ := ⟨t, .zoneEnd id scope, time⟩
    (if handle u = handle t then stack else ctx.stackOf (handle u)).map
        (scopeAt (posts ++ [p])) =
      (openScopes (posts ++ [p]) u).map some := by
  intro p
  rw [openScopes_append_singleton, openScopesStep,
    List.map_congr_left fun k _ => scopeAt_zoneEnd posts t id scope time k]
  by_cases hu : t = u
  · subst hu
    rw [if_pos rfl, if_pos rfl]
    exact htail
  · rw [if_neg fun heq => hu (hinj heq).symm, if_neg hu]
    exact h.nested u

theorem zones_zoneEnd (hposts : Coherent posts) {t : τ} {id k : Nat}
    {z : ZoneRecord τ} {time : Int64} (hge : reported posts ≤ id)
    (hmem : z.scope ∈ openScopes posts t) (hz : ZoneAt posts k z)
    (hfits : MemEvent.FitsTime (tscTime time)) :
    let p : Post τ := ⟨t, .zoneEnd id z.scope, time⟩
    ∃ hk : k < s.zones.length,
      (s.zones.set k (s.zones[k].setCpuEnd (tscTime time))).map GpuEvent.times =
        (zonesOf (posts ++ [p])).map
          (·.times Q tscTime (gpuTimes convert (posts ++ [p]))) := by
  intro p
  obtain ⟨hk, htimes⟩ := h.times_eq hz
  have hclose := (hposts.of_mem_openScopes hmem hz rfl).2
  have hge : (gpuTimes convert posts).length ≤ id :=
    (length_gpuTimes convert posts).trans_le hge
  refine ⟨hk, ?_⟩
  rw [gpuTimes_append_of_none convert posts rfl, zonesOf_append_singleton]
  show _ = ((zonesOf posts).map _).map _
  rw [List.map_map]
  refine map_set_eq_map h.zones hz ?_ fun k' z' hz' hne => ?_
  · rw [GpuEvent.times_setCpuEnd _ hfits, htimes]
    exact (ZoneRecord.times_finish hclose rfl hge time).symm
  · have hother : z'.scope ≠ z.scope :=
      fun heq => hne (hposts.scope_unique hz hz' heq).1
    exact congrArg _ (ZoneRecord.finish_of_ne hother)

theorem zoneEnd (hposts : Lawful Q posts) (hinj : Function.Injective handle)
    {t : τ} {id scope : Nat} {time : Int64} (hallowed : Unannounced Q posts id)
    (hscope : (openScopes posts t).head? = some scope) (hlt : scope < id)
    (hfits : MemEvent.FitsTime (tscTime time)) :
    let p : Post τ := ⟨t, .zoneEnd id scope, time⟩
    ∃ s' ctx', s.run tscTime scale (delta handle log (p.entry Q context)).2 =
        some s' ∧
      GpuMirrors handle tscTime scale convert Q context
        (log ++ [p.entry Q context]) (posts ++ [p]) ctx' s' := by
  intro p
  have hcoherent := hposts.coherent
  have hlater : Coherent (posts ++ [p]) :=
    hcoherent.zoneEnd hallowed.fresh hscope hlt time
  obtain ⟨-, href⟩ := deltas_append_singleton handle log (p.entry Q context)
  have hmem := List.mem_of_mem_head? hscope
  obtain ⟨k, stack, z, hstack, hz, rfl, htail⟩ := h.exists_top hscope
  obtain ⟨hk, hzones⟩ :=
    h.zones_zoneEnd hcoherent hallowed.ge hmem hz hfits
  obtain ⟨timeline, hanswer⟩ := GpuServer.processGpuZoneEnd_some
    ⟨_, handle t, Q.queryId id, context⟩ h.ctx_eq hstack hk
    (h.refTime_serial time) hfits (h.query_of_unannounced hcoherent hallowed)
  refine ⟨_, _, (GpuServer.run_singleton _ h.mem.failure).trans hanswer,
    { mem := h.mem.frame rfl (congrArg RefTimes.serial href) _ s.mem.threads
      reference := by
        show s.refTimeGpu = _
        rw [h.reference, href]
        rfl
      ctx_eq := Function.update_self ..
      thread := h.thread
      converts := h.converts
      clock := by
        rw [ticks_append_of_none posts rfl]
        exact h.clock
      query := h.query_announce hcoherent hlater rfl hallowed
        (hcoherent.ownerAt_zoneEnd hmem hz rfl id time)
      nested := fun u => by
        rw [GpuCtxData.stackOf_update]
        exact h.nested_zoneEnd hinj t id z.scope time htail u
      zones := hzones }⟩

/-! ### A time is reported -/

/-- Nobody waits for a query once its time is reported. -/
theorem query_gpuTime (hposts : Lawful Q posts) (t : τ) {id : Nat}
    (hid : id = reported posts) (tgpu time : Int64) :
    let p : Post τ := ⟨t, .gpuTime id tgpu, time⟩
    Shows Q.size (reported (posts ++ [p]))
      (fun k => Function.update ctx.query (Q.queryId id) none (.ofNat k))
      (ownerOf (posts ++ [p])) := by
  intro p
  have hreported : reported (posts ++ [p]) = reported posts + 1 :=
    reported_append_singleton posts p
  have howner : ownerOf (posts ++ [p]) = ownerOf posts := by
    funext i
    rw [ownerOf, zonesOf_of_not_announced rfl, ownerOf]
  rw [hreported, howner]
  refine h.query.retire (Nat.mod_lt _ Q.pos) (fun k hk => ?_)
    fun i hge _ => hposts.coherent.ownerOf_eq_none fun hin => ?_
  · refine (query_update ctx.query id none hk).trans ?_
    rw [hid]
    exact if_congr (by omega) rfl rfl
  · exact absurd (hposts.lt_of_announced hin) (Nat.not_lt.mpr hge)

/-- The zone of the query gets the time, as the first one of its scope or as
the second one when the first one has been reported. -/
theorem zones_gpuTime (hposts : Coherent posts) {k : Nat} {z : ZoneRecord τ}
    (hz : ZoneAt posts k z) (howns : z.Owns (reported posts))
    (hstarted : ∀ x ∈ gpuTimes convert posts, 0 ≤ x) {x : Int64}
    (hfits : MemEvent.FitsTime x) :
    ∃ hk : k < s.zones.length,
      (s.zones.set k
        (if s.zones[k].gpuStart < 0 then s.zones[k].setGpuStart x
          else s.zones[k].setGpuEnd x)).map GpuEvent.times =
        (zonesOf posts).map
          (·.times Q tscTime (gpuTimes convert posts ++ [x])) := by
  obtain ⟨hk, htimes⟩ := h.times_eq hz
  have hstart : s.zones[k].gpuStart =
      ((gpuTimes convert posts)[z.scope]?).getD (-1) :=
    congrArg ZoneTimes.gpuStart htimes
  rw [← length_gpuTimes convert posts] at howns
  refine ⟨hk, map_set_eq_map h.zones hz ?_ fun k' z' hz' hne => ?_⟩
  · by_cases hscope : z.scope = (gpuTimes convert posts).length
    · -- the first time
      have hwaiting : s.zones[k].gpuStart < 0 := by
        rw [hstart, List.getElem?_eq_none hscope.ge]
        decide
      rw [if_pos hwaiting, GpuEvent.times_setGpuStart _ hfits, htimes]
      exact (ZoneRecord.times_concat_of_scope hscope
        (fun i => hposts.close_gt k z i hz) _).symm
    · -- the second time
      have hclose := howns.resolve_left hscope
      have hbegun := hposts.close_gt k z _ hz hclose
      have hsecond : ¬s.zones[k].gpuStart < 0 := by
        rw [hstart, List.getElem?_eq_getElem hbegun, Int64.not_lt]
        exact hstarted _ (List.getElem_mem hbegun)
      rw [if_neg hsecond, GpuEvent.times_setGpuEnd _ hfits, htimes]
      exact (ZoneRecord.times_concat_of_close hclose hscope _).symm
  · refine ZoneRecord.times_concat_of_not_owns (fun howns' => hne ?_) _
    exact hposts.owner_unique _ k' k z' z hz' hz howns' howns

theorem gpuTime (hposts : Lawful Q posts) {t : τ} {id : Nat}
    {tgpu time : Int64} (hid : id = reported posts)
    (hmem : id ∈ announced posts)
    (hshown : ∀ x ∈ gpuTimes convert (posts ++ [⟨t, .gpuTime id tgpu, time⟩]),
      0 ≤ x ∧ MemEvent.FitsTime x) :
    let p : Post τ := ⟨t, .gpuTime id tgpu, time⟩
    ∃ s' ctx', s.run tscTime scale (delta handle log (p.entry Q context)).2 =
        some s' ∧
      GpuMirrors handle tscTime scale convert Q context
        (log ++ [p.entry Q context]) (posts ++ [p]) ctx' s' := by
  intro p
  have hcoherent := hposts.coherent
  obtain ⟨-, href⟩ := deltas_append_singleton handle log (p.entry Q context)
  have hreference : refTime s.refTimeGpu
      (tgpu - (referenceAfter handle log).gpu) = tgpu := by
    rw [h.reference, refTime_sub]
  have hgpuTimes := gpuTimes_append_of_some convert posts (p := p) rfl
  rw [hgpuTimes] at hshown
  have hfits := (hshown _ (List.mem_append_right _ List.mem_cons_self)).2
  -- the zone that waits
  obtain ⟨k, z, hz, howns⟩ := (hcoherent.mem_announced_iff id).mp hmem
  have hlt : id < reported posts + Q.size :=
    hid.trans_lt (Nat.lt_add_of_pos_right Q.pos)
  have hwaits : ctx.query (Q.queryId id) = some k :=
    (h.query_queryId hid.ge hlt).trans
      (hcoherent.ownerOf_eq_some_iff.mpr ⟨z, hz, howns⟩)
  obtain ⟨hk, hzones⟩ := h.zones_gpuTime hcoherent hz (hid ▸ howns)
    (fun x hx => (hshown x (List.mem_append_left _ hx)).1) hfits
  obtain ⟨count, lastTime, hanswer⟩ := GpuServer.processGpuTime_some
    ⟨_, Q.queryId id, context⟩ h.ctx_eq hreference
    ((h.converts _).trans (by rw [h.clock])) hfits hwaits hk
  refine ⟨_, _, (GpuServer.run_singleton _ h.mem.failure).trans hanswer,
    { mem := by
        refine h.mem.frame rfl ?_ lastTime s.mem.threads
        rw [href]
        exact h.mem.reference.symm
      reference := by
        rw [href]
        rfl
      ctx_eq := Function.update_self ..
      thread := h.thread
      converts := h.converts
      clock := by
        rw [ticks_append_singleton, feed_append, h.clock]
        rfl
      query := h.query_gpuTime hposts t hid tgpu time
      nested := h.nested_of_not_announced rfl
      zones := by
        rw [zonesOf_of_not_announced rfl, hgpuTimes]
        exact hzones }⟩

/-! ### Memory -/

theorem other (horderly : Orderly (brackets log)) {t : τ} {call : SerialCall}
    {time : Int64} (hcall : call.isMemory) (hvalid : call.Valid)
    (htimed : Timed tscTime (log ++ [⟨t, call, time⟩]))
    (hlater : Orderly (brackets (log ++ [⟨t, call, time⟩])))
    (hmono : ∀ a b, a ≤ b → tscTime a ≤ tscTime b) :
    let p : Post τ := ⟨t, .other call, time⟩
    ∃ s' ctx', s.run tscTime scale (delta handle log (p.entry Q context)).2 =
        some s' ∧
      GpuMirrors handle tscTime scale convert Q context
        (log ++ [p.entry Q context]) (posts ++ [p]) ctx' s' := by
  intro p
  have hzones : zonesOf (posts ++ [p]) = zonesOf posts :=
    zonesOf_of_not_announced rfl
  have hticks : ticks (posts ++ [p]) = ticks posts :=
    ticks_append_of_none posts rfl
  obtain ⟨hitems, hgpu⟩ := delta_of_isMemory handle log t time hcall
  obtain ⟨-, href⟩ := deltas_append_singleton handle log (p.entry Q context)
  obtain ⟨mem, hmem, hanswers⟩ := h.mem.step horderly htimed hmono hvalid
  have hmirrors := (hanswers.resolve_right fun hnot => hnot.1 hlater).2
  have hanswer : s.run tscTime scale _ = _ :=
    GpuServer.run_of_isMemory hitems s
  rw [hmem] at hanswer
  refine ⟨_, ctx, hanswer,
    { mem := hmirrors
      reference := by
        rw [href]
        exact h.reference.trans hgpu.symm
      ctx_eq := h.ctx_eq
      thread := h.thread
      converts := h.converts
      clock := by
        rw [hticks]
        exact h.clock
      query := by
        have howner : ownerOf (posts ++ [p]) = ownerOf posts := by
          funext i
          rw [ownerOf, hzones, ownerOf]
        rw [reported, hticks, howner]
        exact h.query
      nested := h.nested_of_not_announced rfl
      zones := by
        rw [hzones, gpuTimes_append_of_none convert posts rfl]
        exact h.zones }⟩

end GpuMirrors

end Step

/-! ## Runs -/

/-- The time of a context in the unit of the CPU. -/
def contextTime (scale : UInt32 → Int64 → Int64) (ev : QueueGpuNewContext)
    (tgpu : Int64) : Int64 :=
  if ev.period = 0x3F800000 then tgpu else scale ev.period tgpu

/-- Both clocks have been read when the context was made. -/
def convertTime (tscTime : Int64 → Int64) (scale : UInt32 → Int64 → Int64)
    (ev : QueueGpuNewContext) (tgpu : Int64) : Int64 :=
  contextTime scale ev tgpu +
    (tscTime ev.cpuTime - contextTime scale ev ev.gpuTime)

section Run

variable {handle : τ → UInt32} {tscTime : Int64 → Int64}
  {scale : UInt32 → Int64 → Int64} {Q : QueryCount} {ev : QueueGpuNewContext}
  {before : List (LogEntry τ)}

omit [DecidableEq τ] in
theorem deltas_of_isMemory (handle : τ → UInt32)
    (h : ∀ e ∈ before, e.call.isMemory) :
    (∀ item ∈ deltas handle before, item.isMemory) ∧
      (referenceAfter handle before).gpu = 0 := by
  induction before using List.reverseRecOn with
  | nil => exact ⟨fun _ hitem => absurd hitem List.not_mem_nil, rfl⟩
  | append_singleton before e ih =>
    obtain ⟨hold, hgpu⟩ := ih fun e he => h e (List.mem_append_left _ he)
    obtain ⟨hdeltas, href⟩ := deltas_append_singleton handle before e
    obtain ⟨hnew, hgpu'⟩ := delta_of_isMemory handle before e.thread e.time
      (h e (List.mem_append_right _ List.mem_cons_self))
    rw [hdeltas, href]
    exact ⟨List.forall_mem_append.mpr ⟨hold, hnew⟩, hgpu'.trans hgpu⟩

/-- The program has allocated memory, and makes its context. -/
theorem gpuMirrors_newContext (hbefore : ∀ e ∈ before, e.call.isMemory)
    (hthread : ev.thread = 0) (htype : ev.type ≠ 0)
    (hmono : ∀ a b, a ≤ b → tscTime a ≤ tscTime b)
    (hvalid : ∀ e ∈ before, e.call.Valid) (htimed : Timed tscTime before)
    (horderly : Orderly (brackets before)) (t : τ)
    (time firstTime lastTime : Int64) :
    let log := before ++ [⟨t, .gpuNewContext ev, time⟩]
    ∃ s ctx, (GpuServer.start firstTime lastTime false).run tscTime scale
        (deltas handle log) = some s ∧
      GpuMirrors handle tscTime scale (convertTime tscTime scale ev) Q
        ev.context log [] ctx s := by
  intro log
  obtain ⟨mem, hmem, hanswers⟩ :=
    exists_answer handle hmono hvalid htimed firstTime lastTime
  have hmirrors := (hanswers.resolve_right fun hnot => hnot.1 horderly).2
  obtain ⟨hitems, hgpu⟩ := deltas_of_isMemory handle hbefore
  obtain ⟨hdeltas, href⟩ :=
    deltas_append_singleton handle before ⟨t, .gpuNewContext ev, time⟩
  let s : GpuServer :=
    { GpuServer.start firstTime lastTime false with mem := mem }
  have hrun : (GpuServer.start firstTime lastTime false).run tscTime scale
      (deltas handle before) = some s := by
    rw [GpuServer.run_of_isMemory hitems]
    show (MemServer.run tscTime _ (.start firstTime lastTime false)).map _ = _
    rw [hmem]
    rfl
  let ctx : GpuCtxData :=
    { timeDiff := tscTime ev.cpuTime - contextTime scale ev ev.gpuTime
      thread := ev.thread
      count := 0
      period := ev.period
      type := ev.type
      hasPeriod := ev.period ≠ 0x3F800000
      clock := .start
      threadData := fun _ => none
      query := fun _ => none }
  have hcontext : GpuServer.processGpuNewContext tscTime scale ev s =
      some (s.setCtx ev.context ctx) := if_pos ⟨rfl, htype⟩
  have hconverts : ∀ tgpu, GpuServer.toCpuTime scale ctx tgpu =
      convertTime tscTime scale ev tgpu := by
    intro tgpu
    unfold GpuServer.toCpuTime convertTime contextTime
    by_cases hperiod : ev.period = 0x3F800000
    · simp [ctx, contextTime, hperiod]
    · simp [ctx, contextTime, hperiod]
  refine ⟨s.setCtx ev.context ctx, ctx, ?_,
    { mem := by
        refine hmirrors.frame rfl ?_ mem.lastTime mem.threads
        rw [href]
        exact hmirrors.reference.symm
      reference := by
        rw [href]
        exact hgpu.symm
      ctx_eq := Function.update_self ..
      thread := hthread
      converts := hconverts
      clock := rfl
      query := fun _ _ _ => rfl
      nested := fun _ => rfl
      zones := rfl }⟩
  rw [hdeltas, GpuServer.run_append, hrun, Option.bind_some]
  exact (GpuServer.run_singleton _ hmirrors.failure).trans hcontext

/-- The log of a program that has a context from some time on. -/
def contextLog (ev : QueueGpuNewContext) (before : List (LogEntry τ)) (t : τ)
    (time : Int64) (log : List (LogEntry τ)) : List (LogEntry τ) :=
  before ++ [⟨t, .gpuNewContext ev, time⟩] ++ log

/-- What the server relies on. -/
structure Traceable (handle : τ → UInt32) (tscTime : Int64 → Int64)
    (scale : UInt32 → Int64 → Int64) (ev : QueueGpuNewContext)
    (log : List (LogEntry τ)) (posts : List (Post τ)) : Prop where
  injective : Function.Injective handle
  mono : ∀ a b, a ≤ b → tscTime a ≤ tscTime b
  thread : ev.thread = 0
  type : ev.type ≠ 0
  valid : ∀ e ∈ log, e.call.Valid
  timed : Timed tscTime log
  orderly : Orderly (brackets log)
  shown : ∀ x ∈ gpuTimes (convertTime tscTime scale ev) posts,
    0 ≤ x ∧ MemEvent.FitsTime x

omit [DecidableEq τ] in
theorem Traceable.of_append {log : List (LogEntry τ)} {e : LogEntry τ}
    {posts : List (Post τ)} {p : Post τ}
    (h : Traceable handle tscTime scale ev (log ++ [e]) (posts ++ [p])) :
    Traceable handle tscTime scale ev log posts where
  injective := h.injective
  mono := h.mono
  thread := h.thread
  type := h.type
  valid := fun e he => h.valid e (List.mem_append_left _ he)
  timed := h.timed.of_append
  orderly := by
    have horderly := h.orderly
    rw [brackets_append_singleton] at horderly
    exact horderly.of_append
  shown := fun x hx => h.shown x (by
    cases hcall : p.call.ticks with
    | none =>
      rw [gpuTimes_append_of_none _ posts hcall]
      exact hx
    | some tgpu =>
      rw [gpuTimes_append_of_some _ posts hcall]
      exact List.mem_append_left _ hx)

theorem exists_gpuMirrors (hbefore : ∀ e ∈ before, e.call.isMemory) (t : τ)
    (time : Int64) {posts : List (Post τ)} (hposts : Lawful Q posts)
    {log : List (LogEntry τ)} (hlog : log =
      contextLog ev before t time (posts.map (Post.entry Q ev.context)))
    (h : Traceable handle tscTime scale ev log posts)
    (firstTime lastTime : Int64) :
    ∃ s ctx, (GpuServer.start firstTime lastTime false).run tscTime scale
        (deltas handle log) = some s ∧
      GpuMirrors handle tscTime scale (convertTime tscTime scale ev) Q
        ev.context log posts ctx s := by
  induction hposts generalizing log with
  | nil =>
    obtain rfl : log = before ++ [⟨t, .gpuNewContext ev, time⟩] :=
      hlog.trans (List.append_nil _)
    have horderly := h.orderly
    rw [brackets_append_singleton] at horderly
    exact gpuMirrors_newContext hbefore h.thread h.type h.mono
      (fun e he => h.valid e (List.mem_append_left _ he)) h.timed.of_append
      horderly.of_append t time firstTime lastTime
  | @snoc posts p hposts hallowed ih =>
    set log' := contextLog ev before t time (posts.map (Post.entry Q ev.context))
    obtain rfl : log = log' ++ [p.entry Q ev.context] := by
      rw [hlog, contextLog, List.map_append, List.map_singleton,
        ← List.append_assoc]
      rfl
    obtain ⟨s, ctx, hrun, hs⟩ := ih rfl h.of_append
    have hnext : ∃ s' ctx', s.run tscTime scale
          (delta handle log' (p.entry Q ev.context)).2 = some s' ∧
        GpuMirrors handle tscTime scale (convertTime tscTime scale ev) Q
          ev.context (log' ++ [p.entry Q ev.context]) (posts ++ [p]) ctx' s' := by
      have hfits := h.timed.fits (p.entry Q ev.context)
        (List.mem_append_right _ List.mem_cons_self)
      obtain ⟨u, call, time'⟩ := p
      cases call with
      | zoneBegin id srcloc =>
        exact hs.zoneBegin hposts h.injective hallowed hfits
      | zoneEnd id scope =>
        exact hs.zoneEnd hposts h.injective hallowed.1 hallowed.2.1 hallowed.2.2
          hfits
      | gpuTime id tgpu =>
        exact hs.gpuTime hposts hallowed.1 hallowed.2 h.shown
      | other call =>
        exact hs.other h.of_append.orderly hallowed
          (h.valid _ (List.mem_append_right _ List.mem_cons_self)) h.timed
          h.orderly h.mono
    obtain ⟨s', ctx', hanswer, hs'⟩ := hnext
    obtain ⟨hdeltas, -⟩ :=
      deltas_append_singleton handle log' (p.entry Q ev.context)
    rw [hdeltas, GpuServer.run_append, hrun, Option.bind_some]
    exact ⟨s', ctx', hanswer, hs'⟩

end Run

/-! ## Two threads -/

/-- A context of Vulkan, whose clock runs with that of the CPU. -/
def vulkanContext : QueueGpuNewContext := ⟨5, 50, 0, 0x3F800000, 0, 0, 2⟩

/-- `Collect` has reported all queries of the full pool. -/
def allReported : Timing Bool :=
  (Timing.collectAndWait .four 0 true 30)^[3] Timing.allWritten

theorem reached_allReported : Timing.Reached .four 0 4 allReported :=
  ((Timing.reached_allWritten.collectAndWait true 30 rfl rfl).collectAndWait
    true 30 rfl rfl).collectAndWait true 30 rfl rfl

def allReportedLog : List (LogEntry Bool) :=
  contextLog vulkanContext [⟨true, .memAlloc 64 10, 1⟩] true 4 allReported.log

theorem orderly_allReportedLog : Orderly (brackets allReportedLog) := by
  have hnil : Orderly ([] : List (Bracket (UInt64 × UInt64))) :=
    Tracks.nil.orderly
  have hopen := (hnil.acquire (k := (0, 64)) rfl).acquire (k := (0, 128)) rfl
  exact hopen.release (k := (0, 64)) rfl

theorem traceable_allReportedLog :
    Traceable (fun t => if t then 2 else 1) id (fun _ t => t) vulkanContext
      allReportedLog allReported.posts where
  injective := by decide
  mono := fun _ _ h => h
  thread := rfl
  type := by decide
  valid := by decide
  timed := ⟨by decide, by decide⟩
  orderly := orderly_allReportedLog
  shown := by
    have htimes : gpuTimes (convertTime id (fun _ t => t) vulkanContext)
        allReported.posts = [45, 55, 65, 105, 115] := rfl
    rw [htimes]
    simp [MemEvent.FitsTime]

end VulkanCompute.Profiler
