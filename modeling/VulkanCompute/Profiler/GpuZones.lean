import VulkanCompute.Profiler.GpuQueries

/-!
# The scopes in the posts

`zonesOf` reads off the posts what a reader of the trace wants to know: the
scopes in the order in which they began, each with its two queries and the
times of its events.

`Coherent` says how they fit together: every query that has been announced
belongs to one scope, a scope ends with a later query than it began with, and
the open scopes of a thread are its scopes that have not ended.  Lawful posts
are coherent, and then `ownerOf` finds the scope of a query.
-/

namespace VulkanCompute.Profiler

/-- A scope. -/
structure ZoneRecord (τ : Type*) where
  thread : τ
  scope : Nat
  close : Option Nat
  srcloc : UInt64
  start : Int64
  stop : Option Int64

namespace ZoneRecord

variable {τ : Type*}

/-- The query is the first or the second one of the scope. -/
def Owns (z : ZoneRecord τ) (id : Nat) : Prop :=
  z.scope = id ∨ z.close = some id

instance (z : ZoneRecord τ) (id : Nat) : Decidable (z.Owns id) :=
  inferInstanceAs (Decidable (_ ∨ _))

/-- The scope ends. -/
def finish (id scope : Nat) (time : Int64) (z : ZoneRecord τ) : ZoneRecord τ :=
  if z.scope = scope then { z with close := some id, stop := some time } else z

variable {id scope i : Nat} {time : Int64} {z : ZoneRecord τ}

theorem finish_self (h : z.scope = scope) :
    z.finish id scope time = { z with close := some id, stop := some time } :=
  if_pos h

theorem finish_of_ne (h : z.scope ≠ scope) : z.finish id scope time = z :=
  if_neg h

theorem scope_finish (id scope : Nat) (time : Int64) (z : ZoneRecord τ) :
    (z.finish id scope time).scope = z.scope := by
  unfold finish
  split <;> rfl

theorem owns_finish (h : z.scope = scope → z.close = none) :
    (z.finish id scope time).Owns i ↔ z.Owns i ∨ z.scope = scope ∧ i = id := by
  by_cases heq : z.scope = scope
  · rw [finish_self heq, Owns, Owns, h heq]
    simp [heq, eq_comm]
  · rw [finish_of_ne heq]
    simp [heq]

end ZoneRecord

variable {τ : Type*}

def zonesOfStep (zones : List (ZoneRecord τ)) (p : Post τ) :
    List (ZoneRecord τ) :=
  match p.call with
  | .zoneBegin id srcloc =>
    zones ++ [⟨p.thread, id, none, srcloc, p.time, none⟩]
  | .zoneEnd id scope => zones.map (ZoneRecord.finish id scope p.time)
  | _ => zones

/-- The scopes, in the order of their first events. -/
def zonesOf (posts : List (Post τ)) : List (ZoneRecord τ) :=
  posts.foldl zonesOfStep []

theorem zonesOf_append_singleton (posts : List (Post τ)) (p : Post τ) :
    zonesOf (posts ++ [p]) = zonesOfStep (zonesOf posts) p := by
  rw [zonesOf, List.foldl_append]
  rfl

/-- The scope at a place in the list. -/
def ZoneAt (posts : List (Post τ)) (k : Nat) (z : ZoneRecord τ) : Prop :=
  (zonesOf posts)[k]? = some z

variable {posts : List (Post τ)} {k : Nat} {z : ZoneRecord τ}

theorem zoneAt_zoneBegin (t : τ) (id : Nat) (srcloc : UInt64) (time : Int64) :
    ZoneAt (posts ++ [⟨t, .zoneBegin id srcloc, time⟩]) k z ↔
      ZoneAt posts k z ∨
        k = (zonesOf posts).length ∧ z = ⟨t, id, none, srcloc, time, none⟩ := by
  unfold ZoneAt
  rw [zonesOf_append_singleton]
  show (zonesOf posts ++ [_])[k]? = some z ↔ _
  rcases Nat.lt_trichotomy k (zonesOf posts).length with hlt | heq | hgt
  · rw [List.getElem?_append_left hlt]
    exact ⟨Or.inl,
      fun h => h.resolve_right fun h => absurd h.1 (Nat.ne_of_lt hlt)⟩
  · rw [heq, List.getElem?_concat_length, List.getElem?_eq_none le_rfl]
    simp [eq_comm]
  · rw [List.getElem?_eq_none (by simp; omega),
      List.getElem?_eq_none (Nat.le_of_lt hgt)]
    simp [Nat.ne_of_gt hgt]

theorem zoneAt_zoneEnd (t : τ) (id scope : Nat) (time : Int64) :
    ZoneAt (posts ++ [⟨t, .zoneEnd id scope, time⟩]) k z ↔
      ∃ z', ZoneAt posts k z' ∧ z'.finish id scope time = z := by
  unfold ZoneAt
  rw [zonesOf_append_singleton]
  show ((zonesOf posts).map _)[k]? = some z ↔ _
  rw [List.getElem?_map, Option.map_eq_some_iff]

theorem zonesOf_of_not_announced {p : Post τ}
    (hannounced : p.call.announced = none) :
    zonesOf (posts ++ [p]) = zonesOf posts := by
  rw [zonesOf_append_singleton, zonesOfStep]
  cases hcall : p.call with
  | zoneBegin id srcloc =>
    rw [hcall] at hannounced
    exact absurd hannounced nofun
  | zoneEnd id scope =>
    rw [hcall] at hannounced
    exact absurd hannounced nofun
  | gpuTime id ticks => rfl
  | other call => rfl

/-! ## Who owns a query -/

/-- The scope at the place has the query. -/
def OwnerAt (posts : List (Post τ)) (id k : Nat) : Prop :=
  ∃ z, ZoneAt posts k z ∧ z.Owns id

theorem ownerAt_zoneBegin (t : τ) (id : Nat) (srcloc : UInt64) (time : Int64)
    (i : Nat) :
    OwnerAt (posts ++ [⟨t, .zoneBegin id srcloc, time⟩]) i k ↔
      OwnerAt posts i k ∨ i = id ∧ k = (zonesOf posts).length := by
  unfold OwnerAt
  simp only [zoneAt_zoneBegin]
  constructor
  · rintro ⟨z, hz | ⟨hk, rfl⟩, howns⟩
    · exact Or.inl ⟨z, hz, howns⟩
    · exact Or.inr ⟨(howns.resolve_right nofun).symm, hk⟩
  · rintro (⟨z, hz, howns⟩ | ⟨rfl, hk⟩)
    · exact ⟨z, Or.inl hz, howns⟩
    · exact ⟨_, Or.inr ⟨hk, rfl⟩, Or.inl rfl⟩

/-! ## Coherence -/

variable [DecidableEq τ]

/-- The posts and their scopes fit together. -/
structure Coherent (posts : List (Post τ)) : Prop where
  mem_announced_iff : ∀ id,
    id ∈ announced posts ↔ ∃ k z, ZoneAt posts k z ∧ z.Owns id
  owner_unique : ∀ id k k' z z', ZoneAt posts k z → ZoneAt posts k' z' →
    z.Owns id → z'.Owns id → k = k'
  close_gt : ∀ k z id, ZoneAt posts k z → z.close = some id → z.scope < id
  open_iff : ∀ t scope, scope ∈ openScopes posts t ↔
    ∃ k z, ZoneAt posts k z ∧ z.scope = scope ∧ z.thread = t ∧ z.close = none
  stop_iff : ∀ k z, ZoneAt posts k z → (z.close = none ↔ z.stop = none)
  nodup : ∀ t, (openScopes posts t).Nodup

variable {Q : QueryCount}

theorem coherent_nil : Coherent ([] : List (Post τ)) where
  mem_announced_iff := fun _ => ⟨nofun, fun ⟨_, _, h, _⟩ => absurd h nofun⟩
  owner_unique := nofun
  close_gt := nofun
  open_iff := fun _ _ => ⟨nofun, fun ⟨_, _, h, _⟩ => absurd h nofun⟩
  stop_iff := nofun
  nodup := fun _ => List.nodup_nil

namespace Coherent

variable {id k₀ : Nat} {t : τ} {scope : Nat}

/-- A query that has not been announced belongs to no scope. -/
theorem not_owns (h : Coherent posts) (hfresh : id ∉ announced posts)
    (hz : ZoneAt posts k z) : ¬z.Owns id :=
  fun howns => hfresh ((h.mem_announced_iff id).mpr ⟨k, z, hz, howns⟩)

/-- A scope is at one place. -/
theorem scope_unique (h : Coherent posts) (hz : ZoneAt posts k z)
    {k' : Nat} {z' : ZoneRecord τ} (hz' : ZoneAt posts k' z')
    (hscope : z'.scope = z.scope) : k' = k ∧ z' = z := by
  obtain rfl := h.owner_unique z.scope k' k z' z hz' hz (Or.inl hscope)
    (Or.inl rfl)
  exact ⟨rfl, Option.some.inj (hz'.symm.trans hz)⟩

theorem of_mem_openScopes (h : Coherent posts)
    (hmem : scope ∈ openScopes posts t) (hz : ZoneAt posts k z)
    (hscope : z.scope = scope) : z.thread = t ∧ z.close = none := by
  obtain ⟨k', z', hz', rfl, hopen⟩ := (h.open_iff t scope).mp hmem
  obtain ⟨rfl, rfl⟩ := h.scope_unique hz' hz hscope
  exact hopen

/-! ### One query gets an owner -/

section Owner

variable {p : Post τ} (h : Coherent posts)
  (howner : ∀ i k, OwnerAt (posts ++ [p]) i k ↔
    OwnerAt posts i k ∨ i = id ∧ k = k₀)

include h howner

theorem mem_announced_append (hannounced : p.call.announced = some id)
    (i : Nat) :
    i ∈ announced (posts ++ [p]) ↔ ∃ k, OwnerAt (posts ++ [p]) i k := by
  rw [announced_append_of_some posts hannounced, List.mem_append,
    List.mem_singleton, h.mem_announced_iff]
  simp only [howner]
  constructor
  · rintro (⟨k, hk⟩ | rfl)
    · exact ⟨k, Or.inl hk⟩
    · exact ⟨k₀, Or.inr ⟨rfl, rfl⟩⟩
  · rintro ⟨k, hk | ⟨rfl, -⟩⟩
    · exact Or.inl ⟨k, hk⟩
    · exact Or.inr rfl

theorem owner_unique_append (hfresh : id ∉ announced posts) {i k k' : Nat}
    (hk : OwnerAt (posts ++ [p]) i k) (hk' : OwnerAt (posts ++ [p]) i k') :
    k = k' := by
  have hnot : ∀ k, ¬OwnerAt posts id k := fun k ⟨z, hz, howns⟩ =>
    h.not_owns hfresh hz howns
  rcases (howner i k).mp hk with hold | ⟨rfl, rfl⟩
  · rcases (howner i k').mp hk' with hold' | ⟨rfl, -⟩
    · obtain ⟨z, hz, howns⟩ := hold
      obtain ⟨z', hz', howns'⟩ := hold'
      exact h.owner_unique i k k' z z' hz hz' howns howns'
    · exact absurd hold (hnot k)
  · rcases (howner i k').mp hk' with hold' | ⟨-, rfl⟩
    · exact absurd hold' (hnot k')
    · rfl

end Owner

/-! ### A scope begins -/

theorem open_iff_zoneBegin (h : Coherent posts) (id : Nat) (t : τ)
    (srcloc : UInt64) (time : Int64) (u : τ) (scope : Nat) :
    let p : Post τ := ⟨t, .zoneBegin id srcloc, time⟩
    scope ∈ openScopes (posts ++ [p]) u ↔ ∃ k z, ZoneAt (posts ++ [p]) k z ∧
      z.scope = scope ∧ z.thread = u ∧ z.close = none := by
  intro p
  have hopen : scope ∈ openScopes (posts ++ [p]) u ↔
      scope ∈ openScopes posts u ∨ t = u ∧ scope = id := by
    rw [openScopes_append_singleton]
    show scope ∈ (if t = u then id :: openScopes posts u else _) ↔ _
    by_cases hu : t = u
    · simp [hu, or_comm]
    · simp [hu]
  rw [hopen, h.open_iff]
  simp only [p, zoneAt_zoneBegin]
  constructor
  · rintro (⟨k, z, hz, hrest⟩ | ⟨rfl, rfl⟩)
    · exact ⟨k, z, Or.inl hz, hrest⟩
    · exact ⟨_, _, Or.inr ⟨rfl, rfl⟩, rfl, rfl, rfl⟩
  · rintro ⟨k, z, hz | ⟨-, rfl⟩, hscope, hthread, hclose⟩
    · exact Or.inl ⟨k, z, hz, hscope, hthread, hclose⟩
    · exact Or.inr ⟨hthread, hscope.symm⟩

theorem nodup_zoneBegin (h : Coherent posts) (hfresh : id ∉ announced posts)
    (t : τ) (srcloc : UInt64) (time : Int64) (u : τ) :
    (openScopes (posts ++ [⟨t, .zoneBegin id srcloc, time⟩]) u).Nodup := by
  have hnotin : id ∉ openScopes posts u := by
    intro hmem
    obtain ⟨k, z, hz, hscope, -⟩ := (h.open_iff u id).mp hmem
    exact h.not_owns hfresh hz (Or.inl hscope)
  rw [openScopes_append_singleton]
  show (if t = u then id :: openScopes posts u else _).Nodup
  split
  · exact List.nodup_cons.mpr ⟨hnotin, h.nodup u⟩
  · exact h.nodup u

theorem zoneBegin (h : Coherent posts) (hfresh : id ∉ announced posts) (t : τ)
    (srcloc : UInt64) (time : Int64) :
    Coherent (posts ++ [⟨t, .zoneBegin id srcloc, time⟩]) where
  mem_announced_iff :=
    h.mem_announced_append (fun _ _ => ownerAt_zoneBegin ..) rfl
  owner_unique := fun i k k' z z' hz hz' howns howns' =>
    h.owner_unique_append (fun _ _ => ownerAt_zoneBegin ..) hfresh
      ⟨z, hz, howns⟩ ⟨z', hz', howns'⟩
  close_gt := fun k z i hz hclose => by
    rcases (zoneAt_zoneBegin ..).mp hz with hz | ⟨-, rfl⟩
    · exact h.close_gt k z i hz hclose
    · exact absurd hclose nofun
  open_iff := h.open_iff_zoneBegin id t srcloc time
  stop_iff := fun k z hz => by
    rcases (zoneAt_zoneBegin ..).mp hz with hz | ⟨-, rfl⟩
    · exact h.stop_iff k z hz
    · exact ⟨fun _ => rfl, fun _ => rfl⟩
  nodup := h.nodup_zoneBegin hfresh t srcloc time

/-! ### A scope ends -/

/-- The scope that ends gets one more query. -/
theorem ownerAt_zoneEnd (h : Coherent posts)
    (hmem : scope ∈ openScopes posts t) (hz : ZoneAt posts k₀ z)
    (hscope : z.scope = scope) (id : Nat) (time : Int64) (i k : Nat) :
    OwnerAt (posts ++ [⟨t, .zoneEnd id scope, time⟩]) i k ↔
      OwnerAt posts i k ∨ i = id ∧ k = k₀ := by
  have hclosed : ∀ k z, ZoneAt posts k z → z.scope = scope → z.close = none :=
    fun k z hz heq => (h.of_mem_openScopes hmem hz heq).2
  unfold OwnerAt
  simp only [zoneAt_zoneEnd]
  constructor
  · rintro ⟨_, ⟨z', hz', rfl⟩, howns⟩
    rcases (ZoneRecord.owns_finish (hclosed k z' hz')).mp howns with
      howns | ⟨heq, hi⟩
    · exact Or.inl ⟨z', hz', howns⟩
    · exact Or.inr ⟨hi, (h.scope_unique hz hz' (heq.trans hscope.symm)).1⟩
  · rintro (⟨z', hz', howns⟩ | ⟨hi, rfl⟩)
    · exact ⟨_, ⟨z', hz', rfl⟩,
        (ZoneRecord.owns_finish (hclosed k z' hz')).mpr (Or.inl howns)⟩
    · exact ⟨_, ⟨z, hz, rfl⟩,
        (ZoneRecord.owns_finish (hclosed k z hz)).mpr (Or.inr ⟨hscope, hi⟩)⟩

/-- The scope that ends leaves the stack of its thread, and no other one. -/
theorem mem_openScopes_zoneEnd (h : Coherent posts)
    (hscope : (openScopes posts t).head? = some scope) (id : Nat)
    (time : Int64) (u : τ) (scope' : Nat) :
    scope' ∈ openScopes (posts ++ [⟨t, .zoneEnd id scope, time⟩]) u ↔
      scope' ∈ openScopes posts u ∧ (t = u → scope' ≠ scope) := by
  rw [openScopes_append_singleton]
  show scope' ∈ (if t = u then (openScopes posts u).tail else _) ↔ _
  split
  case isTrue heq =>
    subst heq
    obtain ⟨inner, hstack⟩ : ∃ inner, openScopes posts t = scope :: inner :=
      ⟨_, (List.cons_head?_tail hscope).symm⟩
    have hnodup := h.nodup t
    rw [hstack] at hnodup ⊢
    have hnotin := (List.nodup_cons.mp hnodup).1
    rw [List.tail_cons, List.mem_cons]
    constructor
    · intro hin
      exact ⟨Or.inr hin, fun _ heq => hnotin (heq ▸ hin)⟩
    · rintro ⟨rfl | hin, hne⟩
      · exact absurd rfl (hne rfl)
      · exact hin
  case isFalse hne =>
    exact ⟨fun hin => ⟨hin, fun heq => absurd heq hne⟩, And.left⟩

theorem open_iff_zoneEnd (h : Coherent posts)
    (hscope : (openScopes posts t).head? = some scope) (id : Nat)
    (time : Int64) (u : τ) (scope' : Nat) :
    let p : Post τ := ⟨t, .zoneEnd id scope, time⟩
    scope' ∈ openScopes (posts ++ [p]) u ↔ ∃ k z, ZoneAt (posts ++ [p]) k z ∧
      z.scope = scope' ∧ z.thread = u ∧ z.close = none := by
  intro p
  have hmem := List.mem_of_mem_head? hscope
  rw [h.mem_openScopes_zoneEnd hscope, h.open_iff]
  simp only [p, zoneAt_zoneEnd]
  constructor
  · rintro ⟨⟨k, z, hz, rfl, hthread, hclose⟩, hne⟩
    have hother : z.scope ≠ scope := fun heq =>
      hne ((h.of_mem_openScopes hmem hz heq).1.symm.trans hthread) heq
    exact ⟨k, z, ⟨z, hz, ZoneRecord.finish_of_ne hother⟩, rfl, hthread, hclose⟩
  · rintro ⟨k, _, ⟨z, hz, rfl⟩, hscope', hthread, hclose⟩
    have hother : z.scope ≠ scope := by
      intro heq
      rw [ZoneRecord.finish_self heq] at hclose
      exact absurd hclose nofun
    rw [ZoneRecord.finish_of_ne hother] at hscope' hthread hclose
    exact ⟨⟨k, z, hz, hscope', hthread, hclose⟩,
      fun _ heq => hother (hscope'.trans heq)⟩

theorem close_gt_zoneEnd (h : Coherent posts) (hlt : scope < id) (t : τ)
    (time : Int64) {i : Nat}
    (hz : ZoneAt (posts ++ [⟨t, .zoneEnd id scope, time⟩]) k z)
    (hclose : z.close = some i) : z.scope < i := by
  obtain ⟨z, hold, rfl⟩ := (zoneAt_zoneEnd ..).mp hz
  by_cases heq : z.scope = scope
  · rw [ZoneRecord.finish_self heq] at hclose ⊢
    obtain rfl := Option.some.inj hclose
    exact heq ▸ hlt
  · rw [ZoneRecord.finish_of_ne heq] at hclose ⊢
    exact h.close_gt k z i hold hclose

theorem zoneEnd (h : Coherent posts) (hfresh : id ∉ announced posts)
    (hscope : (openScopes posts t).head? = some scope) (hlt : scope < id)
    (time : Int64) : Coherent (posts ++ [⟨t, .zoneEnd id scope, time⟩]) :=
  have hmem := List.mem_of_mem_head? hscope
  have ⟨_, _, hz, heq, _⟩ := (h.open_iff t scope).mp hmem
  have howner := h.ownerAt_zoneEnd hmem hz heq id time
  { mem_announced_iff := h.mem_announced_append howner rfl
    owner_unique := fun _ _ _ z z' hz hz' howns howns' =>
      h.owner_unique_append howner hfresh ⟨z, hz, howns⟩ ⟨z', hz', howns'⟩
    close_gt := fun _ _ _ => h.close_gt_zoneEnd hlt t time
    open_iff := h.open_iff_zoneEnd hscope id time
    stop_iff := fun k z hz => by
      obtain ⟨z, hold, rfl⟩ := (zoneAt_zoneEnd ..).mp hz
      by_cases heq : z.scope = scope
      · rw [ZoneRecord.finish_self heq]
        exact ⟨nofun, nofun⟩
      · rw [ZoneRecord.finish_of_ne heq]
        exact h.stop_iff k z hold
    nodup := fun u => by
      rw [openScopes_append_singleton]
      show (if t = u then (openScopes posts u).tail else _).Nodup
      split
      · exact (h.nodup u).tail
      · exact h.nodup u }

end Coherent

/-- Only the events of scopes change the stacks. -/
theorem openScopes_of_not_announced {p : Post τ}
    (hannounced : p.call.announced = none) (t : τ) :
    openScopes (posts ++ [p]) t = openScopes posts t := by
  rw [openScopes_append_singleton, openScopesStep]
  obtain ⟨u, call, time⟩ := p
  cases call with
  | zoneBegin id srcloc => exact absurd hannounced nofun
  | zoneEnd id scope => exact absurd hannounced nofun
  | gpuTime id ticks => exact ite_self _
  | other call => exact ite_self _

/-- A post that is about no scope. -/
theorem Coherent.other (h : Coherent posts) {p : Post τ}
    (hannounced : p.call.announced = none) : Coherent (posts ++ [p]) :=
  have hzones : ∀ k z, ZoneAt (posts ++ [p]) k z ↔ ZoneAt posts k z :=
    fun k z => by rw [ZoneAt, zonesOf_of_not_announced hannounced, ZoneAt]
  have hopen : ∀ t, openScopes (posts ++ [p]) t = openScopes posts t :=
    openScopes_of_not_announced hannounced
  { mem_announced_iff := by
      simp only [announced_append_of_none posts hannounced, hzones]
      exact h.mem_announced_iff
    owner_unique := by simpa only [hzones] using h.owner_unique
    close_gt := by simpa only [hzones] using h.close_gt
    open_iff := by simpa only [hopen, hzones] using h.open_iff
    stop_iff := by simpa only [hzones] using h.stop_iff
    nodup := by simpa only [hopen] using h.nodup }

theorem Lawful.coherent (h : Lawful Q posts) : Coherent posts := by
  induction h with
  | nil => exact coherent_nil
  | @snoc posts p hposts hallowed ih =>
    obtain ⟨t, call, time⟩ := p
    cases call with
    | zoneBegin id srcloc => exact ih.zoneBegin hallowed.fresh t srcloc time
    | zoneEnd id scope =>
      exact ih.zoneEnd hallowed.1.fresh hallowed.2.1 hallowed.2.2 time
    | gpuTime id ticks => exact ih.other rfl
    | other call => exact ih.other rfl

/-- The queries that have been announced are no lap ahead of those that have
been reported. -/
theorem Lawful.lt_of_announced (h : Lawful Q posts) {id : Nat}
    (hmem : id ∈ announced posts) : id < reported posts + Q.size := by
  induction h with
  | nil => exact absurd hmem List.not_mem_nil
  | @snoc posts p hposts hallowed ih =>
    rw [announced_append_singleton, List.mem_append] at hmem
    rw [reported_append_singleton]
    rcases hmem with hold | hnew
    · exact Nat.lt_of_lt_of_le (ih hold) (by omega)
    · obtain ⟨t, call, time⟩ := p
      cases call with
      | zoneBegin id' srcloc =>
        obtain rfl := List.mem_singleton.mp hnew
        exact hallowed.lt
      | zoneEnd id' scope =>
        obtain rfl := List.mem_singleton.mp hnew
        exact hallowed.1.lt
      | gpuTime id' ticks => exact absurd hnew List.not_mem_nil
      | other call => exact absurd hnew List.not_mem_nil

/-- The place of the scope that a query belongs to. -/
def ownerOf (posts : List (Post τ)) (id : Nat) : Option Nat :=
  (zonesOf posts).findIdx? fun z => decide (z.Owns id)

theorem Coherent.ownerOf_eq_some_iff (h : Coherent posts) {id : Nat} :
    ownerOf posts id = some k ↔ OwnerAt posts id k := by
  unfold ownerOf
  rw [List.findIdx?_eq_some_iff_getElem]
  constructor
  · rintro ⟨hk, howns, -⟩
    exact ⟨_, List.getElem?_eq_getElem hk, of_decide_eq_true howns⟩
  · rintro ⟨z, hz, howns⟩
    obtain ⟨hk, rfl⟩ := List.getElem?_eq_some_iff.mp hz
    refine ⟨hk, decide_eq_true howns, fun j hj hfirst => ?_⟩
    have heq := h.owner_unique id j k _ _
      (List.getElem?_eq_getElem (Nat.lt_trans hj hk)) hz
      (of_decide_eq_true hfirst) howns
    omega

theorem Coherent.ownerOf_eq_none (h : Coherent posts) {id : Nat}
    (hfresh : id ∉ announced posts) : ownerOf posts id = none := by
  rw [Option.eq_none_iff_forall_ne_some]
  intro k hk
  obtain ⟨z, hz, howns⟩ := h.ownerOf_eq_some_iff.mp hk
  exact h.not_owns hfresh hz howns

/-- One query gets an owner. -/
theorem Coherent.ownerOf_append (h : Coherent posts) {p : Post τ}
    (h' : Coherent (posts ++ [p])) {id k₀ : Nat}
    (howner : ∀ i k, OwnerAt (posts ++ [p]) i k ↔
      OwnerAt posts i k ∨ i = id ∧ k = k₀) :
    ownerOf (posts ++ [p]) id = some k₀ ∧
      ∀ i, i ≠ id → ownerOf (posts ++ [p]) i = ownerOf posts i := by
  refine ⟨h'.ownerOf_eq_some_iff.mpr ((howner id k₀).mpr (Or.inr ⟨rfl, rfl⟩)),
    fun i hi => Option.ext fun k => ?_⟩
  rw [h'.ownerOf_eq_some_iff, h.ownerOf_eq_some_iff, howner]
  exact or_iff_left fun hnew => hi hnew.1

end VulkanCompute.Profiler
