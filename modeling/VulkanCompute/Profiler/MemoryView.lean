import Mathlib.Algebra.Order.BigOperators.Group.Finset
import Mathlib.Order.Interval.Finset.Nat
import VulkanCompute.Profiler.LiveBlocks
import VulkanCompute.Profiler.MemMirror

/-!
# The memory view of the server

The events of the log, as the calls that queue them, reach the server one by
one.  A pool is known to the server by the address of its name, and addresses
are 64-bit words.

`memory_view`: in every interleaving of the threads the server reports no
failure, the addresses that are active in a pool are those of the blocks, with
their sizes, and between the calls the usage of a pool is the sum of the sizes
of its blocks.
-/

namespace VulkanCompute.Profiler

open Lib

/-! ## Events as calls -/

section Calls

variable (nameOf : String → UInt64)

/-- The name that the server knows a pool by. -/
def Pool.address : Pool → UInt64
  | .default => 0
  | .named name => nameOf name

/-- `TracyAlloc`, `TracyAllocN`, `TracyFree` and `TracyFreeN`. -/
def TraceEvent.call : TraceEvent → SerialCall
  | .alloc .default ptr size => .memAlloc (.ofNat ptr) size
  | .alloc (.named name) ptr size =>
    .memAllocNamed (.ofNat ptr) size (nameOf name)
  | .free .default ptr => .memFree (.ofNat ptr)
  | .free (.named name) ptr => .memFreeNamed (.ofNat ptr) (nameOf name)

def serverKey (key : Pool × Nat) : UInt64 × UInt64 :=
  (key.1.address nameOf, .ofNat key.2)

theorem TraceEvent.bracket_call (e : TraceEvent) :
    (e.call nameOf).bracket = some (e.bracket.map (serverKey nameOf)) := by
  cases e with
  | alloc pool ptr size => cases pool <;> rfl
  | free pool ptr => cases pool <;> rfl

/-- What the server hears of an event. -/
theorem openedStep_of_call {σ : Type*} {entry : LogEntry σ} {e : TraceEvent}
    (hentry : entry.call = e.call nameOf) (key : UInt64 × UInt64)
    (before : Option (LogEntry σ)) :
    openedStep key before entry =
      if serverKey nameOf e.key = key then e.left.map fun _ => entry
      else before := by
  rw [openedStep, hentry, e.bracket_call]
  cases e with
  | alloc pool ptr size => rfl
  | free pool ptr => rfl

theorem TraceEvent.key_bracket (e : TraceEvent) : e.bracket.key = e.key := by
  cases e <;> rfl

end Calls

/-- A pool of a domain, or the default pool. -/
def Pool.Used (pool : Pool) : Prop :=
  pool = .default ∨ ∃ d, pool = .named (getMemoryDomainName d)

/-- A key of a block. -/
def FitsKey (key : Pool × Nat) : Prop := key.1.Used ∧ key.2 ≤ 2 ^ 47

/-- The names of the domains are literals. -/
structure Literals (nameOf : String → UInt64) : Prop where
  ne_zero : ∀ d, nameOf (getMemoryDomainName d) ≠ 0
  inj : ∀ d d', nameOf (getMemoryDomainName d) =
    nameOf (getMemoryDomainName d') →
      getMemoryDomainName d = getMemoryDomainName d'

section Keys

variable {nameOf : String → UInt64} (hnames : Literals nameOf)

include hnames

theorem address_inj {pool pool' : Pool} (h : pool.Used) (h' : pool'.Used)
    (heq : pool.address nameOf = pool'.address nameOf) : pool = pool' := by
  rcases h with rfl | ⟨d, rfl⟩
  · rcases h' with rfl | ⟨d', rfl⟩
    · rfl
    · exact absurd heq.symm (hnames.ne_zero d')
  · rcases h' with rfl | ⟨d', rfl⟩
    · exact absurd heq (hnames.ne_zero d)
    · exact congrArg Pool.named (hnames.inj d d' heq)

theorem serverKey_inj (key key' : Pool × Nat) (h : FitsKey key)
    (h' : FitsKey key') (heq : serverKey nameOf key = serverKey nameOf key') :
    key = key' := by
  obtain ⟨hpool, hptr⟩ := Prod.mk.inj heq
  have hlt := h.2
  have hlt' := h'.2
  have hnat : (UInt64.ofNat key.2).toNat = (UInt64.ofNat key'.2).toNat :=
    congrArg UInt64.toNat hptr
  rw [UInt64.toNat_ofNat_of_lt' (by rw [UInt64.size]; omega),
    UInt64.toNat_ofNat_of_lt' (by rw [UInt64.size]; omega)] at hnat
  exact Prod.ext (address_inj hnames h.1 h'.1 hpool) hnat

end Keys

/-! ## The events of a block -/

section Emits

variable {b : Block} {e : TraceEvent} (hproper : b.Proper) (hlow : b.Low)
  (h : b.Emits e)

include hproper hlow

theorem Block.ptr_le : b.ptr ≤ 2 ^ 47 := by
  have hfits := hproper.fits
  have hend : b.base + b.size ≤ 2 ^ 47 := hlow
  unfold Grant.ptr
  omega

theorem Block.count_lt : b.count.toNat < 2 ^ 47 := by
  have hprefix := hproper.sixteen_le
  have hfits := hproper.fits
  have hend : b.base + b.size ≤ 2 ^ 47 := hlow
  omega

theorem Block.toNat_ptr : (UInt64.ofNat b.ptr).toNat = b.ptr := by
  have hle := b.ptr_le hproper hlow
  exact UInt64.toNat_ofNat_of_lt' (by rw [UInt64.size]; omega)

theorem Block.ofNat_ptr_ne_zero : UInt64.ofNat b.ptr ≠ 0 := by
  intro hzero
  have hnat := b.toNat_ptr hproper hlow
  rw [hzero] at hnat
  exact hproper.ptr_ne_zero hnat.symm

theorem Block.fitsKey {pool : Pool} (hpool : pool.Used) :
    FitsKey (pool, b.ptr) := ⟨hpool, b.ptr_le hproper hlow⟩

include h

theorem Block.Emits.fitsKey : FitsKey e.key := by
  have hnamed : (Pool.named (getMemoryDomainName b.domain)).Used :=
    Or.inr ⟨_, rfl⟩
  simp only [Block.Emits, Block.allocEvents, Block.freeEvents, List.mem_cons,
    List.not_mem_nil, or_false] at h
  rcases h with (rfl | rfl) | rfl | rfl
  · exact b.fitsKey hproper hlow hnamed
  · exact b.fitsKey hproper hlow (Or.inl rfl)
  · exact b.fitsKey hproper hlow hnamed
  · exact b.fitsKey hproper hlow (Or.inl rfl)

theorem Block.Emits.valid {nameOf : String → UInt64} (hnames : Literals nameOf) :
    (e.call nameOf).Valid := by
  have hcount := b.count_lt hproper hlow
  have hptr := b.ofNat_ptr_ne_zero hproper hlow
  simp only [Block.Emits, Block.allocEvents, Block.freeEvents, List.mem_cons,
    List.not_mem_nil, or_false] at h
  rcases h with (rfl | rfl) | rfl | rfl
  · exact ⟨hcount, hnames.ne_zero _⟩
  · exact hcount
  · exact ⟨hptr, hnames.ne_zero _⟩
  · exact hptr

end Emits

/-! ## The log of the queue -/

section Log

variable {σ : Type*} {nameOf : String → UInt64} {L : List (LogEntry σ)}
  {events : List TraceEvent}
  (hcalls : L.map (·.call) = events.map (TraceEvent.call nameOf))

include hcalls

theorem brackets_of_calls :
    brackets L =
      (events.map TraceEvent.bracket).map (Bracket.map (serverKey nameOf)) := by
  have hlog : brackets L = (L.map (·.call)).filterMap SerialCall.bracket := by
    rw [List.filterMap_map]
    rfl
  rw [hlog, hcalls, List.filterMap_map, List.map_map,
    ← List.filterMap_eq_map]
  refine List.filterMap_congr fun e _ => ?_
  exact e.bracket_call nameOf

/-- An address that is open on the server is the key of an event. -/
theorem exists_key_of_opened {key : UInt64 × UInt64} (h : opened L key ≠ none) :
    ∃ e ∈ events, serverKey nameOf e.key = key := by
  have hheld : held key (brackets L) = true := by
    rw [held_eq_isSome]
    exact Option.isSome_iff_ne_none.mpr h
  rw [brackets_of_calls hcalls] at hheld
  obtain ⟨bracket, hbracket, rfl⟩ := exists_key_of_held hheld
  obtain ⟨bracket', hbracket', rfl⟩ := List.mem_map.mp hbracket
  obtain ⟨e, he, rfl⟩ := List.mem_map.mp hbracket'
  refine ⟨e, he, ?_⟩
  cases e <;> rfl

variable (hnames : Literals nameOf) (hfits : ∀ e ∈ events, FitsKey e.key)

include hnames hfits

theorem orderly_brackets (h : Orderly (events.map TraceEvent.bracket)) :
    Orderly (brackets L) := by
  rw [brackets_of_calls hcalls]
  refine h.map (serverKey_inj hnames) fun bracket hbracket => ?_
  obtain ⟨e, he, rfl⟩ := List.mem_map.mp hbracket
  rw [e.key_bracket]
  exact hfits e he

/-- The server knows the size of every open allocation. -/
theorem opened_size {key : Pool × Nat} (hkey : FitsKey key) :
    (opened L (serverKey nameOf key)).map (·.call.size) =
      openSize events key := by
  induction events using List.reverseRecOn generalizing L with
  | nil =>
    rw [List.map_eq_nil_iff.mp hcalls]
    rfl
  | append_singleton events e ih =>
    rw [List.map_append, List.map_singleton] at hcalls
    obtain ⟨L', last, rfl, hrest, hlast⟩ := List.map_eq_append_iff.mp hcalls
    obtain ⟨entry, rfl, hentry⟩ := List.map_eq_singleton_iff.mp hlast
    have hold := ih hrest fun e he => hfits e (List.mem_append_left _ he)
    have hfit := hfits e (List.mem_append_right _ List.mem_cons_self)
    have hiff : serverKey nameOf e.key = serverKey nameOf key ↔ e.key = key :=
      ⟨serverKey_inj hnames _ _ hfit hkey, congrArg _⟩
    rw [opened_append_singleton, openSize_append_singleton,
      openedStep_of_call nameOf hentry]
    by_cases heq : e.key = key
    · rw [if_pos heq, if_pos (hiff.mpr heq), Option.map_map]
      cases e with
      | alloc pool ptr size =>
        refine congrArg some ((congrArg SerialCall.size hentry).trans ?_)
        cases pool <;> rfl
      | free pool ptr => rfl
    · rw [if_neg heq, if_neg (hiff.not.mpr heq), hold]

end Log

/-! ## The usage -/

theorem toNat_sum {α : Type*} (s : Finset α) (size : α → UInt64)
    (h : ∑ a ∈ s, (size a).toNat < 2 ^ 64) :
    (∑ a ∈ s, size a).toNat = ∑ a ∈ s, (size a).toNat := by
  induction s using Finset.cons_induction with
  | empty => rfl
  | cons a s ha ih =>
    rw [Finset.sum_cons] at h
    rw [Finset.sum_cons, Finset.sum_cons, UInt64.toNat_add, ih (by omega),
      Nat.mod_eq_of_lt h]

/-- The usage of a table that has an address for every block. -/
theorem MemData.WellFormed.usage_eq {m : MemData} (hm : m.WellFormed)
    {blocks : Finset Block}
    (hptr : ∀ b ∈ blocks, ∀ c ∈ blocks,
      UInt64.ofNat b.ptr = UInt64.ofNat c.ptr → b = c)
    (hsizes : ∀ ptr size, (m.eventAt ptr).map MemEvent.size = some size ↔
      ∃ b ∈ blocks, UInt64.ofNat b.ptr = ptr ∧ b.count = size) :
    m.usage = ∑ b ∈ blocks, b.count := by
  obtain ⟨ptrs, hmem, husage⟩ := hm.usage
  have himage : ptrs = blocks.image fun b => UInt64.ofNat b.ptr := by
    ext ptr
    rw [hmem, ← hm.isSome_eventAt, Finset.mem_image]
    constructor
    · intro hsome
      obtain ⟨event, hevent⟩ := Option.isSome_iff_exists.mp hsome
      obtain ⟨b, hb, heq, -⟩ :=
        (hsizes ptr event.size).mp (congrArg (Option.map _) hevent)
      exact ⟨b, hb, heq⟩
    · rintro ⟨b, hb, heq⟩
      have hsize := (hsizes ptr b.count).mpr ⟨b, hb, heq, rfl⟩
      obtain ⟨event, hevent, -⟩ := Option.map_eq_some_iff.mp hsize
      exact Option.isSome_iff_exists.mpr ⟨event, hevent⟩
  rw [husage, himage, Finset.sum_image hptr]
  refine Finset.sum_congr rfl fun b hb => ?_
  rw [MemData.sizeAt, (hsizes _ b.count).mpr ⟨b, hb, rfl, rfl⟩]
  rfl

instance (b : Block) (key : Pool × Nat) : Decidable (b.Opens key) :=
  inferInstanceAs (Decidable (_ ∨ _))

namespace Machine

variable {τ : Type*} {s : Machine τ}

/-- Blocks do not overlap, and so all their sizes fit in the address space. -/
theorem Viewed.sum_count_le (h : Viewed s) {blocks : Finset Block}
    (hblocks : blocks ⊆ s.live) : ∑ b ∈ blocks, b.count.toNat ≤ 2 ^ 47 := by
  let range (b : Block) : Finset Nat := .Ico b.base (b.base + b.size)
  have hle : ∀ b ∈ blocks, b.count.toNat ≤ (range b).card := by
    intro b hb
    have hfits := (h.safe.proper none b (hblocks hb)).fits
    rw [Nat.card_Ico]
    omega
  have hdisjoint : ∀ b ∈ blocks, ∀ c ∈ blocks, b ≠ c →
      Disjoint (range b) (range c) := by
    intro b hb c hc hne
    rw [Finset.disjoint_left]
    intro x hx hx'
    have hapart :=
      h.safe.apart none none b c (hblocks hb) (hblocks hc) hne
    exact hapart.not_owns (Finset.mem_Ico.mp hx) (Finset.mem_Ico.mp hx')
  have hspace : blocks.biUnion range ⊆ Finset.range (2 ^ 47) := by
    intro x hx
    obtain ⟨b, hb, hx⟩ := Finset.mem_biUnion.mp hx
    have hlow : b.base + b.size ≤ 2 ^ 47 := h.low none b (hblocks hb)
    exact Finset.mem_range.mpr ((Finset.mem_Ico.mp hx).2.trans_le hlow)
  calc ∑ b ∈ blocks, b.count.toNat
      ≤ ∑ b ∈ blocks, (range b).card := Finset.sum_le_sum hle
    _ = (blocks.biUnion range).card := (Finset.card_biUnion hdisjoint).symm
    _ ≤ (Finset.range (2 ^ 47)).card := Finset.card_le_card hspace
    _ = 2 ^ 47 := Finset.card_range _

/-- Two blocks have different addresses. -/
theorem Viewed.ptr_inj (h : Viewed s) {b c : Block} (hb : b ∈ s.live)
    (hc : c ∈ s.live) (heq : UInt64.ofNat b.ptr = UInt64.ofNat c.ptr) :
    b = c := by
  have hproper := h.safe.proper none b hb
  have hproper' := h.safe.proper none c hc
  have hnat := congrArg UInt64.toNat heq
  rw [b.toNat_ptr hproper (h.low none b hb),
    c.toNat_ptr hproper' (h.low none c hc)] at hnat
  by_contra hne
  exact (h.safe.apart none none b c hb hc hne).ptr_ne hproper hproper' hnat

/-! ## The view -/

theorem Viewed.fitsKey_event (h : Viewed s) {e : TraceEvent}
    (he : e ∈ s.process.events) : FitsKey e.key := by
  obtain ⟨b, hproper, hlow, hemits⟩ := h.events e he
  exact hemits.fitsKey hproper hlow

theorem Viewed.fitsKey (h : Viewed s) {b : Block} {key : Pool × Nat}
    (hb : s.OpenedBy b key) : FitsKey key := by
  have hheld : held key (s.process.events.map TraceEvent.bracket) = true := by
    rw [← isSome_openSize, h.sizes b key hb]
    rfl
  obtain ⟨bracket, hbracket, rfl⟩ := exists_key_of_held hheld
  obtain ⟨e, he, rfl⟩ := List.mem_map.mp hbracket
  rw [e.key_bracket]
  exact h.fitsKey_event he

end Machine

/-- The server shows the blocks of the machine. -/
structure MemoryView {τ : Type*} (nameOf : String → UInt64) (s : Machine τ)
    (server : MemServer) : Prop where
  failure : server.failure = .none
  sizes : ∀ name ptr size,
    ((server.pool name).eventAt ptr).map MemEvent.size = some size ↔
      ∃ key b, serverKey nameOf key = (name, ptr) ∧ s.OpenedBy b key ∧
        b.count = size
  usage : (∀ t, s.pc t = .idle) → ∀ pool : Pool, pool.Used →
    (server.pool (pool.address nameOf)).usage.toNat =
      ∑ b ∈ s.live with b.Opens (pool, b.ptr), b.count.toNat

section View

variable {τ : Type*} {s : Machine τ} {nameOf : String → UInt64}
  {handle : τ → UInt32} {tscTime : Int64 → Int64} {L : List (LogEntry τ)}
  {server : MemServer}

theorem Mirrors.sizes (h : Mirrors handle tscTime L server) (name ptr : UInt64) :
    ((server.pool name).eventAt ptr).map MemEvent.size =
      (opened L (name, ptr)).map (·.call.size) := by
  have hevents := congrArg (Option.map Prod.fst) (h.events name ptr)
  rw [Option.map_map, Option.map_map] at hevents
  exact hevents

variable (hviewed : s.Viewed) (hnames : Literals nameOf)
  (hcalls : L.map (·.call) = s.process.events.map (TraceEvent.call nameOf))
  (h : Mirrors handle tscTime L server)

include hviewed hnames hcalls h

theorem Mirrors.sizes_iff (name ptr size : UInt64) :
    ((server.pool name).eventAt ptr).map MemEvent.size = some size ↔
      ∃ key b, serverKey nameOf key = (name, ptr) ∧ s.OpenedBy b key ∧
        b.count = size := by
  have hfits : ∀ e ∈ s.process.events, FitsKey e.key :=
    fun e he => hviewed.fitsKey_event he
  rw [h.sizes]
  constructor
  · intro hsize
    have hopen : opened L (name, ptr) ≠ none := by
      intro hnone
      rw [hnone] at hsize
      exact absurd hsize nofun
    obtain ⟨e, he, hkey⟩ := exists_key_of_opened hcalls hopen
    rw [← hkey, opened_size hcalls hnames hfits (hfits e he)] at hsize
    obtain ⟨b, hb, hcount⟩ := (hviewed.openSize_eq_some_iff e.key size).mp hsize
    exact ⟨e.key, b, hkey, hb, hcount⟩
  · rintro ⟨key, b, hkey, hb, rfl⟩
    rw [← hkey, opened_size hcalls hnames hfits (hviewed.fitsKey hb)]
    exact hviewed.sizes b key hb

theorem Mirrors.usage (hidle : ∀ t, s.pc t = .idle) {pool : Pool}
    (hpool : pool.Used) :
    (server.pool (pool.address nameOf)).usage.toNat =
      ∑ b ∈ s.live with b.Opens (pool, b.ptr), b.count.toNat := by
  have hsubset := Finset.filter_subset (fun b => b.Opens (pool, b.ptr)) s.live
  have hsum : (server.pool (pool.address nameOf)).usage =
      ∑ b ∈ s.live with b.Opens (pool, b.ptr), b.count := by
    refine (h.tables _).usage_eq (fun b hb c hc => ?_) fun ptr size => ?_
    · exact hviewed.ptr_inj (hsubset hb) (hsubset hc)
    · rw [h.sizes_iff hviewed hnames hcalls]
      constructor
      · rintro ⟨key, b, hkey, hb, hcount⟩
        obtain ⟨haddress, hptr⟩ := Prod.mk.inj hkey
        have hfits := hviewed.fitsKey hb
        obtain ⟨hlive, hopens⟩ := (Machine.openedBy_of_idle hidle b key).mp hb
        have hkeyed : key = (pool, b.ptr) :=
          Prod.ext (address_inj hnames hfits.1 hpool haddress) hopens.ptr
        refine ⟨b, Finset.mem_filter.mpr ⟨hlive, hkeyed ▸ hopens⟩, ?_, hcount⟩
        rw [← hptr, hopens.ptr]
      · rintro ⟨b, hb, hptr, hcount⟩
        have hmem := Finset.mem_filter.mp hb
        refine ⟨(pool, b.ptr), b, Prod.ext rfl hptr, ?_, hcount⟩
        exact (Machine.openedBy_of_idle hidle b _).mpr hmem
  have hle := hviewed.sum_count_le hsubset
  rw [hsum]
  exact toNat_sum _ _ (by omega)

end View

/-- In every interleaving of the threads the server accepts the events, and
shows the blocks that are allocated, with their sizes. -/
theorem memory_view {τ : Type*} [DecidableEq τ] {s : Machine τ}
    {memory : Bytes}
    (h : Relation.ReflTransGen Machine.LowStep (Machine.start τ memory) s)
    {nameOf : String → UInt64} (hnames : Literals nameOf)
    (handle : τ → UInt32) {L : List (LogEntry τ)}
    (hcalls : L.map (·.call) = s.process.events.map (TraceEvent.call nameOf))
    {tscTime : Int64 → Int64} (hmono : ∀ a b, a ≤ b → tscTime a ≤ tscTime b)
    (htimed : Timed tscTime L) (firstTime lastTime : Int64) :
    ∃ server, (MemServer.start firstTime lastTime false).run tscTime
        (deltas handle L) = some server ∧ MemoryView nameOf s server := by
  have hviewed := Machine.viewed_of_reachable h
  have hvalid : ∀ entry ∈ L, entry.call.Valid := by
    intro entry hentry
    have hmem : entry.call ∈ s.process.events.map (TraceEvent.call nameOf) :=
      hcalls ▸ List.mem_map_of_mem hentry
    obtain ⟨e, he, hcall⟩ := List.mem_map.mp hmem
    obtain ⟨b, hproper, hlow, hemits⟩ := hviewed.events e he
    exact hcall ▸ hemits.valid hproper hlow hnames
  have horderly : Orderly (brackets L) :=
    orderly_brackets hcalls hnames (fun e he => hviewed.fitsKey_event he)
      hviewed.safe.log.orderly
  obtain ⟨server, hrun, hanswers⟩ :=
    exists_answer handle hmono hvalid htimed firstTime lastTime
  rcases hanswers with ⟨-, hmirrors⟩ | ⟨hnot, -⟩
  · refine ⟨server, hrun, hmirrors.failure, ?_, fun hidle pool hpool => ?_⟩
    · exact hmirrors.sizes_iff hviewed hnames hcalls
    · exact hmirrors.usage hviewed hnames hcalls hidle hpool
  · exact absurd horderly hnot

def domainNames : List String :=
  ["Default", "Particles", "Animation", "Simulation", "Ui", "Unknown"]

/-- The names at the addresses from 1 on. -/
theorem literals_idxOf :
    Literals fun name => .ofNat (domainNames.idxOf name + 1) := by
  have hmem : ∀ d, getMemoryDomainName d ∈ domainNames := by
    intro d
    unfold getMemoryDomainName
    split_ifs <;> decide
  have hnat : ∀ d, (UInt64.ofNat
      (domainNames.idxOf (getMemoryDomainName d) + 1)).toNat =
        domainNames.idxOf (getMemoryDomainName d) + 1 := by
    intro d
    have hlt : _ < 6 := List.idxOf_lt_length_iff.mpr (hmem d)
    exact UInt64.toNat_ofNat_of_lt' (by rw [UInt64.size]; omega)
  constructor
  · intro d hzero
    have hnonzero := hnat d
    rw [hzero] at hnonzero
    exact absurd hnonzero (Nat.succ_ne_zero _).symm
  · intro d d' heq
    have hsame := congrArg UInt64.toNat heq
    rw [hnat, hnat] at hsame
    exact (List.idxOf_inj (hmem d)).mp (Nat.succ.inj hsame)

/-- A block of the default alignment. -/
def plainBlock (base : Nat) (count : UInt64) (domain : MemoryDomain) :
    Block where
  alignment := 16
  count := count
  base := base
  size := (prefixSize 16 + count).toNat
  enough := Nat.le_refl _
  domain := domain

theorem proper_plainBlock (base : Nat) {count : UInt64} (domain : MemoryDomain)
    (hcount : (prefixSize 16).toNat + count.toNat < 2 ^ 64) :
    (plainBlock base count domain).Proper where
  alignment := ⟨16, ⟨4, by decide⟩, by
    show (16 : UInt64) = _
    decide⟩
  noWrap := hcount

/-- One thread allocates 8 bytes, the other one 100 bytes in its domain.  It
deletes the block of the first thread, which gets the address again for 12
bytes. -/
theorem rests_reuse :
    let b := plainBlock 4096 8 .default
    let c := plainBlock 8192 100 .particles
    let b' := plainBlock 4096 12 .default
    ∃ domains : Bool → DomainStack,
      Machine.Rests (fun _ => 0)
        (b.allocEvents ++ c.allocEvents ++ b.freeEvents ++ b'.allocEvents)
        {b', c} domains := by
  intro b c b'
  have hproper : b.Proper := proper_plainBlock 4096 .default (by decide)
  have hproper' : c.Proper := proper_plainBlock 8192 .particles (by decide)
  have hproper'' : b'.Proper := proper_plainBlock 4096 .default (by decide)
  obtain ⟨domains, hpush, hcurrent⟩ : ∃ domains,
      pushMemoryDomain .particles .fresh = some domains ∧
        c.domain = getCurrentDomain domains := ⟨_, rfl, rfl⟩
  have hnew := (Machine.rests_start Bool fun _ => 0).new true .plain hproper
    (show 4096 + 24 ≤ 2 ^ 47 by decide) rfl rfl
    fun x hx => absurd hx (Finset.notMem_empty x)
  have hboth := (hnew.push false hpush).new false .plain hproper'
    (show 8192 + 116 ≤ 2 ^ 47 by decide) rfl hcurrent fun x hx => by
      rw [Finset.insert_empty, Finset.mem_singleton] at hx
      exact hx ▸ Or.inr (by decide)
  have hdeleted := hboth.delete false .plain
    (Finset.mem_insert_of_mem (Finset.mem_insert_self b ∅))
  have hleft : Finset.erase (insert c (insert b ∅)) b = {c} := by decide
  rw [hleft] at hdeleted
  have hagain := hdeleted.new true .plain hproper''
    (show 4096 + 28 ≤ 2 ^ 47 by decide) rfl rfl fun x hx => by
      rw [Finset.mem_singleton] at hx
      exact hx ▸ Or.inl (by decide)
  exact ⟨_, hagain⟩

def reusedBlock : List (LogEntry Bool) :=
  [⟨true, .memAllocNamed 4112 8 1, 5⟩, ⟨true, .memAlloc 4112 8, 6⟩,
    ⟨false, .memAllocNamed 8208 100 2, 7⟩, ⟨false, .memAlloc 8208 100, 8⟩,
    ⟨false, .memFreeNamed 4112 1, 9⟩, ⟨false, .memFree 4112, 10⟩,
    ⟨true, .memAllocNamed 4112 12 1, 11⟩, ⟨true, .memAlloc 4112 12, 12⟩]

theorem memory_view_reuse :
    ∃ (s : Machine Bool) (server : MemServer),
      Relation.ReflTransGen Machine.LowStep (Machine.start Bool fun _ => 0) s ∧
      (MemServer.start 0 0 false).run id
          (deltas (fun t => if t then 2 else 1) reusedBlock) = some server ∧
      server.failure = .none ∧ (server.pool 0).usage.toNat = 112 ∧
      (server.pool 1).usage.toNat = 12 ∧ (server.pool 2).usage.toNat = 100 := by
  obtain ⟨domains, s, hreach, hidle, hevents, hlive, -⟩ := rests_reuse
  have hcalls : reusedBlock.map (·.call) = s.process.events.map
      (TraceEvent.call fun name => .ofNat (domainNames.idxOf name + 1)) := by
    rw [hevents]
    rfl
  obtain ⟨server, hrun, hview⟩ := memory_view hreach literals_idxOf
    (fun t => if t then 2 else 1) hcalls (fun _ _ => id)
    (⟨by decide, by decide⟩ : Timed id reusedBlock) 0 0
  have husage := hview.usage hidle
  rw [hlive] at husage
  exact ⟨s, server, hreach, hrun, hview.failure,
    (husage .default (Or.inl rfl)).trans (by decide),
    (husage (.named "Default") (Or.inr ⟨.default, rfl⟩)).trans (by decide),
    (husage (.named "Particles") (Or.inr ⟨.particles, rfl⟩)).trans (by decide)⟩

end VulkanCompute.Profiler
