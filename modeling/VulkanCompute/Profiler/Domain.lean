import Mathlib.Data.List.Infix
import Mathlib.Data.List.OfFn
import Mathlib.Logic.Function.Basic

/-!
# Memory domains

The thread-local stack of memory domains of `Profiler.cpp`, and the scopes it
is for.

* `DomainStack` is the bounded array with its depth; `pushMemoryDomain`,
  `popMemoryDomain` and `getCurrentDomain` are the source's functions.
  `toList` is the view of the array that the proofs use.
* `scopes` is the abstract stack: every push opens a scope and every pop
  closes the innermost one.  `NestedScopes` says that the code returns the
  domain of the innermost open scope.

The two differ in a push of `Default`, which opens a scope that the array
does not record.  The pop that closes this scope closes the one around it.
`nestedScopes_iff` says that this is the only way to lose a scope.
-/

namespace VulkanCompute.Profiler

/-- `enum class MemoryDomain : i8`.  Every value of the underlying type is a
value of the enumeration. -/
structure MemoryDomain where
  val : Int8
deriving DecidableEq

namespace MemoryDomain

def default : MemoryDomain := ⟨0⟩
def particles : MemoryDomain := ⟨1⟩
def simulation : MemoryDomain := ⟨2⟩
def animation : MemoryDomain := ⟨3⟩
def ui : MemoryDomain := ⟨4⟩

end MemoryDomain

/-- `GetMemoryDomainName`. -/
def getMemoryDomainName (id : MemoryDomain) : String :=
  if id = .default then "Default"
  else if id = .particles then "Particles"
  else if id = .animation then "Animation"
  else if id = .simulation then "Simulation"
  else if id = .ui then "Ui"
  else "Unknown"

def kMaxDomainDepth : Nat := 16

/-- `g_memoryDomainStack` and `g_memoryDomainDepth` of one thread. -/
structure DomainStack where
  entries : Fin kMaxDomainDepth → MemoryDomain
  depth : Nat
  depth_le : depth ≤ kMaxDomainDepth

/-- The stack of a new thread. -/
def DomainStack.fresh : DomainStack where
  entries := fun _ => .default
  depth := 0
  depth_le := Nat.zero_le _

/-- `GetCurrentDomain`, the domain that an allocation is stamped with. -/
def getCurrentDomain (st : DomainStack) : MemoryDomain :=
  if h : st.depth = 0 then .default
  else st.entries ⟨st.depth - 1, by have := st.depth_le; omega⟩

def getCurrentMemoryDomain (st : DomainStack) : MemoryDomain :=
  getCurrentDomain st

/-- `PushMemoryDomain`.  The result is `none` when the assertion fails. -/
def pushMemoryDomain (id : MemoryDomain) (st : DomainStack) :
    Option DomainStack :=
  if id ≠ .default then
    if h : st.depth < kMaxDomainDepth then
      some
        { entries := Function.update st.entries ⟨st.depth, h⟩ id
          depth := st.depth + 1
          depth_le := h }
    else none
  else some st

def popMemoryDomain (st : DomainStack) : DomainStack :=
  if st.depth > 0 then
    { st with
      depth := st.depth - 1
      depth_le := (Nat.sub_le _ _).trans st.depth_le }
  else st

/-! ## Runs -/

inductive DomainCall where
  | push (id : MemoryDomain)
  | pop
deriving DecidableEq

def DomainCall.run : DomainCall → DomainStack → Option DomainStack
  | .push id, st => pushMemoryDomain id st
  | .pop, st => some (popMemoryDomain st)

def runCalls (calls : List DomainCall) (st : DomainStack) :
    Option DomainStack :=
  calls.foldlM (fun st call => call.run st) st

theorem runCalls_append_singleton (calls : List DomainCall)
    (call : DomainCall) (st : DomainStack) :
    runCalls (calls ++ [call]) st = (runCalls calls st).bind call.run := by
  unfold runCalls
  rw [List.foldlM_append]
  apply congrArg
  funext st'
  exact bind_pure (call.run st')

/-! ## The stack as a list -/

/-- The open entries, the innermost one first. -/
def DomainStack.toList (st : DomainStack) : List MemoryDomain :=
  (List.ofFn fun k : Fin st.depth => st.entries (k.castLE st.depth_le)).reverse

theorem toList_fresh : DomainStack.fresh.toList = [] := rfl

theorem length_toList (st : DomainStack) : st.toList.length = st.depth := by
  rw [DomainStack.toList, List.length_reverse, List.length_ofFn]

theorem toList_eq_cons (entries : Fin kMaxDomainDepth → MemoryDomain)
    (depth : Nat) (h : depth + 1 ≤ kMaxDomainDepth) :
    (DomainStack.mk entries (depth + 1) h).toList =
      entries ⟨depth, h⟩ ::
        (DomainStack.mk entries depth (Nat.le_of_succ_le h)).toList := by
  unfold DomainStack.toList
  rw [List.ofFn_succ', List.concat_eq_append, List.reverse_append]
  rfl

theorem toList_pop (st : DomainStack) :
    (popMemoryDomain st).toList = st.toList.tail := by
  obtain ⟨entries, depth, h⟩ := st
  cases depth with
  | zero => rfl
  | succ depth =>
    rw [toList_eq_cons]
    rfl

/-- A push that is not of `Default` puts its id on top. -/
theorem toList_push {id : MemoryDomain} (hid : id ≠ .default)
    (st : DomainStack) (hdepth : st.depth < kMaxDomainDepth) :
    ∃ st', pushMemoryDomain id st = some st' ∧
      st'.toList = id :: st.toList := by
  unfold pushMemoryDomain
  rw [if_pos hid, dif_pos hdepth]
  refine ⟨_, rfl, ?_⟩
  rw [toList_eq_cons, Function.update_self]
  apply congrArg
  unfold DomainStack.toList
  apply congrArg
  apply congrArg
  funext k
  apply Function.update_of_ne
  intro hk
  have hval : k.val = st.depth := congrArg Fin.val hk
  have hlt := k.isLt
  simp only at hlt
  omega

theorem push_default (st : DomainStack) :
    pushMemoryDomain .default st = some st := by
  unfold pushMemoryDomain
  rw [if_neg (not_not_intro rfl)]

theorem getCurrentDomain_eq_head (st : DomainStack) :
    getCurrentDomain st = st.toList.headD .default := by
  obtain ⟨entries, depth, h⟩ := st
  cases depth with
  | zero => rfl
  | succ depth =>
    rw [toList_eq_cons]
    rfl

/-! ## Scopes -/

/-- The ids of the open scopes, the innermost one first. -/
def scopes (calls : List DomainCall) : List MemoryDomain :=
  calls.foldl
    (fun open_ call =>
      match call with
      | .push id => id :: open_
      | .pop => open_.tail)
    []

theorem scopes_append_push (calls : List DomainCall) (id : MemoryDomain) :
    scopes (calls ++ [.push id]) = id :: scopes calls :=
  List.foldl_append

theorem scopes_append_pop (calls : List DomainCall) :
    scopes (calls ++ [.pop]) = (scopes calls).tail :=
  List.foldl_append

def DomainCall.isPush : DomainCall → Bool
  | .push _ => true
  | .pop => false

/-- No prefix has more pops than pushes, and at most 16 scopes are open at
once. -/
def ValidCalls (calls : List DomainCall) : Prop :=
  ∀ pre ∈ calls.inits,
    pre.count .pop ≤ pre.countP DomainCall.isPush ∧
      pre.countP DomainCall.isPush ≤ pre.count .pop + kMaxDomainDepth

instance (calls : List DomainCall) : Decidable (ValidCalls calls) :=
  inferInstanceAs (Decidable (∀ pre ∈ calls.inits, _))

/-- Every scope that the sequence opens it also closes. -/
inductive Balanced : List DomainCall → Prop where
  | nil : Balanced []
  | scope (id : MemoryDomain) {inner : List DomainCall} :
      Balanced inner → Balanced (.push id :: inner ++ [.pop])
  | append {left right : List DomainCall} :
      Balanced left → Balanced right → Balanced (left ++ right)

/-- After every prefix the current domain is the id of the innermost open
scope, and a balanced inner sequence leaves the current domain, and the one
that allocations are stamped with, as they were. -/
def NestedScopes (calls : List DomainCall) : Prop :=
  (∀ pre, pre <+: calls → ∃ st, runCalls pre .fresh = some st ∧
      getCurrentMemoryDomain st = (scopes pre).headD .default) ∧
    ∀ pre inner, pre ++ inner <+: calls → Balanced inner →
      ∃ st st', runCalls pre .fresh = some st ∧
        runCalls (pre ++ inner) .fresh = some st' ∧
        getCurrentMemoryDomain st' = getCurrentMemoryDomain st ∧
        getCurrentDomain st' = getCurrentDomain st

theorem scopes_append_balanced {inner : List DomainCall}
    (hinner : Balanced inner) (pre : List DomainCall) :
    scopes (pre ++ inner) = scopes pre := by
  induction hinner generalizing pre with
  | nil => rw [List.append_nil]
  | @scope id inner _ ih =>
    have hsplit : pre ++ (.push id :: inner ++ [.pop]) =
        pre ++ [.push id] ++ inner ++ [.pop] := by
      simp
    rw [hsplit, scopes_append_pop, ih, scopes_append_push]
    rfl
  | append _ _ ihleft ihright =>
    rw [← List.append_assoc, ihright, ihleft]

/-- In a valid sequence every pop closes a scope. -/
theorem length_scopes {calls : List DomainCall} (hvalid : ValidCalls calls) :
    ∀ pre, pre <+: calls →
      (scopes pre).length + pre.count .pop =
        pre.countP DomainCall.isPush := by
  intro pre
  induction pre using List.reverseRecOn with
  | nil => intro _; rfl
  | append_singleton pre call ih =>
    intro hpre
    have hcount := ih ((List.prefix_append pre [call]).trans hpre)
    have hpops := (hvalid _ ((List.mem_inits _ _).mpr hpre)).1
    rw [List.count_append, List.countP_append] at hpops ⊢
    cases call with
    | push id =>
      have hpop : [DomainCall.push id].count .pop = 0 := by simp
      have hpush : [DomainCall.push id].countP DomainCall.isPush = 1 := rfl
      rw [scopes_append_push, List.length_cons, hpop, hpush]
      omega
    | pop =>
      have hpush : [DomainCall.pop].countP DomainCall.isPush = 0 := rfl
      have hpop : [DomainCall.pop].count .pop = 1 := rfl
      rw [hpush, hpop] at hpops ⊢
      rw [scopes_append_pop, List.length_tail]
      omega

/-! ## The array against the scopes -/

/-- The array records the open scopes down to the outermost ones of
`Default`. -/
def Records (st : DomainStack) (pre : List DomainCall) : Prop :=
  (∀ id ∈ st.toList, id ≠ .default) ∧
    ∃ k, scopes pre = st.toList ++ List.replicate k .default

theorem Records.getCurrentDomain {st : DomainStack} {pre : List DomainCall}
    (h : Records st pre) :
    getCurrentDomain st = (scopes pre).headD .default := by
  obtain ⟨_, k, hscopes⟩ := h
  rw [getCurrentDomain_eq_head, hscopes]
  cases st.toList with
  | cons id ids => rfl
  | nil =>
    cases k with
    | zero => rfl
    | succ k => rfl

/-- When the current domain is `Default`, the array is empty and only scopes
of `Default` are open. -/
theorem Records.of_default {st : DomainStack} {pre : List DomainCall}
    (h : Records st pre) (hcurrent : (scopes pre).headD .default = .default) :
    st.toList = [] ∧ ∀ id ∈ scopes pre, id = .default := by
  obtain ⟨hids, k, hscopes⟩ := h
  have hempty : st.toList = [] := by
    cases hlist : st.toList with
    | nil => rfl
    | cons id ids =>
      rw [hscopes, hlist] at hcurrent
      exact absurd hcurrent (hids id (by rw [hlist]; exact List.mem_cons_self))
  refine ⟨hempty, fun id hid => ?_⟩
  rw [hscopes, hempty, List.nil_append] at hid
  exact List.eq_of_mem_replicate hid

/-- One call.  A push of `Default` needs an empty array. -/
theorem Records.step {st : DomainStack} {pre : List DomainCall}
    (h : Records st pre) (call : DomainCall)
    (hlength : (scopes (pre ++ [call])).length ≤ kMaxDomainDepth)
    (hdefault : call = .push .default → st.toList = []) :
    ∃ st', call.run st = some st' ∧ Records st' (pre ++ [call]) := by
  obtain ⟨hids, k, hscopes⟩ := h
  cases call with
  | push id =>
    by_cases hid : id = .default
    · subst hid
      have hempty := hdefault rfl
      refine ⟨st, push_default st, hids, k + 1, ?_⟩
      rw [scopes_append_push, hscopes, hempty]
      rfl
    · have hdepth : st.depth < kMaxDomainDepth := by
        rw [scopes_append_push, hscopes, List.length_cons,
          List.length_append, length_toList] at hlength
        omega
      obtain ⟨st', hpush, hlist⟩ := toList_push hid st hdepth
      refine ⟨st', hpush, ?_, k, ?_⟩
      · rw [hlist]
        intro id' hmem
        rcases List.mem_cons.mp hmem with rfl | hmem
        · exact hid
        · exact hids id' hmem
      · rw [scopes_append_push, hscopes, hlist]
        rfl
  | pop =>
    refine ⟨popMemoryDomain st, rfl, ?_, ?_⟩
    · rw [toList_pop]
      intro id hmem
      exact hids id (List.mem_of_mem_tail hmem)
    · rw [scopes_append_pop, hscopes, toList_pop]
      cases st.toList with
      | nil =>
        refine ⟨k - 1, ?_⟩
        rw [List.nil_append, List.tail_replicate]
        rfl
      | cons id ids => exact ⟨k, rfl⟩

/-- A whole sequence.  The array records the scopes as long as it is empty at
every push of `Default`. -/
theorem records_run {calls : List DomainCall} (hvalid : ValidCalls calls)
    (hdefault : ∀ pre st, pre ++ [.push .default] <+: calls →
      runCalls pre .fresh = some st → Records st pre → st.toList = []) :
    ∀ pre, pre <+: calls →
      ∃ st, runCalls pre .fresh = some st ∧ Records st pre := by
  intro pre
  induction pre using List.reverseRecOn with
  | nil =>
    intro _
    refine ⟨.fresh, rfl, ?_, 0, rfl⟩
    rw [toList_fresh]
    exact fun id hid => absurd hid List.not_mem_nil
  | append_singleton pre call ih =>
    intro hpre
    obtain ⟨st, hrun, hrecords⟩ :=
      ih ((List.prefix_append pre [call]).trans hpre)
    have hlength : (scopes (pre ++ [call])).length ≤ kMaxDomainDepth := by
      have hcount := length_scopes hvalid _ hpre
      have hopen := (hvalid _ ((List.mem_inits _ _).mpr hpre)).2
      omega
    obtain ⟨st', hcall, hrecords'⟩ := hrecords.step call hlength (by
      intro hcall
      subst hcall
      exact hdefault pre st hpre hrun hrecords)
    refine ⟨st', ?_, hrecords'⟩
    rw [runCalls_append_singleton, hrun]
    exact hcall

/-- The stack implements nested scopes exactly when `Default` is pushed only
while no other scope is open. -/
theorem nestedScopes_iff (calls : List DomainCall)
    (hvalid : ValidCalls calls) :
    NestedScopes calls ↔
      ∀ pre, pre ++ [.push .default] <+: calls →
        ∀ id ∈ scopes pre, id = .default := by
  constructor
  · intro hnested
    have hhead : ∀ pre, pre ++ [.push .default] <+: calls →
        (scopes pre).headD .default = .default := by
      intro pre hpre
      obtain ⟨st, hrun, hcurrent⟩ :=
        hnested.1 pre ((List.prefix_append pre _).trans hpre)
      obtain ⟨st', hrun', hcurrent'⟩ := hnested.1 _ hpre
      rw [runCalls_append_singleton, hrun] at hrun'
      have hsame : st = st' :=
        Option.some.inj ((push_default st).symm.trans hrun')
      rw [← hcurrent, hsame, hcurrent', scopes_append_push]
      rfl
    have hrecords := records_run hvalid fun pre st hpre _ hrecords =>
      (hrecords.of_default (hhead pre hpre)).1
    intro pre hpre
    obtain ⟨st, _, hst⟩ :=
      hrecords pre ((List.prefix_append pre _).trans hpre)
    exact (hst.of_default (hhead pre hpre)).2
  · intro hdefault
    have hrecords := records_run hvalid fun pre st hpre _ hrecords => by
      have hall := hdefault pre hpre
      refine (hrecords.of_default ?_).1
      cases hscopes : scopes pre with
      | nil => rfl
      | cons id ids =>
        exact hall id (by rw [hscopes]; exact List.mem_cons_self)
    apply And.intro
    · intro pre hpre
      obtain ⟨st, hrun, hst⟩ := hrecords pre hpre
      exact ⟨st, hrun, hst.getCurrentDomain⟩
    · intro pre inner hpre hinner
      obtain ⟨st, hrun, hst⟩ :=
        hrecords pre ((List.prefix_append pre inner).trans hpre)
      obtain ⟨st', hrun', hst'⟩ := hrecords _ hpre
      have hsame : getCurrentDomain st' = getCurrentDomain st := by
        rw [hst'.getCurrentDomain, hst.getCurrentDomain,
          scopes_append_balanced hinner]
      exact ⟨st, st', hrun, hrun', hsame, hsame⟩

/-- Two scopes, one inside the other. -/
theorem nestedScopes_particles_ui :
    NestedScopes [.push .particles, .push .ui, .pop, .pop] := by
  refine (nestedScopes_iff _ (by decide)).mpr fun pre hpre => ?_
  have hmem : DomainCall.push .default ∈
      [.push .particles, .push .ui, .pop, .pop] :=
    hpre.subset (List.mem_append_right pre List.mem_cons_self)
  exact absurd hmem (by decide)

/-- Inside a scope of `Particles`, a scope of `Default` is not seen, and its
end closes the outer scope. -/
theorem not_nestedScopes_default :
    let calls := [.push .particles, .push .default, .pop]
    (runCalls (calls.take 2) .fresh).map getCurrentMemoryDomain =
        some .particles ∧
      (runCalls calls .fresh).map getCurrentMemoryDomain = some .default ∧
      ValidCalls calls ∧ ¬NestedScopes calls := by
  intro calls
  have hinner : (runCalls (calls.take 2) .fresh).map getCurrentMemoryDomain =
      some .particles := by decide
  refine ⟨hinner, by decide, by decide, fun hnested => ?_⟩
  obtain ⟨st, hrun, hcurrent⟩ :=
    hnested.1 (calls.take 2) (List.take_prefix 2 calls)
  rw [hrun, Option.map_some, hcurrent] at hinner
  exact absurd hinner (by decide)

end VulkanCompute.Profiler
