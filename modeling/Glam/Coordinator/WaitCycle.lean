import Glam.Coordinator.Wake
import Glam.Lib.Circuit
import Glam.Lib.Table

/-!
# Failing lazy values that wait for themselves

When a poll leaves a work blocked, the coordinator looks for a cycle of works that wait for each
other and fails the lazy values on it (`deferred_dependency_cycle` and `terminalize_lazy_cycle` in
`coordinator/deferred.rs`). A block names a dependency, a dependency a wait of its producer, and
three indexes say which work answers for a wait; so each work leads to at most one other
(`successor`), and the search follows that step with the path it has passed. A block can be stale
and an index can name a work that is no longer there: the state is arbitrary.

A work that has left the cycle's path behind it is its lead-in. The search cuts it off where the
repeated work was first met and turns the rest to its least member, so that what it returns depends
on the cycle alone (`deferredDependencyCycle_eq`).

Only what the two functions read and write is kept of the state: the works, the three indexes, the
observation waiters and the ready queue. A promise's producer names the task that owns the promise
and the wait under which the coordinator indexed the promise at that task's work; a task that is
gone has dropped the wait. -/

namespace Glam.Coordinator.WaitCycle

/-- `PromiseProducerObligation`: the owning task, and its wait while the task still holds it. -/
structure PromiseProducer where
  owner : Nat
  wait : Option Nat
deriving DecidableEq

/-- What work that is blocked waits for. -/
inductive WorkDependency
  | wait (wait : Nat)
  | promise (id : Nat) (producer : Option PromiseProducer)
deriving DecidableEq

/-- Why a task is blocked. -/
structure EvaluationTaskBlock where
  dependency : Option WorkDependency
  observedEpoch : Option Nat
deriving DecidableEq

/-- What a deferred machine computes. -/
inductive DeferredProducer
  | lazy (lazy : Nat)
  | promise (promise : Nat)
deriving DecidableEq

/-- A work's kind with what it keeps; `M` is the type of machines. -/
inductive WorkKind (M : Type)
  | spark
  | reflection (block : Option EvaluationTaskBlock)
  | deferred (producer : DeferredProducer) (wait : Nat) (machine : Option M)
      (block : Option EvaluationTaskBlock)
  | lazyRoute (lazy wait : Nat) (block : Option EvaluationTaskBlock)

/-- A work item of the coordinator. -/
structure WorkRecord (M : Type) where
  state : WorkState
  kind : WorkKind M

/-- The coordinator's tables, as far as they decide about cycles. -/
structure State (M : Type) where
  work : Table Nat (WorkRecord M)
  promiseByWait : Table Nat Nat
  deferredByWait : Table Nat Nat
  reflectionByWait : Table Nat Nat
  observationWaiters : Table Nat Nat
  ready : List Nat

/-- What is left of a lazy value's work after its cycle was ended. -/
structure DeferredLazyCycleMember (M : Type) where
  work : Nat
  wait : Nat
  lazy : Nat
  machine : Option M
  route : Bool
  retiredBlock : Option EvaluationTaskBlock

variable {M : Type}

/-- The wait of the work that a dependency is produced by. -/
def WorkDependency.producerWait : WorkDependency → Option Nat
  | .wait token => some token
  | .promise _ producer => producer.bind (·.wait)

namespace WorkKind

/-- The dependency of the block of a work that the search can pass. -/
def dependency : WorkKind M → Option WorkDependency
  | .spark => none
  | .reflection block | .deferred _ _ _ block | .lazyRoute _ _ block => block.bind (·.dependency)

/-- Whether work is a reflection task. -/
def isReflection : WorkKind M → Bool
  | .reflection _ => true
  | _ => false

/-- The lazy value that a work produces. -/
def lazy? : WorkKind M → Option Nat
  | .lazyRoute lazy .. | .deferred (.lazy lazy) .. => some lazy
  | _ => none

end WorkKind

namespace State

variable (state : State M)

/-- The work that fulfils a wait. -/
def workForWait (wait : Nat) : Option Nat :=
  (state.promiseByWait.get wait).orElse fun _ =>
    (state.deferredByWait.get wait).orElse fun _ => state.reflectionByWait.get wait

/-- What a work is blocked on, whether or not it is blocked now. -/
def dependency (state : State M) (id : Nat) : Option WorkDependency :=
  (state.work.get id).bind (·.kind.dependency)

/-- The work that produces what a work is blocked on. -/
def successor (id : Nat) : Option Nat := do
  let dependency ← state.dependency id
  let wait ← dependency.producerWait
  state.workForWait wait

variable {state : State M} {id start : Nat} {cycle : List Nat}

theorem mem_keys_of_successor {next : Nat} (h : state.successor id = some next) :
    id ∈ state.work.keys := by
  obtain ⟨dependency, hdependency, -⟩ := Option.bind_eq_some_iff.mp h
  obtain ⟨record, hrecord, -⟩ := Option.bind_eq_some_iff.mp hdependency
  exact Table.mem_keys_iff.mpr ⟨record, hrecord⟩

/-- The search with the path it has passed. -/
def cycleFrom (state : State M) (path : List Nat) (current : Nat) : Option (List Nat) :=
  if current ∈ path then some (canonical (path.drop (path.idxOf current)))
  else match _h : state.successor current with
    | none => none
    | some next => state.cycleFrom (path ++ [current]) next
termination_by (state.work.keys.filter (· ∉ path)).card
decreasing_by
  -- a work with a successor is recorded, so passing it takes it from the works not yet passed
  refine Finset.card_lt_card (Finset.ssubset_iff_of_subset ?_ |>.mpr ?_)
  · intro id hid
    simp only [List.mem_append, List.mem_singleton, Finset.mem_filter] at hid ⊢
    exact ⟨hid.1, fun hmem => hid.2 (.inl hmem)⟩
  · refine ⟨current, Finset.mem_filter.mpr ⟨mem_keys_of_successor _h, ‹_›⟩, ?_⟩
    simp

/-- The cycle that deferred work waits in, if it does. -/
def deferredDependencyCycle (start : Nat) : Option (List Nat) :=
  state.cycleFrom [] start

/-- The error of a cycle with a promise on it, for the first member that waits for one. -/
def cycleError (id : Nat) : Option String :=
  match state.dependency id with
  | some (.promise promise (some producer)) =>
    some s!"reflection promise {promise} recursively observed itself in task {producer.owner}"
  | _ => none

/-- Whether a work item has a property. -/
def holds (id : Nat) (property : WorkRecord M → Bool) : Bool :=
  (state.work.get id).any property

/-- Takes a lazy member's block and machine from it and marks it as terminalizing. -/
def terminalize (id : Nat) : Option (DeferredLazyCycleMember M × State M) := do
  let record ← state.work.get id
  let settle (kind : WorkKind M) : State M :=
    { state with
      work := state.work.set id ⟨.terminalizing, kind⟩
      observationWaiters := state.observationWaiters.remove id
      ready := state.ready.filter (· ≠ id) }
  match record.kind with
  | .lazyRoute lazy wait block =>
    some (⟨id, wait, lazy, none, true, block⟩, settle (.lazyRoute lazy wait none))
  | .deferred (.lazy lazy) wait (some machine) block =>
    some (⟨id, wait, lazy, some machine, false, block⟩,
      settle (.deferred (.lazy lazy) wait none none))
  | _ => none

/-- Ends the members of a cycle one after another. -/
def terminalizeAll (state : State M) :
    List Nat → Option (List (DeferredLazyCycleMember M) × State M)
  | [] => some ([], state)
  | id :: ids => do
    let (member, state) ← state.terminalize id
    let (members, state) ← state.terminalizeAll ids
    return (member :: members, state)

/-- Fails the lazy values of a cycle, unless the cycle may still be disturbed from outside. -/
def terminalizeCycle (cycle : List Nat) :
    Option (List (DeferredLazyCycleMember M) × Option String × State M) :=
  let allBlocked := cycle.all fun id => state.holds id fun record =>
    record.state = .blocked && (record.kind.lazy?.isSome || record.kind.isReflection)
  let cycleError := cycle.findSome? state.cycleError
  if !allBlocked then some ([], none, state)
  else if cycleError.isNone && cycle.any (state.holds · fun record => record.kind.isReflection) then
    some ([], none, state)
  else
    let lazyIds := cycle.filter (state.holds · fun record => record.kind.lazy?.isSome)
    if lazyIds.isEmpty then some ([], none, state)
    else do
      let (members, state) ← state.terminalizeAll lazyIds
      return (members, cycleError, state)

/-- The lazy values to fail after a work was left blocked, the error, and the state; `none` is a
failed `expect`. -/
def terminalizeLazyCycle (start : Nat) :
    Option (List (DeferredLazyCycleMember M) × Option String × State M) :=
  match state.deferredDependencyCycle start with
  | none => some ([], none, state)
  | some cycle => state.terminalizeCycle cycle

/-! ### The search -/

/-- Following producers from a work leads to the members of a list. -/
def Leads (start : Nat) (cycle : List Nat) : Prop :=
  ∃ count id, follow state.successor count start = some id ∧ id ∈ cycle

/-- The works passed lead one to the next, and the last to the current one. -/
structure Trail (state : State M) (start : Nat) (path : List Nat) (current : Nat) : Prop where
  nodup : path.Nodup
  next : ∀ i id, path[i]? = some id → state.successor id = (path ++ [current])[i + 1]?
  reached : ∃ count, follow state.successor count start = some current

/-- Where the search meets a work again, the path from there on is a circuit. -/
theorem Trail.circuit {current : Nat} {path : List Nat} (h : state.Trail start path current)
    (hmem : current ∈ path) : Circuit state.successor (path.drop (path.idxOf current)) := by
  have hlt := List.idxOf_lt_length_of_mem hmem
  have hlength : (path.drop (path.idxOf current)).length = path.length - path.idxOf current :=
    List.length_drop
  refine ⟨fun hnil => ?_, h.nodup.sublist (List.drop_sublist ..), fun i id hid => ?_⟩
  · exact absurd (List.drop_eq_nil_iff.mp hnil) (by omega)
  · have hi : i < path.length - path.idxOf current := by
      rw [← hlength]
      exact (List.getElem?_eq_some_iff.mp hid).1
    rw [List.getElem?_drop] at hid
    rw [h.next _ id hid, hlength]
    by_cases hlast : i + 1 < path.length - path.idxOf current
    · rw [Nat.mod_eq_of_lt hlast, List.getElem?_drop, List.getElem?_append_left (by omega)]
      rfl
    -- the last work of the path leads to the current one, which is the first of the circuit
    · have hi' : i + 1 = path.length - path.idxOf current := by omega
      rw [hi', Nat.mod_self, List.getElem?_drop, List.getElem?_append_right (by omega)]
      have hzero : path.idxOf current + i + 1 - path.length = 0 := by omega
      rw [hzero, Nat.add_zero, List.getElem?_eq_getElem hlt, List.getElem_idxOf hlt]
      rfl

/-- The walk goes on to work that it has not passed. -/
theorem Trail.step {current next : Nat} {path : List Nat} (h : state.Trail start path current)
    (hmem : current ∉ path) (hnext : state.successor current = some next) :
    state.Trail start (path ++ [current]) next where
  nodup := List.concat_eq_append ▸ List.Nodup.concat hmem h.nodup
  next := by
    intro i id hid
    rcases Nat.lt_trichotomy i path.length with hi | rfl | hi
    · rw [List.getElem?_append_left hi] at hid
      have hi' : i + 1 < (path ++ [current]).length := by simpa using hi
      rw [h.next i id hid, List.getElem?_append_left hi']
    · simp only [List.getElem?_concat_length, Option.some.injEq] at hid
      subst hid
      simp [hnext]
    · rw [List.getElem?_eq_none (by simpa using Nat.succ_le_of_lt hi)] at hid
      cases hid
  reached := by
    obtain ⟨count, hcount⟩ := h.reached
    exact ⟨count + 1, by rw [follow, hcount, Option.bind_some, hnext]⟩

/-- The search from a trail finds the cycle that it leads into, or its end. -/
theorem cycleFrom_spec (state : State M) (start : Nat) (path : List Nat) (current : Nat)
    (h : state.Trail start path current) :
    (∀ members, state.cycleFrom path current = some members →
      ∃ cycle, Circuit state.successor cycle ∧ members = canonical cycle ∧
        state.Leads start cycle) ∧
    (state.cycleFrom path current = none →
      ∃ count, follow state.successor count start = none) := by
  fun_induction cycleFrom state path current with
  | case1 path current hmem =>
    refine ⟨fun members hmembers => ?_, nofun⟩
    cases hmembers
    obtain ⟨count, hcount⟩ := h.reached
    refine ⟨_, h.circuit hmem, rfl, count, current, hcount, ?_⟩
    rw [List.drop_eq_getElem_cons (List.idxOf_lt_length_of_mem hmem), List.getElem_idxOf]
    exact .head _
  | case2 path current hmem hnone =>
    refine ⟨nofun, fun _ => ?_⟩
    obtain ⟨count, hcount⟩ := h.reached
    exact ⟨count + 1, by rw [follow, hcount, Option.bind_some, hnone]⟩
  | case3 path current hmem next hnext ih => exact ih (h.step hmem hnext)

theorem trail_start (state : State M) (start : Nat) : state.Trail start [] start where
  nodup := List.nodup_nil
  next := by simp
  reached := ⟨0, rfl⟩

/-- **The search returns the circuit that its start leads to**, listed from its least member, and
returns nothing else. -/
theorem deferredDependencyCycle_eq (h : Circuit state.successor cycle)
    (hleads : state.Leads start cycle) :
    state.deferredDependencyCycle start = some (canonical cycle) := by
  obtain ⟨hsome, hnone⟩ := cycleFrom_spec state start [] start (state.trail_start start)
  obtain ⟨count, id, hcount, hid⟩ := hleads
  -- once on the circuit, every further step stays on it
  have honward : ∀ more, ∃ y ∈ cycle, follow state.successor (count + more) start = some y := by
    intro more
    obtain ⟨y, hy, hfollow⟩ := h.follow_mem hid more
    exact ⟨y, hy, by rw [follow_add, hcount, Option.bind_some, hfollow]⟩
  unfold deferredDependencyCycle
  cases hresult : state.cycleFrom [] start with
  | none =>
    -- a search without result has come to a work that nothing follows
    obtain ⟨stop, hstop⟩ := hnone hresult
    obtain ⟨y, -, hy⟩ := honward stop
    rw [Nat.add_comm, follow_add, hstop] at hy
    cases hy
  | some members =>
    -- after `count + count'` steps one work is on both circuits, so they are one circuit
    obtain ⟨found, hfound, rfl, count', id', hcount', hid'⟩ := hsome members hresult
    obtain ⟨y, hy, hfollow⟩ := honward count'
    obtain ⟨y', hy', hfollow'⟩ := hfound.follow_mem hid' count
    rw [Nat.add_comm, follow_add, hcount', Option.bind_some, hfollow'] at hfollow
    cases hfollow
    rw [hfound.canonical_eq h hy' hy]

/-! ### What is failed -/

/-- **A cycle of works that wait for each other**, each blocked on the next one's result. -/
structure Deadlocked (state : State M) (cycle : List Nat) : Prop
    extends Circuit state.successor cycle where
  blocked : ∀ id ∈ cycle, ∃ record, state.work.get id = some record ∧ record.state = .blocked

/-- A member waits for a promise that a task on the cycle owns: the wait of the promise's producer
is indexed at a member. -/
def OwnsPromise (cycle : List Nat) : Prop :=
  ∃ id ∈ cycle, ∃ promise producer wait owner,
    state.dependency id = some (.promise promise (some producer)) ∧ producer.wait = some wait ∧
      state.workForWait wait = some owner ∧ owner ∈ cycle

theorem holds_iff {property : WorkRecord M → Bool} :
    state.holds id property = true ↔
      ∃ record, state.work.get id = some record ∧ property record = true := by
  unfold holds
  cases state.work.get id <;> simp

theorem terminalize_spec {after : State M} {member : DeferredLazyCycleMember M}
    (h : state.terminalize id = some (member, after)) :
    member.work = id ∧
      (∃ record, state.work.get id = some record ∧ record.kind.lazy? = some member.lazy) ∧
      ∀ other, other ≠ id → after.work.get other = state.work.get other := by
  obtain ⟨record, hrecord, h⟩ := Option.bind_eq_some_iff.mp h
  dsimp only at h
  split at h <;> cases h
  all_goals
    refine ⟨rfl, ⟨record, hrecord, ?_⟩, fun other hne => Table.get_set_of_ne _ _ hne⟩
    simp only [*, WorkKind.lazy?]

/-- Each member is failed for the value it produced before the others were touched. -/
theorem terminalizeAll_spec : ∀ {ids : List Nat} {now after : State M}
    {members : List (DeferredLazyCycleMember M)}, ids.Nodup →
    (∀ id ∈ ids, now.work.get id = state.work.get id) →
    now.terminalizeAll ids = some (members, after) →
    ∀ member ∈ members, member.work ∈ ids ∧
      ∃ record, state.work.get member.work = some record ∧ record.kind.lazy? = some member.lazy
  | [], now, after, members, _, _, h => by
    cases h
    simp
  | id :: ids, now, after, members, hnodup, hsame, h => by
    obtain ⟨⟨first, middle⟩, hfirst, h⟩ := Option.bind_eq_some_iff.mp h
    obtain ⟨⟨rest, last⟩, hrest, h⟩ := Option.bind_eq_some_iff.mp h
    cases h
    obtain ⟨hnot, hrestNodup⟩ := List.nodup_cons.mp hnodup
    obtain ⟨rfl, ⟨record, hrecord, hlazy⟩, hothers⟩ := terminalize_spec hfirst
    obtain ⟨hid, hids⟩ := List.forall_mem_cons.mp hsame
    -- the members are distinct, so failing the first leaves the records of the others
    have hmiddle : ∀ other ∈ ids, middle.work.get other = state.work.get other := by
      intro other hother
      rw [hothers other (fun heq => hnot (heq ▸ hother)), hids other hother]
    have ih := terminalizeAll_spec hrestNodup hmiddle hrest
    refine List.forall_mem_cons.mpr ⟨⟨(.head _), record, hid ▸ hrecord, hlazy⟩, ?_⟩
    intro member hmember
    exact ⟨.tail _ (ih member hmember).1, (ih member hmember).2⟩

/-- What is ended was blocked in the cycle, with its lazy value. -/
theorem terminalizeCycle_sound {after : State M} {members : List (DeferredLazyCycleMember M)}
    {error : Option String} (hnodup : cycle.Nodup)
    (h : state.terminalizeCycle cycle = some (members, error, after)) :
    ∀ member ∈ members, member.work ∈ cycle ∧
      (∃ record, state.work.get member.work = some record ∧
        record.kind.lazy? = some member.lazy) ∧
      ∀ id ∈ cycle, ∃ record, state.work.get id = some record ∧ record.state = .blocked := by
  simp only [terminalizeCycle] at h
  split at h
  · cases h
    simp
  next hblocked =>
  split at h
  · cases h
    simp
  split at h
  · cases h
    simp
  obtain ⟨⟨failed, settled⟩, hfailed, h⟩ := Option.bind_eq_some_iff.mp h
  cases h
  have hall := terminalizeAll_spec (hnodup.filter _) (fun id _ => rfl) hfailed
  intro member hmember
  obtain ⟨hmem, hrecord⟩ := hall member hmember
  refine ⟨List.mem_of_mem_filter hmem, hrecord, fun id hid => ?_⟩
  simp only [Bool.not_eq_true', Bool.not_eq_false, List.all_eq_true] at hblocked
  obtain ⟨record, hget, hproperty⟩ := holds_iff.mp (hblocked id hid)
  simp only [Bool.and_eq_true, decide_eq_true_eq] at hproperty
  exact ⟨record, hget, hproperty.1⟩

/-- Along an edge of a circuit that is a promise, the promise's producer is the next member. -/
theorem ownsPromise_of_cycleError (h : Circuit state.successor cycle) (hid : id ∈ cycle)
    {error : String} (herror : state.cycleError id = some error) : state.OwnsPromise cycle := by
  unfold cycleError at herror
  split at herror
  next promise producer hdependency =>
    obtain ⟨owner, howner, hfollow⟩ := h.follow_mem hid 1
    have hsuccessor : state.successor id = some owner := hfollow
    simp only [successor, hdependency, Option.bind_eq_bind, Option.bind_some,
      WorkDependency.producerWait] at hsuccessor
    obtain ⟨wait, hwait, howner'⟩ := Option.bind_eq_some_iff.mp hsuccessor
    exact ⟨id, hid, promise, producer, wait, owner, hdependency, hwait, howner', howner⟩
  next => cases herror

/-- A cycle with a reflection task is left alone, unless it owns a promise. -/
theorem terminalizeCycle_of_reflection (h : Circuit state.successor cycle)
    (hreflection : ∃ id ∈ cycle, ∃ record, state.work.get id = some record ∧
      record.kind.isReflection = true)
    (howns : ¬ state.OwnsPromise cycle) :
    state.terminalizeCycle cycle = some ([], none, state) := by
  -- an error would come from a promise edge, and such an edge ends at the promise's owner
  have herror : cycle.findSome? state.cycleError = none := by
    rw [List.findSome?_eq_none_iff]
    intro id hid
    by_contra hsome
    obtain ⟨error, herror⟩ := Option.ne_none_iff_exists'.mp hsome
    exact howns (ownsPromise_of_cycleError h hid herror)
  have hany : cycle.any (state.holds · fun record => record.kind.isReflection) = true := by
    obtain ⟨id, hid, record, hrecord, hkind⟩ := hreflection
    exact List.any_eq_true.mpr ⟨id, hid, holds_iff.mpr ⟨record, hrecord, hkind⟩⟩
  simp [terminalizeCycle, herror, hany]

/-- **Which lazy values cycle failure reaches.** A value that is failed is produced by a member of a
cycle of works that wait for each other. All starts that lead to one cycle give one answer. A cycle
through a reflection task stays as it is unless a member waits for a promise that a member owns. -/
theorem terminalizeLazyCycle_spec (state : State M) (start : Nat) :
    (∀ members error after, state.terminalizeLazyCycle start = some (members, error, after) →
      ∀ member ∈ members, ∃ cycle, state.Deadlocked cycle ∧ member.work ∈ cycle ∧
        ∃ record, state.work.get member.work = some record ∧
          record.kind.lazy? = some member.lazy) ∧
    ∀ cycle, Circuit state.successor cycle → state.Leads start cycle →
      (∀ other, state.Leads other cycle →
        state.deferredDependencyCycle other = state.deferredDependencyCycle start ∧
        state.terminalizeLazyCycle other = state.terminalizeLazyCycle start) ∧
      ((∃ id ∈ cycle, ∃ record, state.work.get id = some record ∧
          record.kind.isReflection = true) → ¬ state.OwnsPromise cycle →
        state.terminalizeLazyCycle start = some ([], none, state)) := by
  refine ⟨fun members error after h member hmember => ?_, fun cycle hcircuit hleads => ⟨?_, ?_⟩⟩
  · unfold terminalizeLazyCycle at h
    split at h
    · cases h
      cases hmember
    next found hfound =>
      obtain ⟨cycle, hcircuit, rfl, -⟩ :=
        (cycleFrom_spec state start [] start (state.trail_start start)).1 _ hfound
      obtain ⟨-, -, hcanonical, -⟩ := hcircuit.canonical_spec
      obtain ⟨hmem, hlazy, hblocked⟩ := terminalizeCycle_sound hcanonical.nodup h member hmember
      exact ⟨_, ⟨hcanonical, hblocked⟩, hmem, hlazy⟩
  · intro other hother
    -- the members are named from the least on, wherever the search began
    have hsame : state.deferredDependencyCycle other = state.deferredDependencyCycle start :=
      (deferredDependencyCycle_eq hcircuit hother).trans
        (deferredDependencyCycle_eq hcircuit hleads).symm
    exact ⟨hsame, by rw [terminalizeLazyCycle, hsame, terminalizeLazyCycle]⟩
  · intro hreflection howns
    obtain ⟨-, -, hcanonical, -⟩ := hcircuit.canonical_spec
    rw [terminalizeLazyCycle, deferredDependencyCycle_eq hcircuit hleads]
    refine terminalizeCycle_of_reflection hcanonical ?_ ?_
    · obtain ⟨id, hid, hrecord⟩ := hreflection
      exact ⟨id, Circuit.mem_canonical.mpr hid, hrecord⟩
    · rintro ⟨id, hid, promise, producer, wait, owner, hdependency, hwait, howner, hmem⟩
      exact howns ⟨id, Circuit.mem_canonical.mp hid, promise, producer, wait, owner, hdependency,
        hwait, howner, Circuit.mem_canonical.mp hmem⟩

end State

end Glam.Coordinator.WaitCycle
