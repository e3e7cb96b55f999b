import Glam.Gc.Mark
import Mathlib.Logic.Function.Basic

/-!
# Blocking, subscribing and waking

The part of the work coordinator that parks works on promises and waits and queues them again
(`evaluation/coordinator.rs` and the modules below it). A work that its poll reports blocked gets a
new subscription epoch, and with it a registration: the work and that epoch. The coordinator then
subscribes the registration to the source. A producer publishes its terminal result first, then
takes the registrations that are there, then has the coordinator queue the works they name.

Three kinds of critical sections are involved: the coordinator's state, the registrations of one
source, and the terminal cell of a source, which is written once and read without a lock. Each is
one step here, except that a subscriber holds the registrations of a source between its look at the
terminal cell and its insertion, since the cell can be written meanwhile. The threads run
operations: `Operation` says how far each has got, and an operation that runs inside another is an
operation of its own. The runtime's mutation admission is shared, so it excludes none of these
steps.

Works of all kinds are kept in one table. What only the scheduler reads (sessions, obligations, the
producer indexes, generations) is left out: the actions of the scheduler that change a record's
state are taken as they come, in any order. The keys of dependencies are the dependencies, and all
belong to the coordinator's runtime. `blocks` is a record for the proofs: what each work has blocked
on so far. -/

namespace Glam.Coordinator

/-- A subscription of work to be woken. It is current as long as the work is in the epoch that it
names. -/
structure WakeRegistration where
  work : Nat
  subscriptionEpoch : Nat
deriving DecidableEq

/-- What work is doing. -/
inductive WorkState
  | dormant
  | reserved
  | queued
  | running
  | inlineForced
  | blocked
  | terminalizing
deriving DecidableEq

/-- The kinds of work. -/
inductive WorkKind
  | spark
  | reflection
  | deferred
  | lazyRoute
  | clientDemand
deriving DecidableEq

/-- A work and what it is blocked on, if it is. -/
structure WorkRecord (D : Type) where
  kind : WorkKind
  state : WorkState
  subscriptionEpoch : Nat
  /-- the dependency of the block, or of a client's subscription -/
  dependency : Option D
  /-- the observed epoch of the block -/
  observedEpoch : Option Nat
  /-- the block that the claim of a running work took from it -/
  prior : Option (D × WakeRegistration)

/-- A subscription to any change after an epoch. -/
structure ObservationRegistration where
  wake : WakeRegistration
  observedEpoch : Nat
deriving DecidableEq

/-- How far an operation has got. `obsolete` is the subscription that a client drops at the end. -/
inductive Operation (D : Type)
  | idle
  /-- the work is blocked, the registration not yet made -/
  | subscribing (dependency : D) (registration : WakeRegistration)
      (obsolete : Option (D × WakeRegistration))
  /-- the source was not terminal; its registrations are held -/
  | inserting (dependency : D) (registration : WakeRegistration)
      (obsolete : Option (D × WakeRegistration))
  /-- registrations of a terminal source are to be delivered -/
  | waking (source : D) (registrations : List WakeRegistration)
      (obsolete : Option (D × WakeRegistration))
  | unsubscribing (dependency : D) (registration : WakeRegistration)
  /-- the terminal is published, the registrations not yet taken -/
  | taking (source : D)
  /-- a client found its demand blocked and asks whether the source is terminal -/
  | inspecting (dependency : D) (registration : WakeRegistration) (abandon : Bool)
  /-- it was not; the client abandons the demand unless there is progress -/
  | abandoning (dependency : D) (registration : WakeRegistration) (abandon : Bool)

variable {T D : Type}

/-- The coordinator, the sources and the operations on them. -/
structure State (T D : Type) where
  nextWork : Nat
  work : Nat → Option (WorkRecord D)
  readyTasks : List Nat
  readyClientDemands : List Nat
  observationWaiters : Nat → Option ObservationRegistration
  terminal : D → Bool
  registrations : D → List WakeRegistration
  /-- who holds the registrations of a source -/
  held : D → Option T
  operation : T → Operation D
  blocks : Nat → List (Option D)

/-- Nothing has happened yet. -/
def State.initial : State T D where
  nextWork := 0
  work _ := none
  readyTasks := []
  readyClientDemands := []
  observationWaiters _ := none
  terminal _ := false
  registrations _ := []
  held _ := none
  operation _ := .idle
  blocks _ := []

namespace State

/-! ### Queueing -/

variable (s : State T D)

/-- The state with another record for a work. -/
def setWork (id : Nat) (record : Option (WorkRecord D)) : State T D :=
  { s with work := Function.update s.work id record }

/-- Makes a task ready, if it is not. -/
def queueTask (id : Nat) : State T D :=
  if id ∈ s.readyTasks then s else { s with readyTasks := s.readyTasks ++ [id] }

/-- Makes a client's demand ready, if it is not. -/
def queueClientDemand (id : Nat) : State T D :=
  if id ∈ s.readyClientDemands then s
  else { s with readyClientDemands := s.readyClientDemands ++ [id] }

/-- Puts a queued work where its kind is looked for. Sparks are found among the background roots. -/
def queueByKind (id : Nat) : WorkKind → State T D
  | .spark => s
  | .clientDemand => s.queueClientDemand id
  | .reflection | .deferred | .lazyRoute => s.queueTask id

/-- `remove_ready_task`, and its counterpart for clients. -/
def removeReady (id : Nat) : State T D :=
  { s with
    readyTasks := s.readyTasks.filter (· ≠ id)
    readyClientDemands := s.readyClientDemands.filter (· ≠ id) }

/-- Work that no longer waits for a change. -/
def removeObservationWaiter (id : Nat) : State T D :=
  { s with observationWaiters := Function.update s.observationWaiters id none }

/-- Whether a registration describes the current block of its work, with the given source if any. -/
def Current [DecidableEq D] (record : WorkRecord D) (registration : WakeRegistration)
    (source : Option D) : Prop :=
  record.state = .blocked ∧ record.subscriptionEpoch = registration.subscriptionEpoch ∧
    ∀ d ∈ source, record.dependency = some d

instance [DecidableEq D] (record : WorkRecord D) (registration : WakeRegistration)
    (source : Option D) : Decidable (Current record registration source) := by
  unfold Current
  infer_instance

/-- **`queue_current_registration`**: queues the work of a registration that is current. -/
def queueCurrentRegistration [DecidableEq D] (registration : WakeRegistration)
    (source : Option D) : Bool × State T D :=
  match s.work registration.work with
  | none => (false, s)
  | some record =>
    if Current record registration source then
      let queued := s.setWork registration.work (some { record with state := .queued })
      let queued := if record.kind = .clientDemand then queued
        else queued.removeObservationWaiter registration.work
      (true, queued.queueByKind registration.work record.kind)
    else (false, s)

/-- `wake_dependency_batch_guarded`. -/
def wakeDependencyBatch [DecidableEq D] (source : D)
    (registrations : List WakeRegistration) : State T D :=
  registrations.foldl (fun s registration => (s.queueCurrentRegistration registration source).2) s

/-- Wakes work that observed an older epoch, if it is still blocked on that. -/
def queueCurrentObservation (registration : ObservationRegistration)
    (currentEpoch : Nat) : State T D :=
  let id := registration.wake.work
  let stale := if s.observationWaiters id = some registration then s.removeObservationWaiter id else s
  match s.work id with
  | none => stale
  | some record =>
    if record.state = .blocked ∧
        record.subscriptionEpoch = registration.wake.subscriptionEpoch ∧
        record.observedEpoch = some registration.observedEpoch then
      if currentEpoch ≤ registration.observedEpoch then s
      else
        ((s.removeObservationWaiter id).setWork id (some { record with state := .queued })).queueTask id
    else stale

/-! ### Blocking -/

/-- What a claimed work reports after its poll. -/
inductive Poll (D : Type)
  /-- the step budget is spent; queued again, or dormant where nobody asked -/
  | runnable (queued : Bool)
  | blocked (dependency : Option D) (observedEpoch : Option Nat)
  | terminal

/-- **`publish_task_block_locked`**, and the same for sparks and clients: the work is blocked, under
a new epoch. -/
def publishTaskBlock (id : Nat) (record : WorkRecord D) (dependency : Option D)
    (observedEpoch : Option Nat) : State T D :=
  let registration : WakeRegistration := ⟨id, record.subscriptionEpoch + 1⟩
  { s with
    work := Function.update s.work id (some { record with
      state := .blocked
      subscriptionEpoch := record.subscriptionEpoch + 1
      dependency := dependency
      observedEpoch := observedEpoch
      prior := none })
    observationWaiters := Function.update s.observationWaiters id
      (observedEpoch.map fun epoch => ⟨registration, epoch⟩)
    blocks := Function.update s.blocks id (s.blocks id ++ [dependency]) }

/-- The subscription that a client drops when its demand goes on without it. -/
def obsolete (record : WorkRecord D) : Option (D × WakeRegistration) :=
  if record.kind = .clientDemand then record.prior else none

/-- What an operation does last. -/
def dropping : Option (D × WakeRegistration) → Operation D
  | none => .idle
  | some (dependency, registration) => .unsubscribing dependency registration

/-- Takes one registration out of a list. -/
def unsubscribe (registrations : List WakeRegistration) (registration : WakeRegistration) :
    List WakeRegistration :=
  match registrations.idxOf? registration with
  | none => registrations
  | some index => Gc.swapRemove registrations index

/-! ### Steps -/

variable [DecidableEq T] [DecidableEq D]

/-- A thread at another place of its operation. -/
def setOperation (t : T) (operation : Operation D) : State T D :=
  { s with operation := Function.update s.operation t operation }

/-- Releases a running work after its poll. -/
def release (t : T) (id : Nat) (record : WorkRecord D) : Poll D → State T D
  | .runnable queued =>
    let released := (s.setWork id (some { record with
      state := if queued then .queued else .dormant
      dependency := none
      observedEpoch := none
      prior := none })).removeObservationWaiter id
    let released := if queued then released.queueByKind id record.kind else released
    released.setOperation t (dropping (obsolete record))
  | .blocked dependency observedEpoch =>
    let blocked := s.publishTaskBlock id record dependency observedEpoch
    match dependency with
    | none => blocked.setOperation t (dropping (obsolete record))
    | some d =>
      blocked.setOperation t
        (.subscribing d ⟨id, record.subscriptionEpoch + 1⟩ (obsolete record))
  | .terminal =>
    if record.kind = .clientDemand then
      ((s.setWork id none).removeReady id).setOperation t (dropping record.prior)
    else
      (s.setWork id (some { record with
        state := .terminalizing
        dependency := none
        observedEpoch := none
        prior := none })).removeObservationWaiter id

/-- The next step of an operation, where the registrations it needs are free. -/
def proceed (t : T) : Option (State T D) :=
  match s.operation t with
  | .idle => none
  | .subscribing d registration obsolete =>
    if s.held d = none then
      if s.terminal d then some (s.setOperation t (.waking d [registration] obsolete))
      else
        some ({ s with held := Function.update s.held d (some t) }.setOperation t
          (.inserting d registration obsolete))
    else none
  | .inserting d registration obsolete =>
    some ({ s with
      held := Function.update s.held d none
      registrations := Function.update s.registrations d (s.registrations d ++ [registration])
      }.setOperation t (dropping obsolete))
  | .waking source registrations obsolete =>
    some ((s.wakeDependencyBatch source registrations).setOperation t (dropping obsolete))
  | .unsubscribing d registration =>
    if s.held d = none then
      some ({ s with
        registrations := Function.update s.registrations d
          (unsubscribe (s.registrations d) registration) }.setOperation t .idle)
    else none
  | .taking d =>
    if s.held d = none then
      some ({ s with registrations := Function.update s.registrations d [] }.setOperation t
        (.waking d (s.registrations d) none))
    else none
  | .inspecting d registration abandon =>
    if s.terminal d then some (s.setOperation t (.waking d [registration] none))
    else some (s.setOperation t (.abandoning d registration abandon))
  | .abandoning d registration abandon =>
    match s.work registration.work with
    | none => some (s.setOperation t .idle)
    | some record =>
      if record.state = .blocked ∧ record.subscriptionEpoch = registration.subscriptionEpoch ∧
          abandon then
        some (((s.setWork registration.work none).removeReady registration.work).setOperation t
          (.unsubscribing d registration))
      else some (s.setOperation t .idle)

end State

/-- What can happen next. The operation that does it is named where it has more to do. -/
inductive Action (T D : Type)
  /-- a new work, in a state in which works are admitted -/
  | reserve (kind : WorkKind) (state : WorkState)
  /-- a work that is admitted but idle is queued -/
  | activate (id : Nat)
  /-- the inline claim of a lazy route ends and nobody asked for it -/
  | releaseInline (id : Nat)
  | claim (id : Nat)
  | requeueUnpolled (id : Nat)
  | release (t : T) (id : Nat) (poll : State.Poll D)
  /-- cancellation, closure and settlement of a work that is not running -/
  | terminalize (id : Nat)
  /-- the record of a work that is not running is removed -/
  | retire (t : T) (id : Nat)
  /-- a producer publishes the terminal of its source -/
  | publish (t : T) (source : D)
  /-- a producer that published before notifies -/
  | notifyPublished (t : T) (source : D)
  | observe (registration : ObservationRegistration) (currentEpoch : Nat)
  /-- a client looks at its blocked demand -/
  | inspect (t : T) (id : Nat) (abandon : Bool)
  | proceed (t : T)

namespace State

variable [DecidableEq T] [DecidableEq D] (s : State T D)

/-- Changes the record of a work. -/
def withWork (id : Nat) (f : WorkRecord D → Option (State T D)) : Option (State T D) :=
  (s.work id).bind f

/-- What only a thread between its operations can do. -/
def whenIdle (t : T) (next : State T D) : Option (State T D) :=
  match s.operation t with
  | .idle => some next
  | _ => none

/-- **One step.** -/
def step : Action T D → Option (State T D)
  | .reserve kind state =>
    if state = .dormant ∨ state = .reserved ∨ state = .queued ∨ state = .inlineForced then
      let admitted := { s with nextWork := s.nextWork + 1 }.setWork s.nextWork
        (some ⟨kind, state, 0, none, none, none⟩)
      some (if state = .queued then admitted.queueByKind s.nextWork kind else admitted)
    else none
  | .activate id => s.withWork id fun record =>
    if record.state = .dormant ∨ record.state = .reserved ∨ record.state = .inlineForced then
      some ((s.setWork id (some { record with state := .queued })).queueByKind id record.kind)
    else none
  | .releaseInline id => s.withWork id fun record =>
    if record.state = .inlineForced then
      some (s.setWork id (some { record with state := .dormant }))
    else none
  | .claim id => s.withWork id fun record =>
    if record.state = .queued ∨ record.state = .dormant then
      some (((s.setWork id (some { record with
        state := .running
        dependency := none
        observedEpoch := none
        prior := record.dependency.map fun d => (d, ⟨id, record.subscriptionEpoch⟩)
        })).removeObservationWaiter id).removeReady id)
    else none
  | .requeueUnpolled id => s.withWork id fun record =>
    if record.state = .running then
      some ((s.setWork id (some { record with
        state := .queued
        dependency := record.prior.map Prod.fst
        prior := none })).queueByKind id record.kind)
    else none
  | .release t id poll => s.withWork id fun record =>
    if record.state = .running then s.whenIdle t (s.release t id record poll) else none
  | .terminalize id => s.withWork id fun record =>
    if record.state = .running then none
    else
      some (((s.setWork id (some { record with
        state := .terminalizing
        dependency := none })).removeObservationWaiter id).removeReady id)
  | .retire t id => s.withWork id fun record =>
    if record.state = .running then none
    else
      s.whenIdle t ((((s.setWork id none).removeObservationWaiter id).removeReady id).setOperation t
        (dropping (if record.kind = .clientDemand then
          record.dependency.map fun d => (d, ⟨id, record.subscriptionEpoch⟩) else none)))
  | .publish t d =>
    s.whenIdle t ({ s with terminal := Function.update s.terminal d true }.setOperation t (.taking d))
  | .notifyPublished t d =>
    if s.terminal d then s.whenIdle t (s.setOperation t (.taking d)) else none
  | .observe registration currentEpoch =>
    if s.observationWaiters registration.wake.work = some registration then
      some (s.queueCurrentObservation registration currentEpoch)
    else none
  | .inspect t id abandon => s.withWork id fun record =>
    match record.kind, record.state, record.dependency with
    | .clientDemand, .blocked, some d =>
      s.whenIdle t (s.setOperation t
        (.inspecting d ⟨id, record.subscriptionEpoch⟩ abandon))
    | _, _, _ => none
  | .proceed t => s.proceed t

/-- The states of the coordinator that its threads can bring about. -/
inductive Reachable : State T D → Prop
  | initial : Reachable .initial
  | step {s s' : State T D} {a : Action T D} : Reachable s → s.step a = some s' → Reachable s'

end State
end Glam.Coordinator
