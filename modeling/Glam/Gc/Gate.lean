import Glam.Gc.GateWord
import Glam.Lib.Tally

/-!
# The admission gate

Threads enter the managed heap as outer mutators, and a collector excludes them (`admission.rs`,
`admission/gate.rs` and `heap.rs` of `crates/glam-gc`). An entry or an exit is one operation on the
gate's word while the top bit is clear. Otherwise it takes the coordinator lock, under which the
phase of the heap changes.

The model is the interleaving of the threads' atomic steps: each operation on the word, each taking
and releasing of the mutex, and each critical section between two operations on the word is a step
of its own. `Pc` says what a thread does next. The mutex and the condition variable are standard
ones; a waiting thread may wake without a notification. Epochs are unbounded.

Under the lock the heap's `poisoned` flag agrees with the phase, which alone is kept. A failed
assertion sets `broken`; the one assertion that can fail, that the count of mutators is not
exhausted, ends the entry. -/

namespace Glam.Gc

/-- Whom the gate admits. -/
inductive AdmissionPhase
  | ordinary
  | exclusive
  | finalizing
  | poisoned
deriving DecidableEq

/-- Where a thread came from that has been admitted or elected. -/
inductive Back
  /-- from an entry -/
  | entry
  /-- from `collect_full`, which waits for the epoch `target` -/
  | maintenance (target : Nat)
deriving DecidableEq

/-- What a thread does once its admission has been given up. -/
inductive After
  | back (back : Back)
  /-- goes on unwinding a failed collection -/
  | failing (epoch : Nat)
deriving DecidableEq

/-- What a thread is while it is in none of the gate's operations. -/
inductive Rest
  | idle
  /-- in `collect_full`, waiting for the epoch `target` to complete -/
  | collecting (target : Nat)
  /-- elected to collect -/
  | collector (epoch : Nat) (back : Back)
  /-- the collector, as the finalizing mutator -/
  | finalizing (epoch : Nat) (back : Back)
  /-- an outer mutator -/
  | mutator (back : Back)
  /-- the collector, unwinding -/
  | failing (epoch : Nat)
deriving DecidableEq

/-- Where a thread is once it has left. -/
def After.rest : After → Rest
  | .back .entry => .idle
  | .back (.maintenance target) => .collecting target
  | .failing epoch => .failing epoch

/-- What a thread takes the lock for. -/
inductive Job
  | admission
  | exit (after : After)
  | target
  | collect (target : Nat)
  | finalize (epoch : Nat) (back : Back)
  | complete (epoch : Nat) (back : Back)
  | abandon (epoch : Nat)
  | poison (epoch : Nat)
  /-- poisons the heap while holding the finalizing mutator's admission -/
  | poisonHeld (epoch : Nat)
deriving DecidableEq

/-- What a thread does under the lock next. The argument `seen` is a count that it has read. -/
inductive Section
  | start (job : Job)
  | admitRead (seen : Nat)
  | admitCheck
  | admitAdd
  | exitRead (after : After) (seen : Nat)
  | collectRead (target seen : Nat)
  | finalizeRead (epoch : Nat) (back : Back) (seen : Nat)
  | finalizeCheck (epoch : Nat) (back : Back)
  | finalizeAdd (epoch : Nat) (back : Back)
deriving DecidableEq

/-- Who waits on the condition variable. -/
inductive Waiting
  | admission
  | collect (target : Nat)
deriving DecidableEq

/-- What a thread does once it no longer waits. -/
def Waiting.job : Waiting → Job
  | .admission => .admission
  | .collect target => .collect target

/-- Where a thread is. -/
inductive Pc
  | rest (rest : Rest)
  /-- in the loop of `try_enter`, having read the word -/
  | trying (word : Word)
  | locking (job : Job)
  | holding (sect : Section)
  /-- in `wait`, counted among the waiters; `marked` once it has set the bit. It waits for the count
  to reach zero if `zero` -/
  | parking (waiting : Waiting) (zero marked : Bool)
  | parked (waiting : Waiting) (zero : Bool)
  /-- notified, and not yet with the lock -/
  | waking (waiting : Waiting)
  /-- unlocking: the guard settles the bit, and then releases the mutex -/
  | settling (rest : Rest)
  | releasing (rest : Rest)
deriving DecidableEq

/-- The gate and the threads that use it: its atomic word, the mutex with what it guards, and where
each thread is. -/
structure GateState (T : Type) where
  word : Word
  /-- who has the mutex -/
  holder : Option T
  waiters : Nat
  phase : AdmissionPhase
  activeCollection : Option Nat
  completedEpoch : Nat
  collectionRequested : Bool
  /-- an assertion has failed -/
  broken : Bool
  pc : T → Pc

/-- A notified thread stops waiting. -/
def Pc.notified : Pc → Pc
  | .parked waiting _ => .waking waiting
  | pc => pc

namespace GateState

variable {T : Type}

/-- The gate before any thread came. -/
def initial : GateState T :=
  ⟨0, none, 0, .ordinary, none, 0, false, false, fun _ => .rest .idle⟩

/-- Wakes every thread that waits, if one does. -/
def notify (s : GateState T) : GateState T :=
  if s.waiters ≠ 0 then { s with pc := fun t => (s.pc t).notified } else s

/-- Reads the active count, setting the bit in the same step. -/
def coordinate (s : GateState T) : GateState T := { s with word := s.word.coordinate }

variable [DecidableEq T]

/-- A thread at another place of its program. -/
def goto (s : GateState T) (t : T) (pc : Pc) : GateState T :=
  { s with pc := Function.update s.pc t pc }

/-- An assertion of the source does not hold. -/
def fail (s : GateState T) : GateState T := { s with broken := true }

/-- Retires one outer mutator, which takes the lock if the coordinator must see it. -/
def leave (s : GateState T) (t : T) (after : After) : GateState T :=
  if s.word.active = 0 then s.fail
  else if s.word.coordinated then
    { s with word := s.word - 1 }.goto t (.locking (.exit after))
  else { s with word := s.word - 1 }.goto t (.rest after.rest)

/-- A thread that begins to wait, with the mutex still held. -/
def wait (s : GateState T) (t : T) (waiting : Waiting) (zero : Bool) : GateState T :=
  { s with waiters := s.waiters + 1 }.goto t (.parking waiting zero false)

/-- Elects the caller to collect, in `Ordinary` admission with no active mutator. -/
def elect (s : GateState T) (t : T) (back : Back) : GateState T :=
  { s with
    activeCollection := some (s.completedEpoch + 1)
    phase := .exclusive }.notify.goto t (.settling (.collector (s.completedEpoch + 1) back))

/-- One step under the lock. -/
def hold (automatic : Bool) (s : GateState T) (t : T) : Section → GateState T
  -- the loop of `admit_outer_mutator`
  | .start .admission =>
    match s.phase with
    | .ordinary =>
      if automatic ∧ s.collectionRequested then
        s.coordinate.goto t (.holding (.admitRead s.word.active))
      else s.goto t (.holding .admitCheck)
    | .finalizing => s.goto t (.holding .admitCheck)
    | .exclusive => s.wait t .admission false
    | .poisoned => s.goto t (.settling .idle)
  | .admitRead seen =>
    if seen = 0 then s.elect t .entry else s.goto t (.holding .admitCheck)
  | .admitCheck =>
    -- active mutator count exhausted
    if s.word.active = Word.full then s.coordinate.goto t (.settling .idle)
    else s.coordinate.goto t (.holding .admitAdd)
  | .admitAdd => { s with word := s.word + 1 }.goto t (.settling (.mutator .entry))
  | .start (.exit after) => s.coordinate.goto t (.holding (.exitRead after s.word.active))
  | .exitRead after seen =>
    if seen = 0 then s.notify.goto t (.settling after.rest) else s.goto t (.settling after.rest)
  -- the beginning of `collect_full`
  | .start .target =>
    match s.phase with
    | .poisoned => s.goto t (.settling .idle)
    | .ordinary =>
      { s with collectionRequested := true }.goto t (.settling (.collecting (s.completedEpoch + 1)))
    | _ =>
      match s.activeCollection with
      | some epoch => s.goto t (.settling (.collecting epoch))
      | none => s.fail
  -- the loop of `collect_full`
  | .start (.collect target) =>
    if s.phase = .poisoned ∨ target ≤ s.completedEpoch then s.goto t (.settling .idle)
    else if s.phase ≠ .ordinary ∨ s.collectionRequested = false then
      s.wait t (.collect target) false
    else s.coordinate.goto t (.holding (.collectRead target s.word.active))
  | .collectRead target seen =>
    if seen = 0 then s.elect t (.maintenance target) else s.wait t (.collect target) true
  -- `begin_finalizing`
  | .start (.finalize epoch back) =>
    if s.phase ≠ .exclusive then s.fail
    else s.coordinate.goto t (.holding (.finalizeRead epoch back s.word.active))
  | .finalizeRead epoch back seen =>
    if seen ≠ 0 ∨ s.activeCollection ≠ some epoch then s.fail
    else { s with phase := .finalizing }.goto t (.holding (.finalizeCheck epoch back))
  | .finalizeCheck epoch back =>
    if s.word.active = Word.full then s.fail
    else s.coordinate.goto t (.holding (.finalizeAdd epoch back))
  | .finalizeAdd epoch back =>
    { s with word := s.word + 1 }.notify.goto t (.settling (.finalizing epoch back))
  -- `complete_collection`
  | .start (.complete epoch back) =>
    if s.phase ≠ .finalizing ∨ s.activeCollection ≠ some epoch then s.fail
    else
      { s with
        completedEpoch := epoch
        activeCollection := none
        phase := .ordinary }.notify.goto t (.settling (.mutator back))
  -- `abandon_collection`
  | .start (.abandon epoch) =>
    if s.activeCollection = some epoch then
      { s with activeCollection := none, phase := .ordinary }.notify.goto t (.settling .idle)
    else s.notify.goto t (.settling .idle)
  -- `poison_collection`
  | .start (.poison epoch) =>
    { s with
      activeCollection := if s.activeCollection = some epoch then none else s.activeCollection
      collectionRequested := false
      phase := .poisoned }.notify.goto t (.settling .idle)
  | .start (.poisonHeld epoch) =>
    { s with
      activeCollection := if s.activeCollection = some epoch then none else s.activeCollection
      collectionRequested := false
      phase := .poisoned }.notify.goto t (.settling (.mutator .entry))

/-- The next step of what a thread is doing. A compare-exchange may fail without cause (`spurious`).
An entry to an idle heap loads the requested flag right before its compare-exchange; here the two
are one step, so an entry that loaded the flag before a request and is admitted after it is taken
for one that was admitted before the request. The flag is no part of the word, and a request changes
nothing else. -/
def advance (automatic : Bool) (s : GateState T) (t : T) (spurious : Bool) :
    Pc → Option (GateState T)
  | .trying word =>
    if word.coordinated ∨ word = activeMask ∨ word = 0 ∧ automatic ∧ s.collectionRequested then
      some (s.goto t (.locking .admission))
    else if s.word = word ∧ spurious = false then
      some ({ s with word := word + 1 }.goto t (.rest (.mutator .entry)))
    else some (s.goto t (.trying s.word))
  | .rest (.collecting target) => some (s.goto t (.locking (.collect target)))
  | .locking job =>
    if s.holder = none then some ({ s with holder := some t }.goto t (.holding (.start job)))
    else none
  | .waking waiting =>
    if s.holder = none then
      some ({ s with holder := some t, waiters := s.waiters - 1 }.goto t
        (.holding (.start waiting.job)))
    else none
  | .holding sect => some (s.hold automatic t sect)
  | .parking waiting zero false => some (s.coordinate.goto t (.parking waiting zero true))
  | .parking waiting zero true => some ({ s with holder := none }.goto t (.parked waiting zero))
  | .settling rest =>
    if s.waiters ≠ 0 ∨ s.phase ≠ .ordinary then some (s.coordinate.goto t (.releasing rest))
    else some ({ s with word := s.word.uncoordinate }.goto t (.releasing rest))
  | .releasing rest => some ({ s with holder := none }.goto t (.rest rest))
  | _ => none

end GateState

/-- What a thread is asked to do. -/
inductive GateAction
  | enter
  | collectFull
  | exit
  | finalize
  | complete
  /-- the collection panics -/
  | fail
  | abandon
  | poison
  /-- the next step of what the thread is doing -/
  | run (spurious : Bool)
  /-- the thread wakes without a notification -/
  | wake
  /-- someone requests a collection -/
  | request
deriving DecidableEq

namespace GateState

variable {T : Type} [DecidableEq T]

/-- **One atomic step of the thread `t`**, in a heap whose entries elect themselves to collect if
`automatic`. -/
def step (automatic : Bool) (s : GateState T) (t : T) (action : GateAction) : Option (GateState T) :=
  match action, s.pc t with
  | .enter, .rest .idle => some (s.goto t (.trying s.word))
  | .collectFull, .rest .idle => some (s.goto t (.locking .target))
  | .exit, .rest (.mutator back) => some (s.leave t (.back back))
  | .finalize, .rest (.collector epoch back) => some (s.goto t (.locking (.finalize epoch back)))
  | .complete, .rest (.finalizing epoch back) =>
    some ({ s with collectionRequested := false }.goto t (.locking (.complete epoch back)))
  | .fail, .rest (.collector epoch _) => some (s.goto t (.rest (.failing epoch)))
  | .fail, .rest (.finalizing epoch _) => some (s.leave t (.failing epoch))
  | .abandon, .rest (.failing epoch) =>
    some ({ s with collectionRequested := true }.goto t (.locking (.abandon epoch)))
  | .poison, .rest (.failing epoch) => some (s.goto t (.locking (.poison epoch)))
  | .poison, .rest (.finalizing epoch _) => some (s.goto t (.locking (.poisonHeld epoch)))
  | .run spurious, pc => s.advance automatic t spurious pc
  | .wake, .parked waiting _ => some (s.goto t (.waking waiting))
  | .request, _ => some { s with collectionRequested := true }
  | _, _ => none

/-- An interleaving: the actions of some threads, one after another. -/
def run (automatic : Bool) (s : GateState T) : List (T × GateAction) → Option (GateState T)
  | [] => some s
  | (t, action) :: rest => (s.step automatic t action).bind fun s => s.run automatic rest

/-- **The states that some interleaving leads to.** -/
inductive Reachable (automatic : Bool) : GateState T → Prop
  | initial : Reachable automatic initial
  | step {s s' : GateState T} {t : T} {action : GateAction} :
    Reachable automatic s → s.step automatic t action = some s' → Reachable automatic s'

end GateState

end Glam.Gc
