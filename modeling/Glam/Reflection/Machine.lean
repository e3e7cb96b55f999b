import Mathlib.Data.List.Sort
import Mathlib.Logic.Function.Basic

/-!
# The effect machine of reflection tasks

A reflection task runs an effect: a value that decodes to one request (`reflection/machine.rs`). The
machine drives one branch at a time. A branch is an effect to run and the continuation it runs in,
and that continuation lies in four places:

* `sequence`, the continuations of the sequences the branch is in, up to the nearest boundary;
* `delimiters`, the boundaries left by resumed continuations and by fixpoints;
* the reset frames, which the branch keeps in its own state, under a private key;
* the cut frames of the task, each with the sequence outside its cut.

A cut runs its operation to its first success. Its frame keeps the alternatives that the choices
made within it have set aside. The outermost cut owns a transaction over the shared store, and a
branch that fails after it has observed shared state is worth running again once that state has
changed: the flag `observed` travels with the branch's transaction, and the flag `observedFailure`
with the frame.

What effects, values and functions are is left to a `Language`: the machine only decodes an effect,
applies a function to a value, and reads and replaces the reset frames in a branch's state. So a
program is any effect of any language, and it need not end. An `Answer` is what the task's host says
to a request of its specialization.

A step may fail with an error (`handleStepError`): the innermost `.try` then answers with it, and
outside every `.try` the task waits for what it has observed, as after a failure, or ends.

The shared store is a table of cells with a revision each, and a transaction validates the cells it
has observed. Waiting on promises, step budgets, calls into child machines, tasks whose host runs
their cuts, isolated searches and the unit checks of sequences are left out, and so are revoked
volumes and a closed host, which only end a task early. Stacks are lists with their top first. The
fields `explored` of a task and `firstRoot` of a cut frame are records for the proofs and steer
nothing.
-/

namespace Glam.Reflection

/-- The types of a language of effects. -/
structure Signature where
  Effect : Type
  Value : Type
  Function : Type
  Key : Type
  /-- a branch's own state -/
  Local : Type
  /-- the cells of the shared store -/
  Address : Type

/-- `ResetFrame`: its continuation is a captured one, by its number. -/
structure ResetFrame (S : Signature) where
  key : S.Key
  continuation : Nat
  scopeDepth : Nat
  order : Nat

/-- An edit of a cell of the shared store. -/
inductive CellEdit (S : Signature)
  | set (value : Option S.Value)
  | rewrite (updater : Option S.Value → Option S.Value)

/-- `Request`. The requests on the task's own state are one request, and so are those that read a
cell of the shared store (`try` where an undefined cell is a failure) and those that edit one. -/
inductive Request (S : Signature)
  | ret (value : S.Value)
  | seq (operation : S.Effect) (continuation : S.Function)
  | alt (left right : S.Effect)
  | fail
  | retry
  | cut (operation : S.Effect)
  | tryCut (operation : S.Effect)
  | fix (function : S.Function)
  | onState (access : S.Local → Option (S.Value × S.Local))
  | read (address : S.Address) (trying : Bool)
  | edit (address : S.Address) (edit : CellEdit S)
  | reset (key : S.Key) (operation : S.Effect)
  | shift (key : S.Key) (function : S.Function)
  | resume (id : Nat) (value : S.Value)
  | specialized
  /-- an effect that does not decode -/
  | malformed

/-- The errors of a step, and the permanent failure of a task. -/
inductive TaskHalt
  | permanentFailure
  | malformedEffect
  | malformedState
  | shiftOutOfScope
  | unknownContinuation
  | retryDiverges
  | unbalancedCuts
  | escapedRestart
  | unbalancedFixpoint
  | divergedReplay
  | fixpointInitializedTwice
  | lostObservation
  | scopedCloseNotUnit
deriving DecidableEq

/-- What a `try` hands to the program where the operation it tried has no value. -/
inductive TryOutcome
  | fail
  | wait
  | conflict
  | err (error : TaskHalt)
deriving DecidableEq

/-- **A language of effects**: what the machine asks of values. -/
structure Language extends Signature where
  keyEq : DecidableEq Key
  addressEq : DecidableEq Address
  decode : Effect → Request toSignature
  apply : Function → Value → Effect
  /-- a captured continuation, as a value -/
  handle : Nat → Value
  /-- the promise of a fixpoint's value -/
  marker : Nat → Value
  unit : Value
  isUnit : Value → Bool
  /-- the value at an undefined path: an error where it is demanded -/
  undefined : Value
  tryOk : Value → Value
  tryOutcome : TryOutcome → Value
  resets : Local → Option (List (ResetFrame toSignature))
  withResets : Local → List (ResetFrame toSignature) → Local
  resets_withResets : ∀ state frames, resets (withResets state frames) = some frames

instance : Coe Language Signature := ⟨Language.toSignature⟩

instance (L : Language) : DecidableEq L.Key := L.keyEq

instance (L : Language) : DecidableEq L.Address := L.addressEq

attribute [simp] Language.resets_withResets

section Types

variable (S : Signature)

/-- A function the machine applies: one of the program's, or a captured continuation. -/
inductive Callee
  | function (function : S.Function)
  | captured (id : Nat)

/-- What is done with a value that an effect returns. -/
inductive Continuation
  | glam (callee : Callee S)
  | fix (handle : Nat)
  | closeScope (close : S.Effect)
  | restoreScopedValue (value : S.Value)

/-- What a value goes on with after a sequence: the caller's sequence, around a captured
continuation, or the control and the resets around a fixpoint. -/
inductive Delimiter
  | resume (outerSequence : List (Continuation S)) (scopeDepth order : Nat)
  | restore (outerSequence : List (Continuation S)) (outerDelimiters : List Delimiter)
      (resetStack : List (ResetFrame S)) (scopeDepth order : Nat)

variable {S} in
/-- The depth of the cut that a delimiter belongs to. -/
def Delimiter.scopeDepth : Delimiter S → Nat
  | .resume _ scopeDepth _ => scopeDepth
  | .restore _ _ _ scopeDepth _ => scopeDepth

variable {S} in
/-- When a delimiter was made, among the resets and delimiters of its branch. -/
def Delimiter.order : Delimiter S → Nat
  | .resume _ _ order => order
  | .restore _ _ _ _ order => order

variable {S} in
/-- A delimiter taken into another scope. -/
def Delimiter.rebase (scopeDepth order : Nat) : Delimiter S → Delimiter S
  | .resume outerSequence _ _ => .resume outerSequence scopeDepth order
  | .restore outerSequence outerDelimiters resetStack _ _ =>
    .restore outerSequence outerDelimiters resetStack scopeDepth order

/-- What a branch does with a value: first its sequence, then the delimiters from the innermost on.
-/
structure Control where
  sequence : List (Continuation S) := []
  delimiters : List (Delimiter S) := []

/-- The part of the control up to a reset, as `shift` captures it. -/
structure CapturedContinuation where
  sequence : List (Continuation S)
  delimiters : List (Delimiter S)
  resetFrames : List (ResetFrame S)

/-- A reset or a delimiter that `shift` captured. -/
inductive CapturedLayer
  | reset (frame : ResetFrame S)
  | delimiter (boundary : Delimiter S)

variable {S} in
/-- When a layer was made. -/
def CapturedLayer.order : CapturedLayer S → Nat
  | .reset frame => frame.order
  | .delimiter boundary => boundary.order

/-- Which side of an `alt` a fixpoint takes when it is run again. -/
inductive FixChoice
  | left
  | right
deriving DecidableEq

/-- `ActiveFix`: its root is a number in the task's table of roots. -/
structure ActiveFix where
  root : Nat
  choices : List FixChoice
  nextChoice : Nat
  handle : Nat

/-- `FixRestart`: where a fixpoint starts again, with the choices it then makes. -/
inductive FixRestart
  | mk (root : Nat) (choices : List FixChoice) (inheritedRestarts : List FixRestart)

/-- The fixpoint that is to be run again. -/
def FixRestart.root : FixRestart → Nat
  | .mk root _ _ => root

/-- A cell of the shared store, with the generation that it was last written at. -/
structure Cell where
  value : Option S.Value
  revision : Nat

/-- `Transaction`: its clones share what they observe, which the task keeps by `id`. -/
structure Transaction where
  id : Nat
  snapshot : S.Address → Cell S
  generation : Nat
  observed : Bool
  edits : List (S.Address × CellEdit S)

/-- `Branch`. The checkpoint of `retry` is the branch before its first observation outside every
cut, with the generation it observed. -/
structure Branch where
  effect : S.Effect
  control : Control S
  state : S.Local
  transaction : Option (Transaction S)
  activeFixes : List ActiveFix
  fixRestarts : List FixRestart
  retry : Option (Nat × Branch)

/-- A fixpoint that is being computed: its function, and the branch it was entered with. -/
structure FixRoot where
  function : S.Function
  entry : Branch S
  scopeDepth : Nat

/-- A cut that is being run: the branches it may still try, and what to go back to. -/
structure CutFrame where
  operation : S.Effect
  outer : Branch S
  outerSequence : List (Continuation S)
  parentScopeDepth : Nat
  scopeDepth : Nat
  ownsTransaction : Bool
  alternatives : List (Branch S)
  fallback : Option (Branch S)
  retry : Option (Branch S)
  observedFailure : Bool
  trying : Bool
  pushback : Option Nat
  /-- how many fixpoints had been entered before the cut was, for the proofs -/
  firstRoot : Nat

/-- How a branch ends. -/
inductive BranchOutcome
  | complete (value : S.Value) (branch : Branch S)
  | fail (branch : Branch S)
  | retry (branch : Branch S)
  | pushback (branch : Branch S) (generation : Nat)

/-- What the machine does next. -/
inductive MachineWork
  | drive (branch : Branch S) (scopeDepth : Nat)
  | deliver (value : S.Value) (branch : Branch S) (scopeDepth : Nat)
  /-- applies a captured continuation -/
  | resume (id : Nat) (value : S.Value) (branch : Branch S) (scopeDepth : Nat)
  | specialize (branch : Branch S) (scopeDepth : Nat)
  | outcome (outcome : BranchOutcome S) (scopeDepth : Nat)

variable {S} in
/-- The branch at hand: `active_branch`. -/
def MachineWork.branch : MachineWork S → Branch S
  | .drive branch _ | .deliver _ branch _ | .resume _ _ branch _ | .specialize branch _
  | .outcome (.complete _ branch) _ | .outcome (.fail branch) _ | .outcome (.retry branch) _
  | .outcome (.pushback branch _) _ => branch

variable {S} in
/-- The depth of the cut that the work belongs to. -/
def MachineWork.scopeDepth : MachineWork S → Nat
  | .drive _ scopeDepth | .deliver _ _ scopeDepth | .resume _ _ _ scopeDepth
  | .specialize _ scopeDepth | .outcome _ scopeDepth => scopeDepth

/-- `WakeAction`: a cut is named by how many cuts enclose it. -/
inductive WakeAction
  | replaceWork (work : MachineWork S)
  | restartCut (index : Nat)

/-- What a blocked task waits for: a change since the generation it observed, after which it takes
an action. -/
structure RetryWake where
  observedGeneration : Nat
  validation : Option (Transaction S)
  action : WakeAction S

/-- How a task ends. -/
inductive TaskTerminal
  | complete (value : S.Value)
  | failed (halt : TaskHalt)

/-- What the host answers to a request of its specialization. -/
inductive RequestResult
  | ret (value : S.Value)
  | drive (effect : S.Effect)
  | scoped (operation close : S.Effect)
  | fail
  | pushback (generation : Nat)

/-- `RequestResult` with its `RequestActivity`: the cell of the host's state that the request
consulted, if any, and whether it committed. -/
structure Answer where
  result : RequestResult S
  observed : Option S.Address
  committed : Bool

end Types

/-- **A reflection task.** -/
structure Task (L : Language) where
  work : MachineWork L
  cuts : List (CutFrame L)
  blocked : Option (RetryWake L)
  terminal : Option (TaskTerminal L)
  /-- the captured continuations, by number -/
  continuations : List (CapturedContinuation L)
  roots : List (FixRoot L)
  nextControlOrder : Nat
  nextHandle : Nat
  /-- the handles of the fixpoints that have their value -/
  assigned : List Nat
  store : L.Address → Cell L
  generation : Nat
  nextTransaction : Nat
  /-- what the clones of each transaction have observed -/
  observations : Nat → List L.Address
  /-- what the branches explored in the attempt in progress have observed, for the proofs -/
  explored : List L.Address

variable {L : Language}

/-! ### Transactions -/

/-- What a transaction's own edits make of a cell. -/
def editedCell (address : L.Address) : List (L.Address × CellEdit L) →
    Option L.Value → Option L.Value
  | [], value => value
  | (target, edit) :: edits, value =>
    if target = address then
      match edit with
      | .set value' => value'
      | .rewrite updater => updater (editedCell address edits value)
    else editedCell address edits value

/-- Whether a read of the cell depends on the snapshot: not where the transaction has set it. -/
def dependsOnSnapshot (address : L.Address) : List (L.Address × CellEdit L) → Bool
  | [] => true
  | (target, edit) :: edits =>
    if target = address then
      match edit with
      | .set _ => false
      | .rewrite _ => dependsOnSnapshot address edits
    else dependsOnSnapshot address edits

/-- Whether the branch's transaction has read the store. -/
def Branch.observed (branch : Branch L) : Bool :=
  branch.transaction.any (·.observed)

variable (branch : Branch L)

/-- A branch that counts as having observed what another did. -/
def Branch.joinObserved (observed : Bool) : Branch L :=
  { branch with
    transaction := branch.transaction.map fun t => { t with observed := t.observed || observed } }

/-- Whether a change of the store can make the branch succeed. -/
def Branch.isRetryable : Bool :=
  branch.retry.isSome || branch.observed

/-- How a branch fails: for good, or until the store changes. -/
def Branch.intoFailure : BranchOutcome L :=
  if branch.isRetryable then .retry branch else .fail branch

/-- Puts a continuation before the others. -/
def Branch.push (continuation : Continuation L) : Branch L :=
  { branch with
    control.sequence := continuation :: branch.control.sequence }

/-- Outside every cut, the first observation keeps the branch as it was. -/
def Branch.checkpoint (generation : Nat) : Branch L :=
  match branch.retry with
  | some _ => branch
  | none => { branch with retry := some (generation, branch) }

namespace Task

variable (s : Task L)

/-- Ends the task. -/
def finish (terminal : TaskTerminal L) : Task L :=
  { s with terminal := some terminal }

/-- Whether a cell that the clones of the transaction observed has changed since its snapshot. -/
def conflicts (t : Transaction L) : Bool :=
  (s.observations t.id).any fun address =>
    (s.store address).revision != (t.snapshot address).revision

/-- An edit of the shared store, which begins a generation. -/
def applyEdit (address : L.Address) (edit : CellEdit L) : Task L :=
  { s with
    store := Function.update s.store address
      { value := editedCell address [(address, edit)] (s.store address).value
        revision := s.generation + 1 }
    generation := s.generation + 1 }

/-- Publishes the edits, oldest first. -/
def applyEdits (s : Task L) : List (L.Address × CellEdit L) → Task L
  | [] => s
  | (address, edit) :: edits => (s.applyEdits edits).applyEdit address edit

/-- The branch has observed a cell: `Branch::observe`. -/
def observe (address : L.Address) : Branch L × Task L :=
  match branch.transaction with
  | some t =>
    ({ branch with transaction := some { t with observed := true } },
      { s with
        observations := Function.update s.observations t.id (address :: s.observations t.id)
        explored := address :: s.explored })
  | none => (branch.checkpoint s.generation, s)

/-- The branch has observed a cell, if any. -/
def consult : Option L.Address → Branch L × Task L
  | some address => s.observe branch address
  | none => (branch, s)

/-! ### Cuts -/

/-- Drives the next branch of a cut. -/
def nextAlternative (frame : CutFrame L) (cuts : List (CutFrame L)) (branch : Branch L)
    (alternatives : List (Branch L)) : Task L :=
  { s with
    work := .drive branch frame.scopeDepth
    cuts := { frame with alternatives := alternatives } :: cuts }

/-- `begin_cut_attempt`: a cut that owns its transaction begins a new one. The attempt then drives
the operation, with no sequence. -/
def beginCutAttempt (frame : CutFrame L) (cuts : List (CutFrame L)) : Task L :=
  let outer : Branch L :=
    if frame.ownsTransaction then
      { frame.outer with
        transaction := some ⟨s.nextTransaction, s.store, s.generation, false, []⟩ }
    else frame.outer
  let s := if frame.ownsTransaction then
    { s with
      nextTransaction := s.nextTransaction + 1
      observations := Function.update s.observations s.nextTransaction [] } else s
  let frame := { frame with
    outer := outer, retry := none, observedFailure := false, pushback := none }
  s.nextAlternative frame cuts
    { outer with effect := frame.operation, control.sequence := [] } []

/-- `enter_cut`, for a cut, a `.try` or the first operand of a choice. -/
def enterCut (operation : L.Effect) (outer : Branch L)
    (parentScopeDepth : Nat) (trying : Bool) (fallback : Option (Branch L)) : Task L :=
  s.beginCutAttempt
    { operation := operation
      outer := { outer with control.sequence := [] }
      outerSequence := outer.control.sequence
      parentScopeDepth := parentScopeDepth
      scopeDepth := parentScopeDepth + 1
      ownsTransaction := outer.transaction.isNone
      alternatives := []
      fallback := fallback
      retry := none
      observedFailure := false
      trying := trying
      pushback := none
      firstRoot := s.roots.length } s.cuts

/-- `deliver_try`: continues where a `.try`, whose frame has left the stack, began. What its
operation observed stays with the transaction around it. -/
def deliverTry (frame : CutFrame L) (outcome : TryOutcome) (observed : Bool) : Task L :=
  let branch := { frame.outer with control.sequence := frame.outerSequence }
  if frame.ownsTransaction then
    { s with
      work := .deliver (L.tryOutcome outcome) { branch with transaction := none }
        frame.parentScopeDepth
      explored := [] }
  else
    { s with
      work := .deliver (L.tryOutcome outcome) (branch.joinObserved observed)
        frame.parentScopeDepth }

/-- The branch at hand goes on with an outcome, in its scope. -/
def withOutcome (outcome : BranchOutcome L) (scopeDepth : Nat) : Task L :=
  { s with work := .outcome outcome scopeDepth }

/-! ### Errors -/

/-- The checkpoint of the branch at hand, to go back to once something has changed. -/
def checkpointWake : Option (RetryWake L) :=
  s.work.branch.retry.map fun (generation, checkpoint) =>
    { observedGeneration := generation
      validation := s.work.branch.transaction
      action := .replaceWork (.drive checkpoint s.work.scopeDepth) }

/-- `retry_wake`: an error may be gone once what was observed before it has changed. So the innermost
cut that owns a transaction runs again, if its attempt observed something, or else the branch goes
back to its checkpoint, if it has one. -/
def retryWake : Option (RetryWake L) :=
  match s.cuts.dropWhile fun frame => !frame.ownsTransaction with
  | [] => s.checkpointWake
  | frame :: cuts =>
    let inner := s.cuts.takeWhile fun frame => !frame.ownsTransaction
    if (frame :: inner).any (·.observedFailure) || s.work.branch.observed then
      match s.work.branch.transaction.or frame.outer.transaction with
      | some t => some ⟨t.generation, some t, .restartCut cuts.length⟩
      | none => s.checkpointWake
    else s.checkpointWake

/-- `handle_step_error`: the innermost `.try` answers with the error, and the cuts within it are
left. Outside every `.try`, the task blocks if there is something to wait for, and ends if not. -/
def handleStepError (error : TaskHalt) : Task L :=
  match s.cuts.dropWhile fun frame => !frame.trying with
  | frame :: cuts =>
    let inner := s.cuts.takeWhile fun frame => !frame.trying
    deliverTry { s with cuts := cuts } frame (.err error)
      ((frame :: inner).any (·.observedFailure) || s.work.branch.observed)
  | [] =>
    match s.retryWake with
    | some wake => { s with blocked := some wake }
    | none => s.finish (.failed error)

/-- The scope of a restart's root. -/
def restartScope (roots : List (FixRoot L)) (restart : FixRestart) : Nat :=
  (roots[restart.root]?.map (·.scopeDepth)).getD 0

/-- What a failed cut's failure carries on: its last failed branch, with what the attempt observed.
-/
def failedBranch (frame : CutFrame L) : Branch L :=
  (frame.retry.getD frame.outer).joinObserved frame.observedFailure

/-- `finish_cut_attempt`, where `frame` has left the stack and `cuts` remain. -/
def finishCutAttempt (frame : CutFrame L) (cuts : List (CutFrame L)) : Task L :=
  let s := { s with cuts := cuts }
  let failed := failedBranch frame
  if failed.fixRestarts.head?.any (restartScope s.roots · < frame.scopeDepth) then
    s.withOutcome (.retry failed) frame.parentScopeDepth
  else if frame.trying then
    s.deliverTry frame (if frame.pushback.isSome then .wait else .fail)
      (frame.observedFailure || failed.observed)
  else if frame.pushback.isSome && !frame.ownsTransaction then
    s.withOutcome (.pushback failed (frame.pushback.getD 0)) frame.parentScopeDepth
  else
    match frame.pushback, frame.fallback with
    | none, some fallback => { s with work := .drive fallback frame.parentScopeDepth }
    | _, _ =>
      if !frame.ownsTransaction then
        s.withOutcome failed.intoFailure frame.parentScopeDepth
      else if !frame.observedFailure then
        s.withOutcome (Branch.intoFailure { failed with transaction := none })
          frame.parentScopeDepth
      else
        { s with
          cuts := { frame with retry := some failed } :: cuts
          blocked := some
            { observedGeneration := (failed.transaction.map (·.generation)).getD s.generation
              validation := failed.transaction
              action := .restartCut cuts.length } }

/-- `restart_cut`: a blocked cut runs again, as an attempt of its own. -/
def restartCut (index : Nat) : Task L :=
  match s.cuts.drop (s.cuts.length - (index + 1)) with
  -- the source expects the frame
  | [] => s.finish (.failed .unbalancedCuts)
  | frame :: cuts =>
    Task.beginCutAttempt { s with explored := [] }
      { frame with outer := { frame.outer with transaction := none } } cuts

/-! ### Fixpoints -/

/-- Starts a fixpoint: its function runs outside every reset and every delimiter of its entry, which
come back once it has its value. -/
def startFixpoint (root : Nat) (choices : List FixChoice) (restarts : List FixRestart) : Task L :=
  match s.roots[root]? with
  | none => s.handleStepError .unbalancedFixpoint
  | some fixRoot =>
    let entry := fixRoot.entry
    match L.resets entry.state with
    | none => s.handleStepError .malformedState
    | some frames =>
      { s with
        nextControlOrder := s.nextControlOrder + 1
        nextHandle := s.nextHandle + 1
        work := .drive
          { entry with
            effect := L.apply fixRoot.function (L.marker s.nextHandle)
            control := ⟨[.fix s.nextHandle],
              [.restore entry.control.sequence entry.control.delimiters frames fixRoot.scopeDepth
                s.nextControlOrder]⟩
            state := L.withResets entry.state []
            activeFixes := entry.activeFixes ++ [⟨root, choices, 0, s.nextHandle⟩]
            fixRestarts := restarts }
          fixRoot.scopeDepth }

/-- `restart_fixpoint_at_scope`, where it restarts one or fails. -/
def restartFixpointAtScope (scopeDepth : Nat) : Option (Task L) :=
  match branch.fixRestarts with
  | [] => none
  | .mk root choices inherited :: _ =>
    let scope := restartScope s.roots (.mk root choices inherited)
    if scope < scopeDepth then none
    else if scopeDepth < scope then some (s.handleStepError .escapedRestart)
    else some (s.startFixpoint root choices inherited)

/-- A choice within a fixpoint, inside a cut: the outermost fixpoint has it replayed, or leaves a
restart that makes the other choice. -/
def fixChoice (active : ActiveFix) (rest : List ActiveFix) : FixChoice × Branch L :=
  match active.choices[active.nextChoice]? with
  | some choice =>
    (choice, { branch with
      activeFixes := { active with nextChoice := active.nextChoice + 1 } :: rest })
  | none =>
    (.left, { branch with
      activeFixes := { active with
        choices := active.choices ++ [.left]
        nextChoice := active.nextChoice + 1 } :: rest
      fixRestarts := .mk active.root (active.choices ++ [.right]) branch.fixRestarts ::
        branch.fixRestarts })

/-! ### Outcomes -/

/-- What becomes of a branch that ends outside of every cut. -/
def handleTopLevelOutcome (outcome : BranchOutcome L) (scopeDepth : Nat) : Task L :=
  match outcome with
  | .complete value _ => s.finish (.complete value)
  | .fail _ => s.finish (.failed .permanentFailure)
  | .retry failed =>
    match s.restartFixpointAtScope failed scopeDepth with
    | some restarted => restarted
    | none =>
      match failed.retry with
      | none => s.handleStepError .lostObservation
      | some (generation, checkpoint) =>
        { s with
          blocked := some
            { observedGeneration := generation
              validation := failed.transaction
              action := .replaceWork (.drive checkpoint scopeDepth) } }
  | .pushback branch generation =>
    { s with
      blocked := some
        { observedGeneration := generation
          validation := none
          action := .replaceWork (.drive branch scopeDepth) } }

/-- The innermost cut's operation has a value: the cut ends with its first success. -/
def completeCut (frame : CutFrame L)
    (cuts : List (CutFrame L)) (value : L.Value) (completed : Branch L) :
    Task L :=
  let s := { s with cuts := cuts }
  let value := if frame.trying then L.tryOk value else value
  let continued : Branch L :=
    { completed with control.sequence := frame.outerSequence }
  match frame.ownsTransaction, completed.transaction with
  | true, some t =>
    if s.conflicts t then
      if frame.trying then s.deliverTry frame .conflict false
      else s.finishCutAttempt
        { frame with retry := some completed, observedFailure := true } cuts
    else
      { s.applyEdits t.edits with
        work := .deliver value { continued with transaction := none } frame.parentScopeDepth
        explored := [] }
  -- the source expects the transaction
  | true, none => s.finish (.failed .unbalancedCuts)
  | false, _ => { s with work := .deliver value continued frame.parentScopeDepth }

/-- A branch of the innermost cut has failed: its next alternative runs, or the attempt ends. -/
def failCut (frame : CutFrame L) (cuts : List (CutFrame L))
    (failed : Branch L) (scopeDepth : Nat) : Task L :=
  match s.restartFixpointAtScope failed scopeDepth with
  | some restarted => restarted
  | none =>
    let frame := { frame with
      observedFailure := frame.observedFailure || failed.observed
      retry := some failed }
    match frame.alternatives with
    | branch :: alternatives => s.nextAlternative frame cuts branch alternatives
    | [] => s.finishCutAttempt frame cuts

/-- What becomes of a branch that ends, which the innermost cut decides. -/
def handleOutcome (outcome : BranchOutcome L) (scopeDepth : Nat) : Task L :=
  match s.cuts with
  | [] => s.handleTopLevelOutcome outcome scopeDepth
  | frame :: cuts =>
    if scopeDepth ≠ frame.scopeDepth then s.handleStepError .unbalancedCuts
    else
      match outcome with
      | .complete value completed => s.completeCut frame cuts value completed
      | .pushback failed generation =>
        s.finishCutAttempt
          { frame with
            observedFailure := true
            retry := some failed
            pushback := some generation } cuts
      | .fail failed => s.failCut frame cuts failed scopeDepth
      | .retry failed => s.failCut frame cuts failed scopeDepth

/-! ### Delimited control -/

/-- The frames inside the nearest one with the key, that frame, and the frames outside it. -/
def splitAtKey (key : L.Key) : List (ResetFrame L) →
    Option (List (ResetFrame L) × ResetFrame L ×
      List (ResetFrame L))
  | [] => none
  | frame :: frames =>
    if frame.key = key then some ([], frame, frames)
    else (splitAtKey key frames).map fun parts => (frame :: parts.1, parts.2)

/-- The delimiters inside and outside a frame: the outer ones are those before the first whose order
is above the frame's. -/
def splitDelimiters (order : Nat) (delimiters : List (Delimiter L)) :
    List (Delimiter L) × List (Delimiter L) :=
  let parts := delimiters.reverse.span (·.order ≤ order)
  (parts.2.reverse, parts.1.reverse)

/-- `.reset`: the sequence outside becomes the frame's continuation. -/
def reset (key : L.Key) (operation : L.Effect) (branch : Branch L) (scopeDepth : Nat) : Task L :=
  match L.resets branch.state with
  | none => s.handleStepError .malformedState
  | some frames =>
    { s with
      nextControlOrder := s.nextControlOrder + 1
      continuations := s.continuations ++ [⟨branch.control.sequence, [], []⟩]
      work := .drive
        { branch with
          effect := operation
          control.sequence := []
          state := L.withResets branch.state
            (⟨key, s.continuations.length, scopeDepth, s.nextControlOrder⟩ :: frames) }
        scopeDepth }

/-- `.shift`: takes the continuation up to the nearest frame with the key, and applies the function
to it in the continuation of that frame. -/
def shift (key : L.Key) (function : L.Function) (branch : Branch L) (scopeDepth : Nat) : Task L :=
  match L.resets branch.state with
  | none => s.handleStepError .malformedState
  | some frames =>
    match splitAtKey key frames with
    | none => s.handleStepError .shiftOutOfScope
    | some (inner, target, outer) =>
      let delimiters := splitDelimiters target.order branch.control.delimiters
      { s with
        continuations := s.continuations ++ [⟨branch.control.sequence, delimiters.1, inner⟩]
        work := .drive
          { branch with
            effect := L.apply function (L.handle s.continuations.length)
            control := ⟨[.glam (.captured target.continuation)], delimiters.2⟩
            state := L.withResets branch.state outer }
          scopeDepth }

/-- The layers of a captured continuation, outermost first, in their order. -/
def capturedLayers (captured : CapturedContinuation L) :
    List (CapturedLayer L) :=
  (captured.resetFrames.reverse.map CapturedLayer.reset ++
    captured.delimiters.reverse.map CapturedLayer.delimiter).insertionSort (·.order ≤ ·.order)

/-- Installs layers, outermost first, in a scope, with orders from `order` on. -/
def installLayers (scopeDepth : Nat) : Nat → List (CapturedLayer L) →
    List (Delimiter L) → List (ResetFrame L) →
    List (Delimiter L) × List (ResetFrame L)
  | _, [], delimiters, frames => (delimiters, frames)
  | order, .reset frame :: layers, delimiters, frames =>
    installLayers scopeDepth (order + 1) layers delimiters
      ({ frame with scopeDepth := scopeDepth, order := order } :: frames)
  | order, .delimiter boundary :: layers, delimiters, frames =>
    installLayers scopeDepth (order + 1) layers (boundary.rebase scopeDepth order :: delimiters)
      frames

/-- Calls a captured continuation: its layers go on top of the caller's, within a delimiter that
keeps the caller's sequence. -/
def resume (s : Task L) (id : Nat) (value : L.Value) (branch : Branch L)
    (scopeDepth : Nat) : Task L :=
  match s.continuations[id]?, L.resets branch.state with
  | none, _ => s.handleStepError .unknownContinuation
  | some _, none => s.handleStepError .malformedState
  | some captured, some frames =>
    let layers := capturedLayers captured
    let installed := installLayers scopeDepth (s.nextControlOrder + 1) layers
      (.resume branch.control.sequence scopeDepth s.nextControlOrder :: branch.control.delimiters)
      frames
    { s with
      nextControlOrder := s.nextControlOrder + (layers.length + 1)
      work := .deliver value
        { branch with
          control := ⟨captured.sequence, installed.1⟩
          state := L.withResets branch.state installed.2 }
        scopeDepth }

/-- Applies a function, or a captured continuation, to a value. -/
def applyCallee (callee : Callee L) (value : L.Value)
    (branch : Branch L) (scopeDepth : Nat) : Task L :=
  match callee with
  | .function function =>
    { s with work := .drive { branch with effect := L.apply function value } scopeDepth }
  | .captured id => { s with work := .resume id value branch scopeDepth }

/-- The order of optional numbers, with none below all. -/
def precedes : Option Nat → Option Nat → Bool
  | _, none => false
  | none, some _ => true
  | some first, some second => first < second

/-- The delivery of a value where the sequence is empty: to the innermost layer of the scope, which
is the reset frame or the delimiter with the larger order, or to the end of the scope. -/
def deliverToLayer (value : L.Value) (branch : Branch L) (scopeDepth : Nat) : Task L :=
  match L.resets branch.state with
  | none => s.handleStepError .malformedState
  | some frames =>
    let resetOrder := (frames.head?.filter (scopeDepth ≤ ·.scopeDepth)).map (·.order)
    let delimiterOrder :=
      (branch.control.delimiters.head?.filter (scopeDepth ≤ ·.scopeDepth)).map (·.order)
    if precedes delimiterOrder resetOrder then
      match frames with
      | [] => s.handleStepError .malformedState
      | frame :: outer =>
        s.applyCallee (.captured frame.continuation) value
          { branch with state := L.withResets branch.state outer } scopeDepth
    else
      match delimiterOrder, branch.control.delimiters with
      | some _, .resume outerSequence _ _ :: delimiters =>
        { s with
          work := .deliver value { branch with control := ⟨outerSequence, delimiters⟩ }
            scopeDepth }
      | some _, .restore outerSequence outerDelimiters resetStack _ _ :: _ =>
        { s with
          work := .deliver value
            { branch with
              control := ⟨outerSequence, outerDelimiters⟩
              state := L.withResets branch.state resetStack }
            scopeDepth }
      | _, _ => s.withOutcome (.complete value branch) scopeDepth

/-- The fixpoint's function has its value, which the handle then has. -/
def finishFixpoint (handle : Nat) (value : L.Value) (branch : Branch L)
    (scopeDepth : Nat) : Task L :=
  match branch.activeFixes.getLast? with
  | none => s.handleStepError .unbalancedFixpoint
  | some active =>
    if active.handle ≠ handle then s.handleStepError .unbalancedFixpoint
    else if active.nextChoice ≠ active.choices.length then s.handleStepError .divergedReplay
    else if handle ∈ s.assigned then s.handleStepError .fixpointInitializedTwice
    else
      { s with
        assigned := handle :: s.assigned
        work := .deliver value { branch with activeFixes := branch.activeFixes.dropLast }
          scopeDepth }

/-- Hands a value to the innermost continuation. -/
def deliverStep (value : L.Value) (branch : Branch L) (scopeDepth : Nat) : Task L :=
  match branch.control.sequence with
  | [] => s.deliverToLayer value branch scopeDepth
  | continuation :: sequence =>
    let branch := { branch with control.sequence := sequence }
    match continuation with
    | .glam callee => s.applyCallee callee value branch scopeDepth
    | .fix handle => s.finishFixpoint handle value branch scopeDepth
    | .closeScope close =>
      { s with
        work := .drive
          { branch with
            effect := close
            control.sequence := .restoreScopedValue value :: sequence } scopeDepth }
    | .restoreScopedValue scopedValue =>
      if L.isUnit value then { s with work := .deliver scopedValue branch scopeDepth }
      else s.handleStepError .scopedCloseNotUnit

/-! ### Requests -/

/-- A choice. Its first operand is atomic, a cut of its own. Within a cut, the second operand stays
open to the cut's later failures; outside every cut, it is a fallback for the failure of the first.
-/
def alt (left right : L.Effect) (branch : Branch L) (scopeDepth : Nat) : Task L :=
  if 0 < scopeDepth then
    match branch.activeFixes with
    | active :: rest =>
      match fixChoice branch active rest with
      | (.left, branch) => s.enterCut left branch scopeDepth false none
      | (.right, branch) => { s with work := .drive { branch with effect := right } scopeDepth }
    | [] =>
      match s.cuts with
      | [] => s.handleStepError .unbalancedCuts
      | frame :: cuts =>
        Task.enterCut
          { s with
            cuts := { frame with
              alternatives := { branch with effect := right } :: frame.alternatives } :: cuts }
          left branch scopeDepth false none
  else s.enterCut left branch scopeDepth false (some { branch with effect := right })

/-- A read of a cell of the shared store. Only within a transaction is it an observation. -/
def read (address : L.Address) (trying : Bool) (branch : Branch L) (scopeDepth : Nat) : Task L :=
  let found := match branch.transaction with
    | some t => editedCell address t.edits (t.snapshot address).value
    | none => (s.store address).value
  let observed := branch.transaction.any fun t => dependsOnSnapshot address t.edits
  let seen := s.consult branch (if observed then some address else none)
  match found with
  | some value => { seen.2 with work := .deliver value seen.1 scopeDepth }
  | none =>
    if trying then seen.2.withOutcome seen.1.intoFailure scopeDepth
    else { seen.2 with work := .deliver L.undefined seen.1 scopeDepth }

/-- An edit of a cell of the shared store: of the transaction, or outside every cut a commit. -/
def edit (s : Task L) (address : L.Address) (edit : CellEdit L)
    (branch : Branch L) (scopeDepth : Nat) : Task L :=
  match branch.transaction with
  | some t =>
    { s with
      work := .deliver L.unit
        { branch with transaction := some { t with edits := (address, edit) :: t.edits } }
        scopeDepth }
  | none =>
    { s.applyEdit address edit with
      work := .deliver L.unit { branch with retry := none } scopeDepth }

/-- Performs a request of the program. -/
def interpretRequest (request : Request L) (branch : Branch L) (scopeDepth : Nat) : Task L :=
  match request with
  | .ret value => { s with work := .deliver value branch scopeDepth }
  | .seq operation continuation =>
    { s with
      work := .drive
        { branch.push (.glam (.function continuation)) with effect := operation } scopeDepth }
  | .alt left right => s.alt left right branch scopeDepth
  | .fail => s.withOutcome branch.intoFailure scopeDepth
  | .retry =>
    match branch.transaction with
    | some t =>
      if t.observed then s.withOutcome (.pushback branch t.generation) scopeDepth
      else s.handleStepError .retryDiverges
    | none => s.handleStepError .retryDiverges
  | .cut operation => s.enterCut operation branch scopeDepth false none
  | .tryCut operation => s.enterCut operation branch scopeDepth true none
  | .fix function =>
    Task.startFixpoint { s with roots := s.roots ++ [⟨function, branch, scopeDepth⟩] }
      s.roots.length [] []
  | .onState access =>
    match access branch.state with
    | some (value, state) =>
      { s with work := .deliver value { branch with state := state } scopeDepth }
    | none => s.withOutcome branch.intoFailure scopeDepth
  | .read address trying => s.read address trying branch scopeDepth
  | .edit address edit => s.edit address edit branch scopeDepth
  | .reset key operation => s.reset key operation branch scopeDepth
  | .shift key function => s.shift key function branch scopeDepth
  | .resume id value => { s with work := .resume id value branch scopeDepth }
  | .specialized => { s with work := .specialize branch scopeDepth }
  | .malformed => s.handleStepError .malformedEffect

/-- Goes on with what the host answered to a request of its own. -/
def completeSpecializationRequest (result : RequestResult L)
    (branch : Branch L) (scopeDepth : Nat) : Task L :=
  match result with
  | .ret value => { s with work := .deliver value branch scopeDepth }
  | .drive effect => { s with work := .drive { branch with effect := effect } scopeDepth }
  | .scoped operation close =>
    { s with
      work := .drive { branch.push (.closeScope close) with effect := operation } scopeDepth }
  | .fail => s.withOutcome branch.intoFailure scopeDepth
  | .pushback generation => s.withOutcome (.pushback branch generation) scopeDepth

/-- `specialization_step`: the host has answered a request of its specialization. -/
def specializationStep (answer : Answer L) (branch : Branch L) (scopeDepth : Nat) : Task L :=
  let seen := s.consult branch answer.observed
  seen.2.completeSpecializationRequest answer.result
    (if answer.committed then { seen.1 with retry := none } else seen.1) scopeDepth

/-- A task that is woken goes on with the work it was blocked at, or runs a cut again. -/
def applyWake (wake : WakeAction L) : Task L :=
  let s := { s with blocked := none }
  match wake with
  | .replaceWork work => { s with work := work, explored := [] }
  | .restartCut index => s.restartCut index

/-- `validate_blocked_retry`: the task wakes once something it observed has changed. -/
def pollBlocked (wake : RetryWake L) : Task L :=
  match wake.validation with
  | some t =>
    if s.conflicts t then s.applyWake wake.action
    else
      { s with blocked := some { wake with observedGeneration := s.generation } }
  | none => if s.generation ≠ wake.observedGeneration then s.applyWake wake.action else s

/-- **A step of a task.** The answer is read where the host is asked for one. -/
def step (answer : Answer L) : Task L :=
  match s.terminal, s.blocked with
  | some _, _ => s
  | none, some wake => s.pollBlocked wake
  | none, none =>
    match s.work with
    | .drive branch scopeDepth =>
      s.interpretRequest (L.decode branch.effect) branch scopeDepth
    | .deliver value branch scopeDepth => s.deliverStep value branch scopeDepth
    | .resume id value branch scopeDepth => s.resume id value branch scopeDepth
    | .specialize branch scopeDepth => s.specializationStep answer branch scopeDepth
    | .outcome outcome scopeDepth => s.handleOutcome outcome scopeDepth

/-- A task about to run an effect. -/
def start (effect : L.Effect) (state : L.Local) (store : L.Address → Cell L) : Task L where
  work := .drive
    { effect := effect
      control := {}
      state := state
      transaction := none
      activeFixes := []
      fixRestarts := []
      retry := none } 0
  cuts := []
  blocked := none
  terminal := none
  continuations := []
  roots := []
  nextControlOrder := 0
  nextHandle := 0
  assigned := []
  store := store
  generation := 0
  nextTransaction := 0
  observations := fun _ => []
  explored := []

/-! ### What the parts of a step do -/

theorem fixChoice_fields (branch : Branch L) (active : ActiveFix)
    (rest : List ActiveFix) :
    (fixChoice branch active rest).2.control = branch.control ∧
      (fixChoice branch active rest).2.state = branch.state ∧
      (fixChoice branch active rest).2.transaction = branch.transaction ∧
      (fixChoice branch active rest).2.retry = branch.retry := by
  unfold fixChoice
  split <;> exact ⟨rfl, rfl, rfl, rfl⟩

theorem applyEdits_eq (s : Task L) (edits : List (L.Address × CellEdit L)) :
    ∃ store generation, s.applyEdits edits = { s with store := store, generation := generation } := by
  induction edits with
  | nil => exact ⟨s.store, s.generation, rfl⟩
  | cons edit edits ih =>
    obtain ⟨store, generation, heq⟩ := ih
    rw [applyEdits, heq]
    exact ⟨_, _, rfl⟩

/-- A restart is the last one of the branch, in the scope of its fixpoint. -/
theorem restartFixpoint_cases (s : Task L) (failed : Branch L) (scopeDepth : Nat) :
    s.restartFixpointAtScope failed scopeDepth = none ∧
      (∀ restart, failed.fixRestarts.head? = some restart →
        restartScope s.roots restart < scopeDepth) ∨
    ∃ restart, failed.fixRestarts.head? = some restart ∧
      (scopeDepth < restartScope s.roots restart ∧
        s.restartFixpointAtScope failed scopeDepth = some (s.handleStepError .escapedRestart) ∨
      restartScope s.roots restart = scopeDepth ∧ ∃ choices restarts,
        s.restartFixpointAtScope failed scopeDepth =
          some (s.startFixpoint restart.root choices restarts)) := by
  unfold restartFixpointAtScope
  rcases hr : failed.fixRestarts with _ | ⟨⟨root, choices, inherited⟩, restarts⟩
  · exact .inl ⟨rfl, nofun⟩
  · dsimp only
    by_cases hlt : restartScope s.roots (.mk root choices inherited) < scopeDepth
    · refine .inl ⟨if_pos hlt, fun restart hhead => ?_⟩
      cases hhead
      exact hlt
    · refine .inr ⟨_, rfl, ?_⟩
      rw [if_neg hlt]
      by_cases hgt : scopeDepth < restartScope s.roots (.mk root choices inherited)
      · exact .inl ⟨hgt, if_pos hgt⟩
      · exact .inr ⟨by omega, choices, inherited, if_neg hgt⟩

/-! ### Runs -/

/-- Runs a task for some steps, with one answer. -/
def steps (answer : Answer L) : Nat → Task L → Task L
  | 0, s => s
  | count + 1, s => steps answer count (s.step answer)

end Task

/-! ### A small language

Effects over numbers and one cell of the shared store, with the functions that the examples need.
-/

namespace Sample

/-- Values of a small language to run the machine on. -/
inductive Value
  | number (number : Nat)
  | handle (id : Nat)
  | marker (id : Nat)
  | tried (outcome : TryOutcome)
deriving DecidableEq

mutual

/-- Its effects. -/
inductive Effect
  | ret (value : Value)
  | seq (operation : Effect) (continuation : Function)
  | alt (left right : Effect)
  | fail
  | cut (operation : Effect)
  | fix (function : Function)
  | read
  | reset (operation : Effect)
  | shift (function : Function)
  | resume (id : Nat) (value : Value)
  | malformed

/-- Its functions. -/
inductive Function
  /-- ignores its argument -/
  | const (effect : Effect)
  /-- adds to its argument -/
  | add (number : Nat)
  /-- calls its argument -/
  | callWith (number : Nat)

end

/-- What a function does with a value. -/
def apply : Function → Value → Effect
  | .const effect, _ => effect
  | .add number, .number number' => .ret (.number (number' + number))
  | .callWith number, .handle id => .resume id (.number number)
  | _, _ => .malformed

/-- The signature of the language. A branch's own state holds the reset frames and nothing else. -/
def signature : Signature where
  Effect := Effect
  Value := Value
  Function := Function
  Key := Unit
  Local := List (Nat × Nat × Nat)
  Address := Unit

/-- The request that an effect makes. -/
def decode : Effect → Request signature
  | .ret value => .ret value
  | .seq operation continuation => .seq operation continuation
  | .alt left right => .alt left right
  | .fail => .fail
  | .cut operation => .cut operation
  | .fix function => .fix function
  | .read => .read () false
  | .reset operation => .reset () operation
  | .shift function => .shift () function
  | .resume id value => .resume id value
  | .malformed => .malformed

/-- The small language as one that the machine runs. -/
def language : Language where
  toSignature := signature
  keyEq := fun _ _ => .isTrue rfl
  addressEq := fun _ _ => .isTrue rfl
  decode := decode
  apply := apply
  handle := .handle
  marker := .marker
  unit := .number 0
  isUnit := fun value : Value => decide (value = .number 0)
  undefined := .number 0
  tryOk value := value
  tryOutcome := .tried
  resets state := some (state.map fun frame => ⟨(), frame.1, frame.2.1, frame.2.2⟩)
  withResets _ frames := frames.map fun frame => (frame.continuation, frame.scopeDepth, frame.order)
  resets_withResets := by
    intro state frames
    rw [List.map_map]
    exact congrArg some (List.map_id frames)

/-- A task of the small language, over a store with one cell. -/
def task (effect : Effect) : Task language :=
  Task.start effect [] fun _ => ⟨some (.number 0), 0⟩

/-- An answer for a host that is never asked. -/
def answer : Answer signature := ⟨.fail, none, false⟩

/-- A task of the small language after some steps. -/
def run (effect : Effect) (count : Nat) : Task language :=
  Task.steps answer count (task effect)

end Sample

end Glam.Reflection
