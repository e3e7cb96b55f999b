import Glam.Net.WholeCopy

/-!
# The operations of a runtime net

Reducing an active pair, and what the evaluator does with the callable checkpoints whose reduction is
left to it (`interaction_net/runtime.rs`). A reduction claims its pair. The rules rewrite the pair at
once; for calls the claim is held by an evaluator that works without the net, and comes back to
complete, fail or release it. How a call of data or of an operator is settled is left out. -/

namespace Glam.Net

variable {S : NetSpecialization}

/-- The kinds of reductions. -/
inductive ReductionKind
  | bindJoin
  | fanJoin (identity : FanIdentity)
  | fanCommute (left right : FanIdentity)
  | fanData (identity : FanIdentity)
  | fanBind (identity : FanIdentity)
  | fanOperator (identity : FanIdentity)
  | erase
  | call (bind data : NodeId)
  | callableCheckpoint (bind checkpoint : NodeId)
  | operatorCall (operator data : NodeId)
  | remoteCursor (cursor : NodeId)
  | stuck
deriving DecidableEq

/-- A bind that meets data. -/
structure Call where
  pair : ActivePairKey
  bind : NodeId
  data : NodeId
deriving DecidableEq

/-- A bind that meets a checkpoint, with the generation of the checkpoint's payload. -/
structure CallableCheckpointCall where
  pair : ActivePairKey
  bind : NodeId
  checkpoint : NodeId
  generation : Nat
deriving DecidableEq

/-- What is waited for when a checkpoint is blocked. -/
structure BlockedCallableCheckpoint (S : NetSpecialization) where
  call : CallableCheckpointCall
  wait : S.WaitToken

namespace RuntimeNet

/-! ### Reduction -/

variable (net : RuntimeNet S)

/-- A pair that no rule applies to stays stuck. -/
def stickPair (pair : ActivePairKey) : RuntimeNet S :=
  { net with active := net.active.set pair (.stuck .noRule) }

/-- Removes the pair that a rule has rewritten. -/
def finishPair (pair : ActivePairKey) : Except Panic (RuntimeNet S) := do
  check (net.pairIsClaimed pair) .badClaim
  .ok { net with active := net.active.remove pair }

/-- Reduces the claimed pair of `left` and `right`. -/
def reduceNodes (pair : ActivePairKey) (left right : NodeId) :
    RuntimeNode S → RuntimeNode S → Except Panic (ReductionKind × RuntimeNet S)
  | .remoteCursor _ _, _ => do
    match ← net.beginCursorClaim left (some pair) with
    | some net => .ok (.remoteCursor left, net)
    | none => .error .badClaim
  | _, .remoteCursor _ _ => do
    match ← net.beginCursorClaim right (some pair) with
    | some net => .ok (.remoteCursor right, net)
    | none => .error .badClaim
  | .bind, .callableCheckpoint _ _ => .ok (.callableCheckpoint left right, net)
  | .callableCheckpoint _ _, .bind => .ok (.callableCheckpoint right left, net)
  | .callableCheckpoint _ _, _ => .ok (.stuck, net.stickPair pair)
  | _, .callableCheckpoint _ _ => .ok (.stuck, net.stickPair pair)
  | .bind, .bind => do
    let net ← net.join left right 2 .crossed
    let net ← net.finishPair pair
    .ok (.bindJoin, net)
  | .fan leftIdentity, .fan rightIdentity =>
    if leftIdentity = rightIdentity then do
      let net ← net.join left right 2 .positional
      let net ← net.finishPair pair
      .ok (.fanJoin leftIdentity, net)
    else do
      let net ← net.commuteFans left leftIdentity right rightIdentity
      let net ← net.finishPair pair
      .ok (.fanCommute leftIdentity rightIdentity, net)
  | .fan identity, .data _ => do
    let net ← net.duplicateData left right
    let net ← net.finishPair pair
    .ok (.fanData identity, net)
  | .data _, .fan identity => do
    let net ← net.duplicateData right left
    let net ← net.finishPair pair
    .ok (.fanData identity, net)
  | .fan identity, .bind => do
    let net ← net.duplicateBind left identity right
    let net ← net.finishPair pair
    .ok (.fanBind identity, net)
  | .bind, .fan identity => do
    let net ← net.duplicateBind right identity left
    let net ← net.finishPair pair
    .ok (.fanBind identity, net)
  | .fan identity, .operator _ => do
    let net ← net.duplicateOperator left identity right
    let net ← net.finishPair pair
    .ok (.fanOperator identity, net)
  | .operator _, .fan identity => do
    let net ← net.duplicateOperator right identity left
    let net ← net.finishPair pair
    .ok (.fanOperator identity, net)
  | .erase, _ => do
    let net ← net.erase left right
    let net ← net.finishPair pair
    .ok (.erase, net)
  | _, .erase => do
    let net ← net.erase right left
    let net ← net.finishPair pair
    .ok (.erase, net)
  | .bind, .data _ => .ok (.call left right, net)
  | .data _, .bind => .ok (.call right left, net)
  | .operator _, .data _ => .ok (.operatorCall left right, net)
  | .data _, .operator _ => .ok (.operatorCall right left, net)
  | .data _, .data _ => .ok (.stuck, net.stickPair pair)
  | .operator _, _ => .ok (.stuck, net.stickPair pair)
  | _, .operator _ => .ok (.stuck, net.stickPair pair)
  -- an interface's principal port is never wired
  | .interface, _ => .error .badNode
  | _, .interface => .error .badNode

/-- Reduces one active pair if it is ready. -/
def reducePair (pair : ActivePairKey) : Except Panic (Option (ReductionKind × RuntimeNet S)) :=
  match net.active.get pair with
  | some .ready =>
    let net := { net with active := net.active.set pair .claimed }
    match net.pairNodes pair with
    | none => .error .badNode
    | some (left, right) =>
      match net.nodes.get left, net.nodes.get right with
      | some leftNode, some rightNode => do
        let reduced ← net.reduceNodes pair left right leftNode rightNode
        .ok (some reduced)
      | _, _ => .error .badNode
  | _ => .ok none

/-! ### Calls -/

/-- Cuts the principal wire between `node` and `partner`. -/
def separate (node partner : NodeId) : Except Panic (RuntimeNet S) := do
  let (neighbor, net) ← net.disconnect (.principal node)
  check (neighbor = some (.principal partner)) .badNode
  .ok net

/-- Whether a node is a bind. -/
def isBind : RuntimeNode S → Bool
  | .bind => true
  | _ => false

/-- Removes a node of a known kind. -/
def removeKind (kind : RuntimeNode S → Bool) (node : NodeId) : Except Panic (RuntimeNet S) := do
  let (removed, net) ← net.removeNode node
  check (kind removed) .badNode
  .ok net

/-- Replaces an application's argument and result sockets with one operator's ports. -/
def attachApplicationOperator (boundary : RewriteBoundary)
    (operator : S.Operator) : Except Panic (NodeId × RuntimeNet S) := do
  let (node, net) ← net.addNode (.operator operator)
  let net ← net.attachBoundary boundary [.port (.principal node), .port (.auxiliary node 1)]
  .ok (node, net)

/-! ### Callable checkpoints -/

/-- The call that an active pair of a bind and a checkpoint stands for. -/
def callableCheckpoint (net : RuntimeNet S) (pair : ActivePairKey) :
    Option CallableCheckpointCall :=
  match net.pairNodes pair with
  | none => none
  | some (left, right) =>
    match net.nodes.get left, net.nodes.get right with
    | some .bind, some (.callableCheckpoint generation _) => some ⟨pair, left, right, generation⟩
    | some (.callableCheckpoint generation _), some .bind => some ⟨pair, right, left, generation⟩
    | _, _ => none

/-- Whether a bind has the id. -/
def holdsBind (node : NodeId) : Bool :=
  match net.nodes.get node with
  | some node => isBind node
  | none => false

/-- Replaces the data of a claimed call by a checkpoint of its evaluation. The payload is given back
where that is not possible. -/
def installClaimedCallCheckpoint (call : Call)
    (payload : S.CallableCheckpoint) : Option (CallableCheckpointCall × RuntimeNet S) :=
  match net.nodes.get call.data with
  | some (.data _) =>
    if net.pairIsClaimed call.pair ∧ net.holdsBind call.bind then
      some (⟨call.pair, call.bind, call.data, 0⟩,
        { net with
          nodes := net.nodes.set call.data (.callableCheckpoint 0 (some payload))
          active := net.active.set call.pair .ready })
    else none
  | _ => none

variable (call : CallableCheckpointCall)

/-- Takes the payload of a claimed checkpoint. A claimed pair whose bind is there is expected to have
its checkpoint's node too. -/
def takeClaimedCallableCheckpoint :
    Except Panic (Option (S.CallableCheckpoint × RuntimeNet S)) :=
  if net.pairIsClaimed call.pair ∧ net.holdsBind call.bind then
    match net.nodes.get call.checkpoint with
    | none => .error .badClaim
    | some (.callableCheckpoint generation (some payload)) =>
      if generation = call.generation then
        .ok (some (payload,
          { net with
            nodes := net.nodes.set call.checkpoint (.callableCheckpoint generation none) }))
      else .ok none
    | some _ => .ok none
  else .ok none

/-- Puts a payload into the empty claimed checkpoint, under the generation `next`. -/
def refillClaimedCheckpoint (payload : S.CallableCheckpoint) (next : Nat) :
    Option (CallableCheckpointCall × RuntimeNet S) :=
  match net.nodes.get call.checkpoint with
  | some (.callableCheckpoint generation none) =>
    if net.pairIsClaimed call.pair ∧ net.holdsBind call.bind ∧ generation = call.generation then
      some ({ call with generation := next },
        { net with
          nodes := net.nodes.set call.checkpoint (.callableCheckpoint next (some payload))
          active := net.active.set call.pair .ready })
    else none
  | _ => none

/-- Puts the payload back that was taken, under the same generation. -/
def restoreClaimedCallableCheckpoint
    (payload : S.CallableCheckpoint) : Option (CallableCheckpointCall × RuntimeNet S) :=
  net.refillClaimedCheckpoint call payload call.generation

/-- Puts another payload in the place of the one that was taken, under the next generation. -/
def replaceClaimedCallableCheckpoint
    (payload : S.CallableCheckpoint) : Option (CallableCheckpointCall × RuntimeNet S) :=
  net.refillClaimedCheckpoint call payload (call.generation + 1)

/-- Blocks a published checkpoint on what it waits for. -/
def blockCallableCheckpoint (wait : S.WaitToken) : Option (RuntimeNet S) :=
  match net.active.get call.pair with
  | some .ready =>
    if net.callableCheckpoint call.pair = some call then
      some { net with
        active := net.active.set call.pair (.blockedCallableCheckpoint call.generation wait) }
    else none
  | _ => none

section Wait

variable [DecidableEq S.WaitToken]

/-- The pair is blocked on what `blocked` waits for. -/
def waitsFor (blocked : BlockedCallableCheckpoint S) : Bool :=
  match net.active.get blocked.call.pair with
  | some (.blockedCallableCheckpoint generation wait) =>
    decide (generation = blocked.call.generation ∧ wait = blocked.wait)
  | _ => false

/-- Makes the pair of a blocked checkpoint ready again. -/
def retryBlockedCallableCheckpoint (blocked : BlockedCallableCheckpoint S) :
    Option (RuntimeNet S) :=
  if net.callableCheckpoint blocked.call.pair = some blocked.call ∧ net.waitsFor blocked then
    some { net with active := net.active.set blocked.call.pair .ready }
  else none

/-- Gives a blocked checkpoint up, and hands out its payload. -/
def failBlockedCallableCheckpoint (blocked : BlockedCallableCheckpoint S)
    (reason : S.StuckReason) : Option (S.CallableCheckpoint × RuntimeNet S) :=
  match net.nodes.get blocked.call.checkpoint with
  | some (.callableCheckpoint generation (some payload)) =>
    if net.holdsBind blocked.call.bind ∧ net.waitsFor blocked ∧
        generation = blocked.call.generation then
      some (payload,
        { net with
          nodes := net.nodes.set blocked.call.checkpoint (.callableCheckpoint generation none)
          active := net.active.set blocked.call.pair (.stuck (.specialization reason)) })
    else none
  | _ => none

end Wait

/-- Gives a checkpoint up whose payload was taken. -/
def failClaimedCallableCheckpoint (reason : S.StuckReason) : Option (RuntimeNet S) :=
  match net.nodes.get call.checkpoint with
  | some (.callableCheckpoint generation none) =>
    if net.pairIsClaimed call.pair ∧ net.holdsBind call.bind ∧ generation = call.generation then
      some { net with active := net.active.set call.pair (.stuck (.specialization reason)) }
    else none
  | _ => none

/-- Gives a checkpoint up whose payload was put back. -/
def failPublishedCallableCheckpoint (reason : S.StuckReason) : Option (RuntimeNet S) :=
  match net.nodes.get call.checkpoint, net.active.get call.pair with
  | some (.callableCheckpoint generation (some _)), some .ready =>
    if net.holdsBind call.bind ∧ generation = call.generation then
      some { net with
        nodes := net.nodes.set call.checkpoint (.callableCheckpoint generation none)
        active := net.active.set call.pair (.stuck (.specialization reason)) }
    else none
  | _, _ => none

/-- Takes a claimed checkpoint whose payload is gone out of the net. -/
def takeEmptyClaimedCheckpoint : Except Panic (RuntimeNet S) :=
  match net.nodes.get call.checkpoint with
  | some (.callableCheckpoint generation none) => do
    check (net.pairIsClaimed call.pair ∧ net.holdsBind call.bind ∧ generation = call.generation)
      .badClaim
    let net := { net with active := net.active.remove call.pair }
    let net ← net.separate call.bind call.checkpoint
    let (_, net) ← net.removeNode call.checkpoint
    .ok net
  | _ => .error .badClaim

/-- Completes a checkpointed call: the copy stands where the checkpoint stood, facing the bind. -/
def resumeClaimedCheckpointWithCopy
    (source : PreparedCopySource S) : Except Panic (NodeId × RuntimeNet S) :=
  match net.signed (.principal call.bind) with
  | none => .error .badClaim
  | some bind => do
    let net ← net.takeEmptyClaimedCheckpoint call
    net.installCopy source bind

/-- Goes on with an operator in the place of the bind and the checkpoint. -/
def resumeClaimedCheckpointWithOperator
    (operator : S.Operator) : Except Panic (NodeId × RuntimeNet S) := do
  let net ← net.takeEmptyClaimedCheckpoint call
  let (boundary, net) ← net.detachBoundary (auxiliaryPorts call.bind 2)
  let net ← net.removeKind isBind call.bind
  net.attachApplicationOperator boundary operator

end RuntimeNet

end Glam.Net
