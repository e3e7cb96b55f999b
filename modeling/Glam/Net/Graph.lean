import Glam.Lib.Spec
import Glam.Lib.Table
import Glam.Net.Model

/-!
# Runtime nets and their wires

The state of a runtime net and the operations that every rule is made of: adding and removing nodes,
and making and cutting wires (`interaction_net/runtime/graph.rs`).

The source keeps each node's links in the node's entry; here they are one table by port, which a
removed node leaves empty. An assertion that fails is an error that names it (`Panic`). The source's
debug assertions about signs are left out: that they hold is a theorem about the rules.
-/

namespace Glam.Net

/-- The assertions of the modelled code. -/
inductive Panic
  /-- `an interaction-net port cannot wire to itself` -/
  | selfWire
  /-- `valid_port(left) && valid_port(right)` -/
  | invalidPort
  /-- `neighbor(left).is_none() && neighbor(right).is_none()` -/
  | wiredTwice
  /-- `one active pair cannot inherit two pairless cursor obligations` -/
  | twoObligations
  /-- `an in-flight pairless cursor claim cannot change graph ownership` -/
  | claimedTransfer
  /-- `active pair must be new` -/
  | pairNotNew
  /-- `neighbor node must exist` -/
  | missingNeighbor
  /-- a fresh node's number is in use -/
  | nodeReused
  /-- `removed node must exist` -/
  | missingNode
  /-- a removed node is still wired -/
  | removedWired
  /-- `interaction auxiliary port must be wired` -/
  | unwiredAuxiliary
  /-- a boundary's replacements do not match its sockets -/
  | badReplacements
  /-- a rule met a node it does not apply to -/
  | badNode
  /-- a claim is not what its holder expects -/
  | badClaim
  /-- a copy or its frontier is not what a cursor expects -/
  | badFrontier
deriving DecidableEq

/-- The work that a demand leads to. -/
inductive DemandEndpoint
  | activePair (pair : ActivePairKey)
  | cursor (cursor : NodeId)
deriving DecidableEq

variable {S : NetSpecialization}

/-- Where the demand of a source was seen to lead, at which revision of the source. -/
structure FrontierObservation (S : NetSpecialization) where
  source : S.RuntimeSource
  observedTopology : Nat
  endpoint : DemandEndpoint

/-- What a blocked cursor waits for. -/
inductive CursorDependency (S : NetSpecialization)
  | localCursor (cursor : NodeId)
  | sourceCursor (observation : FrontierObservation S)
  | sourceFrontier (observation : FrontierObservation S)

/-- Why a cursor does not go on. -/
inductive CursorBlockage (S : NetSpecialization)
  | dependency (dependency : CursorDependency S)
  | stable

/-- The state of a cursor that is in no active pair and was demanded. -/
inductive PairlessCursorState (S : NetSpecialization)
  | ready
  | claimed
  | blocked (dependency : CursorDependency S)
  | stable

/-- Why a pair does not reduce. -/
inductive StuckReason (S : NetSpecialization)
  | noRule
  | specialization (reason : S.StuckReason)

/-- What is known of two nodes that meet at their principal ports. -/
inductive ActivePairState (S : NetSpecialization)
  | ready
  | claimed
  | blockedCallableCheckpoint (generation : Nat) (wait : S.WaitToken)
  | blockedCursor (cursor : NodeId) (blockage : CursorBlockage S)
  | stuck (reason : StuckReason S)

/-- Whether a cursor without a pair is claimed. -/
def PairlessCursorState.isClaimed : PairlessCursorState S → Bool
  | .claimed => true
  | _ => false

/-- Whether a pair is claimed. -/
def ActivePairState.isClaimed : ActivePairState S → Bool
  | .claimed => true
  | _ => false

/-- A logical copy under way: its source, the cursor at each source port it has reached, and the
sites it gave the source's fans. -/
structure CopyState (S : NetSpecialization) where
  source : S.RuntimeSource
  frontiers : Table Port NodeId
  fanSites : Table FanSite FanSite

/-- A net at run time: nodes by their ids, links by the ports at both of their ends, and what is
known of its active pairs and cursors. -/
structure RuntimeNet (S : NetSpecialization) where
  nextNodeId : Nat
  nextFanSite : Nat
  exposed : Option Port
  nodes : Table NodeId (RuntimeNode S)
  /-- at each wired port, its peer and the peer's sign -/
  links : Table Port SignedPort
  nextCopyId : Nat
  copies : Table CopyId (CopyState S)
  cursorObligations : Table NodeId (PairlessCursorState S)
  active : Table ActivePairKey (ActivePairState S)

namespace RuntimeNet

/-- The net without a node. -/
def empty : RuntimeNet S := ⟨0, 0, none, ∅, ∅, 0, ∅, ∅, ∅⟩

variable (net : RuntimeNet S)

/-- Whether a port is one of a node of the net. -/
def validPort (port : Port) : Bool :=
  match net.nodes.get port.node with
  | some node => decide (port.index < node.portCount)
  | none => false

/-- The typed reference stored at `port`: its peer and the peer's sign. -/
def reference (port : Port) : Option SignedPort :=
  if net.validPort port then net.links.get port else none

/-- The port at the other end of a wire. -/
def neighbor (port : Port) : Option Port :=
  (net.reference port).map SignedPort.port

/-- `port` with its own sign, the opposite of its stored reference's. -/
def signed (port : Port) : Option SignedPort :=
  (net.reference port).map fun peer => ⟨port, peer.sign.opposite⟩

/-- The key of the pair that a node is in: the smaller one of the two ids. -/
def activePairKey (node : NodeId) : Option ActivePairKey :=
  match net.neighbor (.principal node) with
  | some neighbor => if neighbor.IsPrincipal then some (min node neighbor.node) else none
  | none => none

/-- Both nodes of an active pair, the lower-numbered first. -/
def pairNodes (pair : ActivePairKey) : Option (NodeId × NodeId) :=
  match net.neighbor (.principal pair) with
  | some right => if right.IsPrincipal ∧ pair < right.node then some (pair, right.node) else none
  | none => none

/-- Adds a node under the next id. -/
def addNode (node : RuntimeNode S) : Except Panic (NodeId × RuntimeNet S) := do
  check ((net.nodes.get net.nextNodeId).isNone) .nodeReused
  .ok (net.nextNodeId,
    { net with nextNodeId := net.nextNodeId + 1, nodes := net.nodes.set net.nextNodeId node })

/-- Removes a node, with its obligation, and returns it. -/
def removeNode (id : NodeId) : Except Panic (RuntimeNode S × RuntimeNet S) :=
  match net.nodes.get id with
  | none => .error .missingNode
  | some node => do
    check (∀ index : Nat, index < 3 → (net.links.get ⟨id, index⟩).isNone) .removedWired
    .ok (node,
      { net with
        cursorObligations := net.cursorObligations.remove id
        nodes := net.nodes.remove id })

/-- Cuts the wire at `port` and returns the port at its other end. -/
def disconnect (port : Port) : Except Panic (Option Port × RuntimeNet S) :=
  match net.neighbor port with
  | none => .ok (none, net)
  | some neighbor => do
    check ((net.nodes.get neighbor.node).isSome) .missingNeighbor
    .ok (some neighbor, { net with links := (net.links.remove port).remove neighbor })

/-- The cursor whose obligation a wire between two principal ports moves into their pair. -/
def transferredCursor (left right : Port) : Option NodeId :=
  if (net.cursorObligations.get left.node).isSome then some left.node
  else if (net.cursorObligations.get right.node).isSome then some right.node
  else none

/-- The state of an active pair that takes over a cursor's obligation. -/
def transferredState (cursor : NodeId) : PairlessCursorState S → Except Panic (ActivePairState S)
  | .ready => .ok .ready
  | .claimed => .error .claimedTransfer
  | .blocked dependency => .ok (.blockedCursor cursor (.dependency dependency))
  | .stable => .ok (.blockedCursor cursor .stable)

/-- Takes the obligation that the wire moves into its pair, if there is one, and gives the state of
the pair. -/
def transfer (left right : Port) : Except Panic (Option (ActivePairState S) × RuntimeNet S) := do
  check (¬ ((net.cursorObligations.get left.node).isSome ∧
    (net.cursorObligations.get right.node).isSome)) .twoObligations
  match net.transferredCursor left right with
  | none => .ok (none, net)
  | some cursor =>
    match net.cursorObligations.get cursor with
    | none => .ok (none, net)
    | some obligation => do
      let state ← transferredState cursor obligation
      .ok (some state, { net with cursorObligations := net.cursorObligations.remove cursor })

/-- Enters a new principal-principal wire into the table of active pairs. -/
def schedule (pair : ActivePairKey)
    (transferred : Option (ActivePairState S)) : Except Panic (RuntimeNet S) :=
  match net.active.get pair with
  | none => .ok { net with active := net.active.set pair (transferred.getD .ready) }
  | some state =>
    if state.isClaimed ∧ transferred.isNone then
      .ok { net with active := net.active.set pair .ready }
    else .error .pairNotNew

/-- Writes the two ends of a wire: each port's slot references the other, typed by the other's
sign. -/
def link (left right : SignedPort) : RuntimeNet S :=
  { net with links := (net.links.set left.port right).set right.port left }

/-- Writes one wire. A wire between two principal ports is an active pair from then on, and takes
over the obligation of a cursor it joins. -/
def wire (left right : SignedPort) : Except Panic (RuntimeNet S) := do
  check (left.port ≠ right.port) .selfWire
  check (net.validPort left.port ∧ net.validPort right.port) .invalidPort
  check ((net.neighbor left.port).isNone ∧ (net.neighbor right.port).isNone) .wiredTwice
  if left.port.IsPrincipal ∧ right.port.IsPrincipal then do
    let (transferred, net) ← net.transfer left.port right.port
    (net.link left right).schedule (min left.port.node right.port.node) transferred
  else .ok (net.link left right)

/-- Binds an unwired port to a typed reference. The port takes the opposite sign. -/
def bindReference (port : Port) (reference : SignedPort) : Except Panic (RuntimeNet S) :=
  net.wire ⟨port, reference.sign.opposite⟩ reference

end RuntimeNet

end Glam.Net
